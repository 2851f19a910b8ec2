/-
`conv_base64.c`: a list of share links, plain or in base64, to a document. The renaming of
`conv_singbox.c` is the same code and is modelled here once. A run returns the return code and what
`*out_yaml` holds afterwards.
-/
import SubConverter.Src.NodeEmit
import SubConverter.Src.Share

namespace SubConverter

open CMem

/-- `conv_ctx`: the body, and what will lie behind a text decoded from it: the block of a buffer is longer
than its text, and `realloc` leaves the rest of it as it finds it. -/
structure ConvCtx where
  data : Bytes
  spare : Bytes
  fits : data.length + spare.length + 1 < 2 ^ 63

/-! ## Unique names -/

/-- `name_used`. -/
def nameUsed (used : List CStr) (name : CStr) : Bool := used.any fun u => u.bytes == name.bytes

/-- The search of `assign_unique_name`; each round is one candidate. `suffix` is an `int`. -/
def assignUniqueLoop (used : List CStr) (base : CStr) : Nat → Nat → CStr → Run CStr
  | 0, _, _ => .error .fuel
  | fuel + 1, suffix, cand =>
    if nameUsed used cand then
      -- `suffix++` of the largest `int`
      if suffix ≥ intMax then .error .wrap
      else do
        let next ← xstrdup (Strbuf.init.appendf (base.bytes ++ (str " - " ++ decimal suffix))).data
        assignUniqueLoop used base fuel (suffix + 1) next
    else .ok cand

/-- `assign_unique_name`: the name and the names in use afterwards. The candidates it may try are one
more than the names in use. -/
def assignUniqueName (used : List CStr) (base : CStr) : Run (CStr × List CStr) := do
  let cand ← assignUniqueLoop used base (used.length + 1) 2 base
  .ok (cand, used ++ [cand])

/-! ## The lines of the body -/

/-- `line_blank`, from index `i` on. -/
def lineBlank (line : Bytes) : Nat → Nat → Run Bool
  | _, 0 => .ok true
  | i, k + 1 => do
    if isWs (← rd line i) then lineBlank line (i + 1) k else .ok false

/-- One line of the body: the nodes afterwards. -/
def convLine (tok : Tokener) (line : Bytes) (len : Nat) (nodes : List ProxyNode) : Run (List ProxyNode) := do
  if ← lineBlank line 0 len then .ok nodes
  else do
    let (rc, node) ← nodeParseShare .machine tok line len
    .ok (if rc = 0 then nodes ++ [node] else nodes)

/-- The loop over `src`; the first list is what lies in memory from index `i` on. -/
def convLines (tok : Tokener) (src : Bytes) : Bytes → Nat → Nat → List ProxyNode → Run (List ProxyNode)
  | [], _, _, _ => .error .oob
  | c :: rest, i, start, nodes =>
    if c ≠ 10 ∧ c ≠ 0 then convLines tok src rest (i + 1) start nodes
    else do
      let nodes ← if i > start then convLine tok (src.drop start) (i - start) nodes else .ok nodes
      -- the last line ends at the terminator
      if c = 0 then .ok nodes else convLines tok src rest (i + 1) (i + 1) nodes

/-- The text the loop runs over, with its terminator and the rest of its block; `none` for -1. -/
def convSrc (ctx : ConvCtx) : Run (Option Bytes) :=
  if base64LooksLike ctx.data then
    let (rc, work) := base64Decode ctx.data .init
    if rc ≠ 0 then .ok none
    else
      match work.data with
      | none => .error .null
      | some b => .ok (some (b ++ 0 :: ctx.spare))
  -- a copy has no more than its own length
  else .ok (some (ctx.data ++ [0]))

/-! ## The document -/

/-- The naming pass. -/
def nameNodes : List ProxyNode → List CStr → Run (List ProxyNode)
  | [], _ => .ok []
  | n :: ns, used => do
    let (name, used) ← assignUniqueName used (nvl n.name)
    .ok ({ n with name := some name } :: (← nameNodes ns used))

/-- `none` for -1. -/
def emitNodes : List ProxyNode → Strbuf → Option Strbuf
  | [], out => some out
  | n :: ns, out =>
    let (rc, out) := nodeEmitYaml out n
    if rc ≠ 0 then none else emitNodes ns out

/-- A string that is used without a check. -/
def strArg (p : Option CStr) : Run CStr :=
  match p with
  | some s => .ok s
  | none => .error .null

def emitNames : List ProxyNode → Strbuf → Run Strbuf
  | [], out => .ok out
  | n :: ns, out => do
    emitNames ns (yamlEmitDash out 6 (← strArg n.name))

/-- `conv_base64_run` from the naming pass on. -/
def convBase64Emit (nodes : List ProxyNode) (outYaml : Option CStr) : Run (Int × Option CStr) := do
  let nodes ← nameNodes nodes []
  match emitNodes nodes (yamlEmitKv .init 0 "proxies" none) with
  | none => .ok (-1, outYaml)
  | some sb => do
    let sb := yamlEmitKv sb 0 "proxy-groups" none
    let sb := yamlEmitDashKv sb 2 "name" (.lit "PROXY")
    let sb := yamlEmitKv sb 4 "type" (some (.lit "select"))
    let sb := yamlEmitKv sb 4 "proxies" none
    let sb ← emitNames nodes sb
    let sb := yamlEmitDash sb 6 (.lit "DIRECT")
    .ok (0, some (← xstrdup sb.data))

def convBase64Run (tok : Tokener) (ctx : ConvCtx) (outYaml : Option CStr) : Run (Int × Option CStr) := do
  match ← convSrc ctx with
  | none => .ok (-1, outYaml)
  | some src => do
    let nodes ← convLines tok src src 0 0 []
    if nodes = [] then .ok (-1, outYaml) else convBase64Emit nodes outYaml

end SubConverter
