/-
`conv_singbox.c`: an array of sing-box or xray configurations to a document. The nodes and their tags
are parallel arrays; each element of the input has an `elem_meta` with its index range.
-/
import SubConverter.Src.ConvBase64

namespace SubConverter

open CMem

structure ElemMeta where
  first : Nat
  count : Nat
  groupName : Option CStr
  hasBalancer : Bool
  balancerTag : Option CStr

/-- What `calloc` leaves. -/
def elemMetaZero : ElemMeta := ⟨0, 0, none, false, none⟩

/-! ## Outbounds -/

def outboundTls (ss : Json) : NodeTls :=
  match jsonxGetString ss "security" with
  | some security => if security.is "reality" then .reality else if security.is "tls" then .tls else .none
  | none => .none

def outboundTransport (ss : Json) : NodeTransport :=
  match jsonxGetString ss "network" with
  | some network => if network.is "ws" then .ws else if network.is "xhttp" then .xhttp else .none
  | none => .none

/-- A string field, the empty string when there is none. -/
def getStringOr (v : Json) (key : String) : CStr := (jsonxGetString v key).getD (.lit "")

def applyWs (ss : Json) (n : ProxyNode) : ProxyNode :=
  match jsonxGetObj ss "wsSettings" with
  | some ws =>
    let host := match jsonxGetObj ws "headers" with
      | some hdrs => getStringOr hdrs "Host"
      | none => .lit ""
    { n with wsPath := some (getStringOr ws "path"), wsHost := some host }
  | none => n

def applyXhttp (ss : Json) (n : ProxyNode) : ProxyNode :=
  match jsonxGetObj ss "xhttpSettings" with
  | some xh =>
    { n with xhttpHost := some (getStringOr xh "host"), xhttpPath := some (getStringOr xh "path"),
             xhttpMode := some (getStringOr xh "mode") }
  | none => n

def applyReality (ss : Json) (n : ProxyNode) : ProxyNode :=
  match jsonxGetObj ss "realitySettings" with
  | some re =>
    { n with sni := some (getStringOr re "serverName"), realityPbk := some (getStringOr re "publicKey"),
             realitySid := some (getStringOr re "shortId"), fp := some (getStringOr re "fingerprint") }
  | none => n

def applyTls (ss : Json) (n : ProxyNode) : ProxyNode :=
  match jsonxGetObj ss "tlsSettings" with
  | some tls => { n with sni := some (getStringOr tls "serverName") }
  | none => n

/-- The stream settings of an outbound. -/
def applyStream (ob : Json) (n : ProxyNode) : ProxyNode :=
  match jsonxGetObj ob "streamSettings" with
  | some ss =>
    applyTls ss (applyReality ss (applyXhttp ss (applyWs ss
      { n with tls := outboundTls ss, transport := outboundTransport ss })))
  | none => n

/-- `parse_vless_outbound`: the node and the tag, null when there is none; `none` for -1. -/
def parseVlessOutbound (ob : Json) : Option (ProxyNode × Option CStr) := do
  let proto ← jsonxGetString ob "protocol"
  if !proto.is "vless" then none
  let settings ← jsonxGetObj ob "settings"
  let vnext ← jsonxGetArr settings "vnext"
  let v0 ← jsonxArrObj vnext 0
  let address ← jsonxGetString v0 "address"
  let port ← jsonxGetInt v0 "port"
  let users ← jsonxGetArr v0 "users"
  let u0 ← jsonxArrObj users 0
  let id ← jsonxGetString u0 "id"
  let n := { nodeInit with type := .vless, udp := true, server := some address, port := toInt32 port, uuid := some id }
  some (applyStream ob n, jsonxGetString ob "tag")

/-- The loop over the outbounds of an element, on the two arrays. -/
def scanOutbounds : List (Option Json) → List ProxyNode → List CStr → List ProxyNode × List CStr
  | [], nodes, tags => (nodes, tags)
  | ob :: obs, nodes, tags =>
    match ob with
    | some (.obj ms) =>
      match parseVlessOutbound (.obj ms) with
      | some (node, tag) => scanOutbounds obs (nodes ++ [node]) (tags ++ [nvl tag])
      | none => scanOutbounds obs nodes tags
    | _ => scanOutbounds obs nodes tags

/-! ## Elements -/

def isLeastPing (b : Json) : Bool :=
  match jsonxGetObj b "strategy" with
  | some strategy =>
    match jsonxGetString strategy "type" with
    | some type => type.is "leastPing"
    | none => false
  | none => false

/-- The tag of the first balancer with the strategy leastPing. -/
def scanBalancers : List (Option Json) → Option CStr
  | [] => none
  | b :: bals =>
    match b with
    | some (.obj ms) => if isLeastPing (.obj ms) then some (getStringOr (.obj ms) "tag") else scanBalancers bals
    | _ => scanBalancers bals

def elemOutbounds (elem : Json) : List (Option Json) :=
  match jsonxGetArr elem "outbounds" with
  | some obs => jsonxElems obs
  | none => []

def elemBalancer (elem : Json) : Option CStr :=
  match jsonxGetObj elem "routing" with
  | some routing =>
    match jsonxGetArr routing "balancers" with
    | some bals => scanBalancers (jsonxElems bals)
    | none => none
  | none => none

/-- The loop over the elements: the two arrays and the entries of `meta`. -/
def scanElems : List (Option Json) → List ProxyNode → List CStr → List ElemMeta →
    List ProxyNode × List CStr × List ElemMeta
  | [], nodes, tags, metas => (nodes, tags, metas)
  | elem :: elems, nodes, tags, metas =>
    match elem with
    | some (.obj ms) =>
      let (nodes', tags') := scanOutbounds (elemOutbounds (.obj ms)) nodes tags
      let balancer := elemBalancer (.obj ms)
      scanElems elems nodes' tags' (metas ++ [{ first := nodes.length, count := nodes'.length - nodes.length,
                                                groupName := some (getStringOr (.obj ms) "remarks"),
                                                hasBalancer := balancer.isSome, balancerTag := balancer }])
    -- the zeroed entry has no nodes and is passed over by the later loops
    | _ => scanElems elems nodes tags (metas ++ [elemMetaZero])

/-! ## Names -/

/-- `nodes[j]` and `tags[j]`. -/
def arrayAt {α : Type} (a : List α) (j : Nat) : Run α :=
  match a[j]? with
  | some x => .ok x
  | none => .error .oob

/-- The name of the node at `j`. -/
def nameNode (nodes : List ProxyNode) (used : List CStr) (j : Nat) (base : CStr) :
    Run (List ProxyNode × List CStr) := do
  let (name, used) ← assignUniqueName used base
  let n ← arrayAt nodes j
  .ok (nodes.set j { n with name := some name }, used)

/-- The names `group - tag` of the nodes from `j` on. -/
def nameRange (groupName : CStr) (tags : List CStr) :
    Nat → Nat → List ProxyNode → List CStr → Run (List ProxyNode × List CStr)
  | _, 0, nodes, used => .ok (nodes, used)
  | j, k + 1, nodes, used => do
    let base ← xstrdup (Strbuf.init.appendf (groupName.bytes ++ (str " - " ++ (← arrayAt tags j).bytes))).data
    let (nodes, used) ← nameNode nodes used j base
    nameRange groupName tags (j + 1) k nodes used

/-- The names of the nodes of one element: the group's name for a single node. -/
def nameElem (tags : List CStr) (m : ElemMeta) (nodes : List ProxyNode) (used : List CStr) :
    Run (List ProxyNode × List CStr) := do
  let groupName ← strArg m.groupName
  if m.count = 1 then nameNode nodes used m.first groupName
  else nameRange groupName tags m.first m.count nodes used

def nameElems (tags : List CStr) : List ElemMeta → List ProxyNode → List CStr → Run (List ProxyNode × List CStr)
  | [], nodes, used => .ok (nodes, used)
  | m :: metas, nodes, used =>
    if m.count = 0 then nameElems tags metas nodes used
    else do
      let (nodes, used) ← nameElem tags m nodes used
      nameElems tags metas nodes used

/-! ## The document -/

/-- The members from index `j` on. -/
def emitRange (nodes : List ProxyNode) : Nat → Nat → Strbuf → Run Strbuf
  | _, 0, out => .ok out
  | j, k + 1, out => do
    let n ← arrayAt nodes j
    emitRange nodes (j + 1) k (yamlEmitDash out 6 (← strArg n.name))

def emitUrlTest (nodes : List ProxyNode) (m : ElemMeta) (groupName : CStr) (out : Strbuf) : Run Strbuf := do
  let gn := Strbuf.init.appendf (groupName.bytes ++ (str " - " ++ (← strArg m.balancerTag).bytes))
  let out := yamlEmitDashKv out 2 "name" (← xstrdup gn.data)
  let out := yamlEmitKv out 4 "type" (some (.lit "url-test"))
  let out := yamlEmitKv out 4 "url" (some (.lit "http://www.gstatic.com/generate_204"))
  let out := yamlEmitKvInt out 4 "interval" 300
  let out := yamlEmitKvInt out 4 "tolerance" 50
  let out := yamlEmitKv out 4 "proxies" none
  emitRange nodes m.first m.count out

/-- The groups of one element. -/
def emitGroup (nodes : List ProxyNode) (m : ElemMeta) (out : Strbuf) : Run Strbuf := do
  let groupName ← strArg m.groupName
  let out := yamlEmitDashKv out 2 "name" groupName
  let out := yamlEmitKv out 4 "type" (some (.lit "select"))
  let out := yamlEmitKv out 4 "proxies" none
  let out ← emitRange nodes m.first m.count out
  let out := yamlEmitDash out 6 (.lit "DIRECT")
  if m.hasBalancer then emitUrlTest nodes m groupName out else .ok out

def emitGroups (nodes : List ProxyNode) : List ElemMeta → Strbuf → Run Strbuf
  | [], out => .ok out
  | m :: metas, out =>
    if m.count = 0 then emitGroups nodes metas out
    else do
      emitGroups nodes metas (← emitGroup nodes m out)

def emitGroupNames : List ElemMeta → Strbuf → Run Strbuf
  | [], out => .ok out
  | m :: metas, out =>
    if m.count = 0 then emitGroupNames metas out
    else do
      emitGroupNames metas (yamlEmitDash out 6 (← strArg m.groupName))

/-- `conv_singbox_run` from the naming pass on. -/
def convSingboxEmit (nodes : List ProxyNode) (tags : List CStr) (metas : List ElemMeta) :
    Run (Int × Option CStr) := do
  let (nodes, _) ← nameElems tags metas nodes []
  let sb := yamlEmitKv .init 0 "proxies" none
  let sb := nodes.foldl (fun sb n => (nodeEmitYaml sb n).2) sb
  let sb := yamlEmitKv sb 0 "proxy-groups" none
  let sb ← emitGroups nodes metas sb
  let sb := yamlEmitDashKv sb 2 "name" (.lit "PROXY")
  let sb := yamlEmitKv sb 4 "type" (some (.lit "select"))
  let sb := yamlEmitKv sb 4 "proxies" none
  let sb ← emitGroupNames metas sb
  let sb := yamlEmitDash sb 6 (.lit "DIRECT")
  .ok (0, some (← xstrdup sb.data))

def convSingboxRun (tok : Tokener) (ctx : ConvCtx) (outYaml : Option CStr) : Run (Int × Option CStr) :=
  match jsonxParse tok (some ctx.data) with
  | some (.arr xs) =>
    let (nodes, tags, metas) := scanElems (jsonxElems (.arr xs)) [] [] []
    if nodes = [] then .ok (-1, outYaml) else convSingboxEmit nodes tags metas
  | _ => .ok (-1, outYaml)

end SubConverter
