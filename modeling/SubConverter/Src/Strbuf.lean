/-
`util.c`: the memory behind a `strbuf`, with its capacity and its `size_t` computations. The other modules use the
buffer by its content.
-/
import SubConverter.C.Alloc
import SubConverter.C.Str

namespace SubConverter

open CMem

/-- `strbuf`: `data` is the allocated block. -/
structure StrbufRep where
  data : Option Bytes
  len : Nat
  cap : Nat
  deriving DecidableEq

namespace StrbufRep

/-- `strbuf_init`. -/
def init : StrbufRep := ⟨none, 0, 0⟩

/-- `strbuf_free`. -/
def free (_ : StrbufRep) : StrbufRep := ⟨none, 0, 0⟩

/-- `strbuf_clear`. -/
def clear (sb : StrbufRep) : Exec StrbufRep :=
  match sb.data with
  | none => .ok ⟨none, 0, sb.cap⟩
  | some block => do
    .ok ⟨some (← store (some block) 0 [0]), 0, sb.cap⟩

/-- The `memcpy` of `strbuf_append_bytes`, left out when there is nothing to copy. -/
def copyIn (sb : StrbufRep) (b : Bytes) : Exec (Option Bytes) :=
  if b = [] then .ok sb.data else (store sb.data sb.len b).map some

section Sizes

variable (m : Arch) (σ : Arith)

/-- The loop of `strbuf_grow`. -/
def growLoop : Nat → Nat → Nat → Exec Nat
  | 0, _, _ => .error (.fault .fuel)
  | fuel + 1, ncap, need =>
    if ncap < need then
      if ncap > m.sizeMax / 2 then .error .abort
      else do
        growLoop fuel (← m.size σ (ncap * 2)) need
    else .ok ncap

/-- `strbuf_grow`: from 1 on, the capacity doubles as often as a `size_t` has bits at most. -/
def grow (r : Realloc) (sb : StrbufRep) (need : Nat) : Exec StrbufRep :=
  if need ≤ sb.cap then .ok sb
  else do
    let ncap ← growLoop m σ (m.sizeBits + 1) (if sb.cap = 0 then 32 else sb.cap) need
    match r.run sb.data ncap with
    | none => .error .abort
    | some nd => .ok { sb with data := some nd, cap := ncap }

/-- `strbuf_reserve`. -/
def reserve (r : Realloc) (sb : StrbufRep) (extra : Nat) : Exec StrbufRep := do
  if extra ≥ (← m.sizeSub σ m.sizeMax sb.len) then .error .abort
  else grow m σ r sb (← m.size σ ((← m.size σ (sb.len + extra)) + 1))

/-- `strbuf_append_bytes`. -/
def appendBytes (r : Realloc) (sb : StrbufRep) (b : Bytes) : Exec (Int × StrbufRep) := do
  let sb ← reserve m σ r sb b.length
  let data ← sb.copyIn b
  let len ← m.size σ (sb.len + b.length)
  let data ← store data len [0]
  .ok (0, ⟨some data, len, sb.cap⟩)

/-- `strbuf_append_str`. -/
def appendStr (r : Realloc) (sb : StrbufRep) (s : CStr) : Exec (Int × StrbufRep) := appendBytes m σ r sb s.bytes

/-- `strbuf_append_char`. -/
def appendChar (r : Realloc) (sb : StrbufRep) (c : Byte) : Exec (Int × StrbufRep) := appendBytes m σ r sb [c]

/-- `strbuf_appendf` of a format and its arguments, with the text they give. -/
def appendf (r : Realloc) (sb : StrbufRep) (text : Option Bytes) : Exec (Int × StrbufRep) :=
  let n := vsnprintfLen m text
  if n < 0 then .ok (-1, sb)
  else do
    let size := n.toNat % 2 ^ m.sizeBits
    let sb ← reserve m σ r sb size
    let data ← vsnprintf sb.data sb.len (← m.sizeSub σ sb.cap sb.len) (text.getD [])
    let len ← m.size σ (sb.len + size)
    .ok (n, ⟨data, len, sb.cap⟩)

end Sizes

end StrbufRep

/-- A call with the buffer as its argument. -/
inductive StrbufOp
  | appendBytes (b : Bytes)
  | appendStr (s : CStr)
  | appendChar (c : Byte)
  | appendf (text : Option Bytes)
  | clear
  | free

/-- The return code of the call, 0 where it has none, and the buffer. -/
def StrbufOp.run (m : Arch) (σ : Arith) (r : Realloc) (sb : StrbufRep) : StrbufOp → Exec (Int × StrbufRep)
  | appendBytes b => sb.appendBytes m σ r b
  | appendStr s => sb.appendStr m σ r s
  | appendChar c => sb.appendChar m σ r c
  | appendf text => sb.appendf m σ r text
  | clear => do
    .ok (0, ← sb.clear)
  | free => .ok (0, sb.free)

/-- One call after the other, each with what `realloc` does in it. -/
def runOps (m : Arch) (σ : Arith) : List (Realloc × StrbufOp) → StrbufRep → Exec StrbufRep
  | [], sb => .ok sb
  | (r, op) :: ops, sb => do
    let (_, sb) ← op.run m σ r sb
    runOps m σ ops sb

end SubConverter
