/-
The heap blocks that answering a request takes, and the functions of `util.c` and `jsonx.c` on them. What the allocator
is free in is a parameter, and so is json-c.
-/
import SubConverter.C.Alloc
import SubConverter.Lib.Own
import SubConverter.Src.Jsonx

namespace SubConverter

open CMem Own

/-! ## Blocks -/

/-- `httpc_response` with its pointers. -/
structure ResponseBlock where
  status : Int
  body : Option ℕ
  headers : Option ℕ
  nheaders : Nat

/-- What a block holds: the bytes of a string before its terminator, a `strbuf` with its data pointer, a JSON object, a
tokener, an `httpc_response`, or an array whose elements are pointers or structures of pointers, `none` where nothing is
written yet. -/
inductive Block
  | chars (b : Bytes)
  | strbuf (data : Option ℕ)
  | json (v : Json)
  | tokener
  | response (r : ResponseBlock)
  | array (elems : List (Option (List ℕ)))

/-- A run on the heap. It may abort; a use of a block that is not live is a fault. -/
abbrev HeapRun (α : Type) := Own.Prog Stop Block α

/-- The fault of such a use. -/
def deadBlock : Stop := .fault .oob

/-- A run without blocks. -/
def liftRun {α : Type} : Run α → HeapRun α
  | .ok a => pure a
  | .error e => Own.fail (.fault e)

/-- `oom_abort` where there is no room. -/
def newOrAbort (A : Allocator) (v : Block) : HeapRun ℕ := do
  match ← Own.alloc A v with
  | some p => pure p
  | none => Own.fail .abort

def loadChars (p : ℕ) : HeapRun Bytes := do
  match ← Own.load deadBlock p with
  | .chars b => pure b
  | _ => Own.fail deadBlock

def loadStrbuf (p : ℕ) : HeapRun (Option ℕ) := do
  match ← Own.load deadBlock p with
  | .strbuf data => pure data
  | _ => Own.fail deadBlock

def loadJson (p : ℕ) : HeapRun Json := do
  match ← Own.load deadBlock p with
  | .json v => pure v
  | _ => Own.fail deadBlock

def loadResponse (p : ℕ) : HeapRun ResponseBlock := do
  match ← Own.load deadBlock p with
  | .response r => pure r
  | _ => Own.fail deadBlock

def loadArray (p : ℕ) : HeapRun (List (Option (List ℕ))) := do
  match ← Own.load deadBlock p with
  | .array elems => pure elems
  | _ => Own.fail deadBlock

/-- `free`, which takes a null pointer too. -/
def freePtr (p : Option ℕ) : HeapRun Unit :=
  match p with
  | none => pure ()
  | some p => Own.free deadBlock p

/-! ## util.c -/

/-- `xstrdup`. -/
def xstrdupHeap (A : Allocator) (s : CStr) : HeapRun ℕ := newOrAbort A (.chars s.bytes)

/-- `strbuf_append_bytes` on a buffer with this data pointer. -/
def strbufAppend (A : Allocator) (data : Option ℕ) (b : Bytes) : HeapRun (Option ℕ) :=
  match data with
  | none => do
    return some (← newOrAbort A (.chars b))
  | some p => do
    let old ← loadChars p
    match ← Own.resize deadBlock A p (.chars (old ++ b)) with
    | some q => pure (some q)
    | none => Own.fail .abort

/-- The text of a buffer. -/
def strbufText (data : Option ℕ) : HeapRun Bytes :=
  match data with
  | none => pure []
  | some p => loadChars p

/-- `strbuf_free`. -/
def strbufFree (data : Option ℕ) : HeapRun Unit := freePtr data

/-- `strbuf_detach` of `server.c`: the string, and the data pointer that is left. -/
def strbufDetachHeap (A : Allocator) (data : Option ℕ) : HeapRun (ℕ × Option ℕ) :=
  match data with
  | none => do
    return (← xstrdupHeap A (.lit ""), none)
  | some p => pure (p, none)

/-! ## jsonx.c -/

/-- `jsonx_parse`: the object, null where the text is no JSON value or there is no room to parse it. -/
def jsonxParseHeap (A : Allocator) (tok : Tokener) (data : Bytes) : HeapRun (Option ℕ) :=
  if intMax < data.length then pure none
  else do
    match ← Own.alloc A (.chars data) with
    | none => pure none
    | some copy =>
      match ← Own.alloc A .tokener with
      | none => do
        Own.free deadBlock copy
        return none
      | some t => do
        let text ← loadChars copy
        let o ← match Json.ptr (tok text) with
          | some v => Own.alloc A (.json v)
          | none => pure none
        Own.free deadBlock t
        Own.free deadBlock copy
        return o

/-! ## Arrays of pointers -/

/-- An array with its counters. -/
structure PtrArray where
  arr : Option ℕ
  n : Nat
  cap : Nat

namespace PtrArray

def init : PtrArray := ⟨none, 0, 0⟩

/-- `realloc` to `ncap` elements, `none` where there is no room. -/
def grow (A : Allocator) (a : PtrArray) (ncap : Nat) : HeapRun (Option PtrArray) :=
  match a.arr with
  | none => do
    return (← Own.alloc A (.array (List.replicate ncap none))).map fun p => ⟨some p, a.n, ncap⟩
  | some p => do
    let elems ← loadArray p
    let wider := elems.take ncap ++ List.replicate (ncap - elems.length) none
    return (← Own.resize deadBlock A p (.array wider)).map fun p => ⟨some p, a.n, ncap⟩

/-- An array that is full grows. -/
def ensure (A : Allocator) (a : PtrArray) (full : Prop) [Decidable full] (ncap : Nat) : HeapRun (Option PtrArray) :=
  if full then a.grow A ncap else pure (some a)

/-- `arr[n++] = elem`. -/
def store (a : PtrArray) (elem : List ℕ) : HeapRun PtrArray :=
  match a.arr with
  | none => Own.fail (.fault .null)
  | some p => do
    let elems ← loadArray p
    if a.n < elems.length then
      Own.store deadBlock p (.array (elems.set a.n (some elem)))
      return { a with n := a.n + 1 }
    else Own.fail deadBlock

end PtrArray

/-- `free` of each pointer of an element. -/
def freeElem : List ℕ → HeapRun Unit
  | [] => pure ()
  | p :: ps => do
    Own.free deadBlock p
    freeElem ps

/-- The loop over `k` elements from `i` on that frees their pointers. -/
def freeElems (arr : Option ℕ) : Nat → Nat → HeapRun Unit
  | 0, _ => pure ()
  | k + 1, i =>
    match arr with
    | none => Own.fail (.fault .null)
    | some p => do
      match (← loadArray p)[i]? with
      | some (some elem) => do
        freeElem elem
        freeElems (some p) k (i + 1)
      | _ => Own.fail deadBlock

/-- The pointers of `n` elements and the array are freed. -/
def freeArray (arr : Option ℕ) (n : Nat) : HeapRun Unit := do
  freeElems arr n 0
  freePtr arr

end SubConverter
