/-
`jsonx.c`: the typed accessors over parsed JSON. The tokener of json-c is a parameter `tok` from
texts to values; what it returns is the value tree below, in which a member or element that is
JSON `null` is a null pointer.
-/
import SubConverter.Src.Util

namespace SubConverter

open CMem

/-- A value as json-c parses it. Strings may hold any byte, integers come from an `int64_t` or a
`uint64_t`, and no modelled function reads a boolean or a double. -/
inductive Json
  | null
  | bool
  | int (i : Int)
  | double
  | str (s : Bytes)
  | arr (xs : List Json)
  | obj (members : List (Bytes × Json))

mutual

/-- The bytes a text has at least that a value is parsed from. -/
def Json.size : Json → Nat
  | .null => 1
  | .bool => 1
  | .int _ => 1
  | .double => 1
  | .str s => s.length + 2
  | .arr xs => elemsSize xs + 1
  | .obj members => membersSize members + 1

/-- The elements of an array, each with its comma or bracket. -/
def elemsSize : List Json → Nat
  | [] => 0
  | x :: xs => x.size + 1 + elemsSize xs

/-- The members of an object, each with its quotes, its colon and its comma or brace. -/
def membersSize : List (Bytes × Json) → Nat
  | [] => 0
  | m :: ms => m.1.length + m.2.size + 4 + membersSize ms

end

/-- `json_tokener_parse_ex` with its checks: a text to its value, `none` on a parse error. The text has the bytes of
every key and every string. -/
structure Tokener where
  run : Bytes → Option Json
  size_le : ∀ text v, run text = some v → v.size ≤ text.length

instance : CoeFun Tokener fun _ => Bytes → Option Json := ⟨Tokener.run⟩

namespace Tokener

/-- A tokener that accepts no text. -/
def refusing : Tokener := ⟨fun _ => none, fun _ _ h => by cases h⟩

/-- A tokener that accepts one text. -/
def only (text : Bytes) (v : Json) (h : v.size ≤ text.length) : Tokener where
  run t := if t = text then some v else none
  size_le t w ht := by
    split at ht
    · rename_i heq
      cases ht
      rwa [heq]
    · cases ht

theorem only_self {text : Bytes} {v : Json} {h : v.size ≤ text.length} : only text v h text = some v := if_pos rfl

end Tokener

/-- A pointer to a value: JSON `null` is the null pointer. -/
def Json.ptr : Option Json → Option Json
  | some .null => none
  | v => v

def Json.isObject : Json → Bool
  | .obj _ => true
  | _ => false

def jsonxParse (tok : Tokener) (data : Option Bytes) : Option Json :=
  match data with
  | none => none
  | some d => if intMax < d.length then none else Json.ptr (tok d)

def jsonxObjGet (v : Json) (key : String) : Option Json :=
  match v with
  | .obj members => Json.ptr ((members.find? fun m => m.1 == str key).map (·.2))
  | _ => none

/-- `jsonx_arr_len` and `jsonx_arr_get`: the elements, with null pointers for JSON `null`. -/
def jsonxElems (v : Json) : List (Option Json) :=
  match v with
  | .arr xs => xs.map fun x => Json.ptr (some x)
  | _ => []

def jsonxArrGet (v : Json) (i : Nat) : Option Json := ((jsonxElems v)[i]?).join

/-- `json_object_get_int64` on an integer value: a `uint64_t` beyond `int64_t` saturates. -/
def jsonxInt (i : Int) : Int := max (-2 ^ 63) (min i (2 ^ 63 - 1))

/-- `jsonx_get_string`, also `v = jsonx_obj_get(..)` with `v && jsonx_is_string(v)`. A string is read
up to its first NUL. -/
def jsonxGetString (v : Json) (key : String) : Option CStr :=
  match jsonxObjGet v key with
  | some (.str s) => some (CStr.ofBytes s)
  | _ => none

def jsonxGetInt (v : Json) (key : String) : Option Int :=
  match jsonxObjGet v key with
  | some (.int i) => some (jsonxInt i)
  | _ => none

def jsonxGetObj (v : Json) (key : String) : Option Json :=
  match jsonxObjGet v key with
  | some (.obj ms) => some (.obj ms)
  | _ => none

/-- `v = jsonx_obj_get(..)` with `v && jsonx_is_array(v)`. -/
def jsonxGetArr (v : Json) (key : String) : Option Json :=
  match jsonxObjGet v key with
  | some (.arr xs) => some (.arr xs)
  | _ => none

/-- `v = jsonx_arr_get(a, i)` with `v && jsonx_is_object(v)`. -/
def jsonxArrObj (v : Json) (i : Nat) : Option Json :=
  match jsonxArrGet v i with
  | some (.obj ms) => some (.obj ms)
  | _ => none

/-! ## Entries of an object -/

/-- `json_object_object_length`. -/
def Json.objectLength : Json → Nat
  | .obj members => members.length
  | _ => 0

/-- `json_object_object_foreach` with the counter `i`, up to the member at `index`. -/
def foreachAt (index : Nat) : Nat → List (Bytes × Json) → Option (Bytes × Json)
  | _, [] => none
  | i, m :: ms => if i = index then some m else foreachAt index (i + 1) ms

/-- `jsonx_obj_entries`: key, value and the next index, `none` for -1. A key is a C string. -/
def jsonxObjEntries (v : Json) (index : Nat) : Option (CStr × Option Json × Nat) :=
  match v with
  | .obj members =>
    if index ≥ Json.objectLength v then none
    else (foreachAt index 0 members).map fun m => (CStr.ofBytes m.1, Json.ptr (some m.2), index + 1)
  | _ => none

/-- `jsonx_str` of a value that passes `jsonx_is_string`. -/
def jsonxStr : Option Json → Option CStr
  | some (.str s) => some (CStr.ofBytes s)
  | _ => none

/-! ## Sizes -/

theorem Json.ptr_some {v w : Json} (h : Json.ptr (some v) = some w) : w = v := by
  cases v <;> cases h <;> rfl

theorem elemsSize_mem {x : Json} : ∀ {xs : List Json}, x ∈ xs → x.size + 1 ≤ elemsSize xs
  | y :: xs, h => by
    rw [elemsSize]
    rcases List.mem_cons.1 h with rfl | h
    · omega
    · have := elemsSize_mem h
      omega

theorem membersSize_mem {m : Bytes × Json} : ∀ {ms : List (Bytes × Json)}, m ∈ ms →
    m.1.length + m.2.size + 4 ≤ membersSize ms
  | m' :: ms, h => by
    rw [membersSize]
    rcases List.mem_cons.1 h with rfl | h
    · omega
    · have := membersSize_mem h
      omega

theorem membersSize_two {m n : Bytes × Json} (hne : m ≠ n) : ∀ {ms : List (Bytes × Json)}, m ∈ ms → n ∈ ms →
    (m.1.length + m.2.size + 4) + (n.1.length + n.2.size + 4) ≤ membersSize ms
  | m' :: ms, hm, hn => by
    rw [membersSize]
    rcases List.mem_cons.1 hm with rfl | hm'
    · have := membersSize_mem ((List.mem_cons.1 hn).resolve_left (Ne.symm hne))
      omega
    · rcases List.mem_cons.1 hn with rfl | hn'
      · have := membersSize_mem hm'
        omega
      · have := membersSize_two hne hm' hn'
        omega

theorem jsonxObjGet_mem {v w : Json} {key : String} (h : jsonxObjGet v key = some w) :
    ∃ ms, v = .obj ms ∧ (str key, w) ∈ ms := by
  unfold jsonxObjGet at h
  split at h
  · rename_i ms
    rcases hm : ms.find? (fun m => m.1 == str key) with _ | ⟨k, u⟩
    · rw [hm] at h
      cases h
    · rw [hm] at h
      obtain rfl := Json.ptr_some h
      have hkey := List.find?_some hm
      simp only [beq_iff_eq] at hkey
      exact ⟨ms, rfl, hkey ▸ List.mem_of_find?_eq_some hm⟩
  · cases h

/-- A member is shorter than its object, by its key and its punctuation. -/
theorem jsonxObjGet_size {v w : Json} {key : String} (h : jsonxObjGet v key = some w) :
    w.size + (str key).length + 5 ≤ v.size := by
  obtain ⟨ms, rfl, hm⟩ := jsonxObjGet_mem h
  have := membersSize_mem hm
  rw [Json.size]
  simp only at this
  omega

/-- Two members stand beside each other. -/
theorem jsonxObjGet_size_two {v w u : Json} {key key' : String} (h : jsonxObjGet v key = some w)
    (h' : jsonxObjGet v key' = some u) (hne : str key ≠ str key') :
    w.size + (str key).length + (u.size + (str key').length) + 9 ≤ v.size := by
  obtain ⟨ms, rfl, hm⟩ := jsonxObjGet_mem h
  obtain ⟨ms', hms, hm'⟩ := jsonxObjGet_mem h'
  obtain rfl := Json.obj.inj hms
  have := membersSize_two (fun heq => hne (congrArg Prod.fst heq)) hm hm'
  rw [Json.size]
  simp only at this
  omega

theorem length_ofBytes_le (s : Bytes) : (CStr.ofBytes s).bytes.length ≤ s.length :=
  (List.takeWhile_prefix _).length_le

theorem jsonxGetString_size {v : Json} {key : String} {s : CStr} (h : jsonxGetString v key = some s) :
    s.bytes.length + (str key).length + 7 ≤ v.size := by
  unfold jsonxGetString at h
  split at h
  · rename_i t ht
    cases h
    have hsize := jsonxObjGet_size ht
    have hlen := length_ofBytes_le t
    rw [Json.size] at hsize
    omega
  · cases h

/-- What is parsed is no longer than the limit of the tokener. -/
theorem jsonxParse_size {tok : Tokener} {data : Option Bytes} {v : Json} (h : jsonxParse tok data = some v) :
    v.size ≤ intMax := by
  unfold jsonxParse at h
  split at h
  · cases h
  · rename_i d
    split at h
    · cases h
    · rename_i hlen
      rcases ht : tok d with _ | u
      · rw [ht] at h
        cases h
      · rw [ht] at h
        obtain rfl := Json.ptr_some h
        have := tok.size_le d v ht
        omega

end SubConverter
