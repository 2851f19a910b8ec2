/-
The strings that are written of an accepted link. The parsers copy some of them from the line and decode the
others, by percent escapes, from base64 or as JSON. Which of them reach the document depends on the scheme, and
on the transport and the security the link asks for.
-/
import SubConverter.Emit.Strings
import SubConverter.Share.Accepted

namespace SubConverter

open CMem

/-! ## JSON -/

/-- The strings inside a value. -/
inductive Json.HasString : Json → Bytes → Prop
  | str (s : Bytes) : HasString (.str s) s
  | arr {x : Json} {xs : List Json} {s : Bytes} : x ∈ xs → HasString x s → HasString (.arr xs) s
  | obj {m : Bytes × Json} {ms : List (Bytes × Json)} {s : Bytes} : m ∈ ms → HasString m.2 s → HasString (.obj ms) s

/-- All strings inside the value are valid. -/
def Json.AllValid (v : Json) : Prop := ∀ s, v.HasString s → utf8.Valid s

/-- What json-c decodes from a valid text: valid strings. -/
def TokenerUtf8 (tok : Tokener) : Prop := ∀ d v s, utf8Validate d d.length = .ok true → tok d = some v →
  v.HasString s → utf8Validate s s.length = .ok true

theorem ptr_eq_some {v : Option Json} {w : Json} (h : Json.ptr v = some w) : v = some w := by
  unfold Json.ptr at h
  split at h
  · cases h
  · exact h

theorem TokenerUtf8.parse {tok : Tokener} (htok : TokenerUtf8 tok) {d : Bytes} (hd : utf8.Valid d) {v : Json}
    (h : jsonxParse tok (some d) = some v) : v.AllValid := by
  have htext : tok d = some v := by
    unfold jsonxParse at h
    simp only at h
    split at h
    · cases h
    · exact ptr_eq_some h
  exact fun s hs => (utf8Validate_iff s).1 (htok d v s ((utf8Validate_iff d).2 hd) htext hs)

namespace Json.AllValid

theorem objGet {v w : Json} {key : String} (h : v.AllValid) (hg : jsonxObjGet v key = some w) : w.AllValid := by
  unfold jsonxObjGet at hg
  split at hg
  · obtain ⟨m, hm, rfl⟩ := Option.map_eq_some_iff.1 (ptr_eq_some hg)
    exact fun s hs => h s (.obj (List.mem_of_find?_eq_some hm) hs)
  · cases hg

theorem elem {v w : Json} (h : v.AllValid) (hm : some w ∈ jsonxElems v) : w.AllValid := by
  unfold jsonxElems at hm
  split at hm
  · obtain ⟨x, hx, hw⟩ := List.mem_map.1 hm
    cases ptr_eq_some hw
    exact fun s hs => h s (.arr hx hs)
  · cases hm

theorem getString {v : Json} {key : String} (h : v.AllValid) : OptValid (jsonxGetString v key) := by
  intro s hg
  unfold jsonxGetString at hg
  split at hg
  · rename_i t ht
    cases hg
    exact valid_ofBytes (h.objGet ht t (.str t))
  · cases hg

end Json.AllValid

/-! ## What is written of a link -/

end SubConverter
