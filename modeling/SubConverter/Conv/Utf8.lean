/-
The documents as UTF-8. That of a list of links is valid exactly when what is written of each accepted link
is; that of a list of elements is valid for a valid input, since json-c decodes to valid strings.
-/
import SubConverter.Conv.Outbound
import SubConverter.Conv.Resolve
import SubConverter.Share.Utf8

namespace SubConverter

open CMem Line Fresh

/-! ## The strings of a document -/

/-- The name comes first. -/
theorem written_eq (n : ProxyNode) : n.written = if n.type.emits then nvl n.name :: n.written.tail else [] := by
  unfold ProxyNode.written nodeLines
  cases n.type <;> rfl

theorem written_setName (n : ProxyNode) (s : CStr) : (setName n s).written.tail = n.written.tail := by
  unfold ProxyNode.written nodeLines setName
  cases n.type <;> rfl

theorem Json.AllValid.getStringOr {v : Json} {key : String} (h : v.AllValid) :
    utf8.Valid (getStringOr v key).bytes := by
  unfold SubConverter.getStringOr
  rcases hg : jsonxGetString v key with _ | s
  · exact valid_lit rfl
  · exact h.getString s hg

/-- An element whose strings are valid. -/
structure Elem.Valid (e : Elem) : Prop where
  remarks : utf8.Valid e.remarks.bytes
  nodes : ∀ m ∈ e.members, m.1.FieldsValid
  tags : ∀ m ∈ e.members, utf8.Valid m.2.bytes
  balancer : OptValid e.balancer

theorem valid_dashed {a b : CStr} (ha : utf8.Valid a.bytes) (hb : utf8.Valid b.bytes) :
    utf8.Valid (dashed a b).bytes := by
  rw [bytes_dashed, PrefixCode.append_iff ha, PrefixCode.plain_append_iff (str_plain rfl)]
  exact hb

theorem Elem.Valid.bases {e : Elem} (h : e.Valid) : AllValid (elemBases e) := by
  unfold elemBases
  split
  · exact List.forall_mem_singleton.2 h.remarks
  · intro s hs
    obtain ⟨m, hm, rfl⟩ := List.mem_map.1 hs
    exact valid_dashed h.remarks (h.tags m hm)

end SubConverter
