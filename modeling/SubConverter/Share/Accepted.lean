/-
The lines `node_parse_share` accepts: the node it returns has one of the types that are written, and
the line has a colon. In a larger text a line is accepted as it is alone.
-/
import SubConverter.Emit.Node
import SubConverter.Share.Forms
import SubConverter.Share.Safety

namespace SubConverter

open CMem

/-- The node of a line that `node_parse_share` accepts. -/
def acceptLine (tok : Tokener) (l : Bytes) : Option ProxyNode :=
  match nodeParseShare .machine tok l l.length with
  | .ok (rc, n) => if rc = 0 then some n else none
  | .error _ => none

/-! ## Types -/

theorem linkRun_emits {tok : Tokener} {b : Bytes} {n : ProxyNode} (h : linkRun tok b = .ok (some n)) :
    n.type.emits = true := by
  rw [linkRun_form] at h
  rcases hf : linkForm b with _ | ⟨type, p⟩ | t | p
  · rw [hf] at h
    cases h
  · rw [hf] at h
    rw [formRun_type h, LinkForm.type]
    rcases linkForm_user hf with rfl | rfl | rfl <;> rfl
  · rw [hf] at h
    rw [formRun_type h]
    rfl
  · rw [hf] at h
    rw [formRun_type h]
    rfl

/-! ## Schemes -/

/-- A line without a colon has no scheme. -/
theorem linkRun_noColon (tok : Tokener) {b : Bytes} (h : ch ':' ∉ b) :
    linkRun tok b = .ok none ∧ strayLink b = none := by
  have hno : ∀ scheme, ch ':' ∈ str scheme → stripScheme scheme b = none := by
    intro scheme hs
    rcases hb : stripScheme scheme b with _ | r
    · rfl
    · exact absurd (by rw [stripScheme_some hb]; exact List.mem_append_left _ hs) h
  have hv : vlessBody b = none := by
    rw [vlessBody, hno _ (by decide +kernel), hno _ (by decide +kernel)]; rfl
  constructor
  · rw [linkRun, hv, hno _ (by decide +kernel), hno _ (by decide +kernel)]
  · rw [strayLink, hv]; rfl

/-! ## Lines in a larger text -/

/-- The line `b`, with `t` behind it in memory, makes `node_parse_share` fault. -/
def LineFaults (tok : Tokener) (b t : Bytes) : Prop := NullPart tok (trimLine b) ∨ StrayFault b t

theorem acceptLine_of_noStray {tok : Tokener} {b : Bytes} (hs : strayLink (trimLine b) = none) :
    acceptLine tok b = match linkRun tok (trimLine b) with
      | .ok r => r
      | .error _ => none := by
  have h := nodeParseShare_eq .machine tok b [] hs
  rw [List.append_nil] at h
  rw [acceptLine, h]
  cases linkRun tok (trimLine b) with
  | error e => rfl
  | ok r => cases r <;> rfl

theorem acceptLine_of_stray {tok : Tokener} {b : Bytes} {a y : Bytes} (hs : strayLink (trimLine b) = some (a, y))
    (hlen : b.length < 2 ^ 63) : acceptLine tok b = none := by
  have h := nodeParseShare_stray_machine tok (t := []) hs (by simpa using hlen)
  rw [List.append_nil] at h
  rw [acceptLine]
  rcases h with ⟨-, h⟩ | ⟨-, h⟩
  · rw [h]; exact if_neg (by decide)
  · rw [h]

/-- A line in a larger text either faults or is accepted as it is alone. -/
theorem nodeParseShare_inPlace (tok : Tokener) {b t : Bytes} (hlen : (b ++ t).length < 2 ^ 63) :
    (LineFaults tok b t ∧ ∃ e, nodeParseShare .machine tok (b ++ t) b.length = .error e) ∨
      (¬ LineFaults tok b t ∧ nodeParseShare .machine tok (b ++ t) b.length = .ok (shareResult (acceptLine tok b))) := by
  rcases hs : strayLink (trimLine b) with _ | ⟨a, y⟩
  · have hno : ¬ StrayFault b t := by rintro ⟨a, y, r, h, -⟩; rw [hs] at h; cases h
    rw [nodeParseShare_eq .machine tok b t hs, acceptLine_of_noStray hs]
    rcases hl : linkRun tok (trimLine b) with e | r
    · exact .inl ⟨.inl (linkRun_error_iff.1 hl).2, e, rfl⟩
    · refine .inr ⟨?_, rfl⟩
      rintro (h | h)
      · rw [linkRun_error_iff.2 ⟨rfl, h⟩] at hl; cases hl
      · exact hno h
  · rw [acceptLine_of_stray hs (by simp at hlen; omega)]
    rcases nodeParseShare_stray_machine tok hs hlen with ⟨hf, h⟩ | ⟨hf, h⟩
    · exact .inr ⟨fun h => h.elim (not_nullPart_of_stray hs) hf, h⟩
    · exact .inl ⟨.inr hf, .oob, h⟩

theorem acceptLine_emits {tok : Tokener} {b : Bytes} {n : ProxyNode} (hlen : b.length < 2 ^ 63)
    (h : acceptLine tok b = some n) : n.type.emits = true := by
  rcases hs : strayLink (trimLine b) with _ | ⟨a, y⟩
  · rw [acceptLine_of_noStray hs] at h
    split at h
    · rename_i r hr; subst h; exact linkRun_emits hr
    · cases h
  · rw [acceptLine_of_stray hs hlen] at h; cases h

theorem acceptLine_noColon {tok : Tokener} {b : Bytes} (h : ch ':' ∉ b) : acceptLine tok b = none := by
  have ht : ch ':' ∉ trimLine b := by
    obtain ⟨r, hr⟩ := trimLine_append b
    rw [hr] at h; exact fun hm => h (List.mem_append_left _ hm)
  rw [acceptLine_of_noStray (linkRun_noColon tok ht).2, (linkRun_noColon tok ht).1]

end SubConverter
