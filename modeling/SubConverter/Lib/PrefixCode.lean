/-
Prefix codes whose words may be single letters that occur in no other word, such as the ASCII bytes in
UTF-8. A concatenation of words can be cut at each such letter, and such letters can be put in, dropped
or replaced by others.
-/
import Mathlib

/-- The words of a prefix code; a `Plain` letter is a word and is in no other one. -/
structure PrefixCode (α : Type) where
  Word : List α → Prop
  Plain : α → Prop
  not_nil : ¬ Word []
  prefixFree : ∀ {v w : List α}, Word v → Word w → v <+: w → v = w
  plainWord : ∀ {c : α}, Plain c → Word [c]
  plainAlone : ∀ {c : α} {w : List α}, Word w → c ∈ w → Plain c → w = [c]

namespace PrefixCode

variable {α : Type}

/-- The concatenations of words. -/
inductive Valid (C : PrefixCode α) : List α → Prop
  | nil : Valid C []
  | append {w l : List α} : C.Word w → Valid C l → Valid C (w ++ l)

variable {C : PrefixCode α}

/-! ## Appending -/

theorem word_append_iff {w l : List α} (hw : C.Word w) : C.Valid (w ++ l) ↔ C.Valid l := by
  refine ⟨fun h => ?_, .append hw⟩
  generalize hx : w ++ l = x at h
  cases h with
  | nil => exact absurd ((List.append_eq_nil_iff.1 hx).1 ▸ hw) C.not_nil
  | @append v m hv hm =>
    have hvw : w = v := by
      rcases List.prefix_or_prefix_of_prefix (hx ▸ List.prefix_append w l) (List.prefix_append v m) with h | h
      · exact C.prefixFree hw hv h
      · exact (C.prefixFree hv hw h).symm
    subst hvw
    rwa [List.append_cancel_left hx]

theorem append_iff {a b : List α} (ha : C.Valid a) : C.Valid (a ++ b) ↔ C.Valid b := by
  induction ha with
  | nil => rfl
  | append hw _ ih => rw [List.append_assoc, word_append_iff hw, ih]

theorem plain_cons_iff {c : α} {l : List α} (hc : C.Plain c) : C.Valid (c :: l) ↔ C.Valid l :=
  word_append_iff (C.plainWord hc)

/-- No word reaches over a plain letter. -/
theorem Valid.before_plain {c : α} (hc : C.Plain c) : ∀ {x : List α}, C.Valid x → ∀ {a b : List α}, x = a ++ c :: b →
    C.Valid a := by
  intro x h
  induction h with
  | nil => intro a b h; simp at h
  | @append w l hw _ ih =>
    intro a b h
    rcases List.append_eq_append_iff.1 h with ⟨r, rfl, hl⟩ | ⟨r, rfl, hr⟩
    · exact .append hw (ih hl)
    · -- the word ends before the letter, or contains it and is that letter alone
      rcases r with _ | ⟨d, r⟩
      · rw [List.append_nil] at hw
        exact List.append_nil a ▸ .append hw .nil
      · obtain ⟨rfl, -⟩ := List.cons.inj hr
        have h1 := C.plainAlone hw (List.mem_append_right _ (List.mem_cons_self ..)) hc
        have hlen := congrArg List.length h1
        simp only [List.length_append, List.length_cons, List.length_nil] at hlen
        obtain rfl := List.eq_nil_of_length_eq_zero (show a.length = 0 by omega)
        exact .nil

theorem valid_of_plain : ∀ {p : List α}, (∀ c ∈ p, C.Plain c) → C.Valid p
  | [], _ => .nil
  | c :: p, h => (plain_cons_iff (h c (by simp))).2 (valid_of_plain fun d hd => h d (by simp [hd]))

theorem plain_append_iff {p l : List α} (h : ∀ c ∈ p, C.Plain c) : C.Valid (p ++ l) ↔ C.Valid l :=
  append_iff (valid_of_plain h)

/-- A valid text is valid up to any plain letter. -/
theorem Valid.takeWhile_ne [DecidableEq α] {c : α} (hc : C.Plain c) {l : List α} (h : C.Valid l) :
    C.Valid (l.takeWhile (· ≠ c)) := by
  have hl := List.takeWhile_append_dropWhile (p := (· ≠ c)) (l := l)
  rcases hd : l.dropWhile (· ≠ c) with _ | ⟨d, r⟩
  · rw [hd, List.append_nil] at hl
    rwa [hl]
  · have hdc : d = c := by
      have h := List.head?_dropWhile_not (· ≠ c) l
      rw [hd] at h
      simpa using h
    rw [hd, hdc] at hl
    exact h.before_plain hc hl.symm

end PrefixCode
