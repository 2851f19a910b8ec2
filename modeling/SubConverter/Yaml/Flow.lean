/-
A reader of a flow sequence on one line: `[`, scalars with commas between them, `]`. A double-quoted scalar is
read as in block YAML; a plain one ends besides at every character that stands for the structure.
-/
import SubConverter.Yaml.Reader

namespace Yaml

open CMem

/-! ## Scalars in brackets -/

def isFlowIndicator (c : Byte) : Bool := (str ",[]{}").contains c

/-- The text up to the end of a plain scalar in brackets, and the text from there on. -/
def flowCut : Bytes → Bytes × Bytes
  | [] => ([], [])
  | c :: r =>
    if isFlowIndicator c ∨ (c = ch ':' ∧ r.head?.any isBlank) ∨ (isBlank c ∧ r.head? = some (ch '#')) then ([], c :: r)
    else (c :: (flowCut r).1, (flowCut r).2)

/-- The scalar at the start of a text in brackets and what follows it. -/
def readFlowScalar (t : Bytes) : Option (Bytes × Bytes) :=
  match t with
  | [] => none
  | c :: r =>
    if c = ch '"' then unquote r
    else if isIndicator c || isBlank c then none
    else if (flowCut t).1.all isPrintable then some ((flowCut t).1.rdropWhile isBlank, (flowCut t).2)
    else none

/-! ## Sequences -/

/-- The entries up to the closing bracket and the text behind it; a comma may come before the bracket. -/
def readEntries : Nat → Bytes → Option (List Bytes × Bytes)
  | 0, _ => none
  | fuel + 1, t =>
    match t.dropWhile isBlank with
    | [] => none
    | c :: r =>
      if c = ch ']' then some ([], r)
      else (readFlowScalar (c :: r)).bind fun p =>
        match p.2.dropWhile isBlank with
        | [] => none
        | d :: r =>
          if d = ch ',' then (readEntries fuel r).map fun q => (p.1 :: q.1, q.2)
          else if d = ch ']' then some ([p.1], r)
          else none

/-- A line that is one flow sequence; every entry takes a character at least. -/
def readFlowSeq (t : Bytes) : Option (List Bytes) :=
  match t with
  | [] => none
  | c :: r =>
    if c = ch '[' then
      match readEntries r.length r with
      | some (items, rest) => if rest = [10] then some items else none
      | none => none
    else none

/-! ## Laws -/

/-- A text that nothing cuts is cut where a flow indicator follows it. -/
theorem flowCut_end {s : Bytes} (h : (flowCut s).2 = []) {d : Byte} (hd : isFlowIndicator d = true) (r : Bytes) :
    flowCut (s ++ d :: r) = (s, d :: r) := by
  have hblank : isBlank d = false := by
    by_contra hb
    rw [Bool.not_eq_false, isBlank, Bool.or_eq_true, beq_iff_eq, beq_iff_eq] at hb
    rcases hb with rfl | rfl
    · exact absurd hd (by decide)
    · exact absurd hd (by decide)
  have hhash : d ≠ ch '#' := by
    rintro rfl
    exact absurd hd (by decide)
  induction s with
  | nil => rw [List.nil_append, flowCut, if_pos (.inl hd)]
  | cons c s ih =>
    rw [flowCut] at h
    split at h
    · cases h
    · rename_i hcut
      rw [List.cons_append, flowCut, if_neg, ih h]
      rintro (hc | ⟨hc, hb⟩ | ⟨hc, hh⟩)
      · exact hcut (.inl hc)
      · rcases s with _ | ⟨e, s⟩
        · rw [List.nil_append, List.head?_cons, Option.any_some, hblank] at hb
          cases hb
        · exact hcut (.inr (.inl ⟨hc, hb⟩))
      · rcases s with _ | ⟨e, s⟩
        · exact hhash (Option.some.inj hh)
        · exact hcut (.inr (.inr ⟨hc, hh⟩))

/-- A text with a flow indicator is cut within it. -/
theorem flowCut_short {s : Bytes} (h : ∃ c ∈ s, isFlowIndicator c = true) (t : Bytes) :
    (flowCut (s ++ t)).1.length < s.length := by
  induction s with
  | nil =>
    obtain ⟨c, hc, -⟩ := h
    cases hc
  | cons c s ih =>
    rw [List.cons_append, flowCut]
    split
    · exact Nat.succ_pos _
    · rename_i hcut
      refine Nat.succ_lt_succ (ih ?_)
      obtain ⟨d, hd, hdi⟩ := h
      rcases List.mem_cons.1 hd with rfl | hd
      · exact absurd (.inl hdi) hcut
      · exact ⟨d, hd, hdi⟩

/-- A plain scalar is read up to the flow indicator behind it when nothing cuts it and no blank ends it. -/
theorem readFlowScalar_plain {c : Byte} {s : Bytes} (hi : isIndicator c = false) (hb : isBlank c = false)
    (hcut : (flowCut (c :: s)).2 = []) (hp : (c :: s).all isPrintable = true)
    (hl : ∀ d ∈ (c :: s).getLast?, isBlank d = false) {d : Byte} (hd : isFlowIndicator d = true) (r : Bytes) :
    readFlowScalar (c :: s ++ d :: r) = some (c :: s, d :: r) := by
  have hend := flowCut_end hcut hd r
  have hq : c ≠ ch '"' := by rintro rfl; exact absurd hi (by decide)
  have htrim : (c :: s).rdropWhile isBlank = c :: s := by
    rw [List.rdropWhile_eq_self_iff]
    intro hne
    simpa using hl _ (List.getLast?_eq_some_getLast hne)
  rw [List.cons_append] at hend ⊢
  rw [readFlowScalar, if_neg hq, if_neg (by simp [hi, hb]), hend, if_pos hp, htrim]

/-- A text with a flow indicator is not read whole as a plain scalar. -/
theorem readFlowScalar_short {s t : Bytes} (hq : s.head? ≠ some (ch '"')) (h : ∃ c ∈ s, isFlowIndicator c = true)
    {x y : Bytes} (hr : readFlowScalar (s ++ t) = some (x, y)) : x.length < s.length := by
  have hshort := flowCut_short h t
  rcases s with _ | ⟨c, s⟩
  · cases hshort
  rw [List.cons_append] at hshort hr
  rw [readFlowScalar, if_neg fun hc => hq (by rw [hc]; rfl)] at hr
  split at hr
  · cases hr
  · split at hr
    · cases hr
      exact Nat.lt_of_le_of_lt (List.rdropWhile_prefix _ _).length_le hshort
    · cases hr

/-- A blank before an entry is skipped. -/
theorem readEntries_blank {c : Byte} (h : isBlank c = true) (fuel : Nat) (t : Bytes) :
    readEntries fuel (c :: t) = readEntries fuel t := by
  rcases fuel with _ | fuel
  · rfl
  · rw [readEntries, readEntries, List.dropWhile_cons_of_pos h]

/-- An entry and the comma or bracket behind it. -/
theorem readEntries_scalar {t s r : Bytes} {c d : Byte} (hb : isBlank c = false) (hc : c ≠ ch ']')
    (hs : readFlowScalar (c :: t) = some (s, d :: r)) (hd : isBlank d = false) (fuel : Nat) :
    readEntries (fuel + 1) (c :: t) =
      if d = ch ',' then (readEntries fuel r).map fun q => (s :: q.1, q.2)
      else if d = ch ']' then some ([s], r)
      else none := by
  rw [readEntries, List.dropWhile_cons_of_neg (by simp [hb])]
  simp only [if_neg hc, hs, Option.bind_some, List.dropWhile_cons_of_neg (show ¬ isBlank d = true by simp [hd])]

/-- The first entry is the scalar at the start. -/
theorem readEntries_first {t s y : Bytes} {l : List Bytes} {c : Byte} {fuel : Nat} (hb : isBlank c = false)
    (h : readEntries fuel (c :: t) = some (s :: l, y)) : ∃ r, readFlowScalar (c :: t) = some (s, r) := by
  rcases fuel with _ | fuel
  · cases h
  rw [readEntries, List.dropWhile_cons_of_neg (by simp [hb])] at h
  simp only at h
  split at h
  · cases h
  · obtain ⟨⟨x, r⟩, hx, h⟩ := Option.bind_eq_some_iff.1 h
    refine ⟨r, ?_⟩
    rw [hx]
    simp only at h
    split at h
    · cases h
    · split at h
      · obtain ⟨q, -, h⟩ := Option.map_eq_some_iff.1 h
        cases h
        rfl
      · split at h
        · cases h
          rfl
        · cases h

end Yaml
