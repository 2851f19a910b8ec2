/-
The integers that decimal texts give, without the limits of a C type, and what `strtol` makes of
them when the whole text has to be a number.
-/
import SubConverter.C.Str

namespace CMem

/-- The number a run of digits gives. -/
def digitsValue (ds : Bytes) : Option Int := if ds ≠ [] ∧ ds.all isDigit then some (decValue ds) else none

/-- The integer a text gives: leading space, an optional sign and digits, up to its end. -/
def intText (s : Bytes) : Option Int :=
  match s.dropWhile isSpace with
  | [] => none
  | c :: r =>
    if c = ch '-' then (digitsValue r).map (- ·)
    else digitsValue (if c = ch '+' then r else c :: r)

/-- The nearest `long`. -/
def clampLong (i : Int) : Int := max longMin (min i longMax)

theorem clampLong_of_mem {i : Int} (h : longMin ≤ i ∧ i ≤ longMax) : clampLong i = i := by
  unfold clampLong
  omega

theorem clampLong_natCast (n : Nat) : clampLong n = min longMax n := by
  unfold clampLong longMin longMax
  omega

theorem clampLong_neg_natCast (n : Nat) : clampLong (-n) = max longMin (-n) := by
  unfold clampLong longMin longMax
  omega

/-- `strtol` from behind the sign: the digits `r` starts with, and where they end in `s`. -/
def strtolDigits (s : Bytes) (neg : Bool) (r : Bytes) : Int × Nat :=
  if r.takeWhile isDigit = [] then (0, 0)
  else (clampLong (if neg then -decValue (r.takeWhile isDigit) else decValue (r.takeWhile isDigit)),
    s.length - r.length + (r.takeWhile isDigit).length)

theorem strtol_eq (s : Bytes) : strtol s =
    match s.dropWhile isSpace with
    | [] => (0, 0)
    | c :: r => if c = ch '-' then strtolDigits s true r else strtolDigits s false (if c = ch '+' then r else c :: r) := by
  unfold strtol strtolDigits
  rcases s.dropWhile isSpace with _ | ⟨c, r⟩
  · rfl
  · by_cases h1 : c = ch '-'
    · subst h1
      simp [clampLong_neg_natCast]
    · by_cases h2 : c = ch '+'
      · subst h2
        simp [h1, clampLong_natCast]
      · simp [h1, h2, clampLong_natCast]

theorem takeWhile_length_eq_iff {α : Type} {p : α → Bool} {l : List α} :
    (l.takeWhile p).length = l.length ↔ l.all p = true := by
  rw [List.all_eq_true, ← List.takeWhile_eq_self_iff]
  constructor
  · exact (List.takeWhile_prefix p).eq_of_length
  · exact congrArg List.length

/-- The digits reach the end of the text, or the offset does not. -/
theorem strtolDigits_spec {s r : Bytes} (hr : r.length ≤ s.length) (neg : Bool) :
    (∃ v, digitsValue r = some v ∧ strtolDigits s neg r = (clampLong (if neg then -v else v), s.length) ∧ s ≠ []) ∨
      (digitsValue r = none ∧ ((strtolDigits s neg r).2 = 0 ∨ (strtolDigits s neg r).2 ≠ s.length)) := by
  unfold digitsValue strtolDigits
  by_cases hd : r.takeWhile isDigit = []
  · refine .inr ⟨if_neg ?_, by simp [hd]⟩
    rintro ⟨hne, hall⟩
    rw [← takeWhile_length_eq_iff, hd] at hall
    exact hne (List.length_eq_zero_iff.1 hall.symm)
  · have hne : r ≠ [] := by rintro rfl; exact hd rfl
    have hle := (List.takeWhile_prefix isDigit (l := r)).length_le
    rw [if_neg hd]
    by_cases hall : r.all isDigit = true
    · have hself : r.takeWhile isDigit = r := List.takeWhile_eq_self_iff.2 (List.all_eq_true.1 hall)
      refine .inl ⟨_, if_pos ⟨hne, hall⟩, by rw [hself]; congr 1; omega, ?_⟩
      rintro rfl
      exact hne (List.length_eq_zero_iff.1 (Nat.le_zero.1 hr))
    · refine .inr ⟨if_neg fun h => hall h.2, .inr ?_⟩
      have hlt : (r.takeWhile isDigit).length ≠ r.length := mt takeWhile_length_eq_iff.1 hall
      simp only
      omega

/-- `strtol` reads the whole text exactly when the text gives an integer, and then saturates it. -/
theorem strtol_intText (s : Bytes) :
    (∃ i, intText s = some i ∧ strtol s = (clampLong i, s.length) ∧ s ≠ []) ∨
      (intText s = none ∧ ((strtol s).2 = 0 ∨ (strtol s).2 ≠ s.length)) := by
  rw [strtol_eq, intText]
  have hlen := (List.dropWhile_suffix isSpace (l := s)).length_le
  rcases hw : s.dropWhile isSpace with _ | ⟨c, r⟩
  · exact .inr ⟨rfl, .inl rfl⟩
  rw [hw] at hlen
  by_cases hc : c = ch '-'
  · simp only [if_pos hc]
    rcases strtolDigits_spec (s := s) (r := r) (by simp at hlen; omega) true with ⟨v, hv, h⟩ | ⟨hv, h⟩
    · exact .inl ⟨-v, by rw [hv]; rfl, h⟩
    · exact .inr ⟨by rw [hv]; rfl, h⟩
  · simp only [if_neg hc]
    have hr : (if c = ch '+' then r else c :: r).length ≤ s.length := by
      split
      · simp at hlen; omega
      · exact hlen
    exact strtolDigits_spec hr false

theorem intText_digits {ds : Bytes} (hne : ds ≠ []) (hd : ∀ c ∈ ds, isDigit c = true) :
    intText ds = some (decValue ds) := by
  obtain ⟨c, r, rfl⟩ := List.exists_cons_of_ne_nil hne
  have hc := hd c (List.mem_cons_self ..)
  have hsign : isSpace c = false ∧ c ≠ ch '-' ∧ c ≠ ch '+' := by
    refine ⟨?_, ?_, ?_⟩
    · by_contra h
      simp only [isSpace, Bool.not_eq_false, Bool.or_eq_true, beq_iff_eq] at h
      rcases h with ((((rfl | rfl) | rfl) | rfl) | rfl) | rfl <;> exact absurd hc (by decide)
    · rintro rfl; exact absurd hc (by decide)
    · rintro rfl; exact absurd hc (by decide)
  rw [intText, List.dropWhile_cons_of_neg (by simp [hsign.1])]
  simp only [if_neg hsign.2.1, if_neg hsign.2.2, digitsValue]
  exact if_pos ⟨hne, List.all_eq_true.2 hd⟩

theorem digitsValue_some {ds : Bytes} {v : Int} :
    digitsValue ds = some v ↔ ds ≠ [] ∧ (∀ c ∈ ds, isDigit c = true) ∧ (decValue ds : Int) = v := by
  unfold digitsValue
  rw [Option.ite_none_right_eq_some, List.all_eq_true, and_assoc, Option.some.injEq]

/-- Behind the space of a text that gives an integer stand digits, or a sign and digits. -/
theorem intText_cases {s : Bytes} {i : Int} (h : intText s = some i) :
    ∃ ws c r, s = ws ++ c :: r ∧ (∀ a ∈ ws, isSpace a = true) ∧
      ((c = ch '-' ∧ digitsValue r = some (-i)) ∨ (c = ch '+' ∧ digitsValue r = some i) ∨ digitsValue (c :: r) = some i) := by
  have hs := List.takeWhile_append_dropWhile (p := isSpace) (l := s)
  unfold intText at h
  rcases hw : s.dropWhile isSpace with _ | ⟨c, r⟩
  · rw [hw] at h
    cases h
  · rw [hw] at h hs
    refine ⟨s.takeWhile isSpace, c, r, hs.symm, fun a ha => List.mem_takeWhile_imp ha, ?_⟩
    simp only at h
    split at h
    · rename_i hc
      obtain ⟨v, hv, rfl⟩ := Option.map_eq_some_iff.1 h
      exact .inl ⟨hc, by rwa [neg_neg]⟩
    · split at h
      · rename_i hc
        exact .inr (.inl ⟨hc, h⟩)
      · exact .inr (.inr h)

/-- A text that gives an integer: space and a sign, then digits up to its end. -/
theorem intText_some {s : Bytes} {i : Int} (h : intText s = some i) : ∃ x ds, s = x ++ ds ∧ ds ≠ [] ∧
    (∀ c ∈ ds, isDigit c = true) ∧ ∀ c ∈ x, isSpace c = true ∨ c = ch '-' ∨ c = ch '+' := by
  obtain ⟨ws, c, r, rfl, hsp, hcases⟩ := intText_cases h
  have hsign : ∀ {v : Int}, digitsValue r = some v → (c = ch '-' ∨ c = ch '+') → ∃ x ds, ws ++ c :: r = x ++ ds ∧ ds ≠ [] ∧
      (∀ c ∈ ds, isDigit c = true) ∧ ∀ c ∈ x, isSpace c = true ∨ c = ch '-' ∨ c = ch '+' := by
    intro v hv hc
    obtain ⟨hne, hd, -⟩ := digitsValue_some.1 hv
    refine ⟨ws ++ [c], r, by rw [List.append_assoc]; rfl, hne, hd, fun a ha => ?_⟩
    rcases List.mem_append.1 ha with ha | ha
    · exact .inl (hsp a ha)
    · rw [List.mem_singleton.1 ha]
      exact .inr hc
  rcases hcases with ⟨hc, hv⟩ | ⟨hc, hv⟩ | hv
  · exact hsign hv (.inl hc)
  · exact hsign hv (.inr hc)
  · obtain ⟨hne, hd, -⟩ := digitsValue_some.1 hv
    exact ⟨ws, c :: r, rfl, hne, hd, fun a ha => .inl (hsp a ha)⟩

/-! ## Positive numbers -/

/-- Leading space, `+` or nothing, and digits. -/
structure PositiveText (s : Bytes) (n : Nat) (ws sign ds : Bytes) : Prop where
  text : s = ws ++ (sign ++ ds)
  space : ∀ c ∈ ws, isSpace c = true
  sign : sign = [] ∨ sign = [ch '+']
  nonempty : ds ≠ []
  digits : ∀ c ∈ ds, isDigit c = true
  value : decValue ds = n

theorem intText_space {ws r : Bytes} (h : ∀ c ∈ ws, isSpace c = true) : intText (ws ++ r) = intText r := by
  rw [intText, List.dropWhile_append_of_pos h]
  rfl

theorem intText_plus (r : Bytes) : intText (ch '+' :: r) = digitsValue r := by
  rw [intText, List.dropWhile_cons_of_neg (by decide)]
  rfl

/-- The texts that give a positive integer. -/
theorem intText_pos_iff {s : Bytes} {n : Nat} (hn : 1 ≤ n) :
    intText s = some (n : Int) ↔ ∃ ws sign ds, PositiveText s n ws sign ds := by
  constructor
  · intro h
    obtain ⟨ws, c, r, rfl, hsp, ⟨-, hv⟩ | ⟨rfl, hv⟩ | hv⟩ := intText_cases h
    · -- a negative number is not positive
      obtain ⟨-, -, hval⟩ := digitsValue_some.1 hv
      omega
    · obtain ⟨hne, hd, hval⟩ := digitsValue_some.1 hv
      exact ⟨ws, [ch '+'], r, rfl, hsp, .inr rfl, hne, hd, by omega⟩
    · obtain ⟨hne, hd, hval⟩ := digitsValue_some.1 hv
      exact ⟨ws, [], c :: r, rfl, hsp, .inl rfl, hne, hd, by omega⟩
  · rintro ⟨ws, sign, ds, h⟩
    rw [h.text, intText_space h.space]
    rcases h.sign with hs | hs
    · rw [hs, List.nil_append, intText_digits h.nonempty h.digits, h.value]
      rfl
    · rw [hs, List.singleton_append, intText_plus, digitsValue_some]
      exact ⟨h.nonempty, h.digits, by rw [h.value]⟩

end CMem
