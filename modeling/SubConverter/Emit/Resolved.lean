/-
Which strings written plain are read by the core schema as something else than a string: the floats that
`is_yaml_number` does not know, which start or end their digits with a dot, and the special floats.
-/
import SubConverter.Emit.Number
import SubConverter.Emit.Quote

namespace SubConverter

open CMem Yaml

/-! ## Dotted forms -/

def plusSign : RegularExpression Byte := opt (word "+")

/-- `.5`, `+.5e3`. -/
def leadingDot : RegularExpression Byte := plusSign * (word "." * (many1 digit * exponent))

/-- `5.`, `+5.e3`. -/
def trailingDot : RegularExpression Byte := plusSign * (many1 digit * (word "." * exponent))

def dottedForm : RegularExpression Byte := leadingDot + (trailingDot + (plusSign * infWord + coreNan))

/-- A float with no digit before or behind its dot, an infinity or a NaN; without a minus sign. -/
def Dotted (s : Bytes) : Prop := s ∈ dottedForm.matches'

instance : DecidablePred Dotted := fun s => inferInstanceAs (Decidable (s ∈ dottedForm.matches'))

/-! ## Plain strings -/

/-- What a plain string is not. -/
theorem Plain.unresolved {s : Bytes} (h : Plain s) :
    isYamlNumber s = false ∧ isResolvedWord s = false ∧ s.head? ≠ some (ch '-') := by
  obtain ⟨-, h⟩ := h
  unfold yamlPlainSafe at h
  split_ifs at h with _ hlead _ _ _ hword
  simp only [Bool.or_eq_true, not_or, Bool.not_eq_true] at hword
  refine ⟨hword.1.1.2, hword.1.2, fun hm => hlead ?_⟩
  rw [hm]; decide +kernel

theorem mem_plusSign {g : Bytes} : g ∈ plusSign.matches' ↔ g = [] ∨ g = [ch '+'] := by
  rw [plusSign, mem_opt, mem_word]
  exact Iff.rfl

/-- The sign of a string that does not start with a minus. -/
theorem plusSign_of_sign {g t : Bytes} (hg : g ∈ sign.matches') (h : (g ++ t).head? ≠ some (ch '-')) :
    g ∈ plusSign.matches' := by
  rw [mem_plusSign]
  rcases mem_sign hg with rfl | rfl | rfl
  · exact .inl rfl
  · exact .inr rfl
  · exact absurd rfl h

theorem sign_of_plusSign {g : Bytes} (hg : g ∈ plusSign.matches') : g ∈ sign.matches' := by
  rw [sign, mem_opt]
  rcases mem_plusSign.1 hg with rfl | rfl
  · exact .inl rfl
  · exact .inr (mem_oneOf.2 ⟨ch '+', by simp [str], rfl⟩)

/-- The words of the core schema are among those the emitter knows in any case. -/
theorem resolvedWord_words : ∀ w ∈ ["~", "null", "Null", "NULL", "true", "True", "TRUE", "false", "False", "FALSE"],
    isResolvedWord (str w) = true := by
  decide +kernel

theorem resolvedWord_of_word {s : Bytes} (h : s ∈ coreNull.matches' ∨ s ∈ coreBool.matches') :
    isResolvedWord s = true := by
  simp only [coreNull, coreBool, mem_add, mem_word, or_assoc] at h
  rcases h with rfl | rfl | rfl | rfl | rfl | rfl | rfl | rfl | rfl | rfl <;> exact resolvedWord_words _ (by simp)

theorem mem_leadingDot {s : Bytes} : s ∈ leadingDot.matches' ↔ ∃ g d e, g ∈ plusSign.matches' ∧
    d ∈ (many1 digit).matches' ∧ e ∈ exponent.matches' ∧ s = g ++ ch '.' :: (d ++ e) := by
  constructor
  · intro h
    obtain ⟨g, hg, t, ht, rfl⟩ := mem_mul.1 h
    obtain ⟨w, hw, x, hx, rfl⟩ := mem_mul.1 ht
    obtain ⟨d, hd, e, he, rfl⟩ := mem_mul.1 hx
    obtain rfl := mem_word.1 hw
    exact ⟨g, d, e, hg, hd, he, rfl⟩
  · rintro ⟨g, d, e, hg, hd, he, rfl⟩
    exact mem_mul.2 ⟨g, hg, _, mem_mul.2 ⟨_, mem_word.2 rfl, _, mem_mul.2 ⟨d, hd, e, he, rfl⟩, rfl⟩, rfl⟩

theorem mem_trailingDot {s : Bytes} : s ∈ trailingDot.matches' ↔ ∃ g d e, g ∈ plusSign.matches' ∧
    d ∈ (many1 digit).matches' ∧ e ∈ exponent.matches' ∧ s = g ++ (d ++ ch '.' :: e) := by
  constructor
  · intro h
    obtain ⟨g, hg, t, ht, rfl⟩ := mem_mul.1 h
    obtain ⟨d, hd, x, hx, rfl⟩ := mem_mul.1 ht
    obtain ⟨w, hw, e, he, rfl⟩ := mem_mul.1 hx
    obtain rfl := mem_word.1 hw
    exact ⟨g, d, e, hg, hd, he, rfl⟩
  · rintro ⟨g, d, e, hg, hd, he, rfl⟩
    exact mem_mul.2 ⟨g, hg, _, mem_mul.2 ⟨d, hd, _, mem_mul.2 ⟨_, mem_word.2 rfl, e, he, rfl⟩, rfl⟩, rfl⟩

/-- A float is known to the scanner, or dotted. -/
theorem float_cases {s : Bytes} (h : s ∈ coreFloat.matches') (hs : s.head? ≠ some (ch '-')) :
    isYamlNumber s = true ∨ Dotted s := by
  obtain ⟨g, hg, t, ht, rfl⟩ := mem_mul.1 h
  have hplus := plusSign_of_sign hg hs
  obtain ⟨m, hm, e, he, rfl⟩ := mem_mul.1 ht
  rcases mem_add.1 hm with hm | hm
  · obtain ⟨w, hw, d, hd, rfl⟩ := mem_mul.1 hm
    refine .inr (mem_add.2 (.inl (mem_leadingDot.2 ⟨g, d, e, hplus, hd, he, ?_⟩)))
    rw [mem_word.1 hw, List.append_assoc]
    rfl
  · obtain ⟨d, hd, o, ho, rfl⟩ := mem_mul.1 hm
    rw [List.append_assoc]
    rcases mem_opt.1 ho with rfl | ho
    · left
      rw [List.nil_append, isYamlNumber_sign (mem_sign hg) (digits_head hd), numberBody_exponent hd he]
    · obtain ⟨w, hw, f, hf, rfl⟩ := mem_mul.1 ho
      rw [List.append_assoc]
      by_cases hfe : f = []
      · -- no digit behind the dot
        subst hfe
        refine .inr (mem_add.2 (.inr (mem_add.2 (.inl (mem_trailingDot.2 ⟨g, d, e, hplus, hd, he, ?_⟩)))))
        rw [mem_word.1 hw]
        rfl
      · left
        have hf1 : f ∈ (many1 digit).matches' := mem_many1_oneOf.2 ⟨hfe, mem_star_oneOf.1 hf⟩
        have hdot : w ++ (f ++ e) = ch '.' :: (f ++ e) := by rw [mem_word.1 hw]; rfl
        rw [isYamlNumber_sign (mem_sign hg) (digits_head hd), hdot, numberBody_frac hd hf1 he]

theorem dotted_of_resolves {s : Bytes} (hp : Plain s) (h : Resolves s) : Dotted s := by
  obtain ⟨hnum, hword, hminus⟩ := hp.unresolved
  have hnum' : ¬ isYamlNumber s = true := by simp [hnum]
  have hword' : ¬ isResolvedWord s = true := by simp [hword]
  rw [Resolves, core, mem_add, mem_add, mem_add, mem_add, mem_add, mem_add, mem_add] at h
  rcases h with h | h | h | h | h | h | h | h
  · exact absurd (resolvedWord_of_word (.inl h)) hword'
  · exact absurd (resolvedWord_of_word (.inr h)) hword'
  · exact absurd (number_of_int h) hnum'
  · exact absurd (number_of_oct h) hnum'
  · exact absurd (number_of_hex h) hnum'
  · exact (float_cases h hminus).resolve_left hnum'
  · obtain ⟨g, hg, w, hw, rfl⟩ := mem_mul.1 h
    exact mem_add.2 (.inr (mem_add.2 (.inr (mem_add.2 (.inl (mem_mul.2 ⟨g, plusSign_of_sign hg hminus, w, hw, rfl⟩))))))
  · exact mem_add.2 (.inr (mem_add.2 (.inr (mem_add.2 (.inr h)))))

/-! ## Dotted strings -/

theorem mem_core_float {s : Bytes} (h : s ∈ coreFloat.matches') : Resolves s :=
  mem_add.2 (.inr (mem_add.2 (.inr (mem_add.2 (.inr (mem_add.2 (.inr (mem_add.2 (.inr (mem_add.2 (.inl h)))))))))))

theorem mem_core_inf {s : Bytes} (h : s ∈ (coreInf + coreNan).matches') : Resolves s :=
  mem_add.2 (.inr (mem_add.2 (.inr (mem_add.2 (.inr (mem_add.2 (.inr (mem_add.2 (.inr (mem_add.2 (.inr h)))))))))))

theorem resolves_of_dotted {s : Bytes} (h : Dotted s) : Resolves s := by
  rcases mem_add.1 h with h | h
  · obtain ⟨g, d, e, hg, hd, he, rfl⟩ := mem_leadingDot.1 h
    refine mem_core_float (mem_mul.2 ⟨g, sign_of_plusSign hg, _, mem_mul.2 ⟨str "." ++ d, ?_, e, he, rfl⟩, rfl⟩)
    exact mem_add.2 (.inl (mem_mul.2 ⟨_, mem_word.2 rfl, d, hd, rfl⟩))
  rcases mem_add.1 h with h | h
  · obtain ⟨g, d, e, hg, hd, he, rfl⟩ := mem_trailingDot.1 h
    have hdot : str "." ∈ (opt (word "." * digit.star)).matches' :=
      mem_opt.2 (.inr (mem_mul.2 ⟨_, mem_word.2 rfl, [], mem_star_oneOf.2 (by simp), List.append_nil _⟩))
    refine mem_core_float (mem_mul.2 ⟨g, sign_of_plusSign hg, _, mem_mul.2 ⟨d ++ str ".", ?_, e, he, ?_⟩, rfl⟩)
    · exact mem_add.2 (.inr (mem_mul.2 ⟨d, hd, _, hdot, rfl⟩))
    · rw [List.append_assoc]
      rfl
  rcases mem_add.1 h with h | h
  · obtain ⟨g, hg, w, hw, rfl⟩ := mem_mul.1 h
    exact mem_core_inf (mem_add.2 (.inl (mem_mul.2 ⟨g, sign_of_plusSign hg, w, hw, rfl⟩)))
  · exact mem_core_inf (mem_add.2 (.inr h))

/-- The shape of a dotted string behind its sign. -/
theorem dotted_shape {s : Bytes} (h : Dotted s) : ∃ g t, s = g ++ t ∧ (g = [] ∨ g = [ch '+']) ∧
    ((∃ x, t = ch '.' :: x) ∨
      ∃ d e, d ∈ (many1 digit).matches' ∧ e ∈ exponent.matches' ∧ t = d ++ ch '.' :: e) := by
  have hinf : ∀ {w : Bytes}, w ∈ infWord.matches' → ∃ x, w = ch '.' :: x := by
    intro w hw
    rw [infWord, mem_add, mem_add, mem_word, mem_word, mem_word] at hw
    rcases hw with rfl | rfl | rfl <;> exact ⟨_, rfl⟩
  rcases mem_add.1 h with h | h
  · obtain ⟨g, d, e, hg, -, -, rfl⟩ := mem_leadingDot.1 h
    exact ⟨g, _, rfl, mem_plusSign.1 hg, .inl ⟨_, rfl⟩⟩
  rcases mem_add.1 h with h | h
  · obtain ⟨g, d, e, hg, hd, he, rfl⟩ := mem_trailingDot.1 h
    exact ⟨g, _, rfl, mem_plusSign.1 hg, .inr ⟨d, e, hd, he, rfl⟩⟩
  rcases mem_add.1 h with h | h
  · obtain ⟨g, hg, w, hw, rfl⟩ := mem_mul.1 h
    exact ⟨g, w, rfl, mem_plusSign.1 hg, .inl (hinf hw)⟩
  · rw [coreNan, mem_add, mem_add, mem_word, mem_word, mem_word] at h
    refine ⟨[], s, rfl, .inl rfl, .inl ?_⟩
    rcases h with rfl | rfl | rfl <;> exact ⟨_, rfl⟩

theorem dotted_mem {s : Bytes} (h : Dotted s) : ch '.' ∈ s := by
  obtain ⟨g, t, rfl, -, ⟨x, rfl⟩ | ⟨d, e, -, -, rfl⟩⟩ := dotted_shape h <;> simp

theorem not_number_of_dotted {s : Bytes} (h : Dotted s) : isYamlNumber s = false := by
  obtain ⟨g, t, rfl, hg, ht⟩ := dotted_shape h
  have hsign : g = [] ∨ g = [ch '+'] ∨ g = [ch '-'] := hg.imp_right .inl
  rcases ht with ⟨x, rfl⟩ | ⟨d, e, hd, he, rfl⟩
  · have hhead : ∀ c ∈ (ch '.' :: x).head?, c ≠ ch '+' ∧ c ≠ ch '-' := by
      intro c hc
      obtain rfl : ch '.' = c := by simpa using hc
      decide
    rw [isYamlNumber_sign hsign hhead, numberBody_leadingDot]
  · rw [isYamlNumber_sign hsign (digits_head hd), numberBody_trailingDot hd he]

/-- The bytes of a dotted string are harmless in a plain scalar. -/
theorem dotted_bytes {s : Bytes} (h : Dotted s) : ∀ c ∈ s, isWs c = false ∧ isControl c = false ∧ c ≠ ch ':' ∧
    c ≠ ch ' ' ∧ c ≠ ch '"' ∧ c ≠ ch '\\' := by
  have hatoms : ∀ c ∈ atoms dottedForm, isWs c = false ∧ isControl c = false ∧ c ≠ ch ':' ∧ c ≠ ch ' ' ∧
      c ≠ ch '"' ∧ c ≠ ch '\\' := by decide +kernel
  exact fun c hc => hatoms c (mem_atoms h c hc)

theorem dotted_head {s : Bytes} (h : Dotted s) : ∀ c ∈ s.head?, isLeadingIndicator c = false := by
  have hfirst : ∀ c ∈ ch '+' :: ch '.' :: str "0123456789", isLeadingIndicator c = false := by decide +kernel
  obtain ⟨g, t, rfl, hg, ht⟩ := dotted_shape h
  rcases hg with rfl | rfl
  · rcases ht with ⟨x, rfl⟩ | ⟨d, e, hd, -, rfl⟩
    · intro c hc
      obtain rfl : ch '.' = c := by simpa using hc
      exact hfirst _ (by simp)
    · obtain ⟨hne, hall⟩ := mem_many1_oneOf.1 hd
      obtain ⟨a, d, rfl⟩ := List.exists_cons_of_ne_nil hne
      intro c hc
      obtain rfl : a = c := by simpa using hc
      exact hfirst a (List.mem_cons_of_mem _ (List.mem_cons_of_mem _ (hall a (by simp))))
  · intro c hc
    obtain rfl : ch '+' = c := by simpa using hc
    exact hfirst _ (by simp)

theorem badPair_eq_false : ∀ {s : Bytes}, (∀ c ∈ s, c ≠ ch ':' ∧ c ≠ ch ' ') → badPair s = false
  | [], _ => rfl
  | [_], _ => rfl
  | a :: b :: r, h => by
    have ih := badPair_eq_false (s := b :: r) fun c hc => h c (List.mem_cons_of_mem _ hc)
    have ha := h a (by simp)
    rw [badPair, ih]
    simp [ha]

theorem not_resolvedWord_of_dotted {s : Bytes} (h : Dotted s) : isResolvedWord s = false := by
  have hdot := List.mem_map_of_mem (f := asciiLower) (dotted_mem h)
  have hword : ∀ w ∈ ["true", "false", "yes", "no", "on", "off", "null"], asciiLower (ch '.') ∉ str w := by
    decide +kernel
  rw [isResolvedWord, Bool.or_eq_false_iff]
  constructor
  · rw [List.any_eq_false]
    intro w hw hm
    rw [eq_of_beq hm] at hdot
    exact hword w hw hdot
  · rw [beq_eq_false_iff_ne]
    rintro rfl
    exact absurd (dotted_mem h) (by simp [str, ch])

theorem not_date_of_dotted {s : Bytes} (h : Dotted s) : isYamlDate s = false := by
  have hdot := dotted_mem h
  rw [← Bool.not_eq_true]
  intro hdate
  unfold isYamlDate at hdate
  split at hdate
  · -- no position of a date takes a dot
    simp only [Bool.and_eq_true, beq_iff_eq] at hdate
    simp only [List.mem_cons, List.not_mem_nil, or_false] at hdot
    have hno : ¬ isDigit (ch '.') = true := by decide
    have hminus : ch '.' ≠ ch '-' := by decide
    rcases hdot with rfl | rfl | rfl | rfl | rfl | rfl | rfl | rfl | rfl | rfl <;> simp [hno, hminus] at hdate
  · cases hdate

theorem not_dotted_dots : ∀ w ∈ ["", ".", ".."], ¬ Dotted (str w) := by decide +kernel

/-- A dotted string is written plain. -/
theorem plain_of_dotted {s : Bytes} (h : Dotted s) : Plain s := by
  have hbytes := dotted_bytes h
  have hne : s ≠ [] := by
    rintro rfl
    exact not_dotted_dots "" (by simp) h
  have hdot1 : s ≠ str "." := by
    rintro rfl
    exact not_dotted_dots "." (by simp) h
  have hdot2 : s ≠ str ".." := by
    rintro rfl
    exact not_dotted_dots ".." (by simp) h
  refine ⟨hne, ?_⟩
  unfold yamlPlainSafe
  rw [if_neg, if_neg, if_neg, if_neg, if_neg, if_neg, if_neg]
  · simp only [Bool.and_eq_true, List.contains_iff_mem, not_and]
    exact fun _ hm => (hbytes _ hm).2.2.1 rfl
  · simp [hdot1, hdot2, not_number_of_dotted h, not_resolvedWord_of_dotted h, not_date_of_dotted h]
  · simp only [Bool.or_eq_true, List.contains_iff_mem, not_or]
    exact ⟨fun hm => (hbytes _ hm).2.2.2.2.1 rfl, fun hm => (hbytes _ hm).2.2.2.2.2 rfl⟩
  · rw [Bool.not_eq_true]
    exact badPair_eq_false fun c hc => ⟨(hbytes c hc).2.2.1, (hbytes c hc).2.2.2.1⟩
  · simp only [List.any_eq_true, not_exists, not_and]
    exact fun c hc => by simp [(hbytes c hc).2.1]
  · simp only [Option.any_eq_true, not_exists, not_and]
    exact fun c hc => by simp [dotted_head h c hc]
  · simp only [Bool.or_eq_true, Option.any_eq_true, not_or, not_exists, not_and]
    exact ⟨fun c hc => by simp [(hbytes c (List.mem_of_head? hc)).1],
      fun c hc => by simp [(hbytes c (List.mem_of_getLast? hc)).1]⟩

/-- A string that is written plain stays a string exactly when it is not dotted. -/
theorem plain_string_iff (s : Bytes) : ((yamlQuote s .init).bytes = s → ¬ Resolves s) ↔ ¬ Dotted s := by
  rw [yamlQuote_eq_self_iff]
  constructor
  · exact fun h hd => h (plain_of_dotted hd) (resolves_of_dotted hd)
  · exact fun h hp hr => h (dotted_of_resolves hp hr)

/-- A leading dot, a trailing dot, an infinity and a NaN are written plain. -/
theorem plain_dotted :
    ((yamlQuote (str ".5") .init).bytes = str ".5" ∧ Resolves (str ".5")) ∧
      ((yamlQuote (str "5.") .init).bytes = str "5." ∧ Resolves (str "5.")) ∧
      ((yamlQuote (str ".inf") .init).bytes = str ".inf" ∧ Resolves (str ".inf")) ∧
      ((yamlQuote (str ".nan") .init).bytes = str ".nan" ∧ Resolves (str ".nan")) := by
  decide +kernel

end SubConverter
