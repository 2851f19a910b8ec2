/-
The numbers of the core schema that `is_yaml_number` knows: integers, octal and hexadecimal ones, and the
floats with a digit on both sides of their dot.
-/
import SubConverter.Src.YamlEmit
import SubConverter.Yaml.Core

namespace SubConverter

open CMem Yaml

/-! ## Digits and exponents -/

theorem digits_of_mem {s : Bytes} (h : s ∈ (many1 digit).matches') : s ≠ [] ∧ ∀ c ∈ s, isDigit c = true := by
  have hdigit : ∀ c ∈ str "0123456789", isDigit c = true := by decide +kernel
  obtain ⟨hne, hall⟩ := mem_many1_oneOf.1 h
  exact ⟨hne, fun c hc => hdigit c (hall c hc)⟩

/-- Leading digits are skipped up to a byte that is none. -/
theorem dropWhile_digits {d x : Bytes} (hd : ∀ c ∈ d, isDigit c = true) (hx : ∀ c ∈ x.head?, isDigit c = false) :
    (d ++ x).dropWhile isDigit = x := by
  rw [List.dropWhile_append_of_pos hd]
  rcases x with _ | ⟨c, x⟩
  · rfl
  · rw [List.dropWhile_cons_of_neg (by simp [hx c rfl])]

theorem numberDec_digits {d x : Bytes} (hne : d ≠ []) (hd : ∀ c ∈ d, isDigit c = true)
    (hx : ∀ c ∈ x.head?, isDigit c = false) : numberDec (d ++ x) = numberFrac x := by
  obtain ⟨c, d, rfl⟩ := List.exists_cons_of_ne_nil hne
  rw [List.forall_mem_cons] at hd
  rw [List.cons_append, numberDec, hd.1, dropWhile_digits hd.2 hx, Bool.true_and]

/-- An exponent is nothing, or starts with its letter. -/
theorem exponent_cases {e : Bytes} (h : e ∈ exponent.matches') :
    e = [] ∨ ∃ c r, e = c :: r ∧ (c = ch 'e' ∨ c = ch 'E') := by
  rcases mem_opt.1 h with rfl | h
  · exact .inl rfl
  · obtain ⟨a, ha, b, -, rfl⟩ := mem_mul.1 h
    obtain ⟨c, hc, rfl⟩ := mem_oneOf.1 ha
    exact .inr ⟨c, b, rfl, by simpa [str] using hc⟩

theorem exponent_head {e : Bytes} (h : e ∈ exponent.matches') : ∀ c ∈ e.head?, isDigit c = false := by
  rcases exponent_cases h with rfl | ⟨c, r, rfl, hc⟩
  · simp
  · intro x hx
    obtain rfl : c = x := by simpa using hx
    rcases hc with rfl | rfl <;> decide

theorem numberExp_exponent {e : Bytes} (h : e ∈ exponent.matches') : numberExp e = true := by
  rcases mem_opt.1 h with rfl | h
  · rfl
  obtain ⟨a, ha, b, hb, rfl⟩ := mem_mul.1 h
  obtain ⟨c, hc, rfl⟩ := mem_oneOf.1 ha
  obtain ⟨g, hg, d, hd, rfl⟩ := mem_mul.1 hb
  obtain ⟨hne, hd⟩ := digits_of_mem hd
  obtain ⟨x, d, rfl⟩ := List.exists_cons_of_ne_nil hne
  rw [List.forall_mem_cons] at hd
  have hletter : c = ch 'e' ∨ c = ch 'E' := by simpa [str] using hc
  have hx : x ≠ ch '+' ∧ x ≠ ch '-' :=
    ⟨by rintro rfl; exact absurd hd.1 (by decide), by rintro rfl; exact absurd hd.1 (by decide)⟩
  have hdrop : d.dropWhile isDigit = [] := by simpa using hd.2
  rw [List.singleton_append, numberExp, if_pos hletter]
  rcases mem_opt.1 hg with rfl | hg
  · simp [hx, hd.1, hdrop]
  · obtain ⟨y, hy, rfl⟩ := mem_oneOf.1 hg
    have hy : y = ch '-' ∨ y = ch '+' := by simpa [str] using hy
    rcases hy with rfl | rfl <;> simp [hd.1, hdrop]

theorem numberFrac_dot (c : Byte) (r : Bytes) :
    numberFrac (ch '.' :: c :: r) = (isDigit c && numberExp (r.dropWhile isDigit)) := rfl

theorem numberFrac_noDot {c : Byte} (h : c ≠ ch '.') (r : Bytes) : numberFrac (c :: r) = numberExp (c :: r) := by
  unfold numberFrac
  exact if_neg h

/-- `is_yaml_number` behind the sign. -/
def numberBody (s : Bytes) : Bool :=
  match s with
  | c :: p :: r =>
    if c = ch '0' ∧ (p = ch 'x' ∨ p = ch 'X') then radixDigits hexch r
    else if c = ch '0' ∧ (p = ch 'b' ∨ p = ch 'B') then radixDigits (fun c => c == ch '0' || c == ch '1') r
    else if c = ch '0' ∧ (p = ch 'o' ∨ p = ch 'O') then radixDigits (fun c => ch '0' ≤ c && c ≤ ch '7') r
    else numberDec s
  | s => numberDec s

/-- The sign is skipped. -/
theorem isYamlNumber_sign {g t : Bytes} (hg : g = [] ∨ g = [ch '+'] ∨ g = [ch '-'])
    (ht : ∀ c ∈ t.head?, c ≠ ch '+' ∧ c ≠ ch '-') : isYamlNumber (g ++ t) = numberBody t := by
  rcases hg with rfl | rfl | rfl
  · have hno : ¬ (t.head? = some (ch '+') ∨ t.head? = some (ch '-')) := by
      rintro (h | h)
      · exact (ht _ h).1 rfl
      · exact (ht _ h).2 rfl
    rw [List.nil_append, isYamlNumber, if_neg hno]
    rfl
  · rfl
  · rfl

/-- The radix letters. -/
def NoRadix (x : Bytes) : Prop := ∀ c ∈ x.head?, c ∉ str "xXbBoO"

theorem numberBody_digits {d x : Bytes} (hne : d ≠ []) (hd : ∀ c ∈ d, isDigit c = true)
    (hx : ∀ c ∈ x.head?, isDigit c = false) (hr : NoRadix x) : numberBody (d ++ x) = numberFrac x := by
  rw [← numberDec_digits hne hd hx]
  have hradix : ∀ c ∈ str "xXbBoO", isDigit c = false := by decide +kernel
  have hletters : str "xXbBoO" = [ch 'x', ch 'X', ch 'b', ch 'B', ch 'o', ch 'O'] := rfl
  rcases hdx : d ++ x with _ | ⟨c, _ | ⟨p, r⟩⟩
  · rfl
  · rfl
  · -- the second character is a digit, or the first one behind the digits
    have hp : p ∉ str "xXbBoO" := by
      intro hm
      rcases d with _ | ⟨a, _ | ⟨b, d⟩⟩
      · exact hne rfl
      · rw [List.singleton_append, List.cons.injEq] at hdx
        exact hr p (by rw [hdx.2]; rfl) hm
      · simp only [List.cons_append, List.cons.injEq] at hdx
        obtain ⟨-, rfl, -⟩ := hdx
        have := hd b (by simp)
        rw [hradix b hm] at this; cases this
    rw [hletters] at hp
    simp only [List.mem_cons, List.not_mem_nil, or_false, not_or] at hp
    obtain ⟨h1, h2, h3, h4, h5, h6⟩ := hp
    rw [numberBody, if_neg (by simp [h1, h2]), if_neg (by simp [h3, h4]), if_neg (by simp [h5, h6])]

theorem exponent_noRadix {e : Bytes} (h : e ∈ exponent.matches') : NoRadix e := by
  rcases exponent_cases h with rfl | ⟨c, r, rfl, hc⟩
  · intro x hx; cases hx
  · intro x hx
    obtain rfl : c = x := by simpa using hx
    rcases hc with rfl | rfl <;> decide +kernel

/-- An integer or a float without a dot. -/
theorem numberBody_exponent {d e : Bytes} (hd : d ∈ (many1 digit).matches') (he : e ∈ exponent.matches') :
    numberBody (d ++ e) = true := by
  obtain ⟨hne, hall⟩ := digits_of_mem hd
  rw [numberBody_digits hne hall (exponent_head he) (exponent_noRadix he)]
  rcases exponent_cases he with rfl | ⟨c, r, rfl, hc⟩
  · rfl
  · have hdot : c ≠ ch '.' := by rcases hc with rfl | rfl <;> decide
    rw [numberFrac_noDot hdot]
    exact numberExp_exponent he

/-- The number behind digits and a dot needs a digit. -/
theorem numberBody_dot {d x : Bytes} (hd : d ∈ (many1 digit).matches') :
    numberBody (d ++ ch '.' :: x) = numberFrac (ch '.' :: x) := by
  obtain ⟨hne, hall⟩ := digits_of_mem hd
  refine numberBody_digits hne hall ?_ ?_
  · intro c hc
    obtain rfl : ch '.' = c := by simpa using hc
    decide
  · intro c hc
    obtain rfl : ch '.' = c := by simpa using hc
    decide +kernel

theorem numberBody_frac {d f e : Bytes} (hd : d ∈ (many1 digit).matches') (hf : f ∈ (many1 digit).matches')
    (he : e ∈ exponent.matches') : numberBody (d ++ ch '.' :: (f ++ e)) = true := by
  obtain ⟨hne, hall⟩ := digits_of_mem hf
  obtain ⟨c, f, rfl⟩ := List.exists_cons_of_ne_nil hne
  rw [List.forall_mem_cons] at hall
  rw [numberBody_dot hd, List.cons_append, numberFrac_dot, hall.1, dropWhile_digits hall.2 (exponent_head he),
    Bool.true_and]
  exact numberExp_exponent he

theorem numberBody_trailingDot {d e : Bytes} (hd : d ∈ (many1 digit).matches') (he : e ∈ exponent.matches') :
    numberBody (d ++ ch '.' :: e) = false := by
  rw [numberBody_dot hd]
  rcases exponent_cases he with rfl | ⟨c, r, rfl, hc⟩
  · rfl
  · rcases hc with rfl | rfl <;> exact numberFrac_dot _ r

theorem numberBody_leadingDot (x : Bytes) : numberBody (ch '.' :: x) = false := by
  rcases x with _ | ⟨p, r⟩ <;> rfl

/-! ## Numbers -/

theorem mem_sign {g : Bytes} (h : g ∈ sign.matches') : g = [] ∨ g = [ch '+'] ∨ g = [ch '-'] := by
  rcases mem_opt.1 h with rfl | h
  · exact .inl rfl
  · obtain ⟨c, hc, rfl⟩ := mem_oneOf.1 h
    have : c = ch '-' ∨ c = ch '+' := by simpa [str] using hc
    rcases this with rfl | rfl
    · exact .inr (.inr rfl)
    · exact .inr (.inl rfl)

theorem digits_head {d x : Bytes} (hd : d ∈ (many1 digit).matches') :
    ∀ c ∈ (d ++ x).head?, c ≠ ch '+' ∧ c ≠ ch '-' := by
  obtain ⟨hne, hall⟩ := digits_of_mem hd
  obtain ⟨c, d, rfl⟩ := List.exists_cons_of_ne_nil hne
  intro a ha
  obtain rfl : c = a := by simpa using ha
  have hc := hall c (by simp)
  exact ⟨by rintro rfl; exact absurd hc (by decide), by rintro rfl; exact absurd hc (by decide)⟩

theorem number_of_int {s : Bytes} (h : s ∈ coreInt.matches') : isYamlNumber s = true := by
  obtain ⟨g, hg, d, hd, rfl⟩ := mem_mul.1 h
  have hbody := numberBody_exponent hd (mem_opt.2 (.inl rfl))
  have hhead := digits_head (x := []) hd
  rw [List.append_nil] at hbody hhead
  rw [isYamlNumber_sign (mem_sign hg) hhead, hbody]

theorem number_of_oct {s : Bytes} (h : s ∈ coreOct.matches') : isYamlNumber s = true := by
  obtain ⟨a, ha, d, hd, rfl⟩ := mem_mul.1 h
  obtain ⟨hne, hall⟩ := mem_many1_oneOf.1 hd
  have hoct : ∀ c ∈ str "01234567", (ch '0' ≤ c && c ≤ ch '7') = true := by decide +kernel
  rw [mem_word.1 ha]
  have hrun : isYamlNumber (str "0o" ++ d) = radixDigits (fun c => ch '0' ≤ c && c ≤ ch '7') d := rfl
  rw [hrun, radixDigits, Bool.and_eq_true]
  exact ⟨List.all_eq_true.2 fun c hc => hoct c (hall c hc), by simpa using hne⟩

theorem number_of_hex {s : Bytes} (h : s ∈ coreHex.matches') : isYamlNumber s = true := by
  obtain ⟨a, ha, d, hd, rfl⟩ := mem_mul.1 h
  obtain ⟨hne, hall⟩ := mem_many1_oneOf.1 hd
  have hhex : ∀ c ∈ str "0123456789abcdefABCDEF", hexch c = true := by decide +kernel
  rw [mem_word.1 ha]
  have hrun : isYamlNumber (str "0x" ++ d) = radixDigits hexch d := rfl
  rw [hrun, radixDigits, Bool.and_eq_true]
  exact ⟨List.all_eq_true.2 fun c hc => hhex c (hall c hc), by simpa using hne⟩

end SubConverter
