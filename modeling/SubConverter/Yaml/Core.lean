/-
The plain scalars that the core schema of YAML 1.2 does not read as strings, as regular expressions.
-/
import SubConverter.C.Mem

namespace Yaml

open CMem RegularExpression

/-! ## Expressions -/

/-- One of the bytes. -/
def oneOf (l : Bytes) : RegularExpression Byte := l.foldr (fun c r => char c + r) 0

def word (s : String) : RegularExpression Byte := (str s).foldr (fun c r => char c * r) 1

def opt (r : RegularExpression Byte) : RegularExpression Byte := 1 + r

def many1 (r : RegularExpression Byte) : RegularExpression Byte := r * r.star

/-- The bytes an expression mentions. -/
def atoms : RegularExpression Byte → Bytes
  | .zero => []
  | .epsilon => []
  | .char c => [c]
  | .plus p q => atoms p ++ atoms q
  | .comp p q => atoms p ++ atoms q
  | .star p => atoms p

theorem mem_oneOf {l s : Bytes} : s ∈ (oneOf l).matches' ↔ ∃ c ∈ l, s = [c] := by
  induction l with
  | nil => simp [oneOf]
  | cons a l ih =>
    rw [oneOf, List.foldr_cons, matches'_add, Language.mem_add, matches'_char]
    rw [oneOf] at ih
    rw [ih]
    simp only [List.mem_cons, exists_eq_or_imp]
    rfl

theorem mem_word {w : String} {s : Bytes} : s ∈ (word w).matches' ↔ s = str w := by
  rw [word]
  induction str w generalizing s with
  | nil => simp
  | cons a l ih =>
    rw [List.foldr_cons, matches'_mul, matches'_char, Language.mem_mul]
    constructor
    · rintro ⟨x, hx, y, hy, rfl⟩
      rw [ih.1 hy, show x = [a] from hx]
      rfl
    · rintro rfl
      exact ⟨[a], rfl, l, ih.2 rfl, rfl⟩

theorem mem_opt {r : RegularExpression Byte} {s : Bytes} : s ∈ (opt r).matches' ↔ s = [] ∨ s ∈ r.matches' := by
  rw [opt, matches'_add, Language.mem_add, matches'_epsilon, Language.mem_one]

theorem mem_mul {p q : RegularExpression Byte} {s : Bytes} :
    s ∈ (p * q).matches' ↔ ∃ a ∈ p.matches', ∃ b ∈ q.matches', a ++ b = s := by
  rw [matches'_mul, Language.mem_mul]

theorem mem_add {p q : RegularExpression Byte} {s : Bytes} :
    s ∈ (p + q).matches' ↔ s ∈ p.matches' ∨ s ∈ q.matches' := by
  rw [matches'_add, Language.mem_add]

theorem mem_star_oneOf {l s : Bytes} : s ∈ (oneOf l).star.matches' ↔ ∀ c ∈ s, c ∈ l := by
  rw [matches'_star, Language.mem_kstar]
  constructor
  · rintro ⟨ws, rfl, hws⟩ c hc
    obtain ⟨w, hw, hc⟩ := List.mem_flatten.1 hc
    obtain ⟨d, hd, rfl⟩ := mem_oneOf.1 (hws w hw)
    rwa [List.mem_singleton.1 hc]
  · intro h
    refine ⟨s.map fun c => [c], ?_, fun w hw => ?_⟩
    · induction s with
      | nil => rfl
      | cons c s ih => simpa using ih fun d hd => h d (List.mem_cons_of_mem _ hd)
    · obtain ⟨c, hc, rfl⟩ := List.mem_map.1 hw
      exact mem_oneOf.2 ⟨c, h c hc, rfl⟩

theorem mem_many1_oneOf {l s : Bytes} : s ∈ (many1 (oneOf l)).matches' ↔ s ≠ [] ∧ ∀ c ∈ s, c ∈ l := by
  rw [many1, mem_mul]
  constructor
  · rintro ⟨a, ha, b, hb, rfl⟩
    obtain ⟨c, hc, rfl⟩ := mem_oneOf.1 ha
    exact ⟨by simp, List.forall_mem_cons.2 ⟨hc, mem_star_oneOf.1 hb⟩⟩
  · rintro ⟨hne, h⟩
    obtain ⟨c, r, rfl⟩ := List.exists_cons_of_ne_nil hne
    rw [List.forall_mem_cons] at h
    exact ⟨[c], mem_oneOf.2 ⟨c, h.1, rfl⟩, r, mem_star_oneOf.2 h.2, rfl⟩

/-- A word has no other bytes than its expression. -/
theorem mem_atoms : ∀ {r : RegularExpression Byte} {s : Bytes}, s ∈ r.matches' → ∀ c ∈ s, c ∈ atoms r
  | .zero, _, h, _, _ => absurd h (Language.notMem_zero _)
  | .epsilon, _, h, c, hc => by
    rw [show _ = [] from h] at hc; cases hc
  | .char a, _, h, c, hc => by rwa [show _ = [a] from h] at hc
  | .plus p q, _, h, c, hc => by
    rcases h with h | h
    · exact List.mem_append_left _ (mem_atoms h c hc)
    · exact List.mem_append_right _ (mem_atoms h c hc)
  | .comp p q, _, h, c, hc => by
    obtain ⟨a, ha, b, hb, rfl⟩ := Language.mem_mul.1 h
    rcases List.mem_append.1 hc with hc | hc
    · exact List.mem_append_left _ (mem_atoms ha c hc)
    · exact List.mem_append_right _ (mem_atoms hb c hc)
  | .star p, _, h, c, hc => by
    obtain ⟨ws, rfl, hws⟩ := Language.mem_kstar.1 h
    obtain ⟨w, hw, hc⟩ := List.mem_flatten.1 hc
    exact mem_atoms (hws w hw) c hc

/-! ## The core schema -/

def digit : RegularExpression Byte := oneOf (str "0123456789")

def sign : RegularExpression Byte := opt (oneOf (str "-+"))

def exponent : RegularExpression Byte := opt (oneOf (str "eE") * (sign * many1 digit))

def infWord : RegularExpression Byte := word ".inf" + (word ".Inf" + word ".INF")

def coreNull : RegularExpression Byte := word "~" + (word "null" + (word "Null" + word "NULL"))

def coreBool : RegularExpression Byte :=
  word "true" + (word "True" + (word "TRUE" + (word "false" + (word "False" + word "FALSE"))))

def coreInt : RegularExpression Byte := sign * many1 digit

def coreOct : RegularExpression Byte := word "0o" * many1 (oneOf (str "01234567"))

def coreHex : RegularExpression Byte := word "0x" * many1 (oneOf (str "0123456789abcdefABCDEF"))

def coreFloat : RegularExpression Byte :=
  sign * ((word "." * many1 digit + many1 digit * opt (word "." * digit.star)) * exponent)

def coreInf : RegularExpression Byte := sign * infWord

def coreNan : RegularExpression Byte := word ".nan" + (word ".NaN" + word ".NAN")

def core : RegularExpression Byte :=
  coreNull + (coreBool + (coreInt + (coreOct + (coreHex + (coreFloat + (coreInf + coreNan))))))

/-- The plain scalar is null, a bool, an int or a float. -/
def Resolves (s : Bytes) : Prop := s ∈ core.matches'

instance : DecidablePred Resolves := fun s => inferInstanceAs (Decidable (s ∈ core.matches'))

end Yaml
