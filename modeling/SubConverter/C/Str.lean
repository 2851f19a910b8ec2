/-
C strings and the standard library functions on them: NUL-terminated strings as byte lists that
are free of NUL, comparison with a string constant, the decimal output of `printf` and `strtol`.
-/
import SubConverter.C.Mem

namespace CMem

/-! ## NUL-terminated strings -/

/-- The contents of a NUL-terminated string. -/
structure CStr where
  bytes : Bytes
  nulFree : (0 : Byte) ∉ bytes
  deriving DecidableEq

theorem nul_not_mem_takeWhile (b : Bytes) : (0 : Byte) ∉ b.takeWhile (· ≠ 0) := by
  intro h; simpa using List.mem_takeWhile_imp h

namespace CStr

@[ext] theorem ext {a b : CStr} (h : a.bytes = b.bytes) : a = b := by
  cases a; cases b; congr

/-- The string a buffer holds: its bytes up to the first NUL. -/
def ofBytes (b : Bytes) : CStr := ⟨b.takeWhile (· ≠ 0), nul_not_mem_takeWhile b⟩

/-- A string constant. -/
def lit (s : String) : CStr := ofBytes (str s)

/-- `strcmp(a, s) == 0` for a constant `s`. -/
def is (a : CStr) (s : String) : Bool := a.bytes == str s

theorem ofBytes_bytes {b : Bytes} (h : (0 : Byte) ∉ b) : (ofBytes b).bytes = b := by
  refine List.takeWhile_eq_self_iff.2 fun x hx => ?_
  rcases eq_or_ne x 0 with rfl | hx0
  · exact absurd hx h
  · simpa using hx0

@[simp] theorem ofBytes_self (a : CStr) : ofBytes a.bytes = a := ext (ofBytes_bytes a.nulFree)

@[simp] theorem ofBytes_append_nul (b : CStr) (t : Bytes) : ofBytes (b.bytes ++ 0 :: t) = b := by
  refine ext ?_
  show (b.bytes ++ 0 :: t).takeWhile _ = _
  rw [List.takeWhile_append_of_pos]
  · simp
  · intro x hx
    rcases eq_or_ne x 0 with rfl | hx0
    · exact absurd hx b.nulFree
    · simpa using hx0

theorem is_iff (a : CStr) (s : String) : a.is s = true ↔ a.bytes = str s := by
  unfold is; exact beq_iff_eq

end CStr

/-! ## Decimal numbers -/

def isDigit (c : Byte) : Bool := ch '0' ≤ c && c ≤ ch '9'

/-- `isspace` in the C locale. -/
def isSpace (c : Byte) : Bool :=
  c == ch ' ' || c == 9 || c == 10 || c == 11 || c == 12 || c == 13

/-- The value of a run of decimal digits. -/
def decValue (ds : Bytes) : Nat := ds.foldl (fun a c => 10 * a + (c.toNat - 48)) 0

/-- What `%u` writes. -/
def decimal (n : Nat) : Bytes := (Nat.toDigits 10 n).map ch

/-- What `%d` and `%lld` write. -/
def decimalInt : Int → Bytes
  | .ofNat n => decimal n
  | .negSucc n => ch '-' :: decimal (n + 1)

theorem ch_toNat {c : Char} (h : c.toNat < 256) : (ch c).toNat = c.toNat := by
  unfold ch; rw [Nat.toUInt8, UInt8.toNat_ofNat']; omega

theorem digit_char_range {c : Char} (h : c.isDigit = true) : 48 ≤ c.toNat ∧ c.toNat ≤ 57 := by
  simp only [Char.isDigit, Bool.and_eq_true, decide_eq_true_eq, ge_iff_le] at h
  exact ⟨by simpa [UInt32.le_iff_toNat_le] using h.1, by simpa [UInt32.le_iff_toNat_le] using h.2⟩

theorem decimal_digit {n : Nat} {c : Byte} (h : c ∈ decimal n) : 48 ≤ c.toNat ∧ c.toNat ≤ 57 := by
  obtain ⟨d, hd, rfl⟩ := List.mem_map.1 h
  have := digit_char_range (Nat.isDigit_of_mem_toDigits (by decide) (by decide) hd)
  rw [ch_toNat (by omega)]; exact this

theorem decimal_ne_nil (n : Nat) : decimal n ≠ [] := by
  simp [decimal, Nat.toDigits_ne_nil]

theorem length_decimal_le_iff {n k : Nat} (hk : 0 < k) : (decimal n).length ≤ k ↔ n < 10 ^ k := by
  rw [decimal, List.length_map, Nat.length_toDigits_le_iff (by decide) hk]

theorem decValue_decimal (n : Nat) : decValue (decimal n) = n := by
  unfold decValue decimal
  rw [List.foldl_map]
  have hfold : ∀ (l : List Char) (a : Nat), (∀ c ∈ l, c.isDigit = true) →
      l.foldl (fun a c => 10 * a + ((ch c).toNat - 48)) a = Nat.ofDigitChars 10 l a := by
    intro l
    induction l with
    | nil => intro a _; simp
    | cons c l ih =>
      intro a h
      have hc := digit_char_range (h c (List.mem_cons_self ..))
      rw [List.foldl_cons, ih _ fun d hd => h d (List.mem_cons_of_mem _ hd), Nat.ofDigitChars_cons,
        ch_toNat (by omega)]
      rfl
  rw [hfold _ _ fun c hc => Nat.isDigit_of_mem_toDigits (by decide) (by decide) hc]
  exact Nat.ofDigitChars_toDigits (by decide) (by decide)

theorem decimal_injective : Function.Injective decimal := fun a b h => by
  rw [← decValue_decimal a, h, decValue_decimal]

/-- Decimal output is digits and, for a negative number, a leading minus sign. -/
theorem decimalInt_mem {i : Int} {c : Byte} (h : c ∈ decimalInt i) :
    c = ch '-' ∨ (48 ≤ c.toNat ∧ c.toNat ≤ 57) := by
  cases i with
  | ofNat n => exact .inr (decimal_digit h)
  | negSucc n =>
    rcases List.mem_cons.1 h with rfl | h
    · exact .inl rfl
    · exact .inr (decimal_digit h)

/-! ## strtol -/

/-- `LONG_MIN` and `LONG_MAX` of a 64-bit `long`. -/
def longMin : Int := -2 ^ 63
def longMax : Int := 2 ^ 63 - 1

/-- `strtol(s, &end, 10)` with the offset of `end`: leading space, an optional sign and digits,
saturating; the offset is 0 when there is no digit. -/
def strtol (s : Bytes) : Int × Nat :=
  let r := s.dropWhile isSpace
  let neg := r.head? == some (ch '-')
  let r' := if r.head? = some (ch '-') ∨ r.head? = some (ch '+') then r.tail else r
  let ds := r'.takeWhile isDigit
  if ds = [] then (0, 0)
  else
    let v : Int := decValue ds
    (if neg then max longMin (-v) else min longMax v, s.length - r'.length + ds.length)

example : strtol (str " +80x") = (80, 4) := by decide
example : strtol (str "-") = (0, 0) := by decide

end CMem
