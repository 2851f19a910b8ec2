/-
Octets written as six-bit values and read back: three octets are four values, and one or two octets at
the end are two or three. What base64 does before it looks at an alphabet.
-/
import Mathlib

namespace Sextet

/-- The six-bit values of the octets. -/
def sextets : List UInt8 → List UInt8
  | a :: b :: c :: r =>
    (a >>> 2) :: (((a &&& 3) <<< 4) ||| (b >>> 4)) :: (((b &&& 15) <<< 2) ||| (c >>> 6)) :: (c &&& 63) :: sextets r
  | [a, b] => [a >>> 2, ((a &&& 3) <<< 4) ||| (b >>> 4), (b &&& 15) <<< 2]
  | [a] => [a >>> 2, (a &&& 3) <<< 4]
  | [] => []

/-- The octets of complete groups of four values. -/
def octets : List UInt8 → List UInt8
  | p :: q :: r :: s :: t =>
    ((p <<< 2) ||| (q >>> 4)) :: (((q &&& 15) <<< 4) ||| (r >>> 2)) :: (((r &&& 3) <<< 6) ||| s) :: octets t
  | _ => []

/-- The values behind the last complete group. -/
def rest : List UInt8 → List UInt8
  | _ :: _ :: _ :: _ :: t => rest t
  | l => l

/-- The octets of fewer than four values; a single one has none. -/
def restOctets : List UInt8 → List UInt8
  | [p, q] => [(p <<< 2) ||| (q >>> 4)]
  | [p, q, r] => [(p <<< 2) ||| (q >>> 4), ((q &&& 15) <<< 4) ||| (r >>> 2)]
  | _ => []

/-! ## Bits -/

theorem first_octet (a b : UInt8) : ((a >>> 2) <<< 2) ||| ((((a &&& 3) <<< 4) ||| (b >>> 4)) >>> 4) = a := by
  apply UInt8.eq_of_toBitVec_eq
  ext i hi
  simp
  interval_cases i <;> simp

theorem second_octet (a b c : UInt8) : (((((a &&& 3) <<< 4) ||| (b >>> 4)) &&& 15) <<< 4) |||
    ((((b &&& 15) <<< 2) ||| (c >>> 6)) >>> 2) = b := by
  apply UInt8.eq_of_toBitVec_eq
  ext i hi
  simp
  interval_cases i <;> simp

theorem third_octet (b c : UInt8) : (((((b &&& 15) <<< 2) ||| (c >>> 6)) &&& 3) <<< 6) ||| (c &&& 63) = c := by
  apply UInt8.eq_of_toBitVec_eq
  ext i hi
  simp
  interval_cases i <;> simp

theorem shiftRight_lt (a : UInt8) : (a >>> 2).toNat < 64 := by
  have := a.toNat_lt
  rw [UInt8.toNat_shiftRight, Nat.shiftRight_eq_div_pow]
  simp; omega

theorem and_lt (a : UInt8) : (a &&& 63).toNat < 64 := by
  have : a.toNat &&& 63 ≤ 63 := Nat.and_le_right
  rw [UInt8.toNat_and]; simp; omega

/-- A value below 64 is one whose two high bits are clear. -/
theorem toNat_lt_iff (v : UInt8) : v.toNat < 64 ↔ v &&& 63 = v := by
  constructor
  · intro h
    rw [← UInt8.toNat_inj, UInt8.toNat_and]
    exact Nat.and_two_pow_sub_one_of_lt_two_pow (n := 6) h
  · intro h
    rw [← h]
    exact and_lt v

theorem second_lt (a b : UInt8) : (((a &&& 3) <<< 4) ||| (b >>> 4)).toNat < 64 := by
  rw [toNat_lt_iff]
  apply UInt8.eq_of_toBitVec_eq
  ext i hi
  simp
  interval_cases i <;> simp

theorem third_lt (b c : UInt8) : (((b &&& 15) <<< 2) ||| (c >>> 6)).toNat < 64 := by
  rw [toNat_lt_iff]
  apply UInt8.eq_of_toBitVec_eq
  ext i hi
  simp
  interval_cases i <;> simp

/-! ## Binary digits -/

/-- The `w` low binary digits of a number, the highest first. -/
def bits : Nat → Nat → List Nat
  | 0, _ => []
  | w + 1, v => v / 2 ^ w % 2 :: bits w v

/-- The number with these binary digits. -/
def ofBits (l : List Nat) : Nat := l.foldl (fun a b => 2 * a + b) 0

/-- The octets of a run of binary digits, eight digits at a time; an incomplete rest is left out. -/
def bitOctets : List Nat → List UInt8
  | a :: b :: c :: d :: e :: f :: g :: h :: r => (ofBits [a, b, c, d, e, f, g, h]).toUInt8 :: bitOctets r
  | _ => []

theorem toUInt8_eq_iff {n : Nat} (hn : n < 256) (a : UInt8) : n.toUInt8 = a ↔ n = a.toNat := by
  rw [← UInt8.toNat_inj, Nat.toUInt8, UInt8.toNat_ofNat', Nat.mod_eq_of_lt hn]

/-- A high part shifted by `k` digits beside a low part of at most `k` digits. -/
theorem toNat_shift_or {a b : UInt8} {k : Nat} (hk : k < 8) (ha : a.toNat * 2 ^ k < 256) (hb : b.toNat < 2 ^ k) :
    ((a <<< k.toUInt8) ||| b).toNat = a.toNat * 2 ^ k + b.toNat := by
  have hk8 : k.toUInt8.toNat % 8 = k := by
    rw [Nat.toUInt8, UInt8.toNat_ofNat', Nat.mod_eq_of_lt (by omega : k < 2 ^ 8), Nat.mod_eq_of_lt hk]
  rw [UInt8.toNat_or, UInt8.toNat_shiftLeft, hk8, Nat.shiftLeft_eq, Nat.mod_eq_of_lt ha, mul_comm,
    ← Nat.two_pow_add_eq_or_of_lt hb]

/-! ## Round trip -/

theorem sextets_lt : ∀ (b : List UInt8), ∀ v ∈ sextets b, v.toNat < 64
  | a :: b :: c :: r => by
    simp only [sextets, List.forall_mem_cons]
    exact ⟨shiftRight_lt a, second_lt a b, third_lt b c, and_lt c, sextets_lt r⟩
  | [a, b] => by
    have h := third_lt b 0
    simp only [sextets, List.forall_mem_cons, List.not_mem_nil, false_imp_iff, implies_true, and_true]
    exact ⟨shiftRight_lt a, second_lt a b, by simpa using h⟩
  | [a] => by
    have h := second_lt a 0
    simp only [sextets, List.forall_mem_cons, List.not_mem_nil, false_imp_iff, implies_true, and_true]
    exact ⟨shiftRight_lt a, by simpa using h⟩
  | [] => by simp [sextets]

/-- Reading back what was written gives the octets. -/
theorem octets_sextets : ∀ (b : List UInt8), octets (sextets b) ++ restOctets (rest (sextets b)) = b
  | a :: b :: c :: r => by
    simp only [sextets, octets, rest, first_octet, second_octet, third_octet, List.cons_append, octets_sextets r]
  | [a, b] => by
    have h1 := first_octet a b
    have h2 := second_octet a b 0
    simp only [UInt8.zero_shiftRight, UInt8.or_zero] at h2
    simp only [sextets, octets, rest, restOctets, h1, h2, List.nil_append]
  | [a] => by
    have h := first_octet a 0
    simp only [UInt8.zero_shiftRight, UInt8.or_zero] at h
    simp only [sextets, octets, rest, restOctets, h, List.nil_append]
  | [] => rfl

theorem length_sextets : ∀ (b : List UInt8), (sextets b).length = (4 * b.length + 2) / 3
  | _ :: _ :: _ :: r => by simp only [sextets, List.length_cons, length_sextets r]; omega
  | [_, _] => by simp [sextets]
  | [_] => by simp [sextets]
  | [] => rfl

theorem length_rest : ∀ (l : List UInt8), (rest l).length = l.length % 4
  | _ :: _ :: _ :: _ :: t => by
    rw [rest, length_rest t, List.length_cons, List.length_cons, List.length_cons, List.length_cons]; omega
  | [] => rfl
  | [_] => rfl
  | [_, _] => rfl
  | [_, _, _] => rfl

/-! ## Values as digits -/

section Groups

variable {p q r s : UInt8}

theorem shiftRight_toNat (k : Nat) (hk : k < 8) (v : UInt8) : (v >>> k.toUInt8).toNat = v.toNat / 2 ^ k := by
  have hk8 : k.toUInt8.toNat % 8 = k := by
    rw [Nat.toUInt8, UInt8.toNat_ofNat', Nat.mod_eq_of_lt (by omega : k < 2 ^ 8), Nat.mod_eq_of_lt hk]
  rw [UInt8.toNat_shiftRight, hk8, Nat.shiftRight_eq_div_pow]

theorem and_toNat (k : Nat) (hk : k < 8) (v : UInt8) : (v &&& (2 ^ k - 1).toUInt8).toNat = v.toNat % 2 ^ k := by
  have hk8 : (2 ^ k - 1).toUInt8.toNat = 2 ^ k - 1 := by
    have : 2 ^ k < 2 ^ 8 := Nat.pow_lt_pow_right (by decide) hk
    rw [Nat.toUInt8, UInt8.toNat_ofNat', Nat.mod_eq_of_lt (by omega)]
  rw [UInt8.toNat_and, hk8, Nat.and_two_pow_sub_one_eq_mod]

theorem first_bits (hp : p.toNat < 64) (hq : q.toNat < 64) :
    ((p <<< 2) ||| (q >>> 4)).toNat = p.toNat * 4 + q.toNat / 16 := by
  have h : (q >>> 4).toNat = q.toNat / 16 := shiftRight_toNat 4 (by decide) q
  have ho := @toNat_shift_or p (q >>> 4) 2 (by decide) (by omega) (by omega)
  exact ho.trans (congrArg _ h)

theorem second_bits (hr : r.toNat < 64) :
    (((q &&& 15) <<< 4) ||| (r >>> 2)).toNat = q.toNat % 16 * 16 + r.toNat / 4 := by
  have hq : (q &&& 15).toNat = q.toNat % 16 := and_toNat 4 (by decide) q
  have h : (r >>> 2).toNat = r.toNat / 4 := shiftRight_toNat 2 (by decide) r
  have ho := @toNat_shift_or (q &&& 15) (r >>> 2) 4 (by decide) (by omega) (by omega)
  exact ho.trans (congrArg₂ (fun x y => x * 16 + y) hq h)

theorem third_bits (hs : s.toNat < 64) : (((r &&& 3) <<< 6) ||| s).toNat = r.toNat % 4 * 64 + s.toNat := by
  have hr : (r &&& 3).toNat = r.toNat % 4 := and_toNat 2 (by decide) r
  have ho := @toNat_shift_or (r &&& 3) s 6 (by decide) (by omega) (by omega)
  exact ho.trans (congrArg (fun x => x * 64 + s.toNat) hr)

theorem eq_toUInt8 {x : UInt8} {n : Nat} (h : x.toNat = n) : x = n.toUInt8 :=
  ((toUInt8_eq_iff (h ▸ x.toNat_lt) x).2 h.symm).symm

theorem first_digits (hp : p.toNat < 64) (hq : q.toNat < 64) :
    (p <<< 2) ||| (q >>> 4) = (ofBits (bits 6 p.toNat ++ (bits 6 q.toNat).take 2)).toUInt8 := by
  refine eq_toUInt8 ((first_bits hp hq).trans ?_)
  simp [ofBits, bits]
  omega

theorem second_digits (hr : r.toNat < 64) :
    ((q &&& 15) <<< 4) ||| (r >>> 2) = (ofBits ((bits 6 q.toNat).drop 2 ++ (bits 6 r.toNat).take 4)).toUInt8 := by
  refine eq_toUInt8 ((second_bits hr).trans ?_)
  simp [ofBits, bits]
  omega

theorem third_digits (hs : s.toNat < 64) :
    ((r &&& 3) <<< 6) ||| s = (ofBits ((bits 6 r.toNat).drop 4 ++ bits 6 s.toNat)).toUInt8 := by
  refine eq_toUInt8 ((third_bits hs).trans ?_)
  simp [ofBits, bits]
  omega

end Groups

/-- The octets of some values are their digits taken eight at a time. -/
theorem octets_bits : ∀ (l : List UInt8), (∀ v ∈ l, v.toNat < 64) →
    octets l ++ restOctets (rest l) = bitOctets (l.flatMap fun v => bits 6 v.toNat)
  | p :: q :: r :: s :: t, h => by
    simp only [List.forall_mem_cons] at h
    obtain ⟨hp, hq, hr, hs, ht⟩ := h
    simp only [octets, rest, List.cons_append, octets_bits t ht]
    rw [first_digits hp hq, second_digits hr, third_digits hs]
    rfl
  | [p, q, r], h => by
    simp only [List.forall_mem_cons] at h
    obtain ⟨hp, hq, hr, -⟩ := h
    simp only [octets, rest, restOctets, List.nil_append]
    rw [first_digits hp hq, second_digits hr]
    rfl
  | [p, q], h => by
    simp only [List.forall_mem_cons] at h
    obtain ⟨hp, hq, -⟩ := h
    simp only [octets, rest, restOctets, List.nil_append]
    rw [first_digits hp hq]
    rfl
  | [p], _ => by simp [octets, rest, restOctets, bits, bitOctets]
  | [], _ => rfl

end Sextet
