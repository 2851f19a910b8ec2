/-
Checked C memory. A pointer is the list of the bytes from it to the end of its buffer, so `s + k`
is `s.drop k`; a read outside the buffer is a fault, a `size_t` subtraction is modulo `2^64` or,
in a checked run, a fault when it wraps. The scanning loops (`for (i = a; i < b; i++) if (s[i] ==
c) ...`) come with their rules: what they return on a buffer taken apart at the byte they look for.
-/
import Mathlib

namespace CMem

abbrev Byte := UInt8

/-- The bytes from a pointer to the end of its buffer. -/
abbrev Bytes := List Byte

/-- An ASCII character constant. -/
def ch (c : Char) : Byte := c.toNat.toUInt8

/-- An ASCII string constant, without its terminator. -/
def str (s : String) : Bytes := s.toList.map ch

/-! ## Runs -/

/-- Why a run has no result: a null pointer used as a string, a read outside a buffer, an `int` that
overflows or, in a checked run, a wrapped `size_t` subtraction, or a loop of the model cut off by its
fuel. -/
inductive Fault
  | null | oob | wrap | fuel
  deriving DecidableEq, Repr

abbrev Run := Except Fault

/-- How a run subtracts: as the machine does, or trapping when the result wraps. -/
inductive Arith
  | machine | checked
  deriving DecidableEq, Repr

@[simp] theorem ok_bind {α β : Type} (a : α) (f : α → Run β) : ((.ok a : Run α) >>= f) = f a := rfl

@[simp] theorem error_bind {α β : Type} (e : Fault) (f : α → Run β) : ((.error e : Run α) >>= f) = .error e := rfl

theorem bind_ok_iff {α β : Type} {x : Run α} {f : α → Run β} {b : β} :
    x >>= f = .ok b ↔ ∃ a, x = .ok a ∧ f a = .ok b := by
  cases x with
  | error e => simp
  | ok a => simp

theorem bind_error_iff {α β : Type} {x : Run α} {f : α → Run β} {e : Fault} :
    x >>= f = .error e ↔ x = .error e ∨ ∃ a, x = .ok a ∧ f a = .error e := by
  cases x with
  | error e => simp
  | ok a => simp

/-! ## Reads and subtractions -/

/-- One more than `SIZE_MAX`. -/
def sizeMod : Nat := 2 ^ 64

/-- `a - b` on `size_t`. -/
def usub (σ : Arith) (a b : Nat) : Run Nat :=
  if b ≤ a then .ok (a - b)
  else match σ with
    | .machine => .ok (sizeMod + a - b)
    | .checked => .error .wrap

/-- `s[i]`. -/
def rd (s : Bytes) (i : Nat) : Run Byte :=
  match s[i]? with
  | some b => .ok b
  | none => .error .oob

/-- The `n` bytes from `s` on, all of them read. -/
def slice (s : Bytes) (n : Nat) : Run Bytes :=
  if n ≤ s.length then .ok (s.take n) else .error .oob

/-- The first of the `n` indices from `i` on where `s` has the byte `c`. -/
def scan (s : Bytes) (c : Byte) : Nat → Nat → Run (Option Nat)
  | _, 0 => .ok none
  | i, n + 1 => do
    if (← rd s i) = c then .ok (some i) else scan s c (i + 1) n

/-- The last of the `n` indices from `i` on where `s` has the byte `c`, `acc` if there is none. -/
def scanLast (s : Bytes) (c : Byte) : Nat → Nat → Option Nat → Run (Option Nat)
  | _, 0, acc => .ok acc
  | i, n + 1, acc => do
    scanLast s c (i + 1) n (if (← rd s i) = c then some i else acc)

theorem usub_le (σ : Arith) {a b : Nat} (h : b ≤ a) : usub σ a b = .ok (a - b) := by
  simp [usub, h]

theorem usub_wrap {a b : Nat} (h : a < b) : usub .checked a b = .error .wrap := by
  simp [usub, Nat.not_le.mpr h]

theorem usub_machine {a b : Nat} (h : a < b) : usub .machine a b = .ok (sizeMod + a - b) := by
  simp [usub, Nat.not_le.mpr h]

theorem rd_cons_zero (c : Byte) (s : Bytes) : rd (c :: s) 0 = .ok c := rfl

theorem rd_append_cons (p : Bytes) (c : Byte) (s : Bytes) : rd (p ++ c :: s) p.length = .ok c := by
  simp [rd]

/-- A read behind a prefix. -/
theorem rd_append_right (p s : Bytes) (k : Nat) : rd (p ++ s) (p.length + k) = rd s k := by
  simp [rd, List.getElem?_append_right]

theorem rd_oob {s : Bytes} {i : Nat} (h : s.length ≤ i) : rd s i = .error .oob := by
  simp [rd, List.getElem?_eq_none h]

@[simp] theorem slice_append (b t : Bytes) : slice (b ++ t) b.length = .ok b := by
  simp [slice]

theorem slice_self (b : Bytes) : slice b b.length = .ok b := by simp [slice]

/-! ## Scans -/

/-- A list is free of `c`, or splits at its first `c`. -/
theorem first_split (c : Byte) (b : Bytes) : c ∉ b ∨ ∃ x y, b = x ++ c :: y ∧ c ∉ x := by
  by_cases h : c ∈ b
  · obtain ⟨x, y, rfl, hx⟩ := List.eq_append_cons_of_mem h
    exact .inr ⟨x, y, rfl, hx⟩
  · exact .inl h

/-- A list is free of `c`, or splits at its last `c`. -/
theorem last_split (c : Byte) (b : Bytes) : c ∉ b ∨ ∃ x y, b = x ++ c :: y ∧ c ∉ y := by
  rcases first_split c b.reverse with h | ⟨x, y, h, hx⟩
  · exact .inl (by simpa using h)
  · refine .inr ⟨y.reverse, x.reverse, ?_, by simpa using hx⟩
    rw [← List.reverse_reverse b, h]; simp

theorem scan_hit {c : Byte} : ∀ {p x y : Bytes} {n : Nat}, c ∉ x → x.length < n →
    scan (p ++ x ++ c :: y) c p.length n = .ok (some (p.length + x.length))
  | p, [], y, n + 1, _, _ => by simp [scan, rd]
  | p, a :: x, y, n + 1, hx, hn => by
    simp only [List.mem_cons, not_or] at hx
    have ih := scan_hit (c := c) (p := p ++ [a]) (x := x) (y := y) (n := n) hx.2 (by simpa using hn)
    simp only [List.append_assoc, List.cons_append, List.nil_append, List.length_append,
      List.length_singleton] at ih
    rw [List.append_assoc, List.cons_append, scan, rd_append_cons, ok_bind, if_neg (Ne.symm hx.1), ih]
    simp [Nat.add_assoc, Nat.add_comm 1]

theorem scan_miss {c : Byte} : ∀ {p x y : Bytes}, c ∉ x →
    scan (p ++ x ++ y) c p.length x.length = .ok none
  | p, [], y, _ => by simp [scan]
  | p, a :: x, y, hx => by
    simp only [List.mem_cons, not_or] at hx
    have ih := scan_miss (c := c) (p := p ++ [a]) (x := x) (y := y) hx.2
    simp only [List.append_assoc, List.cons_append, List.nil_append, List.length_append,
      List.length_singleton] at ih
    rw [List.append_assoc, List.cons_append, List.length_cons, scan, rd_append_cons, ok_bind,
      if_neg (Ne.symm hx.1), ih]

/-- `scan_hit` from the start of the buffer. -/
theorem scan_hit_zero {c : Byte} {x y : Bytes} {n : Nat} (hx : c ∉ x) (hn : x.length < n) :
    scan (x ++ c :: y) c 0 n = .ok (some x.length) := by
  simpa using scan_hit (p := []) (y := y) hx hn

/-- `scan_miss` from the start of the buffer. -/
theorem scan_miss_zero {c : Byte} {x y : Bytes} (hx : c ∉ x) : scan (x ++ y) c 0 x.length = .ok none := by
  simpa using scan_miss (p := []) (y := y) hx

theorem scanLast_miss {c : Byte} : ∀ {p x y : Bytes} {o : Option Nat}, c ∉ x →
    scanLast (p ++ x ++ y) c p.length x.length o = .ok o
  | p, [], y, o, _ => by simp [scanLast]
  | p, a :: x, y, o, hx => by
    simp only [List.mem_cons, not_or] at hx
    have ih := scanLast_miss (c := c) (p := p ++ [a]) (x := x) (y := y) (o := o) hx.2
    simp only [List.append_assoc, List.cons_append, List.nil_append, List.length_append,
      List.length_singleton] at ih
    rw [List.append_assoc, List.cons_append, List.length_cons, scanLast, rd_append_cons, ok_bind,
      if_neg (Ne.symm hx.1), ih]

/-- The last `c` of `x ++ c :: z` when `z` is free of it. -/
theorem scanLast_hit {c : Byte} : ∀ {p x z y : Bytes} {o : Option Nat}, c ∉ z →
    scanLast (p ++ x ++ c :: z ++ y) c p.length (x.length + 1 + z.length) o =
      .ok (some (p.length + x.length))
  | p, [], z, y, o, hz => by
    have h := scanLast_miss (c := c) (p := p ++ [c]) (x := z) (y := y) (o := some p.length) hz
    simp only [List.append_assoc, List.cons_append, List.nil_append, List.length_append,
      List.length_singleton] at h
    rw [show ([] : Bytes).length + 1 + z.length = z.length + 1 by simp; omega, scanLast]
    simp only [List.append_nil, List.append_assoc, List.cons_append]
    rw [rd_append_cons, ok_bind, if_pos rfl, h]; simp
  | p, a :: x, z, y, o, hz => by
    have ih := scanLast_hit (c := c) (p := p ++ [a]) (x := x) (z := z) (y := y)
      (o := if a = c then some p.length else o) hz
    simp only [List.append_assoc, List.cons_append, List.nil_append, List.length_append,
      List.length_singleton] at ih
    rw [show (a :: x).length + 1 + z.length = (x.length + 1 + z.length) + 1 by simp; omega, scanLast]
    simp only [List.append_assoc, List.cons_append]
    rw [rd_append_cons, ok_bind, ih]
    simp [Nat.add_assoc, Nat.add_comm 1]

/-! ## Scans that may leave the buffer -/

theorem scan_some {s : Bytes} {c : Byte} : ∀ {n i j : Nat}, scan s c i n = .ok (some j) →
    i ≤ j ∧ j < i + n ∧ s[j]? = some c
  | 0, i, j, h => by simp [scan] at h
  | n + 1, i, j, h => by
    rw [scan] at h
    obtain ⟨b, hb, h⟩ := bind_ok_iff.1 h
    split at h
    · rename_i hc
      obtain rfl : i = j := by simpa using h
      refine ⟨Nat.le_refl _, by omega, ?_⟩
      unfold rd at hb
      split at hb <;> simp_all
    · have := scan_some h
      exact ⟨by omega, by omega, this.2.2⟩

theorem scan_none {s : Bytes} {c : Byte} : ∀ {n i : Nat}, scan s c i n = .ok none →
    n = 0 ∨ i + n ≤ s.length
  | 0, _, _ => .inl rfl
  | n + 1, i, h => by
    rw [scan] at h
    obtain ⟨b, hb, h⟩ := bind_ok_iff.1 h
    have hi : i < s.length := by
      by_contra hi
      rw [rd_oob (by omega)] at hb; cases hb
    split at h
    · simp at h
    · rcases scan_none h with h | h <;> omega

theorem scan_error {s : Bytes} {c : Byte} {e : Fault} : ∀ {n i : Nat}, scan s c i n = .error e → e = .oob
  | 0, i, h => by simp [scan] at h
  | n + 1, i, h => by
    rw [scan] at h
    rcases bind_error_iff.1 h with hb | ⟨b, hb, h⟩
    · unfold rd at hb
      split at hb <;> simp_all
    · split at h
      · cases h
      · exact scan_error h

/-- The last occurrence is sought to the end, so a range past the buffer leaves it. -/
theorem scanLast_oob {s : Bytes} {c : Byte} : ∀ {n i : Nat} {acc : Option Nat}, s.length < i + n → 0 < n →
    scanLast s c i n acc = .error .oob
  | n + 1, i, acc, h, _ => by
    rw [scanLast]
    by_cases hi : i < s.length
    · obtain ⟨b, hb⟩ : ∃ b, rd s i = .ok b := ⟨s[i], by simp [rd, hi]⟩
      rw [hb, ok_bind]
      exact scanLast_oob (by omega) (by omega)
    · rw [rd_oob (by omega)]; rfl

end CMem
