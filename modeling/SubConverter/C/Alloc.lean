/-
Allocated blocks and `size_t` arithmetic of any width. A run may end in `abort()`; a write outside a block, a size that
wraps in a checked run and a null pointer are faults.
-/
import SubConverter.C.Mem

namespace CMem

/-! ## Runs that may abort -/

inductive Stop
  | abort
  | fault (f : Fault)
  deriving DecidableEq, Repr

abbrev Exec := Except Stop

@[simp] theorem exec_ok_bind {α β : Type} (a : α) (f : α → Exec β) : ((.ok a : Exec α) >>= f) = f a := rfl

/-- What the standard says of an implementation: `SIZE_MAX` is 65535 at least, and an `int` that is not negative is a
`size_t`. -/
structure Arch where
  sizeBits : Nat
  intMax : Nat
  sizeBits_ge : 16 ≤ sizeBits
  intMax_lt : intMax < 2 ^ sizeBits

namespace Arch

variable (m : Arch)

def sizeMax : Nat := 2 ^ m.sizeBits - 1

/-- Half of the sizes there are. -/
def half : Nat := 2 ^ (m.sizeBits - 1)

/-- A sum or product as a `size_t`. -/
def size (σ : Arith) (n : Nat) : Exec Nat :=
  if n < 2 ^ m.sizeBits then .ok n
  else match σ with
    | .machine => .ok (n % 2 ^ m.sizeBits)
    | .checked => .error (.fault .wrap)

/-- A difference as a `size_t`. -/
def sizeSub (σ : Arith) (a b : Nat) : Exec Nat :=
  if b ≤ a then .ok (a - b)
  else match σ with
    | .machine => .ok (2 ^ m.sizeBits + a - b)
    | .checked => .error (.fault .wrap)

theorem size_eq (σ : Arith) {n : Nat} (h : n < 2 ^ m.sizeBits) : m.size σ n = .ok n := if_pos h

theorem sizeSub_eq (σ : Arith) {a b : Nat} (h : b ≤ a) : m.sizeSub σ a b = .ok (a - b) := if_pos h

theorem le_two_pow_sizeBits : 2 ^ 16 ≤ 2 ^ m.sizeBits := Nat.pow_le_pow_right (by decide) m.sizeBits_ge

theorem two_half : 2 ^ m.sizeBits = 2 * m.half := by
  have hbits := m.sizeBits_ge
  rw [half, ← Nat.pow_succ', Nat.succ_eq_add_one, Nat.sub_add_cancel (by omega)]

theorem half_pos : 0 < m.half := Nat.two_pow_pos _

end Arch

/-! ## Blocks -/

/-- What one call of `realloc` is free in: whether it fails, and what stands in the new bytes. -/
structure Realloc where
  fails : Bool
  fresh : Nat → Byte

def Realloc.run (r : Realloc) (old : Option Bytes) (n : Nat) : Option Bytes :=
  if r.fails then none else some ((old.getD []).take n ++ (List.range (n - (old.getD []).length)).map r.fresh)

/-- Writing `b` to a block from index `i` on. -/
def store (block : Option Bytes) (i : Nat) (b : Bytes) : Exec Bytes :=
  match block with
  | none => .error (.fault .null)
  | some block =>
    if i + b.length ≤ block.length then .ok (block.take i ++ (b ++ block.drop (i + b.length)))
    else .error (.fault .oob)

/-- What `vsnprintf` returns for a text; `none` where it cannot be formatted. -/
def vsnprintfLen (m : Arch) : Option Bytes → Int
  | none => -1
  | some text => if text.length ≤ m.intMax then text.length else -1

/-- `vsnprintf` to index `i` with `size` bytes: what fits, and a NUL behind it. -/
def vsnprintf (block : Option Bytes) (i size : Nat) (text : Bytes) : Exec (Option Bytes) :=
  if size = 0 then .ok block
  else
    match store block i (text.take (size - 1) ++ [0]) with
    | .ok block => .ok (some block)
    | .error e => .error e

/-- A block grows to the size asked for and keeps its bytes. -/
theorem Realloc.run_spec (r : Realloc) {old : Option Bytes} {n : Nat} (h : (old.getD []).length ≤ n) :
    (r.run old n = none ∧ r.fails = true) ∨ ∃ fresh, r.run old n = some (old.getD [] ++ fresh) ∧ (old.getD [] ++ fresh).length = n := by
  unfold Realloc.run
  by_cases hf : r.fails = true
  · exact .inl ⟨if_pos hf, hf⟩
  · refine .inr ⟨(List.range (n - (old.getD []).length)).map r.fresh, ?_, ?_⟩
    · rw [if_neg hf, List.take_of_length_le h]
    · rw [List.length_append, List.length_map, List.length_range]
      omega

theorem store_eq {block : Bytes} {i : Nat} {b : Bytes} (h : i + b.length ≤ block.length) :
    store (some block) i b = .ok (block.take i ++ (b ++ block.drop (i + b.length))) := if_pos h

/-- Writing behind what was written. -/
theorem store_store {block : Bytes} {i : Nat} {b c : Bytes} (h : i + b.length + c.length ≤ block.length) :
    store (some (block.take i ++ (b ++ block.drop (i + b.length)))) (i + b.length) c =
      .ok (block.take i ++ ((b ++ c) ++ block.drop (i + (b ++ c).length))) := by
  have hlen : (block.take i ++ b).length = i + b.length := by
    rw [List.length_append, List.length_take_of_le (by omega)]
  rw [← List.append_assoc, store_eq, List.take_left' hlen, ← List.append_assoc, List.length_append]
  · rw [List.drop_append, hlen, List.drop_eq_nil_of_le (by omega)]
    rw [Nat.add_sub_cancel_left, List.drop_drop, List.nil_append]
    simp only [List.append_assoc, Nat.add_assoc]
  · rw [List.length_append, hlen, List.length_drop]
    omega

end CMem
