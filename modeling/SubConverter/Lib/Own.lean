/-
Ownership of heap blocks. A program allocates, reads, writes and frees blocks, and traps on a pointer to no live
block; pointers are never handed out twice, and a run tells whether one of its calls found no room. A triple speaks of
the blocks a program owns and keeps the others as they are, and a family of owners that share a heap goes on when one of
them runs.
-/
import Mathlib

namespace Own

variable {β ε : Type}

/-! ## Memory -/

/-- The live blocks. -/
abbrev Heap (β : Type) := ℕ → Option β

/-- The pointers from `next` on have not been handed out. -/
structure Mem (β : Type) where
  heap : Heap β
  next : ℕ
  unused : ∀ p, next ≤ p → heap p = none

/-- Nothing is allocated. -/
def Mem.empty : Mem β := ⟨fun _ => none, 0, fun _ _ => rfl⟩

/-- What a run leaves: its result, the memory, and whether a call of the allocator found no room. -/
structure Outcome (ε β α : Type) where
  result : Except ε α
  mem : Mem β
  short : Bool

def Prog (ε β α : Type) := Mem β → Outcome ε β α

instance : Monad (Prog ε β) where
  pure a := fun m => ⟨.ok a, m, false⟩
  bind c k := fun m =>
    match c m with
    | ⟨.ok a, m', s⟩ => { k a m' with short := s || (k a m').short }
    | ⟨.error e, m', s⟩ => ⟨.error e, m', s⟩

/-- A new block. -/
def create (v : β) : Prog ε β ℕ := fun m =>
  ⟨.ok m.next, ⟨Function.update m.heap m.next (some v), m.next + 1, fun p hp => by
    rw [Function.update_of_ne (by omega), m.unused p (by omega)]⟩, false⟩

/-- The next pointer is not handed out; `short` where it stands for a call without room. -/
def skip (short : Bool) : Prog ε β Unit := fun m =>
  ⟨.ok (), ⟨m.heap, m.next + 1, fun p hp => m.unused p (by omega)⟩, short⟩

/-- One of two programs, by the pointer that is next. -/
def branch {α : Type} (b : ℕ → Bool) (c c' : Prog ε β α) : Prog ε β α := fun m => if b m.next then c m else c' m

/-- What an allocator is free in, by the pointer that is next: which calls fail, and when a block moves. -/
structure Allocator where
  fails : ℕ → Bool
  moves : ℕ → Bool

/-- A new block, `none` where there is no room for it. -/
def alloc (A : Allocator) (v : β) : Prog ε β (Option ℕ) :=
  branch A.fails
    (do
      skip true
      return none)
    (do
      return some (← create v))

/-- A live block gets another content, or is freed. -/
def Mem.put (m : Mem β) {p : ℕ} (h : (m.heap p).isSome = true) (v : Option β) : Mem β where
  heap := Function.update m.heap p v
  next := m.next
  unused q hq := by
    have hne : q ≠ p := by
      rintro rfl
      rw [m.unused q hq] at h
      cases h
    rw [Function.update_of_ne hne, m.unused q hq]

section Access

variable (dead : ε)

/-- Reading through a pointer; `dead` when it points to no live block. -/
def load (p : ℕ) : Prog ε β β := fun m =>
  match m.heap p with
  | some v => ⟨.ok v, m, false⟩
  | none => ⟨.error dead, m, false⟩

def store (p : ℕ) (v : β) : Prog ε β Unit := fun m =>
  if h : (m.heap p).isSome = true then ⟨.ok (), m.put h (some v), false⟩ else ⟨.error dead, m, false⟩

def free (p : ℕ) : Prog ε β Unit := fun m =>
  if h : (m.heap p).isSome = true then ⟨.ok (), m.put h none, false⟩ else ⟨.error dead, m, false⟩

/-- A block gets another size and content, in its place or in another; where there is no room it stays as it is. -/
def resize (A : Allocator) (p : ℕ) (v : β) : Prog ε β (Option ℕ) :=
  branch (fun n => A.fails n || A.moves n)
    (do
      match ← alloc A v with
      | none => pure none
      | some q => do
        free dead p
        return some q)
    (do
      store dead p v
      skip false
      return some p)

end Access

def fail {α : Type} (e : ε) : Prog ε β α := fun m => ⟨.error e, m, false⟩

/-- A run, and whether a call of it found no room. -/
def noting {α : Type} (c : Prog ε β α) : Prog ε β (α × Bool) := fun m =>
  match c m with
  | ⟨.ok a, m', s⟩ => ⟨.ok (a, s), m', s⟩
  | ⟨.error e, m', s⟩ => ⟨.error e, m', s⟩

/-! ## Assertions -/

/-- The heap is the two, which have no block in common. -/
def Split (h h₁ h₂ : Heap β) : Prop := ∀ p, (h₁ p = none ∧ h p = h₂ p) ∨ (h₂ p = none ∧ h p = h₁ p)

/-- No block. -/
def emp (h : Heap β) : Prop := ∀ p, h p = none

/-- One block. -/
def pts (p : ℕ) (v : β) (h : Heap β) : Prop := h p = some v ∧ ∀ q, q ≠ p → h q = none

def sep (P Q : Heap β → Prop) (h : Heap β) : Prop := ∃ h₁ h₂, Split h h₁ h₂ ∧ P h₁ ∧ Q h₂

/-- These blocks with their contents. -/
def blocks : List (ℕ × β) → Heap β → Prop
  | [] => emp
  | (p, v) :: l => sep (pts p v) (blocks l)

theorem Split.symm {h h₁ h₂ : Heap β} (hs : Split h h₁ h₂) : Split h h₂ h₁ := fun p => (hs p).symm

theorem Split.assoc {h h₁ h₂ h₃ h₁₂ : Heap β} (hs : Split h h₁₂ h₃) (hs' : Split h₁₂ h₁ h₂) :
    ∃ h₂₃, Split h h₁ h₂₃ ∧ Split h₂₃ h₂ h₃ := by
  refine ⟨fun p => (h₂ p).or (h₃ p), fun p => ?_, fun p => ?_⟩
  · rcases hs p with ⟨ha, hb⟩ | ⟨ha, hb⟩ <;> rcases hs' p with ⟨hc, hd⟩ | ⟨hc, hd⟩ <;> grind
  · rcases hs p with ⟨ha, hb⟩ | ⟨ha, hb⟩ <;> rcases hs' p with ⟨hc, hd⟩ | ⟨hc, hd⟩ <;> grind

theorem split_emp {h h₁ h₂ : Heap β} (hs : Split h h₁ h₂) (he : emp h₁) : h = h₂ := by
  funext p
  rcases hs p with ⟨-, h⟩ | ⟨h, h'⟩
  · exact h
  · rw [h', he p, h]

theorem split_empty (h : Heap β) : Split h (fun _ => none) h := fun _ => .inl ⟨rfl, rfl⟩

theorem emp_sep {P : Heap β → Prop} {h : Heap β} : sep emp P h ↔ P h := by
  constructor
  · rintro ⟨h₁, h₂, hs, he, hp⟩
    rwa [split_emp hs he]
  · exact fun hp => ⟨_, h, split_empty h, fun _ => rfl, hp⟩

theorem sep_comm {P Q : Heap β → Prop} {h : Heap β} (hpq : sep P Q h) : sep Q P h := by
  obtain ⟨h₁, h₂, hs, hp, hq⟩ := hpq
  exact ⟨h₂, h₁, hs.symm, hq, hp⟩

theorem sep_mono {P P' Q Q' : Heap β → Prop} {h : Heap β} (hpq : sep P Q h) (hp : ∀ h, P h → P' h)
    (hq : ∀ h, Q h → Q' h) : sep P' Q' h := by
  obtain ⟨h₁, h₂, hs, h₁p, h₂q⟩ := hpq
  exact ⟨h₁, h₂, hs, hp _ h₁p, hq _ h₂q⟩

theorem sep_assoc_right {P Q R : Heap β → Prop} {h : Heap β} (hpqr : sep (sep P Q) R h) : sep P (sep Q R) h := by
  obtain ⟨h₁₂, h₃, hs, ⟨h₁, h₂, hs', hp, hq⟩, hr⟩ := hpqr
  obtain ⟨h₂₃, ha, hb⟩ := hs.assoc hs'
  exact ⟨h₁, h₂₃, ha, hp, h₂, h₃, hb, hq, hr⟩

theorem sep_assoc {P Q R : Heap β → Prop} {h : Heap β} : sep (sep P Q) R h ↔ sep P (sep Q R) h := by
  refine ⟨sep_assoc_right, fun hpqr => ?_⟩
  have hrqp : sep R (sep Q P) h := sep_assoc_right (sep_mono (sep_comm hpqr) (fun _ => sep_comm) fun _ => id)
  exact sep_mono (sep_comm hrqp) (fun _ => sep_comm) fun _ => id

/-- The last of three first. -/
theorem sep_rotate {P Q R : Heap β → Prop} {h : Heap β} (hpqr : sep P (sep Q R) h) : sep R (sep P Q) h :=
  sep_comm (sep_assoc.2 hpqr)

theorem sep_left_comm {P Q R : Heap β → Prop} {h : Heap β} (hpqr : sep P (sep Q R) h) : sep Q (sep P R) h :=
  sep_assoc.1 (sep_mono (sep_assoc.2 hpqr) (fun _ => sep_comm) fun _ => id)

/-- A fact about some of the blocks. -/
theorem sep_fact {P Q : Heap β → Prop} {φ : Prop} {h : Heap β} : sep (fun h => φ ∧ P h) Q h ↔ φ ∧ sep P Q h := by
  constructor
  · rintro ⟨h₁, h₂, hs, ⟨hφ, hp⟩, hq⟩
    exact ⟨hφ, h₁, h₂, hs, hp, hq⟩
  · rintro ⟨hφ, h₁, h₂, hs, hp, hq⟩
    exact ⟨h₁, h₂, hs, ⟨hφ, hp⟩, hq⟩

theorem sep_exists {ι : Type} {P : ι → Heap β → Prop} {Q : Heap β → Prop} {h : Heap β}
    (hpq : sep (fun h => ∃ i, P i h) Q h) : ∃ i, sep (P i) Q h := by
  obtain ⟨h₁, h₂, hs, ⟨i, hp⟩, hq⟩ := hpq
  exact ⟨i, h₁, h₂, hs, hp, hq⟩

theorem blocks_append (l k : List (ℕ × β)) {h : Heap β} : blocks (l ++ k) h ↔ sep (blocks l) (blocks k) h := by
  induction l generalizing h with
  | nil => exact emp_sep.symm
  | cons b l ih => exact ⟨fun hb => sep_assoc.2 (sep_mono hb (fun _ => id) fun _ => ih.1),
      fun hb => sep_mono (sep_assoc.1 hb) (fun _ => id) fun _ => ih.2⟩

/-! ## Triples -/

/-- On the blocks of `P`, and any others, the program ends in those of `Q` with the others as they were, or stops in
a way `E` allows; `S` holds as soon as a call of its own finds no room. -/
def Triple {α : Type} (S : Prop) (E : ε → Prop) (P : Heap β → Prop) (c : Prog ε β α) (Q : α → Heap β → Prop) : Prop :=
  ∀ m h f, Split m.heap h f → P h → ((c m).short = true → S) →
    match (c m).result with
    | .ok a => ∃ h', Split (c m).mem.heap h' f ∧ Q a h'
    | .error e => E e

section Rules

variable {α γ : Type} {S : Prop} {E : ε → Prop} {P P' R : Heap β → Prop} {Q Q' : α → Heap β → Prop}

theorem Triple.pure {a : α} (hpost : ∀ h, P h → Q a h) : Triple S E P (pure a : Prog ε β α) Q :=
  fun _ h _ hs hp _ => ⟨h, hs, hpost h hp⟩

theorem Triple.fail {e : ε} (he : E e) : Triple S E P (fail e : Prog ε β α) Q := fun _ _ _ _ _ _ => he

theorem bind_ok {c : Prog ε β α} {m m' : Mem β} {a : α} {s : Bool} (hc : c m = ⟨.ok a, m', s⟩) (k : α → Prog ε β γ) :
    (c >>= k) m = { k a m' with short := s || (k a m').short } := by
  show (match c m with
    | ⟨.ok a, m', s⟩ => { k a m' with short := s || (k a m').short }
    | ⟨.error e, m', s⟩ => ⟨.error e, m', s⟩) = _
  rw [hc]

theorem bind_error {c : Prog ε β α} {m m' : Mem β} {e : ε} {s : Bool} (hc : c m = ⟨.error e, m', s⟩)
    (k : α → Prog ε β γ) : (c >>= k) m = ⟨.error e, m', s⟩ := by
  show (match c m with
    | ⟨.ok a, m', s⟩ => { k a m' with short := s || (k a m').short }
    | ⟨.error e, m', s⟩ => ⟨.error e, m', s⟩) = _
  rw [hc]

theorem Triple.bind {c : Prog ε β α} {k : α → Prog ε β γ} {U : γ → Heap β → Prop} (hc : Triple S E P c Q)
    (hk : ∀ a, Triple S E (Q a) (k a) U) : Triple S E P (c >>= k) U := by
  intro m h f hs hp hshort
  have hfirst := hc m h f hs hp
  rcases hcm : c m with ⟨e | a, m', s⟩
  · rw [bind_error hcm] at hshort ⊢
    rw [hcm] at hfirst
    exact hfirst hshort
  · rw [bind_ok hcm] at hshort ⊢
    rw [hcm] at hfirst
    -- either part brings about what it needs
    obtain ⟨h', hs', hq⟩ := hfirst fun hs => hshort (by rw [show s = true from hs, Bool.true_or])
    exact hk a m' h' f hs' hq fun hk => hshort (by rw [hk, Bool.or_true])

theorem Triple.conseq {c : Prog ε β α} (hc : Triple S E P c Q) (hpre : ∀ h, P' h → P h)
    (hpost : ∀ a h, Q a h → Q' a h) : Triple S E P' c Q' := by
  intro m h f hs hp hshort
  have h₁ := hc m h f hs (hpre h hp) hshort
  split at h₁
  · obtain ⟨h', hs', hq⟩ := h₁
    exact ⟨h', hs', hpost _ h' hq⟩
  · exact h₁

theorem Triple.pre {c : Prog ε β α} (hc : Triple S E P c Q) (hpre : ∀ h, P' h → P h) : Triple S E P' c Q :=
  hc.conseq hpre fun _ _ => id

theorem Triple.post {c : Prog ε β α} (hc : Triple S E P c Q) (hpost : ∀ a h, Q a h → Q' a h) : Triple S E P c Q' :=
  hc.conseq (fun _ => id) hpost

/-- Other blocks stay. -/
theorem Triple.frame {c : Prog ε β α} (hc : Triple S E P c Q) (R : Heap β → Prop) :
    Triple S E (sep P R) c fun a => sep (Q a) R := by
  rintro m h f hs ⟨h₁, h₂, hs', hp, hr⟩ hshort
  obtain ⟨f', hf, hf'⟩ := hs.assoc hs'
  have hrun := hc m h₁ f' hf hp hshort
  split at hrun
  · obtain ⟨h', hs'', hq⟩ := hrun
    obtain ⟨g, hg, hg'⟩ := hs''.symm.assoc hf'.symm
    exact ⟨g, hg.symm, h', h₂, hg'.symm, hq, hr⟩
  · exact hrun

/-- A condition on the blocks that is a fact. -/
theorem Triple.of_fact {c : Prog ε β α} {φ : Prop} (hc : φ → Triple S E P c Q) :
    Triple S E (fun h => φ ∧ P h) c Q := fun m h f hs hp => hc hp.1 m h f hs hp.2

theorem Triple.exists {ι : Type} {c : Prog ε β α} {P : ι → Heap β → Prop} (hc : ∀ i, Triple S E (P i) c Q) :
    Triple S E (fun h => ∃ i, P i h) c Q := fun m h f hs ⟨i, hp⟩ => hc i m h f hs hp

theorem Triple.either {c : Prog ε β α} (hc : Triple S E P c Q) (hc' : Triple S E P' c Q) :
    Triple S E (fun h => P h ∨ P' h) c Q := fun m h f hs hp => hp.elim (hc m h f hs) (hc' m h f hs)

/-- Reading, with other blocks about. -/
theorem Triple.bind_read {c : Prog ε β α} {v : α} {k : α → Prog ε β γ} {U : γ → Heap β → Prop}
    (hc : Triple S E P c fun a h => a = v ∧ P h) (hk : Triple S E (sep P R) (k v) U) : Triple S E (sep P R) (c >>= k) U := by
  refine Triple.bind (hc.frame R) fun a m h f hs hp => ?_
  obtain ⟨rfl, hown⟩ := sep_fact.1 hp
  exact hk m h f hs hown

/-- More blocks, with others about. -/
theorem Triple.bind_new {c : Prog ε β α} {k : α → Prog ε β γ} {U : γ → Heap β → Prop} (hc : Triple S E emp c Q)
    (hk : ∀ a, Triple S E (sep (Q a) R) (k a) U) : Triple S E R (c >>= k) U :=
  Triple.bind ((hc.frame R).pre fun _ => emp_sep.2) hk

/-- The other blocks are left. -/
theorem Triple.bind_drop {c : Prog ε β α} {k : α → Prog ε β γ} {U : γ → Heap β → Prop}
    (hc : Triple S E P c fun _ => emp) (hk : ∀ a, Triple S E R (k a) U) : Triple S E (sep P R) (c >>= k) U :=
  Triple.bind (hc.frame R) fun a => (hk a).pre fun _ => emp_sep.1

/-! ## Blocks -/

theorem Triple.create (v : β) : Triple S E emp (create v : Prog ε β ℕ) fun p => pts p v := by
  intro m h f hs he _
  have hf := split_emp hs he
  refine ⟨fun q => if q = m.next then some v else none, fun q => ?_, by simp, fun q hq => if_neg hq⟩
  by_cases hq : q = m.next
  · right
    simp [Own.create, hq, ← hf, m.unused m.next le_rfl]
  · left
    simp [Own.create, hq, hf]

/-- No other pointer, or a call without room. -/
theorem Triple.skip (short : Bool) : Triple S E P (skip short : Prog ε β Unit) fun _ h => (short = true → S) ∧ P h :=
  fun _ h _ hs hp hshort => ⟨h, hs, hshort, hp⟩

theorem Triple.branch {b : ℕ → Bool} {c c' : Prog ε β α} (hc : Triple S E P c Q) (hc' : Triple S E P c' Q) :
    Triple S E P (branch b c c') Q := by
  intro m h f hs hp
  unfold Own.branch
  by_cases hb : b m.next = true
  · rw [if_pos hb]
    exact hc m h f hs hp
  · rw [if_neg hb]
    exact hc' m h f hs hp

theorem Triple.alloc (A : Allocator) (v : β) : Triple S E emp (alloc A v : Prog ε β (Option ℕ)) fun r h =>
    match r with
    | none => S ∧ emp h
    | some p => pts p v h := by
  refine Triple.branch (Triple.bind (Triple.skip true) fun _ => ?_) (Triple.bind (Triple.create v) fun p => ?_)
  · exact Triple.pure fun h hh => ⟨hh.1 rfl, hh.2⟩
  · exact Triple.pure fun h => id

variable {dead : ε}

/-- A block that is owned is live. -/
theorem Split.live {h h₁ h₂ : Heap β} (hs : Split h h₁ h₂) {p : ℕ} {v : β} (hp : h₁ p = some v) :
    h p = some v ∧ h₂ p = none := by
  rcases hs p with ⟨ha, -⟩ | ⟨ha, hb⟩
  · rw [ha] at hp
    cases hp
  · exact ⟨hb.trans hp, ha⟩

theorem Triple.load (p : ℕ) (v : β) : Triple S E (pts p v) (load dead p) fun a h => a = v ∧ pts p v h := by
  intro m h f hs hp _
  rw [Own.load, (hs.live hp.1).1]
  exact ⟨h, hs, rfl, hp⟩

/-- Another content, or none. -/
theorem Split.put {m : Mem β} {h f : Heap β} {p : ℕ} {v : β} (hs : Split m.heap h f) (hp : pts p v h)
    (hlive : (m.heap p).isSome = true) (w : Option β) :
    Split (m.put hlive w).heap (fun q => if q = p then w else none) f := by
  intro q
  by_cases hq : q = p
  · right
    subst hq
    simp [Mem.put, (hs.live hp.1).2]
  · left
    have hnone := hp.2 q hq
    rcases hs q with ⟨-, hb⟩ | ⟨ha, hb⟩
    · simp [Mem.put, hq, hb]
    · simp [Mem.put, hq, hb, ha, hnone]

theorem Triple.store (p : ℕ) (v w : β) : Triple S E (pts p v) (store dead p w) fun _ => pts p w := by
  intro m h f hs hp _
  have hlive : (m.heap p).isSome = true := by rw [(hs.live hp.1).1]; rfl
  rw [Own.store, dif_pos hlive]
  exact ⟨_, hs.put hp hlive (some w), by simp, fun q hq => if_neg hq⟩

theorem Triple.free (p : ℕ) (v : β) : Triple S E (pts p v) (free dead p) fun _ => emp := by
  intro m h f hs hp _
  have hlive : (m.heap p).isSome = true := by rw [(hs.live hp.1).1]; rfl
  rw [Own.free, dif_pos hlive]
  exact ⟨_, hs.put hp hlive none, fun q => by simp⟩

theorem Triple.resize (A : Allocator) (p : ℕ) (v w : β) : Triple S E (pts p v) (resize dead A p w) fun r h =>
    match r with
    | none => S ∧ pts p v h
    | some q => pts q w h := by
  refine Triple.branch (Triple.bind_new (Triple.alloc A w) ?_) (Triple.bind (Triple.store p v w) fun _ => ?_)
  · rintro (_ | q)
    · exact Triple.pure fun h hh => ⟨(sep_fact.1 hh).1, emp_sep.1 (sep_fact.1 hh).2⟩
    · exact (Triple.bind_drop (Triple.free p v) fun _ => Triple.pure fun _ => id).pre fun h => sep_comm
  · exact Triple.bind (Triple.skip false) fun _ => Triple.pure fun h hh => hh.2

/-- What a run brings about, by whether one of its own calls found no room. -/
theorem Triple.noting {c : Prog ε β α} {Q : Prop → α → Heap β → Prop} (hc : ∀ U : Prop, (U → S) → Triple U E P c (Q U)) :
    Triple S E P (noting c) fun r => Q (r.2 = true) r.1 := by
  intro m h f hs hp hshort
  have hrun := hc ((c m).short = true)
  unfold Own.noting at hshort ⊢
  rcases hcm : c m with ⟨e | a, m', s⟩
  · simp only [hcm] at hshort hrun ⊢
    have hstop := hrun hshort m h f hs hp (by rw [hcm]; exact id)
    rw [hcm] at hstop
    exact hstop
  · simp only [hcm] at hshort hrun ⊢
    have hpost := hrun hshort m h f hs hp (by rw [hcm]; exact id)
    rw [hcm] at hpost
    exact hpost

/-- A program that takes no block and leaves none changes no block. -/
theorem Triple.alone {c : Prog ε β α} {φ : α → Prop} (hc : Triple S E emp c fun a h => φ a ∧ emp h) {m : Mem β}
    (hshort : (c m).short = true → S) : (∀ a, (c m).result = .ok a → (c m).mem.heap = m.heap ∧ φ a) ∧
      ∀ e, (c m).result = .error e → E e := by
  have hrun := hc m _ m.heap (split_empty m.heap) (fun _ => rfl) hshort
  constructor
  · intro a ha
    rw [ha] at hrun
    obtain ⟨h', hs, hφ, he⟩ := hrun
    exact ⟨split_emp hs he, hφ⟩
  · intro e he
    rwa [he] at hrun

end Rules

/-! ## Owners -/

section Owners

variable {ι : Type}

/-- The live blocks are those of the owners, and no two owners have one in common. -/
structure Shares (parts : ι → Heap β) (h : Heap β) : Prop where
  live : ∀ i p v, parts i p = some v → h p = some v
  owned : ∀ p v, h p = some v → ∃ i, parts i p = some v
  apart : ∀ i j p v, i ≠ j → parts i p = some v → parts j p = none

/-- The blocks of the other owners. -/
def others (parts : ι → Heap β) (i : ι) (h : Heap β) : Heap β := fun p => if (parts i p).isSome then none else h p

theorem others_eq_some {parts : ι → Heap β} {i : ι} {h : Heap β} {p : ℕ} {v : β} :
    others parts i h p = some v ↔ parts i p = none ∧ h p = some v := by
  unfold others
  cases parts i p <;> simp

theorem Shares.split {parts : ι → Heap β} {h : Heap β} (hs : Shares parts h) (i : ι) :
    Split h (parts i) (others parts i h) := by
  intro p
  unfold others
  rcases hp : parts i p with _ | v
  · exact .inl ⟨rfl, by simp⟩
  · exact .inr ⟨by simp, hs.live i p v hp⟩

/-- The blocks of another owner are among those of the others. -/
theorem Shares.mem_others {parts : ι → Heap β} {h : Heap β} (hs : Shares parts h) {i j : ι} (hij : j ≠ i) {p : ℕ}
    {v : β} (hv : parts j p = some v) : others parts i h p = some v :=
  others_eq_some.2 ⟨hs.apart j i p v hij hv, hs.live j p v hv⟩

variable [DecidableEq ι]

/-- One owner has other blocks, and the others have theirs. -/
theorem Shares.update {parts : ι → Heap β} {h h' g : Heap β} (hs : Shares parts h) (i : ι)
    (hsplit : Split h' g (others parts i h)) : Shares (Function.update parts i g) h' where
  live j p v hv := by
    by_cases hj : j = i
    · subst hj
      rw [Function.update_self] at hv
      exact (hsplit.live hv).1
    · rw [Function.update_of_ne hj] at hv
      exact (hsplit.symm.live (hs.mem_others hj hv)).1
  owned p v hv := by
    rcases hsplit p with ⟨-, hp⟩ | ⟨-, hp⟩
    · obtain ⟨hi, hh⟩ := others_eq_some.1 (hp.symm.trans hv)
      obtain ⟨j, hj⟩ := hs.owned p v hh
      refine ⟨j, ?_⟩
      rw [Function.update_of_ne, hj]
      rintro rfl
      rw [hi] at hj
      cases hj
    · exact ⟨i, by rw [Function.update_self, ← hp, hv]⟩
  apart j k p v hjk hv := by
    have hown : ∀ {j : ι} {v w : β}, j ≠ i → parts j p = some v → g p = some w → False := by
      intro j v w hj hv hw
      have hnone := (hsplit.live hw).2
      rw [hs.mem_others hj hv] at hnone
      cases hnone
    by_cases hj : j = i
    · subst hj
      rw [Function.update_self] at hv
      rw [Function.update_of_ne (Ne.symm hjk), Option.eq_none_iff_forall_ne_some]
      exact fun w hw => hown (Ne.symm hjk) hw hv
    · rw [Function.update_of_ne hj] at hv
      by_cases hk : k = i
      · subst hk
        rw [Function.update_self, Option.eq_none_iff_forall_ne_some]
        exact fun w hw => hown hj hv hw
      · rw [Function.update_of_ne hk]
        exact hs.apart j k p v hjk hv

/-- One of the owners runs. -/
theorem Triple.shares {α : Type} {S : Prop} {E : ε → Prop} {P : Heap β → Prop} {c : Prog ε β α}
    {Q : α → Heap β → Prop} (hc : Triple S E P c Q) {m : Mem β} (hshort : (c m).short = true → S) {parts : ι → Heap β}
    (hs : Shares parts m.heap) (i : ι) (hp : P (parts i)) :
    match (c m).result with
    | .ok a => ∃ g, Shares (Function.update parts i g) (c m).mem.heap ∧ Q a g
    | .error e => E e := by
  have hrun := hc m (parts i) _ (hs.split i) hp hshort
  split at hrun
  · obtain ⟨g, hg, hq⟩ := hrun
    exact ⟨g, hs.update i hg, hq⟩
  · exact hrun

end Owners

end Own
