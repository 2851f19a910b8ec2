/-
Block structure by indentation, as in block YAML: rows of fields and items, cut into mappings and sequences by the
column they stand in. A tree is printed as rows, and the reader gives it back from them; whatever it reads, the
fields and leaves of the tree are those of the rows, in order.
-/
import Mathlib

namespace Layout

variable {κ α : Type}

/-! ## Rows and trees -/

/-- What stands on a row: a leaf, or a key with a leaf behind it or nothing. -/
inductive Entry (κ α : Type)
  | leaf (a : α)
  | field (k : κ) (v : Option α)
  deriving DecidableEq

structure Row (κ α : Type) where
  indent : ℕ
  dash : Bool
  entry : Entry κ α
  deriving DecidableEq

inductive Tree (κ α : Type)
  | null
  | leaf (a : α)
  | map (fields : List (κ × Tree κ α))
  | seq (items : List (Tree κ α))

/-! ## Printing -/

/-- The first row gets the dash of a sequence at column `n`. -/
def dashed (n : ℕ) : List (Row κ α) → List (Row κ α)
  | [] => []
  | r :: rs => ⟨n, true, r.entry⟩ :: rs

mutual

/-- The rows of a field at column `n`; what is nested stands two columns further. -/
def fieldRows (n : ℕ) (k : κ) : Tree κ α → List (Row κ α)
  | .null => [⟨n, false, .field k none⟩]
  | .leaf a => [⟨n, false, .field k (some a)⟩]
  | .map fs => ⟨n, false, .field k none⟩ :: mapRows (n + 2) fs
  | .seq ts => ⟨n, false, .field k none⟩ :: seqRows (n + 2) ts

def mapRows (n : ℕ) : List (κ × Tree κ α) → List (Row κ α)
  | [] => []
  | (k, t) :: fs => fieldRows n k t ++ mapRows n fs

/-- The rows of an item: a leaf, or a mapping that starts behind the dash. -/
def itemRows (n : ℕ) : Tree κ α → List (Row κ α)
  | .leaf a => [⟨n, true, .leaf a⟩]
  | .map fs => dashed n (mapRows (n + 2) fs)
  | .null => []
  | .seq _ => []

def seqRows (n : ℕ) : List (Tree κ α) → List (Row κ α)
  | [] => []
  | t :: ts => itemRows n t ++ seqRows n ts

end

/-- The rows of a tree from column `n` on, less those of a bare leaf or of nothing. -/
def rows (n : ℕ) : Tree κ α → List (Row κ α)
  | .map fs => mapRows n fs
  | .seq ts => seqRows n ts
  | .null => []
  | .leaf _ => []

mutual

/-- A tree that can be printed below a key: mappings and sequences are not empty, keys are not repeated, and items
are leaves or mappings. -/
def Fits : Tree κ α → Prop
  | .null => True
  | .leaf _ => True
  | .map fs => fs ≠ [] ∧ (fs.map Prod.fst).Nodup ∧ FieldsFit fs
  | .seq ts => ts ≠ [] ∧ ItemsFit ts

def FieldsFit : List (κ × Tree κ α) → Prop
  | [] => True
  | (_, t) :: fs => Fits t ∧ FieldsFit fs

def ItemsFit : List (Tree κ α) → Prop
  | [] => True
  | .leaf _ :: ts => ItemsFit ts
  | .map fs :: ts => (fs ≠ [] ∧ (fs.map Prod.fst).Nodup ∧ FieldsFit fs) ∧ ItemsFit ts
  | .null :: _ => False
  | .seq _ :: _ => False

end

theorem mapRows_append (n : ℕ) (fs gs : List (κ × Tree κ α)) : mapRows n (fs ++ gs) = mapRows n fs ++ mapRows n gs := by
  induction fs with
  | nil => rfl
  | cons f fs ih => rw [List.cons_append, mapRows, ih, mapRows, List.append_assoc]

theorem fieldsFit_append (fs gs : List (κ × Tree κ α)) : FieldsFit (fs ++ gs) ↔ FieldsFit fs ∧ FieldsFit gs := by
  induction fs with
  | nil => simp [FieldsFit]
  | cons f fs ih => rw [List.cons_append, FieldsFit, ih, FieldsFit, and_assoc]

theorem seqRows_map {ι : Type} (n : ℕ) (f : ι → Tree κ α) (xs : List ι) :
    seqRows n (xs.map f) = xs.flatMap fun x => itemRows n (f x) := by
  induction xs with
  | nil => rfl
  | cons x xs ih => rw [List.map_cons, seqRows, ih, List.flatMap_cons]

/-! ## Reading -/

section Reader

variable [DecidableEq κ]

mutual

/-- A mapping at column `m`, up to the first row that is no field there. -/
def readMap : ℕ → ℕ → List (Row κ α) → Option (List (κ × Tree κ α) × List (Row κ α))
  | 0, _, _ => none
  | _ + 1, _, [] => some ([], [])
  | fuel + 1, m, ⟨i, d, e⟩ :: rs =>
    match d, e with
    | false, .field k v =>
      if i = m then
        (readValue fuel m v rs).bind fun p =>
          (readMap fuel m p.2).bind fun q =>
            -- a key stands once in a mapping
            if k ∈ q.1.map Prod.fst then none else some ((k, p.1) :: q.1, q.2)
      else some ([], ⟨i, d, e⟩ :: rs)
    | _, _ => some ([], ⟨i, d, e⟩ :: rs)

/-- What stands behind a key at column `m`: a leaf on its row, a block further in, a sequence in the same column, or
nothing. -/
def readValue : ℕ → ℕ → Option α → List (Row κ α) → Option (Tree κ α × List (Row κ α))
  | 0, _, _, _ => none
  | _ + 1, _, some a, rs => some (.leaf a, rs)
  | _ + 1, _, none, [] => some (.null, [])
  | fuel + 1, m, none, r :: rs =>
    if m < r.indent ∨ (m = r.indent ∧ r.dash = true) then readNode fuel (r :: rs) else some (.null, r :: rs)

/-- The block that starts with the first row, in its column. -/
def readNode : ℕ → List (Row κ α) → Option (Tree κ α × List (Row κ α))
  | 0, _ => none
  | _ + 1, [] => none
  | fuel + 1, r :: rs =>
    if r.dash then (readSeq fuel r.indent (r :: rs)).map fun p => (.seq p.1, p.2)
    else (readMap fuel r.indent (r :: rs)).map fun p => (.map p.1, p.2)

/-- A sequence at column `m`; a field behind a dash starts a mapping two columns further. -/
def readSeq : ℕ → ℕ → List (Row κ α) → Option (List (Tree κ α) × List (Row κ α))
  | 0, _, _ => none
  | _ + 1, _, [] => some ([], [])
  | fuel + 1, m, r :: rs =>
    if r.dash = true ∧ r.indent = m then
      match r.entry with
      | .leaf a => (readSeq fuel m rs).map fun q => (.leaf a :: q.1, q.2)
      | .field k v =>
        (readMap fuel (m + 2) (⟨m + 2, false, .field k v⟩ :: rs)).bind fun p =>
          (readSeq fuel m p.2).map fun q => (.map p.1 :: q.1, q.2)
    else some ([], r :: rs)

end

/-- A whole document: one block from column 0 on. -/
def readTree (rs : List (Row κ α)) : Option (Tree κ α) :=
  match rs with
  | [] => some .null
  | r :: rs =>
    if r.indent = 0 then
      match readNode (4 * (r :: rs).length + 3) (r :: rs) with
      | some (t, []) => some t
      | _ => none
    else none

end Reader

/-! ## Round trip -/

/-- The leaf on the row of a field. -/
def Tree.onRow : Tree κ α → Option α
  | .leaf a => some a
  | _ => none

theorem fieldRows_eq (n : ℕ) (k : κ) (t : Tree κ α) :
    fieldRows n k t = ⟨n, false, .field k t.onRow⟩ :: rows (n + 2) t := by
  cases t <;> simp [fieldRows, rows, Tree.onRow]

/-- What follows does not belong to a block at column `n`. -/
def Below (n : ℕ) (rs : List (Row κ α)) : Prop := ∀ r ∈ rs.head?, r.indent < n

theorem Below.mono {n m : ℕ} {rs : List (Row κ α)} (h : Below n rs) (hnm : n ≤ m) : Below m rs :=
  fun r hr => (h r hr).trans_le hnm

theorem mapRows_cons {n : ℕ} {fs : List (κ × Tree κ α)} (h : fs ≠ []) :
    ∃ k v rs, mapRows n fs = ⟨n, false, .field k v⟩ :: rs := by
  obtain ⟨⟨k, t⟩, fs, rfl⟩ := List.exists_cons_of_ne_nil h
  exact ⟨k, t.onRow, rows (n + 2) t ++ mapRows n fs, by rw [mapRows, fieldRows_eq]; rfl⟩

theorem seqRows_cons {n : ℕ} {ts : List (Tree κ α)} (h : ts ≠ []) (hfit : ItemsFit ts) :
    ∃ e rs, seqRows n ts = ⟨n, true, e⟩ :: rs := by
  obtain ⟨t, ts, rfl⟩ := List.exists_cons_of_ne_nil h
  cases t with
  | null => simp [ItemsFit] at hfit
  | seq => simp [ItemsFit] at hfit
  | leaf a => exact ⟨.leaf a, seqRows n ts, by simp [seqRows, itemRows]⟩
  | map fs =>
    rw [ItemsFit] at hfit
    obtain ⟨k, v, rs, hrows⟩ := mapRows_cons (n := n + 2) hfit.1.1
    exact ⟨.field k v, rs ++ seqRows n ts, by rw [seqRows, itemRows, hrows]; rfl⟩

/-- The rows behind a sequence do not belong to the mapping of its last item. -/
theorem below_seqRows {n : ℕ} {ts : List (Tree κ α)} (hfit : ItemsFit ts) {rest : List (Row κ α)} (h : Below n rest) :
    Below (n + 2) (seqRows n ts ++ rest) := by
  by_cases hts : ts = []
  · rw [hts, seqRows, List.nil_append]
    exact h.mono (Nat.le_add_right n 2)
  · obtain ⟨e, rs, hrows⟩ := seqRows_cons (n := n) hts hfit
    rw [hrows]
    rintro r ⟨⟩
    exact Nat.lt_add_of_pos_right (by decide)

section RoundTrip

variable [DecidableEq κ]

/-- A mapping ends where the next row is none of its fields. -/
theorem readMap_below {n : ℕ} {rest : List (Row κ α)} (h : Below n rest) {fuel : ℕ} (hfuel : 0 < fuel) :
    readMap fuel n rest = some ([], rest) := by
  obtain ⟨fuel, rfl⟩ := Nat.exists_eq_add_of_lt hfuel
  rcases rest with _ | ⟨⟨i, d, e⟩, rs⟩
  · simp [readMap]
  · have hi : i ≠ n := (h ⟨i, d, e⟩ rfl).ne
    cases d <;> cases e <;> simp [readMap, hi]

theorem readSeq_below {n : ℕ} {rest : List (Row κ α)} (h : Below n rest) {fuel : ℕ} (hfuel : 0 < fuel) :
    readSeq fuel n rest = some ([], rest) := by
  obtain ⟨fuel, rfl⟩ := Nat.exists_eq_add_of_lt hfuel
  rcases rest with _ | ⟨r, rs⟩
  · simp [readSeq]
  · have hi : r.indent ≠ n := (h r rfl).ne
    simp [readSeq, hi]

mutual

/-- What stands behind a key is read back. -/
theorem readValue_rows : ∀ {t : Tree κ α}, Fits t → ∀ (fuel n : ℕ) (rest : List (Row κ α)),
    4 * (rows (n + 2) t).length + 4 ≤ fuel → (∀ r ∈ rest.head?, r.indent ≤ n ∧ (r.dash = true → r.indent < n)) →
      readValue fuel n t.onRow (rows (n + 2) t ++ rest) = some (t, rest)
  | .null, _, fuel + 1, n, rest, _, hrest => by
    rw [rows, List.nil_append, Tree.onRow]
    · rcases rest with _ | ⟨r, rs⟩
      · simp [readValue]
      · obtain ⟨hle, hlt⟩ := hrest r rfl
        rw [readValue, if_neg]
        rintro (h | ⟨h, hd⟩)
        · omega
        · have := hlt hd
          omega
    · simp
  | .leaf a, _, fuel + 1, n, rest, _, _ => by simp [rows, readValue, Tree.onRow]
  | .map fs, h, fuel + 3, n, rest, hfuel, hrest => by
    rw [Fits] at h
    obtain ⟨k, v, rs, hrows⟩ := mapRows_cons (n := n + 2) h.1
    have hbelow : Below (n + 2) rest := fun r hr => (hrest r hr).1.trans_lt (Nat.lt_add_of_pos_right (by decide))
    have ih := readMap_rows h.2.2 h.2.1 (fuel + 1) (n + 2) rest
      (by simp only [rows] at hfuel; omega) hbelow
    simp only [rows, Tree.onRow]
    rw [hrows, List.cons_append] at ih ⊢
    rw [readValue, if_pos (.inl (Nat.lt_add_of_pos_right (by decide))), readNode, if_neg (by simp), ih]
    rfl
  | .seq ts, h, fuel + 3, n, rest, hfuel, hrest => by
    rw [Fits] at h
    obtain ⟨e, rs, hrows⟩ := seqRows_cons (n := n + 2) h.1 h.2
    have hbelow : Below (n + 2) rest := fun r hr => (hrest r hr).1.trans_lt (Nat.lt_add_of_pos_right (by decide))
    have ih := readSeq_rows h.2 (fuel + 1) (n + 2) rest
      (by simp only [rows] at hfuel; omega) hbelow
    simp only [rows, Tree.onRow]
    rw [hrows, List.cons_append] at ih ⊢
    rw [readValue, if_pos (.inl (Nat.lt_add_of_pos_right (by decide))), readNode, if_pos rfl, ih]
    rfl

/-- The fields of a mapping are read back. -/
theorem readMap_rows : ∀ {fs : List (κ × Tree κ α)}, FieldsFit fs → (fs.map Prod.fst).Nodup →
    ∀ (fuel n : ℕ) (rest : List (Row κ α)), 4 * (mapRows n fs).length + 1 ≤ fuel → Below n rest →
      readMap fuel n (mapRows n fs ++ rest) = some (fs, rest)
  | [], _, _, fuel, n, rest, hfuel, hrest => by
    rw [mapRows, List.nil_append]
    exact readMap_below hrest (by omega)
  | (k, t) :: fs, h, hkeys, fuel + 1, n, rest, hfuel, hrest => by
    rw [FieldsFit] at h
    rw [List.map_cons, List.nodup_cons] at hkeys
    rw [mapRows, fieldRows_eq, List.cons_append, List.length_cons, List.length_append] at hfuel
    -- the value, then the other fields
    have hnext : ∀ r ∈ (mapRows n fs ++ rest).head?, r.indent ≤ n ∧ (r.dash = true → r.indent < n) := by
      by_cases hfs : fs = []
      · rw [hfs, mapRows, List.nil_append]
        exact fun r hr => ⟨(hrest r hr).le, fun _ => hrest r hr⟩
      · obtain ⟨k', v', rs, hrows⟩ := mapRows_cons (n := n) hfs
        rw [hrows]
        rintro r ⟨⟩
        exact ⟨le_rfl, nofun⟩
    have hvalue := readValue_rows h.1 fuel n (mapRows n fs ++ rest) (by omega) hnext
    have hmap := readMap_rows h.2 hkeys.2 fuel n rest (by omega) hrest
    rw [mapRows, fieldRows_eq, List.cons_append, List.cons_append, List.append_assoc, readMap, if_pos rfl, hvalue]
    simp only [Option.bind_some, hmap, if_neg hkeys.1]

/-- The items of a sequence are read back. -/
theorem readSeq_rows : ∀ {ts : List (Tree κ α)}, ItemsFit ts → ∀ (fuel n : ℕ) (rest : List (Row κ α)),
    4 * (seqRows n ts).length + 2 ≤ fuel → Below n rest → readSeq fuel n (seqRows n ts ++ rest) = some (ts, rest)
  | [], _, fuel, n, rest, hfuel, hrest => by
    rw [seqRows, List.nil_append]
    exact readSeq_below hrest (by omega)
  | .leaf a :: ts, h, fuel + 1, n, rest, hfuel, hrest => by
    rw [ItemsFit] at h
    rw [seqRows, itemRows, List.length_append, List.length_singleton] at hfuel
    have ih := readSeq_rows h fuel n rest (by omega) hrest
    rw [seqRows, itemRows, List.singleton_append, List.cons_append, readSeq, if_pos ⟨rfl, rfl⟩]
    simp only [ih, Option.map_some]
  | .map fs :: ts, h, fuel + 1, n, rest, hfuel, hrest => by
    rw [ItemsFit] at h
    obtain ⟨k, v, rs, hrows⟩ := mapRows_cons (n := n + 2) h.1.1
    have hlen : (mapRows (n + 2) fs).length = rs.length + 1 := by rw [hrows, List.length_cons]
    rw [seqRows, itemRows, hrows, dashed, List.length_append, List.length_cons] at hfuel
    have ih := readSeq_rows h.2 fuel n rest (by omega) hrest
    have hmap := readMap_rows h.1.2.2 h.1.2.1 fuel (n + 2) (seqRows n ts ++ rest) (by omega)
      (below_seqRows h.2 hrest)
    rw [hrows, List.cons_append] at hmap
    rw [seqRows, itemRows, hrows, dashed, List.cons_append, List.cons_append, List.append_assoc, readSeq,
      if_pos ⟨rfl, rfl⟩]
    simp only [hmap, Option.bind_some, ih, Option.map_some]

end

/-- A mapping that can be printed is read back from its rows. -/
theorem readTree_mapRows {fs : List (κ × Tree κ α)} (hne : fs ≠ []) (hkeys : (fs.map Prod.fst).Nodup)
    (h : FieldsFit fs) : readTree (mapRows 0 fs) = some (.map fs) := by
  obtain ⟨k, v, rs, hrows⟩ := mapRows_cons (n := 0) hne
  have hmap := readMap_rows h hkeys (4 * (mapRows 0 fs).length + 2) 0 []
    (Nat.le_succ _) nofun
  rw [List.append_nil, hrows] at hmap
  rw [hrows, readTree, if_pos rfl, readNode, if_neg (by simp), hmap]
  rfl

/-! ## What is read -/

mutual

/-- The fields and leaves below the first row of a tree, in order. -/
def inner : Tree κ α → List (Entry κ α)
  | .null => []
  | .leaf _ => []
  | .map fs => fieldEntries fs
  | .seq ts => itemEntries ts

def fieldEntries : List (κ × Tree κ α) → List (Entry κ α)
  | [] => []
  | (k, t) :: fs => .field k t.onRow :: (inner t ++ fieldEntries fs)

def itemEntries : List (Tree κ α) → List (Entry κ α)
  | [] => []
  | .leaf a :: ts => .leaf a :: itemEntries ts
  | .map fs :: ts => fieldEntries fs ++ itemEntries ts
  | .null :: ts => itemEntries ts
  | .seq _ :: ts => itemEntries ts

end

mutual

theorem readMap_entries : ∀ {fuel m : ℕ} {rs rest : List (Row κ α)} {fs : List (κ × Tree κ α)},
    readMap fuel m rs = some (fs, rest) → rs.map Row.entry = fieldEntries fs ++ rest.map Row.entry
  | 0, _, _, _, _, h => by simp [readMap] at h
  | fuel + 1, m, [], rest, fs, h => by
    rw [readMap] at h
    cases h
    rfl
  | fuel + 1, m, ⟨i, true, e⟩ :: rs, rest, fs, h => by
    rw [readMap] at h
    · cases h
      rfl
    · simp
  | fuel + 1, m, ⟨i, false, .leaf a⟩ :: rs, rest, fs, h => by
    rw [readMap] at h
    · cases h
      rfl
    · simp
  | fuel + 1, m, ⟨i, false, .field k v⟩ :: rs, rest, fs, h => by
    rw [readMap] at h
    split at h
    · obtain ⟨⟨t, rs'⟩, hvalue, h⟩ := Option.bind_eq_some_iff.1 h
      obtain ⟨⟨fs', rest'⟩, hmap, h⟩ := Option.bind_eq_some_iff.1 h
      split at h
      · cases h
      · cases h
        obtain ⟨hrow, hinner⟩ := readValue_entries hvalue
        rw [List.map_cons, hinner, readMap_entries hmap, fieldEntries, hrow, List.cons_append, List.append_assoc]
    · cases h
      rfl

theorem readValue_entries : ∀ {fuel m : ℕ} {v : Option α} {rs rest : List (Row κ α)} {t : Tree κ α},
    readValue fuel m v rs = some (t, rest) → v = t.onRow ∧ rs.map Row.entry = inner t ++ rest.map Row.entry
  | 0, _, _, _, _, _, h => by simp [readValue] at h
  | fuel + 1, m, some a, rs, rest, t, h => by
    rw [readValue] at h
    cases h
    exact ⟨rfl, rfl⟩
  | fuel + 1, m, none, [], rest, t, h => by
    rw [readValue] at h
    cases h
    exact ⟨rfl, rfl⟩
  | fuel + 1, m, none, r :: rs, rest, t, h => by
    rw [readValue] at h
    split at h
    · exact (readNode_entries h).imp_left Eq.symm
    · cases h
      exact ⟨rfl, rfl⟩

theorem readNode_entries : ∀ {fuel : ℕ} {rs rest : List (Row κ α)} {t : Tree κ α},
    readNode fuel rs = some (t, rest) → t.onRow = none ∧ rs.map Row.entry = inner t ++ rest.map Row.entry
  | 0, _, _, _, h => by simp [readNode] at h
  | fuel + 1, [], _, _, h => by simp [readNode] at h
  | fuel + 1, r :: rs, rest, t, h => by
    rw [readNode] at h
    split at h
    · obtain ⟨⟨ts, rest'⟩, hseq, h⟩ := Option.map_eq_some_iff.1 h
      cases h
      exact ⟨rfl, readSeq_entries hseq⟩
    · obtain ⟨⟨fs, rest'⟩, hmap, h⟩ := Option.map_eq_some_iff.1 h
      cases h
      exact ⟨rfl, readMap_entries hmap⟩

theorem readSeq_entries : ∀ {fuel m : ℕ} {rs rest : List (Row κ α)} {ts : List (Tree κ α)},
    readSeq fuel m rs = some (ts, rest) → rs.map Row.entry = itemEntries ts ++ rest.map Row.entry
  | 0, _, _, _, _, h => by simp [readSeq] at h
  | fuel + 1, m, [], rest, ts, h => by
    rw [readSeq] at h
    cases h
    rfl
  | fuel + 1, m, ⟨i, d, .leaf a⟩ :: rs, rest, ts, h => by
    rw [readSeq] at h
    split at h
    · obtain ⟨⟨ts', rest'⟩, hseq, h⟩ := Option.map_eq_some_iff.1 h
      cases h
      rw [List.map_cons, readSeq_entries hseq]
      rfl
    · cases h
      rfl
  | fuel + 1, m, ⟨i, d, .field k v⟩ :: rs, rest, ts, h => by
    rw [readSeq] at h
    split at h
    · -- the mapping starts on the item's own row
      obtain ⟨⟨fs, rs'⟩, hmap, h⟩ := Option.bind_eq_some_iff.1 h
      obtain ⟨⟨ts', rest'⟩, hseq, h⟩ := Option.map_eq_some_iff.1 h
      cases h
      have hfields := readMap_entries hmap
      rw [readSeq_entries hseq] at hfields
      rw [itemEntries, List.append_assoc, ← hfields]
      rfl
    · cases h
      rfl

end

/-- Rows that are read as one tree have the same fields and leaves. -/
theorem readTree_entries {rs rs' : List (Row κ α)} {t : Tree κ α} (h : readTree rs = some t)
    (h' : readTree rs' = some t) : rs.map Row.entry = rs'.map Row.entry := by
  have hread : ∀ {rs : List (Row κ α)}, readTree rs = some t → rs.map Row.entry = inner t := by
    intro rs h
    rcases rs with _ | ⟨r, rs⟩
    · cases h
      rfl
    · rw [readTree] at h
      split at h
      · split at h
        · rename_i t' hnode
          cases h
          have hentries := (readNode_entries hnode).2
          rwa [List.map_nil, List.append_nil] at hentries
        · cases h
      · cases h
  rw [hread h, hread h']

end RoundTrip

end Layout
