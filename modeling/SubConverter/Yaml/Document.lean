/-
A document of block YAML on rows of one line each: plain scalars are resolved by the core schema, quoted ones are
strings, and the rows are cut into mappings and sequences by their indentation. No comments and no empty lines.
-/
import SubConverter.Lib.Layout
import SubConverter.Yaml.Core
import SubConverter.Yaml.Reader

namespace Yaml

open CMem

/-! ## Typed scalars -/

/-- A string, or the text of a null, a bool, an int or a float. -/
inductive Scalar
  | str (s : Bytes)
  | core (s : Bytes)
  deriving DecidableEq

def Scalar.text : Scalar → Bytes
  | str s => s
  | core s => s

/-- A plain scalar by the core schema. -/
def resolve (s : Bytes) : Scalar := if Resolves s then .core s else .str s

/-- What may start a plain scalar: no indicator, but for `-`, `?` and `:` before another character. -/
def startsPlain (c : Byte) (r : Bytes) : Bool :=
  !isBlank c && (!isIndicator c || ((c == ch '-' || c == ch '?' || c == ch ':') && r.head?.any fun d => !isBlank d))

/-- The scalar at the start of a text and what follows it. -/
def readTyped (t : Bytes) : Option (Scalar × Bytes) :=
  match t with
  | [] => none
  | c :: r =>
    if c = ch '"' then (unquote r).map fun p => (.str p.1, p.2)
    else if startsPlain c r && (plainCut t).1.all isPrintable then
      some (resolve ((plainCut t).1.rdropWhile isBlank), (plainCut t).2)
    else none

/-! ## Rows and documents -/

abbrev Row := Layout.Row Bytes Scalar

abbrev Tree := Layout.Tree Bytes Scalar

def readEntry (t : Bytes) : Option (Layout.Entry Bytes Scalar) :=
  match readTyped t with
  | some (a, []) => some (.leaf a)
  | some (k, [c]) => if c = ch ':' then some (.field k.text none) else none
  | some (k, c :: d :: v) =>
    if c = ch ':' ∧ d = ch ' ' then
      match readTyped v with
      | some (a, []) => some (.field k.text (some a))
      | _ => none
    else none
  | none => none

/-- A row without its line end. -/
def readRow (l : Bytes) : Option Row :=
  let indent := (l.takeWhile (· == ch ' ')).length
  match l.dropWhile (· == ch ' ') with
  | a :: b :: r =>
    if a = ch '-' ∧ b = ch ' ' then (readEntry r).map (⟨indent, true, ·⟩) else (readEntry (a :: b :: r)).map (⟨indent, false, ·⟩)
  | r => (readEntry r).map (⟨indent, false, ·⟩)

/-- The rows of a text; a line end stands behind each. -/
def readRows (text : Bytes) : Option (List Row) :=
  if (text.splitOn 10).getLast? = some [] then (text.splitOn 10).dropLast.mapM readRow else none

def readDocument (text : Bytes) : Option Tree := (readRows text).bind Layout.readTree

/-! ## Laws -/

/-- All rows are read. -/
theorem mapM_eq_some {α β : Type} {f : α → Option β} : ∀ {xs : List α} {ys : List β},
    xs.mapM f = some ys ↔ xs.map f = ys.map some
  | [], ys => by
    rw [List.mapM_nil, List.map_nil, eq_comm (a := []), List.map_eq_nil_iff]
    exact ⟨fun h => (Option.some.inj h).symm, fun h => congrArg some h.symm⟩
  | x :: xs, ys => by
    have hcons : (x :: xs).mapM f = (f x).bind fun y => (xs.mapM f).bind fun ys => some (y :: ys) := List.mapM_cons
    rw [hcons, List.map_cons]
    rcases ys with _ | ⟨y, ys⟩
    · simp [Option.bind_eq_some_iff]
    · rw [List.map_cons, List.cons.injEq, ← mapM_eq_some]
      simp [Option.bind_eq_some_iff]


/-- A text that starts with no indicator is read as by `readScalar`, and resolved. -/
theorem readTyped_plain {c : Byte} {r : Bytes} (hi : isIndicator c = false) :
    readTyped (c :: r) = (readScalar (c :: r)).map fun p => (resolve p.1, p.2) := by
  have hq : c ≠ ch '"' := by
    rintro rfl
    exact absurd hi (by decide +kernel)
  rw [readTyped, readScalar, if_neg hq, if_neg hq, startsPlain, hi]
  by_cases hb : isBlank c = true
  · simp [hb]
  · simp only [hb, Bool.not_false, Bool.true_or, Bool.and_true, Bool.true_and, Bool.or_self, Bool.false_eq_true,
      if_false]
    split
    · rfl
    · rfl

theorem readTyped_quoted (r : Bytes) : readTyped (ch '"' :: r) = (unquote r).map fun p => (.str p.1, p.2) := by
  rw [readTyped, if_pos rfl]

/-- A key, with the colon that follows it. -/
theorem readTyped_key {k : Bytes} (hk : PlainKey k) (v : Bytes) :
    readTyped (k ++ ch ':' :: ch ' ' :: v) = some (resolve k, ch ':' :: ch ' ' :: v) := by
  have hread := readScalar_key hk v
  obtain ⟨c, r, rfl⟩ := List.exists_cons_of_ne_nil hk.ne
  rw [List.cons_append] at hread ⊢
  rw [readTyped_plain (hk.first c rfl), hread]
  rfl

theorem plainCut_opener : ∀ {k : Bytes}, (∀ c ∈ k, isBlank c = false ∧ c ≠ ch ':') →
    plainCut (k ++ [ch ':']) = (k, [ch ':'])
  | [], _ => by decide
  | c :: k, h => by
    have hc := h c List.mem_cons_self
    rw [List.cons_append, plainCut, if_neg (by simp [hc.1, hc.2]),
      plainCut_opener fun d hd => h d (List.mem_cons_of_mem c hd)]

/-- A key that opens a block. -/
theorem readTyped_opener {k : Bytes} (hk : PlainKey k) : readTyped (k ++ [ch ':']) = some (resolve k, [ch ':']) := by
  obtain ⟨hne, hfirst, hchars⟩ := hk
  have hcut := plainCut_opener fun c h => (hchars c h).2
  obtain ⟨a, k, rfl⟩ := List.exists_cons_of_ne_nil hne
  have ha := hchars a List.mem_cons_self
  have hai := hfirst a rfl
  have hq : a ≠ ch '"' := by
    rintro rfl
    exact absurd hai (by decide +kernel)
  have htrim : (a :: k).rdropWhile isBlank = a :: k := by
    rw [List.rdropWhile_eq_self_iff]
    intro h
    simpa using (hchars _ (List.getLast_mem h)).2.1
  rw [List.cons_append] at hcut ⊢
  rw [readTyped, if_neg hq, hcut, htrim, if_pos]
  rw [startsPlain, ha.2.1, hai]
  exact List.all_eq_true.2 fun c h => (hchars c h).1

theorem text_resolve (s : Bytes) : (resolve s).text = s := by
  unfold resolve
  split <;> rfl

theorem readEntry_leaf_iff {t : Bytes} {a : Scalar} : readEntry t = some (.leaf a) ↔ readTyped t = some (a, []) := by
  unfold readEntry
  rcases readTyped t with _ | ⟨b, _ | ⟨c, _ | ⟨d, v⟩⟩⟩
  · simp
  · simp
  · simp only [Option.some.injEq, Prod.mk.injEq, reduceCtorEq, and_false, iff_false]
    split <;> simp
  · simp only [Option.some.injEq, Prod.mk.injEq, reduceCtorEq, and_false, iff_false]
    split
    · split <;> simp
    · simp

theorem readEntry_field_iff {k : Bytes} (hk : PlainKey k) {v : Bytes} {a : Scalar} :
    readEntry (k ++ ch ':' :: ch ' ' :: v) = some (.field k (some a)) ↔ readTyped v = some (a, []) := by
  unfold readEntry
  rw [readTyped_key hk]
  simp only [and_self, if_true, text_resolve]
  rcases readTyped v with _ | ⟨b, _ | ⟨c, r⟩⟩ <;> simp

theorem readEntry_opener {k : Bytes} (hk : PlainKey k) : readEntry (k ++ [ch ':']) = some (.field k none) := by
  unfold readEntry
  rw [readTyped_opener hk]
  simp only [if_true, text_resolve]

theorem readRow_dash (n : Nat) (r : Bytes) :
    readRow (List.replicate n (ch ' ') ++ ch '-' :: ch ' ' :: r) = (readEntry r).map (⟨n, true, ·⟩) := by
  have hne : (ch '-' == ch ' ') = false := by decide
  simp [readRow, hne]

theorem readRow_key (n : Nat) {a : Byte} {r : Bytes} (ha : a ≠ ch ' ') (hd : a ≠ ch '-') :
    readRow (List.replicate n (ch ' ') ++ a :: r) = (readEntry (a :: r)).map (⟨n, false, ·⟩) := by
  have hne : (a == ch ' ') = false := by simpa using ha
  rcases r with _ | ⟨b, r⟩ <;> simp [readRow, hne, hd]

end Yaml
