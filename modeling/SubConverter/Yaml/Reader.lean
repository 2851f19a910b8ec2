/-
A reader of one line of block YAML: indentation, an optional `- `, then a scalar or `key: value`. A
double-quoted scalar runs to its first unescaped quote; a plain one starts with no indicator and is
cut at a `:` before a blank or the end of the line and at a ` #`. Bytes from 0x80 on are ordinary.
-/
import SubConverter.C.Mem

namespace Yaml

open CMem

/-! ## Scalars -/

def isBlank (c : Byte) : Bool := c == ch ' ' || c == 9

/-- The characters that do not start a plain scalar. -/
def isIndicator (c : Byte) : Bool := (str "-?:,[]{}#&*!|>'\"%@`").contains c

/-- The characters of a plain scalar. -/
def isPrintable (c : Byte) : Bool := c == 9 || (0x20 ≤ c && c != 0x7F)

def hexDigit (c : Byte) : Option Byte :=
  if ch '0' ≤ c ∧ c ≤ ch '9' then some (c - ch '0')
  else if ch 'a' ≤ c ∧ c ≤ ch 'f' then some (c - ch 'a' + 10)
  else if ch 'A' ≤ c ∧ c ≤ ch 'F' then some (c - ch 'A' + 10)
  else none

/-- The UTF-8 form of a code point below 256. -/
def latin1 (b : Byte) : Bytes := if b < 0x80 then [b] else [(0xC0 : Byte) ||| (b >>> 6), (0x80 : Byte) ||| (b &&& 0x3F)]

/-- The escapes of one letter for an ASCII character. -/
def escapeTable : List (Byte × Byte) :=
  [(ch '0', 0), (ch 'a', 7), (ch 'b', 8), (ch 't', 9), (ch 'n', 10), (ch 'v', 11), (ch 'f', 12), (ch 'r', 13),
   (ch 'e', 27), (ch ' ', 32), (ch '"', 34), (ch '/', 47), (ch '\\', 92)]

/-- A double-quoted scalar from behind its opening quote: its content and what follows it. -/
def unquote : Bytes → Option (Bytes × Bytes)
  | [] => none
  | c :: r =>
    if c = ch '"' then some ([], r)
    else if c = ch '\\' then
      match r with
      | [] => none
      | e :: r =>
        if e = ch 'x' then
          match r with
          | h :: l :: r =>
            (hexDigit h).bind fun h => (hexDigit l).bind fun l =>
              (unquote r).map fun p => (latin1 (h <<< 4 ||| l) ++ p.1, p.2)
          | _ => none
        else (escapeTable.lookup e).bind fun b => (unquote r).map fun p => (b :: p.1, p.2)
    else if c = 9 ∨ 0x20 ≤ c then (unquote r).map fun p => (c :: p.1, p.2)
    else none

/-- The text up to the end of a plain scalar, and the text from there on. -/
def plainCut : Bytes → Bytes × Bytes
  | [] => ([], [])
  | c :: r =>
    if (c = ch ':' ∧ r.head?.all isBlank) ∨ (isBlank c ∧ r.head? = some (ch '#')) then ([], c :: r)
    else (c :: (plainCut r).1, (plainCut r).2)

/-- The scalar at the start of a text and what follows it. -/
def readScalar (t : Bytes) : Option (Bytes × Bytes) :=
  match t with
  | [] => none
  | c :: r =>
    if c = ch '"' then unquote r
    else if isIndicator c || isBlank c then none
    else if (plainCut t).1.all isPrintable then some ((plainCut t).1.rdropWhile isBlank, (plainCut t).2)
    else none

/-! ## Lines -/

/-- What stands on a line. -/
inductive Item
  | scalar (content : Bytes)
  | entry (key : Bytes) (value : Option Bytes)
  deriving DecidableEq

structure Line where
  indent : Nat
  dash : Bool
  item : Item
  deriving DecidableEq

def readItem (t : Bytes) : Option Item :=
  match readScalar t with
  | some (c, []) => some (.scalar c)
  | some (k, [a]) => if a = ch ':' then some (.entry k none) else none
  | some (k, a :: b :: v) =>
    if a = ch ':' ∧ b = ch ' ' then
      match readScalar v with
      | some (c, []) => some (.entry k (some c))
      | _ => none
    else none
  | none => none

/-- A line without its line end. -/
def readBody (l : Bytes) : Option Line :=
  let indent := (l.takeWhile (· == ch ' ')).length
  match l.dropWhile (· == ch ' ') with
  | a :: b :: r =>
    if a = ch '-' ∧ b = ch ' ' then (readItem r).map (⟨indent, true, ·⟩) else (readItem (a :: b :: r)).map (⟨indent, false, ·⟩)
  | r => (readItem r).map (⟨indent, false, ·⟩)

/-- A text that is one line. -/
def readLine (t : Bytes) : Option Line :=
  if t.getLast? = some 10 ∧ 10 ∉ t.dropLast then readBody t.dropLast else none

/-! ## Laws -/

/-- A quoted text is read back when each of its bytes is. -/
theorem unquote_flatMap {esc : Byte → Bytes} {s : Bytes} (rest : Bytes)
    (h : ∀ c ∈ s, ∀ r, unquote (esc c ++ r) = (unquote r).map fun p => (c :: p.1, p.2)) :
    unquote (s.flatMap esc ++ ch '"' :: rest) = some (s, rest) := by
  induction s with
  | nil => rw [List.flatMap_nil, List.nil_append, unquote.eq_def]; simp
  | cons c s ih =>
    rw [List.flatMap_cons, List.append_assoc, h c (by simp), ih fun d hd => h d (by simp [hd])]; rfl

theorem unquote_plain {c : Byte} (hq : c ≠ ch '"') (hb : c ≠ ch '\\') (hc : 0x20 ≤ c) (r : Bytes) :
    unquote (c :: r) = (unquote r).map fun p => (c :: p.1, p.2) := by
  rw [unquote.eq_def]; simp [hq, hb, hc]

theorem unquote_letter {e b : Byte} (hx : e ≠ ch 'x') (he : escapeTable.lookup e = some b) (r : Bytes) :
    unquote (ch '\\' :: e :: r) = (unquote r).map fun p => (b :: p.1, p.2) := by
  have hne : ch '\\' ≠ ch '"' := by decide
  rw [unquote.eq_def]; simp [hne, he, hx]

theorem unquote_hex {h l a b : Byte} (hh : hexDigit h = some a) (hl : hexDigit l = some b) (r : Bytes) :
    unquote (ch '\\' :: ch 'x' :: h :: l :: r) = (unquote r).map fun p => (latin1 (a <<< 4 ||| b) ++ p.1, p.2) := by
  have hne : ch '\\' ≠ ch '"' := by decide
  rw [unquote.eq_def]; simp [hne, hh, hl]

theorem plainCut_append (t : Bytes) : (plainCut t).1 ++ (plainCut t).2 = t := by
  induction t with
  | nil => rfl
  | cons c r ih => rw [plainCut]; split <;> simp [ih]

/-- A plain scalar is the whole text when nothing cuts it and no blank ends it. -/
theorem readScalar_plain {c : Byte} {r : Bytes} (hi : isIndicator c = false) (hb : isBlank c = false)
    (hcut : (plainCut (c :: r)).2 = []) (hp : (c :: r).all isPrintable = true)
    (hl : ∀ d ∈ (c :: r).getLast?, isBlank d = false) : readScalar (c :: r) = some (c :: r, []) := by
  have happ := plainCut_append (c :: r)
  rw [hcut, List.append_nil] at happ
  have hq : c ≠ ch '"' := by rintro rfl; exact absurd hi (by decide)
  have hd : (c :: r).rdropWhile isBlank = c :: r := by
    rw [List.rdropWhile_eq_self_iff]
    intro hne
    simpa using hl _ (List.getLast?_eq_some_getLast hne)
  rw [readScalar, if_neg hq, if_neg (by simp [hi, hb]), happ, if_pos hp, hd, hcut]

/-- A plain scalar does not read past a cut. -/
theorem readScalar_cut {c : Byte} {r x y : Bytes} (hq : c ≠ ch '"') (h : readScalar (c :: r) = some (x, y)) :
    y = (plainCut (c :: r)).2 := by
  rw [readScalar, if_neg hq] at h
  split at h
  · cases h
  · split at h
    · cases h; rfl
    · cases h

/-! ## Keys and lines -/

/-- A key that is written as it is: it starts with no indicator and has no blank and no colon. -/
structure PlainKey (k : Bytes) : Prop where
  ne : k ≠ []
  first : ∀ c ∈ k.head?, isIndicator c = false
  chars : ∀ c ∈ k, isPrintable c = true ∧ isBlank c = false ∧ c ≠ ch ':'

theorem plainCut_key {v : Bytes} : ∀ {k : Bytes}, (∀ c ∈ k, isBlank c = false ∧ c ≠ ch ':') →
    plainCut (k ++ ch ':' :: ch ' ' :: v) = (k, ch ':' :: ch ' ' :: v)
  | [], _ => by rw [List.nil_append, plainCut, if_pos (.inl ⟨rfl, rfl⟩)]
  | c :: k, h => by
    have hc := h c (by simp)
    rw [List.cons_append, plainCut, if_neg (by simp [hc.1, hc.2]), plainCut_key fun d hd => h d (by simp [hd])]

theorem readScalar_key {k : Bytes} (hk : PlainKey k) (v : Bytes) :
    readScalar (k ++ ch ':' :: ch ' ' :: v) = some (k, ch ':' :: ch ' ' :: v) := by
  obtain ⟨hne, hf, hc⟩ := hk
  have hcut := plainCut_key (v := v) fun c h => (hc c h).2
  rcases k with _ | ⟨a, k⟩
  · exact absurd rfl hne
  have ha := hf a rfl
  have hq : a ≠ ch '"' := by rintro rfl; exact absurd ha (by decide +kernel)
  have hd : (a :: k).rdropWhile isBlank = a :: k := by
    rw [List.rdropWhile_eq_self_iff]
    intro h; simpa using (hc _ (List.getLast_mem h)).2.1
  rw [List.cons_append] at hcut ⊢
  rw [readScalar, if_neg hq, if_neg (by simp [ha, (hc a (by simp)).2.1]), hcut,
    if_pos (List.all_eq_true.2 fun c h => (hc c h).1), hd]

theorem readItem_scalar_iff {t s : Bytes} : readItem t = some (.scalar s) ↔ readScalar t = some (s, []) := by
  unfold readItem
  rcases readScalar t with _ | ⟨c, _ | ⟨a, _ | ⟨b, v⟩⟩⟩
  · simp
  · simp
  · simp only [Option.some.injEq, Prod.mk.injEq, reduceCtorEq, and_false, iff_false]
    split <;> simp
  · simp only [Option.some.injEq, Prod.mk.injEq, reduceCtorEq, and_false, iff_false]
    split
    · split <;> simp
    · simp

theorem readItem_entry_iff {k : Bytes} (hk : PlainKey k) {v s : Bytes} :
    readItem (k ++ ch ':' :: ch ' ' :: v) = some (.entry k (some s)) ↔ readScalar v = some (s, []) := by
  unfold readItem
  rw [readScalar_key hk]
  simp only [and_self, if_true]
  rcases readScalar v with _ | ⟨c, _ | ⟨a, r⟩⟩ <;> simp

theorem readBody_dash (n : Nat) (r : Bytes) :
    readBody (List.replicate n (ch ' ') ++ ch '-' :: ch ' ' :: r) = (readItem r).map (⟨n, true, ·⟩) := by
  have hne : (ch '-' == ch ' ') = false := by decide
  simp [readBody, hne]

theorem readBody_key (n : Nat) {a : Byte} {r : Bytes} (ha : a ≠ ch ' ') (hd : a ≠ ch '-') :
    readBody (List.replicate n (ch ' ') ++ a :: r) = (readItem (a :: r)).map (⟨n, false, ·⟩) := by
  have hne : (a == ch ' ') = false := by simpa using ha
  rcases r with _ | ⟨b, r⟩ <;> simp [readBody, hne, hd]

theorem readLine_append {l : Bytes} (h : 10 ∉ l) : readLine (l ++ [10]) = readBody l := by
  simp [readLine, h]

end Yaml
