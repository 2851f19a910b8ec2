/-
Reading a document back: the text of a document is read as its tree exactly when each of its strings keeps its
content and its type, so when none that is written plain ends in a colon or has the form of a float.
-/
import SubConverter.Emit.Tree

namespace SubConverter

open CMem Line Yaml Layout

/-! ## Values -/

/-- A string that is read back as this string. -/
def Kept (s : Bytes) : Prop := ¬ (Plain s ∧ s.getLast? = some (ch ':')) ∧ ¬ Dotted s

instance (s : Bytes) : Decidable (Plain s) := inferInstanceAs (Decidable (_ ∧ _))

instance (s : Bytes) : Decidable (Kept s) := inferInstanceAs (Decidable (_ ∧ _))

theorem resolve_eq_str {s : Bytes} : resolve s = .str s ↔ ¬ Resolves s := by
  unfold resolve
  split <;> simp_all

theorem readTyped_scalarText (s : Bytes) : readTyped (scalarText s) = some (.str s, []) ↔ Kept s := by
  by_cases hp : Plain s
  · have hsafe := plainSafe_of hp.2
    obtain ⟨c, r, rfl⟩ := List.exists_cons_of_ne_nil hp.1
    rw [scalarText_plain hp, readTyped_plain (hsafe.first c rfl).1, Option.map_eq_some_iff]
    constructor
    · rintro ⟨⟨x, y⟩, hread, hxy⟩
      obtain ⟨hx, rfl⟩ := Prod.mk.inj hxy
      obtain rfl : x = c :: r := by rw [← text_resolve x, hx]; rfl
      exact ⟨fun h => (readScalar_plainSafe hp.1 hsafe).1 hread h.2,
        fun h => resolve_eq_str.1 hx (resolves_of_dotted h)⟩
    · rintro ⟨hcolon, hdot⟩
      refine ⟨(c :: r, []), (readScalar_plainSafe hp.1 hsafe).2 fun h => hcolon ⟨hp, h⟩, ?_⟩
      rw [resolve_eq_str.2 fun h => hdot (dotted_of_resolves hp h)]
  · rw [scalarText_quoted hp, readTyped_quoted, unquote_flatMap [] fun c _ r => unquote_escaped c r]
    exact iff_of_true rfl ⟨fun h => hp h.1, fun h => hp (plain_of_dotted h)⟩

theorem plainCut_self : ∀ {t : Bytes}, (∀ c ∈ t, isBlank c = false ∧ c ≠ ch ':') → plainCut t = (t, [])
  | [], _ => rfl
  | c :: r, h => by
    have hc := h c List.mem_cons_self
    rw [plainCut, if_neg (by simp [hc.1, hc.2]), plainCut_self fun d hd => h d (List.mem_cons_of_mem c hd)]

/-- The text of a number or a bool. -/
theorem readTyped_core {c : Byte} {r : Bytes} (hstart : c ≠ ch '"' ∧ startsPlain c r = true)
    (hchars : ∀ d ∈ c :: r, isPrintable d = true ∧ isBlank d = false ∧ d ≠ ch ':') (hr : Resolves (c :: r)) :
    readTyped (c :: r) = some (.core (c :: r), []) := by
  have htrim : (c :: r).rdropWhile isBlank = c :: r := by
    rw [List.rdropWhile_eq_self_iff]
    intro h
    simpa using (hchars _ (List.getLast_mem h)).2.1
  rw [readTyped, if_neg hstart.1, plainCut_self fun d hd => (hchars d hd).2, htrim, resolve, if_pos hr, if_pos]
  rw [hstart.2]
  exact List.all_eq_true.2 fun d hd => (hchars d hd).1

theorem digit_facts {c : Byte} (h : 48 ≤ c.toNat ∧ c.toNat ≤ 57) : c ∈ str "0123456789" ∧ isIndicator c = false ∧
    isPrintable c = true ∧ isBlank c = false ∧ c ≠ ch ':' ∧ c ≠ ch '"' := by
  have hall : ∀ n < 58, 48 ≤ n → Nat.toUInt8 n ∈ str "0123456789" ∧ isIndicator (Nat.toUInt8 n) = false ∧
      isPrintable (Nat.toUInt8 n) = true ∧ isBlank (Nat.toUInt8 n) = false ∧ Nat.toUInt8 n ≠ ch ':' ∧
      Nat.toUInt8 n ≠ ch '"' := by decide +kernel
  have hc := hall c.toNat (by omega) h.1
  rwa [show Nat.toUInt8 c.toNat = c by simp [Nat.toUInt8]] at hc

theorem mem_digits {n : Nat} : decimal n ∈ (many1 digit).matches' :=
  mem_many1_oneOf.2 ⟨decimal_ne_nil n, fun _ hc => (digit_facts (decimal_digit hc)).1⟩

theorem resolves_of_int {s : Bytes} (h : s ∈ coreInt.matches') : Resolves s :=
  mem_add.2 (.inr (mem_add.2 (.inr (mem_add.2 (.inl h)))))

theorem readTyped_int (i : Int) : readTyped (decimalInt i) = some (.core (decimalInt i), []) := by
  cases i with
  | ofNat n =>
    have hr : Resolves (decimal n) :=
      resolves_of_int (mem_mul.2 ⟨[], mem_opt.2 (.inl rfl), decimal n, mem_digits, rfl⟩)
    have hdigits : ∀ d ∈ decimal n, _ := fun d hd => digit_facts (decimal_digit hd)
    rw [decimalInt]
    obtain ⟨c, r, hcr⟩ := List.exists_cons_of_ne_nil (decimal_ne_nil n)
    rw [hcr] at hr hdigits ⊢
    have hc := hdigits c List.mem_cons_self
    refine readTyped_core ⟨hc.2.2.2.2.2, ?_⟩ (fun d hd => ?_) hr
    · simp [startsPlain, hc.2.1, hc.2.2.2.1]
    · exact ⟨(hdigits d hd).2.2.1, (hdigits d hd).2.2.2.1, (hdigits d hd).2.2.2.2.1⟩
  | negSucc n =>
    have hsign : [ch '-'] ∈ sign.matches' := mem_opt.2 (.inr (mem_oneOf.2 ⟨ch '-', by decide, rfl⟩))
    have hr : Resolves (ch '-' :: decimal (n + 1)) := resolves_of_int (mem_mul.2 ⟨_, hsign, decimal (n + 1), mem_digits, rfl⟩)
    have hdigits : ∀ d ∈ decimal (n + 1), _ := fun d hd => digit_facts (decimal_digit hd)
    refine readTyped_core ⟨by decide, ?_⟩ (List.forall_mem_cons.2 ⟨by decide, fun d hd => ?_⟩) hr
    · -- a minus sign before a digit is no indicator
      obtain ⟨c, r, hcr⟩ := List.exists_cons_of_ne_nil (decimal_ne_nil (n + 1))
      rw [hcr] at hdigits ⊢
      have hc := hdigits c List.mem_cons_self
      have hm : isBlank (ch '-') = false := by decide
      simp [startsPlain, hm, hc.2.2.2.1]
    · exact ⟨(hdigits d hd).2.2.1, (hdigits d hd).2.2.2.1, (hdigits d hd).2.2.2.2.1⟩

/-- A value is read back exactly when its string is kept. -/
theorem readTyped_text (v : Value) : readTyped v.text = some (v.scalar, []) ↔ ∀ s, v = .str s → Kept s.bytes := by
  cases v with
  | str s => simpa [Value.text, Value.scalar] using readTyped_scalarText s.bytes
  | int i => exact iff_of_true (readTyped_int i) fun s hs => by cases hs
  | bool b => exact iff_of_true (by cases b <;> decide +kernel) fun s hs => by cases hs

/-! ## Lines -/

/-- The string of the line is kept. -/
def Line.KeepsString (l : Line) : Prop := ∀ s ∈ l.string, Kept s.bytes

/-- The line behind its indentation and dash. -/
def Line.body (l : Line) : Bytes := (l.key.elim [] fun k => str k ++ str ":") ++ l.tail

theorem Line.head_append_tail (l : Line) :
    l.head ++ l.tail = List.replicate l.indent (ch ' ') ++ ((if l.dash then str "- " else []) ++ l.body) := by
  rw [head, body, List.append_assoc, List.append_assoc]

theorem Line.keyed_key {l : Line} (h : l.keyed = true) {k : String} (hk : l.key = some k) : PlainKey (str k) := by
  rw [keyed, hk, Option.elim_some] at h
  exact plainKey_lineKeys k (by simpa using h)

/-- The entry of a line is read back exactly when its string is kept. -/
theorem readEntry_body {l : Line} (h : l.keyed = true) : readEntry l.body = some l.entry ↔ l.KeepsString := by
  obtain ⟨i, d, _ | k, _ | v⟩ := l
  · -- an item has a value
    simp [keyed] at h
  · have hbody : (Line.mk i d none (some v)).body = v.text := rfl
    rw [hbody, entry, readEntry_leaf_iff]
    refine (readTyped_text v).trans ?_
    cases v <;> simp [KeepsString, string]
  · have hbody : (Line.mk i d (some k) none).body = str k ++ [ch ':'] := List.append_nil _
    rw [hbody, readEntry_opener (Line.keyed_key h rfl)]
    exact iff_of_true rfl fun s hs => by cases hs
  · have hbody : (Line.mk i d (some k) (some v)).body = str k ++ ch ':' :: ch ' ' :: v.text := List.append_assoc ..
    rw [hbody, entry, Option.map_some, readEntry_field_iff (Line.keyed_key h rfl), readTyped_text]
    cases v <;> simp [KeepsString, string]

theorem readRow_line {l : Line} (h : l.keyed = true) :
    readRow (l.head ++ l.tail) = (readEntry l.body).map (⟨l.indent, l.dash, ·⟩) := by
  rw [head_append_tail]
  rcases hd : l.dash with _ | _
  · -- without a dash a key stands first
    obtain ⟨k, hk⟩ : ∃ k, l.key = some k := by
      rcases hk : l.key with _ | k
      · simp [keyed, hk, hd] at h
      · exact ⟨k, rfl⟩
    have hplain := Line.keyed_key h hk
    obtain ⟨a, r, hcons⟩ := List.exists_cons_of_ne_nil hplain.ne
    have hbody : l.body = a :: (r ++ (str ":" ++ l.tail)) := by
      rw [body, hk, Option.elim_some, hcons, List.append_assoc, List.cons_append]
    rw [hcons] at hplain
    have hblank := (hplain.chars a List.mem_cons_self).2.1
    have hind := hplain.first a rfl
    rw [hbody]
    refine readRow_key l.indent ?_ ?_
    · rintro rfl
      exact absurd hblank (by decide)
    · rintro rfl
      exact absurd hind (by decide +kernel)
  · exact readRow_dash l.indent l.body

/-! ## Documents -/

namespace Document

/-- Every string of the document is read back as this string. -/
def StringsKept (d : Document) : Prop := ∀ s ∈ d.lines.filterMap Line.string, Kept s.bytes

theorem stringsKept_iff (d : Document) : d.StringsKept ↔ ∀ l ∈ d.lines, l.KeepsString := by
  unfold StringsKept KeepsString
  simp only [List.mem_filterMap, Option.mem_def]
  exact ⟨fun h l hl s hs => h s ⟨l, hl, hs⟩, fun h s ⟨l, hl, hs⟩ => h l hl s hs⟩

theorem readRows_text (d : Document) : readRows d.text = d.lines.mapM fun l => readRow (l.head ++ l.tail) := by
  have hzip : List.zipWith (· ++ ·) (d.lines.map head) (d.lines.map tail) = d.lines.map fun l => l.head ++ l.tail := by
    rw [List.zipWith_map, List.zipWith_self]
  rw [readRows, text, splitOn_lines d.keyOk_lines, hzip, if_pos (List.getLast?_concat ..), List.dropLast_concat,
    List.mapM_map]
  rfl

/-- The text of a document is read as its tree exactly when every string of it is kept. -/
theorem read_iff (d : Document) : readDocument d.yaml.bytes = some d.tree ↔ d.StringsKept := by
  have hkeyed := d.keyed_lines
  rw [bytes_yaml, readDocument, readRows_text, stringsKept_iff, Option.bind_eq_some_iff]
  constructor
  · rintro ⟨rs, hrows, hread⟩
    -- the rows that were read and those of the tree have the same entries
    have hentries := readTree_entries hread d.readTree_fields
    have hall := congrArg (List.map (Option.map Row.entry)) (mapM_eq_some.1 hrows)
    have hsame : d.lines.map (fun l => (readRow (l.head ++ l.tail)).map Row.entry) =
        d.lines.map fun l => some l.entry := by
      have hsome := congrArg (List.map some) hentries
      simp only [List.map_map] at hall hsome
      exact hall.trans hsome
    intro l hl
    have hentry := List.map_inj_left.1 hsame l hl
    rw [readRow_line (hkeyed l hl), Option.map_map] at hentry
    rw [← readEntry_body (hkeyed l hl)]
    simpa [Function.comp_def] using hentry
  · intro h
    refine ⟨d.lines.map row, mapM_eq_some.2 ?_, d.readTree_fields⟩
    rw [List.map_map]
    refine List.map_congr_left fun l hl => ?_
    rw [readRow_line (hkeyed l hl), (readEntry_body (hkeyed l hl)).2 (h l hl)]
    rfl

end Document

end SubConverter
