/-
The lines the emitters write: an indentation, an optional `- `, an optional key and a value. A string
value is written plain or double-quoted, and in both forms its text has no control characters.
-/
import SubConverter.Src.YamlEmit

namespace SubConverter

open CMem

/-! ## The text of a scalar -/

/-- What `append_quoted` writes for a byte. -/
def escaped (c : Byte) : Bytes :=
  if c = ch '\\' then str "\\\\"
  else if c = ch '"' then str "\\\""
  else if c = 10 then str "\\n"
  else if c = 9 then str "\\t"
  else if c = 13 then str "\\r"
  else if c = 0 then str "\\0"
  else if isControl c then [ch '\\', ch 'x', hexDig (c >>> 4), hexDig (c &&& 15)]
  else [c]

/-- What `yaml_quote` writes. -/
def scalarText (s : Bytes) : Bytes :=
  if s = [] then str "\"\""
  else if yamlPlainSafe s then s
  else ch '"' :: (s.flatMap escaped ++ [ch '"'])

theorem appendEscaped_eq (c : Byte) (out : Strbuf) : appendEscaped c out = out.appendBytes (escaped c) := by
  unfold appendEscaped escaped appendXhex
  split_ifs <;> simp [Strbuf.appendStr, Strbuf.appendChar, Strbuf.appendBytes_appendBytes]

theorem foldl_appendEscaped : ∀ (s : Bytes) (out : Strbuf) (b : Bytes),
    (s.foldl (fun out c => appendEscaped c out) out).appendBytes b = out.appendBytes (s.flatMap escaped ++ b)
  | [], _, _ => rfl
  | c :: s, out, b => by
    rw [List.foldl_cons, foldl_appendEscaped s, appendEscaped_eq, Strbuf.appendBytes_appendBytes,
      List.flatMap_cons, List.append_assoc]

theorem yamlQuote_eq (s : Bytes) (out : Strbuf) : yamlQuote s out = out.appendBytes (scalarText s) := by
  unfold yamlQuote scalarText
  split_ifs
  · rfl
  · rfl
  · rw [appendQuoted, Strbuf.appendChar, foldl_appendEscaped, Strbuf.appendChar, Strbuf.appendBytes_appendBytes]
    rfl

theorem emitIndent_appendBytes (b : Bytes) : ∀ (n : Nat) (out : Strbuf),
    (emitIndent out n).appendBytes b = out.appendBytes (List.replicate n (ch ' ') ++ b)
  | 0, _ => rfl
  | n + 1, out => by
    rw [emitIndent, emitIndent_appendBytes b n, Strbuf.appendChar, Strbuf.appendBytes_appendBytes,
      List.replicate_succ]
    rfl

/-! ## Lines -/

inductive Value
  | str (s : CStr)
  | int (i : Int)
  | bool (b : Bool)
  deriving DecidableEq

/-- A line of the document; without a value it opens a block. -/
structure Line where
  indent : Nat
  dash : Bool
  key : Option String
  value : Option Value
  deriving DecidableEq

namespace Value

def text : Value → Bytes
  | str s => scalarText s.bytes
  | int i => decimalInt i
  | bool b => CMem.str (if b then "true" else "false")

end Value

namespace Line

/-- The line up to its value: indentation, dash, key and colon. -/
def head (l : Line) : Bytes :=
  List.replicate l.indent (ch ' ') ++ ((if l.dash then str "- " else []) ++ l.key.elim [] fun k => str k ++ str ":")

/-- The value with the blank before it. -/
def tail (l : Line) : Bytes :=
  l.value.elim [] fun v => (if l.key.isSome then str " " else []) ++ v.text

def text (l : Line) : Bytes := l.head ++ (l.tail ++ [10])

/-- `key: value`, or `key:` to open a block. -/
def kv (indent : Nat) (key : String) (value : Option Value) : Line := ⟨indent, false, some key, value⟩

/-- `- value`. -/
def item (indent : Nat) (value : CStr) : Line := ⟨indent, true, none, some (.str value)⟩

/-- `- key: value`. -/
def itemKv (indent : Nat) (key : String) (value : CStr) : Line := ⟨indent, true, some key, some (.str value)⟩

end Line

/-- A buffer with lines written to it. -/
def Strbuf.appendLines (out : Strbuf) (ls : List Line) : Strbuf := ls.foldl (fun out l => out.appendBytes l.text) out

theorem yamlEmitKv_eq (out : Strbuf) (indent : Nat) (key : String) (value : Option CStr) :
    yamlEmitKv out indent key value = out.appendBytes (Line.kv indent key (value.map .str)).text := by
  unfold yamlEmitKv
  cases value <;>
    simp [Strbuf.appendStr, Strbuf.appendChar, yamlQuote_eq, Strbuf.appendBytes_appendBytes, emitIndent_appendBytes,
      Line.text, Line.head, Line.tail, Line.kv, Value.text, str]

theorem yamlEmitKvInt_eq (out : Strbuf) (indent : Nat) (key : String) (value : Int) :
    yamlEmitKvInt out indent key value = out.appendBytes (Line.kv indent key (some (.int value))).text := by
  simp [yamlEmitKvInt, Strbuf.appendStr, Strbuf.appendChar, Strbuf.appendBytes_appendBytes,
    emitIndent_appendBytes, Line.text, Line.head, Line.tail, Line.kv, Value.text, str]

theorem yamlEmitKvBool_eq (out : Strbuf) (indent : Nat) (key : String) (value : Bool) :
    yamlEmitKvBool out indent key value = out.appendBytes (Line.kv indent key (some (.bool value))).text := by
  cases value <;>
    simp [yamlEmitKvBool, Strbuf.appendStr, Strbuf.appendBytes_appendBytes, emitIndent_appendBytes, Line.text,
      Line.head, Line.tail, Line.kv, Value.text, str, ch]

theorem yamlEmitDash_eq (out : Strbuf) (indent : Nat) (value : CStr) :
    yamlEmitDash out indent value = out.appendBytes (Line.item indent value).text := by
  simp [yamlEmitDash, Strbuf.appendStr, Strbuf.appendChar, yamlQuote_eq, Strbuf.appendBytes_appendBytes,
    emitIndent_appendBytes, Line.text, Line.head, Line.tail, Line.item, Value.text]

theorem yamlEmitDashKv_eq (out : Strbuf) (indent : Nat) (key : String) (value : CStr) :
    yamlEmitDashKv out indent key value = out.appendBytes (Line.itemKv indent key value).text := by
  simp [yamlEmitDashKv, Strbuf.appendStr, Strbuf.appendChar, yamlQuote_eq, Strbuf.appendBytes_appendBytes,
    emitIndent_appendBytes, Line.text, Line.head, Line.tail, Line.itemKv, Value.text, str]

/-! ## Control characters -/

theorem isControl_iff {c : Byte} : isControl c = true ↔ c.toNat < 32 ∨ c.toNat = 127 := by
  simp [isControl, UInt8.lt_iff_toNat_lt, ← UInt8.toNat_inj]

/-- The control characters are checked one by one. -/
theorem forall_control {P : Byte → Prop} (h : ∀ n < 128, isControl (Nat.toUInt8 n) → P (Nat.toUInt8 n)) {c : Byte}
    (hc : isControl c = true) : P c := by
  have hn : c.toNat < 128 := by rcases isControl_iff.1 hc with h | h <;> omega
  have hcn : Nat.toUInt8 c.toNat = c := by simp [Nat.toUInt8]
  rw [← hcn]
  exact h _ hn (by rwa [hcn])

theorem hexDig_noControl {d : Byte} (h : d.toNat < 16) : isControl (hexDig d) = false := by
  have hall : ∀ n < 16, isControl (hexDig (Nat.toUInt8 n)) = false := by decide +kernel
  simpa [Nat.toUInt8] using hall d.toNat h

theorem escaped_noControl (c : Byte) : ∀ d ∈ escaped c, isControl d = false := by
  unfold escaped
  split_ifs
  · decide +kernel
  · decide +kernel
  · decide +kernel
  · decide +kernel
  · decide +kernel
  · decide +kernel
  · have hhi : (c >>> 4).toNat < 16 := by
      have := c.toNat_lt
      rw [UInt8.toNat_shiftRight, Nat.shiftRight_eq_div_pow]; simp; omega
    have hlo : (c &&& 15).toNat < 16 := by
      have : c.toNat &&& 15 ≤ 15 := Nat.and_le_right
      rw [UInt8.toNat_and]; simp; omega
    intro d hd
    simp only [List.mem_cons, List.not_mem_nil, or_false] at hd
    rcases hd with rfl | rfl | rfl | rfl
    · decide
    · decide
    · exact hexDig_noControl hhi
    · exact hexDig_noControl hlo
  · rename_i hc
    intro d hd
    rw [List.mem_singleton.1 hd]; simpa using hc

theorem scalarText_noControl (s : Bytes) : ∀ c ∈ scalarText s, isControl c = false := by
  unfold scalarText
  split_ifs with h1 h2
  · decide +kernel
  · intro c hc
    unfold yamlPlainSafe at h2
    split_ifs at h2 with _ _ h3
    by_contra hcc
    exact h3 (List.any_eq_true.2 ⟨c, hc, by simpa using hcc⟩)
  · intro c hc
    simp only [List.mem_cons, List.mem_append, List.mem_flatMap, List.not_mem_nil, or_false] at hc
    rcases hc with rfl | ⟨d, -, hd⟩ | rfl
    · decide
    · exact escaped_noControl d c hd
    · decide

theorem Value.text_noControl (v : Value) : ∀ c ∈ v.text, isControl c = false := by
  cases v with
  | str s => exact scalarText_noControl s.bytes
  | int i =>
    intro c hc
    rcases decimalInt_mem hc with rfl | h
    · decide
    · rw [Bool.eq_false_iff, Ne, isControl_iff]; omega
  | bool b => cases b <;> decide +kernel

theorem Line.tail_noControl (l : Line) : ∀ c ∈ l.tail, isControl c = false := by
  obtain ⟨i, d, k, _ | v⟩ := l
  · simp [tail]
  · intro c hc
    simp only [tail, Option.elim_some, List.mem_append] at hc
    rcases hc with hc | hc
    · rcases k with _ | k
      · simp at hc
      · simp only [Option.isSome_some, if_true] at hc
        revert c; decide +kernel
    · exact v.text_noControl c hc

end SubConverter
