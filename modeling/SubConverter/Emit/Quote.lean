/-
The text of `yaml_quote` determines the string: the reader the tests use takes its escapes back. The
text has no control characters, and its inner quotes are escaped.
-/
import SubConverter.Emit.Line

namespace SubConverter

open CMem

/-! ## The reader of the tests -/

def hexval (c : Byte) : Byte :=
  if ch '0' ≤ c ∧ c ≤ ch '9' then c - ch '0'
  else if ch 'a' ≤ c ∧ c ≤ ch 'f' then c - ch 'a' + 10
  else if ch 'A' ≤ c ∧ c ≤ ch 'F' then c - ch 'A' + 10
  else 0

/-- The two digits behind `\x`; they may lie behind the end of the loop. -/
def hexPair (s : Bytes) : Run Byte := do
  let h ← rd s 0
  let l ← rd s 1
  .ok ((hexval h <<< 4) ||| hexval l)

/-- The loop of `unescape_emitted`; `t` is what lies behind its end. -/
def unescapeLoop (t : Bytes) : Bytes → Strbuf → Run Strbuf
  | [], out => .ok out
  | [c], out => .ok (out.appendChar c)
  | c :: e :: r, out =>
    if c = ch '\\' then
      if e = ch '\\' then unescapeLoop t r (out.appendChar (ch '\\'))
      else if e = ch '"' then unescapeLoop t r (out.appendChar (ch '"'))
      else if e = ch 'n' then unescapeLoop t r (out.appendChar 10)
      else if e = ch 't' then unescapeLoop t r (out.appendChar 9)
      else if e = ch 'r' then unescapeLoop t r (out.appendChar 13)
      else if e = ch '0' then unescapeLoop t r (out.appendChar 0)
      else if e = ch 'x' then do
        let c ← hexPair (r ++ t)
        unescapeLoop t (r.drop 2) (out.appendChar c)
      else unescapeLoop t (e :: r) (out.appendChar c)
    else unescapeLoop t (e :: r) (out.appendChar c)
  termination_by s => s.length

def unescapeEmitted (s : CStr) (out : Strbuf) : Run Strbuf :=
  if 2 ≤ s.bytes.length ∧ s.bytes.head? = some (ch '"') ∧ s.bytes.getLast? = some (ch '"') then
    unescapeLoop [ch '"', 0] s.bytes.tail.dropLast out
  else unescapeLoop [0] s.bytes out

/-! ## Escapes -/

/-- The bytes between the quotes: an escape takes the byte behind the backslash with it, and no quote
stands alone. -/
inductive QuotedBody : Bytes → Prop
  | nil : QuotedBody []
  | escape {r : Bytes} (c : Byte) (h : QuotedBody r) : QuotedBody (ch '\\' :: c :: r)
  | char {r : Bytes} {c : Byte} (hq : c ≠ ch '"') (hb : c ≠ ch '\\') (h : QuotedBody r) : QuotedBody (c :: r)

theorem unescapeLoop_char (t : Bytes) {c : Byte} (h : c ≠ ch '\\') (r : Bytes) (out : Strbuf) :
    unescapeLoop t (c :: r) out = unescapeLoop t r (out.appendChar c) := by
  rcases r with _ | ⟨e, r⟩
  · rw [unescapeLoop, unescapeLoop]
  · rw [unescapeLoop, if_neg h]

/-- A byte that has a letter of its own. -/
def HasLetter (c : Byte) : Prop := c = ch '\\' ∨ c = ch '"' ∨ c = 10 ∨ c = 9 ∨ c = 13 ∨ c = 0

/-- The escape of a byte that has a letter of its own. -/
theorem unescapeLoop_letter (t : Bytes) {c : Byte}
    (h : HasLetter c) (r : Bytes) (out : Strbuf) :
    unescapeLoop t (escaped c ++ r) out = unescapeLoop t r (out.appendChar c) := by
  have hl : ∃ e, escaped c = [ch '\\', e] ∧
      ∀ r, unescapeLoop t (ch '\\' :: e :: r) out = unescapeLoop t r (out.appendChar c) := by
    rcases h with rfl | rfl | rfl | rfl | rfl | rfl
    · exact ⟨ch '\\', by decide +kernel, fun r => by rw [unescapeLoop]; rfl⟩
    · exact ⟨ch '"', by decide +kernel, fun r => by rw [unescapeLoop]; rfl⟩
    · exact ⟨ch 'n', by decide +kernel, fun r => by rw [unescapeLoop]; rfl⟩
    · exact ⟨ch 't', by decide +kernel, fun r => by rw [unescapeLoop]; rfl⟩
    · exact ⟨ch 'r', by decide +kernel, fun r => by rw [unescapeLoop]; rfl⟩
    · exact ⟨ch '0', by decide +kernel, fun r => by rw [unescapeLoop]; rfl⟩
  obtain ⟨e, he, hstep⟩ := hl
  rw [he]
  exact hstep r

/-- The escape of two digits. -/
theorem unescapeLoop_hex (t : Bytes) (h l : Byte) (r : Bytes) (out : Strbuf) :
    unescapeLoop t (ch '\\' :: ch 'x' :: h :: l :: r) out =
      unescapeLoop t r (out.appendChar ((hexval h <<< 4) ||| hexval l)) := by
  rw [unescapeLoop]
  rfl

theorem hexval_hexDig {c : Byte} (hc : isControl c = true) :
    (hexval (hexDig (c >>> 4)) <<< 4) ||| hexval (hexDig (c &&& 15)) = c :=
  forall_control (P := fun c => (hexval (hexDig (c >>> 4)) <<< 4) ||| hexval (hexDig (c &&& 15)) = c)
    (fun n hn _ => by revert n; decide +kernel) hc

/-- The three forms of an escape. -/
theorem escaped_cases (c : Byte) : HasLetter c ∨
    (isControl c = true ∧ escaped c = [ch '\\', ch 'x', hexDig (c >>> 4), hexDig (c &&& 15)]) ∨
    (isControl c = false ∧ c ≠ ch '\\' ∧ c ≠ ch '"' ∧ escaped c = [c]) := by
  by_cases hs : HasLetter c
  · exact .inl hs
  simp only [HasLetter, not_or] at hs
  obtain ⟨h1, h2, h3, h4, h5, h6⟩ := hs
  unfold escaped
  rw [if_neg h1, if_neg h2, if_neg h3, if_neg h4, if_neg h5, if_neg h6]
  by_cases hc : isControl c = true
  · rw [if_pos hc]
    exact .inr (.inl ⟨hc, rfl⟩)
  · rw [if_neg hc]
    exact .inr (.inr ⟨Bool.eq_false_iff.2 hc, h1, h2, rfl⟩)

theorem unescapeLoop_escaped (t : Bytes) (c : Byte) (r : Bytes) (out : Strbuf) :
    unescapeLoop t (escaped c ++ r) out = unescapeLoop t r (out.appendChar c) := by
  rcases escaped_cases c with hs | ⟨hc, he⟩ | ⟨-, hb, -, he⟩
  · exact unescapeLoop_letter t hs r out
  · have hstep := unescapeLoop_hex t (hexDig (c >>> 4)) (hexDig (c &&& 15)) r out
    rw [hexval_hexDig hc] at hstep
    rw [he]
    exact hstep
  · rw [he]
    exact unescapeLoop_char t hb r out

theorem unescapeLoop_flatMap (t : Bytes) : ∀ (s : Bytes) (out : Strbuf),
    unescapeLoop t (s.flatMap escaped) out = .ok (out.push s)
  | [], out => by rw [List.flatMap_nil, unescapeLoop, Strbuf.push_nil]
  | c :: s, out => by rw [List.flatMap_cons, unescapeLoop_escaped, unescapeLoop_flatMap t s, Strbuf.push_cons]

theorem unescapeLoop_plain (t : Bytes) : ∀ {s : Bytes}, ch '\\' ∉ s → ∀ (out : Strbuf),
    unescapeLoop t s out = .ok (out.push s)
  | [], _, out => by rw [unescapeLoop, Strbuf.push_nil]
  | c :: s, h, out => by
    rw [List.mem_cons, not_or] at h
    rw [unescapeLoop_char t (Ne.symm h.1), unescapeLoop_plain t h.2, Strbuf.push_cons]

theorem escaped_letter {c : Byte} (h : HasLetter c) : ∃ e, escaped c = [ch '\\', e] := by
  rcases h with rfl | rfl | rfl | rfl | rfl | rfl <;> exact ⟨_, rfl⟩

theorem hexDig_of_control {c : Byte} (hc : isControl c = true) :
    (hexDig (c >>> 4) ≠ ch '"' ∧ hexDig (c >>> 4) ≠ ch '\\') ∧
      (hexDig (c &&& 15) ≠ ch '"' ∧ hexDig (c &&& 15) ≠ ch '\\') :=
  forall_control (P := fun c => (hexDig (c >>> 4) ≠ ch '"' ∧ hexDig (c >>> 4) ≠ ch '\\') ∧
      (hexDig (c &&& 15) ≠ ch '"' ∧ hexDig (c &&& 15) ≠ ch '\\'))
    (fun n hn _ => by revert n; decide +kernel) hc

theorem quotedBody_escaped (c : Byte) {r : Bytes} (h : QuotedBody r) : QuotedBody (escaped c ++ r) := by
  rcases escaped_cases c with hs | ⟨hc, he⟩ | ⟨-, hb, hq, he⟩
  · obtain ⟨e, he⟩ := escaped_letter hs
    rw [he]
    exact .escape e h
  · have hdig := hexDig_of_control hc
    rw [he]
    exact .escape _ (.char hdig.1.1 hdig.1.2 (.char hdig.2.1 hdig.2.2 h))
  · rw [he]
    exact .char hq hb h

theorem quotedBody_flatMap : ∀ (s : Bytes), QuotedBody (s.flatMap escaped)
  | [] => .nil
  | c :: s => quotedBody_escaped c (quotedBody_flatMap s)

/-! ## The two forms -/

/-- A string `yaml_quote` writes as it is. -/
def Plain (s : Bytes) : Prop := s ≠ [] ∧ yamlPlainSafe s = true

theorem Plain.noQuote {s : Bytes} (h : Plain s) : ch '"' ∉ s ∧ ch '\\' ∉ s := by
  obtain ⟨-, h⟩ := h
  unfold yamlPlainSafe at h
  split_ifs at h with _ _ _ _ h5
  simpa using h5

theorem scalarText_plain {s : Bytes} (h : Plain s) : scalarText s = s := by
  rw [scalarText, if_neg h.1, if_pos h.2]

theorem scalarText_quoted {s : Bytes} (h : ¬ Plain s) : scalarText s = ch '"' :: (s.flatMap escaped ++ [ch '"']) := by
  unfold scalarText
  split_ifs with h1 h2
  · rw [h1]; rfl
  · exact absurd ⟨h1, h2⟩ h
  · rfl

/-- The text is the string, without quotes and backslashes, or a quoted body. -/
theorem scalarText_forms (s : Bytes) : (ch '"' ∉ scalarText s ∧ ch '\\' ∉ scalarText s) ∨
    ∃ body, scalarText s = ch '"' :: (body ++ [ch '"']) ∧ QuotedBody body := by
  by_cases h : Plain s
  · rw [scalarText_plain h]
    exact .inl h.noQuote
  · rw [scalarText_quoted h]
    exact .inr ⟨_, rfl, quotedBody_flatMap s⟩

theorem scalarText_noNul (s : Bytes) : (0 : Byte) ∉ scalarText s := fun h =>
  absurd (scalarText_noControl s 0 h) (by decide)

theorem unescapeEmitted_scalarText (s : Bytes) (out : Strbuf) :
    unescapeEmitted (CStr.ofBytes (scalarText s)) out = .ok (out.push s) := by
  unfold unescapeEmitted
  rw [CStr.ofBytes_bytes (scalarText_noNul s)]
  by_cases h : Plain s
  · obtain ⟨hq, hb⟩ := h.noQuote
    rw [scalarText_plain h, if_neg, unescapeLoop_plain _ hb]
    rintro ⟨-, hfirst, -⟩
    exact hq (List.mem_of_head? hfirst)
  · rw [scalarText_quoted h, if_pos]
    · rw [List.tail_cons, List.dropLast_concat]
      exact unescapeLoop_flatMap _ s out
    · exact ⟨by simp, rfl, by rw [← List.cons_append, List.getLast?_concat]⟩

theorem scalarText_injective : Function.Injective scalarText := by
  intro s s' h
  have hs := unescapeEmitted_scalarText s .init
  have hs' := unescapeEmitted_scalarText s' .init
  rw [h, hs'] at hs
  have hbytes := congrArg Strbuf.bytes (Except.ok.inj hs)
  simpa using hbytes.symm

theorem length_le_flatMap_escaped (s : Bytes) : s.length ≤ (s.flatMap escaped).length := by
  induction s with
  | nil => rfl
  | cons c s ih =>
    have hpos : 1 ≤ (escaped c).length := by
      rcases escaped_cases c with hs | ⟨-, he⟩ | ⟨-, -, -, he⟩
      · obtain ⟨e, he⟩ := escaped_letter hs
        rw [he]; simp
      · rw [he]; simp
      · rw [he]; simp
    rw [List.flatMap_cons, List.length_append, List.length_cons]
    omega

/-- A string is written as it is exactly when it is plain. -/
theorem yamlQuote_eq_self_iff {s : Bytes} : (yamlQuote s .init).bytes = s ↔ Plain s := by
  rw [yamlQuote_eq, Strbuf.bytes_appendBytes, Strbuf.bytes_init, List.nil_append]
  constructor
  · intro h
    by_contra hp
    have hlen := congrArg List.length h
    have hle := length_le_flatMap_escaped s
    rw [scalarText_quoted hp, List.length_cons, List.length_append, List.length_singleton] at hlen
    omega
  · exact scalarText_plain

/-- A plain text is no quoted one. -/
theorem scalarText_plain_ne {s s' : Bytes} (h : Plain s) (h' : ¬ Plain s') : scalarText s ≠ scalarText s' := by
  intro heq
  have := scalarText_injective heq
  subst this
  exact h' h

/-- What `yaml_quote` writes: no control characters, no quotes but the outer ones and escaped ones, and the
string again when the escapes are undone; so different strings have different texts. -/
theorem yamlQuote_faithful (out : Strbuf) :
    (∀ s, ∃ text, (yamlQuote s out).bytes = out.bytes ++ text ∧
      (∀ c ∈ text, 0x20 ≤ c ∧ c ≠ 0x7F) ∧
      ((ch '"' ∉ text ∧ ch '\\' ∉ text) ∨ ∃ body, text = ch '"' :: (body ++ [ch '"']) ∧ QuotedBody body) ∧
      ∃ decoded, unescapeEmitted (CStr.ofBytes text) .init = .ok decoded ∧ decoded.bytes = s) ∧
      Function.Injective (fun s => (yamlQuote s out).bytes) ∧
      ∀ s s', ¬ (Plain s ∧ ¬ Plain s' ∧ (yamlQuote s out).bytes = (yamlQuote s' out).bytes) := by
  have hbytes : ∀ s, (yamlQuote s out).bytes = out.bytes ++ scalarText s := by
    intro s
    rw [yamlQuote_eq, Strbuf.bytes_appendBytes]
  refine ⟨fun s => ⟨scalarText s, hbytes s, fun c hc => ?_, scalarText_forms s, ?_⟩, ?_, ?_⟩
  · have hcontrol := scalarText_noControl s c hc
    rw [Bool.eq_false_iff, Ne, isControl_iff, not_or, not_lt] at hcontrol
    rw [UInt8.le_iff_toNat_le, Ne, ← UInt8.toNat_inj]
    exact hcontrol
  · exact ⟨_, unescapeEmitted_scalarText s .init, by rw [Strbuf.bytes_push]; rfl⟩
  · intro s s' h
    simp only [hbytes, List.append_cancel_left_eq] at h
    exact scalarText_injective h
  · rintro s s' ⟨h, h', heq⟩
    rw [hbytes, hbytes, List.append_cancel_left_eq] at heq
    exact scalarText_plain_ne h h' heq

end SubConverter
