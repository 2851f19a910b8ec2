/-
A string written as a value is read back by the rules of block YAML as one scalar with the same
content, except when it is written plain and ends in a colon.
-/
import SubConverter.Emit.Quote
import SubConverter.Yaml.Reader

namespace SubConverter

open CMem Yaml

/-! ## The quoted form -/

theorem unquote_escaped (c : Byte) (r : Bytes) :
    unquote (escaped c ++ r) = (unquote r).map fun p => (c :: p.1, p.2) := by
  -- the six named escapes, then `\xNN`, then the bytes that are copied
  rcases escaped_cases c with hs | ⟨hc, he⟩ | ⟨hc, hb, hq, he⟩
  · have hl : ∃ e, escaped c = [ch '\\', e] ∧ e ≠ ch 'x' ∧ escapeTable.lookup e = some c := by
      rcases hs with rfl | rfl | rfl | rfl | rfl | rfl
      · exact ⟨ch '\\', by decide +kernel⟩
      · exact ⟨ch '"', by decide +kernel⟩
      · exact ⟨ch 'n', by decide +kernel⟩
      · exact ⟨ch 't', by decide +kernel⟩
      · exact ⟨ch 'r', by decide +kernel⟩
      · exact ⟨ch '0', by decide +kernel⟩
    obtain ⟨e, he, hx, hlook⟩ := hl
    rw [he]
    exact unquote_letter hx hlook r
  · -- a control byte is below 128, so its code point is the byte itself
    have hx : ∃ a b, hexDigit (hexDig (c >>> 4)) = some a ∧ hexDigit (hexDig (c &&& 15)) = some b ∧
        latin1 (a <<< 4 ||| b) = [c] :=
      forall_control (P := fun c => ∃ a b, hexDigit (hexDig (c >>> 4)) = some a ∧
        hexDigit (hexDig (c &&& 15)) = some b ∧ latin1 (a <<< 4 ||| b) = [c])
        (fun n hn _ => ⟨(Nat.toUInt8 n) >>> 4, (Nat.toUInt8 n) &&& 15, by revert n; decide +kernel⟩) hc
    obtain ⟨a, b, ha, hb, hab⟩ := hx
    have hstep := unquote_hex ha hb r
    rw [hab] at hstep
    rw [he]
    exact hstep
  · rw [he]
    refine unquote_plain hq hb ?_ r
    have hlow : ¬ (c.toNat < 32 ∨ c.toNat = 127) := fun h => absurd (isControl_iff.2 h) (by simp [hc])
    rw [UInt8.le_iff_toNat_le]
    simp only [not_or, not_lt] at hlow
    exact hlow.1

theorem readScalar_quoted (s : Bytes) : readScalar (ch '"' :: (s.flatMap escaped ++ [ch '"'])) = some (s, []) := by
  rw [readScalar, if_pos rfl]
  exact unquote_flatMap [] fun c _ r => unquote_escaped c r

/-! ## The plain form -/

/-- What a plain-safe string satisfies. -/
structure PlainSafe (s : Bytes) : Prop where
  first : ∀ c ∈ s.head?, isIndicator c = false ∧ isBlank c = false
  last : ∀ c ∈ s.getLast?, isBlank c = false
  noControl : ∀ c ∈ s, isControl c = false
  pairs : badPair s = false

theorem isBlank_of_isWs {c : Byte} (h : isWs c = false) : isBlank c = false := by
  simp only [isWs, Bool.or_eq_false_iff] at h
  simp [isBlank, h.1.1.1.1.1, h.1.1.1.1.2]

theorem plainSafe_of {s : Bytes} (h : yamlPlainSafe s = true) : PlainSafe s := by
  unfold yamlPlainSafe at h
  split_ifs at h with h1 h2 h3 h4 h5 h6 h7
  simp only [Bool.or_eq_true, Option.any_eq_true, not_or, not_exists, not_and, Bool.not_eq_true] at h1 h2
  refine ⟨fun c hc => ⟨h2 c hc, isBlank_of_isWs (h1.1 c hc)⟩, fun c hc => isBlank_of_isWs (h1.2 c hc), fun c hc => ?_,
    by simpa using h4⟩
  by_contra hcc
  exact h3 (List.any_eq_true.2 ⟨c, hc, by simpa using hcc⟩)

theorem isBlank_iff {c : Byte} (h : isControl c = false) : isBlank c = true ↔ c = ch ' ' := by
  have h9 : c ≠ 9 := by rintro rfl; exact absurd h (by decide)
  simp [isBlank, h9]

theorem isPrintable_of {c : Byte} (h : isControl c = false) : isPrintable c = true := by
  rw [Bool.eq_false_iff, Ne, isControl_iff] at h
  simp only [not_or, not_lt] at h
  simp [isPrintable, UInt8.le_iff_toNat_le, ← UInt8.toNat_inj, h]

/-- Only a colon at its end cuts a text without `": "` and `" #"`. -/
theorem plainCut_of_pairs : ∀ {s : Bytes}, (∀ c ∈ s, isControl c = false) → badPair s = false →
    (plainCut s).2 = if s.getLast? = some (ch ':') then [ch ':'] else []
  | [], _, _ => rfl
  | [c], hc, _ => by
    have hb : ¬ (isBlank c = true ∧ ([] : Bytes).head? = some (ch '#')) := by simp
    by_cases h : c = ch ':'
    · subst h; decide
    · rw [plainCut, if_neg (by simp [h])]; simp [plainCut, h]
  | c :: d :: r, hc, hp => by
    have ih := plainCut_of_pairs (s := d :: r) (fun e he => hc e (by simp [List.mem_cons.1 he])) (by
      rw [badPair] at hp; simp only [Bool.or_eq_false_iff] at hp; exact hp.2)
    rw [badPair] at hp
    simp only [Bool.or_eq_false_iff, Bool.and_eq_false_iff, beq_eq_false_iff_ne] at hp
    -- `": "` and `" #"` are the pairs the emitter refuses, and no other blank is left
    have hcut : ¬ ((c = ch ':' ∧ (d :: r).head?.all isBlank = true) ∨
        (isBlank c = true ∧ (d :: r).head? = some (ch '#'))) := by
      simp only [List.head?_cons, Option.all_some, Option.some.injEq, isBlank_iff (hc c (by simp)),
        isBlank_iff (hc d (by simp))]
      rintro (⟨rfl, rfl⟩ | ⟨rfl, rfl⟩)
      · rcases hp.1.1 with h | h <;> exact h rfl
      · rcases hp.1.2 with h | h <;> exact h rfl
    rw [plainCut, if_neg hcut]
    simp only [ih, List.getLast?_cons_cons]

/-- A plain-safe string is read whole unless a colon ends it. -/
theorem readScalar_plainSafe {s : Bytes} (hne : s ≠ []) (h : PlainSafe s) :
    readScalar s = some (s, []) ↔ s.getLast? ≠ some (ch ':') := by
  rcases s with _ | ⟨c, r⟩
  · exact absurd rfl hne
  have hcut := plainCut_of_pairs h.noControl h.pairs
  have hf := h.first c rfl
  constructor
  · intro hr hl
    rw [if_pos hl] at hcut
    have hq : c ≠ ch '"' := by rintro rfl; exact absurd hf.1 (by decide +kernel)
    have := readScalar_cut hq hr
    rw [hcut] at this; cases this
  · intro hl
    rw [if_neg hl] at hcut
    exact readScalar_plain hf.1 hf.2 hcut (List.all_eq_true.2 fun d hd => isPrintable_of (h.noControl d hd)) h.last

/-- The text of a non-empty string is read back unless it is plain and a colon ends it. -/
theorem readScalar_scalarText {s : Bytes} (hne : s ≠ []) :
    readScalar (scalarText s) = some (s, []) ↔ ¬ (yamlPlainSafe s = true ∧ s.getLast? = some (ch ':')) := by
  rw [scalarText, if_neg hne]
  split
  · rename_i h
    rw [readScalar_plainSafe hne (plainSafe_of h)]
    simp [h]
  · rename_i h
    exact iff_of_true (readScalar_quoted s) (by simp [h])

/-! ## Lines -/

/-- Where a string stands on its line: `key: value`, `- value` or `- key: value`. -/
inductive Position
  | kv (key : String)
  | dash
  | dashKv (key : String)

namespace Position

def emit (out : Strbuf) (indent : Nat) (value : CStr) : Position → Strbuf
  | kv key => yamlEmitKv out indent key (some value)
  | dash => yamlEmitDash out indent value
  | dashKv key => yamlEmitDashKv out indent key value

/-- The line of a document in which the string is the one scalar at its position. -/
def node (indent : Nat) (value : CStr) : Position → Yaml.Line
  | kv key => ⟨indent, false, .entry (str key) (some value.bytes)⟩
  | dash => ⟨indent, true, .scalar value.bytes⟩
  | dashKv key => ⟨indent, true, .entry (str key) (some value.bytes)⟩

def KeyPlain : Position → Prop
  | kv key => PlainKey (str key)
  | dash => True
  | dashKv key => PlainKey (str key)

end Position

theorem newline_not_mem_scalarText (s : Bytes) : (10 : Byte) ∉ scalarText s := fun h =>
  absurd (scalarText_noControl s 10 h) (by decide)

theorem newline_not_mem_key {k : Bytes} (hk : PlainKey k) : (10 : Byte) ∉ k := fun h =>
  absurd (hk.chars 10 h).1 (by decide)

theorem newline_ne : (10 : Byte) ≠ ch ' ' ∧ (10 : Byte) ≠ ch ':' ∧ (10 : Byte) ≠ ch '-' := by decide

theorem readLine_kv {k : Bytes} (hk : PlainKey k) (n : Nat) (s t : Bytes) (ht : (10 : Byte) ∉ t) :
    readLine (List.replicate n (ch ' ') ++ (k ++ ch ':' :: ch ' ' :: t) ++ [10]) =
      some ⟨n, false, .entry k (some s)⟩ ↔ readScalar t = some (s, []) := by
  have hk10 := newline_not_mem_key hk
  rw [readLine_append (by simp [hk10, ht, newline_ne])]
  obtain ⟨a, r, rfl⟩ := List.exists_cons_of_ne_nil hk.ne
  have ha := hk.chars a (by simp)
  have hai := hk.first a rfl
  rw [List.cons_append, readBody_key n (by rintro rfl; exact absurd ha.2.1 (by decide))
    (by rintro rfl; exact absurd hai (by decide +kernel)), ← List.cons_append, Option.map_eq_some_iff,
    ← readItem_entry_iff hk]
  constructor
  · rintro ⟨x, hx, h⟩; cases h; exact hx
  · exact fun h => ⟨_, h, rfl⟩

theorem readLine_dash (n : Nat) (i : Item) (t : Bytes) (ht : (10 : Byte) ∉ t) :
    readLine (List.replicate n (ch ' ') ++ ch '-' :: ch ' ' :: t ++ [10]) = some ⟨n, true, i⟩ ↔
      readItem t = some i := by
  rw [readLine_append (by simp [ht, newline_ne]), readBody_dash, Option.map_eq_some_iff]
  constructor
  · rintro ⟨x, hx, h⟩; cases h; exact hx
  · exact fun h => ⟨_, h, rfl⟩

/-- A string written as a value is one scalar on its line exactly when it is not a plain-safe string
with a colon at its end. -/
theorem emit_readsBack_iff (p : Position) (hp : p.KeyPlain) (out : Strbuf) (indent : Nat) (s : CStr)
    (hs : s.bytes ≠ []) :
    readLine ((p.emit out indent s).bytes.drop out.bytes.length) = some (p.node indent s) ↔
      ¬ (yamlPlainSafe s.bytes = true ∧ s.bytes.getLast? = some (ch ':')) := by
  have hn := newline_not_mem_scalarText s.bytes
  have hd : str "- " = [ch '-', ch ' '] := rfl
  have hk : str ":" = [ch ':'] := rfl
  have hb : str " " = [ch ' '] := rfl
  rw [← readScalar_scalarText hs]
  cases p with
  | kv key =>
    have h := readLine_kv hp indent s.bytes _ hn
    simpa [Position.emit, Position.node, yamlEmitKv_eq, Line.text, Line.head, Line.tail, Line.kv, Value.text, hk, hb]
      using h
  | dash =>
    have h := readLine_dash indent (.scalar s.bytes) _ hn
    rw [readItem_scalar_iff] at h
    simpa [Position.emit, Position.node, yamlEmitDash_eq, Line.text, Line.head, Line.tail, Line.item, Value.text, hd]
      using h
  | dashKv key =>
    have hk10 := newline_not_mem_key hp
    have h := readLine_dash indent (.entry (str key) (some s.bytes)) (str key ++ ch ':' :: ch ' ' :: scalarText s.bytes)
      (by simp [hk10, hn, newline_ne])
    rw [readItem_entry_iff hp] at h
    simpa [Position.emit, Position.node, yamlEmitDashKv_eq, Line.text, Line.head, Line.tail, Line.itemKv, Value.text,
      hd, hk, hb] using h

theorem emit_readsBack_server :
    readLine (((Position.kv "server").emit .init 4 (.lit "a: b")).bytes.drop 0) =
      some ((Position.kv "server").node 4 (.lit "a: b")) :=
  (emit_readsBack_iff (.kv "server") ⟨by decide, by decide +kernel, by decide +kernel⟩ .init 4 (.lit "a: b")
    (by decide +kernel)).2 (by decide +kernel)

/-- `a:` is written plain and read back as a key. -/
theorem trailing_colon :
    readLine (yamlEmitDash .init 2 (.lit "a:")).bytes = some ⟨2, true, .entry (str "a") none⟩ ∧
      readLine (yamlEmitKv .init 4 "server" (some (.lit "a:"))).bytes = none := by
  decide +kernel

end SubConverter
