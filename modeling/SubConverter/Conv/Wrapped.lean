/-
A subscription wrapped in base64, with white space anywhere: `conv_base64_run` hands the same text to its loop
as on the subscription itself, in a longer block.
-/
import SubConverter.Coding.Alphabets
import SubConverter.Conv.Faults

namespace SubConverter

open CMem

/-! ## White space in a text -/

/-- The second text is the first one with white space put in. -/
inductive Spread : Bytes → Bytes → Prop
  | nil : Spread [] []
  | ws {t b : Bytes} {c : Byte} (hc : b64IsWs c = true) (h : Spread t b) : Spread t (c :: b)
  | char {t b : Bytes} (c : Byte) (h : Spread t b) : Spread (c :: t) (c :: b)

theorem Spread.append_chars {t b : Bytes} (s : Bytes) (h : Spread t b) : Spread (s ++ t) (s ++ b) := by
  induction s with
  | nil => exact h
  | cons c s ih => exact .char c ih

theorem Spread.append_ws {t b : Bytes} (h : Spread t b) : ∀ {w : Bytes}, w.all b64IsWs = true → Spread t (w ++ b)
  | [], _ => h
  | c :: w, hw => by
    rw [List.all_cons, Bool.and_eq_true] at hw
    exact .ws hw.1 (h.append_ws hw.2)

theorem Spread.sig {t b : Bytes} (h : Spread t b) : b64Sig b = b64Sig t := by
  induction h with
  | nil => rfl
  | ws hc _ ih => rw [← ih]; exact List.filter_cons_of_neg (by simpa using hc)
  | char c _ ih =>
    by_cases hc : b64IsWs c = true
    · rw [b64Sig, List.filter_cons_of_neg (by simpa using hc), b64Sig, List.filter_cons_of_neg (by simpa using hc)]
      exact ih
    · rw [b64Sig, List.filter_cons_of_pos (by simpa using hc), b64Sig, List.filter_cons_of_pos (by simpa using hc)]
      exact congrArg (c :: ·) ih

/-! ## Coded texts -/

theorem length_b64Text (b : Bytes) : (b64Text b64StdChars true b).length = 4 * ((b.length + 2) / 3) := by
  have hmod : b.length % 3 = 0 ∨ b.length % 3 = 1 ∨ b.length % 3 = 2 := by omega
  rw [b64Text, List.length_append, List.length_replicate, b64Chars, List.length_map, Sextet.length_sextets, if_pos rfl,
    padCount]
  rcases hmod with hm | hm | hm
  · rw [hm]; omega
  · rw [hm]; omega
  · rw [hm]; omega

/-- Every coded text that is not empty looks like base64. -/
theorem looksLike_text {b t : Bytes} (hb : b ≠ []) (h : b64Sig t = b64Text b64StdChars true b) :
    base64LooksLike t = true := by
  have hpos := List.length_pos_of_ne_nil hb
  have hcoded := coded_text alphabet_std h
  rw [base64LooksLike_iff]
  refine ⟨hcoded.gateByte, ?_, ?_⟩
  · rw [h, length_b64Text]; omega
  · rw [h, length_b64Text]; omega

theorem base64Decode_text {b t : Bytes} (h : b64Sig t = b64Text b64StdChars true b) :
    base64Decode t .init = (0, Strbuf.init.push b) :=
  b64DecodeCore_text alphabet_std h .init

/-! ## The run -/

/-- Decoding hands the subscription itself to the loop, with the rest of a longer block behind it. -/
theorem convSrc_wrapped {plain wrapped : ConvCtx} (hne : plain.data ≠ [])
    (hwrap : b64Sig wrapped.data = b64Text b64StdChars true plain.data) :
    convSrc wrapped = .ok (some (plain.data ++ 0 :: wrapped.spare)) := by
  rw [convSrc, looksLike_text hne hwrap, base64Decode_text hwrap, Strbuf.push_eq _ hne]
  rfl

theorem BracketClosed.append {s : Bytes} (h : BracketClosed s) (t : Bytes) : BracketClosed (s ++ t) := by
  obtain ⟨x, d, z, rfl⟩ := h
  exact ⟨x, d, z ++ t, by simp⟩

/-- In a longer block a line does not fault when it did not before. -/
theorem LineFaults.of_append {tok : Tokener} {l t s : Bytes} (h : LineFaults tok l (t ++ s)) : LineFaults tok l t := by
  rcases h with h | ⟨a, y, r, hs, hl, hrc, hb⟩
  · exact .inl h
  · refine .inr ⟨a, y, r, hs, hl, hrc, fun hc => hb ?_⟩
    have := hc.append s
    simpa only [List.append_assoc] using this

theorem BodyFaults.of_append {tok : Tokener} {t s : Bytes} : ∀ {ls : List Bytes}, BodyFaults tok (t ++ s) ls →
    BodyFaults tok t ls
  | l :: ls, .inl h => .inl (LineFaults.of_append (s := s) (by rwa [List.append_assoc]))
  | l :: ls, .inr h => .inr h.of_append

theorem TextSafe.append {tok : Tokener} {b t : Bytes} (h : TextSafe tok b t) (s : Bytes) : TextSafe tok b (t ++ s) where
  lines hf := h.lines (BodyFaults.of_append (t := 0 :: t) (s := s) hf)
  names := h.names

/-- A line without a colon is no link, so nothing is read of it. -/
theorem not_lineFaults_noColon (tok : Tokener) {l : Bytes} (h : ch ':' ∉ l) (t : Bytes) : ¬ LineFaults tok l t := by
  have ht : ch ':' ∉ trimLine l := by
    obtain ⟨r, hr⟩ := trimLine_append l
    exact fun hm => h (by rw [hr]; exact List.mem_append_left _ hm)
  obtain ⟨hrun, hstray⟩ := linkRun_noColon tok ht
  rintro (hf | ⟨a, y, r, hs, -⟩)
  · have herr := linkRun_error_iff.2 ⟨rfl, hf⟩
    rw [hrun] at herr; cases herr
  · rw [hstray] at hs; cases hs

theorem not_bodyFaults_noColon (tok : Tokener) (t : Bytes) : ∀ {ls : List Bytes}, (∀ l ∈ ls, ch ':' ∉ l) →
    ¬ BodyFaults tok t ls
  | [], _ => id
  | l :: ls, h => by
    rw [List.forall_mem_cons] at h
    rintro (hf | hf)
    · exact not_lineFaults_noColon tok h.1 _ hf
    · exact not_bodyFaults_noColon tok t h.2 hf

/-- A body without a colon has no links. -/
theorem convBase64Run_noColon (tok : Tokener) {ctx : ConvCtx} (hc : ch ':' ∉ ctx.data) (h : ctx.Plain)
    (outYaml : Option CStr) : convBase64Run tok ctx outYaml = .ok (-1, outYaml) := by
  have hline : ∀ l ∈ ctx.data.splitOn 10, ch ':' ∉ l := by
    intro l hl hm
    obtain ⟨pre, post, hp⟩ := List.append_of_mem hl
    have hmem : ch ':' ∈ (10 : Byte) :: ctx.data := by
      rw [← flatMap_splitOn 10 ctx.data, hp]; simp [hm]
    exact hc (by simpa [show ch ':' ≠ 10 by decide] using hmem)
  have hnodes : acceptedNodes tok ctx.data = [] := by
    have hfits := ctx.fits
    rw [← acceptedNodes_eq tok (by omega), List.filterMap_eq_nil_iff]
    exact fun l hl => acceptLine_noColon (hline l hl)
  have hsafe : TextSafe tok ctx.data [] := ⟨not_bodyFaults_noColon tok _ hline, by rw [hnodes]; trivial⟩
  have hr := (matchesReference_iff tok h outYaml).2 hsafe
  rwa [MatchesReference, hnodes] at hr

theorem convBase64Run_blank (tok : Tokener) {ctx : ConvCtx} (h : b64Sig ctx.data = []) (outYaml : Option CStr) :
    convBase64Run tok ctx outYaml = .ok (-1, outYaml) := by
  have hws : ∀ c ∈ ctx.data, b64IsWs c = true := by simpa [b64Sig, List.filter_eq_nil_iff] using h
  have hno : ∀ c, b64IsWs c = false → c ∉ ctx.data := by
    intro c hc hm
    rw [hws c hm] at hc; cases hc
  refine convBase64Run_noColon tok (hno _ (by decide)) ⟨hno _ (by decide), ?_⟩ outYaml
  rw [← Bool.not_eq_true, base64LooksLike_iff, h]
  rintro ⟨-, hlen, -⟩
  simp at hlen

/-- A subscription and the same in base64, with any white space in it, give the same result exactly when no line of the
subscription faults where it stands and its nodes can be named. -/
theorem convBase64Run_wrapped (tok : Tokener) (plain wrapped : ConvCtx) (hplain : base64LooksLike plain.data = false)
    (hwrap : Spread (base64Encode plain.data .init).bytes wrapped.data) (outYaml : Option CStr) :
    (∃ r, convBase64Run tok wrapped outYaml = .ok r ∧ convBase64Run tok plain outYaml = .ok r) ↔
      ¬ TextFaults tok plain := by
  have hsig : b64Sig wrapped.data = b64Text b64StdChars true plain.data := by
    rw [hwrap.sig, base64Encode_bytes, b64Text_ws alphabet_std]
  constructor
  · rintro ⟨r, -, hr⟩ hf
    obtain ⟨f, he⟩ := (convBase64Run_error_iff tok plain outYaml).2 hf
    rw [hr] at he
    cases he
  intro hf
  by_cases hne : plain.data = []
  · -- the text of nothing is white space only, and neither body has a line
    rw [hne, b64Text_nil] at hsig
    exact ⟨_, convBase64Run_blank tok hsig outYaml, convBase64Run_blank tok (by rw [hne]; rfl) outYaml⟩
  · have hsrc : convSrc plain = .ok (some (plain.data ++ [0])) := by rw [convSrc, hplain, if_neg (by simp)]
    have hsrc' := convSrc_wrapped hne hsig
    obtain ⟨t, ht, hlen⟩ := convSrc_some hsrc
    obtain ⟨t', ht', hlen'⟩ := convSrc_some hsrc'
    have h0 := nul_not_mem_bodyText plain
    have hsafe : TextSafe tok (bodyText plain) t := not_not.1 fun hn => hf ⟨t, by rw [hsrc, ht], hn⟩
    -- the longer block holds the same text up to the first NUL
    have hmem : plain.data ++ 0 :: wrapped.spare = bodyText plain ++ 0 :: (t ++ wrapped.spare) := by
      have := congrArg (· ++ wrapped.spare) ht
      simpa only [List.append_assoc, List.cons_append, List.nil_append] using this
    rw [hmem] at hsrc' hlen'
    rw [ht] at hsrc hlen
    rcases convBase64Run_src tok outYaml hsrc h0 hlen with ⟨hn, -⟩ | ⟨-, hok⟩
    · exact absurd hsafe hn
    rcases convBase64Run_src tok outYaml hsrc' h0 hlen' with ⟨hn, -⟩ | ⟨-, hok'⟩
    · exact absurd (hsafe.append wrapped.spare) hn
    exact ⟨_, hok', hok⟩

/-- `linkBody` in base64, in two lines. -/
def wrappedBody : ConvCtx := ⟨str "dmxlc3M6\r\nLy91QGg6MQ==\n", [], by decide +kernel⟩

theorem spread_wrappedBody : Spread (base64Encode linkBody.data .init).bytes wrappedBody.data := by
  have htext : (base64Encode linkBody.data .init).bytes = str "dmxlc3M6" ++ (str "Ly91QGg6MQ==" ++ []) := by
    decide +kernel
  have hdata : wrappedBody.data = str "dmxlc3M6" ++ ([13, 10] ++ (str "Ly91QGg6MQ==" ++ ([10] ++ []))) := by
    decide +kernel
  rw [htext, hdata]
  exact .append_chars _ (.append_ws (.append_chars _ (.append_ws .nil (by decide))) (by decide))

theorem convBase64Run_wrapped_link :
    (∃ r, convBase64Run .refusing wrappedBody none = .ok r ∧ convBase64Run .refusing linkBody none = .ok r) ↔
      ¬ TextFaults .refusing linkBody :=
  convBase64Run_wrapped .refusing linkBody wrappedBody (by decide +kernel) spread_wrappedBody none

/-- `emptyUserBody` in base64. -/
def wrappedEmptyUser : ConvCtx := ⟨str "dmxlc3M6Ly9AaDox", [], by decide +kernel⟩

/-- A link with an empty user name gives no result, neither plain nor in base64. -/
theorem wrappedEmptyUser_run :
    base64LooksLike emptyUserBody.data = false ∧
      Spread (base64Encode emptyUserBody.data .init).bytes wrappedEmptyUser.data ∧
      convBase64Run .refusing emptyUserBody none = .error .null ∧
      convBase64Run .refusing wrappedEmptyUser none = .error .null ∧
      ¬ ∃ r, convBase64Run .refusing wrappedEmptyUser none = .ok r ∧ convBase64Run .refusing emptyUserBody none = .ok r := by
  have hplain : convBase64Run .refusing emptyUserBody none = .error .null := by decide +kernel
  refine ⟨by decide +kernel, ?_, hplain, by decide +kernel, ?_⟩
  · have htext : (base64Encode emptyUserBody.data .init).bytes = str "dmxlc3M6Ly9AaDox" ++ [] := by decide +kernel
    have hdata : wrappedEmptyUser.data = str "dmxlc3M6Ly9AaDox" ++ [] := by decide +kernel
    rw [htext, hdata]
    exact .append_chars _ .nil
  · rintro ⟨r, -, hr⟩
    rw [hplain] at hr
    cases hr

end SubConverter
