/-
`conv_base64_run` against its reference: the nodes of the accepted lines in order, renamed, in one
document. The two differ exactly on a body with a line that makes `node_parse_share` fault or with a
name that cannot be numbered.
-/
import SubConverter.Conv.Body

namespace SubConverter

open CMem

/-! ## The reference -/

/-- A line without its trailing CR characters. -/
def dropCr (l : Bytes) : Bytes := l.rdropWhile (· == 13)

/-- The nodes of the lines `node_parse_share` accepts, in order. -/
def acceptedNodes (tok : Tokener) (b : Bytes) : List ProxyNode :=
  ((b.splitOn 10).map dropCr).filterMap (acceptLine tok)

/-- The return code and `*out_yaml` for the accepted nodes. -/
def base64Result (ns : List ProxyNode) (outYaml : Option CStr) : Int × Option CStr :=
  if ns = [] then (-1, outYaml) else (0, some (base64Doc ns).yaml)

/-- The run on a plain body is its reference. -/
def MatchesReference (tok : Tokener) (ctx : ConvCtx) (outYaml : Option CStr) : Prop :=
  convBase64Run tok ctx outYaml = .ok (base64Result (acceptedNodes tok ctx.data) outYaml)

theorem dropCr_append (l : Bytes) : dropCr (l ++ [13]) = dropCr l := by
  simp [dropCr, List.rdropWhile_concat_pos]

theorem trimLine_dropCr (l : Bytes) : trimLine (dropCr l) = trimLine l := by
  induction l using List.reverseRecOn with
  | nil => rfl
  | append_singleton l c ih =>
    by_cases h : c = 13
    · -- one CR less, which the parser would have trimmed
      subst h
      rw [dropCr_append, ih, trimLine, trimLine, List.rdropWhile_concat_pos _ _ _ (by simp)]
    · rw [dropCr, List.rdropWhile_concat_neg _ _ _ (by simpa using h)]

theorem length_dropCr_le (l : Bytes) : (dropCr l).length ≤ l.length := (List.rdropWhile_prefix _ l).length_le

/-- `node_parse_share` drops the CR characters itself. -/
theorem acceptLine_dropCr (tok : Tokener) {l : Bytes} (hlen : l.length < 2 ^ 63) :
    acceptLine tok (dropCr l) = acceptLine tok l := by
  have hle := length_dropCr_le l
  rcases hs : strayLink (trimLine l) with _ | ⟨a, y⟩
  · rw [acceptLine_of_noStray hs, acceptLine_of_noStray (by rwa [trimLine_dropCr]), trimLine_dropCr]
  · rw [acceptLine_of_stray hs hlen, acceptLine_of_stray (by rwa [trimLine_dropCr]) (by omega)]

theorem length_le_of_mem_splitOn {b l : Bytes} (h : l ∈ b.splitOn 10) : l.length ≤ b.length := by
  have := flatMap_splitOn 10 b
  have hsum : ((b.splitOn 10).flatMap (10 :: ·)).length = b.length + 1 := by rw [this]; rfl
  obtain ⟨pre, post, hp⟩ := List.append_of_mem h
  rw [hp] at hsum
  simp only [List.flatMap_append, List.flatMap_cons, List.length_append, List.length_cons] at hsum
  omega

theorem acceptedNodes_eq (tok : Tokener) {b : Bytes} (hlen : b.length < 2 ^ 63) :
    (b.splitOn 10).filterMap (acceptLine tok) = acceptedNodes tok b := by
  rw [acceptedNodes, List.filterMap_map]
  exact List.filterMap_congr fun l hl =>
    (acceptLine_dropCr tok (lt_of_le_of_lt (length_le_of_mem_splitOn hl) hlen)).symm

theorem acceptedNodes_emits (tok : Tokener) {b : Bytes} (hlen : b.length < 2 ^ 63) :
    ∀ n ∈ acceptedNodes tok b, n.type.emits = true := by
  rw [← acceptedNodes_eq tok hlen]
  intro n hn
  obtain ⟨l, hl, h⟩ := List.mem_filterMap.1 hn
  exact acceptLine_emits (lt_of_le_of_lt (length_le_of_mem_splitOn hl) hlen) h

/-! ## The run -/

/-- The text the lines are cut from: the body, decoded when it looks like base64, up to a NUL. -/
def bodyText (ctx : ConvCtx) : Bytes :=
  (if base64LooksLike ctx.data then (base64Decode ctx.data .init).2.bytes else ctx.data).takeWhile (· ≠ 0)

/-- The text `b` with `t` behind its terminator: no line faults where it stands, and every accepted node
can be given a name. -/
structure TextSafe (tok : Tokener) (b t : Bytes) : Prop where
  lines : ¬ BodyFaults tok (0 :: t) (b.splitOn 10)
  names : NamesFit ((acceptedNodes tok b).map fun n => nvl n.name) []

/-- The run over a text with its terminator. -/
theorem convBase64Run_src (tok : Tokener) {ctx : ConvCtx} (outYaml : Option CStr) {b t : Bytes}
    (hsrc : convSrc ctx = .ok (some (b ++ 0 :: t))) (h0 : (0 : Byte) ∉ b) (hlen : (b ++ 0 :: t).length < 2 ^ 63) :
    (¬ TextSafe tok b t ∧ ∃ e, convBase64Run tok ctx outYaml = .error e) ∨
      (TextSafe tok b t ∧ convBase64Run tok ctx outYaml = .ok (base64Result (acceptedNodes tok b) outYaml)) := by
  have hlen' : b.length + (t.length + 1) < 2 ^ 63 := by simpa using hlen
  have hlines := convLines_eq tok t b.length b le_rfl h0 [] []
  simp only [List.nil_append, List.length_nil] at hlines
  have hrun : convBase64Run tok ctx outYaml = bodyRun tok (0 :: t) (b.splitOn 10) [] >>= fun nodes =>
      if nodes = [] then .ok (-1, outYaml) else convBase64Emit nodes outYaml := by
    rw [convBase64Run, hsrc, ok_bind]
    simp only [hlines]
  have hbody := bodyRun_eq tok (0 :: t) (b.splitOn 10) [] (by
    rw [flatMap_splitOn]; simp only [List.length_append, List.length_cons]; omega)
  rw [List.nil_append, acceptedNodes_eq tok (show b.length < 2 ^ 63 by omega)] at hbody
  rw [hrun]
  rcases hbody with ⟨hf, e, he⟩ | ⟨hf, hok⟩
  · exact .inl ⟨fun h => h.lines hf, e, by rw [he]; rfl⟩
  rw [hok, ok_bind, base64Result]
  by_cases hfit : NamesFit ((acceptedNodes tok b).map fun n => nvl n.name) []
  · refine .inr ⟨⟨hf, hfit⟩, ?_⟩
    split
    · rfl
    · exact convBase64Emit_eq (acceptedNodes_emits tok (by omega)) hfit outYaml
  · refine .inl ⟨fun h => hfit h.names, ?_⟩
    split
    · rename_i hnil
      exact absurd (by rw [hnil]; trivial) hfit
    · exact convBase64Emit_error hfit outYaml

/-! ## Any body -/

theorem length_b64DecodeEnd (quad : List Byte) (pad : Nat) (out : Strbuf) :
    (b64DecodeEnd quad pad out).2.bytes.length ≤ out.bytes.length + quad.length := by
  unfold b64DecodeEnd
  split
  · simp
  · split <;> simp
  · split <;> simp
  · simp

theorem length_b64DecodeLoop (alphabet : Bytes) : ∀ (b : Bytes) (quad : List Byte) (pad : Nat) (out : Strbuf),
    (b64DecodeLoop alphabet b quad pad out).2.bytes.length ≤ out.bytes.length + quad.length + b.length
  | [], quad, pad, out => length_b64DecodeEnd quad pad out
  | c :: b, quad, pad, out => by
    rw [b64DecodeLoop]
    split
    · have := length_b64DecodeLoop alphabet b quad pad out
      simp only [List.length_cons]; omega
    split
    · split
      · simp only; omega
      split
      · simp only; omega
      · have := length_b64DecodeLoop alphabet b quad (pad + 1) out
        simp only [List.length_cons]; omega
    split
    · simp only; omega
    split
    · simp only; omega
    split
    · refine (length_b64DecodeLoop alphabet b [] pad _).trans ?_
      simp
    · refine (length_b64DecodeLoop alphabet b _ pad out).trans ?_
      simp; omega

theorem length_base64Decode (b : Bytes) : (base64Decode b .init).2.bytes.length ≤ b.length := by
  have h := length_b64DecodeLoop b64StdChars b [] 0 .init
  rwa [Strbuf.bytes_init, List.length_nil, Nat.zero_add] at h

theorem length_bodyText_lt (ctx : ConvCtx) : (bodyText ctx).length < 2 ^ 63 := by
  have hfits := ctx.fits
  have hdecode := length_base64Decode ctx.data
  refine (List.takeWhile_prefix _).length_le.trans_lt ?_
  split <;> omega

/-- A buffer with its terminator, cut at its first NUL. -/
theorem cut_nul (b s : Bytes) : ∃ t, b ++ 0 :: s = b.takeWhile (· ≠ 0) ++ 0 :: t := by
  induction b with
  | nil => exact ⟨s, rfl⟩
  | cons c b ih =>
    by_cases h : c = 0
    · subst h; exact ⟨b ++ 0 :: s, by simp⟩
    · obtain ⟨t, ht⟩ := ih
      exact ⟨t, by rw [List.takeWhile_cons_of_pos (by simpa using h), List.cons_append, List.cons_append, ht]⟩

/-- The loop runs over a buffer that holds `bodyText` up to its first NUL. -/
theorem convSrc_some {ctx : ConvCtx} {src : Bytes} (h : convSrc ctx = .ok (some src)) :
    ∃ t, src = bodyText ctx ++ 0 :: t ∧ src.length < 2 ^ 63 := by
  have hfits := ctx.fits
  unfold convSrc at h
  unfold bodyText
  split at h
  · rename_i hb
    rw [if_pos hb]
    have hlen := length_base64Decode ctx.data
    revert h hlen
    rcases base64Decode ctx.data .init with ⟨rc, ⟨data⟩⟩
    intro h hlen
    simp only at h
    split at h
    · cases h
    · cases data with
      | none => cases h
      | some b =>
        cases h
        obtain ⟨t, ht⟩ := cut_nul b ctx.spare
        refine ⟨t, ht, ?_⟩
        have hlen : b.length ≤ ctx.data.length := hlen
        rw [List.length_append, List.length_cons]
        omega
  · rename_i hb
    rw [if_neg hb]
    cases h
    obtain ⟨t, ht⟩ := cut_nul ctx.data []
    exact ⟨t, ht, by rw [List.length_append, List.length_singleton]; omega⟩

theorem nul_not_mem_bodyText (ctx : ConvCtx) : (0 : Byte) ∉ bodyText ctx := nul_not_mem_takeWhile _

/-- A run that returns has parsed the lines of `bodyText`, or failed before. -/
theorem convBase64Run_ok {tok : Tokener} {ctx : ConvCtx} {outYaml : Option CStr} {r : Int × Option CStr}
    (h : convBase64Run tok ctx outYaml = .ok r) :
    r = (-1, outYaml) ∨ (acceptedNodes tok (bodyText ctx) ≠ [] ∧
      r = (0, some (base64Doc (acceptedNodes tok (bodyText ctx))).yaml)) := by
  obtain ⟨src, hsrc, hr⟩ := bind_ok_iff.1 h
  rcases src with _ | src
  · cases hr; exact .inl rfl
  obtain ⟨t, rfl, hlen⟩ := convSrc_some hsrc
  rcases convBase64Run_src tok outYaml hsrc (nul_not_mem_bodyText ctx) hlen with ⟨-, e, he⟩ | ⟨-, hok⟩
  · rw [he] at h; cases h
  · rw [hok, base64Result] at h
    split at h
    · cases h; exact .inl rfl
    · rename_i hne
      cases h; exact .inr ⟨hne, rfl⟩

/-- Two runs over the same body that return, return the same, whatever lies behind the decoded text. -/
theorem convBase64Run_spare {tok : Tokener} {ctx ctx' : ConvCtx} (hdata : ctx.data = ctx'.data) {outYaml : Option CStr}
    {r r' : Int × Option CStr} (h : convBase64Run tok ctx outYaml = .ok r) (h' : convBase64Run tok ctx' outYaml = .ok r') :
    r = r' := by
  have hsrc : convSrc ctx = .ok none ↔ convSrc ctx' = .ok none := by
    unfold convSrc
    rw [hdata]
    cases base64LooksLike ctx'.data
    · simp
    · simp only [if_true]
      split
      · exact Iff.rfl
      · split <;> simp
  have hok {c : ConvCtx} {x : Int × Option CStr} (hx : convBase64Run tok c outYaml = .ok x) :
      (convSrc c = .ok none ∧ x = (-1, outYaml)) ∨
        (convSrc c ≠ .ok none ∧ x = base64Result (acceptedNodes tok (bodyText c)) outYaml) := by
    obtain ⟨src, hs, hrun⟩ := bind_ok_iff.1 hx
    rcases src with _ | src
    · cases hrun
      exact .inl ⟨hs, rfl⟩
    · obtain ⟨t, rfl, hlen⟩ := convSrc_some hs
      rcases convBase64Run_src tok outYaml hs (nul_not_mem_bodyText c) hlen with ⟨-, e, he⟩ | ⟨-, hr⟩
      · rw [he] at hx
        cases hx
      · rw [hr] at hx
        cases hx
        exact .inr ⟨by rw [hs]; simp, rfl⟩
  have htext : bodyText ctx = bodyText ctx' := by rw [bodyText, bodyText, hdata]
  rcases hok h with ⟨hs, rfl⟩ | ⟨hs, rfl⟩ <;> rcases hok h' with ⟨hs', rfl⟩ | ⟨hs', rfl⟩
  · rfl
  · exact absurd (hsrc.1 hs) hs'
  · exact absurd (hsrc.2 hs') hs
  · rw [htext]

/-! ## Edits of the body -/

/-- Every LF becomes CRLF. -/
def crlf (b : Bytes) : Bytes := b.flatMap fun c => if c = 10 then [13, 10] else [c]

theorem acceptedNodes_append (tok : Tokener) (a b : Bytes) :
    acceptedNodes tok (a ++ 10 :: b) = acceptedNodes tok a ++ acceptedNodes tok b := by
  simp [acceptedNodes, List.splitOn_append_cons_self]

theorem acceptedNodes_line (tok : Tokener) {l : Bytes} (h : (10 : Byte) ∉ l) :
    acceptedNodes tok l = (acceptLine tok (dropCr l)).toList := by
  rw [acceptedNodes, List.splitOn_eq_singleton h]
  cases h' : acceptLine tok (dropCr l) <;> simp [h']

theorem crlf_append (a b : Bytes) : crlf (a ++ 10 :: b) = (crlf a ++ [13]) ++ 10 :: crlf b := by simp [crlf]

theorem crlf_line {l : Bytes} (h : (10 : Byte) ∉ l) : crlf l = l := by
  induction l with
  | nil => rfl
  | cons c l ih =>
    simp only [List.mem_cons, not_or] at h
    rw [crlf, List.flatMap_cons, if_neg (Ne.symm h.1)]
    exact congrArg (c :: ·) (ih h.2)

theorem acceptedNodes_crlf (tok : Tokener) : ∀ (n : Nat) (b : Bytes), b.length ≤ n →
    acceptedNodes tok (crlf b) = acceptedNodes tok b := by
  intro n
  induction n with
  | zero =>
    intro b hb
    obtain rfl := List.eq_nil_of_length_eq_zero (Nat.le_zero.1 hb); rfl
  | succ n ih =>
    intro b hb
    rcases first_split 10 b with hno | ⟨x, y, rfl, hx⟩
    · rw [crlf_line hno]
    · -- the first line gets a CR that is dropped again
      have h13 : (10 : Byte) ∉ x ++ [13] := by simp [hx]
      rw [crlf_append, crlf_line hx, acceptedNodes_append, acceptedNodes_append, ih y (by simp at hb; omega),
        acceptedNodes_line tok h13, acceptedNodes_line tok hx, dropCr_append]

/-- The proxies of the first lines stay when further nodes follow. -/
theorem renamed_append (ns ms : List ProxyNode) : renamed ns <+: renamed (ns ++ ms) := by
  have ha := Fresh.assign_append candidate (ns.map fun n => nvl n.name) (ms.map fun n => nvl n.name) []
  rw [renamed, renamed, uniqueNames, uniqueNames, List.map_append, ha, List.zipWith_append (by simp)]
  exact List.prefix_append ..

/-- A text with an accepted line does not look like base64. -/
theorem not_looksLike_of_accepted (tok : Tokener) {b : Bytes} (h : acceptedNodes tok b ≠ []) :
    base64LooksLike b = false := by
  obtain ⟨n, hn⟩ := List.exists_mem_of_ne_nil _ h
  obtain ⟨l, hl, hacc⟩ := List.mem_filterMap.1 hn
  obtain ⟨l', hl', rfl⟩ := List.mem_map.1 hl
  -- every scheme has a colon, which is not in the alphabet
  have hc : ch ':' ∈ l' := by
    by_contra hno
    have hno' : ch ':' ∉ dropCr l' := fun hm => hno ((List.rdropWhile_prefix _ l').subset hm)
    rw [acceptLine_noColon hno'] at hacc; cases hacc
  obtain ⟨pre, post, hp⟩ := List.append_of_mem hl'
  have hb := flatMap_splitOn 10 b
  have hm : ch ':' ∈ (10 : Byte) :: b := by
    rw [← hb, hp]; simp [hc]
  refine not_looksLike_of_mem (c := ch ':') (by decide) (by decide) (by decide +kernel) ?_
  simpa [show ch ':' ≠ 10 by decide] using hm

/-- Lines that do not parse come in anywhere, or every LF becomes CRLF. -/
inductive Edited (tok : Tokener) : Bytes → Bytes → Prop
  | between (a b : Bytes) {l : Bytes} (h : acceptedNodes tok l = []) : Edited tok (a ++ 10 :: b) (a ++ 10 :: (l ++ 10 :: b))
  | before (b : Bytes) {l : Bytes} (h : acceptedNodes tok l = []) : Edited tok b (l ++ 10 :: b)
  | behind (b : Bytes) {l : Bytes} (h : acceptedNodes tok l = []) : Edited tok b (b ++ 10 :: l)
  | crlf (b : Bytes) : Edited tok b (crlf b)

theorem Edited.acceptedNodes_eq {tok : Tokener} {b b' : Bytes} (h : Edited tok b b') :
    acceptedNodes tok b' = acceptedNodes tok b := by
  cases h with
  | between a b h => rw [acceptedNodes_append, acceptedNodes_append, acceptedNodes_append, h, List.nil_append]
  | before b h => rw [acceptedNodes_append, h, List.nil_append]
  | behind b h => rw [acceptedNodes_append, h, List.append_nil]
  | crlf b => exact acceptedNodes_crlf tok b.length b le_rfl

/-! ## Plain bodies -/

/-- A text without a NUL that is not taken for base64. -/
structure ConvCtx.Plain (ctx : ConvCtx) : Prop where
  nulFree : (0 : Byte) ∉ ctx.data
  plain : base64LooksLike ctx.data = false

theorem ConvCtx.Plain.src {ctx : ConvCtx} (h : ctx.Plain) : convSrc ctx = .ok (some (ctx.data ++ [0])) := by
  rw [convSrc, h.plain, if_neg (by simp)]

/-- The run on a plain body is its reference exactly when nothing in it faults. -/
theorem matchesReference_iff (tok : Tokener) {ctx : ConvCtx} (h : ctx.Plain) (outYaml : Option CStr) :
    MatchesReference tok ctx outYaml ↔ TextSafe tok ctx.data [] := by
  have hfits := ctx.fits
  rcases convBase64Run_src tok outYaml h.src h.nulFree (by rw [List.length_append, List.length_singleton]; omega)
    with ⟨hf, e, he⟩ | ⟨hf, hr⟩
  · refine iff_of_false (fun hm => ?_) hf
    rw [MatchesReference, he] at hm; cases hm
  · exact iff_of_true hr hf

/-- A run on a plain body that returns is its reference. -/
theorem matchesReference_of_ok {tok : Tokener} {ctx : ConvCtx} (h : ctx.Plain) {outYaml : Option CStr}
    {r : Int × Option CStr} (hr : convBase64Run tok ctx outYaml = .ok r) : MatchesReference tok ctx outYaml := by
  have hfits := ctx.fits
  rcases convBase64Run_src tok outYaml h.src h.nulFree (by rw [List.length_append, List.length_singleton]; omega)
    with ⟨-, e, he⟩ | ⟨-, hok⟩
  · rw [he] at hr; cases hr
  · exact hok

/-- The run on a plain body is its reference exactly when nothing in it faults. Two bodies that differ by lines that do
not parse or by CR characters give the same result, and further lines add proxies behind the others, exactly when
nothing in either faults. -/
theorem convBase64_reference (tok : Tokener) (ctx : ConvCtx) (outYaml : Option CStr) (h : ctx.Plain) :
    (MatchesReference tok ctx outYaml ↔ TextSafe tok ctx.data []) ∧
      (∀ ctx' : ConvCtx, ctx'.Plain → Edited tok ctx.data ctx'.data →
        ((∃ r, convBase64Run tok ctx outYaml = .ok r ∧ convBase64Run tok ctx' outYaml = .ok r) ↔
          TextSafe tok ctx.data [] ∧ TextSafe tok ctx'.data [])) ∧
      (∀ (ctx' : ConvCtx) (b : Bytes), ctx'.Plain → ctx'.data = ctx.data ++ 10 :: b →
        (MatchesReference tok ctx outYaml ∧
            convBase64Run tok ctx' outYaml =
              .ok (base64Result (acceptedNodes tok ctx.data ++ acceptedNodes tok b) outYaml) ↔
          TextSafe tok ctx.data [] ∧ TextSafe tok ctx'.data []) ∧
        renamed (acceptedNodes tok ctx.data) <+: renamed (acceptedNodes tok ctx.data ++ acceptedNodes tok b)) ∧
      ∀ b, acceptedNodes tok b ≠ [] → base64LooksLike b = false := by
  refine ⟨matchesReference_iff tok h outYaml, fun ctx' h' hedit => ?_, fun ctx' b h' hdata => ?_,
    fun b => not_looksLike_of_accepted tok⟩
  · rw [← matchesReference_iff tok h outYaml, ← matchesReference_iff tok h' outYaml]
    constructor
    · rintro ⟨r, hr, hr'⟩
      exact ⟨matchesReference_of_ok h hr, matchesReference_of_ok h' hr'⟩
    · rintro ⟨hm, hm'⟩
      refine ⟨_, hm, ?_⟩
      rw [← hedit.acceptedNodes_eq]
      exact hm'
  · refine ⟨?_, renamed_append ..⟩
    have hedit : MatchesReference tok ctx' outYaml ↔ convBase64Run tok ctx' outYaml =
        .ok (base64Result (acceptedNodes tok ctx.data ++ acceptedNodes tok b) outYaml) := by
      rw [MatchesReference, hdata, acceptedNodes_append]
    rw [← matchesReference_iff tok h outYaml, ← matchesReference_iff tok h' outYaml, hedit]

/-! ## Small bodies -/

/-- A link without a name. -/
def linkBody : ConvCtx := ⟨str "vless://u@h:1", [], by decide +kernel⟩

/-- Two links without a name. -/
def twinBody : ConvCtx := ⟨str "vless://u@h:1\nvless://u@h:1", [], by decide +kernel⟩

/-- Two lines that are no links. -/
def plainBody : ConvCtx := ⟨str "ss://a\n#", [], by decide +kernel⟩

def emptyUserBody : ConvCtx := ⟨str "vless://@h:1", [], by decide +kernel⟩

theorem linkBody_run : convBase64Run .refusing linkBody none =
    .ok (0, some (base64Doc (acceptedNodes .refusing (bodyText linkBody))).yaml) := by decide +kernel

theorem twinBody_run : convBase64Run .refusing twinBody none =
    .ok (0, some (base64Doc (acceptedNodes .refusing (bodyText twinBody))).yaml) := by decide +kernel

theorem plain_plainBody : plainBody.Plain := ⟨by decide +kernel, by decide +kernel⟩

theorem convBase64_reference_plain : MatchesReference .refusing plainBody none ↔ TextSafe .refusing plainBody.data [] :=
  (convBase64_reference .refusing plainBody none plain_plainBody).1

/-- A body of one line with an empty user name: the run neither accepts nor refuses it. -/
theorem convBase64_empty_user :
    emptyUserBody.Plain ∧ convBase64Run .refusing emptyUserBody none = .error .null ∧
      ¬ MatchesReference .refusing emptyUserBody none := by
  have h : convBase64Run .refusing emptyUserBody none = .error .null := by decide +kernel
  refine ⟨⟨by decide +kernel, by decide +kernel⟩, h, fun hm => ?_⟩
  rw [MatchesReference, h] at hm
  cases hm

end SubConverter
