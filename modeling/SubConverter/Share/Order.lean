/-
The order of query parameters: with the order of the values of each key kept, the other parameters can
stand anywhere. A key is what a C string keeps of its escapes, and a line end at the end of a link without a
name is not part of the last value.
-/
import SubConverter.Coding.Alphabets
import SubConverter.Share.Encoded

namespace SubConverter

open CMem

/-! ## Segments -/

/-- A parameter as it stands in a link: nothing in it ends it, and its escapes are valid. -/
structure Segment where
  key : Bytes
  value : Bytes
  key_ne : key ≠ []
  value_ne : value ≠ []
  key_plain : ∀ c ∈ key, c ∉ str "=&#"
  value_plain : ∀ c ∈ value, c ∉ str "&#"
  key_valid : urlRc key = 0
  value_valid : urlRc value = 0

namespace Segment

/-- `key=value`. -/
def text (s : Segment) : Bytes := s.key ++ ch '=' :: s.value

/-- The key with its escapes decoded. -/
def decodedKey (s : Segment) : Bytes := (urlText s.key).1

/-- The pair `parse_query` stores. -/
def pair (s : Segment) : KvPair := ⟨CStr.ofBytes (urlText s.key).1, CStr.ofBytes (urlText s.value).1⟩

theorem plainPair (s : Segment) : PlainPair (s.key, s.value) :=
  ⟨fun h => s.key_plain _ h (by decide), fun h => s.key_plain _ h (by decide), fun h => s.value_plain _ h (by decide)⟩

/-- A key and a value, percent-encoded. -/
def ofTexts (k v : Bytes) (hk : k ≠ []) (hv : v ≠ []) : Segment where
  key := percentText k
  value := percentText v
  key_ne := mt percentText_eq_nil.1 hk
  value_ne := mt percentText_eq_nil.1 hv
  key_plain := fun c hc hm => by
    have hno : ∀ c ∈ str "=&#", isCodeChar c = false := by decide +kernel
    exact not_mem_percentText (hno c hm) k hc
  value_plain := fun c hc hm => by
    have hno : ∀ c ∈ str "&#", isCodeChar c = false := by decide +kernel
    exact not_mem_percentText (hno c hm) v hc
  key_valid := urlRc_percentText k
  value_valid := urlRc_percentText v

end Segment

/-- `key=value&key=value...`. -/
def queryOf (ss : List Segment) : Bytes := [ch '&'].intercalate (ss.map Segment.text)

/-- `scheme://main?query#name`, the last part optional. -/
def queryLink (scheme : String) (main : Bytes) (ss : List Segment) (frag : Option Bytes) : Bytes :=
  str scheme ++ (⟨main, some (queryOf ss), frag⟩ : LinkParts).join

/-- The same segments, those with equal keys in the same order. -/
def Reordered {α : Type} [DecidableEq α] (key : Segment → α) (ss ts : List Segment) : Prop :=
  ss.Perm ts ∧ ∀ k, ss.filter (fun s => key s = k) = ts.filter fun s => key s = k

theorem queryOf_eq (ss : List Segment) : queryOf ss = joinPairs (ss.map fun s => (s.key, s.value)) := by
  rw [joinPairs, List.map_map]
  rfl

theorem queryOf_cons (s s' : Segment) (ss : List Segment) :
    queryOf (s :: s' :: ss) = s.text ++ ch '&' :: queryOf (s' :: ss) := by
  simp [queryOf, List.intercalate_cons_cons]

theorem queryOf_singleton (s : Segment) : queryOf [s] = s.text := by simp [queryOf]

theorem forall_mem_segments {P : Bytes × Bytes → Prop} {ss : List Segment} (h : ∀ s ∈ ss, P (s.key, s.value)) :
    ∀ p ∈ ss.map fun s => (s.key, s.value), P p := by
  intro p hp
  obtain ⟨s, hs, rfl⟩ := List.mem_map.1 hp
  exact h s hs

theorem hash_not_mem_queryOf (ss : List Segment) : ch '#' ∉ queryOf ss := by
  rw [queryOf_eq]
  exact not_mem_joinPairs (by decide) (by decide) (forall_mem_segments fun s _ =>
    ⟨fun h => s.key_plain _ h (by decide), fun h => s.value_plain _ h (by decide)⟩)

/-! ## Reading the segments -/

theorem queryRun_queryOf (ss : List Segment) : queryRun (queryOf ss) = .ok (some (ss.map Segment.pair)) := by
  have hpairs : queryPairs (queryOf ss) = ss.map fun s => (s.key, s.value) := by
    rw [queryOf_eq]
    exact queryPairs_joinPairs (forall_mem_segments fun s _ => s.plainPair) (forall_mem_segments fun s _ => s.key_ne)
  have hvalid := decodePairs_valid (@forall_mem_segments _ ss fun s _ => ⟨s.key_valid, s.value_valid⟩)
  rw [queryRun, hpairs, if_neg, hvalid, List.map_map]
  · rfl
  rcases ss with _ | ⟨s, ss⟩
  · exact id
  · rintro ⟨-, -, h | h⟩
    · exact s.key_ne h
    · exact s.value_ne h

/-! ## Reordering -/

theorem lastValue_filter (ps : List KvPair) (key : String) :
    lastValue ps key = ((ps.filter fun kv => kv.key.is key).getLast?).map KvPair.value := by
  rw [lastValue, ← List.head?_filter, List.filter_reverse, List.head?_reverse]

/-- The last value of every key is that of the other order. -/
theorem Reordered.lastValue {ss ts : List Segment} (h : Reordered (fun s => s.pair.key) ss ts) (key : String) :
    SubConverter.lastValue (ss.map Segment.pair) key = SubConverter.lastValue (ts.map Segment.pair) key := by
  have hfilter : ss.filter (fun s => s.pair.key.is key) = ts.filter fun s => s.pair.key.is key := by
    by_cases h0 : (0 : Byte) ∈ str key
    · -- no string has these bytes
      have hno : ∀ k : CStr, k.is key = false := fun k => by
        rw [Bool.eq_false_iff, Ne, CStr.is_iff]
        exact fun hk => k.nulFree (hk ▸ h0)
      simp [hno]
    · have hkey : ∀ k : CStr, k.is key = decide (k = ⟨str key, h0⟩) := fun k => by
        rw [Bool.eq_iff_iff, CStr.is_iff, decide_eq_true_eq]
        exact ⟨fun hk => CStr.ext hk, fun hk => congrArg CStr.bytes hk⟩
      simp only [hkey]
      exact h.2 ⟨str key, h0⟩
  rw [lastValue_filter, lastValue_filter, List.filter_map, List.filter_map]
  exact congrArg (fun l : List Segment => ((l.map Segment.pair).getLast?).map KvPair.value) hfilter

/-- The parameters of a link are only read through the last value of each key. -/
theorem applyQuery_congr {ps qs : List KvPair} (h : ∀ key, lastValue ps key = lastValue qs key) (n : ProxyNode) :
    applyQuery ps n = applyQuery qs n := by
  rw [applyQuery_eq, applyQuery_eq]
  simp only [h]

/-- Two links that differ in their queries only, with the same last values. -/
theorem vlessLink_congr {m : Bytes} {q q' : Bytes} {frag : Option Bytes} {ps qs : List KvPair}
    (hq : queryRun q = .ok (some ps)) (hq' : queryRun q' = .ok (some qs))
    (h : ∀ key, lastValue ps key = lastValue qs key) (type : NodeType) (n : ProxyNode) :
    vlessLink type ⟨m, some q, frag⟩ n = vlessLink type ⟨m, some q', frag⟩ n := by
  have htail : ∀ (server : CStr) (n : ProxyNode), tailRun ⟨m, some q, frag⟩ applyQuery server n =
      tailRun ⟨m, some q', frag⟩ applyQuery server n := by
    intro server n
    unfold tailRun
    simp only [hq, hq', ok_bind, applyQuery_congr h]
  unfold vlessLink userLink
  simp only [htail]

/-! ## Links with a query -/

/-- A `?` is not base64. -/
theorem parseVmessJson_query (tok : Tokener) {b : Bytes} (h : ch '?' ∈ b) (n : ProxyNode) :
    parseVmessJson tok b b.length n = .ok none := by
  have hrc : (base64Decode b .init).1 ≠ 0 :=
    b64DecodeCore_refuses alphabet_std h (by decide) (by decide) (by decide +kernel) .init
  unfold parseVmessJson
  rw [slice_self, ok_bind]
  exact if_pos hrc

theorem trimLine_append_cons (x : Bytes) {c : Byte} (hc : c ≠ 10 ∧ c ≠ 13) (f : Bytes) :
    trimLine (x ++ c :: f) = x ++ c :: trimLine f := by
  induction f using List.reverseRecOn with
  | nil => exact List.rdropWhile_concat_neg _ _ _ (by simpa using hc)
  | append_singleton f d ih =>
    rw [← List.cons_append, ← List.append_assoc]
    by_cases hd : d = 10 ∨ d = 13
    · -- the last byte is cut off on both sides
      rw [trimLine, List.rdropWhile_concat_pos _ _ _ (by simpa using hd), trimLine,
        List.rdropWhile_concat_pos _ _ _ (by simpa using hd)]
      exact ih
    · rw [trimLine, List.rdropWhile_concat_neg _ _ _ (by simpa using hd), trimLine,
        List.rdropWhile_concat_neg _ _ _ (by simpa using hd), List.append_assoc, List.cons_append]

/-- A query ends with the value of its last segment. -/
theorem queryOf_end : ∀ {ss : List Segment}, ss ≠ [] → ∃ s ∈ ss.getLast?, ∃ x, queryOf ss = x ++ s.value
  | [s], _ => ⟨s, rfl, s.key ++ [ch '='], by simp [queryOf_singleton, Segment.text]⟩
  | s :: s' :: ss, _ => by
    obtain ⟨s'', hs, x, hx⟩ := @queryOf_end (s' :: ss) (by simp)
    exact ⟨s'', by rwa [List.getLast?_cons_cons], s.text ++ ch '&' :: x, by rw [queryOf_cons, hx]; simp⟩

/-- The last value has no line end at its end. -/
def NoLineEnd (ss : List Segment) : Prop := ∀ s ∈ ss.getLast?, ∀ c ∈ s.value.getLast?, c ≠ 10 ∧ c ≠ 13

instance : DecidablePred NoLineEnd := fun ss =>
  inferInstanceAs (Decidable (∀ s ∈ ss.getLast?, ∀ c ∈ s.value.getLast?, c ≠ 10 ∧ c ≠ 13))

/-- Line ends behind a text are cut off. -/
theorem trimLine_append_ends (x : Bytes) {e : Bytes} (he : ∀ c ∈ e, c = 10 ∨ c = 13) :
    trimLine (x ++ e) = trimLine x := by
  induction e using List.reverseRecOn with
  | nil => rw [List.append_nil]
  | append_singleton e c ih =>
    have hc := he c (by simp)
    rw [← List.append_assoc, trimLine, List.rdropWhile_concat_pos _ _ _ (by simpa using hc)]
    exact ih fun d hd => he d (List.mem_append_left _ hd)

theorem trimLine_queryLink (scheme : String) (main : Bytes) {ss : List Segment} {frag : Option Bytes}
    (hend : frag = none → NoLineEnd ss) :
    trimLine (queryLink scheme main ss frag) = queryLink scheme main ss (frag.map trimLine) := by
  rcases frag with _ | f
  · have hlink : queryLink scheme main ss none = str scheme ++ main ++ ch '?' :: queryOf ss := by
      simp [queryLink, LinkParts.join, LinkParts.queryPart, LinkParts.fragPart]
    rw [Option.map_none, hlink]
    by_cases hss : ss = []
    · subst hss
      exact trimLine_append_cons _ (by decide) []
    · obtain ⟨s, hs, x, hx⟩ := queryOf_end hss
      obtain ⟨v, c, hv⟩ := List.eq_nil_or_concat s.value |>.resolve_left s.value_ne
      have hc := hend rfl s hs c (by rw [hv]; simp)
      rw [hx, hv, List.concat_eq_append, ← List.append_assoc, ← List.cons_append, ← List.append_assoc]
      exact trimLine_append_cons _ hc []
  · have hlink : ∀ f, queryLink scheme main ss (some f) = str scheme ++ main ++ ch '?' :: queryOf ss ++ ch '#' :: f := by
      intro f
      simp [queryLink, LinkParts.join, LinkParts.queryPart, LinkParts.fragPart]
    rw [Option.map_some, hlink, hlink, trimLine_append_cons _ (by decide)]

/-- What `node_parse_share` does on a link with a query, with any line ends behind it. -/
theorem nodeParseShare_queryLink (σ : Arith) (tok : Tokener) {type : NodeType} {scheme : String}
    (hs : (type, scheme) ∈ userSchemes) {main : Bytes} (hhash : ch '#' ∉ main) (hquest : ch '?' ∉ main)
    {ss : List Segment} {frag : Option Bytes} (hend : frag = none → NoLineEnd ss) {e : Bytes}
    (he : ∀ c ∈ e, c = 10 ∨ c = 13) (t : Bytes) :
    nodeParseShare σ tok (queryLink scheme main ss frag ++ e ++ t) (queryLink scheme main ss frag ++ e).length =
      shareResult <$> if type = .vmess ∧ ch '@' ∉ main ++ ch '?' :: queryOf ss then .ok none
        else Option.map (withCipher type) <$> vlessLink type ⟨main, some (queryOf ss), frag.map trimLine⟩ nodeInit := by
  have hp : (⟨main, some (queryOf ss), frag.map trimLine⟩ : LinkParts).WF := by
    refine ⟨?_, hquest⟩
    simp only [LinkParts.queryPart, List.mem_append, List.mem_cons, not_or]
    exact ⟨hhash, by decide, hash_not_mem_queryOf ss⟩
  have htrim : trimLine (queryLink scheme main ss frag ++ e) = queryLink scheme main ss (frag.map trimLine) := by
    rw [trimLine_append_ends _ he, trimLine_queryLink scheme main hend]
  rw [nodeParseShare_eq σ tok _ t (by rw [htrim]; exact strayLink_join hs hp (.inr (.inr rfl))), htrim, linkRun_form,
    queryLink]
  congr 1
  rcases linkForm_scheme hs hp with ⟨hjson, hform⟩ | ⟨huser, hform⟩
  · rw [hform, if_pos (show type = .vmess ∧ ch '@' ∉ main ++ ch '?' :: queryOf ss from hjson)]
    exact parseVmessJson_query tok (List.mem_append_right _ (List.mem_cons_self ..)) nodeInit
  · rw [hform, if_neg (show ¬ (type = .vmess ∧ ch '@' ∉ main ++ ch '?' :: queryOf ss) from huser)]
    rfl

/-- Segments leave no part of a link null. -/
theorem nullVless_queryOf {main : Bytes} {ss : List Segment} {frag : Option Bytes} :
    NullVless ⟨main, some (queryOf ss), frag⟩ ↔ NullVless ⟨main, none, frag⟩ := by
  have hquery := queryRun_queryOf ss
  have hfirst : ¬ emptyFirstPair (queryPairs (queryOf ss)) := fun h => by
    rw [queryRun, if_pos h] at hquery
    cases hquery
  rw [queryRun, if_neg hfirst, Except.ok.injEq] at hquery
  simp [NullVless, NullUser, NullTail, hfirst, hquery]

theorem Reordered.queryOf_mem {ss ts : List Segment} (h : ss.Perm ts) {c : Byte} (hc : c ≠ ch '&') :
    c ∈ queryOf ss ↔ c ∈ queryOf ts := by
  have hmem : ∀ us : List Segment, c ∈ queryOf us ↔ ∃ s ∈ us, c ∈ s.text := by
    intro us
    induction us with
    | nil => simp [queryOf]
    | cons s us ih =>
      rcases us with _ | ⟨s', us⟩
      · simp [queryOf_singleton]
      · rw [queryOf_cons, List.mem_append, List.mem_cons, or_iff_right hc, ih]
        simp
  rw [hmem, hmem]
  simp only [h.mem_iff]

/-- The order of the parameters of a link without null parts does not matter as long as the segments of one key keep
theirs. -/
theorem parse_reordered (σ : Arith) (tok : Tokener) {type : NodeType} {scheme : String}
    (hs : (type, scheme) ∈ userSchemes) {main : Bytes} (hhash : ch '#' ∉ main) (hquest : ch '?' ∉ main)
    {ss ts : List Segment} (h : Reordered (fun s => s.pair.key) ss ts) {frag : Option Bytes}
    (hnull : ¬ NullVless ⟨main, none, frag.map trimLine⟩) (hend : frag = none → NoLineEnd ss ∧ NoLineEnd ts)
    {e : Bytes} (he : ∀ c ∈ e, c = 10 ∨ c = 13) (t : Bytes) :
    ∃ r,
      nodeParseShare σ tok (queryLink scheme main ss frag ++ e ++ t) (queryLink scheme main ss frag ++ e).length =
        .ok r ∧
      nodeParseShare σ tok (queryLink scheme main ts frag ++ e ++ t) (queryLink scheme main ts frag ++ e).length =
        .ok r := by
  have hat : ch '@' ∈ main ++ ch '?' :: queryOf ss ↔ ch '@' ∈ main ++ ch '?' :: queryOf ts := by
    simp only [List.mem_append, List.mem_cons, Reordered.queryOf_mem h.1 (by decide : ch '@' ≠ ch '&')]
  -- the two runs differ in their pairs only, and these agree on the last value of every key
  rw [nodeParseShare_queryLink σ tok hs hhash hquest (fun hf => (hend hf).1) he,
    nodeParseShare_queryLink σ tok hs hhash hquest (fun hf => (hend hf).2) he,
    vlessLink_congr (queryRun_queryOf ss) (queryRun_queryOf ts) h.lastValue]
  simp only [hat, and_self]
  split
  · exact ⟨_, rfl⟩
  · cases hrun : vlessLink type ⟨main, some (queryOf ts), frag.map trimLine⟩ nodeInit with
    | error e => exact absurd (nullVless_queryOf.1 (vlessLink_error_iff.1 hrun).2) hnull
    | ok r => exact ⟨_, rfl⟩

/-- Two parameters with different keys can change places. -/
theorem reordered_swap {α : Type} [DecidableEq α] {key : Segment → α} {s s' : Segment} (h : key s ≠ key s') :
    Reordered key [s, s'] [s', s] := by
  refine ⟨.swap s' s [], fun k => ?_⟩
  by_cases hs : key s = k
  · have hs' : key s' ≠ k := fun hk => h (hs.trans hk.symm)
    simp [hs, hs']
  · simp [List.filter_cons, hs]

/-- `type=ws`, `type%00x=grpc`, `sni=y`, and `path=x` with a line end behind it. -/
def wsType : Segment := .ofTexts (str "type") (str "ws") (by decide) (by decide)
def nulType : Segment := .ofTexts (str "type" ++ 0 :: str "x") (str "grpc") (by decide) (by decide)
def sniParam : Segment := .ofTexts (str "sni") (str "y") (by decide) (by decide)
def pathLine : Segment := ⟨str "path", str "x\n", by decide, by decide, by decide +kernel, by decide +kernel, rfl, rfl⟩

theorem parse_reordered_pair : ∃ r,
    nodeParseShare .machine .refusing (queryLink "vless://" (str "u@h:1") [wsType, sniParam] none ++ str "\r" ++ [])
        (queryLink "vless://" (str "u@h:1") [wsType, sniParam] none ++ str "\r").length = .ok r ∧
      nodeParseShare .machine .refusing (queryLink "vless://" (str "u@h:1") [sniParam, wsType] none ++ str "\r" ++ [])
        (queryLink "vless://" (str "u@h:1") [sniParam, wsType] none ++ str "\r").length = .ok r := by
  have hok : vlessLink .vless ⟨str "u@h:1", none, none⟩ nodeInit ≠ .error .null := by decide +kernel
  exact parse_reordered .machine .refusing (show (NodeType.vless, "vless://") ∈ userSchemes by simp [userSchemes])
    (by decide) (by decide) (reordered_swap (by decide +kernel)) (fun h => hok (vlessLink_error_iff.2 ⟨rfl, h⟩))
    (fun _ => by decide +kernel) (by decide +kernel) []

/-- Parameters that change places and change the node: keys that differ behind a NUL only, and a line end that
is cut off the last value. -/
theorem reordered_differs :
    (Reordered Segment.decodedKey [wsType, nulType] [nulType, wsType] ∧
      nodeParseShare .machine .refusing (queryLink "vless://" (str "u@h:1") [wsType, nulType] (some (str "n")))
          (queryLink "vless://" (str "u@h:1") [wsType, nulType] (some (str "n"))).length ≠
        nodeParseShare .machine .refusing (queryLink "vless://" (str "u@h:1") [nulType, wsType] (some (str "n")))
          (queryLink "vless://" (str "u@h:1") [nulType, wsType] (some (str "n"))).length) ∧
    (Reordered Segment.decodedKey [pathLine, sniParam] [sniParam, pathLine] ∧
      nodeParseShare .machine .refusing (queryLink "vless://" (str "u@h:1") [pathLine, sniParam] none)
          (queryLink "vless://" (str "u@h:1") [pathLine, sniParam] none).length ≠
        nodeParseShare .machine .refusing (queryLink "vless://" (str "u@h:1") [sniParam, pathLine] none)
          (queryLink "vless://" (str "u@h:1") [sniParam, pathLine] none).length) := by
  refine ⟨⟨reordered_swap ?_, ?_⟩, reordered_swap ?_, ?_⟩
  · decide +kernel
  · decide +kernel
  · decide +kernel
  · decide +kernel

end SubConverter
