/-
Links written from a node's data: every text percent-encoded, a host with its port, a query and a
name. `node_parse_share` reads back what was written.
-/
import SubConverter.Coding.Percent
import SubConverter.Share.Accepted

namespace SubConverter

open CMem

/-! ## Links from their parts -/

theorem splitLink_join {p : LinkParts} (hp : p.WF) : splitLink p.join = p := by
  obtain ⟨m, q, f⟩ := p
  obtain ⟨hhash, hquest⟩ := hp
  have hq : ∀ f, splitQuery (m ++ (⟨m, q, f⟩ : LinkParts).queryPart) f = ⟨m, q, f⟩ := by
    intro f
    unfold splitQuery
    rcases q with _ | q
    · rw [show m ++ (⟨m, none, f⟩ : LinkParts).queryPart = m from List.append_nil m, cut_none hquest]
    · rw [show m ++ (⟨m, some q, f⟩ : LinkParts).queryPart = m ++ ch '?' :: q from rfl, cut_append hquest]
  unfold splitLink
  rcases f with _ | f
  · rw [show (⟨m, q, none⟩ : LinkParts).join = m ++ (⟨m, q, none⟩ : LinkParts).queryPart by
      simp [LinkParts.join, LinkParts.fragPart], cut_none hhash]
    exact hq none
  · rw [show (⟨m, q, some f⟩ : LinkParts).join = m ++ (⟨m, q, some f⟩ : LinkParts).queryPart ++ ch '#' :: f by
      simp [LinkParts.join, LinkParts.fragPart], cut_append hhash]
    exact hq (some f)

/-- The schemes of links `user@host:port`. -/
def userSchemes : List (NodeType × String) := [(.vless, "vless://"), (.trojan, "trojan://"), (.vmess, "vmess://")]

theorem stripScheme_other (r : Bytes) : stripScheme "vless://" (str "trojan://" ++ r) = none ∧
    stripScheme "vless://" (str "vmess://" ++ r) = none ∧ stripScheme "trojan://" (str "vmess://" ++ r) = none := by
  refine ⟨rfl, rfl, rfl⟩

/-- A link of a scheme with `@` is of that form, except for a vmess link that has none. -/
theorem linkForm_scheme {type : NodeType} {scheme : String} (hs : (type, scheme) ∈ userSchemes) {p : LinkParts}
    (hp : p.WF) :
    ((type = .vmess ∧ ch '@' ∉ p.main ++ p.queryPart) ∧ linkForm (str scheme ++ p.join) = some (.json (p.main ++ p.queryPart))) ∨
      (¬ (type = .vmess ∧ ch '@' ∉ p.main ++ p.queryPart) ∧ linkForm (str scheme ++ p.join) = some (.user type p)) := by
  obtain ⟨h1, h2, h3⟩ := stripScheme_other p.join
  simp only [userSchemes, List.mem_cons, Prod.mk.injEq, List.not_mem_nil, or_false] at hs
  unfold linkForm vlessBody
  rcases hs with ⟨rfl, rfl⟩ | ⟨rfl, rfl⟩ | ⟨rfl, rfl⟩
  · simp [stripScheme_append, splitLink_join hp]
  · simp [h1, stripScheme_append, splitLink_join hp]
  · by_cases hat : ch '@' ∈ p.main ++ p.queryPart
    · simp [h2, h3, stripScheme_append, splitLink_join hp, hat]
    · simp [h2, h3, stripScheme_append, splitLink_join hp, hat]

theorem linkForm_join {type : NodeType} {scheme : String} (hs : (type, scheme) ∈ userSchemes) {p : LinkParts}
    (hp : p.WF) (hat : ch '@' ∈ p.main) : linkForm (str scheme ++ p.join) = some (.user type p) := by
  rcases linkForm_scheme hs hp with ⟨⟨-, hno⟩, -⟩ | ⟨-, hform⟩
  · exact absurd (List.mem_append_left _ hat) hno
  · exact hform

/-- No stray `@` stands in a vmess link, behind another `@` or behind a query. -/
theorem strayLink_join {type : NodeType} {scheme : String} (hs : (type, scheme) ∈ userSchemes) {p : LinkParts}
    (hp : p.WF) (h : type = .vmess ∨ ch '@' ∈ p.main ∨ p.query.isSome = true) :
    strayLink (str scheme ++ p.join) = none := by
  obtain ⟨h1, h2, h3⟩ := stripScheme_other p.join
  simp only [userSchemes, List.mem_cons, Prod.mk.injEq, List.not_mem_nil, or_false] at hs
  unfold strayLink vlessBody
  rcases hs with ⟨rfl, rfl⟩ | ⟨rfl, rfl⟩ | ⟨rfl, rfl⟩
  · simp [stripScheme_append, splitLink_join hp, strayAt, h.resolve_left (by decide)]
  · simp [h1, stripScheme_append, splitLink_join hp, strayAt, h.resolve_left (by decide)]
  · simp [h2, h3]

/-- A line that does not end in a line end keeps all its bytes. -/
theorem trimLine_append_text (x : Bytes) {y : Bytes} (hy : y ≠ []) (hend : ∀ c ∈ y, c ≠ 10 ∧ c ≠ 13) :
    trimLine (x ++ y) = x ++ y := by
  obtain ⟨z, c, rfl⟩ := List.eq_nil_or_concat y |>.resolve_left hy
  obtain ⟨h10, h13⟩ := hend c (by simp)
  rw [List.concat_eq_append, ← List.append_assoc, trimLine, List.rdropWhile_concat_neg]
  simp [h10, h13]

/-- A link `u@h` whose parts are accepted. -/
theorem nodeParseShare_user (σ : Arith) (tok : Tokener) {type : NodeType} {scheme : String}
    (hs : (type, scheme) ∈ userSchemes) {p : LinkParts} (hp : p.WF) {u h : Bytes} (hu : ch '@' ∉ u)
    (hm : p.main = u ++ ch '@' :: h) (htrim : trimLine (str scheme ++ p.join) = str scheme ++ p.join) (hrc : urlRc u = 0)
    (hne : ¬ NullUser p u h) {host : CStr} {port : Int} (hhp : hostPort h = some (host, port)) {pairs : List KvPair}
    (hq : linkPairs p = some pairs) (t : Bytes) :
    nodeParseShare σ tok (str scheme ++ p.join ++ t) (str scheme ++ p.join).length =
      .ok (0, withCipher type (userNode type (CStr.ofBytes (urlText u).1) host port p.frag pairs)) := by
  have hat : ch '@' ∈ p.main := by rw [hm]; simp
  rw [nodeParseShare_eq σ tok _ t (by rw [htrim]; exact strayLink_join hs hp (.inr (.inl hat))), htrim, linkRun_form,
    linkForm_join hs hp hat]
  have hrun := (@vlessLink_some type p _).2 ⟨u, h, by rw [hm, cut_append hu], ⟨hne, hrc⟩, host, port, pairs,
    hhp, hq, rfl⟩
  simp only [formRun, hrun]
  rfl

/-- What an accepted link `u@h` gives. -/
theorem nodeParseShare_user_some {σ : Arith} {tok : Tokener} {type : NodeType} {scheme : String}
    (hs : (type, scheme) ∈ userSchemes) {p : LinkParts} (hp : p.WF) (hat : ch '@' ∈ p.main)
    (htrim : trimLine (str scheme ++ p.join) = str scheme ++ p.join) {t : Bytes} {n : ProxyNode}
    (hn : nodeParseShare σ tok (str scheme ++ p.join ++ t) (str scheme ++ p.join).length = .ok (0, n)) :
    ∃ u h cred host port pairs, p.main = u ++ ch '@' :: h ∧ ch '@' ∉ u ∧ hostPort h = some (host, port) ∧
      n = withCipher type (userNode type cred host port p.frag pairs) := by
  rw [nodeParseShare_eq σ tok _ t (by rw [htrim]; exact strayLink_join hs hp (.inr (.inl hat))), htrim, linkRun_form,
    linkForm_join hs hp hat] at hn
  simp only [formRun] at hn
  rcases hr : vlessLink type p nodeInit with e | _ | m
  · rw [hr] at hn
    cases hn
  · rw [hr] at hn
    cases hn
  · rw [hr] at hn
    cases hn
    obtain ⟨u, h, hcut, -, host, port, pairs, hhp, -, rfl⟩ := vlessLink_some.1 hr
    obtain ⟨hm, hu⟩ := cut_some hcut
    exact ⟨u, h, _, host, port, pairs, hm, hu, hhp, rfl⟩

/-- What a link begins with and is free of `#` and `?` stays in its main part. -/
theorem prefix_main {x : Bytes} (h1 : ch '#' ∉ x) (h2 : ch '?' ∉ x) (r : Bytes) : x <+: (splitLink (x ++ r)).main := by
  obtain ⟨hj, -⟩ := splitLink_spec (x ++ r)
  generalize splitLink (x ++ r) = p at hj ⊢
  obtain ⟨m, q, f⟩ := p
  rw [LinkParts.join] at hj
  rcases List.append_eq_append_iff.1 hj with ⟨y, rfl, hrest⟩ | ⟨y, hy, -⟩
  · -- the main part ends before `x` does, at a delimiter in `x`
    rcases y with _ | ⟨c, y⟩
    · rw [List.append_nil]
    · have hc : c ∈ m ++ c :: y := by simp
      rcases q with _ | q
      · rcases f with _ | f
        · cases hrest
        · cases hrest
          exact absurd hc h1
      · obtain ⟨rfl, -⟩ := List.cons.inj hrest
        exact absurd hc h2
  · exact ⟨y, hy.symm⟩

/-! ## Host and port -/

/-- How a host is written in a link. -/
inductive HostForm
  | bare | bracket

namespace HostForm

/-- The characters a host may not have. -/
def excluded : HostForm → String
  | bare => "#?@:[]"
  | bracket => "#?@]"

def text (f : HostForm) (host : CStr) (port : Nat) : Bytes :=
  match f with
  | bare => host.bytes ++ ch ':' :: decimal port
  | bracket => ch '[' :: (host.bytes ++ ch ']' :: ch ':' :: decimal port)

/-- The host can be written in this form. -/
structure Fits (f : HostForm) (host : CStr) : Prop where
  nonempty : host.bytes ≠ []
  plain : ∀ c ∈ host.bytes, c ∉ str f.excluded

/-- The host is found again where it is written in this form. -/
def Holds (f : HostForm) (host : CStr) : Prop :=
  ch '#' ∉ host.bytes ∧ ch '?' ∉ host.bytes ∧ match f with
    | bare => host.bytes.head? ≠ some (ch '[')
    | bracket => ch ']' ∉ host.bytes

theorem Fits.holds {f : HostForm} {host : CStr} (h : f.Fits host) : f.Holds host := by
  have hno : ∀ c, c ∈ str f.excluded → c ∉ host.bytes := fun c hc hm => h.plain c hm hc
  cases f with
  | bare => exact ⟨hno _ (by decide), hno _ (by decide), fun hh => hno _ (by decide) (List.mem_of_head? hh)⟩
  | bracket => exact ⟨hno _ (by decide), hno _ (by decide), hno _ (by decide)⟩

end HostForm

theorem not_mem_decimal {c : Byte} (hc : c.toNat < 48 ∨ 57 < c.toNat) (n : Nat) : c ∉ decimal n := by
  intro h
  have := decimal_digit h
  omega

theorem length_decimal_lt {n : Nat} (h : n ≤ 65535) : (decimal n).length < 16 := by
  have : (decimal n).length ≤ 5 := by
    unfold decimal
    rw [List.length_map, Nat.length_toDigits_le_iff (by decide) (by decide)]
    omega
  omega

theorem intText_decimal (n : Nat) : intText (CStr.ofBytes (decimal n)).bytes = some n := by
  have h0 : (0 : Byte) ∉ decimal n := not_mem_decimal (.inl (by decide)) n
  rw [CStr.ofBytes_bytes h0, intText_digits (decimal_ne_nil n), decValue_decimal]
  intro c hc
  have := decimal_digit hc
  simp only [isDigit, Bool.and_eq_true, decide_eq_true_eq, UInt8.le_iff_toNat_le]
  exact this

theorem hostSegs_bracket {b x p : Bytes} : hostSegs (ch '[' :: b) = some (x, p) ↔
    b = x ++ ch ']' :: ch ':' :: p ∧ ch ']' ∉ x := by
  rw [hostSegs, List.head?_cons, if_pos rfl, List.tail_cons]
  constructor
  · intro h
    rcases hcut : cut (ch ']') b with _ | ⟨host, _ | ⟨d, port⟩⟩
    · rw [hcut] at h; cases h
    · rw [hcut] at h; cases h
    · rw [hcut] at h
      simp only [Option.ite_none_right_eq_some] at h
      obtain ⟨rfl, h⟩ := h
      cases h
      exact cut_some hcut
  · rintro ⟨rfl, hx⟩
    simp only [cut_append hx, if_true]

theorem hostSegs_text {f : HostForm} {host : CStr} (hf : f.Holds host) (port : Nat) :
    hostSegs (f.text host port) = some (host.bytes, decimal port) := by
  cases f with
  | bare =>
    have hcol : ch ':' ∉ decimal port := not_mem_decimal (.inr (by decide)) port
    have hhead : (host.bytes ++ ch ':' :: decimal port).head? ≠ some (ch '[') := by
      rw [List.head?_append]
      rcases hh : host.bytes.head? with _ | a
      · rw [Option.none_or, List.head?_cons]
        decide
      · rw [← hh, Option.or_of_isSome (by rw [hh]; rfl)]
        exact hf.2.2
    rw [hostSegs, HostForm.text, if_neg hhead, cutLast_append hcol]
  | bracket => exact hostSegs_bracket.2 ⟨rfl, hf.2.2⟩

/-- `parse_host_port` reads a host and a port in either form. -/
theorem hostPort_text {f : HostForm} {host : CStr} (hf : f.Holds host) (hne : host.bytes ≠ []) {port : Nat}
    (h1 : 1 ≤ port) (h2 : port ≤ 65535) : hostPort (f.text host port) = some (host, (port : Int)) := by
  refine hostPort_some.2 ⟨host.bytes, decimal port, hostSegs_text hf port, hne, length_decimal_lt h2, ?_,
    intText_decimal port, by omega, by omega⟩
  rw [CStr.ofBytes_self]

/-- A `host:port` text has the delimiters of a link only where its host has them. -/
theorem mem_hostText {f : HostForm} {host : CStr} {port : Nat} {c : Byte} (hc : c ∈ str "#?") :
    c ∈ f.text host port ↔ c ∈ host.bytes := by
  have hdel : c = ch '#' ∨ c = ch '?' := by simpa [str] using hc
  have hport : c ∉ decimal port := by
    rcases hdel with rfl | rfl
    · exact not_mem_decimal (.inl (by decide)) port
    · exact not_mem_decimal (.inr (by decide)) port
  have hb : c ≠ ch ':' ∧ c ≠ ch '[' ∧ c ≠ ch ']' := by
    rcases hdel with rfl | rfl <;> decide
  cases f <;> simp [HostForm.text, hport, hb]

/-- The host of a `host:port` text is cut out of it. -/
theorem hostSegs_mem {b x p : Bytes} (h : hostSegs b = some (x, p)) : ∀ c ∈ x, c ∈ b := by
  intro c hc
  by_cases hb : b.head? = some (ch '[')
  · obtain ⟨r, rfl⟩ := List.head?_eq_some_iff.1 hb
    rw [(hostSegs_bracket.1 h).1]
    simp [hc]
  · rw [hostSegs, if_neg hb] at h
    rcases last_split (ch ':') b with hno | ⟨y, q, rfl, hq⟩
    · rw [cutLast_none hno] at h
      cases h
    · rw [cutLast_append hq] at h
      cases h
      simp [hc]

/-- A host that does not hold is cut short at a bracket of its own. -/
theorem hostSegs_short {f : HostForm} {host : CStr} (hh : ch '#' ∉ host.bytes) (hq : ch '?' ∉ host.bytes)
    (hf : ¬ f.Holds host) {port : Nat} {x p : Bytes} (hs : hostSegs (f.text host port) = some (x, p)) :
    x.length < host.bytes.length := by
  simp only [HostForm.Holds, hh, hq, not_false_eq_true, true_and] at hf
  cases f with
  | bare =>
    obtain ⟨a, ha⟩ := List.head?_eq_some_iff.1 (not_not.1 hf)
    rw [HostForm.text, ha, List.cons_append] at hs
    obtain ⟨heq, -⟩ := hostSegs_bracket.1 hs
    rw [ha, List.length_cons]
    rcases List.append_eq_append_iff.1 heq with ⟨r, -, hr⟩ | ⟨r, rfl, -⟩
    · -- the port has no bracket
      have hmem : ch ']' ∈ ch ':' :: decimal port := by rw [hr]; simp
      simp only [List.mem_cons] at hmem
      exact absurd (hmem.resolve_left (by decide)) (not_mem_decimal (.inr (by decide)) port)
    · rw [List.length_append]
      omega
  | bracket =>
    obtain ⟨heq, hx⟩ := hostSegs_bracket.1 hs
    have hmem : ch ']' ∈ host.bytes := not_not.1 hf
    rcases List.append_eq_append_iff.1 heq with ⟨r, rfl, -⟩ | ⟨r, hr, -⟩
    · exact absurd (List.mem_append_left r hmem) hx
    · rw [hr, List.mem_append, or_iff_right hx] at hmem
      have := List.length_pos_of_mem hmem
      rw [hr, List.length_append]
      omega

/-- The host is only read back where it holds. -/
theorem hostPort_holds {f : HostForm} {host : CStr} (hh : ch '#' ∉ host.bytes) (hq : ch '?' ∉ host.bytes) {port : Nat}
    {i : Int} (h : hostPort (f.text host port) = some (host, i)) : f.Holds host := by
  by_contra hf
  obtain ⟨x, p, hs, -, -, hx, -⟩ := hostPort_some.1 h
  have hshort := hostSegs_short hh hq hf hs
  have hle : host.bytes.length ≤ x.length := by
    rw [hx]
    exact (List.takeWhile_sublist _).length_le
  omega

theorem HostForm.Holds.text_clean {f : HostForm} {host : CStr} (h : f.Holds host) (port : Nat) :
    ch '#' ∉ f.text host port ∧ ch '?' ∉ f.text host port :=
  ⟨mt (mem_hostText (by decide)).1 h.1, mt (mem_hostText (by decide)).1 h.2.1⟩

/-! ## Query -/

/-- The code of a text. -/
def encoded (s : CStr) : Bytes := (urlEncode s.bytes .init).bytes

theorem encoded_eq (s : CStr) : encoded s = percentText s.bytes := by
  rw [encoded, urlEncode_eq, Strbuf.bytes_push]
  rfl

theorem ofBytes_encoded (s : CStr) : CStr.ofBytes (urlText (encoded s)).1 = s := by
  rw [encoded_eq, urlText_percentText, CStr.ofBytes_self]

theorem urlRc_encoded (s : CStr) : urlRc (encoded s) = 0 := by
  rw [encoded_eq, urlRc_percentText]

theorem encoded_ne_nil {s : CStr} (h : s.bytes ≠ []) : encoded s ≠ [] := by
  rw [encoded_eq]
  exact mt percentText_eq_nil.1 h

theorem not_mem_encoded {c : Byte} (hc : isCodeChar c = false) (s : CStr) : c ∉ encoded s := by
  rw [encoded_eq]
  exact not_mem_percentText hc s.bytes

theorem trimLine_append_encoded (x : Bytes) {s : CStr} (hne : encoded s ≠ []) :
    trimLine (x ++ encoded s) = x ++ encoded s := by
  refine trimLine_append_text x hne fun c hc => ⟨?_, ?_⟩
  · rintro rfl
    exact not_mem_encoded (by decide) s hc
  · rintro rfl
    exact not_mem_encoded (by decide) s hc

def encodedPair (kv : KvPair) : Bytes := encoded kv.key ++ ch '=' :: encoded kv.value

/-- `k=v&k=v...`. -/
def encodedQuery (ps : List KvPair) : Bytes := [ch '&'].intercalate (ps.map encodedPair)

/-- The codes of the pairs. -/
def encodedPairs (ps : List KvPair) : List (Bytes × Bytes) := ps.map fun kv => (encoded kv.key, encoded kv.value)

theorem encodedQuery_eq (ps : List KvPair) : encodedQuery ps = joinPairs (encodedPairs ps) := by
  rw [joinPairs, encodedPairs, List.map_map]
  rfl

theorem forall_mem_encodedPairs {P : Bytes × Bytes → Prop} {ps : List KvPair}
    (h : ∀ kv ∈ ps, P (encoded kv.key, encoded kv.value)) : ∀ p ∈ encodedPairs ps, P p := by
  intro p hp
  obtain ⟨kv, hkv, rfl⟩ := List.mem_map.1 hp
  exact h kv hkv

theorem not_mem_encodedQuery {c : Byte} (hc : isCodeChar c = false) (he : c ≠ ch '=')
    (ha : c ≠ ch '&') (ps : List KvPair) : c ∉ encodedQuery ps := by
  rw [encodedQuery_eq]
  exact not_mem_joinPairs ha he
    (forall_mem_encodedPairs fun kv _ => ⟨not_mem_encoded hc kv.key, not_mem_encoded hc kv.value⟩)

theorem queryPairs_encoded {ps : List KvPair} (hps : ∀ kv ∈ ps, kv.key.bytes ≠ [] ∧ kv.value.bytes ≠ []) :
    queryPairs (encodedQuery ps) = encodedPairs ps := by
  rw [encodedQuery_eq]
  refine queryPairs_joinPairs (forall_mem_encodedPairs fun kv _ => ?_)
    (forall_mem_encodedPairs fun kv hkv => encoded_ne_nil (hps kv hkv).1)
  exact ⟨not_mem_encoded (by decide) kv.key, not_mem_encoded (by decide) kv.key, not_mem_encoded (by decide) kv.value⟩

theorem decodePairs_encoded (ps : List KvPair) : decodePairs (encodedPairs ps) = some ps := by
  rw [decodePairs_valid (forall_mem_encodedPairs fun kv _ => ⟨urlRc_encoded kv.key, urlRc_encoded kv.value⟩),
    encodedPairs, List.map_map]
  simp [Function.comp_def, ofBytes_encoded]

/-! ## Links -/

/-- The texts of a link `user@host:port`; `query` is `none` without a `?`. -/
structure LinkTexts where
  cred : CStr
  query : Option (List KvPair)
  name : CStr
  cred_ne : cred.bytes ≠ []
  pairs_ne : ∀ kv ∈ query.getD [], kv.key.bytes ≠ [] ∧ kv.value.bytes ≠ []
  name_ne : name.bytes ≠ []

namespace LinkTexts

def queryText (d : LinkTexts) : Bytes := d.query.elim [] fun ps => ch '?' :: encodedQuery ps

/-- `cred@authority?query#name`. -/
def body (d : LinkTexts) (authority : Bytes) : Bytes :=
  encoded d.cred ++ ch '@' :: authority ++ (d.queryText ++ ch '#' :: encoded d.name)

def parts (d : LinkTexts) (authority : Bytes) : LinkParts where
  main := encoded d.cred ++ ch '@' :: authority
  query := d.query.map encodedQuery
  frag := some (encoded d.name)

theorem body_eq (d : LinkTexts) (authority : Bytes) : d.body authority = (d.parts authority).join := by
  unfold body queryText LinkParts.join LinkParts.queryPart LinkParts.fragPart parts
  cases d.query <;> rfl

theorem parts_wf (d : LinkTexts) {authority : Bytes} (hh : ch '#' ∉ authority) (hq : ch '?' ∉ authority) :
    (d.parts authority).WF := by
  have hmain : ∀ c ∈ str "#?", c ∉ authority → c ∉ (d.parts authority).main := by
    intro c hc htext
    have hdel : c = ch '#' ∨ c = ch '?' := by simpa [str] using hc
    have hcred : c ∉ encoded d.cred := by
      rcases hdel with rfl | rfl <;> exact not_mem_encoded (by decide) d.cred
    have hat : c ≠ ch '@' := by rcases hdel with rfl | rfl <;> decide
    simp [parts, htext, hcred, hat]
  constructor
  · have hquery : ch '#' ∉ (d.parts authority).queryPart := by
      unfold LinkParts.queryPart parts
      rcases d.query with _ | ps
      · simp
      · have h := not_mem_encodedQuery (c := ch '#') (by decide) (by decide) (by decide) ps
        simp only [Option.map_some, List.mem_cons, not_or]
        exact ⟨by decide, h⟩
    rw [List.mem_append, not_or]
    exact ⟨hmain _ (by decide) hh, hquery⟩
  · exact hmain _ (by decide) hq

theorem trim_body (d : LinkTexts) (scheme : String) (authority : Bytes) :
    trimLine (str scheme ++ d.body authority) = str scheme ++ d.body authority := by
  have hj : str scheme ++ d.body authority =
      (str scheme ++ (encoded d.cred ++ ch '@' :: authority) ++ (d.queryText ++ [ch '#'])) ++ encoded d.name := by
    simp [body]
  rw [hj]
  exact trimLine_append_encoded _ (encoded_ne_nil d.name_ne)

theorem linkPairs_parts (d : LinkTexts) (authority : Bytes) :
    linkPairs (d.parts authority) = some (d.query.getD []) := by
  have hps := d.pairs_ne
  unfold linkPairs parts
  rcases hq : d.query with _ | ps
  · rfl
  · rw [hq, Option.getD_some] at hps
    simp only [Option.map_some, Option.getD_some]
    rw [queryPairs_encoded hps, decodePairs_encoded]

theorem not_nullUser (d : LinkTexts) (authority : Bytes) :
    ¬ NullUser (d.parts authority) (encoded d.cred) authority := by
  have hps := d.pairs_ne
  rintro (h | ⟨-, host, port, -, h⟩)
  · exact encoded_ne_nil d.cred_ne h
  · have hname : ¬ NullName (d.parts authority).frag host port :=
      not_nullName (encoded_ne_nil d.name_ne) (urlRc_encoded d.name) host port
    unfold NullTail at h
    rcases hq : d.query with _ | ps
    · rw [show (d.parts authority).query = none by simp [parts, hq]] at h
      exact hname h
    · rw [hq, Option.getD_some] at hps
      rw [show (d.parts authority).query = some (encodedQuery ps) by simp [parts, hq]] at h
      simp only at h
      rw [queryPairs_encoded hps] at h
      rcases h with h | ⟨-, h⟩
      · rcases ps with _ | ⟨kv, ps⟩
        · exact h
        · obtain ⟨-, -, h⟩ := h
          obtain ⟨hk, hv⟩ := hps kv (by simp)
          exact h.elim (encoded_ne_nil hk) (encoded_ne_nil hv)
      · exact hname h

/-- The last value given for a key. -/
def param (d : LinkTexts) (key : String) : Option CStr := lastValue (d.query.getD []) key

def transport (d : LinkTexts) : NodeTransport := ((d.param "type").map linkTransport).getD .none

/-- The node a link of this type stands for. -/
def node (d : LinkTexts) (type : NodeType) (host : CStr) (port : Int) : ProxyNode where
  type := type
  name := some d.name
  server := some host
  port := port
  uuid := if type = .trojan then none else some d.cred
  password := if type = .trojan then some d.cred else none
  cipher := if type = .vmess then some (.lit "auto") else none
  alterId := 0
  udp := true
  transport := d.transport
  tls := ((d.param "security").map linkTls).getD (if type = .trojan then .tls else .none)
  sni := d.param "sni"
  alpn := d.param "alpn"
  fp := d.param "fp"
  realityPbk := d.param "pbk"
  realitySid := d.param "sid"
  wsPath := if d.transport = .ws then d.param "path" else none
  wsHost := if d.transport = .ws then d.param "host" else none
  xhttpHost := if d.transport = .ws then none else d.param "host"
  xhttpPath := if d.transport = .ws then none else d.param "path"
  xhttpMode := d.param "mode"
  grpcService := d.param "serviceName"
  plugin := none
  pluginOpts := none

/-- The parser stores every parameter where the node has it. -/
theorem userNode_parts (d : LinkTexts) {type : NodeType} (ht : type = .vless ∨ type = .trojan ∨ type = .vmess)
    (host : CStr) (port : Int) : withCipher type (userNode type d.cred host port (some (encoded d.name)) (d.query.getD [])) =
      d.node type host port := by
  have hname : linkName (some (encoded d.name)) host port = d.name := by
    simp [linkName, urlRc_encoded, ofBytes_encoded]
  unfold userNode
  rw [applyQuery_eq, hname]
  rcases ht with rfl | rfl | rfl <;>
    simp [withCipher, credNode, node, nodeInit, transport, param] <;>
      exact ⟨rfl, rfl, rfl, rfl⟩

/-- A link whose host and port are found is read back, whatever lies behind it in memory. -/
theorem parse_body (d : LinkTexts) (σ : Arith) (tok : Tokener) {type : NodeType} {scheme : String}
    (hs : (type, scheme) ∈ userSchemes) {authority : Bytes} (hh : ch '#' ∉ authority) (hq : ch '?' ∉ authority)
    {host : CStr} {port : Int} (hhp : hostPort authority = some (host, port)) (t : Bytes) :
    nodeParseShare σ tok (str scheme ++ d.body authority ++ t) (str scheme ++ d.body authority).length =
      .ok (0, d.node type host port) := by
  have ht : type = .vless ∨ type = .trojan ∨ type = .vmess := by
    simp only [userSchemes, List.mem_cons, Prod.mk.injEq, List.not_mem_nil, or_false] at hs
    tauto
  have htrim := d.trim_body scheme authority
  rw [body_eq] at htrim ⊢
  have h := nodeParseShare_user σ tok hs (d.parts_wf hh hq) (not_mem_encoded (by decide) d.cred) rfl
    htrim (urlRc_encoded d.cred) (d.not_nullUser authority) hhp (d.linkPairs_parts authority) t
  rw [ofBytes_encoded] at h
  rw [h]
  exact congrArg (fun n => Except.ok (0, n)) (userNode_parts d ht host port)

/-- An accepted link whose host and port are found gives its node. -/
theorem hostPort_of_accepted (d : LinkTexts) {σ : Arith} {tok : Tokener} {type : NodeType} {scheme : String}
    (hs : (type, scheme) ∈ userSchemes) {authority t : Bytes} {n : ProxyNode}
    (hn : nodeParseShare σ tok (str scheme ++ d.body authority ++ t) (str scheme ++ d.body authority).length = .ok (0, n)) :
    ∃ h cred host port frag pairs, (splitLink (d.body authority)).main = encoded d.cred ++ ch '@' :: h ∧
      hostPort h = some (host, port) ∧ n = withCipher type (userNode type cred host port frag pairs) := by
  have hcred : ∀ c, isCodeChar c = false → c ∉ encoded d.cred := fun c hc => not_mem_encoded hc d.cred
  have hbody : d.body authority =
      (encoded d.cred ++ [ch '@']) ++ (authority ++ (d.queryText ++ ch '#' :: encoded d.name)) := by simp [body]
  obtain ⟨hj, hwf⟩ := splitLink_spec (d.body authority)
  obtain ⟨r, hr⟩ : encoded d.cred ++ [ch '@'] <+: (splitLink (d.body authority)).main := by
    rw [hbody]
    refine prefix_main ?_ ?_ _
    · rw [List.mem_append, not_or]
      exact ⟨hcred _ (by decide), by decide⟩
    · rw [List.mem_append, not_or]
      exact ⟨hcred _ (by decide), by decide⟩
  have htrim := d.trim_body scheme authority
  rw [← hj] at hn htrim
  obtain ⟨u, h, cred, host, port, pairs, hm, hu, hhp, rfl⟩ :=
    nodeParseShare_user_some hs hwf (by rw [← hr]; simp) htrim hn
  -- the first `@` is the one behind the credential
  obtain ⟨rfl, rfl⟩ : u = encoded d.cred ∧ h = r := by
    refine cut_inj hu (hcred (ch '@') (by decide)) ?_
    rw [← hm, ← hr, List.append_assoc]
    rfl
  exact ⟨h, cred, host, port, _, pairs, hm, hhp, rfl⟩

/-- The host of an accepted link is the one written in it only where it holds. -/
theorem holds_of_server (d : LinkTexts) {σ : Arith} {tok : Tokener} {type : NodeType} {scheme : String}
    (hs : (type, scheme) ∈ userSchemes) {f : HostForm} {host : CStr} {port : Nat} {t : Bytes} {n : ProxyNode}
    (hn : nodeParseShare σ tok (str scheme ++ d.body (f.text host port) ++ t)
      (str scheme ++ d.body (f.text host port)).length = .ok (0, n)) (hserver : nvl n.server = host) : f.Holds host := by
  obtain ⟨h, cred, server, i, frag, pairs, hm, hhp, rfl⟩ := d.hostPort_of_accepted hs hn
  rw [(userNode_keeps type cred server i frag pairs).2.1] at hserver
  obtain rfl : server = host := hserver
  obtain ⟨hj, hwf⟩ := splitLink_spec (d.body (f.text server port))
  have hclean : ∀ c, c ∉ (splitLink (d.body (f.text server port))).main → c ∉ server.bytes := by
    intro c hc hmem
    obtain ⟨x, p, hs, -, -, hx, -⟩ := hostPort_some.1 hhp
    refine hc ?_
    rw [hm]
    have hcx : c ∈ x := by
      rw [hx] at hmem
      exact (List.takeWhile_sublist _).mem hmem
    simp [hostSegs_mem hs c hcx]
  have hhash := hclean (ch '#') fun hc => hwf.hash (List.mem_append_left _ hc)
  have hquest := hclean (ch '?') hwf.quest
  have hparts : (splitLink (d.body (f.text server port))).main = encoded d.cred ++ ch '@' :: f.text server port := by
    rw [body_eq, splitLink_join (d.parts_wf (mt (mem_hostText (by decide)).1 hhash) (mt (mem_hostText (by decide)).1 hquest))]
    rfl
  rw [hparts, List.append_cancel_left_eq, List.cons.injEq] at hm
  rw [← hm.2] at hhp
  exact hostPort_holds hhash hquest hhp

end LinkTexts

/-- The data of a link `user@host:port`. -/
structure LinkData extends LinkTexts where
  form : HostForm
  host : CStr
  port : Nat
  fits : form.Fits host
  range : 1 ≤ port ∧ port ≤ 65535

namespace LinkData

/-- `scheme://cred@host:port?query#name`. -/
def link (d : LinkData) (scheme : String) : Bytes := str scheme ++ d.body (d.form.text d.host d.port)

def node (d : LinkData) (type : NodeType) : ProxyNode := d.toLinkTexts.node type d.host d.port

/-- `node_parse_share` reads back what is written in a link, whatever lies behind it in memory. -/
theorem parse_link (d : LinkData) (σ : Arith) (tok : Tokener) {type : NodeType} {scheme : String}
    (hs : (type, scheme) ∈ userSchemes) (t : Bytes) :
    nodeParseShare σ tok (d.link scheme ++ t) (d.link scheme).length = .ok (0, d.node type) := by
  obtain ⟨hhash, hquest⟩ := d.fits.holds.text_clean d.port
  exact d.parse_body σ tok hs hhash hquest (hostPort_text d.fits.holds d.fits.nonempty d.range.1 d.range.2) t

/-- A link with delimiters in its texts and its `type` behind the path. -/
def escapes : LinkData where
  form := .bracket
  cred := .lit "p@s:s#"
  host := .lit "::1"
  port := 443
  query := some [⟨.lit "path", .lit "/a?b&c=d"⟩, ⟨.lit "type", .lit "ws"⟩]
  name := .lit "# 1"
  cred_ne := by decide
  fits := ⟨by decide, by decide +kernel⟩
  range := by decide
  pairs_ne := by decide +kernel
  name_ne := by decide

theorem parse_link_escapes :
    nodeParseShare .machine .refusing (escapes.link "trojan://" ++ [0]) (escapes.link "trojan://").length =
      .ok (0, escapes.node .trojan) :=
  parse_link escapes .machine .refusing (by simp [userSchemes]) [0]

example : escapes.link "trojan://" =
    str "trojan://p%40s%3As%23@[::1]:443?path=%2Fa%3Fb%26c%3Dd&type=ws#%23%201" := by decide +kernel

end LinkData

end SubConverter
