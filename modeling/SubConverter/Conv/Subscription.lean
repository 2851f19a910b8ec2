/-
A whole subscription: links written from their data, with other lines between them, as it is or in base64. The
run writes a document with the nodes of the data, and a reader of YAML finds them there.
-/
import SubConverter.Conv.Read
import SubConverter.Conv.Wrapped
import SubConverter.Share.Encoded

namespace SubConverter

open CMem Yaml

/-! ## Subscriptions -/

/-- A line of a subscription: a link on a line of its own, or a text that `node_parse_share` rejects. -/
inductive SubLine (tok : Tokener)
  | link (type : NodeType) (scheme : String) (data : LinkData) (known : (type, scheme) ∈ userSchemes)
      (oneLine : (10 : Byte) ∉ data.host.bytes)
  | other (text : Bytes) (rejected : nodeParseShare .machine tok text text.length = .ok (-1, nodeInit))
      (oneLine : (10 : Byte) ∉ text ∧ (0 : Byte) ∉ text)

section

variable {tok : Tokener}

namespace SubLine

def text : SubLine tok → Bytes
  | link _ scheme data _ _ => data.link scheme
  | other text _ _ => text

/-- The node the data of a link stands for. -/
def node : SubLine tok → Option ProxyNode
  | link type _ data _ _ => some (data.node type)
  | other _ _ _ => none

end SubLine

/-- The lines with line ends between them. -/
def subscription (ls : List (SubLine tok)) : Bytes := [(10 : Byte)].intercalate (ls.map SubLine.text)

/-- The nodes of the links, in order. -/
def subNodes (ls : List (SubLine tok)) : List ProxyNode := ls.filterMap SubLine.node

/-- Each name can be told from those before it. -/
def SubNamed (ls : List (SubLine tok)) : Prop := NamesFit ((subNodes ls).map fun n => nvl n.name) []

/-! ## Lines -/

namespace LinkData

theorem parse_line (d : LinkData) (tok : Tokener) {type : NodeType} {scheme : String}
    (hs : (type, scheme) ∈ userSchemes) (t : Bytes) :
    nodeParseShare .machine tok (d.link scheme ++ t) (d.link scheme).length = .ok (0, d.node type) := by
  obtain ⟨hhash, hquest⟩ := d.fits.holds.text_clean d.port
  exact d.parse_body .machine tok hs hhash hquest (hostPort_text d.fits.holds d.fits.nonempty d.range.1 d.range.2) t

/-- A link has a line end or a NUL only in its host. -/
theorem not_mem_link (d : LinkData) {type : NodeType} {scheme : String} (hs : (type, scheme) ∈ userSchemes) {c : Byte}
    (hc : c = 10 ∨ c = 0) (hhost : c ∉ d.host.bytes) : c ∉ d.link scheme := by
  have hcode : isCodeChar c = false ∧ (c.toNat < 48 ∨ 57 < c.toNat) ∧ c ∉ str "@?#=&:[]" ∧
      ∀ p ∈ userSchemes, c ∉ str p.2 := by
    rcases hc with rfl | rfl <;> decide +kernel
  obtain ⟨hcode, hdigit, hdel, hscheme⟩ := hcode
  have hne : ∀ a ∈ str "@?#=&:[]", c ≠ a := by
    rintro a ha rfl
    exact hdel ha
  have htext : c ∉ d.form.text d.host d.port := by
    cases hf : d.form <;>
      simp [HostForm.text, hhost, not_mem_decimal hdigit, hne (ch ':') (by decide), hne (ch '[') (by decide),
        hne (ch ']') (by decide)]
  have hquery : c ∉ d.queryText := by
    unfold LinkTexts.queryText
    rcases d.query with _ | ps
    · simp
    · simp [hne (ch '?') (by decide), not_mem_encodedQuery hcode (hne (ch '=') (by decide)) (hne (ch '&') (by decide)) ps]
  simp [link, LinkTexts.body, hscheme _ hs, htext, hquery, not_mem_encoded hcode, hne (ch '@') (by decide),
    hne (ch '#') (by decide)]

end LinkData

namespace SubLine

theorem text_plain (l : SubLine tok) : (10 : Byte) ∉ l.text ∧ (0 : Byte) ∉ l.text := by
  cases l with
  | link type scheme data known oneLine =>
    exact ⟨data.not_mem_link known (.inl rfl) oneLine, data.not_mem_link known (.inr rfl) data.host.nulFree⟩
  | other text rejected oneLine => exact oneLine

/-- A line by itself gives its node, or is rejected. -/
theorem parse (l : SubLine tok) :
    nodeParseShare .machine tok l.text l.text.length = .ok (shareResult l.node) := by
  cases l with
  | link type scheme data known oneLine =>
    have h := data.parse_line tok known []
    rwa [List.append_nil] at h
  | other text rejected oneLine => exact rejected

theorem accept (l : SubLine tok) (hlen : l.text.length < 2 ^ 63) : acceptLine tok l.text = l.node := by
  have hparse := l.parse
  rcases nodeParseShare_inPlace tok (b := l.text) (t := []) (by rwa [List.append_nil]) with ⟨-, e, he⟩ | ⟨-, hok⟩
  · rw [List.append_nil, hparse] at he
    cases he
  · rw [List.append_nil, hparse] at hok
    rcases hl : l.node with _ | n <;> rcases ha : acceptLine tok l.text with _ | m <;>
      simp [hl, ha, shareResult] at hok ⊢
    exact hok.symm

/-- A line does not fault wherever it stands. -/
theorem not_lineFaults (l : SubLine tok) (t : Bytes) (hlen : l.text.length < 2 ^ 63) : ¬ LineFaults tok l.text t := by
  rcases nodeParseShare_inPlace tok (b := l.text) (t := []) (by rwa [List.append_nil]) with ⟨-, e, he⟩ | ⟨h, -⟩
  · rw [List.append_nil, l.parse] at he
    cases he
  · exact fun hf => h (hf.of_append (s := t))

end SubLine

/-! ## Bodies -/

theorem splitOn_subscription {ls : List (SubLine tok)} (hne : ls ≠ []) :
    (subscription ls).splitOn 10 = ls.map SubLine.text := by
  refine List.splitOn_intercalate 10 ?_ (by simpa using hne)
  rw [List.forall_mem_map]
  exact fun l _ => l.text_plain.1

theorem flatMap_subscription {ls : List (SubLine tok)} (hne : ls ≠ []) :
    (ls.map SubLine.text).flatMap (10 :: ·) = 10 :: subscription ls := by
  rw [← splitOn_subscription hne, flatMap_splitOn]

theorem nul_not_mem_subscription {ls : List (SubLine tok)} (hne : ls ≠ []) : (0 : Byte) ∉ subscription ls := by
  have h : (0 : Byte) ∉ (ls.map SubLine.text).flatMap (10 :: ·) := by
    simp only [List.mem_flatMap, List.mem_map, not_exists, not_and]
    rintro b ⟨l, -, rfl⟩ hmem
    exact (List.mem_cons.1 hmem).elim (by decide) l.text_plain.2
  rw [flatMap_subscription hne] at h
  exact List.not_mem_of_not_mem_cons h

/-- A body with a link is no base64. -/
theorem colon_mem_subscription {ls : List (SubLine tok)} (h : subNodes ls ≠ []) : ch ':' ∈ subscription ls := by
  obtain ⟨n, hn⟩ := List.exists_mem_of_ne_nil _ h
  obtain ⟨l, hl, hnode⟩ := List.mem_filterMap.1 hn
  have hcolon : ch ':' ∈ l.text := by
    cases l with
    | link type scheme data known oneLine =>
      have hscheme : ∀ p ∈ userSchemes, ch ':' ∈ str p.2 := by decide +kernel
      exact List.mem_append_left _ (hscheme _ known)
    | other text rejected oneLine => cases hnode
  have hmem : ch ':' ∈ (ls.map SubLine.text).flatMap (10 :: ·) :=
    List.mem_flatMap.2 ⟨l.text, List.mem_map_of_mem hl, List.mem_cons_of_mem _ hcolon⟩
  rw [flatMap_subscription (List.ne_nil_of_mem hl)] at hmem
  exact (List.mem_cons.1 hmem).resolve_left (by decide)

theorem not_looksLike_subscription {ls : List (SubLine tok)} (h : subNodes ls ≠ []) :
    base64LooksLike (subscription ls) = false := by
  rw [← Bool.not_eq_true, base64LooksLike_iff]
  rintro ⟨hgate, -⟩
  have hsig : ch ':' ∈ b64Sig (subscription ls) := List.mem_filter.2 ⟨colon_mem_subscription h, by decide⟩
  exact absurd (hgate _ hsig) (by rintro (h | h) <;> revert h <;> decide +kernel)

theorem length_text_le {ls : List (SubLine tok)} {l : SubLine tok} (h : l ∈ ls) :
    l.text.length ≤ (subscription ls).length := by
  have hmem : l.text ∈ (subscription ls).splitOn 10 := by
    rw [splitOn_subscription (List.ne_nil_of_mem h)]
    exact List.mem_map_of_mem h
  exact length_le_of_mem_splitOn hmem

theorem not_bodyFaults_subscription (t : Bytes) : ∀ {ls : List (SubLine tok)}, (∀ l ∈ ls, l.text.length < 2 ^ 63) →
    ¬ BodyFaults tok t (ls.map SubLine.text)
  | [], _ => id
  | l :: ls, hlen => by
    rw [List.forall_mem_cons] at hlen
    rintro (h | h)
    · exact l.not_lineFaults _ hlen.1 h
    · exact not_bodyFaults_subscription t hlen.2 h

theorem acceptedNodes_subscription {ls : List (SubLine tok)} (hne : ls ≠ []) (hlen : (subscription ls).length < 2 ^ 63) :
    acceptedNodes tok (subscription ls) = subNodes ls := by
  rw [← acceptedNodes_eq tok hlen, splitOn_subscription hne, List.filterMap_map]
  exact List.filterMap_congr fun l hl => l.accept ((length_text_le hl).trans_lt hlen)

/-! ## The run -/

/-- The body is the subscription, or its base64 with any white space in it. -/
def Carries (body : Bytes) (ls : List (SubLine tok)) : Prop :=
  body = subscription ls ∨ Spread (base64Encode (subscription ls) .init).bytes body

theorem subNodes_ne {ls : List (SubLine tok)} (h : subNodes ls ≠ []) : ls ≠ [] := by
  rintro rfl
  exact h rfl

/-- Nothing in a subscription faults, whatever lies behind it. -/
theorem textSafe_subscription {ls : List (SubLine tok)} (h : subNodes ls ≠ []) (hnames : SubNamed ls)
    (hlen : (subscription ls).length < 2 ^ 63) (t : Bytes) : TextSafe tok (subscription ls) t where
  lines := by
    rw [splitOn_subscription (subNodes_ne h)]
    exact not_bodyFaults_subscription _ fun l hl => (length_text_le hl).trans_lt hlen
  names := by rwa [acceptedNodes_subscription (subNodes_ne h) hlen]

/-- Where the loop runs over the subscription, the run writes the document of its nodes. -/
theorem convBase64Run_subscription {ls : List (SubLine tok)} (h : subNodes ls ≠ []) (hnames : SubNamed ls)
    {ctx : ConvCtx} {t : Bytes} (hsrc : convSrc ctx = .ok (some (subscription ls ++ 0 :: t)))
    (hlen : (subscription ls ++ 0 :: t).length < 2 ^ 63) (outYaml : Option CStr) :
    convBase64Run tok ctx outYaml = .ok (0, some (base64Doc (subNodes ls)).yaml) := by
  have hne := subNodes_ne h
  have hsub : (subscription ls).length < 2 ^ 63 := by
    rw [List.length_append] at hlen
    omega
  rcases convBase64Run_src tok outYaml hsrc (nul_not_mem_subscription hne) hlen with ⟨hf, -⟩ | ⟨-, hr⟩
  · exact absurd (textSafe_subscription h hnames hsub t) hf
  · rw [hr, acceptedNodes_subscription hne hsub, base64Result, if_neg h]

theorem convBase64Run_carries {ls : List (SubLine tok)} (h : subNodes ls ≠ []) (hnames : SubNamed ls) {ctx : ConvCtx}
    (hc : Carries ctx.data ls) (outYaml : Option CStr) :
    convBase64Run tok ctx outYaml = .ok (0, some (base64Doc (subNodes ls)).yaml) := by
  have hfits := ctx.fits
  rcases hc with hdata | hspread
  · have hplain : ctx.Plain := ⟨by rw [hdata]; exact nul_not_mem_subscription (subNodes_ne h),
      by rw [hdata]; exact not_looksLike_subscription h⟩
    have hsrc := hplain.src
    rw [hdata] at hsrc hfits
    refine convBase64Run_subscription h hnames hsrc ?_ outYaml
    rw [List.length_append, List.length_singleton]
    omega
  · have hsig : b64Sig ctx.data = b64Text b64StdChars true (subscription ls) := by
      rw [hspread.sig, base64Encode_bytes, b64Text_ws alphabet_std]
    have hlen : (subscription ls).length ≤ ctx.data.length := by
      have hle : (b64Sig ctx.data).length ≤ ctx.data.length := List.length_filter_le ..
      rw [hsig, length_b64Text] at hle
      omega
    have hne : subscription ls ≠ [] := List.ne_nil_of_mem (colon_mem_subscription h)
    have hsrc := @convSrc_wrapped ⟨subscription ls, [], by rw [List.length_nil]; omega⟩ ctx hne hsig
    refine convBase64Run_subscription h hnames hsrc ?_ outYaml
    rw [List.length_append, List.length_cons]
    omega

theorem stringsKept_subNodes (ls : List (SubLine tok)) :
    (base64Doc (subNodes ls)).StringsKept ↔ ∀ n ∈ subNodes ls, AllKept n.written := by
  refine stringsKept_base64Doc fun n hn => ?_
  obtain ⟨l, -, hnode⟩ := List.mem_filterMap.1 hn
  cases l with
  | link type scheme data known oneLine =>
    cases hnode
    have htypes : ∀ p ∈ userSchemes, p.1.emits = true := by decide
    exact htypes _ known
  | other text rejected oneLine => cases hnode

/-- A subscription written from the data of its links, as it is or in base64, becomes a document in which a reader
of YAML finds the nodes of the data, in order and under different names, exactly when their strings are kept. -/
theorem subscription_read {ls : List (SubLine tok)} (h : subNodes ls ≠ []) (hnames : SubNamed ls) {ctx : ConvCtx}
    (hc : Carries ctx.data ls) (outYaml : Option CStr) :
    ∃ y, convBase64Run tok ctx outYaml = .ok (0, some y) ∧
      (readDocument y.bytes = some (base64Doc (subNodes ls)).tree ↔ ∀ n ∈ subNodes ls, AllKept n.written) :=
  ⟨_, convBase64Run_carries h hnames hc outYaml, by rw [Document.read_iff, stringsKept_subNodes]⟩

/-- A link under a remark and a link without a port. -/
def remarkSub : List (SubLine .refusing) :=
  [.other (str "# updated: today") (by decide +kernel) (by decide +kernel),
   .other (str "vless://u@h") (by decide +kernel) (by decide +kernel),
   .link .trojan "trojan://" LinkData.escapes (by decide) (by decide +kernel)]

theorem subNamed_remark : SubNamed remarkSub := namesFit_of_short (by decide +kernel) (by decide +kernel)

theorem subscription_read_remark :
    ∃ y, convBase64Run .refusing ⟨subscription remarkSub, [], by decide +kernel⟩ none = .ok (0, some y) ∧
      readDocument y.bytes = some (base64Doc (subNodes remarkSub)).tree := by
  obtain ⟨y, hrun, hread⟩ := @subscription_read .refusing remarkSub (by decide +kernel) subNamed_remark
    ⟨subscription remarkSub, [], by decide +kernel⟩ (.inl rfl) none
  refine ⟨y, hrun, hread.2 ?_⟩
  unfold AllKept
  decide +kernel

end

end SubConverter
