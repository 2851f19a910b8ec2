/-
The two forms of a vmess link, `user@host:port` with a query and base64 of a JSON object. The same data give
the same node in both, but an empty `type` is the first value of the query and makes its parser duplicate a
null pointer.
-/
import SubConverter.Coding.Alphabets
import SubConverter.Share.Encoded
import SubConverter.Share.Numbers

namespace SubConverter

open CMem

/-! ## The data and its two forms -/

/-- The `security` value of a link and the `tls` value of the JSON. -/
def securityName : NodeTls → String
  | .none => "none"
  | .tls => "tls"
  | .reality => "reality"

/-- What a vmess link gives, with the form its host has in a link. -/
structure VmessData where
  uuid : CStr
  server : CStr
  form : HostForm
  port : Nat
  transport : Bytes
  security : NodeTls
  path : CStr
  host : CStr
  sni : CStr
  alpn : CStr
  fp : CStr
  serviceName : CStr
  name : CStr
  texts_ne : ∀ s ∈ [uuid, server, path, host, sni, alpn, fp, serviceName, name], s.bytes ≠ []
  server_holds : form.Holds server
  port_range : 1 ≤ port ∧ port ≤ 65535

namespace VmessData

/-- The parameters of the query. -/
def params (d : VmessData) : List (String × Bytes) :=
  [("type", d.transport), ("security", str (securityName d.security)), ("path", d.path.bytes), ("host", d.host.bytes),
   ("sni", d.sni.bytes), ("alpn", d.alpn.bytes), ("fp", d.fp.bytes), ("serviceName", d.serviceName.bytes)]

/-- `type=..&security=..&..`, the values percent-encoded. -/
def query (d : VmessData) : Bytes := joinPairs (d.params.map fun p => (str p.1, (urlEncode p.2 .init).bytes))

def parts (d : VmessData) : LinkParts where
  main := encoded d.uuid ++ ch '@' :: d.form.text d.server d.port
  query := some d.query
  frag := some (encoded d.name)

/-- `vmess://uuid@server:port?query#name`. -/
def userLink (d : VmessData) : Bytes := str "vmess://" ++ d.parts.join

/-- The JSON object; the port is a number or its text. -/
def object (d : VmessData) (port : Json) : Json :=
  .obj [(str "id", .str d.uuid.bytes), (str "add", .str d.server.bytes), (str "port", port),
    (str "net", .str d.transport), (str "tls", .str (str (securityName d.security))), (str "path", .str d.path.bytes),
    (str "host", .str d.host.bytes), (str "sni", .str d.sni.bytes), (str "alpn", .str d.alpn.bytes),
    (str "fp", .str d.fp.bytes), (str "serviceName", .str d.serviceName.bytes), (str "ps", .str (encoded d.name))]

/-- The two spellings of the port in JSON. -/
def portValues (d : VmessData) : List Json := [.int d.port, .str (decimal d.port)]

/-- `vmess://` and the text of a JSON object in base64. -/
def jsonLink (text : Bytes) : Bytes := str "vmess://" ++ (base64Encode text .init).bytes

/-- The node the data stand for. -/
def node (d : VmessData) : ProxyNode :=
  let transport := linkTransport (CStr.ofBytes d.transport)
  { nodeInit with
    type := .vmess
    name := some d.name
    server := some d.server
    port := d.port
    uuid := some d.uuid
    cipher := some (.lit "auto")
    udp := true
    transport := transport
    tls := d.security
    sni := some d.sni
    alpn := some d.alpn
    fp := some d.fp
    wsPath := if transport = .ws then some d.path else none
    wsHost := if transport = .ws then some d.host else none
    xhttpHost := if transport = .ws then none else some d.host
    xhttpPath := if transport = .ws then none else some d.path
    grpcService := some d.serviceName }

/-- Both forms are accepted and give one node, whatever lies behind them in memory. -/
def FormsAgree (d : VmessData) (tok : Tokener) (text : Bytes) : Prop :=
  ∃ n, ∀ σ t, nodeParseShare σ tok (d.userLink ++ t) d.userLink.length = .ok (0, n) ∧
    nodeParseShare σ tok (jsonLink text ++ t) (jsonLink text).length = .ok (0, n)

/-! ## The link with a query -/

theorem text_ne (d : VmessData) : encoded d.uuid ≠ [] ∧ encoded d.name ≠ [] ∧ d.server.bytes ≠ [] := by
  have h := d.texts_ne
  exact ⟨encoded_ne_nil (h _ (by simp)), encoded_ne_nil (h _ (by simp)), h _ (by simp)⟩

/-- The codes of the parameters. -/
def codes (d : VmessData) : List (Bytes × Bytes) := d.params.map fun p => (str p.1, percentText p.2)

theorem query_eq (d : VmessData) : d.query = joinPairs d.codes := by
  simp only [query, codes, urlEncode_eq, Strbuf.bytes_push, Strbuf.bytes_init, List.nil_append]

/-- The keys are unreserved and come out of their codes as they are. -/
theorem key_spec (d : VmessData) : ∀ p ∈ d.params, (∀ c ∈ str "=&#", c ∉ str p.1) ∧ str p.1 ≠ [] ∧
    urlRc (str p.1) = 0 ∧ CStr.ofBytes (urlText (str p.1)).1 = CStr.ofBytes (str p.1) := by
  have hkeys : ∀ k ∈ ["type", "security", "path", "host", "sni", "alpn", "fp", "serviceName"],
      (∀ c ∈ str "=&#", c ∉ str k) ∧ str k ≠ [] ∧ urlRc (str k) = 0 ∧
        CStr.ofBytes (urlText (str k)).1 = CStr.ofBytes (str k) := by decide +kernel
  exact fun p hp => hkeys p.1 (List.mem_map_of_mem (f := Prod.fst) hp)

theorem forall_mem_codes {d : VmessData} {P : Bytes × Bytes → Prop}
    (h : ∀ p ∈ d.params, P (str p.1, percentText p.2)) : ∀ p ∈ d.codes, P p := by
  intro p hp
  obtain ⟨q, hq, rfl⟩ := List.mem_map.1 hp
  exact h q hq

theorem queryPairs_query (d : VmessData) : queryPairs d.query = d.codes := by
  rw [query_eq]
  refine queryPairs_joinPairs (forall_mem_codes fun p hp => ?_) (forall_mem_codes fun p hp => (d.key_spec p hp).2.1)
  have hkey := (d.key_spec p hp).1
  exact ⟨hkey _ (by decide), hkey _ (by decide), not_mem_percentText (by decide) p.2⟩

/-- The pairs of the query. -/
def pairs (d : VmessData) : List KvPair := d.params.map fun p => ⟨CStr.ofBytes (str p.1), CStr.ofBytes p.2⟩

theorem decodePairs_codes (d : VmessData) : decodePairs d.codes = some d.pairs := by
  rw [decodePairs_valid (forall_mem_codes fun p hp => ⟨(d.key_spec p hp).2.2.1, urlRc_percentText p.2⟩), codes,
    List.map_map, pairs]
  refine congrArg some (List.map_congr_left fun p hp => ?_)
  simp only [Function.comp_apply, (d.key_spec p hp).2.2.2, urlText_percentText]

/-- The null pointer is met when the first value is empty. -/
theorem emptyFirstPair_codes (d : VmessData) : emptyFirstPair d.codes ↔ d.transport = [] := by
  have hfirst : d.codes = (str "type", percentText d.transport) :: d.codes.tail := rfl
  have hkey : urlRc (str "type") = 0 ∧ str "type" ≠ [] := by decide +kernel
  rw [hfirst, emptyFirstPair, urlRc_percentText, percentText_eq_nil]
  simp [hkey.1, hkey.2]

theorem parts_wf (d : VmessData) : d.parts.WF := by
  obtain ⟨hhash, hquest⟩ := d.server_holds.text_clean d.port
  have hquery : ch '#' ∉ d.query := by
    rw [query_eq]
    exact not_mem_joinPairs (by decide) (by decide) (forall_mem_codes fun p hp =>
      ⟨(d.key_spec p hp).1 _ (by decide), not_mem_percentText (by decide) p.2⟩)
  have hmain : ∀ c, isCodeChar c = false → c ≠ ch '@' → c ∉ d.form.text d.server d.port → c ∉ d.parts.main := by
    intro c hc hat htext
    simp [parts, not_mem_encoded hc, hat, htext]
  constructor
  · simp only [LinkParts.queryPart, parts, List.mem_append, List.mem_cons, not_or]
    have hm := hmain (ch '#') (by decide) (by decide) hhash
    simp only [parts, List.mem_append, List.mem_cons, not_or] at hm
    exact ⟨hm, by decide, hquery⟩
  · exact hmain (ch '?') (by decide) (by decide) hquest

theorem trim_userLink (d : VmessData) : trimLine d.userLink = d.userLink := by
  have hlink : d.userLink = str "vmess://" ++ (d.parts.main ++ ch '?' :: (d.query ++ [ch '#'])) ++ encoded d.name := by
    simp [userLink, LinkParts.join, LinkParts.queryPart, LinkParts.fragPart, parts]
  rw [hlink]
  exact trimLine_append_encoded _ d.text_ne.2.1

theorem hostPort_parts (d : VmessData) :
    hostPort (d.form.text d.server d.port) = some (d.server, (d.port : Int)) :=
  hostPort_text d.server_holds d.text_ne.2.2 d.port_range.1 d.port_range.2

/-- The keys a link of this type is read by. -/
def linkKeys : List String := "type" :: "security" :: paramKeys

/-- What the query gives for a key. -/
theorem lastValue_pairs (d : VmessData) {key : String} (hk : key ∈ linkKeys) :
    lastValue d.pairs key = (d.params.reverse.find? fun p => p.1 == key).map fun p => CStr.ofBytes p.2 := by
  have hkeys : ∀ a ∈ ["type", "security", "path", "host", "sni", "alpn", "fp", "serviceName"], ∀ b ∈ linkKeys,
      (CStr.ofBytes (str a)).is b = (a == b) := by decide +kernel
  have hcongr : ∀ p ∈ d.params.reverse, (CStr.ofBytes (str p.1)).is key = (p.1 == key) := by
    intro p hp
    exact hkeys p.1 (List.mem_map_of_mem (f := Prod.fst) (List.mem_reverse.1 hp)) key hk
  rw [lastValue, pairs, ← List.map_reverse, List.find?_map, Option.map_map]
  exact congrArg (Option.map _) (List.find?_congr hcongr)

theorem linkTls_securityName (t : NodeTls) : linkTls (CStr.ofBytes (str (securityName t))) = t := by
  cases t <;> decide +kernel

/-- The parameters stand for the node. -/
theorem userNode_pairs (d : VmessData) :
    withCipher .vmess (userNode .vmess d.uuid d.server d.port (some (encoded d.name)) d.pairs) = d.node := by
  have hval : ∀ key ∈ linkKeys, lastValue d.pairs key =
      (d.params.reverse.find? fun p => p.1 == key).map fun p => CStr.ofBytes p.2 := fun _ hk => d.lastValue_pairs hk
  simp only [linkKeys, paramKeys, List.forall_mem_cons, List.not_mem_nil, IsEmpty.forall_iff, implies_true, and_true] at hval
  obtain ⟨htype, hsecurity, hpath, hhost, hmode, hsni, hfp, hpbk, hsid, halpn, hservice⟩ := hval
  have hname : linkName (some (encoded d.name)) d.server d.port = d.name := by
    simp [linkName, urlRc_encoded, ofBytes_encoded]
  unfold userNode
  rw [applyQuery_eq, hname, htype, hsecurity, hpath, hhost, hmode, hsni, hfp, hpbk, hsid, halpn, hservice]
  simp [params, withCipher, credNode, node, nodeInit, linkTls_securityName]

/-- What the query of the link runs into. -/
theorem queryRun_query (d : VmessData) :
    queryRun d.query = if d.transport = [] then .error .null else .ok (some d.pairs) := by
  rw [queryRun, queryPairs_query, decodePairs_codes]
  simp only [emptyFirstPair_codes]

theorem vlessLink_parts (d : VmessData) : vlessLink .vmess d.parts nodeInit =
    if d.transport = [] then .error .null
    else .ok (some (userNode .vmess d.uuid d.server d.port (some (encoded d.name)) d.pairs)) := by
  obtain ⟨huuid, hname, -⟩ := d.text_ne
  have hcut : cut (ch '@') d.parts.main = some (encoded d.uuid, d.form.text d.server d.port) :=
    cut_append (not_mem_encoded (by decide) d.uuid)
  have hfrag : fragName (encoded d.name) = .ok (some d.name) := by
    rw [fragName, if_neg (not_not.2 (urlRc_encoded d.name)), if_neg hname, ofBytes_encoded]
  have hlink : linkName (some (encoded d.name)) d.server d.port = d.name := by
    simp [linkName, urlRc_encoded, ofBytes_encoded]
  simp only [vlessLink, hcut, SubConverter.userLink, urlRc_encoded, huuid, hostPort_parts, ofBytes_encoded, tailRun]
  rw [show d.parts.query = some d.query from rfl, show d.parts.frag = some (encoded d.name) from rfl]
  simp only [queryRun_query]
  by_cases ht : d.transport = []
  · rw [if_pos ht, if_pos ht]
    rfl
  · rw [if_neg ht, if_neg ht]
    simp only [ok_bind, nameRun, hfrag, userNode, hlink]
    rfl

/-- The link with a query is accepted unless its type is empty. -/
theorem parse_userLink (d : VmessData) (σ : Arith) (tok : Tokener) (t : Bytes) :
    nodeParseShare σ tok (d.userLink ++ t) d.userLink.length =
      if d.transport = [] then .error .null else .ok (0, d.node) := by
  have hs : (NodeType.vmess, "vmess://") ∈ userSchemes := by simp [userSchemes]
  have hat : ch '@' ∈ d.parts.main := by simp [parts]
  have htrim := d.trim_userLink
  rw [nodeParseShare_eq σ tok _ t (by rw [htrim]; exact strayLink_join hs d.parts_wf (.inl rfl)), htrim, linkRun_form,
    userLink, linkForm_join hs d.parts_wf hat, formRun, vlessLink_parts]
  by_cases ht : d.transport = []
  · rw [if_pos ht, if_pos ht]
    rfl
  · rw [if_neg ht, if_neg ht, ← userNode_pairs]
    rfl

/-! ## The JSON form -/

/-- The members of the object. -/
theorem object_string (d : VmessData) (port : Json) :
    jsonxGetString (d.object port) "id" = some d.uuid ∧ jsonxGetString (d.object port) "add" = some d.server ∧
      jsonxGetString (d.object port) "net" = some (CStr.ofBytes d.transport) ∧
      jsonxGetString (d.object port) "tls" = some (CStr.ofBytes (str (securityName d.security))) ∧
      jsonxGetString (d.object port) "path" = some d.path ∧ jsonxGetString (d.object port) "host" = some d.host ∧
      jsonxGetString (d.object port) "sni" = some d.sni ∧ jsonxGetString (d.object port) "alpn" = some d.alpn ∧
      jsonxGetString (d.object port) "fp" = some d.fp ∧
      jsonxGetString (d.object port) "serviceName" = some d.serviceName ∧
      jsonxGetString (d.object port) "ps" = some (CStr.ofBytes (encoded d.name)) ∧
      jsonxGetString (d.object port) "scy" = none := by
  have h : ∀ {key : String} (s : CStr), jsonxGetString (d.object port) key = some (CStr.ofBytes s.bytes) →
      jsonxGetString (d.object port) key = some s := by
    intro key s hs
    rw [hs, CStr.ofBytes_self]
  exact ⟨h _ rfl, h _ rfl, rfl, rfl, h _ rfl, h _ rfl, h _ rfl, h _ rfl, h _ rfl, h _ rfl, rfl, rfl⟩

/-- Both spellings of the port give it. -/
theorem object_port (d : VmessData) {port : Json} (hp : port ∈ d.portValues) :
    jsonIntField (d.object port) "port" = some (d.port : Int) := by
  have hrange := d.port_range
  have hmember : memberInt (d.object port) "port" = some (d.port : Int) := by
    simp only [portValues, List.mem_cons, List.not_mem_nil, or_false] at hp
    rcases hp with rfl | rfl
    · rfl
    · exact intText_decimal d.port
  rw [jsonIntField_eq, hmember, Option.map_some, clampLong_of_mem]
  unfold longMin longMax
  omega

/-- The object stands for the node. -/
theorem jsonNode_object (d : VmessData) (port : Json) : jsonNode (d.object port) d.server d.port d.name = d.node := by
  obtain ⟨hid, -, hnet, htls, hpath, hhost, hsni, halpn, hfp, hservice, -, hscy⟩ := d.object_string port
  have haid : jsonIntField (d.object port) "aid" = none := rfl
  have hsec : (if (CStr.ofBytes (str (securityName d.security))).is "tls" then NodeTls.tls
      else if (CStr.ofBytes (str (securityName d.security))).is "reality" then .reality else .none) = d.security :=
    linkTls_securityName d.security
  rw [jsonNode, vmessFields_eq, hid, hnet, htls, hpath, hhost, hsni, halpn, hfp, hservice, hscy, haid]
  simp only [Option.elim_some, Option.map_some, Option.map_none, Option.getD_some, Option.getD_none, Option.some_or,
    Option.none_or, nodeInit]
  -- the JSON form compares the same two names
  rw [hsec]
  rfl

theorem bytes_encodedName (d : VmessData) : (CStr.ofBytes (encoded d.name)).bytes = encoded d.name :=
  CStr.ofBytes_bytes (not_mem_encoded (by decide) d.name)

theorem jsonName_object (d : VmessData) (port : Json) : jsonName (d.object port) d.server d.port = d.name := by
  obtain ⟨-, -, -, -, -, -, -, -, -, -, hps, -⟩ := d.object_string port
  rw [jsonName, hps]
  simp only [bytes_encodedName, urlRc_encoded, if_true, ofBytes_encoded]

/-- A base64 body is passed on whole. -/
theorem nodeParseShare_jsonLink (σ : Arith) (tok : Tokener) (text t : Bytes) :
    nodeParseShare σ tok (jsonLink text ++ t) (jsonLink text).length =
      shareResult <$> parseVmessJson tok (base64Encode text .init).bytes (base64Encode text .init).bytes.length nodeInit := by
  have hs : (NodeType.vmess, "vmess://") ∈ userSchemes := by simp [userSchemes]
  have hno := (text_plain text).1
  rw [jsonLink]
  generalize (base64Encode text .init).bytes = b at hno ⊢
  have htrim : trimLine (str "vmess://" ++ b) = str "vmess://" ++ b := by
    by_cases hb : b = []
    · rw [hb]
      decide +kernel
    · refine trimLine_append_text _ hb fun c hc => ⟨?_, ?_⟩
      · rintro rfl
        exact hno _ (by decide +kernel) hc
      · rintro rfl
        exact hno _ (by decide +kernel) hc
  have hj : b = (⟨b, none, none⟩ : LinkParts).join := by simp [LinkParts.join, LinkParts.queryPart, LinkParts.fragPart]
  have hmain : (⟨b, none, none⟩ : LinkParts).main ++ (⟨b, none, none⟩ : LinkParts).queryPart = b := List.append_nil b
  have hp : (⟨b, none, none⟩ : LinkParts).WF :=
    ⟨by rw [hmain]; exact hno _ (by decide +kernel), hno _ (by decide +kernel)⟩
  have hform : linkForm (str "vmess://" ++ b) = some (.json b) := by
    rcases linkForm_scheme hs hp with ⟨-, hf⟩ | ⟨hat, -⟩
    · rwa [← hj, hmain] at hf
    · rw [hmain] at hat
      exact absurd ⟨rfl, hno _ (by decide +kernel)⟩ hat
  have hstray : strayLink (str "vmess://" ++ b) = none := by
    rw [hj]
    exact strayLink_join hs hp (.inl rfl)
  rw [nodeParseShare_eq σ tok _ t (by rw [htrim]; exact hstray), htrim, linkRun_form, hform]
  rfl

/-- The base64 text of the JSON is read as it was written, unless it is too long for the tokener. -/
theorem parse_jsonLink (d : VmessData) (σ : Arith) {tok : Tokener} {text : Bytes} (hne : text ≠ []) {port : Json}
    (hp : port ∈ d.portValues) (htok : tok text = some (d.object port)) (t : Bytes) :
    nodeParseShare σ tok (jsonLink text ++ t) (jsonLink text).length =
      .ok (if text.length ≤ intMax then (0, d.node) else (-1, nodeInit)) := by
  have hdec : base64Decode (base64Encode text .init).bytes .init = (0, Strbuf.init.push text) := by
    rw [base64Encode_bytes]
    exact base64Decode_std text
  have hdata : (Strbuf.init.push text).data = some text := by
    rw [Strbuf.push_eq _ hne]
    rfl
  rw [nodeParseShare_jsonLink]
  by_cases hlen : text.length ≤ intMax
  · have hparsed : jsonxParse tok (some text) = some (d.object port) := by
      rw [jsonxParse, if_neg (by omega), htok]
      rfl
    obtain ⟨-, hadd, -, -, -, -, -, -, -, -, hps, -⟩ := d.object_string port
    have hnamed : ∀ v, jsonxGetString (d.object port) "ps" = some v → v.bytes ≠ [] := by
      intro v hv
      rw [hps] at hv
      cases hv
      rw [bytes_encodedName]
      exact d.text_ne.2.1
    have hrun := parseVmessJson_some.2 ⟨d.object port, d.server, d.port,
      ⟨by rw [hdec], by rw [hdec, hdata]; exact hparsed, hadd, d.object_port hp, by have := d.port_range; omega⟩, hnamed, rfl⟩
    rw [hrun, jsonName_object, jsonNode_object, if_pos hlen]
    rfl
  · have hparsed : jsonxParse tok (some text) = none := by
      rw [jsonxParse, if_pos (by omega)]
    rw [parseVmessJson, slice_self, ok_bind, hdec]
    simp only [ne_eq, not_true_eq_false, if_false, hdata, hparsed]
    rw [if_neg hlen]
    rfl

/-! ## The two forms -/

/-- The two forms agree unless the type is empty or the JSON is too long. -/
theorem formsAgree_iff (d : VmessData) {tok : Tokener} {text : Bytes} (hne : text ≠ []) {port : Json}
    (hp : port ∈ d.portValues) (htok : tok text = some (d.object port)) :
    d.FormsAgree tok text ↔ d.transport ≠ [] ∧ text.length ≤ intMax := by
  constructor
  · rintro ⟨n, hn⟩
    obtain ⟨huser, hjson⟩ := hn .machine []
    rw [parse_userLink] at huser
    rw [parse_jsonLink d .machine hne hp htok] at hjson
    constructor
    · intro ht
      rw [if_pos ht] at huser
      cases huser
    · by_contra hlen
      rw [if_neg hlen] at hjson
      cases hjson
  · rintro ⟨ht, hlen⟩
    refine ⟨d.node, fun σ t => ⟨?_, ?_⟩⟩
    · rw [parse_userLink, if_neg ht]
    · rw [parse_jsonLink d σ hne hp htok, if_pos hlen]

/-- Short data with this transport. -/
def sample (transport : String) : VmessData where
  uuid := .lit "u"
  server := .lit "h"
  form := .bare
  port := 1
  transport := str transport
  security := .none
  path := .lit "p"
  host := .lit "o"
  sni := .lit "s"
  alpn := .lit "a"
  fp := .lit "f"
  serviceName := .lit "g"
  name := .lit "n"
  texts_ne := by decide +kernel
  server_holds := by
    refine ⟨?_, ?_, ?_⟩ <;> decide +kernel
  port_range := by decide

/-- The JSON of the sample. -/
def sampleText (transport : String) : Bytes :=
  str "\x7b\"id\":\"u\",\"add\":\"h\",\"port\":1,\"net\":\"" ++ str transport ++
    str ("\",\"tls\":\"none\",\"path\":\"p\",\"host\":\"o\",\"sni\":\"s\",\"alpn\":\"a\",\"fp\":\"f\"," ++
      "\"serviceName\":\"g\",\"ps\":\"n\"\x7d")

theorem sample_size (transport : String) :
    ((sample transport).object (.int 1)).size ≤ (sampleText transport).length := by
  have hlen : ((sample transport).object (.int 1)).size + (sampleText "").length =
      ((sample "").object (.int 1)).size + (sampleText transport).length := by
    simp only [object, sample, Json.size, membersSize, sampleText, List.length_append]
    rw [show (str "").length = 0 from rfl]
    omega
  have hempty : ((sample "").object (.int 1)).size ≤ (sampleText "").length := by decide +kernel
  omega

/-- A tokener that knows this text. -/
def sampleTokener (transport : String) : Tokener := .only (sampleText transport) _ (sample_size transport)

theorem formsAgree_sample : (sample "ws").FormsAgree (sampleTokener "ws") (sampleText "ws") := by
  have hport : (.int 1 : Json) ∈ (sample "ws").portValues := List.mem_cons_self ..
  refine (formsAgree_iff (sample "ws") ?_ hport Tokener.only_self).2 ⟨?_, ?_⟩
  · decide +kernel
  · decide +kernel
  · decide +kernel

example : (sample "").userLink =
    str "vmess://u@h:1?type=&security=none&path=p&host=o&sni=s&alpn=a&fp=f&serviceName=g#n" := by decide +kernel

/-- With an empty type the link with a query is not read at all. -/
theorem forms_differ : (sampleTokener "" (sampleText "") = some ((sample "").object (.int 1))) ∧
    ¬ (sample "").FormsAgree (sampleTokener "") (sampleText "") := by
  refine ⟨Tokener.only_self, ?_⟩
  rintro ⟨n, hn⟩
  have huser := (hn .machine []).1
  rw [parse_userLink, if_pos (by decide +kernel)] at huser
  cases huser

end VmessData

end SubConverter
