/-
The two input formats for one vless node: its values written in a share link, and in a JSON outbound.
They give the same block for the networks ws, xhttp and tcp and an address the link can be cut at; the
outbound parser does not know the networks grpc, http and h2.
-/
import SubConverter.Conv.Selected
import SubConverter.Emit.Skeleton
import SubConverter.Share.Encoded
import SubConverter.Share.Numbers

namespace SubConverter

open CMem Line

/-! ## The values of a node -/

inductive Network
  | ws | xhttp | grpc | http | h2 | tcp
  deriving DecidableEq

namespace Network

def text : Network → String
  | ws => "ws"
  | xhttp => "xhttp"
  | grpc => "grpc"
  | http => "http"
  | h2 => "h2"
  | tcp => "tcp"

/-- The networks of the outbound parser, and tcp. -/
def inBoth : Network → Bool
  | ws | xhttp | tcp => true
  | grpc | http | h2 => false

end Network

inductive Security
  | none | tls | reality
  deriving DecidableEq

namespace Security

def text : Security → String
  | none => "none"
  | tls => "tls"
  | reality => "reality"

end Security

/-- The values of a vless node. -/
structure VlessData where
  id : CStr
  address : CStr
  sni : CStr
  path : CStr
  host : CStr
  mode : CStr
  publicKey : CStr
  shortId : CStr
  fingerprint : CStr
  name : CStr
  port : Nat
  network : Network
  security : Security
  nonempty : ∀ s ∈ [id, address, sni, path, host, mode, publicKey, shortId, fingerprint, name], s.bytes ≠ []
  range : 1 ≤ port ∧ port ≤ 65535

namespace VlessData

/-- The parameters give the values; those that network and security do not select may be missing. -/
structure InQuery (d : VlessData) (ps : List KvPair) : Prop where
  pairs_ne : ∀ kv ∈ ps, kv.key.bytes ≠ [] ∧ kv.value.bytes ≠ []
  type : lastValue ps "type" = some (.lit d.network.text)
  security : lastValue ps "security" = some (.lit d.security.text)
  ws : d.network = .ws → lastValue ps "path" = some d.path ∧ lastValue ps "host" = some d.host
  xhttp : d.network = .xhttp → lastValue ps "path" = some d.path ∧ lastValue ps "host" = some d.host ∧
    lastValue ps "mode" = some d.mode
  sni : d.security ≠ .none → lastValue ps "sni" = some d.sni
  reality : d.security = .reality → lastValue ps "pbk" = some d.publicKey ∧ lastValue ps "sid" = some d.shortId ∧
    lastValue ps "fp" = some d.fingerprint

/-- The stream settings give the values in the settings blocks that match. -/
structure InStream (d : VlessData) (ss : Json) : Prop where
  network : jsonxGetString ss "network" = some (.lit d.network.text)
  security : jsonxGetString ss "security" = some (.lit d.security.text)
  ws : d.network = .ws → ∃ b headers, jsonxGetObj ss "wsSettings" = some b ∧ jsonxGetString b "path" = some d.path ∧
    jsonxGetObj b "headers" = some headers ∧ jsonxGetString headers "Host" = some d.host
  xhttp : d.network = .xhttp → ∃ b, jsonxGetObj ss "xhttpSettings" = some b ∧ jsonxGetString b "host" = some d.host ∧
    jsonxGetString b "path" = some d.path ∧ jsonxGetString b "mode" = some d.mode
  tls : d.security = .tls → ∃ b, jsonxGetObj ss "tlsSettings" = some b ∧ jsonxGetString b "serverName" = some d.sni
  reality : d.security = .reality → jsonxGetObj ss "tlsSettings" = none ∧ ∃ b,
    jsonxGetObj ss "realitySettings" = some b ∧ jsonxGetString b "serverName" = some d.sni ∧
      jsonxGetString b "publicKey" = some d.publicKey ∧ jsonxGetString b "shortId" = some d.shortId ∧
        jsonxGetString b "fingerprint" = some d.fingerprint

/-- The outbound gives the values. -/
structure InOutbound (d : VlessData) (ob : Json) : Prop where
  fields : OutboundFields ob d.address d.port d.id
  stream : ∃ ss, jsonxGetObj ob "streamSettings" = some ss ∧ d.InStream ss

/-- The texts of the link with these parameters. -/
def texts (d : VlessData) {ps : List KvPair} (h : d.InQuery ps) : LinkTexts where
  cred := d.id
  query := some ps
  name := d.name
  cred_ne := d.nonempty _ (by simp)
  pairs_ne := h.pairs_ne
  name_ne := d.nonempty _ (by simp)

/-- `vless://id@address:port?params#name`. -/
def link (d : VlessData) (f : HostForm) (ps : List KvPair) : Bytes :=
  str "vless://" ++ (encoded d.id ++ ch '@' :: f.text d.address d.port ++
    (ch '?' :: encodedQuery ps ++ ch '#' :: encoded d.name))

theorem link_eq (d : VlessData) (f : HostForm) {ps : List KvPair} (h : d.InQuery ps) :
    d.link f ps = str "vless://" ++ (d.texts h).body (f.text d.address d.port) := rfl

/-! ## The nodes -/

/-- The node of the link. -/
def linkNode (d : VlessData) {ps : List KvPair} (h : d.InQuery ps) : ProxyNode :=
  (d.texts h).node .vless d.address d.port

/-- The node of the outbound with these stream settings. -/
def outboundNode (d : VlessData) (ss : Json) : ProxyNode := streamNode ss (baseNode d.address d.port d.id)

theorem linkNode_modes (d : VlessData) {ps : List KvPair} (h : d.InQuery ps) :
    (d.linkNode h).transport = linkTransport (.lit d.network.text) ∧
      (d.linkNode h).tls = linkTls (.lit d.security.text) := by
  constructor
  · show ((lastValue ps "type").map linkTransport).getD .none = _
    rw [h.type]
    rfl
  · show ((lastValue ps "security").map linkTls).getD .none = _
    rw [h.security]
    rfl

theorem outboundNode_modes (d : VlessData) {ss : Json} (h : d.InStream ss) :
    (d.outboundNode ss).transport = (if d.network = .ws then .ws else if d.network = .xhttp then .xhttp else .none) ∧
      (d.outboundNode ss).tls = linkTls (.lit d.security.text) := by
  rw [outboundNode, streamNode_eq]
  constructor
  · show outboundTransport ss = _
    rw [outboundTransport, h.network]
    cases d.network <;> decide +kernel
  · show outboundTls ss = _
    rw [outboundTls, h.security]
    cases d.security <;> decide +kernel

theorem modes_agree {d : VlessData} (hn : d.network.inBoth = true) {ps : List KvPair} (h : d.InQuery ps) {ss : Json}
    (hs : d.InStream ss) : (d.linkNode h).transport = (d.outboundNode ss).transport ∧
      (d.linkNode h).tls = (d.outboundNode ss).tls := by
  rw [(d.linkNode_modes h).1, (d.linkNode_modes h).2, (d.outboundNode_modes hs).1, (d.outboundNode_modes hs).2]
  refine ⟨?_, rfl⟩
  revert hn
  cases d.network <;> decide +kernel

theorem ws_agree {d : VlessData} (hn : d.network = .ws) {ps : List KvPair} (h : d.InQuery ps) {ss : Json}
    (hs : d.InStream ss) : (d.linkNode h).wsPath = (d.outboundNode ss).wsPath ∧
      (d.linkNode h).wsHost = (d.outboundNode ss).wsHost := by
  have htransport : (d.texts h).transport = .ws := (d.linkNode_modes h).1.trans (by rw [hn]; decide +kernel)
  obtain ⟨hpath, hhost⟩ := h.ws hn
  obtain ⟨b, headers, hb, hbpath, hheaders, hbhost⟩ := hs.ws hn
  rw [outboundNode, streamNode_eq]
  constructor
  · show (if (d.texts h).transport = .ws then lastValue ps "path" else none) = _
    simp only [if_pos htransport, hpath, hb, Option.elim_some, getStringOr, hbpath, Option.getD_some]
  · show (if (d.texts h).transport = .ws then lastValue ps "host" else none) = _
    simp only [if_pos htransport, hhost, hb, Option.elim_some, wsHostName, hheaders, getStringOr, hbhost,
      Option.getD_some]

theorem xhttp_agree {d : VlessData} (hn : d.network = .xhttp) {ps : List KvPair} (h : d.InQuery ps) {ss : Json}
    (hs : d.InStream ss) : (d.linkNode h).xhttpHost = (d.outboundNode ss).xhttpHost ∧
      (d.linkNode h).xhttpPath = (d.outboundNode ss).xhttpPath ∧
        (d.linkNode h).xhttpMode = (d.outboundNode ss).xhttpMode := by
  have htransport : (d.texts h).transport ≠ .ws := by
    rw [show (d.texts h).transport = _ from (d.linkNode_modes h).1, hn]
    decide +kernel
  obtain ⟨hpath, hhost, hmode⟩ := h.xhttp hn
  obtain ⟨b, hb, hbhost, hbpath, hbmode⟩ := hs.xhttp hn
  rw [outboundNode, streamNode_eq]
  refine ⟨?_, ?_, ?_⟩
  · show (if (d.texts h).transport = .ws then none else lastValue ps "host") = _
    simp only [if_neg htransport, hhost, hb, Option.elim_some, getStringOr, hbhost, Option.getD_some]
  · show (if (d.texts h).transport = .ws then none else lastValue ps "path") = _
    simp only [if_neg htransport, hpath, hb, Option.elim_some, getStringOr, hbpath, Option.getD_some]
  · show lastValue ps "mode" = _
    simp only [hmode, hb, Option.elim_some, getStringOr, hbmode, Option.getD_some]

theorem reality_agree {d : VlessData} (hsec : d.security = .reality) {ps : List KvPair} (h : d.InQuery ps) {ss : Json}
    (hs : d.InStream ss) : (d.linkNode h).fp = (d.outboundNode ss).fp ∧
      (d.linkNode h).realityPbk = (d.outboundNode ss).realityPbk ∧
        (d.linkNode h).realitySid = (d.outboundNode ss).realitySid := by
  obtain ⟨hpbk, hsid, hfp⟩ := h.reality hsec
  obtain ⟨-, b, hb, -, hbpbk, hbsid, hbfp⟩ := hs.reality hsec
  rw [outboundNode, streamNode_eq]
  refine ⟨?_, ?_, ?_⟩
  · show lastValue ps "fp" = _
    simp only [hfp, hb, Option.elim_some, getStringOr, hbfp, Option.getD_some]
  · show lastValue ps "pbk" = _
    simp only [hpbk, hb, Option.elim_some, getStringOr, hbpbk, Option.getD_some]
  · show lastValue ps "sid" = _
    simp only [hsid, hb, Option.elim_some, getStringOr, hbsid, Option.getD_some]

/-- Both show the servername given, and none without security. -/
theorem name_agree {d : VlessData} {ps : List KvPair} (h : d.InQuery ps) {ss : Json} (hs : d.InStream ss) :
    shownName (d.linkNode h) = shownName (d.outboundNode ss) := by
  have htls := (d.linkNode_modes h).2
  rw [outboundNode, shownName_stream, shownName, htls]
  have hmode : outboundTls ss = linkTls (.lit d.security.text) := by
    have := (d.outboundNode_modes hs).2
    rwa [outboundNode, streamNode_eq] at this
  rw [hmode]
  have hsni : d.security ≠ .none → (d.linkNode h).sni = some d.sni := h.sni
  cases hsec : d.security with
  | none => rfl
  | tls =>
    obtain ⟨b, hb, hname⟩ := hs.tls hsec
    rw [hsni (by simp [hsec]), blockName, hb, Option.map_some, getStringOr, hname]
    rfl
  | reality =>
    obtain ⟨hnone, b, hb, hname, -⟩ := hs.reality hsec
    rw [hsni (by simp [hsec]), blockName, blockName, hnone, hb, Option.map_some, getStringOr, hname]
    rfl

/-- The two nodes show the same. -/
theorem nodes_agree {d : VlessData} (hn : d.network.inBoth = true) {ps : List KvPair} (h : d.InQuery ps) {ss : Json}
    (hs : d.InStream ss) : SameShown (d.linkNode h) (d.outboundNode ss) := by
  obtain ⟨htransport, htls⟩ := modes_agree hn h hs
  have hws : (d.linkNode h).transport = .ws → d.network = .ws := by
    rw [(d.linkNode_modes h).1]
    cases d.network <;> decide +kernel
  have hxhttp : (d.linkNode h).transport = .xhttp → d.network = .xhttp := by
    rw [(d.linkNode_modes h).1]
    cases d.network <;> decide +kernel
  have hreality : (d.linkNode h).tls = .reality → d.security = .reality := by
    rw [(d.linkNode_modes h).2]
    cases d.security <;> decide +kernel
  have hport : toInt32 d.port = d.port := toInt32_of_fits (by have := d.range; unfold FitsInt; omega)
  have hbase : (d.outboundNode ss).type = .vless ∧ (d.outboundNode ss).server = some d.address ∧
      (d.outboundNode ss).port = d.port ∧ (d.outboundNode ss).uuid = some d.id ∧ (d.outboundNode ss).udp = true := by
    rw [outboundNode, streamNode_eq]
    simp only [baseNode, hport, and_self]
  obtain ⟨htype, hserver, hport, huuid, hudp⟩ := hbase
  exact ⟨htype.symm, hserver.symm, hport.symm, huuid.symm, hudp.symm, htransport, htls,
    fun hr => reality_agree (hreality hr) h hs, fun hw => ws_agree (hws hw) h hs, fun hx => xhttp_agree (hxhttp hx) h hs⟩

end VlessData

/-! ## The blocks -/

/-- Equal blocks show the same server and the same network. -/
theorem emit_shows {n m : ProxyNode} (hn : n.type = .vless) (hm : m.type = .vless) {out : Strbuf}
    (h : nodeEmitYaml out n = nodeEmitYaml out m) :
    nvl n.server = nvl m.server ∧ networkName n.transport = networkName m.transport := by
  rw [nodeEmitYaml_eq, nodeEmitYaml_eq] at h
  have hbytes := congrArg (fun p : Int × Strbuf => p.2.bytes) h
  simp only [Strbuf.bytes_appendLines, List.append_cancel_left_eq] at hbytes
  have hlines := congrArg (List.splitOn 10) hbytes
  rw [splitOn_lines (keyOk_nodeLines n), splitOn_lines (keyOk_nodeLines m), List.append_cancel_right_eq] at hlines
  simp only [nodeLines, hn, hm, vlessLines_eq, vlessHead, List.cons_append, List.map_cons, List.zipWith_cons_cons,
    List.cons.injEq] at hlines
  obtain ⟨-, -, hserver, -, -, -, hnetwork, -⟩ := hlines
  exact ⟨strKv_injective hserver, strKv_injective hnetwork⟩

/-- The link and the outbound are accepted, and emitted under one name they give the same block. -/
def SameBlock (σ : Arith) (tok : Tokener) (line t : Bytes) (ob : Json) (name : CStr) (out : Strbuf) : Prop :=
  ∃ n m tag, nodeParseShare σ tok (line ++ t) line.length = .ok (0, n) ∧ parseVlessOutbound ob = some (m, tag) ∧
    nodeEmitYaml out n = nodeEmitYaml out (setName m name)

namespace VlessData

section

variable (σ : Arith) (tok : Tokener) (t : Bytes) (out : Strbuf)

theorem vless_scheme : (NodeType.vless, "vless://") ∈ userSchemes := by simp [userSchemes]

theorem parse_outboundNode {d : VlessData} {ob : Json} (h : d.InOutbound ob) : ∃ ss, d.InStream ss ∧
    parseVlessOutbound ob = some (d.outboundNode ss, jsonxGetString ob "tag") := by
  obtain ⟨ss, hss, hs⟩ := h.stream
  exact ⟨ss, hs, parseVlessOutbound_some.2 ⟨_, _, _, h.fields, (applyStream_some hss _).symm, rfl⟩⟩

theorem parse_linkNode (d : VlessData) {f : HostForm} (hf : f.Holds d.address) {ps : List KvPair} (h : d.InQuery ps) :
    nodeParseShare σ tok (d.link f ps ++ t) (d.link f ps).length = .ok (0, d.linkNode h) := by
  obtain ⟨hhash, hquest⟩ := hf.text_clean d.port
  rw [link_eq d f h]
  exact (d.texts h).parse_body σ tok vless_scheme hhash hquest
    (hostPort_text hf (d.nonempty _ (by simp)) d.range.1 d.range.2) t

/-- The address is read back where it holds, and only there. -/
theorem SameBlock.holds {d : VlessData} {f : HostForm} {ps : List KvPair} (h : d.InQuery ps) {ob : Json}
    (ho : d.InOutbound ob) (hb : SameBlock σ tok (d.link f ps) t ob d.name out) : f.Holds d.address := by
  obtain ⟨ss, -, hparse⟩ := parse_outboundNode ho
  obtain ⟨n, m, tag, hn, hm, heq⟩ := hb
  rw [hparse] at hm
  cases hm
  rw [link_eq d f h] at hn
  obtain ⟨_, cred, server, i, frag, pairs, -, -, hnode⟩ := (d.texts h).hostPort_of_accepted vless_scheme hn
  have ht : (setName (d.outboundNode ss) d.name).type = .vless ∧
      nvl (setName (d.outboundNode ss) d.name).server = d.address := by
    rw [outboundNode, streamNode_eq]
    exact ⟨rfl, rfl⟩
  have htype : n.type = .vless := by
    rw [hnode]
    exact (userNode_keeps ..).1
  exact (d.texts h).holds_of_server vless_scheme hn ((emit_shows htype ht.1 heq).1.trans ht.2)

/-- Only the networks of both parsers give the same block. -/
theorem SameBlock.network {d : VlessData} {f : HostForm} {ps : List KvPair} (h : d.InQuery ps) {ob : Json}
    (ho : d.InOutbound ob) (hb : SameBlock σ tok (d.link f ps) t ob d.name out) : d.network.inBoth = true := by
  have hf := SameBlock.holds σ tok t out h ho hb
  obtain ⟨ss, hs, hparse⟩ := parse_outboundNode ho
  obtain ⟨n, m, tag, hn, hm, heq⟩ := hb
  rw [hparse] at hm
  cases hm
  rw [parse_linkNode σ tok t d hf h] at hn
  cases hn
  have ht : (setName (d.outboundNode ss) d.name).type = .vless := by
    rw [outboundNode, streamNode_eq]
    rfl
  have hnet : networkName (d.linkNode h).transport = networkName (d.outboundNode ss).transport :=
    (emit_shows rfl ht heq).2
  rw [(d.linkNode_modes h).1, (d.outboundNode_modes hs).1] at hnet
  revert hnet
  cases d.network <;> decide +kernel

theorem sameBlock {d : VlessData} (hn : d.network.inBoth = true) {f : HostForm} (hf : f.Holds d.address)
    {ps : List KvPair} (h : d.InQuery ps) {ob : Json} (ho : d.InOutbound ob) :
    SameBlock σ tok (d.link f ps) t ob d.name out := by
  obtain ⟨ss, hs, hparse⟩ := parse_outboundNode ho
  refine ⟨d.linkNode h, _, _, parse_linkNode σ tok t d hf h, hparse, ?_⟩
  exact ((nodes_agree hn h hs).emit_iff rfl d.name out).2 (name_agree h hs)

/-- A link and an outbound with the values of one node give the same block exactly for the networks that
both parsers know and an address that is found again in the link. -/
theorem sameBlock_iff (d : VlessData) (f : HostForm) {ps : List KvPair} (h : d.InQuery ps) {ob : Json}
    (ho : d.InOutbound ob) :
    SameBlock σ tok (d.link f ps) t ob d.name out ↔ d.network.inBoth = true ∧ f.Holds d.address := by
  constructor
  · intro hb
    exact ⟨SameBlock.network σ tok t out h ho hb, SameBlock.holds σ tok t out h ho hb⟩
  · rintro ⟨hn, hf⟩
    exact sameBlock σ tok t out hn hf h ho

end

/-! ## Writing the values -/

/-- All values as parameters. -/
def query (d : VlessData) : List KvPair :=
  [⟨.lit "type", .lit d.network.text⟩, ⟨.lit "security", .lit d.security.text⟩, ⟨.lit "path", d.path⟩,
   ⟨.lit "host", d.host⟩, ⟨.lit "mode", d.mode⟩, ⟨.lit "sni", d.sni⟩, ⟨.lit "pbk", d.publicKey⟩,
   ⟨.lit "sid", d.shortId⟩, ⟨.lit "fp", d.fingerprint⟩]

def member (key : String) (s : CStr) : Bytes × Json := (str key, .str s.bytes)

def headers (d : VlessData) : Json := .obj [member "Host" d.host]

def wsSettings (d : VlessData) : Json := .obj [member "path" d.path, (str "headers", d.headers)]

def xhttpSettings (d : VlessData) : Json := .obj [member "host" d.host, member "path" d.path, member "mode" d.mode]

def tlsSettings (d : VlessData) : Json := .obj [member "serverName" d.sni]

def realitySettings (d : VlessData) : Json :=
  .obj [member "serverName" d.sni, member "publicKey" d.publicKey, member "shortId" d.shortId,
    member "fingerprint" d.fingerprint]

/-- The settings block of the network. -/
def networkBlock (d : VlessData) : List (Bytes × Json) :=
  match d.network with
  | .ws => [(str "wsSettings", d.wsSettings)]
  | .xhttp => [(str "xhttpSettings", d.xhttpSettings)]
  | _ => []

/-- The settings block of the security. -/
def securityBlock (d : VlessData) : List (Bytes × Json) :=
  match d.security with
  | .none => []
  | .tls => [(str "tlsSettings", d.tlsSettings)]
  | .reality => [(str "realitySettings", d.realitySettings)]

def stream (d : VlessData) : Json :=
  .obj (member "network" (.lit d.network.text) :: member "security" (.lit d.security.text) ::
    (d.networkBlock ++ d.securityBlock))

/-- The outbound with the matching settings blocks. -/
def outbound (d : VlessData) : Json :=
  .obj [(str "protocol", .str (str "vless")),
    (str "settings", .obj [(str "vnext", .arr [.obj [member "address" d.address, (str "port", .int d.port),
      (str "users", .arr [.obj [member "id" d.id]])]])]),
    (str "streamSettings", d.stream)]

theorem getString_member {v : Json} {key : String} {s : CStr} (h : jsonxObjGet v key = some (.str s.bytes)) :
    jsonxGetString v key = some s := by
  rw [jsonxGetString, h]
  exact congrArg some (CStr.ofBytes_self s)

theorem inQuery_query (d : VlessData) : d.InQuery d.query where
  pairs_ne := by
    have hne := d.nonempty
    simp only [List.forall_mem_cons, List.not_mem_nil, IsEmpty.forall_iff, implies_true, and_true] at hne
    obtain ⟨-, -, hsni, hpath, hhost, hmode, hpbk, hsid, hfp, -⟩ := hne
    have hnetwork : (CStr.lit d.network.text).bytes ≠ [] := by cases d.network <;> decide
    have hsecurity : (CStr.lit d.security.text).bytes ≠ [] := by cases d.security <;> decide
    simp only [query, List.forall_mem_cons, List.not_mem_nil, IsEmpty.forall_iff, implies_true, and_true]
    exact ⟨⟨by decide, hnetwork⟩, ⟨by decide, hsecurity⟩, ⟨by decide, hpath⟩, ⟨by decide, hhost⟩, ⟨by decide, hmode⟩,
      ⟨by decide, hsni⟩, ⟨by decide, hpbk⟩, ⟨by decide, hsid⟩, by decide, hfp⟩
  type := rfl
  security := rfl
  ws _ := ⟨rfl, rfl⟩
  xhttp _ := ⟨rfl, rfl, rfl⟩
  sni _ := rfl
  reality _ := ⟨rfl, rfl, rfl⟩

theorem inStream_stream (d : VlessData) : d.InStream d.stream where
  network := getString_member rfl
  security := getString_member rfl
  ws hn := by
    refine ⟨d.wsSettings, d.headers, ?_, getString_member rfl, rfl, getString_member rfl⟩
    rw [stream, networkBlock, hn]
    rfl
  xhttp hn := by
    refine ⟨d.xhttpSettings, ?_, getString_member rfl, getString_member rfl, getString_member rfl⟩
    rw [stream, networkBlock, hn]
    rfl
  tls hs := by
    refine ⟨d.tlsSettings, ?_, getString_member rfl⟩
    rw [stream, networkBlock, securityBlock, hs]
    cases d.network <;> rfl
  reality hs := by
    constructor
    · rw [stream, networkBlock, securityBlock, hs]
      cases d.network <;> rfl
    · refine ⟨d.realitySettings, ?_, getString_member rfl, getString_member rfl, getString_member rfl,
        getString_member rfl⟩
      rw [stream, networkBlock, securityBlock, hs]
      cases d.network <;> rfl

theorem inOutbound_outbound (d : VlessData) : d.InOutbound d.outbound where
  fields := by
    have hport : jsonxInt d.port = d.port := by
      have := d.range
      unfold jsonxInt
      omega
    exact ⟨⟨_, rfl, by decide⟩, _, _, _, _, _, rfl, rfl, rfl, getString_member rfl, congrArg some hport, rfl, rfl,
      getString_member rfl⟩
  stream := ⟨d.stream, rfl, d.inStream_stream⟩

/-! ## Two nodes -/

/-- A node with this network behind tls. -/
def plain (network : Network) : VlessData where
  id := .lit "u"
  address := .lit "h"
  sni := .lit "s"
  path := .lit "/p"
  host := .lit "o"
  mode := .lit "auto"
  publicKey := .lit "k"
  shortId := .lit "1"
  fingerprint := .lit "chrome"
  name := .lit "n"
  port := 8443
  network := network
  security := .tls
  nonempty := by decide
  range := by decide

theorem sameBlock_iff_ws :
    SameBlock .machine .refusing ((plain .ws).link .bare (plain .ws).query) [0] (plain .ws).outbound (.lit "n")
        .init ↔
      (plain .ws).network.inBoth = true ∧ HostForm.bare.Holds (plain .ws).address :=
  sameBlock_iff .machine .refusing [0] .init (plain .ws) .bare (plain .ws).inQuery_query
    (plain .ws).inOutbound_outbound

/-- Both accept the network grpc, and their blocks differ. -/
theorem grpc_differs : (plain .grpc).link .bare (plain .grpc).query =
      str "vless://u@h:8443?type=grpc&security=tls&path=%2Fp&host=o&mode=auto&sni=s&pbk=k&sid=1&fp=chrome#n" ∧
    HostForm.bare.Holds (plain .grpc).address ∧ (plain .grpc).InQuery (plain .grpc).query ∧
    (plain .grpc).InOutbound (plain .grpc).outbound ∧
    ¬ SameBlock .machine .refusing ((plain .grpc).link .bare (plain .grpc).query) [0] (plain .grpc).outbound
      (.lit "n") .init := by
  refine ⟨by decide +kernel, ⟨by decide, by decide, by decide⟩, inQuery_query _, inOutbound_outbound _, fun hb => ?_⟩
  have h := SameBlock.network .machine .refusing [0] .init (inQuery_query (plain .grpc)) (inOutbound_outbound _) hb
  exact absurd h (by decide)

end VlessData

end SubConverter
