/-
`parse_vless_outbound` in two parts: the fields every outbound must give, and the fields its stream
settings add to them.
-/
import SubConverter.Conv.Names
import SubConverter.Src.ConvSingbox

namespace SubConverter

open CMem

/-! ## The fields an outbound must give -/

/-- The fields of an accepted outbound: its first server and that server's first user. -/
structure OutboundFields (ob : Json) (address : CStr) (port : Int) (id : CStr) : Prop where
  proto : ∃ p, jsonxGetString ob "protocol" = some p ∧ p.is "vless" = true
  server : ∃ settings vnext v0 users u0, jsonxGetObj ob "settings" = some settings ∧
    jsonxGetArr settings "vnext" = some vnext ∧ jsonxArrObj vnext 0 = some v0 ∧
    jsonxGetString v0 "address" = some address ∧ jsonxGetInt v0 "port" = some port ∧
    jsonxGetArr v0 "users" = some users ∧ jsonxArrObj users 0 = some u0 ∧ jsonxGetString u0 "id" = some id

/-- The node before the stream settings are read. -/
def baseNode (address : CStr) (port : Int) (id : CStr) : ProxyNode :=
  { nodeInit with type := .vless, udp := true, server := some address, port := toInt32 port, uuid := some id }

theorem parseVlessOutbound_some {ob : Json} {n : ProxyNode} {tag : Option CStr} :
    parseVlessOutbound ob = some (n, tag) ↔ ∃ address port id, OutboundFields ob address port id ∧
      n = applyStream ob (baseNode address port id) ∧ tag = jsonxGetString ob "tag" := by
  unfold parseVlessOutbound
  constructor
  · intro h
    obtain ⟨p, hp, h⟩ := Option.bind_eq_some_iff.1 h
    by_cases hv : p.is "vless" = true
    · simp only [hv, Bool.not_true, Bool.false_eq_true, if_false] at h
      obtain ⟨settings, h1, h⟩ := Option.bind_eq_some_iff.1 h
      obtain ⟨vnext, h2, h⟩ := Option.bind_eq_some_iff.1 h
      obtain ⟨v0, h3, h⟩ := Option.bind_eq_some_iff.1 h
      obtain ⟨address, h4, h⟩ := Option.bind_eq_some_iff.1 h
      obtain ⟨port, h5, h⟩ := Option.bind_eq_some_iff.1 h
      obtain ⟨users, h6, h⟩ := Option.bind_eq_some_iff.1 h
      obtain ⟨u0, h7, h⟩ := Option.bind_eq_some_iff.1 h
      obtain ⟨id, h8, h⟩ := Option.bind_eq_some_iff.1 h
      cases h
      exact ⟨address, port, id, ⟨⟨p, hp, hv⟩, settings, vnext, v0, users, u0, h1, h2, h3, h4, h5, h6, h7, h8⟩, rfl, rfl⟩
    · simp [hv] at h
  · rintro ⟨address, port, id, ⟨⟨p, hp, hv⟩, settings, vnext, v0, users, u0, h1, h2, h3, h4, h5, h6, h7, h8⟩, rfl, rfl⟩
    simp only [hp, Option.bind_eq_bind, Option.bind_some, hv, Bool.not_true, Bool.false_eq_true, if_false, h1, h2, h3,
      h4, h5, h6, h7, h8]
    rfl

/-! ## The stream settings -/

/-- The `serverName` a settings block gives: empty when the block has none. -/
def blockName (ss : Json) (key : String) : Option CStr := (jsonxGetObj ss key).map fun b => getStringOr b "serverName"

/-- The node with its stream settings. -/
def streamNode (ss : Json) (n : ProxyNode) : ProxyNode :=
  applyTls ss (applyReality ss (applyXhttp ss (applyWs ss
    { n with tls := outboundTls ss, transport := outboundTransport ss })))

theorem applyStream_some {ob ss : Json} (h : jsonxGetObj ob "streamSettings" = some ss) (n : ProxyNode) :
    applyStream ob n = streamNode ss n := by
  rw [applyStream, h]
  rfl

theorem applyStream_none {ob : Json} (h : jsonxGetObj ob "streamSettings" = none) (n : ProxyNode) :
    applyStream ob n = n := by
  rw [applyStream, h]

/-- The `Host` of the headers of a `wsSettings` block. -/
def wsHostName (ws : Json) : CStr := (jsonxGetObj ws "headers").elim (.lit "") fun h => getStringOr h "Host"

theorem applyWs_eq (ss : Json) (n : ProxyNode) : applyWs ss n =
    { n with wsPath := (jsonxGetObj ss "wsSettings").elim n.wsPath fun b => some (getStringOr b "path"),
             wsHost := (jsonxGetObj ss "wsSettings").elim n.wsHost fun b => some (wsHostName b) } := by
  unfold applyWs wsHostName
  cases jsonxGetObj ss "wsSettings" with
  | none => rfl
  | some ws =>
    simp only [Option.elim_some]
    cases jsonxGetObj ws "headers" <;> rfl

theorem applyXhttp_eq (ss : Json) (n : ProxyNode) : applyXhttp ss n =
    { n with xhttpHost := (jsonxGetObj ss "xhttpSettings").elim n.xhttpHost fun b => some (getStringOr b "host"),
             xhttpPath := (jsonxGetObj ss "xhttpSettings").elim n.xhttpPath fun b => some (getStringOr b "path"),
             xhttpMode := (jsonxGetObj ss "xhttpSettings").elim n.xhttpMode fun b => some (getStringOr b "mode") } := by
  unfold applyXhttp
  cases jsonxGetObj ss "xhttpSettings" <;> rfl

theorem applyReality_eq (ss : Json) (n : ProxyNode) : applyReality ss n =
    { n with sni := (blockName ss "realitySettings").or n.sni,
             realityPbk := (jsonxGetObj ss "realitySettings").elim n.realityPbk fun b => some (getStringOr b "publicKey"),
             realitySid := (jsonxGetObj ss "realitySettings").elim n.realitySid fun b => some (getStringOr b "shortId"),
             fp := (jsonxGetObj ss "realitySettings").elim n.fp fun b => some (getStringOr b "fingerprint") } := by
  unfold applyReality blockName
  cases jsonxGetObj ss "realitySettings" <;> rfl

theorem applyTls_eq (ss : Json) (n : ProxyNode) : applyTls ss n =
    { n with sni := (blockName ss "tlsSettings").or n.sni } := by
  unfold applyTls blockName
  cases jsonxGetObj ss "tlsSettings" <;> rfl

/-- What each field is with the stream settings. -/
theorem streamNode_eq (ss : Json) (n : ProxyNode) : streamNode ss n =
    { n with
      tls := outboundTls ss
      transport := outboundTransport ss
      wsPath := (jsonxGetObj ss "wsSettings").elim n.wsPath fun b => some (getStringOr b "path")
      wsHost := (jsonxGetObj ss "wsSettings").elim n.wsHost fun b => some (wsHostName b)
      xhttpHost := (jsonxGetObj ss "xhttpSettings").elim n.xhttpHost fun b => some (getStringOr b "host")
      xhttpPath := (jsonxGetObj ss "xhttpSettings").elim n.xhttpPath fun b => some (getStringOr b "path")
      xhttpMode := (jsonxGetObj ss "xhttpSettings").elim n.xhttpMode fun b => some (getStringOr b "mode")
      sni := (blockName ss "tlsSettings").or ((blockName ss "realitySettings").or n.sni)
      realityPbk := (jsonxGetObj ss "realitySettings").elim n.realityPbk fun b => some (getStringOr b "publicKey")
      realitySid := (jsonxGetObj ss "realitySettings").elim n.realitySid fun b => some (getStringOr b "shortId")
      fp := (jsonxGetObj ss "realitySettings").elim n.fp fun b => some (getStringOr b "fingerprint") } := by
  rw [streamNode, applyTls_eq, applyReality_eq, applyXhttp_eq, applyWs_eq]

end SubConverter
