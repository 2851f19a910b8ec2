/-
What the block of a JSON outbound depends on. The settings blocks that network and security do not
select are not emitted, but the name of an unselected `tlsSettings` replaces the one of `realitySettings`,
and the name of an unselected `realitySettings` is used where `tlsSettings` is missing.
-/
import SubConverter.Conv.Outbound
import SubConverter.Emit.Skeleton

namespace SubConverter

open CMem Line

/-! ## The block of a vless node -/

/-- The servername that is written, empty for none. -/
def shownName (n : ProxyNode) : CStr := if n.tls = .none then .lit "" else nvl n.sni

/-- The line of a servername. -/
def nameLine (s : CStr) : List Line := if s.bytes = [] then [] else [strKv 4 "servername" s]

/-- The lines before the servername. -/
def vlessHead (n : ProxyNode) : List Line :=
  [itemKv 2 "name" (nvl n.name), strKv 4 "type" (.lit "vless"), strKv 4 "server" (nvl n.server),
   kv 4 "port" (some (.int n.port)), strKv 4 "uuid" (nvl n.uuid), kv 4 "udp" (some (.bool n.udp)),
   strKv 4 "network" (networkName n.transport), kv 4 "tls" (some (.bool (n.tls != .none)))]

/-- The lines behind it. -/
def vlessTail (n : ProxyNode) : List Line :=
  (if n.tls = .reality then realityLines n else []) ++
    ((if n.transport = .ws then wsLines n else []) ++ if n.transport = .xhttp then xhttpLines n else [])

theorem vlessLines_eq (n : ProxyNode) : vlessLines n = vlessHead n ++ (nameLine (shownName n) ++ vlessTail n) := by
  have hname : optKv (n.tls != .none && given n.sni) 4 "servername" n.sni = nameLine (shownName n) := by
    unfold optKv nameLine shownName
    by_cases htls : n.tls = .none
    · simp [htls, CStr.lit, CStr.ofBytes, str]
    · cases hs : n.sni with
      | none => simp [htls, given, nvl, CStr.lit, CStr.ofBytes, str]
      | some s => simp [htls, given, nvl, strKv]
  rw [vlessLines, hname]
  rfl

/-- The fields of a node that a vless block shows besides its servername and its name. -/
structure SameShown (n m : ProxyNode) : Prop where
  type : n.type = m.type
  server : n.server = m.server
  port : n.port = m.port
  uuid : n.uuid = m.uuid
  udp : n.udp = m.udp
  transport : n.transport = m.transport
  tls : n.tls = m.tls
  reality : n.tls = .reality → n.fp = m.fp ∧ n.realityPbk = m.realityPbk ∧ n.realitySid = m.realitySid
  ws : n.transport = .ws → n.wsPath = m.wsPath ∧ n.wsHost = m.wsHost
  xhttp : n.transport = .xhttp → n.xhttpHost = m.xhttpHost ∧ n.xhttpPath = m.xhttpPath ∧ n.xhttpMode = m.xhttpMode

theorem SameShown.head {n m : ProxyNode} (h : SameShown n m) (name : CStr) :
    vlessHead (setName n name) = vlessHead (setName m name) := by
  simp only [vlessHead, setName, h.server, h.port, h.uuid, h.udp, h.transport, h.tls]

theorem SameShown.tail {n m : ProxyNode} (h : SameShown n m) : vlessTail n = vlessTail m := by
  have hreality : (if n.tls = .reality then realityLines n else []) = if n.tls = .reality then realityLines m else [] := by
    by_cases hr : n.tls = .reality
    · obtain ⟨h1, h2, h3⟩ := h.reality hr
      rw [if_pos hr, if_pos hr, realityLines, realityLines, h1, h2, h3]
    · rw [if_neg hr, if_neg hr]
  have hws : (if n.transport = .ws then wsLines n else []) = if n.transport = .ws then wsLines m else [] := by
    by_cases hw : n.transport = .ws
    · obtain ⟨h1, h2⟩ := h.ws hw
      rw [if_pos hw, if_pos hw, wsLines, wsLines, h1, h2]
    · rw [if_neg hw, if_neg hw]
  have hxhttp : (if n.transport = .xhttp then xhttpLines n else []) = if n.transport = .xhttp then xhttpLines m else [] := by
    by_cases hx : n.transport = .xhttp
    · obtain ⟨h1, h2, h3⟩ := h.xhttp hx
      rw [if_pos hx, if_pos hx, xhttpLines, xhttpLines, h1, h2, h3]
    · rw [if_neg hx, if_neg hx]
  rw [vlessTail, vlessTail, ← h.tls, ← h.transport, hreality, hws, hxhttp]

/-- Different names have different texts. -/
theorem nameLine_injective {s t : CStr} (h : (nameLine s).flatMap Line.text = (nameLine t).flatMap Line.text) :
    s = t := by
  unfold nameLine at h
  split at h <;> split at h
  · rename_i hs ht
    exact CStr.ext (hs.trans ht.symm)
  · simp [Line.text] at h
  · simp [Line.text] at h
  · rw [List.flatMap_singleton, List.flatMap_singleton, Line.text, Line.text, ← List.append_assoc, ← List.append_assoc,
      List.append_cancel_right_eq] at h
    exact strKv_injective h

/-- Two vless nodes that show the same have the same block exactly when they show the same servername. -/
theorem SameShown.emit_iff {n m : ProxyNode} (h : SameShown n m) (ht : n.type = .vless) (name : CStr) (out : Strbuf) :
    nodeEmitYaml out (setName n name) = nodeEmitYaml out (setName m name) ↔ shownName n = shownName m := by
  have hlines : ∀ k : ProxyNode, k.type = .vless → nodeLines (setName k name) = vlessLines (setName k name) := by
    intro k hk
    rw [nodeLines, show (setName k name).type = k.type from rfl, hk]
  have hshown : ∀ k : ProxyNode, shownName (setName k name) = shownName k := fun k => rfl
  have htail : vlessTail (setName n name) = vlessTail (setName m name) := h.tail
  rw [nodeEmitYaml_eq, nodeEmitYaml_eq, hlines n ht, hlines m (h.type ▸ ht), vlessLines_eq, vlessLines_eq, h.head,
    htail, hshown, hshown, show (setName n name).type = (setName m name).type from h.type]
  constructor
  · intro heq
    have hbytes := congrArg (fun p : Int × Strbuf => p.2.bytes) heq
    simp only [Strbuf.bytes_appendLines, List.flatMap_append, List.append_cancel_left_eq,
      List.append_cancel_right_eq] at hbytes
    exact nameLine_injective hbytes
  · intro heq
    rw [heq]

/-! ## Two outbounds -/

/-- The value of a member, as the accessors find it. -/
def objGet (v : Json) (k : Bytes) : Option Json :=
  match v with
  | .obj members => Json.ptr ((members.find? fun m => m.1 == k).map (·.2))
  | _ => none

theorem jsonxObjGet_eq (v : Json) (key : String) : jsonxObjGet v key = objGet v (str key) := by cases v <;> rfl

/-- The settings blocks that network and security do not select. -/
def Unselected (ss : Json) (k : Bytes) : Prop :=
  (k = str "wsSettings" ∧ outboundTransport ss ≠ .ws) ∨ (k = str "xhttpSettings" ∧ outboundTransport ss ≠ .xhttp) ∨
    (k = str "tlsSettings" ∧ outboundTls ss ≠ .tls) ∨ (k = str "realitySettings" ∧ outboundTls ss ≠ .reality)

/-- The second outbound has the fields of the first one, but for settings blocks that are not selected. -/
structure SameSelected (ob ob' : Json) : Prop where
  fields : ∀ k, k ≠ str "streamSettings" → objGet ob' k = objGet ob k
  stream : (jsonxGetObj ob "streamSettings" = none ∧ jsonxGetObj ob' "streamSettings" = none) ∨
    ∃ ss ss', jsonxGetObj ob "streamSettings" = some ss ∧ jsonxGetObj ob' "streamSettings" = some ss' ∧
      ∀ k, ¬ Unselected ss k → objGet ss' k = objGet ss k

/-- The names that the block which is not selected gives: with security reality the one of `tlsSettings`
in place of the selected one, with security tls the one of `realitySettings` if there is no `tlsSettings`. -/
def StrayNamesAgree (ss ss' : Json) : Prop :=
  match outboundTls ss with
  | .none => True
  | .reality => (blockName ss "tlsSettings").getD (nvl (blockName ss "realitySettings")) =
      (blockName ss' "tlsSettings").getD (nvl (blockName ss "realitySettings"))
  | .tls => blockName ss "tlsSettings" = none →
      nvl (blockName ss "realitySettings") = nvl (blockName ss' "realitySettings")

/-- The selected block alone gives the servername: with security reality, `tlsSettings` gives no other one;
with security tls, `tlsSettings` is there or `realitySettings` gives none. -/
def NoStrayName (ss : Json) : Prop :=
  match outboundTls ss with
  | .none => True
  | .reality => ∀ s, blockName ss "tlsSettings" = some s → s = nvl (blockName ss "realitySettings")
  | .tls => blockName ss "tlsSettings" = none → nvl (blockName ss "realitySettings") = .lit ""

/-- The `serverName` of the selected block, empty when it gives none. -/
def selectedName (ss : Json) : CStr :=
  match outboundTls ss with
  | .none => .lit ""
  | .tls => nvl (blockName ss "tlsSettings")
  | .reality => nvl (blockName ss "realitySettings")

/-- The members of the stream settings that are read. -/
def streamKeys : List String :=
  ["network", "security", "wsSettings", "xhttpSettings", "tlsSettings", "realitySettings"]

theorem unselected_iff {ss : Json} {key : String} (hk : key ∈ streamKeys) : Unselected ss (str key) ↔
    (key = "wsSettings" ∧ outboundTransport ss ≠ .ws) ∨ (key = "xhttpSettings" ∧ outboundTransport ss ≠ .xhttp) ∨
      (key = "tlsSettings" ∧ outboundTls ss ≠ .tls) ∨ (key = "realitySettings" ∧ outboundTls ss ≠ .reality) := by
  have hall : ∀ a ∈ streamKeys, ∀ b ∈ streamKeys, str a = str b → a = b := by decide +kernel
  have hinj : ∀ b ∈ streamKeys, (str key = str b ↔ key = b) := fun b hb => ⟨hall key hk b hb, congrArg str⟩
  rw [Unselected, hinj _ (by simp [streamKeys]), hinj _ (by simp [streamKeys]), hinj _ (by simp [streamKeys]),
    hinj _ (by simp [streamKeys])]

theorem not_unselected_modes (ss : Json) : ¬ Unselected ss (str "network") ∧ ¬ Unselected ss (str "security") := by
  rw [unselected_iff (by simp [streamKeys]), unselected_iff (by simp [streamKeys])]
  simp

theorem not_unselected_ws {ss : Json} (h : outboundTransport ss = .ws) : ¬ Unselected ss (str "wsSettings") := by
  rw [unselected_iff (by simp [streamKeys])]
  simp [h]

theorem not_unselected_xhttp {ss : Json} (h : outboundTransport ss = .xhttp) :
    ¬ Unselected ss (str "xhttpSettings") := by
  rw [unselected_iff (by simp [streamKeys])]
  simp [h]

theorem not_unselected_tls {ss : Json} (h : outboundTls ss = .tls) : ¬ Unselected ss (str "tlsSettings") := by
  rw [unselected_iff (by simp [streamKeys])]
  simp [h]

theorem not_unselected_reality {ss : Json} (h : outboundTls ss = .reality) :
    ¬ Unselected ss (str "realitySettings") := by
  rw [unselected_iff (by simp [streamKeys])]
  simp [h]

section Stream

variable {ss ss' : Json} (h : ∀ k, ¬ Unselected ss k → objGet ss' k = objGet ss k)
include h

theorem getString_of_selected {key : String} (hk : ¬ Unselected ss (str key)) :
    jsonxGetString ss' key = jsonxGetString ss key := by
  rw [jsonxGetString, jsonxGetString, jsonxObjGet_eq, jsonxObjGet_eq, h _ hk]

theorem getObj_of_selected {key : String} (hk : ¬ Unselected ss (str key)) :
    jsonxGetObj ss' key = jsonxGetObj ss key := by
  rw [jsonxGetObj, jsonxGetObj, jsonxObjGet_eq, jsonxObjGet_eq, h _ hk]

theorem selected_modes : outboundTls ss' = outboundTls ss ∧ outboundTransport ss' = outboundTransport ss := by
  constructor
  · rw [outboundTls, outboundTls, getString_of_selected h (not_unselected_modes ss).2]
  · rw [outboundTransport, outboundTransport, getString_of_selected h (not_unselected_modes ss).1]

end Stream

theorem shownName_stream (ss : Json) (address : CStr) (port : Int) (id : CStr) :
    shownName (streamNode ss (baseNode address port id)) = match outboundTls ss with
      | .none => .lit ""
      | _ => (blockName ss "tlsSettings").getD (nvl (blockName ss "realitySettings")) := by
  have hsni : (streamNode ss (baseNode address port id)).sni =
      (blockName ss "tlsSettings").or (blockName ss "realitySettings") := by
    rw [streamNode_eq]
    exact congrArg (blockName ss "tlsSettings").or Option.or_none
  have htls : (streamNode ss (baseNode address port id)).tls = outboundTls ss := by rw [streamNode_eq]
  rw [shownName, hsni, htls]
  cases outboundTls ss with
  | none => rfl
  | tls => cases blockName ss "tlsSettings" <;> rfl
  | reality => cases blockName ss "tlsSettings" <;> rfl

/-- The two nodes show the same but for the servername. -/
theorem sameShown_stream {ss ss' : Json} (h : ∀ k, ¬ Unselected ss k → objGet ss' k = objGet ss k) (address : CStr)
    (port : Int) (id : CStr) :
    SameShown (streamNode ss (baseNode address port id)) (streamNode ss' (baseNode address port id)) := by
  obtain ⟨htls, htransport⟩ := selected_modes h
  rw [streamNode_eq, streamNode_eq]
  refine ⟨rfl, rfl, rfl, rfl, rfl, htransport.symm, htls.symm, fun hr => ?_, fun hw => ?_, fun hx => ?_⟩
  · simp only [getObj_of_selected h (not_unselected_reality hr), and_self]
  · simp only [getObj_of_selected h (not_unselected_ws hw), and_self]
  · simp only [getObj_of_selected h (not_unselected_xhttp hx), and_self]

/-- The servernames are the same exactly when the blocks that are not selected agree on theirs. -/
theorem shownName_iff {ss ss' : Json} (h : ∀ k, ¬ Unselected ss k → objGet ss' k = objGet ss k) (address : CStr)
    (port : Int) (id : CStr) :
    shownName (streamNode ss (baseNode address port id)) = shownName (streamNode ss' (baseNode address port id)) ↔
      StrayNamesAgree ss ss' := by
  have hmode := (selected_modes h).1
  rw [shownName_stream, shownName_stream, hmode, StrayNamesAgree]
  cases hm : outboundTls ss with
  | none => simp
  | tls =>
    have hblock : blockName ss' "tlsSettings" = blockName ss "tlsSettings" := by
      rw [blockName, blockName, getObj_of_selected h (not_unselected_tls hm)]
    rw [hblock]
    cases blockName ss "tlsSettings" <;> simp
  | reality =>
    have hblock : blockName ss' "realitySettings" = blockName ss "realitySettings" := by
      rw [blockName, blockName, getObj_of_selected h (not_unselected_reality hm)]
    rw [hblock]

/-- The servername is the one of the selected block exactly when no other block gives one. -/
theorem shownName_eq_selected_iff (ss : Json) (address : CStr) (port : Int) (id : CStr) :
    shownName (streamNode ss (baseNode address port id)) = selectedName ss ↔ NoStrayName ss := by
  rw [shownName_stream, selectedName, NoStrayName]
  cases outboundTls ss with
  | none => simp
  | tls => cases blockName ss "tlsSettings" <;> simp [nvl]
  | reality => cases blockName ss "tlsSettings" <;> simp

/-! ## The blocks -/

/-- The lines of a block with the key servername. -/
def servernameLines (n : ProxyNode) : List Line := (nodeLines n).filter fun l => l.key = some "servername"

theorem filter_optKv {key : String} (hk : key ≠ "servername") (cond : Bool) (indent : Nat) (s : Option CStr) :
    (optKv cond indent key s).filter (fun l => l.key = some "servername") = [] := by
  unfold optKv
  split <;> simp [kv, hk]

theorem vlessTail_noServername (n : ProxyNode) : (vlessTail n).filter (fun l => l.key = some "servername") = [] := by
  have hreality : (realityLines n).filter (fun l => l.key = some "servername") = [] := by
    rw [realityLines, List.filter_append, filter_optKv (by decide), List.nil_append]
    split
    · rw [List.filter_cons_of_neg (by simp [kv]), List.filter_append, filter_optKv (by decide),
        filter_optKv (by decide),
        List.append_nil]
    · rfl
  have hws : (wsLines n).filter (fun l => l.key = some "servername") = [] := by simp [wsLines, kv, strKv]
  have hxhttp : (xhttpLines n).filter (fun l => l.key = some "servername") = [] := by simp [xhttpLines, kv, strKv]
  rw [vlessTail, List.filter_append, List.filter_append]
  split_ifs <;> simp only [hreality, hws, hxhttp, List.filter_nil, List.append_nil]

theorem servernameLines_eq {n : ProxyNode} (h : n.type = .vless) : servernameLines n = nameLine (shownName n) := by
  have hhead : (vlessHead n).filter (fun l => l.key = some "servername") = [] := by simp [vlessHead, itemKv, strKv, kv]
  have hname : (nameLine (shownName n)).filter (fun l => l.key = some "servername") = nameLine (shownName n) := by
    unfold nameLine
    split <;> simp [strKv, kv]
  rw [servernameLines, nodeLines, h]
  simp only [vlessLines_eq, List.filter_append, hhead, vlessTail_noServername, hname, List.nil_append, List.append_nil]

/-- The names the unselected blocks of two outbounds give, where they are read. -/
def OutboundNamesAgree (ob ob' : Json) : Prop :=
  ∀ ss ss', jsonxGetObj ob "streamSettings" = some ss → jsonxGetObj ob' "streamSettings" = some ss' →
    StrayNamesAgree ss ss'

def OutboundNoStray (ob : Json) : Prop := ∀ ss, jsonxGetObj ob "streamSettings" = some ss → NoStrayName ss

/-- The `serverName` of the block that the outbound selects, empty when there is none. -/
def outboundName (ob : Json) : CStr := (jsonxGetObj ob "streamSettings").elim (.lit "") selectedName

theorem outboundFields_of_same {ob ob' : Json} (h : ∀ k, k ≠ str "streamSettings" → objGet ob' k = objGet ob k)
    {address : CStr} {port : Int} {id : CStr} (hf : OutboundFields ob address port id) :
    OutboundFields ob' address port id ∧ jsonxGetString ob' "tag" = jsonxGetString ob "tag" := by
  have hne : ∀ key ∈ ["protocol", "settings", "tag"], str key ≠ str "streamSettings" := by decide +kernel
  have hget : ∀ key ∈ ["protocol", "settings", "tag"], jsonxObjGet ob' key = jsonxObjGet ob key := by
    intro key hk
    rw [jsonxObjGet_eq, jsonxObjGet_eq, h _ (hne key hk)]
  have hproto : jsonxGetString ob' "protocol" = jsonxGetString ob "protocol" := by
    rw [jsonxGetString, jsonxGetString, hget _ (by simp)]
  have hsettings : jsonxGetObj ob' "settings" = jsonxGetObj ob "settings" := by
    rw [jsonxGetObj, jsonxGetObj, hget _ (by simp)]
  refine ⟨⟨?_, ?_⟩, ?_⟩
  · rw [hproto]
    exact hf.proto
  · rw [hsettings]
    exact hf.server
  · rw [jsonxGetString, jsonxGetString, hget _ (by simp)]

theorem applyStream_type (ob : Json) (address : CStr) (port : Int) (id : CStr) :
    (applyStream ob (baseNode address port id)).type = .vless := by
  cases h : jsonxGetObj ob "streamSettings" with
  | none => rw [applyStream_none h]; rfl
  | some ss => rw [applyStream_some h, streamNode_eq]; rfl

/-- An outbound whose settings blocks are changed where they are not selected keeps its block exactly when
those blocks agree on the name that is read from them; its servername is the one of the selected block
exactly when they give none. -/
theorem outbound_selected_iff {ob ob' : Json} (h : SameSelected ob ob') {n : ProxyNode} {tag : Option CStr}
    (hp : parseVlessOutbound ob = some (n, tag)) :
    ∃ n', parseVlessOutbound ob' = some (n', tag) ∧
      (∀ name out, nodeEmitYaml out (setName n name) = nodeEmitYaml out (setName n' name) ↔ OutboundNamesAgree ob ob') ∧
      (∀ name, servernameLines (setName n name) = nameLine (outboundName ob) ↔ OutboundNoStray ob) := by
  obtain ⟨address, port, id, hf, rfl, rfl⟩ := parseVlessOutbound_some.1 hp
  obtain ⟨hf', htag⟩ := outboundFields_of_same h.fields hf
  refine ⟨_, parseVlessOutbound_some.2 ⟨address, port, id, hf', rfl, htag.symm⟩, fun name out => ?_, fun name => ?_⟩
  · rcases h.stream with ⟨hs, hs'⟩ | ⟨ss, ss', hs, hs', hsame⟩
    · rw [applyStream_none hs, applyStream_none hs', OutboundNamesAgree, hs]
      simp
    · have hagree : OutboundNamesAgree ob ob' ↔ StrayNamesAgree ss ss' := by
        rw [OutboundNamesAgree, hs, hs']
        simp
      have hshown := sameShown_stream hsame address port id
      have ht := applyStream_type ob address port id
      rw [applyStream_some hs] at ht
      rw [applyStream_some hs, applyStream_some hs', hshown.emit_iff ht, shownName_iff hsame, hagree]
  · have ht : (setName (applyStream ob (baseNode address port id)) name).type = .vless :=
      applyStream_type ob address port id
    have hshown : shownName (setName (applyStream ob (baseNode address port id)) name) =
        shownName (applyStream ob (baseNode address port id)) := rfl
    have hline : ∀ s t : CStr, nameLine s = nameLine t ↔ s = t :=
      fun s t => ⟨fun heq => nameLine_injective (congrArg (·.flatMap Line.text) heq), congrArg nameLine⟩
    rw [servernameLines_eq ht, hshown, hline]
    cases hs : jsonxGetObj ob "streamSettings" with
    | none =>
      rw [applyStream_none hs, outboundName, OutboundNoStray, hs]
      simp [shownName, baseNode, nodeInit]
    | some ss =>
      rw [applyStream_some hs, outboundName, OutboundNoStray, hs, Option.elim_some, shownName_eq_selected_iff]
      simp

/-! ## Two small outbounds -/

/-- A settings block with a `serverName`. -/
def nameBlock (key name : String) : Bytes × Json := (str key, .obj [(str "serverName", .str (str name))])

/-- An outbound with this security and these blocks. -/
def streamOutbound (security : String) (blocks : List (Bytes × Json)) : Json :=
  .obj [(str "protocol", .str (str "vless")),
    (str "settings", .obj [(str "vnext", .arr [.obj [(str "address", .str (str "h")), (str "port", .int 1),
      (str "users", .arr [.obj [(str "id", .str (str "u"))]])]])]),
    (str "streamSettings", .obj ((str "security", .str (str security)) :: blocks))]

def realityOutbound : Json := streamOutbound "reality" [nameBlock "realitySettings" "a"]

/-- The same with a `tlsSettings` that security reality does not select. -/
def strayOutbound : Json := streamOutbound "reality" [nameBlock "realitySettings" "a", nameBlock "tlsSettings" "b"]

theorem stray_sameSelected : SameSelected realityOutbound strayOutbound := by
  have htls : outboundTls (.obj [(str "security", .str (str "reality")), nameBlock "realitySettings" "a"]) ≠ .tls := by
    decide +kernel
  refine ⟨fun k hk => ?_, .inr ⟨_, _, rfl, rfl, fun k hk => ?_⟩⟩
  · have hne : (str "streamSettings" == k) = false := beq_eq_false_iff_ne.2 (Ne.symm hk)
    simp only [objGet, strayOutbound, realityOutbound, streamOutbound, List.find?_cons, hne]
  · have hne : (str "tlsSettings" == k) = false :=
      beq_eq_false_iff_ne.2 fun heq => hk (.inr (.inr (.inl ⟨heq.symm, htls⟩)))
    simp only [objGet, nameBlock, List.find?_cons, hne]

theorem realityOutbound_parse : parseVlessOutbound realityOutbound =
    some (applyStream realityOutbound (baseNode (.lit "h") 1 (.lit "u")), none) := by decide +kernel

theorem outbound_selected_iff_stray : ∃ n', parseVlessOutbound strayOutbound = some (n', none) ∧
    (∀ name out, nodeEmitYaml out (setName (applyStream realityOutbound (baseNode (.lit "h") 1 (.lit "u"))) name) =
      nodeEmitYaml out (setName n' name) ↔ OutboundNamesAgree realityOutbound strayOutbound) ∧
    (∀ name, servernameLines (setName (applyStream realityOutbound (baseNode (.lit "h") 1 (.lit "u"))) name) =
      nameLine (outboundName realityOutbound) ↔ OutboundNoStray realityOutbound) :=
  outbound_selected_iff stray_sameSelected realityOutbound_parse

/-- A `tlsSettings` block that security reality does not select changes the block and its servername. -/
theorem stray_changes_block : SameSelected realityOutbound strayOutbound ∧
    ((parseVlessOutbound realityOutbound).map fun p => (nodeEmitYaml .init (setName p.1 (.lit "x"))).2.bytes) ≠
      ((parseVlessOutbound strayOutbound).map fun p => (nodeEmitYaml .init (setName p.1 (.lit "x"))).2.bytes) ∧
    ((parseVlessOutbound strayOutbound).map fun p => servernameLines (setName p.1 (.lit "x"))) =
      some [strKv 4 "servername" (.lit "b")] ∧ outboundName strayOutbound = .lit "a" :=
  ⟨stray_sameSelected, by decide +kernel, by decide +kernel, by decide +kernel⟩

end SubConverter
