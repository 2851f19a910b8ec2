/-
The fields of a node after the parameters of a query or the members of the vmess JSON, each as a
function of the node before and of what is given for it. In a query the last value of a key counts,
and the transport is settled before the path and the host are stored.
-/
import SubConverter.Share.Link

namespace SubConverter

open CMem

/-! ## The query -/

/-- The last value a query gives for a key. -/
def lastValue (ps : List KvPair) (key : String) : Option CStr :=
  (ps.reverse.find? fun kv => kv.key.is key).map KvPair.value

theorem lastValue_nil (key : String) : lastValue [] key = none := rfl

theorem lastValue_concat (ps : List KvPair) (kv : KvPair) (key : String) :
    lastValue (ps ++ [kv]) key = if kv.key.is key then some kv.value else lastValue ps key := by
  unfold lastValue
  rw [List.reverse_append, List.reverse_singleton, List.singleton_append, List.find?_cons]
  cases kv.key.is key <;> rfl

/-- The `security` values of a link. -/
def linkTls (v : CStr) : NodeTls := if v.is "tls" then .tls else if v.is "reality" then .reality else .none

/-- The keys the parameters of a link are stored under. -/
def paramKeys : List String := ["path", "host", "mode", "sni", "fp", "pbk", "sid", "alpn", "serviceName"]

theorem paramKeys_disjoint : ∀ a ∈ paramKeys, ∀ b ∈ paramKeys, (str a == str b) = (a == b) := by decide +kernel

/-- A key is one of the parameters and no other one, or none of them. -/
theorem param_cases (k : CStr) :
    (∃ a ∈ paramKeys, ∀ b ∈ paramKeys, k.is b = (a == b)) ∨ ∀ b ∈ paramKeys, k.is b = false := by
  by_cases h : ∃ a ∈ paramKeys, k.is a = true
  · obtain ⟨a, ha, hk⟩ := h
    refine .inl ⟨a, ha, fun b hb => ?_⟩
    rw [CStr.is, (CStr.is_iff k a).1 hk]
    exact paramKeys_disjoint a ha b hb
  · push Not at h
    exact .inr fun b hb => by simpa using h b hb

theorem foldl_applyMode (ps : List KvPair) (n : ProxyNode) : ps.foldl applyMode n =
    { n with transport := ((lastValue ps "type").map linkTransport).getD n.transport,
             tls := ((lastValue ps "security").map linkTls).getD n.tls } := by
  induction ps using List.reverseRecOn with
  | nil => rfl
  | append_singleton ps kv ih =>
    rw [List.foldl_concat, ih, applyMode, lastValue_concat, lastValue_concat]
    by_cases ht : kv.key.is "type" = true
    · have hs : kv.key.is "security" = false := by
        rw [CStr.is, (CStr.is_iff _ _).1 ht]; decide +kernel
      simp [ht, hs]
    · by_cases hs : kv.key.is "security" = true
      · simp [ht, hs, linkTls]
      · simp [ht, hs]

/-- The second loop does not change the transport it reads. -/
theorem foldl_applyParam (ps : List KvPair) (n : ProxyNode) : ps.foldl applyParam n =
    { n with
      wsPath := if n.transport = .ws then (lastValue ps "path").or n.wsPath else n.wsPath
      wsHost := if n.transport = .ws then (lastValue ps "host").or n.wsHost else n.wsHost
      xhttpPath := if n.transport = .ws then n.xhttpPath else (lastValue ps "path").or n.xhttpPath
      xhttpHost := if n.transport = .ws then n.xhttpHost else (lastValue ps "host").or n.xhttpHost
      xhttpMode := (lastValue ps "mode").or n.xhttpMode
      sni := (lastValue ps "sni").or n.sni
      fp := (lastValue ps "fp").or n.fp
      realityPbk := (lastValue ps "pbk").or n.realityPbk
      realitySid := (lastValue ps "sid").or n.realitySid
      alpn := (lastValue ps "alpn").or n.alpn
      grpcService := (lastValue ps "serviceName").or n.grpcService } := by
  induction ps using List.reverseRecOn with
  | nil => simp [lastValue_nil]
  | append_singleton ps kv ih =>
    rw [List.foldl_concat, ih]
    simp only [lastValue_concat]
    unfold applyParam
    rcases param_cases kv.key with ⟨a, ha, hk⟩ | hk
    · simp only [paramKeys, List.forall_mem_cons, List.not_mem_nil, IsEmpty.forall_iff, implies_true, and_true] at hk
      obtain ⟨h1, h2, h3, h4, h5, h6, h7, h8, h9⟩ := hk
      simp only [h1, h2, h3, h4, h5, h6, h7, h8, h9]
      -- the key given decides all nine comparisons
      simp only [paramKeys, List.mem_cons, List.not_mem_nil, or_false] at ha
      rcases ha with rfl | rfl | rfl | rfl | rfl | rfl | rfl | rfl | rfl <;>
        simp <;> split_ifs <;> rfl
    · simp only [paramKeys, List.forall_mem_cons, List.not_mem_nil, IsEmpty.forall_iff, implies_true, and_true] at hk
      obtain ⟨h1, h2, h3, h4, h5, h6, h7, h8, h9⟩ := hk
      simp [h1, h2, h3, h4, h5, h6, h7, h8, h9]

/-- What each field is with the parameters of a query. -/
theorem applyQuery_eq (ps : List KvPair) (n : ProxyNode) : applyQuery ps n =
    { n with
      transport := ((lastValue ps "type").map linkTransport).getD n.transport
      tls := ((lastValue ps "security").map linkTls).getD n.tls
      wsPath := if ((lastValue ps "type").map linkTransport).getD n.transport = .ws then
        (lastValue ps "path").or n.wsPath else n.wsPath
      wsHost := if ((lastValue ps "type").map linkTransport).getD n.transport = .ws then
        (lastValue ps "host").or n.wsHost else n.wsHost
      xhttpPath := if ((lastValue ps "type").map linkTransport).getD n.transport = .ws then
        n.xhttpPath else (lastValue ps "path").or n.xhttpPath
      xhttpHost := if ((lastValue ps "type").map linkTransport).getD n.transport = .ws then
        n.xhttpHost else (lastValue ps "host").or n.xhttpHost
      xhttpMode := (lastValue ps "mode").or n.xhttpMode
      sni := (lastValue ps "sni").or n.sni
      fp := (lastValue ps "fp").or n.fp
      realityPbk := (lastValue ps "pbk").or n.realityPbk
      realitySid := (lastValue ps "sid").or n.realitySid
      alpn := (lastValue ps "alpn").or n.alpn
      grpcService := (lastValue ps "serviceName").or n.grpcService } := by
  rw [applyQuery, foldl_applyMode, foldl_applyParam]

/-- The last of the plugin options, under either of their keys. -/
def lastOpts (ps : List KvPair) : Option CStr :=
  (ps.reverse.find? fun kv => kv.key.is "plugin-opts" || kv.key.is "pluginOpts").map KvPair.value

theorem lastOpts_concat (ps : List KvPair) (kv : KvPair) : lastOpts (ps ++ [kv]) =
    if kv.key.is "plugin-opts" || kv.key.is "pluginOpts" then some kv.value else lastOpts ps := by
  unfold lastOpts
  rw [List.reverse_append, List.reverse_singleton, List.singleton_append, List.find?_cons]
  cases kv.key.is "plugin-opts" || kv.key.is "pluginOpts" <;> rfl

/-- The plugin parameters are all a shadowsocks query sets. -/
theorem applySsQuery_eq (ps : List KvPair) (n : ProxyNode) : applySsQuery ps n =
    { n with plugin := (lastValue ps "plugin").or n.plugin, pluginOpts := (lastOpts ps).or n.pluginOpts } := by
  unfold applySsQuery
  induction ps using List.reverseRecOn with
  | nil => rfl
  | append_singleton ps kv ih =>
    rw [List.foldl_concat, ih, applySsParam, lastValue_concat, lastOpts_concat]
    by_cases hp : kv.key.is "plugin" = true
    · have ho : (kv.key.is "plugin-opts" || kv.key.is "pluginOpts") = false := by
        rw [CStr.is, CStr.is, (CStr.is_iff _ _).1 hp]; decide +kernel
      simp [hp, ho]
    · by_cases ho : (kv.key.is "plugin-opts" || kv.key.is "pluginOpts") = true
      · simp [hp, ho]
      · simp [hp, ho]

/-! ## The vmess JSON -/

theorem vmessTls_eq (obj : Json) (n : ProxyNode) : vmessTls obj n =
    { n with tls := (jsonxGetString obj "tls").elim n.tls fun t =>
        if t.is "tls" then .tls else if t.is "reality" then .reality else n.tls } := by
  unfold vmessTls
  cases jsonxGetString obj "tls" <;> rfl

theorem vmessHost_eq (obj : Json) (n : ProxyNode) : vmessHost obj n =
    { n with wsHost := if n.transport = .ws then (jsonxGetString obj "host").or n.wsHost else n.wsHost,
             xhttpHost := if n.transport = .ws then n.xhttpHost else (jsonxGetString obj "host").or n.xhttpHost } := by
  unfold vmessHost
  split <;> rfl

theorem vmessPath_eq (obj : Json) (n : ProxyNode) : vmessPath obj n =
    { n with wsPath := if n.transport = .ws then (jsonxGetString obj "path").or n.wsPath else n.wsPath,
             xhttpPath := if n.transport = .ws then n.xhttpPath else (jsonxGetString obj "path").or n.xhttpPath } := by
  unfold vmessPath
  split <;> rfl

/-- What each field is with the members from `id` to `serviceName`. -/
theorem vmessFields_eq (obj : Json) (n : ProxyNode) : vmessFields obj n =
    { n with
      uuid := (jsonxGetString obj "id").or n.uuid
      alterId := ((jsonIntField obj "aid").map toInt32).getD n.alterId
      cipher := (jsonxGetString obj "scy").or n.cipher
      transport := ((jsonxGetString obj "net").map linkTransport).getD n.transport
      tls := (jsonxGetString obj "tls").elim n.tls fun t =>
        if t.is "tls" then .tls else if t.is "reality" then .reality else n.tls
      wsPath := if ((jsonxGetString obj "net").map linkTransport).getD n.transport = .ws then
        (jsonxGetString obj "path").or n.wsPath else n.wsPath
      wsHost := if ((jsonxGetString obj "net").map linkTransport).getD n.transport = .ws then
        (jsonxGetString obj "host").or n.wsHost else n.wsHost
      xhttpPath := if ((jsonxGetString obj "net").map linkTransport).getD n.transport = .ws then
        n.xhttpPath else (jsonxGetString obj "path").or n.xhttpPath
      xhttpHost := if ((jsonxGetString obj "net").map linkTransport).getD n.transport = .ws then
        n.xhttpHost else (jsonxGetString obj "host").or n.xhttpHost
      sni := (jsonxGetString obj "sni").or n.sni
      alpn := (jsonxGetString obj "alpn").or n.alpn
      fp := (jsonxGetString obj "fp").or n.fp
      grpcService := (jsonxGetString obj "serviceName").or n.grpcService } := by
  simp only [vmessFields, vmessPath_eq, vmessHost_eq, vmessTls_eq]

end SubConverter
