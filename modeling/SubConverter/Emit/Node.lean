/-
The lines of a proxy node. `node_emit_yaml` appends exactly these, and their heads depend on the
shape of the node alone.
-/
import SubConverter.Emit.Line
import SubConverter.Src.NodeEmit

namespace SubConverter

open CMem Line

/-! ## The lines -/

def strKv (indent : Nat) (key : String) (s : CStr) : Line := kv indent key (some (.str s))

/-- The line of an optional field, when it is written. -/
def optKv (cond : Bool) (indent : Nat) (key : String) (s : Option CStr) : List Line :=
  if cond then [kv indent key (s.map .str)] else []

def wsLines (n : ProxyNode) : List Line :=
  [kv 4 "ws-opts" none, strKv 6 "path" (nvl n.wsPath), kv 6 "headers" none, strKv 8 "Host" (nvl n.wsHost)]

def xhttpLines (n : ProxyNode) : List Line :=
  [kv 4 "xhttp-opts" none, strKv 6 "host" (nvl n.xhttpHost), strKv 6 "path" (nvl n.xhttpPath),
   strKv 6 "mode" (nvl n.xhttpMode)]

def realityLines (n : ProxyNode) : List Line :=
  optKv (given n.fp) 4 "client-fingerprint" n.fp ++
    if n.realityPbk.isSome || n.realitySid.isSome then
      kv 4 "reality-opts" none ::
        (optKv n.realityPbk.isSome 6 "public-key" n.realityPbk ++ optKv n.realitySid.isSome 6 "short-id" n.realitySid)
    else []

def vlessLines (n : ProxyNode) : List Line :=
  [itemKv 2 "name" (nvl n.name), strKv 4 "type" (.lit "vless"), strKv 4 "server" (nvl n.server),
   kv 4 "port" (some (.int n.port)), strKv 4 "uuid" (nvl n.uuid), kv 4 "udp" (some (.bool n.udp)),
   strKv 4 "network" (networkName n.transport), kv 4 "tls" (some (.bool (n.tls != .none)))] ++
    (optKv (n.tls != .none && given n.sni) 4 "servername" n.sni ++
      ((if n.tls = .reality then realityLines n else []) ++
        ((if n.transport = .ws then wsLines n else []) ++ if n.transport = .xhttp then xhttpLines n else [])))

def vmessLines (n : ProxyNode) : List Line :=
  [itemKv 2 "name" (nvl n.name), strKv 4 "type" (.lit "vmess"), strKv 4 "server" (nvl n.server),
   kv 4 "port" (some (.int n.port)), strKv 4 "uuid" (nvl n.uuid), kv 4 "alterId" (some (.int n.alterId)),
   kv 4 "cipher" ((if given n.cipher then n.cipher else some (.lit "auto")).map .str),
   kv 4 "udp" (some (.bool n.udp)), strKv 4 "network" (networkName n.transport),
   kv 4 "tls" (some (.bool (n.tls != .none)))] ++
    (optKv (n.tls != .none && given n.sni) 4 "servername" n.sni ++ if n.transport = .ws then wsLines n else [])

def ssLines (n : ProxyNode) : List Line :=
  [itemKv 2 "name" (nvl n.name), strKv 4 "type" (.lit "ss"), strKv 4 "server" (nvl n.server),
   kv 4 "port" (some (.int n.port)), strKv 4 "cipher" (nvl n.cipher), strKv 4 "password" (nvl n.password),
   kv 4 "udp" (some (.bool n.udp))] ++
    (optKv (given n.plugin) 4 "plugin" n.plugin ++ optKv (given n.pluginOpts) 4 "plugin-opts" n.pluginOpts)

def trojanLines (n : ProxyNode) : List Line :=
  [itemKv 2 "name" (nvl n.name), strKv 4 "type" (.lit "trojan"), strKv 4 "server" (nvl n.server),
   kv 4 "port" (some (.int n.port)), strKv 4 "password" (nvl n.password), kv 4 "udp" (some (.bool n.udp)),
   strKv 4 "network" (networkName n.transport)] ++
    (optKv (n.tls != .none && given n.sni) 4 "sni" n.sni ++ kv 4 "tls" (some (.bool (n.tls != .none))) ::
      ((if n.tls = .reality then realityLines n else []) ++ if n.transport = .ws then wsLines n else []))

/-- The lines of a node. -/
def nodeLines (n : ProxyNode) : List Line :=
  match n.type with
  | .vless => vlessLines n
  | .vmess => vmessLines n
  | .shadowsocks => ssLines n
  | .trojan => trojanLines n
  | _ => []

/-- The types `node_emit_yaml` writes. -/
def NodeType.emits : NodeType → Bool
  | .vless | .vmess | .shadowsocks | .trojan => true
  | _ => false

theorem Strbuf.appendLines_append (out : Strbuf) (a b : List Line) :
    out.appendLines (a ++ b) = (out.appendLines a).appendLines b := List.foldl_append

theorem Strbuf.appendLines_cons (out : Strbuf) (l : Line) (b : List Line) :
    out.appendLines (l :: b) = (out.appendBytes l.text).appendLines b := rfl

@[simp] theorem Strbuf.appendLines_nil (out : Strbuf) : out.appendLines [] = out := rfl

theorem Strbuf.bytes_appendLines : ∀ (ls : List Line) (out : Strbuf),
    (out.appendLines ls).bytes = out.bytes ++ ls.flatMap Line.text
  | [], out => by simp
  | l :: ls, out => by rw [appendLines_cons, bytes_appendLines ls]; simp

theorem yamlEmitKv_str (out : Strbuf) (indent : Nat) (key : String) (s : CStr) :
    yamlEmitKv out indent key (some s) = out.appendBytes (strKv indent key s).text := yamlEmitKv_eq ..

theorem yamlEmitKv_none (out : Strbuf) (indent : Nat) (key : String) :
    yamlEmitKv out indent key none = out.appendBytes (kv indent key none).text := yamlEmitKv_eq ..

theorem optKv_emit (cond : Bool) (indent : Nat) (key : String) (s : Option CStr) (out : Strbuf) :
    (if cond then yamlEmitKv out indent key s else out) = out.appendLines (optKv cond indent key s) := by
  unfold optKv; split
  · rw [yamlEmitKv_eq]; rfl
  · rfl

theorem ite_appendLines {c : Prop} [Decidable c] (ls : List Line) (out : Strbuf) :
    (if c then out.appendLines ls else out) = out.appendLines (if c then ls else []) := by split <;> rfl

theorem emitWsOpts_eq (out : Strbuf) (n : ProxyNode) : emitWsOpts out n = out.appendLines (wsLines n) := by
  simp only [emitWsOpts, wsLines, yamlEmitKv_str, yamlEmitKv_none, Strbuf.appendLines_cons, Strbuf.appendLines_nil]

theorem emitXhttpOpts_eq (out : Strbuf) (n : ProxyNode) : emitXhttpOpts out n = out.appendLines (xhttpLines n) := by
  simp only [emitXhttpOpts, xhttpLines, yamlEmitKv_str, yamlEmitKv_none, Strbuf.appendLines_cons,
    Strbuf.appendLines_nil]

theorem emitReality_eq (out : Strbuf) (n : ProxyNode) : emitReality out n = out.appendLines (realityLines n) := by
  simp only [emitReality, realityLines, optKv_emit, yamlEmitKv_none, Strbuf.appendLines_append]
  split
  · rw [Strbuf.appendLines_cons, Strbuf.appendLines_append]
  · rfl

theorem emitVless_eq (out : Strbuf) (n : ProxyNode) : emitVless out n = out.appendLines (vlessLines n) := by
  simp only [emitVless, vlessLines, yamlEmitDashKv_eq, yamlEmitKv_str, yamlEmitKvInt_eq, yamlEmitKvBool_eq, optKv_emit,
    emitWsOpts_eq, emitXhttpOpts_eq, emitReality_eq, ite_appendLines, Strbuf.appendLines_append,
    Strbuf.appendLines_cons, Strbuf.appendLines_nil]

theorem emitVmess_eq (out : Strbuf) (n : ProxyNode) : emitVmess out n = out.appendLines (vmessLines n) := by
  simp only [emitVmess, vmessLines, yamlEmitDashKv_eq, yamlEmitKv_str, yamlEmitKvInt_eq, yamlEmitKvBool_eq, optKv_emit,
    emitWsOpts_eq, ite_appendLines, Strbuf.appendLines_append, Strbuf.appendLines_cons, Strbuf.appendLines_nil]
  rw [yamlEmitKv_eq]

theorem emitSs_eq (out : Strbuf) (n : ProxyNode) : emitSs out n = out.appendLines (ssLines n) := by
  simp only [emitSs, ssLines, yamlEmitDashKv_eq, yamlEmitKv_str, yamlEmitKvInt_eq, yamlEmitKvBool_eq, optKv_emit,
    Strbuf.appendLines_append, Strbuf.appendLines_cons, Strbuf.appendLines_nil]

theorem emitTrojan_eq (out : Strbuf) (n : ProxyNode) : emitTrojan out n = out.appendLines (trojanLines n) := by
  simp only [emitTrojan, trojanLines, yamlEmitDashKv_eq, yamlEmitKv_str, yamlEmitKvInt_eq, yamlEmitKvBool_eq,
    optKv_emit, emitWsOpts_eq, emitReality_eq, ite_appendLines, Strbuf.appendLines_append, Strbuf.appendLines_cons,
    Strbuf.appendLines_nil]

/-- `node_emit_yaml` appends the node's lines, or refuses the type and leaves the buffer. -/
theorem nodeEmitYaml_eq (out : Strbuf) (n : ProxyNode) :
    nodeEmitYaml out n = (if n.type.emits then 0 else -1, out.appendLines (nodeLines n)) := by
  unfold nodeEmitYaml nodeLines
  cases n.type <;>
    simp [NodeType.emits, emitVless_eq, emitVmess_eq, emitSs_eq, emitTrojan_eq]

end SubConverter
