/-
`node_emit.c`: the YAML of one proxy node.
-/
import SubConverter.Src.Node
import SubConverter.Src.YamlEmit

namespace SubConverter

open CMem

/-- `nvl`: the empty string for a null pointer. -/
def nvl (p : Option CStr) : CStr := p.getD (.lit "")

/-- `p && p[0]`. -/
def given (p : Option CStr) : Bool := p.any fun s => s.bytes != []

def networkName : NodeTransport → CStr
  | .ws => .lit "ws"
  | .xhttp => .lit "xhttp"
  | .grpc => .lit "grpc"
  | .http => .lit "http"
  | .none => .lit "tcp"

def emitWsOpts (out : Strbuf) (n : ProxyNode) : Strbuf :=
  let out := yamlEmitKv out 4 "ws-opts" none
  let out := yamlEmitKv out 6 "path" (some (nvl n.wsPath))
  let out := yamlEmitKv out 6 "headers" none
  yamlEmitKv out 8 "Host" (some (nvl n.wsHost))

def emitXhttpOpts (out : Strbuf) (n : ProxyNode) : Strbuf :=
  let out := yamlEmitKv out 4 "xhttp-opts" none
  let out := yamlEmitKv out 6 "host" (some (nvl n.xhttpHost))
  let out := yamlEmitKv out 6 "path" (some (nvl n.xhttpPath))
  yamlEmitKv out 6 "mode" (some (nvl n.xhttpMode))

def emitReality (out : Strbuf) (n : ProxyNode) : Strbuf :=
  let out := if given n.fp then yamlEmitKv out 4 "client-fingerprint" n.fp else out
  if n.realityPbk.isSome || n.realitySid.isSome then
    let out := yamlEmitKv out 4 "reality-opts" none
    let out := if n.realityPbk.isSome then yamlEmitKv out 6 "public-key" n.realityPbk else out
    if n.realitySid.isSome then yamlEmitKv out 6 "short-id" n.realitySid else out
  else out

def emitVless (out : Strbuf) (n : ProxyNode) : Strbuf :=
  let out := yamlEmitDashKv out 2 "name" (nvl n.name)
  let out := yamlEmitKv out 4 "type" (some (.lit "vless"))
  let out := yamlEmitKv out 4 "server" (some (nvl n.server))
  let out := yamlEmitKvInt out 4 "port" n.port
  let out := yamlEmitKv out 4 "uuid" (some (nvl n.uuid))
  let out := yamlEmitKvBool out 4 "udp" n.udp
  let out := yamlEmitKv out 4 "network" (some (networkName n.transport))
  let out := yamlEmitKvBool out 4 "tls" (n.tls != .none)
  let out := if n.tls != .none && given n.sni then yamlEmitKv out 4 "servername" n.sni else out
  let out := if n.tls = .reality then emitReality out n else out
  let out := if n.transport = .ws then emitWsOpts out n else out
  if n.transport = .xhttp then emitXhttpOpts out n else out

def emitVmess (out : Strbuf) (n : ProxyNode) : Strbuf :=
  let out := yamlEmitDashKv out 2 "name" (nvl n.name)
  let out := yamlEmitKv out 4 "type" (some (.lit "vmess"))
  let out := yamlEmitKv out 4 "server" (some (nvl n.server))
  let out := yamlEmitKvInt out 4 "port" n.port
  let out := yamlEmitKv out 4 "uuid" (some (nvl n.uuid))
  let out := yamlEmitKvInt out 4 "alterId" n.alterId
  let out := yamlEmitKv out 4 "cipher" (if given n.cipher then n.cipher else some (.lit "auto"))
  let out := yamlEmitKvBool out 4 "udp" n.udp
  let out := yamlEmitKv out 4 "network" (some (networkName n.transport))
  let out := yamlEmitKvBool out 4 "tls" (n.tls != .none)
  let out := if n.tls != .none && given n.sni then yamlEmitKv out 4 "servername" n.sni else out
  if n.transport = .ws then emitWsOpts out n else out

def emitSs (out : Strbuf) (n : ProxyNode) : Strbuf :=
  let out := yamlEmitDashKv out 2 "name" (nvl n.name)
  let out := yamlEmitKv out 4 "type" (some (.lit "ss"))
  let out := yamlEmitKv out 4 "server" (some (nvl n.server))
  let out := yamlEmitKvInt out 4 "port" n.port
  let out := yamlEmitKv out 4 "cipher" (some (nvl n.cipher))
  let out := yamlEmitKv out 4 "password" (some (nvl n.password))
  let out := yamlEmitKvBool out 4 "udp" n.udp
  let out := if given n.plugin then yamlEmitKv out 4 "plugin" n.plugin else out
  if given n.pluginOpts then yamlEmitKv out 4 "plugin-opts" n.pluginOpts else out

def emitTrojan (out : Strbuf) (n : ProxyNode) : Strbuf :=
  let out := yamlEmitDashKv out 2 "name" (nvl n.name)
  let out := yamlEmitKv out 4 "type" (some (.lit "trojan"))
  let out := yamlEmitKv out 4 "server" (some (nvl n.server))
  let out := yamlEmitKvInt out 4 "port" n.port
  let out := yamlEmitKv out 4 "password" (some (nvl n.password))
  let out := yamlEmitKvBool out 4 "udp" n.udp
  let out := yamlEmitKv out 4 "network" (some (networkName n.transport))
  let out := if n.tls != .none && given n.sni then yamlEmitKv out 4 "sni" n.sni else out
  let out := yamlEmitKvBool out 4 "tls" (n.tls != .none)
  let out := if n.tls = .reality then emitReality out n else out
  if n.transport = .ws then emitWsOpts out n else out

/-- `node_emit_yaml`: the return code and the buffer. -/
def nodeEmitYaml (out : Strbuf) (n : ProxyNode) : Int × Strbuf :=
  match n.type with
  | .vless => (0, emitVless out n)
  | .vmess => (0, emitVmess out n)
  | .shadowsocks => (0, emitSs out n)
  | .trojan => (0, emitTrojan out n)
  | _ => (-1, out)

end SubConverter
