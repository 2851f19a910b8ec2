/-
`model.h`: a proxy node, its enumerations and `node_init`.
-/
import SubConverter.Src.Util

namespace SubConverter

open CMem

inductive NodeType
  | unknown | vless | vmess | shadowsocks | trojan | socks5 | http | hysteria2
  deriving DecidableEq, Repr

inductive NodeTransport
  | none | ws | xhttp | grpc | http
  deriving DecidableEq, Repr

inductive NodeTls
  | none | tls | reality
  deriving DecidableEq, Repr

/-- `proxy_node`; a null `char *` is `none`. -/
structure ProxyNode where
  type : NodeType
  name : Option CStr
  server : Option CStr
  port : Int
  uuid : Option CStr
  password : Option CStr
  cipher : Option CStr
  alterId : Int
  udp : Bool
  transport : NodeTransport
  tls : NodeTls
  sni : Option CStr
  alpn : Option CStr
  fp : Option CStr
  realityPbk : Option CStr
  realitySid : Option CStr
  wsPath : Option CStr
  wsHost : Option CStr
  xhttpHost : Option CStr
  xhttpPath : Option CStr
  xhttpMode : Option CStr
  grpcService : Option CStr
  plugin : Option CStr
  pluginOpts : Option CStr
  deriving DecidableEq

/-- `node_init`, and the node `node_clear` leaves: all bytes zero. -/
def nodeInit : ProxyNode where
  type := .unknown
  name := none
  server := none
  port := 0
  uuid := none
  password := none
  cipher := none
  alterId := 0
  udp := false
  transport := .none
  tls := .none
  sni := none
  alpn := none
  fp := none
  realityPbk := none
  realitySid := none
  wsPath := none
  wsHost := none
  xhttpHost := none
  xhttpPath := none
  xhttpMode := none
  grpcService := none
  plugin := none
  pluginOpts := none

end SubConverter
