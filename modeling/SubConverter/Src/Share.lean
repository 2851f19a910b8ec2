/-
`model.c`: the share-link parser. Each function takes a pointer and a length as the source does;
`σ` says how the lengths of the segments are subtracted. The parsers return `none` for -1: what
they had stored in the node by then is wiped by `node_clear` in `node_parse_share`.
-/
import SubConverter.Src.Base64
import SubConverter.Src.Jsonx
import SubConverter.Src.Node

namespace SubConverter

open CMem

structure KvPair where
  key : CStr
  value : CStr
  deriving DecidableEq

def trimCrlf (line : Bytes) : Nat → Run Nat
  | 0 => .ok 0
  | len + 1 => do
    let c ← rd line len
    if c = 10 ∨ c = 13 then trimCrlf line len else .ok (len + 1)

def prefixMatch (line : Bytes) (len : Nat) (scheme : String) : Run Bool :=
  if (str scheme).length ≤ len then do
    .ok ((← slice line (str scheme).length) == str scheme)
  else .ok false

/-! ## Query -/

/-- One segment of the query: the two buffers afterwards and the pair, `none` for a bad escape. -/
def parseQueryPair (σ : Arith) (s : Bytes) (i eq segEnd : Nat) (ksb vsb : Strbuf) :
    Run (Option (Strbuf × Strbuf × KvPair)) := do
  let (rk, ksb) ← urlDecode (s.drop i) (← usub σ eq i) ksb.clear
  if rk ≠ 0 then .ok none
  else do
    let (rv, vsb) ← urlDecode (s.drop (eq + 1)) (← usub σ (← usub σ segEnd eq) 1) vsb.clear
    if rv ≠ 0 then .ok none
    else do
      let key ← xstrdup ksb.data
      let value ← xstrdup vsb.data
      .ok (some (ksb, vsb, ⟨key, value⟩))

/-- The loop of `parse_query`; `eq` and `amp` are 0 when the byte is not found. -/
def parseQueryLoop (σ : Arith) (s : Bytes) (len : Nat) :
    Nat → Nat → Strbuf → Strbuf → List KvPair → Run (Option (List KvPair))
  | 0, _, _, _, _ => .error .fuel
  | fuel + 1, i, ksb, vsb, pairs =>
    if i < len then do
      -- both scans run to the end of the query, so `eq` may be in a later segment
      let eq := (← scan s (ch '=') i (len - i)).getD 0
      let amp := (← scan s (ch '&') i (len - i)).getD 0
      let segEnd := if amp ≠ 0 then amp else len
      if eq ≠ 0 ∧ eq < segEnd then do
        match ← parseQueryPair σ s i eq segEnd ksb vsb with
        | none => .ok none
        | some (ksb, vsb, kv) =>
          if amp = 0 then .ok (some (pairs ++ [kv]))
          else parseQueryLoop σ s len fuel (amp + 1) ksb vsb (pairs ++ [kv])
      else if amp = 0 then .ok (some pairs)
      else parseQueryLoop σ s len fuel (amp + 1) ksb vsb pairs
    else .ok (some pairs)

def parseQuery (σ : Arith) (s : Bytes) (len : Nat) : Run (Option (List KvPair)) :=
  parseQueryLoop σ s len (len + 1) 0 .init .init []

/-- The `type` values of a link, also the `net` values of the vmess JSON. -/
def linkTransport (v : CStr) : NodeTransport :=
  if v.is "ws" then .ws
  else if v.is "xhttp" then .xhttp
  else if v.is "grpc" then .grpc
  else if v.is "http" || v.is "h2" then .http
  else .none

/-- First loop of `apply_query`. -/
def applyMode (n : ProxyNode) (kv : KvPair) : ProxyNode :=
  if kv.key.is "type" then { n with transport := linkTransport kv.value }
  else if kv.key.is "security" then
    { n with tls := if kv.value.is "tls" then .tls else if kv.value.is "reality" then .reality else .none }
  else n

/-- Second loop of `apply_query`. -/
def applyParam (n : ProxyNode) (kv : KvPair) : ProxyNode :=
  if kv.key.is "path" then
    -- any transport but ws takes the path and the host as those of xhttp
    if n.transport = .ws then { n with wsPath := some kv.value } else { n with xhttpPath := some kv.value }
  else if kv.key.is "host" then
    if n.transport = .ws then { n with wsHost := some kv.value } else { n with xhttpHost := some kv.value }
  else if kv.key.is "mode" then { n with xhttpMode := some kv.value }
  else if kv.key.is "sni" then { n with sni := some kv.value }
  else if kv.key.is "fp" then { n with fp := some kv.value }
  else if kv.key.is "pbk" then { n with realityPbk := some kv.value }
  else if kv.key.is "sid" then { n with realitySid := some kv.value }
  else if kv.key.is "alpn" then { n with alpn := some kv.value }
  else if kv.key.is "serviceName" then { n with grpcService := some kv.value }
  else n

def applyQuery (pairs : List KvPair) (n : ProxyNode) : ProxyNode :=
  pairs.foldl applyParam (pairs.foldl applyMode n)

def applySsParam (n : ProxyNode) (kv : KvPair) : ProxyNode :=
  if kv.key.is "plugin" then { n with plugin := some kv.value }
  else if kv.key.is "plugin-opts" || kv.key.is "pluginOpts" then { n with pluginOpts := some kv.value }
  else n

def applySsQuery (pairs : List KvPair) (n : ProxyNode) : ProxyNode := pairs.foldl applySsParam n

/-! ## Host, port and name -/

/-- The check of `parse_host_port` on the two segments it has found. -/
def hostPortOf (host port : Bytes) : Option (CStr × Int) :=
  let portbuf := CStr.ofBytes port
  let (v, e) := strtol portbuf.bytes
  if e = 0 ∨ e ≠ portbuf.bytes.length ∨ v < 1 ∨ v > 65535 then none
  else some (CStr.ofBytes host, v)

/-- `parse_host_port` from the check of the lengths on. -/
def parseHostPortSegs (host : Bytes) (hostlen : Nat) (portStr : Bytes) (portlen : Nat) :
    Run (Option (CStr × Int)) :=
  if hostlen = 0 ∨ portlen = 0 ∨ portlen ≥ 16 then .ok none
  else do
    let port ← slice portStr portlen
    let host ← slice host hostlen
    .ok (hostPortOf host port)

/-- `[host]:port`. -/
def parseHostPortBracket (σ : Arith) (s : Bytes) (len : Nat) : Run (Option (CStr × Int)) := do
  match ← scan s (ch ']') 1 (len - 1) with
  | none => .ok none
  | some i =>
    if i + 1 ≥ len then .ok none
    else if (← rd s (i + 1)) ≠ ch ':' then .ok none
    else do
      let hostlen ← usub σ i 1
      let portlen ← usub σ (← usub σ len i) 2
      parseHostPortSegs (s.drop 1) hostlen (s.drop (i + 2)) portlen

/-- `host:port`, split at the last colon. -/
def parseHostPortBare (σ : Arith) (s : Bytes) (len : Nat) : Run (Option (CStr × Int)) := do
  match ← scanLast s (ch ':') 0 len none with
  | none => .ok none
  | some colon => do
    let portlen ← usub σ (← usub σ len colon) 1
    parseHostPortSegs s colon (s.drop (colon + 1)) portlen

/-- `len > 0 && s[0] == '['`. -/
def startsBracket (s : Bytes) (len : Nat) : Run Bool :=
  if len > 0 then do .ok ((← rd s 0) == ch '[') else .ok false

def parseHostPort (σ : Arith) (s : Bytes) (len : Nat) : Run (Option (CStr × Int)) := do
  if ← startsBracket s len then parseHostPortBracket σ s len else parseHostPortBare σ s len

/-- `set_name_from_fragment`: the name, `none` for -1. -/
def setNameFromFragment (σ : Arith) (s : Bytes) (len frag : Nat) : Run (Option CStr) :=
  if frag ≥ len then .ok none
  else do
    let (rc, sb) ← urlDecode (s.drop (frag + 1)) (← usub σ (← usub σ len frag) 1) .init
    if rc ≠ 0 then .ok none
    else do
      .ok (some (← xstrdup sb.data))

/-- `set_name_fallback`: `server:port`. -/
def setNameFallback (n : ProxyNode) : Run ProxyNode :=
  match n.server with
  | none => .error .null
  | some server => do
    let name ← xstrdup (Strbuf.init.appendf (server.bytes ++ ch ':' :: decimalInt n.port)).data
    .ok { n with name := some name }

/-- The end of `parse_vless_like` and of `parse_ss`: query and fragment. -/
def parseTail (σ : Arith) (s : Bytes) (len frag query : Nat) (apply : List KvPair → ProxyNode → ProxyNode)
    (n : ProxyNode) : Run (Option ProxyNode) := do
  let pairs ← if query < frag then
      parseQuery σ (s.drop (query + 1)) (← usub σ (← usub σ frag query) 1)
    else .ok (some [])
  match pairs with
  | none => .ok none
  | some pairs => do
    let n := if query < frag then apply pairs n else n
    match ← setNameFromFragment σ s len frag with
    | some name => .ok (some { n with name := some name })
    | none => do
      .ok (some (← setNameFallback n))

/-! ## vless, trojan and the `@` form of vmess -/

def parseVlessLike (σ : Arith) (s : Bytes) (len : Nat) (type : NodeType) (n : ProxyNode) :
    Run (Option ProxyNode) := do
  let frag := (← scan s (ch '#') 0 len).getD len
  let query := (← scan s (ch '?') 0 frag).getD len
  -- without a query this looks behind the `#` as well
  let at' := (← scan s (ch '@') 0 query).getD len
  if at' = len then .ok none
  else do
    let n := { n with type := type, udp := true, tls := if type = NodeType.trojan then .tls else n.tls }
    let (rc, sb) ← urlDecode s at' .init
    if rc ≠ 0 then .ok none
    else do
      let cred ← xstrdup sb.data
      let n := if type = .trojan then { n with password := some cred } else { n with uuid := some cred }
      let hplen ← usub σ (← usub σ (if query < frag then query else frag) at') 1
      match ← parseHostPort σ (s.drop (at' + 1)) hplen with
      | none => .ok none
      | some (host, port) =>
        parseTail σ s len frag query applyQuery { n with server := some host, port := port }

/-! ## shadowsocks -/

def parseMethodPass (σ : Arith) (seg : Bytes) (seglen : Nat) : Run (Option (CStr × CStr)) := do
  let raw ← slice seg seglen
  let (rc, dec) := base64Decode raw .init
  -- base64 only when it decodes and the result has a colon
  let body := if rc = 0 ∧ ch ':' ∈ dec.bytes then dec.bytes else raw
  let colon := (← scan body (ch ':') 0 body.length).getD body.length
  if colon = body.length ∨ colon = 0 then .ok none
  else do
    let method ← xstrdup (Strbuf.init.appendBytes (← slice body colon)).data
    let passlen ← usub σ (← usub σ body.length colon) 1
    let password ← xstrdup (Strbuf.init.appendBytes (← slice (body.drop (colon + 1)) passlen)).data
    .ok (some (method, password))

/-- Method, password, host and port of a shadowsocks link, plain or with the authority in base64. -/
def parseSsAuthority (σ : Arith) (s : Bytes) (len limit at' : Nat) :
    Run (Option ((CStr × CStr) × (CStr × Int))) := do
  if at' < len then
    match ← parseMethodPass σ s at' with
    | none => .ok none
    | some mp => do
      match ← parseHostPort σ (s.drop (at' + 1)) (← usub σ (← usub σ limit at') 1) with
      | none => .ok none
      | some hp => .ok (some (mp, hp))
  else do
    let (rc, sb) := base64DecodeUrl (← slice s limit) .init
    if rc ≠ 0 then .ok none
    else do
      match ← scanLast sb.bytes (ch '@') 0 sb.len none with
      | none => .ok none
      | some lastAt =>
        if lastAt = 0 then .ok none
        else do
          match ← parseMethodPass σ sb.bytes lastAt with
          | none => .ok none
          | some mp => do
            match ← parseHostPort σ (sb.bytes.drop (lastAt + 1)) (← usub σ (← usub σ sb.len lastAt) 1) with
            | none => .ok none
            | some hp => .ok (some (mp, hp))

def parseSs (σ : Arith) (s : Bytes) (len : Nat) (n : ProxyNode) : Run (Option ProxyNode) := do
  let frag := (← scan s (ch '#') 0 len).getD len
  let query := (← scan s (ch '?') 0 frag).getD len
  let limit := if query < frag then query else frag
  let at' := (← scan s (ch '@') 0 limit).getD len
  let n := { n with type := .shadowsocks, udp := true }
  match ← parseSsAuthority σ s len limit at' with
  | none => .ok none
  | some ((method, password), (host, port)) =>
    parseTail σ s len frag query applySsQuery
      { n with cipher := some method, password := some password, server := some host, port := port }

/-! ## vmess -/

/-- `strtol` of a JSON string that must be a complete number. -/
def strtolAll (v : CStr) : Option Int :=
  let (l, e) := strtol v.bytes
  if e ≠ 0 ∧ e = v.bytes.length then some l else none

/-- `json_int_field`, `none` for -1; also the port of `parse_vmess_json`. -/
def jsonIntField (obj : Json) (key : String) : Option Int :=
  match jsonxGetInt obj key with
  | some i => some i
  | none => (jsonxGetString obj key).bind strtolAll

/-- The conversion of an `int64_t` to `int`. -/
def toInt32 (i : Int) : Int := i.bmod (2 ^ 32)

def vmessTls (obj : Json) (n : ProxyNode) : ProxyNode :=
  match jsonxGetString obj "tls" with
  | some t => { n with tls := if t.is "tls" then .tls else if t.is "reality" then .reality else n.tls }
  | none => n

def vmessHost (obj : Json) (n : ProxyNode) : ProxyNode :=
  if n.transport = .ws then { n with wsHost := (jsonxGetString obj "host").or n.wsHost }
  else { n with xhttpHost := (jsonxGetString obj "host").or n.xhttpHost }

def vmessPath (obj : Json) (n : ProxyNode) : ProxyNode :=
  if n.transport = .ws then { n with wsPath := (jsonxGetString obj "path").or n.wsPath }
  else { n with xhttpPath := (jsonxGetString obj "path").or n.xhttpPath }

/-- The fields of the vmess JSON from `id` to `serviceName`. -/
def vmessFields (obj : Json) (n : ProxyNode) : ProxyNode :=
  let n := { n with uuid := (jsonxGetString obj "id").or n.uuid,
                    alterId := ((jsonIntField obj "aid").map toInt32).getD n.alterId,
                    cipher := (jsonxGetString obj "scy").or n.cipher,
                    transport := ((jsonxGetString obj "net").map linkTransport).getD n.transport }
  let n := vmessPath obj (vmessHost obj (vmessTls obj n))
  { n with sni := (jsonxGetString obj "sni").or n.sni,
           alpn := (jsonxGetString obj "alpn").or n.alpn,
           fp := (jsonxGetString obj "fp").or n.fp,
           grpcService := (jsonxGetString obj "serviceName").or n.grpcService }

/-- The `ps` field: percent-decoded, or as it stands when that fails. -/
def vmessName (obj : Json) (n : ProxyNode) : Run ProxyNode :=
  match jsonxGetString obj "ps" with
  | none => setNameFallback n
  | some v => do
    let (rc, nbuf) ← urlDecode v.bytes v.bytes.length .init
    if rc = 0 then do
      let name ← xstrdup nbuf.data
      .ok { n with name := some name }
    else .ok { n with name := some v }

def parseVmessJson (tok : Tokener) (s : Bytes) (len : Nat) (n : ProxyNode) : Run (Option ProxyNode) := do
  let (rc, sb) := base64Decode (← slice s len) .init
  if rc ≠ 0 then .ok none
  else
    match jsonxParse tok sb.data with
    | none => .ok none
    | some obj =>
      let n := { n with type := .vmess, udp := true, cipher := some (CStr.lit "auto"),
                        server := (jsonxGetString obj "add").or n.server }
      let iv := (jsonIntField obj "port").getD (-1)
      if n.server = none ∨ iv < 1 ∨ iv > 65535 then .ok none
      else do
        let n ← vmessName obj (vmessFields obj { n with port := iv })
        .ok (some n)

def parseVmess (σ : Arith) (tok : Tokener) (s : Bytes) (len : Nat) (n : ProxyNode) :
    Run (Option ProxyNode) := do
  let frag := (← scan s (ch '#') 0 len).getD len
  match ← scan s (ch '@') 0 frag with
  | some _ => do
    -- the fragment is passed on with the rest, the JSON form is cut at it
    match ← parseVlessLike σ s len .vmess n with
    | none => .ok none
    | some n => .ok (some { n with cipher := some (CStr.lit "auto") })
  | none => parseVmessJson tok s frag n

/-! ## node_parse_share -/

/-- The parser a line is dispatched to by its scheme. -/
def parseScheme (σ : Arith) (tok : Tokener) (line : Bytes) (len : Nat) (n : ProxyNode) :
    Run (Option ProxyNode) := do
  if ← prefixMatch line len "vless://" then parseVlessLike σ (line.drop 8) (← usub σ len 8) .vless n
  else if ← prefixMatch line len "trojan://" then
    parseVlessLike σ (line.drop 9) (← usub σ len 9) .trojan n
  else if ← prefixMatch line len "vmess://" then parseVmess σ tok (line.drop 8) (← usub σ len 8) n
  else if ← prefixMatch line len "ss://" then parseSs σ (line.drop 5) (← usub σ len 5) n
  else .ok none

/-- `node_parse_share` on a non-null line: the return code and the node, cleared on -1. -/
def nodeParseShare (σ : Arith) (tok : Tokener) (line : Bytes) (len : Nat) : Run (Int × ProxyNode) := do
  let len ← trimCrlf line len
  match ← parseScheme σ tok line len nodeInit with
  | some n => .ok (0, n)
  | none => .ok (-1, nodeInit)

end SubConverter
