/-
The functions that write to a `strbuf` behind their headers: `base64.h`, `util.h`, `yaml_emit.h` and
`node_emit.h`. An argument that a function tests for null may be null here.
-/
import SubConverter.Src.Base64
import SubConverter.Src.NodeEmit

namespace SubConverter

open CMem

/-- A pointer and a length: null, or pointing to as many bytes. -/
inductive Span
  | null (len : Nat)
  | bytes (b : Bytes)
  deriving DecidableEq

def Span.len : Span → Nat
  | .null len => len
  | .bytes b => b.length

/-- One call, less its output buffer. -/
inductive Writer
  | base64Encode (data : Span)
  | base64EncodeUrl (data : Span)
  | base64Decode (input : Span)
  | base64DecodeUrl (input : Span)
  | urlEncode (input : Span)
  | urlDecode (input : Span)
  | yamlQuote (s : Span)
  | yamlEmitKv (indent : Int) (key : String) (value : Option CStr)
  | yamlEmitKvInt (indent : Int) (key : String) (value : Int)
  | yamlEmitKvBool (indent : Int) (key : String) (value : Bool)
  | yamlEmitDash (indent : Int) (value : CStr)
  | yamlEmitDashKv (indent : Int) (key : String) (value : CStr)
  | yamlEmitDashKvOpen (indent : Int) (key : String)
  | yamlEmitFlowList (items : List CStr)
  | nodeEmitYaml (n : Option ProxyNode)

/-- `b64_encode_core`: the length is tested before the pointer. -/
def encodeSpan (encode : Bytes → Strbuf → Strbuf) : Span → Strbuf → Int × Strbuf
  | .null len, out => if len = 0 then (0, encode [] out) else (-1, out)
  | .bytes b, out => (0, encode b out)

/-- `b64_decode_core`. -/
def decodeSpan (decode : Bytes → Strbuf → Int × Strbuf) : Span → Strbuf → Int × Strbuf
  | .null len, out => if len > 0 then (-1, out) else decode [] out
  | .bytes b, out => decode b out

namespace Writer

/-- The return code and the buffer. The loops of `url_encode` and `url_decode` read a null pointer unless the length
is 0, and `emit_indent` writes nothing for a negative indentation. -/
def run (out : Strbuf) : Writer → Run (Int × Strbuf)
  | base64Encode data => .ok (encodeSpan SubConverter.base64Encode data out)
  | base64EncodeUrl data => .ok (encodeSpan SubConverter.base64EncodeUrl data out)
  | base64Decode input => .ok (decodeSpan SubConverter.base64Decode input out)
  | base64DecodeUrl input => .ok (decodeSpan SubConverter.base64DecodeUrl input out)
  | urlEncode (.null len) => if len > 0 then .error .null else .ok (0, out)
  | urlEncode (.bytes b) => .ok (0, SubConverter.urlEncode b out)
  | urlDecode (.null len) => if len > 0 then .error .null else .ok (0, out)
  | urlDecode (.bytes b) => SubConverter.urlDecode b b.length out
  | yamlQuote (.null _) => .ok (0, SubConverter.yamlQuote [] out)
  | yamlQuote (.bytes b) => .ok (0, SubConverter.yamlQuote b out)
  | yamlEmitKv indent key value => .ok (0, SubConverter.yamlEmitKv out indent.toNat key value)
  | yamlEmitKvInt indent key value => .ok (0, SubConverter.yamlEmitKvInt out indent.toNat key value)
  | yamlEmitKvBool indent key value => .ok (0, SubConverter.yamlEmitKvBool out indent.toNat key value)
  | yamlEmitDash indent value => .ok (0, SubConverter.yamlEmitDash out indent.toNat value)
  | yamlEmitDashKv indent key value => .ok (0, SubConverter.yamlEmitDashKv out indent.toNat key value)
  | yamlEmitDashKvOpen indent key => .ok (0, SubConverter.yamlEmitDashKvOpen out indent.toNat key)
  | yamlEmitFlowList items => .ok (0, SubConverter.yamlEmitFlowList out items)
  | nodeEmitYaml none => .ok (-1, out)
  | nodeEmitYaml (some n) => .ok (SubConverter.nodeEmitYaml out n)

end Writer

end SubConverter
