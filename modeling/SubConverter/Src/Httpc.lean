/-
`httpc.c`: a request over libcurl. The transfer is a parameter: what libcurl does with the options it was
given. Response headers are collected and read by no caller here.
-/
import SubConverter.Src.Util

namespace SubConverter

open CMem

/-- `httpc_status`. -/
inductive HttpcStatus
  | ok | err | timeout | httpError
  deriving DecidableEq, Repr

/-- A `char *` array: the slots that are allocated, `none` where nothing is written yet. -/
abbrev StrArray := List (Option CStr)

/-- `httpc_req`; a null pointer is `none`. -/
structure HttpcReq where
  url : Option CStr
  method : Option CStr
  body : Option CStr
  bodyLen : Nat
  headers : Option StrArray
  nheaders : Nat
  timeoutMs : Int
  maxResponse : Int
  deriving DecidableEq

/-- The all-zero request of `memset`. -/
def httpcReqInit : HttpcReq := ⟨none, none, none, 0, none, 0, 0, 0⟩

/-! ## libcurl -/

inductive CurlMethod
  | get
  | post (fields : Option (CStr × Nat))
  deriving DecidableEq

/-- The options set on the handle; `none` and an empty list where the option is not set. -/
structure CurlOptions where
  url : CStr
  followLocation : Bool
  maxRedirs : Nat
  userAgent : CStr
  noSignal : Bool
  acceptEncoding : CStr
  timeoutMs : Option Int
  maxFileSizeLarge : Option Int
  httpHeader : List CStr
  method : CurlMethod
  deriving DecidableEq

/-- A `CURLcode`; a handle that cannot be made counts as `other`. -/
inductive CurlCode
  | ok | operationTimedout | httpReturnedError | writeError | other
  deriving DecidableEq, Repr

/-- What a transfer hands to the write callback, and how it ends when the callback takes it all. -/
structure Transfer where
  chunks : List Bytes
  code : CurlCode
  status : Int

/-- `curl_easy_perform`: the transfer these options lead to. Where `curl_slist_append` has no room for one of the header
lines, it is a transfer without any of them. -/
abbrev Curl := CurlOptions → Transfer

/-! ## The body -/

/-- `body_buf`: with its terminator it is no longer than a block can be that doubles. -/
structure BodyBuf where
  data : Option Bytes
  fits : (data.getD []).length + 1 ≤ 2 ^ 62

namespace BodyBuf

def init : BodyBuf := ⟨none, by decide⟩

def bytes (b : BodyBuf) : Bytes := b.data.getD []

end BodyBuf

/-- `body_write_cb`: the number of bytes taken. Beyond `2^62` bytes the capacity doubles to `2^63`, and
`realloc` fails. -/
def bodyWriteCb (chunk : Bytes) (buf : BodyBuf) : Nat × BodyBuf :=
  if chunk = [] then (0, buf)
  else if h : buf.bytes.length + chunk.length + 1 ≤ 2 ^ 62 then
    (chunk.length, ⟨some (buf.bytes ++ chunk), by
      rw [Option.getD_some, List.length_append]
      omega⟩)
  else (0, buf)

/-- libcurl calls the callback with each chunk, and aborts when not all of it is taken. -/
def deliver : List Bytes → BodyBuf → Bool × BodyBuf
  | [], buf => (true, buf)
  | chunk :: chunks, buf =>
    let (n, buf) := bodyWriteCb chunk buf
    if n = chunk.length then deliver chunks buf else (false, buf)

/-! ## httpc_request -/

/-- `httpc_response`, less its headers. -/
structure HttpcResponse where
  status : Int
  body : BodyBuf

/-- The loop over `req->headers`. -/
def headerList (headers : StrArray) : Nat → Nat → Run (List CStr)
  | 0, _ => .ok []
  | k + 1, i => do
    match headers[i]? with
    | some (some h) => do
      .ok (h :: (← headerList headers k (i + 1)))
    | _ => .error .oob

/-- The lines for `hdr_list`. -/
def requestHeaders (req : HttpcReq) : Run (List CStr) :=
  match req.headers with
  | some headers => if req.nheaders > 0 then headerList headers req.nheaders 0 else .ok []
  | none => .ok []

/-- `CURLOPT_POST` with its fields, or `CURLOPT_HTTPGET`. -/
def requestMethod (req : HttpcReq) : CurlMethod :=
  let method : CStr := match req.method with
    | some m => if m.bytes = [] then .lit "GET" else m
    | none => .lit "GET"
  if method.is "POST" then
    match req.body with
    | some body =>
      let len := if req.bodyLen = 0 then body.bytes.length else req.bodyLen
      .post (if len > 0 then some (body, len) else none)
    | none => .post none
  else .get

def curlOptions (req : HttpcReq) (url : CStr) (headers : List CStr) : CurlOptions where
  url := url
  followLocation := true
  maxRedirs := 5
  userAgent := .lit "sub-converter/0.1"
  noSignal := true
  acceptEncoding := .lit ""
  timeoutMs := if req.timeoutMs > 0 then some req.timeoutMs else none
  maxFileSizeLarge := if req.maxResponse > 0 then some req.maxResponse else none
  httpHeader := headers
  method := requestMethod req

def httpcStatus (code : CurlCode) (status : Int) : HttpcStatus :=
  match code with
  | .ok => if status ≥ 400 then .httpError else .ok
  | .operationTimedout => .timeout
  | .httpReturnedError => .httpError
  | _ => .err

/-- `httpc_request`: the options of the transfer it starts, the return code and the response. -/
def httpcRequest (curl : Curl) (req : HttpcReq) : Run (Option CurlOptions × HttpcStatus × HttpcResponse) :=
  match req.url with
  | none => .ok (none, .err, ⟨0, .init⟩)
  | some url => do
    let headers ← requestHeaders req
    let options := curlOptions req url headers
    let transfer := curl options
    let (taken, body) := deliver transfer.chunks .init
    let code := if taken then transfer.code else .writeError
    .ok (some options, httpcStatus code transfer.status, ⟨transfer.status, body⟩)

end SubConverter
