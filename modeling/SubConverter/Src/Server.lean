/-
`server.c`: the `/convert` request, with the table of `converter.c`. A run returns the options of the transfer
it starts besides its answer; the answer is a fault where the run has none.
-/
import SubConverter.Src.ConvSingbox
import SubConverter.Src.Httpc

namespace SubConverter

open CMem

/-! ## Converters -/

/-- `converter`. -/
structure Converter where
  name : CStr
  run : ConvCtx → Option CStr → Run (Int × Option CStr)

def convSingbox (tok : Tokener) : Converter := ⟨.lit "singbox", convSingboxRun tok⟩

def convBase64 (tok : Tokener) : Converter := ⟨.lit "base64", convBase64Run tok⟩

/-- `g_converters`. -/
def gConverters (tok : Tokener) : List Converter := [convSingbox tok, convBase64 tok]

def converterFind (tok : Tokener) (name : CStr) : Option Converter :=
  (gConverters tok).find? fun c => decide (c.name = name)

/-! ## Headers -/

/-- `strbuf_detach`: the buffer as a C string. -/
def strbufDetach (sb : Strbuf) : CStr := CStr.ofBytes (sb.data.getD [])

/-- The array of `parse_headers`. -/
structure HeaderArr where
  arr : Option StrArray
  n : Nat
  cap : Nat

namespace HeaderArr

def init : HeaderArr := ⟨none, 0, 0⟩

/-- `realloc` to the next capacity. -/
def grow (a : HeaderArr) : HeaderArr :=
  let ncap := if a.cap = 0 then 8 else a.cap * 2
  let slots := a.arr.getD []
  { a with arr := some (slots.take ncap ++ List.replicate (ncap - slots.length) none), cap := ncap }

/-- `arr[n++] = h`. -/
def store (a : HeaderArr) (h : CStr) : Run HeaderArr :=
  match a.arr with
  | none => .error .null
  | some slots =>
    if a.n < slots.length then .ok { a with arr := some (slots.set a.n (some h)), n := a.n + 1 } else .error .oob

/-- One header at the end, with growth when the array is full. -/
def append (a : HeaderArr) (h : CStr) : Run HeaderArr := (if a.n = a.cap then a.grow else a).store h

end HeaderArr

/-- `strcasecmp(a, s) == 0` for a constant `s`, in the C locale. -/
def strcaseeq (a : CStr) (s : String) : Bool := a.bytes.map asciiLower == (str s).map asciiLower

/-- The keys that are not forwarded. -/
def isRestricted (key : CStr) : Bool :=
  strcaseeq key "host" || strcaseeq key "content-length" || strcaseeq key "transfer-encoding"

/-- `"%s: %s"`. -/
def headerText (key v : CStr) : CStr :=
  strbufDetach (Strbuf.init.appendf (key.bytes ++ (str ": " ++ v.bytes)))

/-- The loop over the entries of `obj` from `idx` on. -/
def parseHeadersLoop (obj : Json) : Nat → Nat → HeaderArr → Run HeaderArr
  | 0, _, _ => .error .fuel
  | fuel + 1, idx, a =>
    match jsonxObjEntries obj idx with
    | none => .ok a
    | some (key, val, idx) =>
      match jsonxStr val with
      -- `!jsonx_is_string(val)`
      | none => parseHeadersLoop obj fuel idx a
      | some v =>
        if isRestricted key then parseHeadersLoop obj fuel idx a
        else do
          parseHeadersLoop obj fuel idx (← a.append (headerText key v))

/-- `parse_headers`: the array, null for an error, and `*out_n`. -/
def parseHeaders (tok : Tokener) (json : CStr) : Run (Option StrArray × Nat) :=
  match jsonxParse tok (some json.bytes) with
  | none => .ok (none, 0)
  | some obj =>
    if obj.isObject then do
      let a ← parseHeadersLoop obj (obj.objectLength + 1) 0 .init
      .ok (a.arr, a.n)
    else .ok (none, 0)

/-! ## Answers -/

structure Response where
  status : Nat
  ctype : String
  body : CStr
  deriving DecidableEq

/-- `send_response`: the body is sent up to its terminator. -/
def sendResponse (status : Nat) (ctype : String) (body : CStr) : Response := ⟨status, ctype, body⟩

/-- An error as JSON. -/
def errorResponse (status : Nat) (error code : String) : Response :=
  sendResponse status "application/json" (.lit ("\x7b\"error\":\"" ++ error ++ "\",\"code\":\"" ++ code ++ "\"\x7d"))

def methodNotAllowed : Response := errorResponse 405 "method not allowed" "method_not_allowed"

def missingType : Response := errorResponse 400 "missing 'type' or 'source'" "bad_request"

def unknownConverter : Response := errorResponse 400 "unknown converter" "bad_request"

def missingUrl : Response := errorResponse 400 "missing 'url'" "bad_request"

def invalidHeaders : Response := errorResponse 400 "invalid headers JSON" "bad_request"

def upstreamTimeout : Response := errorResponse 504 "upstream timeout" "timeout"

def upstreamFailed : Response := errorResponse 502 "upstream fetch failed" "bad_gateway"

/-- A `long` is never too long for `strbuf_appendf`. -/
def upstreamStatus (status : Int) : Response :=
  sendResponse 502 "application/json" (strbufDetach (Strbuf.init.appendBytes
    (str "\x7b\"error\":\"upstream returned HTTP " ++ (decimalInt status ++ str "\",\"code\":\"bad_gateway\"\x7d"))))

def notConvertible : Response := errorResponse 422 "source data is not convertible" "unprocessable"

/-! ## /convert -/

/-- The method and the arguments of a request, as the HTTP library finds them. -/
structure ConvertArgs where
  method : CStr
  type : Option CStr
  url : Option CStr
  headers : Option CStr

/-- What a run of `handle_convert` does: the transfers it starts, and its answer. -/
structure Handled where
  sent : List CurlOptions
  answer : Run Response

/-- What lies in the block of a decoded body behind its terminator. -/
structure Spare where
  bytes : Bytes
  fits : bytes.length < 2 ^ 62

/-- `ctx` of a response body. -/
def Spare.ctx (spare : Spare) (data : Bytes) (fits : data.length + 1 ≤ 2 ^ 62) : ConvCtx :=
  ⟨data, spare.bytes, by have := spare.fits; omega⟩

/-- The conversion of a response body. -/
def convertBody (conv : Converter) (spare : Spare) (body : BodyBuf) : Run Response :=
  match body with
  | ⟨none, _⟩ => .ok notConvertible
  | ⟨some data, fits⟩ => do
    match ← conv.run (spare.ctx data fits) none with
    | (0, some yaml) => .ok (sendResponse 200 "application/yaml" yaml)
    | (0, none) => .error .null
    | _ => .ok notConvertible

/-- What follows `httpc_request`. -/
def convertAnswer (conv : Converter) (spare : Spare) (rc : HttpcStatus) (resp : HttpcResponse) : Run Response :=
  if rc = .timeout then .ok upstreamTimeout
  else if rc = .err then .ok upstreamFailed
  else if rc = .httpError ∨ resp.status ≠ 200 then .ok (upstreamStatus resp.status)
  else convertBody conv spare resp.body

/-- The headers argument: `none` for an invalid one, else the array and its length. -/
def convertHeaders (tok : Tokener) (headers : Option CStr) : Run (Option (Option StrArray × Nat)) :=
  match headers with
  | none => .ok (some (none, 0))
  | some h =>
    if h.bytes = [] then .ok (some (none, 0))
    else do
      match ← parseHeaders tok h with
      | (none, _) => .ok none
      | (some arr, n) => .ok (some (some arr, n))

/-- The request for the subscription. -/
def convertReq (url : CStr) (headers : Option StrArray) (nheaders : Nat) : HttpcReq :=
  { httpcReqInit with
    url := some url, method := some (.lit "GET"), timeoutMs := 30000, maxResponse := 2097152, headers := headers,
    nheaders := nheaders }

/-- `handle_convert` from the request on. -/
def convertFetch (curl : Curl) (conv : Converter) (spare : Spare) (req : HttpcReq) : Handled :=
  match httpcRequest curl req with
  | .error e => ⟨[], .error e⟩
  | .ok (options, rc, resp) => ⟨options.toList, convertAnswer conv spare rc resp⟩

/-- `handle_convert` from the headers argument on. -/
def convertWith (curl : Curl) (conv : Converter) (spare : Spare) (url : CStr) :
    Run (Option (Option StrArray × Nat)) → Handled
  | .error e => ⟨[], .error e⟩
  | .ok none => ⟨[], .ok invalidHeaders⟩
  | .ok (some (arr, n)) => convertFetch curl conv spare (convertReq url arr n)

def handleConvert (curl : Curl) (tok : Tokener) (spare : Spare) (args : ConvertArgs) : Handled :=
  if args.method ≠ .lit "GET" then ⟨[], .ok methodNotAllowed⟩
  else
    match args.type with
    | none => ⟨[], .ok missingType⟩
    | some type =>
      match converterFind tok type with
      | none => ⟨[], .ok unknownConverter⟩
      | some conv =>
        match args.url with
        | none => ⟨[], .ok missingUrl⟩
        | some url => convertWith curl conv spare url (convertHeaders tok args.headers)

end SubConverter
