/-
`server.c` with its heap blocks: `parse_headers`, the handlers and the callbacks of the HTTP library. What the allocator
and the library are free in are parameters, and so are libcurl and json-c. Of a conversion only the block of its result
is here: for its own blocks there is always room.
-/
import SubConverter.Src.Fetch
import SubConverter.Src.Main
import SubConverter.Src.Server

namespace SubConverter

open CMem Own

/-- How the library takes a response: `MHD_create_response_from_buffer` and `MHD_queue_response`. -/
structure Mhd where
  creates : Bool
  queues : Bool

/-- The parameters of a run. -/
structure World where
  alloc : Allocator
  mhd : Mhd
  curl : Libcurl
  tok : Tokener
  spare : Spare

section Handlers

variable (w : World)

/-! ## Answers -/

/-- `send_response`: the response that is queued, `none` for `MHD_NO`. -/
def sendBody (status : Nat) (ctype : String) (body : ℕ) : HeapRun (Option Response) := do
  let text ← loadChars body
  if w.mhd.creates then
    Own.free deadBlock body
    return if w.mhd.queues then some (sendResponse status ctype (CStr.ofBytes text)) else none
  else
    Own.free deadBlock body
    return none

/-- `send_response` of a copy. -/
def sendCopy (r : Response) : HeapRun (Option Response) := do
  sendBody w r.status r.ctype (← xstrdupHeap w.alloc r.body)

/-- `send_response` of what a buffer holds. -/
def sendDetached (status : Nat) (ctype : String) (data : Option ℕ) : HeapRun (Option Response) := do
  let (body, _) ← strbufDetachHeap w.alloc data
  sendBody w status ctype body

/-- The names in `handle_root`, with commas between them. -/
def appendNames : List Converter → Nat → Option ℕ → HeapRun (Option ℕ)
  | [], _, sb => pure sb
  | c :: cs, i, sb => do
    let sb ← if i > 0 then strbufAppend w.alloc sb (str ",") else pure sb
    let sb ← strbufAppend w.alloc sb (str "\"" ++ c.name.bytes ++ str "\"")
    appendNames cs (i + 1) sb

def handleRoot (method : CStr) : HeapRun (Option Response) :=
  if method ≠ .lit "GET" then sendCopy w methodNotAllowed
  else do
    let sb ← strbufAppend w.alloc none
      (str "\x7b\"service\":\"openwrt-sub-converter\",\"version\":\"" ++ subconvVersion.bytes ++ str "\",\"converters\":[")
    let sb ← appendNames w (gConverters w.tok) 0 sb
    let sb ← strbufAppend w.alloc sb (str "],\"endpoints\":[\"/health\",\"/convert\",\"/convert/manual\"]\x7d")
    sendDetached w 200 "application/json" sb

def handleHealth (method : CStr) : HeapRun (Option Response) :=
  if method ≠ .lit "GET" then sendCopy w methodNotAllowed
  else do
    let sb ← strbufAppend w.alloc none
      (str "\x7b\"status\":\"ok\",\"version\":\"" ++ subconvVersion.bytes ++ str "\"\x7d")
    sendDetached w 200 "application/json" sb

/-! ## Headers -/

/-- `free_header_arr`. -/
def freeHeaderArr (arr : Option ℕ) (n : Nat) : HeapRun Unit :=
  match arr with
  | none => pure ()
  | some p => freeArray (some p) n

/-- The loop over the entries of `obj` from `idx` on; `none` where there is no room. -/
def appendHeaders (obj : ℕ) : Nat → Nat → PtrArray → HeapRun (Option PtrArray)
  | 0, _, _ => Own.fail (.fault .fuel)
  | fuel + 1, idx, a => do
    match jsonxObjEntries (← loadJson obj) idx with
    | none => return some a
    | some (key, val, idx) =>
      match jsonxStr val with
      -- `!jsonx_is_string(val)`
      | none => appendHeaders obj fuel idx a
      | some v =>
        if isRestricted key then appendHeaders obj fuel idx a
        else do
          let sb ← strbufAppend w.alloc none (headerText key v).bytes
          let (h, _) ← strbufDetachHeap w.alloc sb
          match ← a.ensure w.alloc (a.n = a.cap) (if a.cap = 0 then 8 else a.cap * 2) with
          | none => do
            Own.free deadBlock h
            freeHeaderArr a.arr a.n
            return none
          | some a => do
            appendHeaders obj fuel idx (← a.store [h])

/-- The headers of a value, none where it is no object. -/
def objectHeaders (obj : ℕ) : HeapRun (Option PtrArray) := do
  let v ← loadJson obj
  if v.isObject then appendHeaders w obj (v.objectLength + 1) 0 .init else return none

/-- `parse_headers`: the array, null for an error, and `*out_n`. -/
def parseHeadersHeap (json : CStr) : HeapRun (Option ℕ × Nat) := do
  match ← jsonxParseHeap w.alloc w.tok json.bytes with
  | none => return (none, 0)
  | some obj => do
    let a ← objectHeaders w obj
    Own.free deadBlock obj
    return match a with
      | some a => (a.arr, a.n)
      | none => (none, 0)

/-! ## Handlers -/

/-- `conv->run` on the body of a response: `*out_yaml`, null for a return code other than 0. -/
def runConverter (conv : Converter) (body : Option ℕ) : HeapRun (Option ℕ) :=
  match body with
  | none => pure none
  | some p => do
    let data ← loadChars p
    if fits : data.length + 1 ≤ 2 ^ 62 then
      match ← liftRun (conv.run (w.spare.ctx data fits) none) with
      | (0, some yaml) => return some (← xstrdupHeap w.alloc yaml)
      | (0, none) => Own.fail (.fault .null)
      | _ => return none
    -- `body_write_cb` stores no longer body
    else Own.fail deadBlock

/-- `handle_convert` after `httpc_request`. -/
def respond (conv : Converter) (rc : HttpcStatus) (resp : Option ℕ) : HeapRun (Option Response) :=
  if rc = .timeout then do
    httpcResponseFree resp
    sendCopy w upstreamTimeout
  else if rc = .err then do
    httpcResponseFree resp
    sendCopy w upstreamFailed
  else
    match resp with
    | none => Own.fail (.fault .null)
    | some p => do
      let r ← loadResponse p
      if rc = .httpError ∨ r.status ≠ 200 then
        httpcResponseFree resp
        let sb ← strbufAppend w.alloc none (upstreamStatus r.status).body.bytes
        sendDetached w 502 "application/json" sb
      else
        let out ← runConverter w conv r.body
        httpcResponseFree resp
        match out with
        | some yaml => sendBody w 200 "application/yaml" yaml
        | none => sendCopy w notConvertible

/-- `handle_convert` from the request on. -/
def fetchAndRespond (conv : Converter) (url : CStr) (arr : Option ℕ) (n : Nat) : HeapRun (Option Response) := do
  let (rc, resp) ← httpcRequestHeap w.alloc w.curl (convertReq url none n) arr
  freeHeaderArr arr n
  respond w conv rc resp

/-- `handle_convert` from the headers argument on. -/
def convertWithHeap (conv : Converter) (url : CStr) (headers : Option CStr) : HeapRun (Option Response) :=
  match headers with
  | none => fetchAndRespond w conv url none 0
  | some json =>
    if json.bytes = [] then fetchAndRespond w conv url none 0
    else do
      match ← parseHeadersHeap w json with
      | (none, _) => sendCopy w invalidHeaders
      | (some arr, n) => fetchAndRespond w conv url (some arr) n

def handleConvertHeap (args : ConvertArgs) : HeapRun (Option Response) :=
  if args.method ≠ .lit "GET" then sendCopy w methodNotAllowed
  else
    match args.type with
    | none => sendCopy w missingType
    | some type =>
      match converterFind w.tok type with
      | none => sendCopy w unknownConverter
      | some conv =>
        match args.url with
        | none => sendCopy w missingUrl
        | some url => convertWithHeap w conv url args.headers

def invalidBody : Response := errorResponse 400 "invalid JSON body" "bad_request"

/-- `handle_convert_manual`, with the data pointer that is left of the body. -/
def handleConvertManual (method : CStr) (body : Option ℕ) : HeapRun (Option Response × Option ℕ) :=
  if method ≠ .lit "POST" then do
    return (← sendCopy w methodNotAllowed, body)
  else do
    match ← jsonxParseHeap w.alloc w.tok (← strbufText body) with
    | some obj => do
      let (echo, body) ← strbufDetachHeap w.alloc body
      Own.free deadBlock obj
      return (← sendBody w 200 "application/json" echo, body)
    | none => do
      return (← sendCopy w invalidBody, body)

def notFound : Response := errorResponse 404 "not found" "not_found"

/-- The path of an URL. -/
def urlPath (url : CStr) : Bytes := url.bytes.takeWhile (· ≠ ch '?')

/-- A request as the library hands it over. -/
structure Request where
  url : CStr
  args : ConvertArgs

def routeRequest (req : Request) (body : Option ℕ) : HeapRun (Option Response × Option ℕ) :=
  let path := urlPath req.url
  if path = str "/" then do
    return (← handleRoot w req.args.method, body)
  else if path = str "/health" then do
    return (← handleHealth w req.args.method, body)
  else if path = str "/convert" then do
    return (← handleConvertHeap w req.args, body)
  else if path = str "/convert/manual" then handleConvertManual w req.args.method body
  else do
    return (← sendCopy w notFound, body)

/-! ## Callbacks -/

/-- `MHD_YES` or `MHD_NO`, the response that was queued, and `*con_cls`. -/
structure Called where
  yes : Bool
  queued : Option Response
  conCls : Option ℕ

/-- `handler_cb`; `upload` is empty where `*upload_data_size` is 0. -/
def handlerCb (req : Request) (upload : Bytes) (conCls : Option ℕ) : HeapRun Called :=
  match conCls with
  | none => do
    match ← Own.alloc w.alloc (.strbuf none) with
    | none => return ⟨false, none, none⟩
    | some sb => return ⟨true, none, some sb⟩
  | some sb => do
    let data ← loadStrbuf sb
    if upload ≠ [] then
      let data ← strbufAppend w.alloc data upload
      Own.store deadBlock sb (.strbuf data)
      return ⟨true, none, some sb⟩
    else
      let (queued, data) ← routeRequest w req data
      strbufFree data
      Own.free deadBlock sb
      return ⟨queued.isSome, queued, none⟩

/-- `cleanup_cb`; `*con_cls` stays as it is. -/
def cleanupCb (conCls : Option ℕ) : HeapRun Unit :=
  match conCls with
  | none => pure ()
  | some sb => do
    strbufFree (← loadStrbuf sb)
    Own.free deadBlock sb

end Handlers

end SubConverter
