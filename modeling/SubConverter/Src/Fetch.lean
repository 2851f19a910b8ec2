/-
`httpc.c` with its heap blocks: the two callbacks of libcurl, `httpc_request` and `httpc_response_free`. The handle and
the list of headers are blocks of libcurl, which are not among these.
-/
import SubConverter.Src.Heap
import SubConverter.Src.Httpc

namespace SubConverter

open CMem Own

/-! ## libcurl -/

/-- A call of the header or the write callback, with its bytes. -/
inductive CurlCall
  | header (line : Bytes)
  | body (chunk : Bytes)

def CurlCall.bytes : CurlCall → Bytes
  | .header line => line
  | .body chunk => chunk

def CurlCall.chunk : CurlCall → Option Bytes
  | .header _ => none
  | .body chunk => some chunk

/-- The callbacks of a transfer, and how it ends when all of them take their bytes. -/
structure Exchange where
  calls : List CurlCall
  code : CurlCode
  status : Int

/-- The transfer without its headers. -/
def Exchange.transfer (e : Exchange) : Transfer := ⟨e.calls.filterMap CurlCall.chunk, e.code, e.status⟩

/-- What libcurl is free in: whether `curl_slist_append` has room for the last of these lines, and where these options
lead to. -/
structure Libcurl where
  appends : List CStr → Bool
  perform : CurlOptions → Exchange

/-! ## Callbacks -/

/-- The `body_buf` and the `header_buf` of a request. -/
structure Received where
  body : Option ℕ
  headers : PtrArray

/-- `body_write_cb`: the number of bytes taken, and the data pointer. -/
def bodyWrite (A : Allocator) (chunk : Bytes) (data : Option ℕ) : HeapRun (Nat × Option ℕ) :=
  if chunk = [] then pure (0, data)
  else
    match data with
    | none =>
      if chunk.length + 1 ≤ 2 ^ 62 then do
        match ← Own.alloc A (.chars chunk) with
        | some q => return (chunk.length, some q)
        | none => return (0, none)
      else pure (0, none)
    | some p => do
      let old ← loadChars p
      if old.length + chunk.length + 1 ≤ 2 ^ 62 then
        match ← Own.resize deadBlock A p (.chars (old ++ chunk)) with
        | some q => return (chunk.length, some q)
        | none => return (0, some p)
      else return (0, some p)

/-- `dup_trimmed`: a copy without the space around it. -/
def dupTrimmed (A : Allocator) (s : Bytes) : HeapRun (Option ℕ) :=
  Own.alloc A (.chars ((s.dropWhile isSpace).rdropWhile isSpace))

/-- `while (ncap < need) ncap *= 2`, with fuel. -/
def doubleTo (need : Nat) : Nat → Nat → Nat
  | 0, ncap => ncap
  | fuel + 1, ncap => if ncap < need then doubleTo need fuel (ncap * 2) else ncap

/-- `header_write_cb` from the line without its end on: the number of bytes to return, 0 where there is no room. -/
def headerStore (A : Allocator) (n : Nat) (text : Bytes) (buf : PtrArray) : HeapRun (Nat × PtrArray) :=
  -- `strchr` does not look behind a NUL
  if ch ':' ∈ text.takeWhile (· ≠ 0) then do
    let ncap := doubleTo (buf.n + 1) (buf.n + 1) (if buf.cap = 0 then 8 else buf.cap)
    match ← buf.ensure A (buf.n + 1 > buf.cap) ncap with
    | none => return (0, buf)
    | some buf => do
      let name ← dupTrimmed A (text.takeWhile (· ≠ ch ':'))
      let value ← dupTrimmed A ((text.dropWhile (· ≠ ch ':')).drop 1)
      match name, value with
      | some name, some value => return (n, ← buf.store [name, value])
      | name, value => do
        freePtr name
        freePtr value
        return (0, buf)
  else pure (n, buf)

/-- `header_write_cb`: the number of bytes taken, and the headers. -/
def headerWrite (A : Allocator) (line : Bytes) (buf : PtrArray) : HeapRun (Nat × PtrArray) :=
  if line = [] then pure (0, buf)
  else do
    match ← Own.alloc A (.chars line) with
    | none => return (0, buf)
    | some p => do
      let text := (← loadChars p).rdropWhile fun c => c = 13 ∨ c = 10
      Own.store deadBlock p (.chars text)
      let r ← headerStore A line.length text buf
      Own.free deadBlock p
      return r

/-- One callback. -/
def curlCall (A : Allocator) (c : CurlCall) (s : Received) : HeapRun (Nat × Received) :=
  match c with
  | .header line => do
    let (n, headers) ← headerWrite A line s.headers
    return (n, { s with headers := headers })
  | .body chunk => do
    let (n, body) ← bodyWrite A chunk s.body
    return (n, { s with body := body })

/-- The callbacks of a transfer, up to one that does not take all of its bytes. -/
def curlCalls (A : Allocator) : List CurlCall → Received → HeapRun (Bool × Received)
  | [], s => pure (true, s)
  | c :: cs, s => do
    let (n, s) ← curlCall A c s
    if n = c.bytes.length then curlCalls A cs s else return (false, s)

/-! ## httpc_request -/

/-- The loop over `req->headers` from `i` on, with the list so far. It ends with a null list where there is no room for
one more, and nothing frees the lines before. -/
def headerStrings (curl : Libcurl) (p : ℕ) : Nat → Nat → List CStr → HeapRun (List CStr)
  | 0, _, list => pure list
  | k + 1, i, list => do
    match (← loadArray p)[i]? with
    | some (some [h]) => do
      let list := list ++ [CStr.ofBytes (← loadChars h)]
      if curl.appends list then headerStrings curl p k (i + 1) list else return []
    | _ => Own.fail deadBlock

/-- `hdr_list`. -/
def headerListHeap (curl : Libcurl) (headers : Option ℕ) (n : Nat) : HeapRun (List CStr) :=
  match headers with
  | some p => headerStrings curl p n 0 []
  | none => pure []

/-- `httpc_request` with the array of `req->headers` on the heap: the return code and `*out`. -/
def httpcRequestHeap (A : Allocator) (curl : Libcurl) (req : HttpcReq) (headers : Option ℕ) :
    HeapRun (HttpcStatus × Option ℕ) := do
  match ← Own.alloc A (.response ⟨0, none, none, 0⟩) with
  | none => return (.err, none)
  | some resp =>
    match req.url with
    | none => return (.err, some resp)
    | some url => do
      let list ← headerListHeap curl headers req.nheaders
      let exchange := curl.perform (curlOptions req url list)
      let (taken, received) ← curlCalls A exchange.calls ⟨none, .init⟩
      Own.store deadBlock resp
        (.response ⟨exchange.status, received.body, received.headers.arr, received.headers.n⟩)
      return (httpcStatus (if taken then exchange.code else .writeError) exchange.status, some resp)

def httpcResponseFree (resp : Option ℕ) : HeapRun Unit :=
  match resp with
  | none => pure ()
  | some p => do
    let r ← loadResponse p
    freePtr r.body
    freeArray r.headers r.nheaders
    Own.free deadBlock p

end SubConverter
