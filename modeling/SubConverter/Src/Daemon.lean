/-
The daemon of `server.c`: how the HTTP library calls `handler_cb` and `cleanup_cb`. A connection has one request at a
time; the first call comes without a body, then one call for each chunk of it, and one at its end that has to answer.
The cleanup callback comes after the answer, after a refusal, or when the connection is lost.
-/
import SubConverter.Lib.Interleave
import SubConverter.Src.Handler

namespace SubConverter

open CMem Own

/-- What happens on a connection; the end of a body comes with what the libraries do in that call, and what lies behind
a body that is decoded in it. -/
inductive Event
  | begin (req : Request)
  | upload (chunk : Bytes)
  | finish (mhd : Mhd) (curl : Libcurl) (spare : Spare)
  | completed

/-- Where the library is with a connection: `closing` after an answer or a refusal. -/
inductive Phase
  | idle
  | receiving (req : Request)
  | closing

/-- What a request queued, and whether the allocator had no room in a call for its answer. -/
structure Reply where
  queued : Option Response
  short : Bool

/-- A connection: its `*con_cls`, and the replies to its requests. -/
structure Conn where
  phase : Phase
  conCls : Option ℕ
  replies : List Reply

def Conn.init : Conn := ⟨.idle, none, []⟩

/-- The world of a call. -/
def World.during (w : World) (mhd : Mhd) (curl : Libcurl) (spare : Spare) : World :=
  { w with mhd := mhd, curl := curl, spare := spare }

/-- The call an event leads to; `none` where the library does not make it. -/
def Conn.next (w : World) (k : Conn) (e : Event) : Option (HeapRun Conn) :=
  match e, k.phase with
  | .begin req, .idle => some do
    let r ← handlerCb w req [] k.conCls
    return ⟨if r.yes then .receiving req else .closing, r.conCls, k.replies⟩
  | .upload chunk, .receiving req =>
    if chunk = [] then none
    else some do
      let r ← handlerCb w req chunk k.conCls
      return ⟨if r.yes then .receiving req else .closing, r.conCls, k.replies⟩
  | .finish mhd curl spare, .receiving req => some do
    let (r, short) ← Own.noting (handlerCb (w.during mhd curl spare) req [] k.conCls)
    return ⟨.closing, r.conCls, k.replies ++ [⟨r.queued, short⟩]⟩
  | .completed, .receiving _ | .completed, .closing => some do
    cleanupCb k.conCls
    return ⟨.idle, none, k.replies⟩
  | _, _ => none

/-- Connections over the memory of the program. -/
abbrev Serving (C : Type) := Sys C Conn Block

/-- No connection yet. -/
def Serving.start {C : Type} (m : Mem Block) : Serving C := ⟨m, fun _ => .init⟩

end SubConverter
