/-
The daemon over any interleaving of its connections. What a connection is answered depends on its own requests only,
and a body is the same however it comes in chunks; the blocks beside those of the requests under way are the ones there
were at the start.
-/
import SubConverter.Server.Handler
import SubConverter.Src.Daemon

namespace SubConverter

open CMem Own Yaml

/-! ## Sessions -/

/-- A request with its whole body, and what is not its own when it is answered: what the libraries do, and what lies
behind a decoded body. -/
structure Finished where
  req : Request
  body : Bytes
  mhd : Mhd
  curl : Libcurl
  spare : Spare

/-- What a connection has sent: the request under way with the body so far, and those before it. -/
structure Session where
  current : Option (Request × Bytes)
  done : List Finished

def Session.init : Session := ⟨none, []⟩

def Session.event (σ : Session) : Event → Session
  | .begin req => ⟨some (req, []), σ.done⟩
  | .upload chunk => ⟨σ.current.map fun r => (r.1, r.2 ++ chunk), σ.done⟩
  | .finish mhd curl spare => ⟨none, σ.done ++ (σ.current.map fun r => ⟨r.1, r.2, mhd, curl, spare⟩).toList⟩
  | .completed => ⟨none, σ.done⟩

def session (es : List Event) : Session := es.foldl Session.event .init

theorem session_snoc (es : List Event) (e : Event) : session (es ++ [e]) = (session es).event e := by
  rw [session, List.foldl_append]
  rfl

/-- The answer to a request. -/
def Finished.answer (tok : Tokener) (f : Finished) : Run Response :=
  routeAnswer (curlTransfer f.curl) tok f.spare f.req f.body

/-- The reply to a request: its answer, or an error of its route where a call for it found no room. -/
def Finished.Replied (tok : Tokener) (f : Finished) (q : Reply) : Prop :=
  ∃ r, Answers (q.short = true) (routeErrors f.req) (f.answer tok) r ∧ q.queued = f.mhd.sent r

/-- The same request, but for what lies behind a decoded body. -/
def Finished.Alike (f f' : Finished) : Prop := f' = { f with spare := f'.spare }

theorem Finished.Alike.answer {tok : Tokener} {f f' : Finished} (h : f.Alike f') {r r' : Response}
    (hr : f.answer tok = .ok r) (hr' : f'.answer tok = .ok r') : r = r' := by
  obtain ⟨req, body, mhd, curl, spare⟩ := f
  rw [h, Finished.answer, routeAnswer] at hr'
  rw [Finished.answer, routeAnswer] at hr
  simp only at hr hr'
  split_ifs at hr hr'
  · exact Except.ok.inj (hr.symm.trans hr')
  · exact Except.ok.inj (hr.symm.trans hr')
  · exact handleConvert_spare hr hr'
  · exact Except.ok.inj (hr.symm.trans hr')
  · exact Except.ok.inj (hr.symm.trans hr')

/-- Where there is room a request has one reply. -/
theorem Finished.Alike.replied {tok : Tokener} {f f' : Finished} (h : f.Alike f') {q q' : Reply} (hq : f.Replied tok q)
    (hq' : f'.Replied tok q') (hroom : q.short = false) (hroom' : q'.short = false) : q = q' := by
  have hmhd : f'.mhd = f.mhd := by rw [h]
  obtain ⟨queued, short⟩ := q
  obtain ⟨queued', short'⟩ := q'
  obtain ⟨r, hr, rfl⟩ := hq
  obtain ⟨r', hr', rfl⟩ := hq'
  cases hroom
  cases hroom'
  rw [hmhd, h.answer (hr.resolve_right fun h => Bool.noConfusion h.1) (hr'.resolve_right fun h => Bool.noConfusion h.1)]

theorem replies_unique {tok : Tokener} {fs fs' : List Finished} (h : List.Forall₂ Finished.Alike fs fs') :
    ∀ {qs qs' : List Reply}, List.Forall₂ (Finished.Replied tok) fs qs → List.Forall₂ (Finished.Replied tok) fs' qs' →
      (∀ q ∈ qs, q.short = false) → (∀ q ∈ qs', q.short = false) → qs = qs' := by
  induction h with
  | nil =>
    rintro _ _ ⟨⟩ ⟨⟩ - -
    rfl
  | cons hf _ ih =>
    rintro _ _ (_ | ⟨hq, hqs⟩) (_ | ⟨hq', hqs'⟩) hroom hroom'
    rw [List.forall_mem_cons] at hroom hroom'
    rw [hf.replied hq hq' hroom.1 hroom'.1, ih hqs hqs' hroom.2 hroom'.2]

/-! ## One connection -/

/-- The answers so far, and the `strbuf` of the request under way. -/
def Conn.Serves (w : World) (es : List Event) (k : Conn) (h : Heap Block) : Prop :=
  List.Forall₂ (Finished.Replied w.tok) (session es).done k.replies ∧
    match k.phase with
    | .receiving req => ∃ sb b, (k.conCls = some sb ∧ (session es).current = some (req, b)) ∧ holds sb b h
    | _ => k.conCls = none ∧ emp h

/-- How an event may stop the program: without room, or by a fault in a conversion. -/
def EventStops (w : World) (S : Prop) (es : List Event) (e : Event) (s : Stop) : Prop :=
  (S ∧ s = .abort) ∨ ∃ mhd curl spare req b f, e = .finish mhd curl spare ∧ (session es).current = some (req, b) ∧
    Finished.answer w.tok ⟨req, b, mhd, curl, spare⟩ = .error f ∧ s = .fault f

section Steps

variable (w : World) (S : Prop) (es : List Event)

theorem begin_serves (req : Request) (k : Conn) (hidle : k.phase = .idle) :
    Triple S (EventStops w S es (.begin req)) (k.Serves w es)
      (do
        let r ← handlerCb w req [] k.conCls
        return ⟨if r.yes then .receiving req else .closing, r.conCls, k.replies⟩)
      (Conn.Serves w (es ++ [.begin req])) := by
  obtain ⟨phase, conCls, replies⟩ := k
  cases hidle
  refine Triple.of_fact fun hdone => Triple.of_fact ?_
  rintro rfl
  refine Triple.bind (handlerCb_first w req []) ?_
  rintro ⟨yes, q, conCls⟩
  refine Triple.of_fact fun _ => ?_
  rcases conCls with _ | sb
  · refine Triple.of_fact ?_
    rintro ⟨-, rfl⟩
    refine Triple.pure fun h he => ?_
    rw [Conn.Serves, session_snoc]
    exact ⟨hdone, rfl, he⟩
  · refine Triple.of_fact ?_
    rintro rfl
    refine Triple.pure fun h hb => ?_
    rw [Conn.Serves, session_snoc]
    exact ⟨hdone, sb, [], ⟨rfl, rfl⟩, hb⟩

theorem upload_serves {chunk : Bytes} (hne : chunk ≠ []) {req : Request} (k : Conn) (hphase : k.phase = .receiving req) :
    Triple S (EventStops w S es (.upload chunk)) (k.Serves w es)
      (do
        let r ← handlerCb w req chunk k.conCls
        return ⟨if r.yes then .receiving req else .closing, r.conCls, k.replies⟩)
      (Conn.Serves w (es ++ [.upload chunk])) := by
  obtain ⟨phase, conCls, replies⟩ := k
  cases hphase
  refine Triple.of_fact fun hdone => Triple.exists fun sb => Triple.exists fun b => Triple.of_fact ?_
  rintro ⟨rfl, hcurrent⟩
  refine Triple.bind (handlerCb_upload w (fun hshort => .inl ⟨hshort, rfl⟩) req hne sb b) fun r => Triple.of_fact ?_
  rintro rfl
  refine Triple.pure fun h hb => ?_
  rw [Conn.Serves, session_snoc]
  refine ⟨hdone, sb, b ++ chunk, ⟨rfl, ?_⟩, hb⟩
  rw [Session.event, hcurrent]
  rfl

theorem finish_serves (mhd : Mhd) (curl : Libcurl) (spare : Spare) {req : Request} (k : Conn)
    (hphase : k.phase = .receiving req) :
    Triple S (EventStops w S es (.finish mhd curl spare)) (k.Serves w es)
      (do
        let (r, short) ← Own.noting (handlerCb (w.during mhd curl spare) req [] k.conCls)
        return ⟨.closing, r.conCls, k.replies ++ [⟨r.queued, short⟩]⟩)
      (Conn.Serves w (es ++ [.finish mhd curl spare])) := by
  obtain ⟨phase, conCls, replies⟩ := k
  cases hphase
  refine Triple.of_fact fun hdone => Triple.exists fun sb => Triple.exists fun b => Triple.of_fact ?_
  rintro ⟨rfl, hcurrent⟩
  have hstop : Stops (EventStops w S es (.finish mhd curl spare)) (routeAnswer (curlTransfer curl) w.tok spare req b) :=
    fun f hf => .inr ⟨mhd, curl, spare, req, b, f, rfl, hcurrent, hf, rfl⟩
  refine Triple.bind (Triple.noting fun U hU => handlerCb_final (w.during mhd curl spare)
    (fun hshort => .inl ⟨hU hshort, rfl⟩) req sb b hstop) ?_
  rintro ⟨⟨yes, q, conCls⟩, short⟩
  refine Triple.of_fact ?_
  rintro ⟨rfl, -, hq⟩
  refine Triple.pure fun h he => ?_
  rw [Conn.Serves, session_snoc, Session.event, hcurrent]
  exact ⟨List.rel_append hdone (.cons hq .nil), rfl, he⟩

theorem completed_serves (k : Conn) (hphase : k.phase ≠ .idle) :
    Triple S (EventStops w S es .completed) (k.Serves w es)
      (do
        cleanupCb k.conCls
        return ⟨.idle, none, k.replies⟩)
      (Conn.Serves w (es ++ [.completed])) := by
  have hdone {replies : List Reply} {h : Heap Block}
      (hd : List.Forall₂ (Finished.Replied w.tok) (session es).done replies) (he : emp h) :
      (⟨.idle, none, replies⟩ : Conn).Serves w (es ++ [.completed]) h := by
    rw [Conn.Serves, session_snoc]
    exact ⟨hd, rfl, he⟩
  obtain ⟨_ | req | _, conCls, replies⟩ := k
  · exact absurd rfl hphase
  · refine Triple.of_fact fun hd => Triple.exists fun sb => Triple.exists fun b => Triple.of_fact ?_
    rintro ⟨rfl, -⟩
    exact Triple.bind (cleanupCb_spec sb b) fun _ => Triple.pure fun h he => hdone hd he
  · refine Triple.of_fact fun hd => Triple.of_fact ?_
    rintro rfl
    exact Triple.bind (Triple.pure fun _ => id) fun _ => Triple.pure fun h he => hdone hd he

/-- Every call keeps what a connection has. -/
theorem conn_keeps : Keeps (Conn.next w) (fun es k => k.Serves w es) (EventStops w) := by
  intro S es k x run hrun
  obtain ⟨phase, conCls, replies⟩ := k
  cases x with
  | begin req =>
    cases phase with
    | idle =>
      cases hrun
      exact begin_serves w S es req ⟨.idle, conCls, replies⟩ rfl
    | receiving _ => cases hrun
    | closing => cases hrun
  | upload chunk =>
    cases phase with
    | idle => cases hrun
    | receiving req =>
      simp only [Conn.next] at hrun
      split_ifs at hrun with hnil
      cases hrun
      exact upload_serves w S es hnil ⟨.receiving req, conCls, replies⟩ rfl
    | closing => cases hrun
  | finish mhd curl spare =>
    cases phase with
    | idle => cases hrun
    | receiving req =>
      cases hrun
      exact finish_serves w S es mhd curl spare ⟨.receiving req, conCls, replies⟩ rfl
    | closing => cases hrun
  | completed =>
    cases phase with
    | idle => cases hrun
    | receiving req =>
      cases hrun
      exact completed_serves w S es ⟨.receiving req, conCls, replies⟩ (by simp)
    | closing =>
      cases hrun
      exact completed_serves w S es ⟨.closing, conCls, replies⟩ (by simp)

end Steps

/-! ## All connections -/

section Runs

variable {C : Type} [DecidableEq C]

/-- A run of the daemon from a memory that other parts of the program may have blocks in. -/
abbrev Served (w : World) (m : Mem Block) (es : List (C × Event)) (s : Serving C) : Prop :=
  Runs (Conn.next w) (Serving.start m) es s

variable {w : World} {m : Mem Block} {es : List (C × Event)} {s : Serving C}

theorem serves_init (w : World) : Conn.init.Serves w [] fun _ => none := ⟨.nil, rfl, fun _ => rfl⟩

theorem Served.owned (hrun : Served w m es s) : Owned (fun es k => k.Serves w es) (Serving.start m) es s :=
  Runs.owned (conn_keeps w) (fun _ => serves_init w) hrun

/-- Each connection gets the replies to its own requests with their own bodies, whatever the others do. -/
theorem queued_own (hrun : Served w m es s) (c : C) :
    List.Forall₂ (Finished.Replied w.tok) (session (own c es)).done (s.states c).replies := by
  obtain ⟨parts, -, -, hserves⟩ := hrun.owned
  exact (hserves c).1

/-- Room for every block, which moves each time it grows. -/
def roomy : Allocator := ⟨fun _ => false, fun _ => true⟩

/-- No server answers. -/
def noServer : Libcurl := ⟨fun _ => true, fun _ => ⟨[], .other, 0⟩⟩

def testWorld (A : Allocator) (tok : Tokener) : World := ⟨A, ⟨true, true⟩, noServer, tok, noSpare⟩

def manualRequest : Request := ⟨.lit "/convert/manual", ⟨.lit "POST", none, none, none⟩⟩

def missingRequest : Request := ⟨.lit "/x", ⟨.lit "GET", none, none, none⟩⟩

def answered : Event := .finish ⟨true, true⟩ noServer noSpare

/-- Two connections, one of which sends its body in two chunks. -/
def twoConns : List (Bool × Event) :=
  [(true, .begin manualRequest), (false, .begin missingRequest), (true, .upload [123]), (false, answered),
    (true, .upload [125]), (false, .completed), (true, answered)]

/-- The same body in one chunk. -/
def oneConn : List (Unit × Event) := [((), .begin manualRequest), ((), .upload [123, 125]), ((), answered)]

/-- The events lead through without a stop, and the calls for the replies to `c` find room. -/
def Passes {D : Type} [DecidableEq D] (w : World) (c : D) (es : List (D × Event)) : Prop :=
  ((Serving.start Mem.empty).run (Conn.next w) es).any (fun s => (s.states c).replies.all fun q => !q.short) = true

theorem Passes.run {D : Type} [DecidableEq D] {w : World} {c : D} {es : List (D × Event)} (h : Passes w c es) :
    ∃ s, Served w Mem.empty es s ∧ ∀ q ∈ (s.states c).replies, q.short = false := by
  obtain ⟨s, hs, hroom⟩ := (Option.any_eq_true _ _).1 h
  exact ⟨s, Runs.nil.of_run hs, by simpa using hroom⟩

theorem passes_twoConns : Passes (testWorld roomy emptyObjectTok) true twoConns := by
  unfold Passes
  decide +kernel

theorem passes_oneConn : Passes (testWorld roomy emptyObjectTok) () oneConn := by
  unfold Passes
  decide +kernel

theorem queued_own_twoConns : ∃ s : Serving Bool, Served (testWorld roomy emptyObjectTok) Mem.empty twoConns s ∧
    List.Forall₂ (Finished.Replied emptyObjectTok)
      [⟨manualRequest, [123, 125], ⟨true, true⟩, noServer, noSpare⟩] (s.states true).replies := by
  obtain ⟨s, hrun, -⟩ := passes_twoConns.run
  exact ⟨s, hrun, queued_own hrun true⟩

/-- Two runs answer the same requests alike, whatever else happens in them and in which chunks the bodies come, where a
call for the answers finds room. -/
theorem queued_unique {D : Type} [DecidableEq D] {w' : World} {m' : Mem Block} {es' : List (D × Event)} {s' : Serving D}
    (htok : w.tok = w'.tok) (hrun : Served w m es s) (hrun' : Served w' m' es' s') {c : C} {d : D}
    (hdone : List.Forall₂ Finished.Alike (session (own c es)).done (session (own d es')).done)
    (hroom : ∀ q ∈ (s.states c).replies, q.short = false) (hroom' : ∀ q ∈ (s'.states d).replies, q.short = false) :
    (s.states c).replies = (s'.states d).replies := by
  obtain ⟨parts, -, -, hserves⟩ := hrun.owned
  obtain ⟨parts', -, -, hserves'⟩ := hrun'.owned
  have h' := (hserves' d).1
  rw [← htok] at h'
  exact replies_unique hdone (hserves c).1 h' hroom hroom'

theorem queued_unique_conns : ∃ (s : Serving Bool) (s' : Serving Unit),
    Served (testWorld roomy emptyObjectTok) Mem.empty twoConns s ∧
    Served (testWorld roomy emptyObjectTok) Mem.empty oneConn s' ∧ (s.states true).replies = (s'.states ()).replies := by
  obtain ⟨s, hrun, hroom⟩ := passes_twoConns.run
  obtain ⟨s', hrun', hroom'⟩ := passes_oneConn.run
  exact ⟨s, s', hrun, hrun', queued_unique rfl hrun hrun' (.cons rfl .nil) hroom hroom'⟩

/-- The blocks of a connection: the `strbuf` of a request under way, and its buffer. -/
theorem Conn.Serves.blocks {es : List Event} {k : Conn} {h : Heap Block} (hk : k.Serves w es h) {p : ℕ} {v : Block}
    (hp : h p = some v) : ∃ req sb, k.phase = .receiving req ∧ k.conCls = some sb ∧
      (p = sb ∨ h sb = some (.strbuf (some p))) := by
  obtain ⟨phase, conCls, replies⟩ := k
  cases phase with
  | receiving req =>
    obtain ⟨-, sb, b, ⟨rfl, -⟩, data, h₁, h₂, hs, hsb, hdata⟩ := hk
    refine ⟨req, sb, rfl, rfl, ?_⟩
    rcases hs p with ⟨-, heq⟩ | ⟨-, heq⟩
    · rw [heq] at hp
      rcases data with _ | q
      · rw [hdata.2 p] at hp
        cases hp
      · by_cases hpq : p = q
        · subst hpq
          exact .inr (hs.live hsb.1).1
        · rw [hdata.2 p hpq] at hp
          cases hp
    · rw [heq] at hp
      by_contra hne
      push Not at hne
      rw [hsb.2 p hne.1] at hp
      cases hp
  | idle =>
    rw [hk.2.2 p] at hp
    cases hp
  | closing =>
    rw [hk.2.2 p] at hp
    cases hp

/-- The blocks beside those there were at the start are the `strbuf`s of the requests under way and their buffers. -/
theorem heap_requests (hrun : Served w m es s) : (∀ p v, m.heap p = some v → s.mem.heap p = some v) ∧
    ∀ p v, s.mem.heap p = some v → m.heap p = some v ∨ ∃ c req sb, (s.states c).phase = .receiving req ∧
      (s.states c).conCls = some sb ∧ (p = sb ∨ s.mem.heap sb = some (.strbuf (some p))) := by
  obtain ⟨parts, hs, hrest, hserves⟩ := hrun.owned
  refine ⟨fun p v hp => hs.live none p v (by rw [hrest]; exact hp), fun p v hp => ?_⟩
  obtain ⟨_ | c, hc⟩ := hs.owned p v hp
  · exact .inl (by rw [hrest] at hc; exact hc)
  · obtain ⟨req, sb, hphase, hcls, hsb⟩ := (hserves c).blocks hc
    exact .inr ⟨c, req, sb, hphase, hcls, hsb.imp_right fun hsb => hs.live (some c) sb _ hsb⟩

theorem heap_requests_halfway : ∃ s : Serving Bool,
    Served (testWorld roomy emptyObjectTok) Mem.empty (twoConns.take 3) s ∧
    ∀ p v, s.mem.heap p = some v → (Mem.empty : Mem Block).heap p = some v ∨ ∃ c req sb,
      (s.states c).phase = .receiving req ∧ (s.states c).conCls = some sb ∧
        (p = sb ∨ s.mem.heap sb = some (.strbuf (some p))) := by
  have hpasses : Passes (testWorld roomy emptyObjectTok) true (twoConns.take 3) := by
    unfold Passes
    decide +kernel
  obtain ⟨s, hrun, -⟩ := hpasses.run
  exact ⟨s, hrun, (heap_requests hrun).2⟩

/-- A list of links arrives for the request that faults: at a line where it stands, or at a name. -/
def ListFaults (tok : Tokener) (curl : Libcurl) (spare : Spare) (req : Request) : Prop :=
  urlPath req.url = str "/convert" ∧ ∃ t fits, Fetches (curlTransfer curl) tok req.args (convBase64 tok) t ∧ t.Arrives ∧
    TextFaults tok (spare.ctx t.body fits)

theorem Finished.answer_error {tok : Tokener} {f : Finished} {e : Fault} (h : f.answer tok = .error e) :
    ListFaults tok f.curl f.spare f.req := by
  unfold Finished.answer routeAnswer at h
  simp only at h
  split_ifs at h with hroot hhealth hconvert hmanual
  exact ⟨hconvert, (handleConvert_faults_iff (curlTransfer f.curl) tok f.spare f.req.args).1 ⟨e, h⟩⟩

/-- An event stops the program only where a call of it finds no room, or at a list that faults. -/
theorem event_stops (hrun : Served w m es s) {c : C} {e : Event} {stop : Stop} {short : Bool}
    (he : s.step (Conn.next w) c e = some (.error (stop, short))) : (short = true ∧ stop = .abort) ∨
      ∃ mhd curl spare req b f, e = .finish mhd curl spare ∧ (session (own c es)).current = some (req, b) ∧
        ListFaults w.tok curl spare req ∧ stop = .fault f := by
  rcases Runs.stops (conn_keeps w) (fun _ => serves_init w) hrun he with
    habort | ⟨mhd, curl, spare, req, b, f, rfl, hcur, hans, rfl⟩
  · exact .inl habort
  · exact .inr ⟨mhd, curl, spare, req, b, f, rfl, hcur, Finished.answer_error hans, rfl⟩

/-- Room for the `strbuf` of a request and no answer. -/
def tight : Allocator := ⟨fun n => n == 1, fun _ => false⟩

theorem event_stops_tight : ∃ s : Serving Unit,
    Served (testWorld tight .refusing) Mem.empty [((), .begin missingRequest)] s ∧
      ∃ short, s.step (Conn.next (testWorld tight .refusing)) () answered = some (.error (.abort, short)) ∧
        short = true := by
  obtain ⟨s, hrun, short, hstep⟩ : ∃ s : Serving Unit,
      Served (testWorld tight .refusing) Mem.empty [((), .begin missingRequest)] s ∧
        ∃ short, s.step (Conn.next (testWorld tight .refusing)) () answered = some (.error (.abort, short)) :=
    ⟨_, Runs.nil.snoc rfl, _, rfl⟩
  rcases event_stops hrun hstep with ⟨hshort, -⟩ | ⟨_, _, _, _, _, _, -, -, -, hstop⟩
  · exact ⟨s, hrun, short, hstep, hshort⟩
  · cases hstop

/-- What is queued for a request to `/convert`. -/
theorem convert_replied (hrun : Served w m es s) {c : C} {i : ℕ} {f : Finished}
    (hi : (session (own c es)).done[i]? = some f) (hpath : urlPath f.req.url = str "/convert") :
    ∃ q r, (s.states c).replies[i]? = some q ∧ q.queued = f.mhd.sent r ∧
      Answers (q.short = true) convertErrors (handleConvert (curlTransfer f.curl) w.tok f.spare f.req.args).answer r := by
  obtain ⟨hlen, hall⟩ := List.forall₂_iff_get.1 (queued_own hrun c)
  obtain ⟨hlt, rfl⟩ := List.getElem?_eq_some_iff.1 hi
  obtain ⟨r, hr, hq⟩ := hall i hlt (by omega)
  refine ⟨_, r, List.getElem?_eq_getElem (by omega), hq, ?_⟩
  unfold Finished.answer routeAnswer routeErrors at hr
  simp only [List.get_eq_getElem, hpath] at hr
  exact hr

/-- A request for a subscription is answered by the document of its nodes, in any run and however the subscription
arrives in chunks. -/
theorem subscription_served (hrun : Served w m es s) {c : C} {i : ℕ} {f : Finished} {t : Transfer}
    {ls : List (SubLine w.tok)} (hi : (session (own c es)).done[i]? = some f) (hpath : urlPath f.req.url = str "/convert")
    (hf : Fetches (curlTransfer f.curl) w.tok f.req.args (convBase64 w.tok) t) (harrives : t.Arrives)
    (hne : subNodes ls ≠ []) (hnames : SubNamed ls) (hcarries : Carries t.body ls) :
    ∃ q r, (s.states c).replies[i]? = some q ∧ q.queued = f.mhd.sent r ∧ ((∃ y, r = ⟨200, "application/yaml", y⟩ ∧
      (readDocument y.bytes = some (base64Doc (subNodes ls)).tree ↔ ∀ n ∈ subNodes ls, AllKept n.written)) ∨
        q.short = true ∧ r ∈ convertErrors) := by
  obtain ⟨q, r, hq, hsent, hr⟩ := convert_replied hrun hi hpath
  obtain ⟨y, hy, hread⟩ := subscription_answer hf harrives hne hnames hcarries
  exact ⟨q, r, hq, hsent, hr.imp_left fun hans => ⟨y, Except.ok.inj (hans.symm.trans hy), hread⟩⟩

def subscriptionRequest : Request :=
  ⟨.lit "/convert", ⟨.lit "GET", some (.lit "base64"), some (.lit "http://h/s"), none⟩⟩

/-- A server that answers every request with this exchange. -/
def server (e : Exchange) : Libcurl := ⟨fun _ => true, fun _ => e⟩

/-- A subscription in two chunks, with a header line before them. -/
def remarkExchange : Exchange :=
  ⟨[.header (str "Server: x\r\n"), .body ((subscription remarkSub).take 20), .body ((subscription remarkSub).drop 20)],
    .ok, 200⟩

def subscriptionEvents : List (Unit × Event) :=
  [((), .begin subscriptionRequest), ((), .finish ⟨true, true⟩ (server remarkExchange) noSpare)]

theorem subscription_served_remark : ∃ s : Serving Unit,
    Served (testWorld roomy .refusing) Mem.empty subscriptionEvents s ∧
      ∃ y, (s.states ()).replies[0]? = some ⟨some ⟨200, "application/yaml", y⟩, false⟩ ∧
        readDocument y.bytes = some (base64Doc (subNodes remarkSub)).tree := by
  have hpasses : Passes (testWorld roomy .refusing) () subscriptionEvents := by
    unfold Passes
    decide +kernel
  obtain ⟨s, hrun, hroom⟩ := hpasses.run
  have hbody : remarkExchange.transfer.body = subscription remarkSub := by decide +kernel
  have harrives : remarkExchange.transfer.Arrives := by
    refine ⟨rfl, rfl, ?_, ?_⟩ <;> rw [hbody] <;> decide +kernel
  have hfetches : Fetches (curlTransfer (server remarkExchange)) .refusing subscriptionRequest.args
      (convBase64 .refusing) remarkExchange.transfer :=
    ⟨.lit "http://h/s", [], ⟨rfl, ⟨_, rfl, rfl⟩, rfl⟩, .missing, rfl⟩
  have hi : (session (own () subscriptionEvents)).done[0]? =
      some ⟨subscriptionRequest, [], ⟨true, true⟩, server remarkExchange, noSpare⟩ := rfl
  obtain ⟨⟨queued, short⟩, r, hq, hsent, hr⟩ := subscription_served hrun hi (by decide +kernel) hfetches harrives
    (by decide +kernel) subNamed_remark (.inl hbody)
  cases hroom _ (List.mem_of_getElem? hq)
  cases hsent
  rcases hr with ⟨y, rfl, hread⟩ | ⟨hshort, -⟩
  · refine ⟨s, hrun, y, hq, hread.2 ?_⟩
    unfold AllKept
    decide +kernel
  · cases hshort

/-- So is a request for a configuration, by the document of its elements. -/
theorem configuration_served (hrun : Served w m es s) {c : C} {i : ℕ} {f : Finished} {t : Transfer} {xs : List Json}
    (hi : (session (own c es)).done[i]? = some f) (hpath : urlPath f.req.url = str "/convert")
    (hf : Fetches (curlTransfer f.curl) w.tok f.req.args (convSingbox w.tok) t) (harrives : t.Arrives)
    (hparse : jsonxParse w.tok (some t.body) = some (.arr xs)) :
    ∃ q r, (s.states c).replies[i]? = some q ∧ q.queued = f.mhd.sent r ∧
      ((if singboxElems xs = [] then r = notConvertible else ∃ y, r = ⟨200, "application/yaml", y⟩ ∧
          (readDocument y.bytes = some (singboxDoc (singboxElems xs)).tree ↔
            (singboxDoc (singboxElems xs)).StringsKept)) ∨
        q.short = true ∧ r ∈ convertErrors) := by
  obtain ⟨q, r, hq, hsent, hr⟩ := convert_replied hrun hi hpath
  refine ⟨q, r, hq, hsent, hr.imp_left fun hans => ?_⟩
  cases hans.symm.trans (configuration_answer hf harrives hparse)
  split_ifs with hnil
  · rfl
  · exact ⟨_, rfl, Document.read_iff _⟩

def configurationRequest : Request :=
  ⟨.lit "/convert", ⟨.lit "GET", some (.lit "singbox"), some (.lit "http://h/c"), none⟩⟩

/-- A configuration in two chunks. -/
def pairExchange : Exchange := ⟨[.body (pairCtx.data.take 30), .body (pairCtx.data.drop 30)], .ok, 200⟩

def configurationEvents : List (Unit × Event) :=
  [((), .begin configurationRequest), ((), .finish ⟨true, true⟩ (server pairExchange) noSpare)]

theorem configuration_served_pair : ∃ s : Serving Unit,
    Served (testWorld roomy pairTok) Mem.empty configurationEvents s ∧
      ∃ y, (s.states ()).replies[0]? = some ⟨some ⟨200, "application/yaml", y⟩, false⟩ ∧
        (readDocument y.bytes = some (singboxDoc (singboxElems pairJson)).tree ↔
          (singboxDoc (singboxElems pairJson)).StringsKept) := by
  have hpasses : Passes (testWorld roomy pairTok) () configurationEvents := by
    unfold Passes
    decide +kernel
  obtain ⟨s, hrun, hroom⟩ := hpasses.run
  have hbody : pairExchange.transfer.body = pairCtx.data := by decide +kernel
  have harrives : pairExchange.transfer.Arrives := by
    refine ⟨rfl, rfl, ?_, ?_⟩ <;> rw [hbody] <;> decide +kernel
  have hfetches : Fetches (curlTransfer (server pairExchange)) pairTok configurationRequest.args
      (convSingbox pairTok) pairExchange.transfer :=
    ⟨.lit "http://h/c", [], ⟨rfl, ⟨_, rfl, rfl⟩, rfl⟩, .missing, rfl⟩
  have hi : (session (own () configurationEvents)).done[0]? =
      some ⟨configurationRequest, [], ⟨true, true⟩, server pairExchange, noSpare⟩ := rfl
  have hparse : jsonxParse pairTok (some pairExchange.transfer.body) = some (.arr pairJson) := by
    rw [hbody]
    exact pairCtx_parse
  obtain ⟨⟨queued, short⟩, r, hq, hsent, hr⟩ :=
    configuration_served hrun hi (by decide +kernel) hfetches harrives hparse
  cases hroom _ (List.mem_of_getElem? hq)
  cases hsent
  rcases hr with hr | ⟨hshort, -⟩
  · rw [if_neg (by decide +kernel)] at hr
    obtain ⟨y, rfl, hread⟩ := hr
    exact ⟨s, hrun, y, hq, hread⟩
  · cases hshort

end Runs

end SubConverter
