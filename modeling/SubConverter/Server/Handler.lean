/-
The handlers: which blocks they take and leave, and what they answer. An answer is a function of the request and its
body; only where a call of the allocator for it finds no room it may be an error.
-/
import SubConverter.Server.Answer
import SubConverter.Server.Fetch
import SubConverter.Src.Handler

namespace SubConverter

open CMem Own

/-! ## Answers -/

/-- An answer that only a GET gets. -/
def getAnswer (method : CStr) (r : Response) : Response := if method ≠ .lit "GET" then methodNotAllowed else r

/-- The name of a converter as a JSON string. -/
def quotedName (c : Converter) : Bytes := str "\"" ++ c.name.bytes ++ str "\""

/-- The names of the converters, with commas between them. -/
def nameList (cs : List Converter) : Bytes := (str ",").intercalate (cs.map quotedName)

def rootResponse (tok : Tokener) : Response :=
  sendResponse 200 "application/json" (CStr.ofBytes
    (str "\x7b\"service\":\"openwrt-sub-converter\",\"version\":\"" ++ subconvVersion.bytes ++ str "\",\"converters\":[" ++
      nameList (gConverters tok) ++ str "],\"endpoints\":[\"/health\",\"/convert\",\"/convert/manual\"]\x7d"))

def healthResponse : Response :=
  sendResponse 200 "application/json" (CStr.ofBytes
    (str "\x7b\"status\":\"ok\",\"version\":\"" ++ subconvVersion.bytes ++ str "\"\x7d"))

/-- What `/convert/manual` answers: the body up to its first NUL, when it is JSON. -/
def manualAnswer (tok : Tokener) (method : CStr) (body : Bytes) : Response :=
  if method ≠ .lit "POST" then methodNotAllowed
  else if (jsonxParse tok (some body)).isSome then sendResponse 200 "application/json" (CStr.ofBytes body)
  else invalidBody

/-- The answer to a request with this body. -/
def routeAnswer (curl : Curl) (tok : Tokener) (spare : Spare) (req : Request) (body : Bytes) : Run Response :=
  let path := urlPath req.url
  if path = str "/" then .ok (getAnswer req.args.method (rootResponse tok))
  else if path = str "/health" then .ok (getAnswer req.args.method healthResponse)
  else if path = str "/convert" then (handleConvert curl tok spare req.args).answer
  else if path = str "/convert/manual" then .ok (manualAnswer tok req.args.method body)
  else .ok notFound

/-- What is queued of an answer. -/
def Mhd.sent (mhd : Mhd) (r : Response) : Option Response := if mhd.creates && mhd.queues then some r else none

/-- The errors of `/convert` that may stand for a lack of room: `parse_headers` returned null, or `httpc_request` failed. -/
def convertErrors : List Response := [invalidHeaders, upstreamFailed]

/-- The errors that may stand for a lack of room, by the route. -/
def routeErrors (req : Request) : List Response :=
  if urlPath req.url = str "/convert" then convertErrors
  else if urlPath req.url = str "/convert/manual" then [invalidBody]
  else []

/-- The answer, or one of these errors where a call found no room. -/
def Answers (S : Prop) (errors : List Response) (answer : Run Response) (r : Response) : Prop :=
  answer = .ok r ∨ S ∧ r ∈ errors

/-- What a handler leaves: no block, and its answer with the library. -/
def World.answered (w : World) (S : Prop) (errors : List Response) (answer : Run Response) (q : Option Response)
    (h : Heap Block) : Prop :=
  (∃ r, Answers S errors answer r ∧ q = w.mhd.sent r) ∧ emp h

theorem nameList_cons (c : Converter) (cs : List Converter) :
    nameList (c :: cs) = quotedName c ++ cs.flatMap fun c => str "," ++ quotedName c := by
  unfold nameList
  induction cs generalizing c with
  | nil => simp
  | cons c' cs ih => rw [List.map_cons, List.map_cons, List.intercalate_cons_cons, ← List.map_cons, ih]; simp

section Triples

variable {S : Prop} {E : Stop → Prop} (w : World)

/-! ## Responses -/

theorem sendBody_spec (status : Nat) (ctype : String) (p : ℕ) (b : Bytes) :
    Triple S E (pts p (.chars b)) (sendBody w status ctype p) fun q h =>
      q = w.mhd.sent (sendResponse status ctype (CStr.ofBytes b)) ∧ emp h := by
  refine Triple.bind (loadChars_spec p b) fun text => Triple.of_fact ?_
  rintro rfl
  obtain ⟨A, ⟨_ | _, _ | _⟩, curl, tok⟩ := w
  all_goals exact Triple.bind (Triple.free p _) fun _ => Triple.pure fun _ he => ⟨rfl, he⟩

variable (hE : S → E .abort)

include hE

theorem sendCopy_spec (r : Response) :
    Triple S E emp (sendCopy w r) fun q h => q = w.mhd.sent r ∧ emp h := by
  refine Triple.bind (newOrAbort_spec hE _) fun p => ?_
  refine (sendBody_spec w r.status r.ctype p r.body.bytes).post fun q h hq => ?_
  rwa [CStr.ofBytes_self] at hq

theorem sendDetached_spec (status : Nat) (ctype : String) (data : Option ℕ) (b : Bytes) :
    Triple S E (buffer data b) (sendDetached w status ctype data) fun q h =>
      q = w.mhd.sent (sendResponse status ctype (CStr.ofBytes b)) ∧ emp h :=
  Triple.bind (strbufDetachHeap_spec hE data b) fun r => (sendBody_spec w status ctype r.1 b).pre fun _ hp => hp.2

/-- An answer that is the value. -/
theorem sendCopy_answered {errors : List Response} {answer : Run Response} {r : Response}
    (hr : Answers S errors answer r) : Triple S E emp (sendCopy w r) (w.answered S errors answer) :=
  (sendCopy_spec w hE r).post fun _ _ hq => ⟨⟨r, hr, hq.1⟩, hq.2⟩

/-- The names after the first. -/
theorem appendNames_succ (cs : List Converter) (i : Nat) (data : Option ℕ) (b : Bytes) :
    Triple S E (buffer data b) (appendNames w cs (i + 1) data) fun data' =>
      buffer data' (b ++ cs.flatMap fun c => str "," ++ quotedName c) := by
  induction cs generalizing i data b with
  | nil => exact Triple.pure fun h hp => by simpa using hp
  | cons c cs ih =>
    refine Triple.bind (strbufAppend_spec hE data b (str ",")) fun data₁ => ?_
    refine Triple.bind (strbufAppend_spec hE data₁ _ (quotedName c)) fun data₂ => ?_
    refine (ih (i + 1) data₂ _).post fun data₃ h hp => ?_
    simpa only [List.flatMap_cons, List.append_assoc] using hp

theorem appendNames_zero (cs : List Converter) (data : Option ℕ) (b : Bytes) :
    Triple S E (buffer data b) (appendNames w cs 0 data) fun data' => buffer data' (b ++ nameList cs) := by
  cases cs with
  | nil => exact Triple.pure fun h hp => by simpa [nameList] using hp
  | cons c cs =>
    refine Triple.bind (Q := fun data' h => data' = data ∧ buffer data b h) (Triple.pure fun h hp => ⟨rfl, hp⟩)
      fun data' => Triple.of_fact ?_
    rintro rfl
    refine Triple.bind (strbufAppend_spec hE data' b (quotedName c)) fun data₁ => ?_
    refine (appendNames_succ w hE cs 0 data₁ _).post fun data₂ h hp => ?_
    rwa [nameList_cons, ← List.append_assoc]

/-- A handler that answers only a GET. -/
theorem getOnly_spec (method : CStr) {r : Response} {c : HeapRun (Option Response)}
    (hc : Triple S E emp c fun q h => q = w.mhd.sent r ∧ emp h) :
    Triple S E emp (if method ≠ .lit "GET" then sendCopy w methodNotAllowed else c) fun q h =>
      q = w.mhd.sent (getAnswer method r) ∧ emp h := by
  unfold getAnswer
  by_cases hget : method ≠ .lit "GET"
  · rw [if_pos hget, if_pos hget]
    exact sendCopy_spec w hE methodNotAllowed
  · rw [if_neg hget, if_neg hget]
    exact hc

theorem handleRoot_spec (method : CStr) : Triple S E emp (handleRoot w method) fun q h =>
    q = w.mhd.sent (getAnswer method (rootResponse w.tok)) ∧ emp h := by
  refine getOnly_spec w hE method ?_
  refine Triple.bind (strbufAppend_init hE _) fun data₁ => ?_
  refine Triple.bind (appendNames_zero w hE _ data₁ _) fun data₂ => ?_
  refine Triple.bind (strbufAppend_spec hE data₂ _ _) fun data₃ => ?_
  exact sendDetached_spec w hE 200 "application/json" data₃ _

theorem handleHealth_spec (method : CStr) : Triple S E emp (handleHealth w method) fun q h =>
    q = w.mhd.sent (getAnswer method healthResponse) ∧ emp h := by
  refine getOnly_spec w hE method ?_
  refine Triple.bind (strbufAppend_init hE _) fun data₁ => ?_
  exact sendDetached_spec w hE 200 "application/json" data₁ _

/-! ## Headers -/

omit hE in
theorem freeHeaderArr_spec (a : PtrArray) (items : List (List (ℕ × Block))) :
    Triple S E (elements a items) (freeHeaderArr a.arr a.n) fun _ => emp := by
  obtain ⟨_ | p, n, cap⟩ := a
  · exact Triple.pure fun h hh => hh.2
  · exact freeArray_spec ⟨some p, n, cap⟩ items

/-- The array of the header lines, which is there as soon as there is one. -/
def linesAt (a : PtrArray) (lines : List CStr) (h : Heap Block) : Prop :=
  ∃ l, (l.map Prod.snd = lines ∧ (lines = [] → a.arr = none)) ∧ elements a (stringItems l) h

/-- One more line, and what follows; without room the array is freed. -/
theorem pushLine_bind {R : Heap Block → Prop} {U : Option PtrArray → Heap Block → Prop} (a : PtrArray) (lines : List CStr)
    (t : CStr) {k : PtrArray → HeapRun (Option PtrArray)} (hfail : S → ∀ h, R h → U none h)
    (hk : ∀ b, Triple S E (sep R (linesAt b (lines ++ [t]))) (k b) U) :
    Triple S E (sep R (linesAt a lines))
      (do
        let sb ← strbufAppend w.alloc none t.bytes
        let (h, _) ← strbufDetachHeap w.alloc sb
        match ← a.ensure w.alloc (a.n = a.cap) (if a.cap = 0 then 8 else a.cap * 2) with
        | none => do
          Own.free deadBlock h
          freeHeaderArr a.arr a.n
          return none
        | some a => do
          k (← a.store [h])) U := by
  refine Triple.bind_new (strbufAppend_init hE t.bytes) fun sb => ?_
  refine Triple.bind ((strbufDetachHeap_spec hE sb t.bytes).frame _) ?_
  rintro ⟨p, rest⟩
  refine Triple.pre (Triple.of_fact fun _ => ?_) fun h => sep_fact.1
  refine Triple.pre (Triple.exists fun l => Triple.of_fact fun hl => ?_) fun h hh =>
    (sep_exists (sep_rotate hh)).imp fun l => sep_fact.1
  have hfull : a.n = a.cap → a.cap < if a.cap = 0 then 8 else a.cap * 2 := fun _ => by split_ifs <;> omega
  refine Triple.bind ((PtrArray.ensure_spec w.alloc (stringItems l) hfull fun h => h).frame _) ?_
  rintro (_ | b)
  · refine Triple.pre (Triple.of_fact fun hshort => ?_) fun h => sep_fact.1
    refine Triple.pre ?_ fun h => sep_left_comm
    refine Triple.bind_drop (Triple.free p _) fun _ => ?_
    refine Triple.bind_drop (freeHeaderArr_spec a _) fun _ => ?_
    exact Triple.pure (hfail hshort)
  · refine Triple.pre (Triple.of_fact fun hroom => ?_) fun h => sep_fact.1
    refine Triple.pre ?_ fun h => sep_assoc.2
    have hstore := (PtrArray.store_spec (S := S) (E := E) (stringItems l) [(p, .chars t.bytes)] hroom).pre
      fun h hh => sep_mono hh (fun _ => id) fun _ hp => sep_comm (emp_sep.2 hp)
    refine Triple.bind (hstore.frame _) fun b' => ?_
    refine (hk b').pre fun h hh => sep_mono (sep_comm hh) (fun _ => id) fun _ hb => ⟨l ++ [(p, t)], ⟨?_, ?_⟩, ?_⟩
    · rw [List.map_append, hl.1]
      rfl
    · simp
    · rw [stringItems, List.map_append]
      exact hb

/-- The loop appends the headers of the members from `idx` on. -/
theorem appendHeaders_spec (obj : ℕ) (ms : List (Bytes × Json)) (fuel idx : Nat) (a : PtrArray) (lines : List CStr)
    (hfuel : ms.length < fuel + idx) (hidx : idx ≤ ms.length) :
    Triple S E (sep (pts obj (.json (.obj ms))) (linesAt a lines)) (appendHeaders w obj fuel idx a) fun r =>
      sep (pts obj (.json (.obj ms))) fun h =>
        match r with
        | none => S ∧ emp h
        | some b => linesAt b (lines ++ headerLines (ms.drop idx)) h := by
  induction fuel generalizing idx a lines with
  | zero => omega
  | succ fuel ih =>
    refine Triple.bind_read (loadJson_spec obj _) ?_
    rw [jsonxObjEntries_obj]
    by_cases hlt : idx < ms.length
    · rw [List.getElem?_eq_getElem hlt, Option.map_some, List.drop_eq_getElem_cons hlt, headerLines_cons,
        ← List.append_assoc]
      generalize ms[idx] = m
      have hrest (b : PtrArray) := ih (idx + 1) b (lines ++ headerLines [m]) (by omega) (by omega)
      rcases hv : jsonxStr (Json.ptr (some m.2)) with _ | v
      · -- not a string
        have hm : headerLines [m] = [] := by simp [headerLines, forwarded, hv]
        simp only [hv, hm, List.append_nil] at hrest ⊢
        exact hrest a
      · by_cases hr : isRestricted (CStr.ofBytes m.1) = true
        · -- a restricted key
          have hm : headerLines [m] = [] := by simp [headerLines, forwarded, hv, hr]
          simp only [hv, if_pos hr, hm, List.append_nil] at hrest ⊢
          exact hrest a
        · have hm : headerLines [m] = [headerText (CStr.ofBytes m.1) v] := by simp [headerLines, forwarded, hv, hr]
          simp only [hv, if_neg hr, hm] at hrest ⊢
          exact pushLine_bind w hE a lines _ (fun hshort h hp => sep_comm (sep_fact.2 ⟨hshort, emp_sep.2 hp⟩)) hrest
    · rw [List.getElem?_eq_none (by omega), List.drop_eq_nil_of_le (by omega)]
      exact Triple.pure fun h hh => by simpa [headerLines, forwarded] using hh

theorem objectHeaders_spec (obj : ℕ) (v : Json) :
    Triple S E (pts obj (.json v)) (objectHeaders w obj) fun r => sep (pts obj (.json v)) fun h =>
      match r with
      | none => ((∀ ms, v ≠ .obj ms) ∨ S) ∧ emp h
      | some a => ∃ ms, v = .obj ms ∧ linesAt a (headerLines ms) h := by
  refine Triple.bind (loadJson_spec obj v) fun v' => Triple.of_fact ?_
  rintro rfl
  by_cases hobj : v'.isObject = true
  · rw [if_pos hobj]
    obtain ⟨ms, rfl⟩ : ∃ ms, v' = .obj ms := by cases v' <;> first | exact ⟨_, rfl⟩ | cases hobj
    refine ((appendHeaders_spec w hE obj ms _ 0 .init [] (Nat.lt_succ_self _) (Nat.zero_le _)).pre fun h hp => ?_).post
      fun r h hh => sep_mono hh (fun _ => id) fun h' hh' => ?_
    · exact sep_comm (emp_sep.2 hp) |> fun hh => sep_mono hh (fun _ => id) fun h he =>
        ⟨[], ⟨rfl, fun _ => rfl⟩, elements_init he⟩
    · cases r with
      | none => exact ⟨.inr hh'.1, hh'.2⟩
      | some a => exact ⟨ms, rfl, hh'⟩
  · rw [if_neg hobj]
    refine Triple.pure fun h hp => sep_comm (emp_sep.2 hp) |> fun hh => sep_mono hh (fun _ => id) fun h he => ⟨.inl ?_, he⟩
    rintro ms rfl
    exact hobj rfl

omit hE in
/-- No header to forward. -/
def NoHeaders (tok : Tokener) (json : CStr) : Prop :=
  ∀ ms, jsonxParse tok (some json.bytes) = some (.obj ms) → forwarded ms = []

/-- The header lines of an object; nothing where there are none, or no room. -/
theorem parseHeadersHeap_spec (json : CStr) :
    Triple S E emp (parseHeadersHeap w json) fun r h =>
      (((NoHeaders w.tok json ∨ S) ∧ r.1 = none) ∧ emp h) ∨
        ∃ ms a, (jsonxParse w.tok (some json.bytes) = some (.obj ms) ∧ forwarded ms ≠ [] ∧
          (∃ p, a.arr = some p) ∧ r = (a.arr, a.n)) ∧ linesAt a (headerLines ms) h := by
  refine Triple.bind (jsonxParseHeap_spec w.alloc w.tok json.bytes) ?_
  rintro (_ | obj)
  · refine Triple.pure fun h hh => .inl ⟨⟨hh.1.imp_left fun hnone ms hms => ?_, rfl⟩, hh.2⟩
    rw [hnone] at hms
    cases hms
  refine Triple.exists fun v => Triple.of_fact fun hv => ?_
  refine Triple.bind (objectHeaders_spec w hE obj v) fun r => ?_
  refine Triple.bind_drop (Triple.free obj _) fun _ => Triple.pure fun h hh => ?_
  cases r with
  | none =>
    refine .inl ⟨⟨hh.1.imp_left fun hno ms hms => ?_, rfl⟩, hh.2⟩
    rw [hv] at hms
    exact absurd (Option.some.inj hms) (hno ms)
  | some a =>
    obtain ⟨ms, rfl, l, ⟨hl, hnull⟩, ha⟩ := hh
    have hlines : headerLines ms = [] ↔ forwarded ms = [] := List.map_eq_nil_iff
    by_cases hms : forwarded ms = []
    · have harr := hnull (hlines.2 hms)
      refine .inl ⟨⟨.inl fun ms' hms' => ?_, harr⟩, (elements_null ha harr).2⟩
      rw [hv] at hms'
      cases hms'
      exact hms
    · refine .inr ⟨ms, a, ⟨hv, hms, Option.ne_none_iff_exists'.1 fun harr => hms ?_, rfl⟩, l, ⟨hl, hnull⟩, ha⟩
      -- a null array has no lines
      rw [← hlines, ← hl, List.map_eq_nil_iff.1 (elements_null ha harr).1]
      rfl

/-! ## /convert -/

/-- The errors of a run may stop it. -/
def Stops (E : Stop → Prop) (answer : Run Response) : Prop := ∀ f, answer = .error f → E (.fault f)

/-- The document a body is converted to, if it is. -/
def convertedAt (conv : Converter) (spare : Spare) (body : BodyBuf) (out : Option ℕ) (h : Heap Block) : Prop :=
  match out with
  | none => convertBody conv spare body = .ok notConvertible ∧ emp h
  | some p => ∃ yaml, convertBody conv spare body = .ok (sendResponse 200 "application/yaml" yaml) ∧ pts p (.chars yaml.bytes) h

theorem runConverter_spec (conv : Converter) (data : Option ℕ) (body : BodyBuf)
    (hstop : Stops E (convertBody conv w.spare body)) :
    Triple S E (stored data body) (runConverter w conv data) fun out =>
      sep (stored data body) (convertedAt conv w.spare body out) := by
  obtain ⟨content, fits⟩ := body
  cases data with
  | none =>
    refine Triple.of_fact ?_
    rintro rfl
    exact Triple.pure fun h he => emp_sep.2 ⟨rfl, he⟩ |> fun hh => sep_mono hh (fun _ he => ⟨rfl, he⟩) fun _ => id
  | some p =>
    refine Triple.exists fun b => Triple.of_fact ?_
    rintro rfl
    refine Triple.bind (loadChars_spec p b) fun b' => Triple.of_fact ?_
    rintro rfl
    have hpost : ∀ h, pts p (Block.chars b') h → sep (stored (some p) ⟨some b', fits⟩) emp h := fun h hp =>
      sep_comm (emp_sep.2 ⟨b', rfl, hp⟩)
    rw [dif_pos (show b'.length + 1 ≤ 2 ^ 62 from fits)]
    rcases hrun : conv.run (w.spare.ctx b' fits) none with f | ⟨rc, out⟩
    · have hbody : convertBody conv w.spare ⟨some b', fits⟩ = .error f := by rw [convertBody, hrun, error_bind]
      exact Triple.bind (Q := fun _ _ => False) (Triple.fail (hstop f hbody)) fun _ _ _ _ _ hp => hp.elim
    · refine Triple.bind (Q := fun a h => a = (rc, out) ∧ pts p (.chars b') h) (Triple.pure fun h hp => ⟨rfl, hp⟩)
        fun a => Triple.of_fact ?_
      rintro rfl
      by_cases hrc : rc = 0
      · subst hrc
        cases out with
        | none =>
          have hbody : convertBody conv w.spare ⟨some b', fits⟩ = .error .null := by
            rw [convertBody, hrun, ok_bind]
            rfl
          exact Triple.fail (hstop .null hbody)
        | some yaml =>
          have hbody : convertBody conv w.spare ⟨some b', fits⟩ = .ok (sendResponse 200 "application/yaml" yaml) := by
            rw [convertBody, hrun, ok_bind]
            rfl
          refine Triple.bind_new (newOrAbort_spec hE _) fun q => Triple.pure fun h hh => ?_
          exact sep_mono (sep_comm hh) (fun _ hp => ⟨b', rfl, hp⟩) fun _ hq => ⟨yaml, hbody, hq⟩
      · have hbody : convertBody conv w.spare ⟨some b', fits⟩ = .ok notConvertible := by
          rw [convertBody, hrun, ok_bind]
          split
          · exact absurd (congrArg Prod.fst ‹_›) hrc
          · exact absurd (congrArg Prod.fst ‹_›) hrc
          · rfl
        split
        · exact absurd (congrArg Prod.fst ‹_›) hrc
        · exact absurd (congrArg Prod.fst ‹_›) hrc
        · exact Triple.pure fun h hp => sep_mono (hpost h hp) (fun _ => id) fun _ he => ⟨hbody, he⟩

/-- The answer to a response, which is freed. -/
theorem respond_spec (conv : Converter) (rc : HttpcStatus) (p : ℕ) (status : Int) (body : BodyBuf)
    (hstop : Stops E (convertAnswer conv w.spare rc ⟨status, body⟩)) :
    Triple S E (responseAt p status body) (respond w conv rc (some p))
      (w.answered S convertErrors (convertAnswer conv w.spare rc ⟨status, body⟩)) := by
  have hfail (r : Response) (hr : convertAnswer conv w.spare rc ⟨status, body⟩ = .ok r) : Triple S E (responseAt p status body)
      (do
        httpcResponseFree (some p)
        sendCopy w r)
      (w.answered S convertErrors (convertAnswer conv w.spare rc ⟨status, body⟩)) :=
    Triple.bind (httpcResponseFree_spec p status body) fun _ => sendCopy_answered w hE (.inl hr)
  unfold respond
  by_cases htimeout : rc = .timeout
  · rw [if_pos htimeout]
    exact hfail _ (by rw [convertAnswer, if_pos htimeout])
  rw [if_neg htimeout]
  by_cases herr : rc = .err
  · rw [if_pos herr]
    exact hfail _ (by rw [convertAnswer, if_neg htimeout, if_pos herr])
  rw [if_neg herr]
  refine Triple.exists fun s => Triple.bind_read (loadResponse_spec p _) ?_
  have hat : ∀ h, sep (pts p (.response ⟨status, s.body, s.headers.arr, s.headers.n⟩)) (receivedAt s body) h →
      responseAt p status body h := fun h hh => ⟨s, hh⟩
  by_cases hstatus : rc = .httpError ∨ status ≠ 200
  · have hanswer : convertAnswer conv w.spare rc ⟨status, body⟩ = .ok (upstreamStatus status) := by
      rw [convertAnswer, if_neg htimeout, if_neg herr, if_pos hstatus]
    simp only [if_pos hstatus]
    refine Triple.bind ((httpcResponseFree_spec p status body).pre hat) fun _ => ?_
    refine Triple.bind (strbufAppend_init hE _) fun data => ?_
    refine (sendDetached_spec w hE 502 "application/json" data _).post fun q h hh => ⟨⟨_, .inl hanswer, ?_⟩, hh.2⟩
    rw [hh.1, CStr.ofBytes_self]
    rfl
  · have hanswer : convertAnswer conv w.spare rc ⟨status, body⟩ = convertBody conv w.spare body := by
      rw [convertAnswer, if_neg htimeout, if_neg herr, if_neg hstatus]
    rw [hanswer] at hstop hfail ⊢
    simp only [if_neg hstatus]
    refine Triple.pre ?_ fun h hh => sep_left_comm hh
    refine Triple.bind ((runConverter_spec w hE conv s.body body hstop).frame _) fun out => ?_
    refine Triple.pre (P := sep (responseAt p status body) (convertedAt conv w.spare body out)) ?_ fun h hh =>
      sep_comm (sep_mono (sep_left_comm (sep_assoc.1 hh)) (fun _ => id) fun h hh => hat h (sep_left_comm hh))
    refine Triple.bind_drop (httpcResponseFree_spec p status body) fun _ => ?_
    cases out with
    | none => exact Triple.of_fact fun hbody => sendCopy_answered w hE (.inl hbody)
    | some q =>
      refine Triple.exists fun yaml => Triple.of_fact fun hbody => ?_
      refine (sendBody_spec w 200 "application/yaml" q _).post fun q h hh => ⟨⟨_, .inl hbody, ?_⟩, hh.2⟩
      rw [hh.1, CStr.ofBytes_self]

/-- The request with these header lines, and the answer to what it gives. -/
theorem fetchAndRespond_spec (conv : Converter) (url : CStr) (a : PtrArray) (lines : List CStr)
    (hstop : Stops E (transferAnswer conv w.spare (curlTransfer w.curl (fetchOptions url lines)))) :
    Triple S E (linesAt a lines) (fetchAndRespond w conv url a.arr a.n)
      (w.answered S convertErrors (transferAnswer conv w.spare (curlTransfer w.curl (fetchOptions url lines)))) := by
  refine Triple.exists fun l => Triple.of_fact ?_
  rintro ⟨rfl, -⟩
  refine Triple.bind (httpcRequestHeap_spec w.alloc w.curl rfl a l rfl) ?_
  rintro ⟨rc, resp⟩
  refine Triple.pre ?_ fun h => sep_comm
  refine Triple.bind_drop (freeHeaderArr_spec a _) fun _ => ?_
  have hroom : S → Answers S convertErrors
      (transferAnswer conv w.spare (curlTransfer w.curl (fetchOptions url (l.map Prod.snd))))
      upstreamFailed := fun hshort => .inr ⟨hshort, by simp [convertErrors]⟩
  cases resp with
  | none =>
    refine Triple.of_fact ?_
    rintro ⟨hshort, rfl⟩
    exact sendCopy_answered w hE (hroom hshort)
  | some p =>
    refine Triple.exists fun status => Triple.exists fun body => Triple.of_fact ?_
    rintro (⟨rfl, rfl, hrc⟩ | ⟨hshort, rfl⟩)
    · simp only at hrc
      rw [hrc]
      exact respond_spec w hE conv _ p _ _ hstop
    · refine (respond_spec w hE conv .err p status body fun f hf => by cases hf).post fun q h hh => ?_
      obtain ⟨⟨r, hr, hq⟩, he⟩ := hh
      refine ⟨⟨r, ?_, hq⟩, he⟩
      rcases hr with hr | hr
      · cases hr
        exact hroom hshort
      · exact .inr hr

theorem convertWithHeap_spec (conv : Converter) (url : CStr) (headers : Option CStr)
    (hstop : Stops E (convertWith (curlTransfer w.curl) conv w.spare url (convertHeaders w.tok headers)).answer) :
    Triple S E emp (convertWithHeap w conv url headers)
      (w.answered S convertErrors (convertWith (curlTransfer w.curl) conv w.spare url (convertHeaders w.tok headers)).answer) := by
  have hplain (hheaders : convertHeaders w.tok headers = .ok (some (none, 0))) :
      Triple S E emp (fetchAndRespond w conv url none 0)
        (w.answered S convertErrors (convertWith (curlTransfer w.curl) conv w.spare url (convertHeaders w.tok headers)).answer) := by
    have hlines : requestHeaders (convertReq url none 0) = .ok [] := rfl
    have hanswer := convertFetch_answer (curlTransfer w.curl) w.spare conv hlines
    rw [hheaders, convertWith, hanswer] at hstop ⊢
    exact (fetchAndRespond_spec w hE conv url .init [] hstop).pre fun h he =>
      ⟨[], ⟨rfl, fun _ => rfl⟩, elements_init he⟩
  rcases headers with _ | json
  · exact hplain rfl
  unfold convertWithHeap
  by_cases hnil : json.bytes = []
  · simp only [if_pos hnil]
    exact hplain (if_pos hnil)
  simp only [if_neg hnil]
  refine Triple.bind (parseHeadersHeap_spec w hE json) ?_
  rintro ⟨arr, n⟩
  refine Triple.either (Triple.of_fact ?_) (Triple.exists fun ms => Triple.exists fun a => Triple.of_fact ?_)
  · rintro ⟨hnone, rfl⟩
    refine sendCopy_answered w hE (hnone.imp (fun hno => ?_) fun hshort => ⟨hshort, by simp [convertErrors]⟩)
    have hheaders : convertHeaders w.tok (some json) = .ok none := by
      refine convertHeaders_none fun lines hlines => ?_
      cases hlines with
      | empty hempty => exact hnil hempty
      | object _ hparse hms => exact hms (hno _ hparse)
    rw [hheaders, convertWith]
  · rintro ⟨hparse, hms, ⟨p, harr⟩, hr⟩
    obtain ⟨rfl, rfl⟩ := Prod.mk.inj hr
    obtain ⟨arr, n, hheaders, hlines⟩ := (HeaderLines.object hnil hparse hms).convertHeaders url
    have hanswer := convertFetch_answer (curlTransfer w.curl) w.spare conv hlines
    rw [hheaders, convertWith, hanswer] at hstop ⊢
    rw [harr]
    have hspec := fetchAndRespond_spec w hE conv url a (headerLines ms) hstop
    rwa [harr] at hspec

theorem handleConvertHeap_spec (args : ConvertArgs) (hstop : Stops E (handleConvert (curlTransfer w.curl) w.tok w.spare args).answer) :
    Triple S E emp (handleConvertHeap w args) (w.answered S convertErrors (handleConvert (curlTransfer w.curl) w.tok w.spare args).answer) := by
  obtain ⟨method, type, url, headers⟩ := args
  unfold handleConvertHeap
  unfold handleConvert at hstop ⊢
  by_cases hget : method ≠ .lit "GET"
  · simp only [if_pos hget]
    exact sendCopy_answered w hE (.inl rfl)
  simp only [if_neg hget] at hstop ⊢
  rcases type with _ | type
  · exact sendCopy_answered w hE (.inl rfl)
  rcases hconv : converterFind w.tok type with _ | conv
  · simp only [hconv]
    exact sendCopy_answered w hE (.inl rfl)
  simp only [hconv] at hstop ⊢
  rcases url with _ | url
  · exact sendCopy_answered w hE (.inl rfl)
  · exact convertWithHeap_spec w hE conv url headers hstop

omit hE in
/-- `/convert` with pointers refines `/convert` with values, in every memory, for every allocator and all calls of the
callbacks: its answer is that of the values, or one of two errors when a call of the run found no room, and it leaves
the blocks as they were. It stops only at such a call, or where the values fault. -/
theorem handleConvert_refines (args : ConvertArgs) (m : Mem Block) :
    (∀ q, (handleConvertHeap w args m).result = .ok q → (handleConvertHeap w args m).mem.heap = m.heap ∧
      ∃ r, Answers ((handleConvertHeap w args m).short = true) convertErrors
        (handleConvert (curlTransfer w.curl) w.tok w.spare args).answer r ∧ q = w.mhd.sent r) ∧
      ∀ stop, (handleConvertHeap w args m).result = .error stop →
        ((handleConvertHeap w args m).short = true ∧ stop = .abort) ∨
          ∃ f, (handleConvert (curlTransfer w.curl) w.tok w.spare args).answer = .error f ∧ stop = .fault f := by
  refine Triple.alone (handleConvertHeap_spec w (fun hshort => .inl ⟨hshort, rfl⟩) args fun f hf => ?_) id
  exact .inr ⟨f, hf, rfl⟩

/-! ## Routes -/

theorem handleConvertManual_spec (method : CStr) (data : Option ℕ) (b : Bytes) :
    Triple S E (buffer data b) (handleConvertManual w method data) fun r h =>
      (∃ ans, Answers S [invalidBody] (.ok (manualAnswer w.tok method b)) ans ∧ r.1 = w.mhd.sent ans) ∧ ∃ b', buffer r.2 b' h := by
  unfold handleConvertManual
  -- an answer beside the body
  have hcopy (ans : Response) (hans : Answers S [invalidBody] (.ok (manualAnswer w.tok method b)) ans) :
      Triple S E (buffer data b) (do return (← sendCopy w ans, data)) fun r h =>
        (∃ ans, Answers S [invalidBody] (.ok (manualAnswer w.tok method b)) ans ∧ r.1 = w.mhd.sent ans) ∧ ∃ b', buffer r.2 b' h :=
    Triple.bind_new (sendCopy_spec w hE ans) fun q => Triple.pure fun h hh =>
      ⟨⟨ans, hans, (sep_fact.1 hh).1⟩, b, emp_sep.1 (sep_fact.1 hh).2⟩
  by_cases hpost : method ≠ .lit "POST"
  · rw [if_pos hpost]
    exact hcopy _ (.inl (by rw [manualAnswer, if_pos hpost]))
  rw [if_neg hpost]
  refine Triple.bind (strbufText_spec data b) fun text => Triple.of_fact ?_
  rintro rfl
  refine Triple.bind_new (jsonxParseHeap_spec w.alloc w.tok text) ?_
  rintro (_ | obj)
  · refine Triple.pre (Triple.of_fact fun hnone => (hcopy invalidBody ?_).pre fun h => emp_sep.1) fun h => sep_fact.1
    refine hnone.imp (fun hnone => ?_) fun hshort => ⟨hshort, by simp⟩
    rw [manualAnswer, if_neg hpost, hnone]
    rfl
  · refine Triple.pre (Triple.exists fun v => Triple.of_fact fun hv => ?_) fun h hh =>
      (sep_exists hh).imp fun _ => sep_fact.1
    refine Triple.pre ?_ fun h => sep_comm
    refine Triple.bind ((strbufDetachHeap_spec hE data text).frame _) ?_
    rintro ⟨echo, rest⟩
    refine Triple.pre (Triple.of_fact ?_) fun h => sep_fact.1
    rintro rfl
    refine Triple.pre ?_ fun h => sep_comm
    refine Triple.bind_drop (Triple.free obj _) fun _ => ?_
    refine Triple.bind (sendBody_spec w 200 "application/json" echo text) fun q => Triple.pure fun h hh => ?_
    refine ⟨⟨_, .inl rfl, ?_⟩, [], rfl, hh.2⟩
    rw [hh.1, manualAnswer, if_neg hpost, hv]
    rfl

/-- The answer to a request with this body; what is left of the body is still a buffer. -/
theorem routeRequest_spec (req : Request) (data : Option ℕ) (b : Bytes)
    (hstop : Stops E (routeAnswer (curlTransfer w.curl) w.tok w.spare req b)) :
    Triple S E (buffer data b) (routeRequest w req data) fun r h =>
      (∃ ans, Answers S (routeErrors req) (routeAnswer (curlTransfer w.curl) w.tok w.spare req b) ans ∧
        r.1 = w.mhd.sent ans) ∧ ∃ b', buffer r.2 b' h := by
  unfold routeRequest
  unfold routeAnswer at hstop ⊢
  -- a handler that does not take the body
  have haside {errors : List Response} {answer : Run Response} {c : HeapRun (Option Response)}
      (hc : Triple S E emp c (w.answered S errors answer)) :
      Triple S E (buffer data b) (do return (← c, data)) fun r h =>
        (∃ ans, Answers S errors answer ans ∧ r.1 = w.mhd.sent ans) ∧ ∃ b', buffer r.2 b' h :=
    Triple.bind_new hc fun q => Triple.pure fun h hh => ⟨(sep_fact.1 hh).1, b, emp_sep.1 (sep_fact.1 hh).2⟩
  simp only at hstop ⊢
  split_ifs at hstop ⊢ with hroot hhealth hconvert hmanual
  · exact haside ((handleRoot_spec w hE req.args.method).post fun q h hh => ⟨⟨_, .inl rfl, hh.1⟩, hh.2⟩)
  · exact haside ((handleHealth_spec w hE req.args.method).post fun q h hh => ⟨⟨_, .inl rfl, hh.1⟩, hh.2⟩)
  · rw [routeErrors, if_pos hconvert]
    exact haside (handleConvertHeap_spec w hE req.args hstop)
  · rw [routeErrors, if_neg hconvert, if_pos hmanual]
    exact handleConvertManual_spec w hE req.args.method data b
  · exact haside (sendCopy_answered w hE (.inl rfl))

/-! ## Callbacks -/

/-- A `strbuf` on the heap with its buffer. -/
def holds (sb : ℕ) (b : Bytes) (h : Heap Block) : Prop :=
  ∃ data, sep (pts sb (.strbuf data)) (buffer data b) h

omit hE in
theorem handlerCb_first (req : Request) (upload : Bytes) :
    Triple S E emp (handlerCb w req upload none) fun r h =>
      (r.queued = none) ∧ match r.conCls with
        | none => (S ∧ r.yes = false) ∧ emp h
        | some sb => r.yes = true ∧ holds sb [] h := by
  refine Triple.bind (Triple.alloc w.alloc _) ?_
  rintro (_ | sb)
  · exact Triple.pure fun h hh => ⟨rfl, ⟨hh.1, rfl⟩, hh.2⟩
  · exact Triple.pure fun h hh => ⟨rfl, rfl, none, sep_mono (sep_comm (emp_sep.2 hh)) (fun _ => id) fun _ he => ⟨rfl, he⟩⟩

theorem handlerCb_upload (req : Request) {upload : Bytes} (hne : upload ≠ []) (sb : ℕ) (b : Bytes) :
    Triple S E (holds sb b) (handlerCb w req upload (some sb)) fun r h =>
      r = ⟨true, none, some sb⟩ ∧ holds sb (b ++ upload) h := by
  refine Triple.exists fun data => Triple.bind_read (loadStrbuf_spec sb data) ?_
  rw [if_pos hne]
  refine Triple.pre ?_ fun h => sep_comm
  refine Triple.bind ((strbufAppend_spec hE data b upload).frame _) fun data' => ?_
  refine Triple.pre ?_ fun h => sep_comm
  exact Triple.bind ((Triple.store sb _ _).frame _) fun _ => Triple.pure fun h hh => ⟨rfl, data', hh⟩

/-- The last call of a request answers it and frees its `strbuf`. -/
theorem handlerCb_final (req : Request) (sb : ℕ) (b : Bytes)
    (hstop : Stops E (routeAnswer (curlTransfer w.curl) w.tok w.spare req b)) :
    Triple S E (holds sb b) (handlerCb w req [] (some sb)) fun r h =>
      (r.conCls = none ∧ r.yes = r.queued.isSome ∧
        ∃ ans, Answers S (routeErrors req) (routeAnswer (curlTransfer w.curl) w.tok w.spare req b) ans ∧ r.queued = w.mhd.sent ans) ∧ emp h := by
  refine Triple.exists fun data => Triple.bind_read (loadStrbuf_spec sb data) ?_
  rw [if_neg (not_not.2 rfl)]
  refine Triple.pre ?_ fun h => sep_comm
  refine Triple.bind ((routeRequest_spec w hE req data b hstop).frame _) ?_
  rintro ⟨queued, data'⟩
  refine Triple.pre (Triple.of_fact fun hans => ?_) fun h => sep_fact.1
  refine Triple.pre (Triple.exists fun b' => ?_) fun h => sep_exists
  refine Triple.bind_drop (strbufFree_spec data' b') fun _ => ?_
  exact Triple.bind (Triple.free sb _) fun _ => Triple.pure fun h he => ⟨⟨rfl, rfl, hans⟩, he⟩

omit hE in
theorem cleanupCb_spec (sb : ℕ) (b : Bytes) : Triple S E (holds sb b) (cleanupCb (some sb)) fun _ => emp := by
  refine Triple.exists fun data => Triple.bind_read (loadStrbuf_spec sb data) ?_
  refine Triple.pre ?_ fun h => sep_comm
  exact Triple.bind_drop (strbufFree_spec data b) fun _ => Triple.free sb _

end Triples

end SubConverter
