/-
The request of `/convert` on the heap. The callbacks collect the body as the transfer delivers it and free what they do
not keep; a callback that finds no room ends the transfer, which then counts as failed.
-/
import SubConverter.Server.Blocks
import SubConverter.Src.Fetch

namespace SubConverter

open CMem Own

/-! ## Ownership -/

/-- The body of a response. -/
def stored (data : Option ℕ) (body : BodyBuf) (h : Heap Block) : Prop :=
  match data with
  | none => body.data = none ∧ emp h
  | some p => ∃ b, body.data = some b ∧ pts p (.chars b) h

/-- Some headers. -/
def someElements (a : PtrArray) (h : Heap Block) : Prop := ∃ items, elements a items h

def receivedAt (s : Received) (body : BodyBuf) : Heap Block → Prop := sep (stored s.body body) (someElements s.headers)

/-- A response with its body and its headers. -/
def responseAt (p : ℕ) (status : Int) (body : BodyBuf) (h : Heap Block) : Prop :=
  ∃ s : Received, sep (pts p (.response ⟨status, s.body, s.headers.arr, s.headers.n⟩)) (receivedAt s body) h

/-! ## The header list -/

/-- The list of these lines behind those there are, null where one finds no room. -/
def Libcurl.slist (curl : Libcurl) : List CStr → List CStr → List CStr
  | [], list => list
  | h :: hs, list => if curl.appends (list ++ [h]) then curl.slist hs (list ++ [h]) else []

/-- The transfers without their headers; the list of the header lines is made before. -/
def curlTransfer (curl : Libcurl) : Curl := fun options =>
  (curl.perform { options with httpHeader := curl.slist options.httpHeader [] }).transfer

/-! ## Callbacks -/

theorem le_doubleTo {need : Nat} : ∀ {fuel ncap : Nat}, 0 < ncap → need ≤ ncap + fuel → need ≤ doubleTo need fuel ncap
  | 0, _, _, hfuel => hfuel
  | fuel + 1, ncap, hpos, hfuel => by
    rw [doubleTo]
    by_cases hlt : ncap < need
    · rw [if_pos hlt]
      exact le_doubleTo (by omega) (by omega)
    · rw [if_neg hlt]
      omega

section Triples

variable {S : Prop} {E : Stop → Prop} (A : Allocator)

theorem bodyWrite_spec (chunk : Bytes) (data : Option ℕ) (body : BodyBuf) :
    Triple S E (stored data body) (bodyWrite A chunk data) fun r h =>
      (r.1 = (bodyWriteCb chunk body).1 ∧ stored r.2 (bodyWriteCb chunk body).2 h) ∨
        ((S ∧ r.1 ≠ chunk.length) ∧ stored r.2 body h) := by
  unfold bodyWrite bodyWriteCb
  by_cases hnil : chunk = []
  · simp only [if_pos hnil]
    exact Triple.pure fun h hh => .inl ⟨rfl, hh⟩
  have hpos : 0 ≠ chunk.length := (List.length_pos_of_ne_nil hnil).ne
  simp only [if_neg hnil]
  cases data with
  | none =>
    refine Triple.of_fact fun hbody => ?_
    have hbytes : body.bytes = [] := by rw [BodyBuf.bytes, hbody]; rfl
    by_cases hfits : chunk.length + 1 ≤ 2 ^ 62
    · simp only [if_pos hfits]
      refine Triple.bind (Triple.alloc A _) ?_
      rintro (_ | q)
      · exact Triple.pure fun h hh => .inr ⟨⟨hh.1, hpos⟩, hbody, hh.2⟩
      · refine Triple.pure fun h hh => .inl ?_
        rw [dif_pos (by rw [hbytes, List.length_nil]; omega)]
        exact ⟨rfl, chunk, by simp only [hbytes, List.nil_append], hh⟩
    · simp only [if_neg hfits]
      refine Triple.pure fun h hh => .inl ?_
      rw [dif_neg (by rw [hbytes, List.length_nil]; omega)]
      exact ⟨rfl, hbody, hh⟩
  | some p =>
    refine Triple.exists fun b => Triple.of_fact fun hbody => ?_
    have hbytes : body.bytes = b := by rw [BodyBuf.bytes, hbody]; rfl
    refine Triple.bind (loadChars_spec p b) fun old => Triple.of_fact ?_
    rintro rfl
    by_cases hfits : old.length + chunk.length + 1 ≤ 2 ^ 62
    · simp only [if_pos hfits]
      refine Triple.bind (Triple.resize A p _ _) ?_
      rintro (_ | q)
      · exact Triple.pure fun h hh => .inr ⟨⟨hh.1, hpos⟩, old, hbody, hh.2⟩
      · refine Triple.pure fun h hh => .inl ?_
        rw [dif_pos (by rwa [hbytes])]
        exact ⟨rfl, old ++ chunk, by simp only [hbytes], hh⟩
    · simp only [if_neg hfits]
      refine Triple.pure fun h hh => .inl ?_
      rw [dif_neg (by rwa [hbytes])]
      exact ⟨rfl, old, hbody, hh⟩

/-- A block, or none where there is no room. -/
def allocated (S : Prop) (r : Option ℕ) (v : Block) (h : Heap Block) : Prop :=
  match r with
  | none => S ∧ emp h
  | some p => pts p v h

omit A in
theorem freePtr_spec (r : Option ℕ) (v : Block) : Triple S E (allocated S r v) (freePtr r) fun _ => emp := by
  cases r with
  | none => exact Triple.pure fun h hh => hh.2
  | some p => exact Triple.free p v

theorem headerStore_spec (n : Nat) (text : Bytes) (buf : PtrArray) :
    Triple S E (someElements buf) (headerStore A n text buf) fun r h =>
      (r.1 = n ∨ S) ∧ someElements r.2 h := by
  unfold headerStore
  by_cases hcolon : ch ':' ∈ text.takeWhile (· ≠ 0)
  · simp only [if_pos hcolon]
    refine Triple.exists fun items => ?_
    have hfull : buf.n + 1 > buf.cap →
        buf.cap < doubleTo (buf.n + 1) (buf.n + 1) (if buf.cap = 0 then 8 else buf.cap) := fun hfull => by
      refine lt_of_lt_of_le hfull (le_doubleTo ?_ (by omega))
      split_ifs <;> omega
    have hroom : ¬ buf.n + 1 > buf.cap → buf.n ≠ buf.cap := by omega
    refine Triple.bind (PtrArray.ensure_spec A items hfull hroom) ?_
    rintro (_ | b)
    · exact Triple.pure fun h hh => ⟨.inr hh.1, items, hh.2⟩
    refine Triple.of_fact fun hroom => ?_
    generalize (text.takeWhile (· ≠ ch ':')) = s, (text.dropWhile (· ≠ ch ':')).drop 1 = t
    refine Triple.bind_new (Q := fun name => allocated S name (.chars ((s.dropWhile isSpace).rdropWhile isSpace)))
      (Triple.alloc A _) fun name => ?_
    refine Triple.bind_new (Q := fun value => allocated S value (.chars ((t.dropWhile isSpace).rdropWhile isSpace)))
      (Triple.alloc A _) fun value => ?_
    generalize Block.chars ((s.dropWhile isSpace).rdropWhile isSpace) = u,
      Block.chars ((t.dropWhile isSpace).rdropWhile isSpace) = v
    have hdrop (hshort : S) : Triple S E (sep (allocated S value v) (sep (allocated S name u) (elements b items)))
        (do
          freePtr name
          freePtr value
          pure (0, b)) fun r h => (r.1 = n ∨ S) ∧ someElements r.2 h := by
      refine Triple.pre ?_ fun h => sep_left_comm
      refine Triple.bind_drop (freePtr_spec name u) fun _ => ?_
      refine Triple.bind_drop (freePtr_spec value v) fun _ => ?_
      exact Triple.pure fun h hh => ⟨.inr hshort, items, hh⟩
    rcases name with _ | name
    · intro m h f hs hp
      exact hdrop (sep_fact.1 (sep_left_comm hp)).1 m h f hs hp
    rcases value with _ | value
    · intro m h f hs hp
      exact hdrop (sep_fact.1 hp).1 m h f hs hp
    · refine Triple.bind (Triple.pre (PtrArray.store_spec items [(name, u), (value, v)] hroom) fun h hh => ?_) fun b' =>
        Triple.pure fun h hh => ⟨.inl rfl, _, hh⟩
      have hitem : sep (elements b items) (sep (pts name u) (pts value v)) h := by
        refine sep_comm (sep_mono (sep_assoc.2 hh) (fun _ => sep_comm) fun _ => id)
      exact sep_mono hitem (fun _ => id) fun h' hh' => sep_mono hh' (fun _ => id) fun _ hv => sep_comm (emp_sep.2 hv)
  · simp only [if_neg hcolon]
    exact Triple.pure fun h hh => ⟨.inl rfl, hh⟩

theorem headerWrite_spec (line : Bytes) (buf : PtrArray) :
    Triple S E (someElements buf) (headerWrite A line buf) fun r h =>
      (r.1 = line.length ∨ S) ∧ someElements r.2 h := by
  unfold headerWrite
  by_cases hnil : line = []
  · simp only [if_pos hnil]
    exact Triple.pure fun h hh => ⟨.inl (by rw [hnil]; rfl), hh⟩
  · simp only [if_neg hnil]
    refine Triple.bind_new (Triple.alloc A _) ?_
    rintro (_ | p)
    · exact Triple.pure fun h hh => ⟨.inr (sep_fact.1 hh).1, emp_sep.1 (sep_fact.1 hh).2⟩
    refine Triple.bind_read (loadChars_spec p line) ?_
    refine Triple.bind ((Triple.store p _ _).frame _) fun _ => ?_
    refine Triple.pre ?_ fun h => sep_comm
    refine Triple.bind ((headerStore_spec A line.length _ buf).frame _) fun r => ?_
    refine Triple.pre (Triple.of_fact fun hr => Triple.pre ?_ fun h => sep_comm) fun h => sep_fact.1
    exact Triple.bind_drop (Triple.free p _) fun _ => Triple.pure fun h hh => ⟨hr, hh⟩

/-- One callback takes its bytes as the value-level one does, or there is no room for them. -/
theorem curlCall_body_spec (chunk : Bytes) (s : Received) (body : BodyBuf) :
    Triple S E (receivedAt s body) (curlCall A (.body chunk) s) fun r h =>
      (r.1 = (bodyWriteCb chunk body).1 ∧ receivedAt r.2 (bodyWriteCb chunk body).2 h) ∨
        ((S ∧ r.1 ≠ chunk.length) ∧ receivedAt r.2 body h) := by
  refine Triple.bind ((bodyWrite_spec A chunk s.body body).frame _) fun r => Triple.pure fun h hh => ?_
  obtain ⟨h₁, h₂, hs, hr, hrest⟩ := hh
  rcases hr with ⟨hn, hbody⟩ | ⟨hn, hbody⟩
  · exact .inl ⟨hn, h₁, h₂, hs, hbody, hrest⟩
  · exact .inr ⟨hn, h₁, h₂, hs, hbody, hrest⟩

theorem curlCall_header_spec (line : Bytes) (s : Received) (body : BodyBuf) :
    Triple S E (receivedAt s body) (curlCall A (.header line) s) fun r h =>
      (r.1 = line.length ∨ S) ∧ receivedAt r.2 body h := by
  refine Triple.bind (((headerWrite_spec A line s.headers).frame _).pre fun h => sep_comm) fun r => Triple.pure fun h hh => ?_
  exact ⟨(sep_fact.1 hh).1, sep_comm (sep_fact.1 hh).2⟩

/-- The callbacks of a transfer: the body is what is delivered, unless there was no room for all. -/
theorem curlCalls_spec (calls : List CurlCall) (s : Received) (body : BodyBuf) :
    Triple S E (receivedAt s body) (curlCalls A calls s) fun r h =>
      ∃ body', (deliver (calls.filterMap CurlCall.chunk) body = (r.1, body') ∨ S ∧ r.1 = false) ∧
        receivedAt r.2 body' h := by
  induction calls generalizing s body with
  | nil => exact Triple.pure fun h hh => ⟨body, .inl rfl, hh⟩
  | cons c calls ih =>
    cases c with
    | header line =>
      refine Triple.bind (curlCall_header_spec A line s body) ?_
      rintro ⟨n, s'⟩
      refine Triple.of_fact fun hn => ?_
      show Triple S E _ (if n = line.length then curlCalls A calls s' else pure (false, s')) _
      by_cases htaken : n = line.length
      · rw [if_pos htaken]
        exact ih s' body
      · rw [if_neg htaken]
        exact Triple.pure fun h hh => ⟨body, .inr ⟨hn.resolve_left htaken, rfl⟩, hh⟩
    | body chunk =>
      refine Triple.bind (curlCall_body_spec A chunk s body) ?_
      rintro ⟨n, s'⟩
      show Triple S E _ (if n = chunk.length then curlCalls A calls s' else pure (false, s')) _
      refine Triple.either (Triple.of_fact fun hn => ?_) (Triple.of_fact fun hn => ?_)
      · have hdeliver : deliver ((CurlCall.body chunk :: calls).filterMap CurlCall.chunk) body =
            if n = chunk.length then deliver (calls.filterMap CurlCall.chunk) (bodyWriteCb chunk body).2
            else (false, (bodyWriteCb chunk body).2) := by
          simp only at hn
          rw [hn]
          rfl
        rw [hdeliver]
        by_cases htaken : n = chunk.length
        · rw [if_pos htaken, if_pos htaken]
          exact ih s' _
        · rw [if_neg htaken, if_neg htaken]
          exact Triple.pure fun h hh => ⟨_, .inl rfl, hh⟩
      · rw [if_neg hn.2]
        exact Triple.pure fun h hh => ⟨body, .inr ⟨hn.1, rfl⟩, hh⟩

/-! ## httpc_request -/

omit A in
/-- The strings of an array are read, up to one that the list has no room for. -/
theorem headerStrings_spec (curl : Libcurl) (p cap : ℕ) (l : List (ℕ × CStr)) (k i : Nat) (list : List CStr)
    (hi : i + k = l.length) :
    Triple S E (sep (pts p (.array (elemPtrs cap (stringItems l)))) (blocks ((stringItems l).drop i).flatten))
      (headerStrings curl p k i list) fun r h => r = curl.slist ((l.drop i).map Prod.snd) list ∧
        sep (pts p (.array (elemPtrs cap (stringItems l)))) (blocks ((stringItems l).drop i).flatten) h := by
  induction k generalizing i list with
  | zero => exact Triple.pure fun h hh => ⟨by rw [List.drop_eq_nil_of_le (by omega)]; rfl, hh⟩
  | succ k ih =>
    have hlt : i < (stringItems l).length := by
      rw [stringItems, List.length_map]
      omega
    have hitem : (stringItems l)[i] = [(l[i].1, .chars l[i].2.bytes)] := by simp [stringItems]
    refine Triple.bind_read (loadArray_spec p _) ?_
    rw [elemPtrs_getElem? hlt, List.drop_eq_getElem_cons hlt, List.flatten_cons, hitem,
      List.drop_eq_getElem_cons (show i < l.length by omega)]
    refine Triple.pre ?_ fun h hh => sep_left_comm hh
    refine Triple.bind_read (loadChars_spec _ _) ?_
    rw [CStr.ofBytes_self, List.map_cons, Libcurl.slist]
    by_cases hroom : curl.appends (list ++ [l[i].2]) = true
    · rw [if_pos hroom, if_pos hroom]
      refine (((ih (i + 1) (list ++ [l[i].2]) (by omega)).frame _).pre fun h => sep_comm).post fun r h hh => ?_
      obtain ⟨rfl, hown⟩ := sep_fact.1 hh
      exact ⟨rfl, sep_left_comm (sep_comm hown)⟩
    · rw [if_neg hroom, if_neg hroom]
      exact Triple.pure fun h hh => ⟨rfl, sep_left_comm hh⟩

omit A in
theorem headerListHeap_spec (curl : Libcurl) (a : PtrArray) (l : List (ℕ × CStr)) :
    Triple S E (elements a (stringItems l)) (headerListHeap curl a.arr a.n) fun r h =>
      r = curl.slist (l.map Prod.snd) [] ∧ elements a (stringItems l) h := by
  obtain ⟨_ | p, n, cap⟩ := a
  · refine Triple.pure fun h hh => ⟨?_, hh⟩
    rw [List.map_eq_nil_iff.1 hh.1.1]
    rfl
  · refine Triple.of_fact fun hcount => ?_
    have hlen : n = l.length := by simpa [stringItems] using hcount.1
    exact (headerStrings_spec curl p cap l n 0 [] (by omega)).post fun r h hh => ⟨hh.1, hcount, hh.2⟩

/-- The response, if there is one, with what became of the request. -/
def requestedAt (S : Prop) (t : Transfer) (r : HttpcStatus × Option ℕ) (h : Heap Block) : Prop :=
  match r.2 with
  | none => (S ∧ r.1 = .err) ∧ emp h
  | some p => ∃ status body, (((deliver t.chunks .init).2 = body ∧ t.status = status ∧
      r.1 = httpcStatus (if (deliver t.chunks .init).1 then t.code else .writeError) t.status) ∨
        (S ∧ r.1 = .err)) ∧ responseAt p status body h

/-- A request whose headers are on the heap. -/
theorem httpcRequestHeap_spec (curl : Libcurl) {req : HttpcReq} {url : CStr} (hurl : req.url = some url)
    (a : PtrArray) (l : List (ℕ × CStr)) (hn : req.nheaders = a.n) :
    Triple S E (elements a (stringItems l)) (httpcRequestHeap A curl req a.arr) fun r =>
      sep (requestedAt S (curlTransfer curl (curlOptions req url (l.map Prod.snd))) r) (elements a (stringItems l)) := by
  refine Triple.bind_new (Triple.alloc A _) ?_
  rintro (_ | resp)
  · exact Triple.pure fun h hh => sep_mono hh (fun _ he => ⟨⟨he.1, rfl⟩, he.2⟩) fun _ => id
  simp only [hurl, hn]
  refine Triple.pre ?_ fun h => sep_comm
  refine Triple.bind_read (headerListHeap_spec curl a l) ?_
  have htransfer : curlTransfer curl (curlOptions req url (l.map Prod.snd)) =
      (curl.perform (curlOptions req url (curl.slist (l.map Prod.snd) []))).transfer := rfl
  rw [htransfer]
  generalize curl.perform (curlOptions req url (curl.slist (l.map Prod.snd) [])) = exchange
  have hcalls : Triple S E emp (curlCalls A exchange.calls ⟨none, .init⟩) fun r h => ∃ body',
      (deliver exchange.transfer.chunks .init = (r.1, body') ∨ S ∧ r.1 = false) ∧ receivedAt r.2 body' h := by
    refine (curlCalls_spec A exchange.calls ⟨none, .init⟩ .init).pre fun h he => ?_
    exact sep_mono (emp_sep.2 he) (fun _ he => ⟨rfl, he⟩) fun h he => ⟨[], elements_init he⟩
  refine Triple.bind_new hcalls ?_
  rintro ⟨taken, received⟩
  refine Triple.pre ?_ fun h hh => sep_comm (sep_assoc.2 hh)
  refine Triple.bind ((Triple.store resp _ _).frame _) fun _ => Triple.pure fun h hh => ?_
  refine sep_mono (sep_assoc.2 hh) (fun h hh => ?_) fun _ => id
  -- the response with what was collected
  obtain ⟨h₁, h₂, hs, hp, body, hbody, hreceived⟩ := hh
  refine ⟨exchange.status, body, ?_, received, h₁, h₂, hs, hp, hreceived⟩
  rcases hbody with hdeliver | ⟨hshort, htaken⟩
  · rw [hdeliver]
    exact .inl ⟨rfl, rfl, rfl⟩
  · simp only at htaken
    rw [htaken]
    exact .inr ⟨hshort, rfl⟩

omit A in
theorem freeStored_spec (data : Option ℕ) (body : BodyBuf) :
    Triple S E (stored data body) (freePtr data) fun _ => emp := by
  cases data with
  | none => exact Triple.pure fun h hh => hh.2
  | some p => exact Triple.exists fun b => Triple.of_fact fun _ => Triple.free p _

omit A in
/-- A response is freed with its body and its headers. -/
theorem httpcResponseFree_spec (p : ℕ) (status : Int) (body : BodyBuf) :
    Triple S E (responseAt p status body) (httpcResponseFree (some p)) fun _ => emp := by
  refine Triple.exists fun s => ?_
  refine Triple.bind_read (loadResponse_spec p _) ?_
  refine Triple.pre ?_ fun h => sep_left_comm
  refine Triple.bind_drop (freeStored_spec s.body body) fun _ => ?_
  refine Triple.pre ?_ fun h => sep_comm
  exact Triple.bind_drop (Triple.exists fun items => freeArray_spec s.headers items) fun _ => Triple.free p _

end Triples

end SubConverter
