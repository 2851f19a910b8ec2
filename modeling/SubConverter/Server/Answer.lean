/-
What `/convert` answers. A document is sent exactly for a request that is in order and a transfer that brings a body a
converter takes; a subscription arrives as a document a reader of YAML finds its nodes in, in whatever chunks the
transfer delivers it. What can fault on the way is a line of the body.
-/
import SubConverter.Conv.Faults
import SubConverter.Conv.Subscription
import SubConverter.Server.Convert
import SubConverter.Server.Limit

namespace SubConverter

open CMem Yaml

/-! ## Requests -/

/-- The header lines a headers argument gives. -/
inductive HeaderLines (tok : Tokener) : Option CStr → List CStr → Prop
  | missing : HeaderLines tok none []
  | empty {json : CStr} (h : json.bytes = []) : HeaderLines tok (some json) []
  | object {json : CStr} {ms : List (Bytes × Json)} (hne : json.bytes ≠ [])
      (hparse : jsonxParse tok (some json.bytes) = some (.obj ms)) (hms : forwarded ms ≠ []) :
      HeaderLines tok (some json) (headerLines ms)

/-- The request is in order, and `t` is the transfer it leads to. -/
def Fetches (curl : Curl) (tok : Tokener) (args : ConvertArgs) (conv : Converter) (t : Transfer) : Prop :=
  ∃ url lines, Accepted tok args conv url ∧ HeaderLines tok args.headers lines ∧ t = curl (fetchOptions url lines)

/-- The answer to a transfer. -/
def transferAnswer (conv : Converter) (spare : Spare) (t : Transfer) : Run Response :=
  convertAnswer conv spare (httpcStatus (if (deliver t.chunks .init).1 then t.code else .writeError) t.status)
    ⟨t.status, (deliver t.chunks .init).2⟩

section Requests

variable {curl : Curl} {spare : Spare} {tok : Tokener} {args : ConvertArgs} {conv : Converter}

theorem convertFetch_answer (curl : Curl) (spare : Spare) (conv : Converter) {url : CStr} {arr : Option StrArray} {n : Nat}
    {lines : List CStr} (hlines : requestHeaders (convertReq url arr n) = .ok lines) :
    (convertFetch curl conv spare (convertReq url arr n)).answer =
      transferAnswer conv spare (curl (fetchOptions url lines)) := by
  unfold convertFetch httpcRequest
  rw [show (convertReq url arr n).url = some url from rfl]
  simp only [hlines, ok_bind]
  rfl

theorem HeaderLines.convertHeaders {headers : Option CStr} {lines : List CStr} (h : HeaderLines tok headers lines)
    (url : CStr) : ∃ arr n, SubConverter.convertHeaders tok headers = .ok (some (arr, n)) ∧
      requestHeaders (convertReq url arr n) = .ok lines := by
  cases h with
  | missing => exact ⟨none, 0, rfl, rfl⟩
  | empty h => exact ⟨none, 0, if_pos h, rfl⟩
  | object hne hparse hms => exact convertHeaders_object hne hparse hms

theorem convertHeaders_none {headers : Option CStr} (h : ∀ lines, ¬ HeaderLines tok headers lines) :
    convertHeaders tok headers = .ok none := by
  rcases headers with _ | json
  · exact absurd .missing (h [])
  have hne : json.bytes ≠ [] := fun hnil => h [] (.empty hnil)
  by_cases hobj : ∃ ms, jsonxParse tok (some json.bytes) = some (.obj ms)
  · obtain ⟨ms, hms⟩ := hobj
    exact convertHeaders_empty hne hms (not_not.1 fun hf => h _ (.object hne hms hf))
  · exact convertHeaders_other hne fun ms hms => hobj ⟨ms, hms⟩

/-- A request in order is answered by its transfer. -/
theorem Fetches.answer {t : Transfer} (h : Fetches curl tok args conv t) :
    (handleConvert curl tok spare args).answer = transferAnswer conv spare t := by
  obtain ⟨url, lines, hacc, hlines, rfl⟩ := h
  obtain ⟨arr, n, hheaders, hreq⟩ := hlines.convertHeaders url
  rw [hacc.handleConvert_eq, hheaders, convertWith, convertFetch_answer curl spare conv hreq]

/-- Any other is refused. -/
theorem handleConvert_refused (h : ∀ conv t, ¬ Fetches curl tok args conv t) :
    ∃ r, (handleConvert curl tok spare args).answer = .ok r ∧ r.status ≠ 200 := by
  obtain ⟨method, type, url, headers⟩ := args
  unfold handleConvert
  by_cases hget : method ≠ .lit "GET"
  · simp only [if_pos hget]
    exact ⟨_, rfl, by decide⟩
  simp only [if_neg hget]
  rcases type with _ | type
  · exact ⟨missingType, rfl, by decide⟩
  rcases hconv : converterFind tok type with _ | conv
  · simp only [hconv]
    exact ⟨unknownConverter, rfl, by decide⟩
  simp only [hconv]
  rcases url with _ | url
  · exact ⟨missingUrl, rfl, by decide⟩
  have hnone : convertHeaders tok headers = .ok none := by
    refine convertHeaders_none fun lines hlines => h conv _ ⟨url, lines, ⟨?_, ⟨type, rfl, hconv⟩, rfl⟩, hlines, rfl⟩
    simpa using hget
  simp only [hnone]
  exact ⟨invalidHeaders, rfl, by decide⟩

end Requests

/-! ## Transfers -/

/-- The transfer brings a whole body. -/
structure Transfer.Arrives (t : Transfer) : Prop where
  code : t.code = .ok
  status : t.status = 200
  stored : t.body.length + 1 ≤ 2 ^ 62
  nonempty : t.body ≠ []

/-- What is stored of the chunks; without a byte there is no buffer. -/
theorem deliver_data {chunks : List Bytes} {buf : BodyBuf} (h : (deliver chunks buf).1 = true) :
    (deliver chunks buf).2.data = if chunks.flatten = [] then buf.data else some (buf.bytes ++ chunks.flatten) := by
  induction chunks generalizing buf with
  | nil => rfl
  | cons chunk chunks ih =>
    by_cases hnil : chunk = []
    · subst hnil
      exact ih h
    have hpos : 0 ≠ chunk.length := (List.length_pos_of_ne_nil hnil).ne
    by_cases hfits : buf.bytes.length + chunk.length + 1 ≤ 2 ^ 62
    · have hcb : bodyWriteCb chunk buf = (chunk.length, ⟨some (buf.bytes ++ chunk), by
          rw [Option.getD_some, List.length_append]
          omega⟩) := by
        rw [bodyWriteCb, if_neg hnil, dif_pos hfits]
      simp only [deliver, hcb, if_true] at h ⊢
      have hcons : (chunk :: chunks).flatten ≠ [] := by simp [hnil]
      rw [ih h, if_neg hcons, List.flatten_cons]
      split_ifs with hrest
      · rw [hrest, List.append_nil]
      · rw [BodyBuf.bytes, Option.getD_some, List.append_assoc]
    · have hcb : bodyWriteCb chunk buf = (0, buf) := by rw [bodyWriteCb, if_neg hnil, dif_neg hfits]
      simp only [deliver, hcb, if_neg hpos] at h
      cases h

/-- A body that arrives is converted. -/
theorem Transfer.Arrives.answer {t : Transfer} (h : t.Arrives) (conv : Converter) (spare : Spare) :
    transferAnswer conv spare t = convertBody conv spare ⟨some t.body, h.stored⟩ := by
  have htaken := (deliver_init_taken_iff t).2 h.stored
  have hdata := deliver_data htaken
  rw [if_neg (show t.chunks.flatten ≠ [] from h.nonempty)] at hdata
  have hbody : (deliver t.chunks .init).2 = ⟨some t.body, h.stored⟩ := by
    rcases hd : (deliver t.chunks .init).2 with ⟨data, fits⟩
    rw [hd] at hdata
    simp only at hdata
    subst hdata
    rfl
  have hstatus : httpcStatus t.code t.status = .ok := httpcStatus_eq_ok.2 ⟨h.code, by rw [h.status]; decide⟩
  rw [transferAnswer, htaken, if_pos rfl, hstatus, convertAnswer, if_neg (by simp), if_neg (by simp),
    if_neg (by simp [h.status]), hbody]

/-- Without a body the answer is an error. -/
theorem transferAnswer_error {t : Transfer} (h : ¬ t.Arrives) (conv : Converter) (spare : Spare) :
    ∃ r, transferAnswer conv spare t = .ok r ∧ r.status ≠ 200 := by
  unfold transferAnswer
  rcases hrc : httpcStatus (if (deliver t.chunks .init).1 then t.code else .writeError) t.status
  · by_cases hstatus : t.status = 200
    · -- the transfer is in order, so there is no body
      have hcode := (httpcStatus_eq_ok.1 hrc).1
      by_cases htaken : (deliver t.chunks .init).1 = true
      · rw [if_pos htaken] at hcode
        have hnil : t.chunks.flatten = [] := not_not.1 fun hne =>
          h ⟨hcode, hstatus, (deliver_init_taken_iff t).1 htaken, hne⟩
        have hdata := deliver_data htaken
        rw [if_pos hnil] at hdata
        refine ⟨notConvertible, ?_, by decide⟩
        rw [convertAnswer, if_neg (by simp), if_neg (by simp), if_neg (by simp [hstatus])]
        rcases hd : (deliver t.chunks .init).2 with ⟨data, fits⟩
        rw [hd] at hdata
        cases hdata
        rfl
      · rw [if_neg htaken] at hcode
        cases hcode
    · refine ⟨upstreamStatus t.status, ?_, show (502 : Nat) ≠ 200 by decide⟩
      rw [convertAnswer, if_neg (by simp), if_neg (by simp), if_pos (.inr hstatus)]
  · exact ⟨upstreamFailed, rfl, by decide⟩
  · exact ⟨upstreamTimeout, rfl, by decide⟩
  · refine ⟨upstreamStatus t.status, ?_, show (502 : Nat) ≠ 200 by decide⟩
    rw [convertAnswer, if_neg (by simp), if_neg (by simp), if_pos (.inl rfl)]

/-! ## Documents and faults -/

theorem mem_gConverters {tok : Tokener} {type : CStr} {conv : Converter} (h : converterFind tok type = some conv) :
    conv = convSingbox tok ∨ conv = convBase64 tok := by
  simpa [gConverters] using List.mem_of_find?_eq_some h

/-- A converter that succeeds returns a document. -/
theorem run_ne_null {tok : Tokener} {type : CStr} {conv : Converter} (h : converterFind tok type = some conv)
    (ctx : ConvCtx) : conv.run ctx none ≠ .ok (0, none) := by
  intro hrun
  rcases mem_gConverters h with rfl | rfl
  · obtain ⟨xs, -, -, hout⟩ := convSingboxRun_ok hrun
    cases hout
  · rcases convBase64Run_ok hrun with hout | ⟨-, hout⟩
    · cases hout
    · cases hout

/-- What lies behind a decoded body is not in the answer, if there is one. -/
theorem convertBody_spare {tok : Tokener} {type : CStr} {conv : Converter} (hfind : converterFind tok type = some conv)
    {spare spare' : Spare} {body : BodyBuf} {r r' : Response} (h : convertBody conv spare body = .ok r)
    (h' : convertBody conv spare' body = .ok r') : r = r' := by
  obtain ⟨_ | data, fits⟩ := body
  · cases h.symm.trans h'
    rfl
  rw [convertBody] at h h'
  obtain ⟨x, hx, h⟩ := bind_ok_iff.1 h
  obtain ⟨x', hx', h'⟩ := bind_ok_iff.1 h'
  have hsame : x = x' := by
    rcases mem_gConverters hfind with rfl | rfl
    · have hrun : convSingboxRun tok (spare.ctx data fits) none = convSingboxRun tok (spare'.ctx data fits) none := rfl
      exact Except.ok.inj (hx.symm.trans (hrun.trans hx'))
    · exact @convBase64Run_spare tok (spare.ctx data fits) (spare'.ctx data fits) rfl none x x' hx hx'
  subst hsame
  exact Except.ok.inj (h.symm.trans h')

theorem handleConvert_spare {curl : Curl} {tok : Tokener} {spare spare' : Spare} {args : ConvertArgs} {r r' : Response}
    (h : (handleConvert curl tok spare args).answer = .ok r) (h' : (handleConvert curl tok spare' args).answer = .ok r') :
    r = r' := by
  obtain ⟨method, type, url, headers⟩ := args
  unfold handleConvert at h h'
  by_cases hget : method ≠ .lit "GET"
  · simp only [if_pos hget] at h h'
    exact Except.ok.inj (h.symm.trans h')
  simp only [if_neg hget] at h h'
  rcases type with _ | type
  · exact Except.ok.inj (h.symm.trans h')
  rcases hconv : converterFind tok type with _ | conv
  · simp only [hconv] at h h'
    exact Except.ok.inj (h.symm.trans h')
  simp only [hconv] at h h'
  rcases url with _ | url
  · exact Except.ok.inj (h.symm.trans h')
  rcases hheaders : convertHeaders tok headers with e | _ | ⟨arr, n⟩
  · simp only [hheaders, convertWith] at h
    cases h
  · simp only [hheaders, convertWith] at h h'
    exact Except.ok.inj (h.symm.trans h')
  simp only [hheaders, convertWith, convertFetch] at h h'
  rcases hreq : httpcRequest curl (convertReq url arr n) with e | ⟨options, rc, resp⟩
  · rw [hreq] at h
    cases h
  simp only [hreq, convertAnswer] at h h'
  split_ifs at h h'
  · exact Except.ok.inj (h.symm.trans h')
  · exact Except.ok.inj (h.symm.trans h')
  · exact Except.ok.inj (h.symm.trans h')
  · exact convertBody_spare hconv h h'

/-- A document is sent exactly for a request in order whose transfer brings a body that the converter takes. -/
theorem handleConvert_document_iff (curl : Curl) (tok : Tokener) (spare : Spare) (args : ConvertArgs) (r : Response) :
    ((handleConvert curl tok spare args).answer = .ok r ∧ r.status = 200) ↔
      ∃ conv t yaml, Fetches curl tok args conv t ∧ t.Arrives ∧
        (∃ fits, conv.run (spare.ctx t.body fits) none = .ok (0, some yaml)) ∧ r = ⟨200, "application/yaml", yaml⟩ := by
  constructor
  · rintro ⟨hr, hstatus⟩
    by_cases hf : ∃ conv t, Fetches curl tok args conv t
    · obtain ⟨conv, t, hf⟩ := hf
      rw [hf.answer] at hr
      have harrives : t.Arrives := not_not.1 fun hno => by
        obtain ⟨r', hr', hne⟩ := transferAnswer_error hno conv spare
        cases hr.symm.trans hr'
        exact hne hstatus
      rw [harrives.answer, convertBody] at hr
      obtain ⟨⟨rc, out⟩, hrun, hr⟩ := bind_ok_iff.1 hr
      split at hr
      · rename_i yaml heq
        cases heq
        cases hr
        exact ⟨conv, t, yaml, hf, harrives, ⟨harrives.stored, hrun⟩, rfl⟩
      · cases hr
      · cases hr
        exact absurd hstatus (by decide)
    · obtain ⟨r', hr', hne⟩ := handleConvert_refused fun conv t h => hf ⟨conv, t, h⟩
      cases hr.symm.trans hr'
      exact absurd hstatus hne
  · rintro ⟨conv, t, yaml, hf, harrives, ⟨fits, hrun⟩, rfl⟩
    refine ⟨?_, rfl⟩
    rw [hf.answer, harrives.answer, convertBody, hrun]
    rfl

/-- A request faults exactly when it asks for the conversion of a list of links, and the list that arrives faults: one of
its lines where it stands, or a name that can no longer be numbered. -/
theorem handleConvert_faults_iff (curl : Curl) (tok : Tokener) (spare : Spare) (args : ConvertArgs) :
    (∃ f, (handleConvert curl tok spare args).answer = .error f) ↔
      ∃ t fits, Fetches curl tok args (convBase64 tok) t ∧ t.Arrives ∧ TextFaults tok (spare.ctx t.body fits) := by
  constructor
  · rintro ⟨f, hr⟩
    have hf : ∃ conv t, Fetches curl tok args conv t := not_not.1 fun hno => by
      obtain ⟨r', hr', -⟩ := handleConvert_refused fun conv t h => hno ⟨conv, t, h⟩
      cases hr.symm.trans hr'
    obtain ⟨conv, t, hf⟩ := hf
    obtain ⟨url, lines, ⟨-, ⟨type, -, hfind⟩, -⟩, -⟩ := id hf
    rw [hf.answer] at hr
    have harrives : t.Arrives := not_not.1 fun hno => by
      obtain ⟨r', hr', -⟩ := transferAnswer_error hno conv spare
      cases hr.symm.trans hr'
    rw [harrives.answer, convertBody] at hr
    have hrun : ∃ f, conv.run (spare.ctx t.body harrives.stored) none = .error f := by
      rcases bind_error_iff.1 hr with hrun | ⟨⟨rc, out⟩, hrun, hr⟩
      · exact ⟨f, hrun⟩
      · split at hr
        · cases hr
        · rename_i heq
          cases heq
          exact absurd hrun (run_ne_null hfind _)
        · cases hr
    rcases mem_gConverters hfind with rfl | rfl
    · obtain ⟨f, hrun⟩ := hrun
      exact absurd hrun (convSingboxRun_ne_error tok _ none f)
    · exact ⟨t, harrives.stored, hf, harrives, (convBase64Run_error_iff tok _ none).1 hrun⟩
  · rintro ⟨t, fits, hf, harrives, hfaults⟩
    obtain ⟨f, hrun⟩ := (convBase64Run_error_iff tok _ none).2 hfaults
    refine ⟨f, ?_⟩
    rw [hf.answer, harrives.answer, convertBody]
    exact bind_error_iff.2 (.inl hrun)

/-- A configuration that arrives is answered by the document of the elements that yield proxies, when there are any. -/
theorem configuration_answer {curl : Curl} {spare : Spare} {tok : Tokener} {args : ConvertArgs} {t : Transfer} {xs : List Json}
    (hf : Fetches curl tok args (convSingbox tok) t) (harrives : t.Arrives)
    (hparse : jsonxParse tok (some t.body) = some (.arr xs)) :
    (handleConvert curl tok spare args).answer = .ok (if singboxElems xs = [] then notConvertible
      else ⟨200, "application/yaml", (singboxDoc (singboxElems xs)).yaml⟩) := by
  have hdata : jsonxParse tok (some (spare.ctx t.body harrives.stored).data) = some (.arr xs) := hparse
  rw [hf.answer, harrives.answer, convertBody]
  refine bind_ok_iff.2 ⟨_, convSingboxRun_eq hdata none, ?_⟩
  split_ifs with hnil
  · rfl
  · rfl

/-- A subscription that arrives is answered by the document in which a reader of YAML finds its nodes. -/
theorem subscription_answer {curl : Curl} {spare : Spare} {tok : Tokener} {args : ConvertArgs} {t : Transfer}
    {ls : List (SubLine tok)} (hf : Fetches curl tok args (convBase64 tok) t) (harrives : t.Arrives) (hne : subNodes ls ≠ [])
    (hnames : SubNamed ls) (hcarries : Carries t.body ls) :
    ∃ y, (handleConvert curl tok spare args).answer = .ok ⟨200, "application/yaml", y⟩ ∧
      (readDocument y.bytes = some (base64Doc (subNodes ls)).tree ↔ ∀ n ∈ subNodes ls, AllKept n.written) := by
  refine ⟨_, ?_, by rw [Document.read_iff, stringsKept_subNodes]⟩
  rw [hf.answer, harrives.answer, convertBody]
  exact bind_ok_iff.2 ⟨(0, some _), convBase64Run_carries hne hnames hcarries none, rfl⟩

end SubConverter
