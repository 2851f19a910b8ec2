/-
What `/convert` does with its headers argument. An object gives the header lines of the request; without any
entry to forward the array stays null, which `handle_convert` takes for an error.
-/
import SubConverter.Server.Wire

namespace SubConverter

open CMem

/-! ## The answer -/

/-- An upstream answer is never the one for invalid headers. -/
theorem convertAnswer_ne (conv : Converter) (spare : Spare) (rc : HttpcStatus) (resp : HttpcResponse) :
    convertAnswer conv spare rc resp ≠ .ok invalidHeaders := by
  intro h
  have hstatus : ∀ r : Response, r.status ≠ 400 → (.ok r : Run Response) ≠ .ok invalidHeaders := by
    rintro r hr hr'
    cases hr'
    exact hr rfl
  unfold convertAnswer at h
  split_ifs at h
  · exact hstatus _ (by decide) h
  · exact hstatus _ (by decide) h
  · exact hstatus _ (show (502 : Nat) ≠ 400 by decide) h
  · unfold convertBody at h
    split at h
    · exact hstatus _ (by decide) h
    · obtain ⟨r, -, h⟩ := bind_ok_iff.1 h
      split at h
      · exact hstatus _ (show (200 : Nat) ≠ 400 by decide) h
      · cases h
      · exact hstatus _ (by decide) h

/-! ## The request -/

section Request

variable (curl : Curl) (spare : Spare) {tok : Tokener} {args : ConvertArgs} {url h : CStr} {conv : Converter}

/-- Method, type and URL are in order, so that the headers are looked at. -/
structure Accepted (tok : Tokener) (args : ConvertArgs) (conv : Converter) (url : CStr) : Prop where
  method : args.method = .lit "GET"
  type : ∃ type, args.type = some type ∧ converterFind tok type = some conv
  url : args.url = some url

theorem Accepted.handleConvert_eq (ha : Accepted tok args conv url) :
    handleConvert curl tok spare args = convertWith curl conv spare url (convertHeaders tok args.headers) := by
  obtain ⟨type, htype, hconv⟩ := ha.type
  unfold handleConvert
  rw [if_neg (not_not.2 ha.method), htype]
  simp only [hconv, ha.url]

/-- The transfer for a URL with these header lines. -/
def fetchOptions (url : CStr) (lines : List CStr) : CurlOptions := curlOptions (convertReq url none 0) url lines

/-- A request whose headers are read starts one transfer, and its answer is about that. -/
theorem convertFetch_sent (conv : Converter) {arr : Option StrArray} {n : Nat} {lines : List CStr}
    (hlines : requestHeaders (convertReq url arr n) = .ok lines) :
    (convertFetch curl conv spare (convertReq url arr n)).sent = [fetchOptions url lines] ∧
      (convertFetch curl conv spare (convertReq url arr n)).answer ≠ .ok invalidHeaders := by
  have hrun : ∃ rc resp, httpcRequest curl (convertReq url arr n) = .ok (some (fetchOptions url lines), rc, resp) := by
    unfold httpcRequest
    rw [show (convertReq url arr n).url = some url from rfl]
    simp only [hlines, ok_bind]
    exact ⟨_, _, rfl⟩
  obtain ⟨rc, resp, hrun⟩ := hrun
  unfold convertFetch
  rw [hrun]
  exact ⟨rfl, convertAnswer_ne conv spare rc resp⟩

/-! ## The headers argument -/

theorem jsonxParse_obj_iff {b : Bytes} {ms : List (Bytes × Json)} :
    jsonxParse tok (some b) = some (.obj ms) ↔ b.length ≤ intMax ∧ tok b = some (.obj ms) := by
  rw [jsonxParse]
  by_cases hlen : intMax < b.length
  · rw [if_pos hlen]
    constructor
    · intro h
      cases h
    · intro h
      exact absurd h.1 (by omega)
  · rw [if_neg hlen, and_iff_right (by omega)]
    rcases tok b with _ | v
    · exact Iff.rfl
    · cases v <;> simp [Json.ptr]

/-- What is not an object has no headers. -/
theorem convertHeaders_other (hne : h.bytes ≠ []) (hno : ∀ ms, jsonxParse tok (some h.bytes) ≠ some (.obj ms)) :
    convertHeaders tok (some h) = .ok none := by
  have hparse : parseHeaders tok h = .ok (none, 0) := by
    unfold parseHeaders
    rcases hp : jsonxParse tok (some h.bytes) with _ | v
    · rfl
    · cases v with
      | obj ms => exact absurd hp (hno ms)
      | null => rfl
      | bool => rfl
      | int i => rfl
      | double => rfl
      | str s => rfl
      | arr xs => rfl
  simp only [convertHeaders, if_neg hne, hparse]
  rfl

/-- An object without entries to forward is taken for an error, as its array is null. -/
theorem convertHeaders_empty (hne : h.bytes ≠ []) {ms : List (Bytes × Json)}
    (hp : jsonxParse tok (some h.bytes) = some (.obj ms)) (hms : forwarded ms = []) :
    convertHeaders tok (some h) = .ok none := by
  obtain ⟨a, ha, hholds⟩ := parseHeaders_object hp
  rcases harr : a.arr with _ | slots
  · simp only [convertHeaders, if_neg hne, ha, harr]
    rfl
  · -- an array is only allocated for a header
    exact absurd (by rw [headerLines, hms]; rfl) (hholds.slots slots harr).1

/-- Any other object gives an array with its header lines. -/
theorem convertHeaders_object (hne : h.bytes ≠ []) {ms : List (Bytes × Json)}
    (hp : jsonxParse tok (some h.bytes) = some (.obj ms)) (hms : forwarded ms ≠ []) :
    ∃ arr n, convertHeaders tok (some h) = .ok (some (arr, n)) ∧
      requestHeaders (convertReq url arr n) = .ok (headerLines ms) := by
  obtain ⟨a, ha, hholds⟩ := parseHeaders_object hp
  rcases harr : a.arr with _ | slots
  · have hnil := (hholds.null harr).1
    rw [headerLines, List.map_eq_nil_iff] at hnil
    exact absurd hnil hms
  · refine ⟨some slots, a.n, ?_, hholds.requestHeaders harr.symm rfl⟩
    simp only [convertHeaders, if_neg hne, ha, harr]
    rfl

/-- An object gives a request with its entries to forward, in their order, and only what is not an object is
invalid. -/
structure HeadersUsed (curl : Curl) (spare : Spare) (tok : Tokener) (args : ConvertArgs) (url h : CStr) : Prop where
  fetches : ∀ ms, tok h.bytes = some (.obj ms) → ∃ lines, lines.map CStr.bytes = (forwarded ms).map entryText ∧
    (handleConvert curl tok spare args).sent = [fetchOptions url lines]
  invalid : (handleConvert curl tok spare args).answer = .ok invalidHeaders ↔ ¬ ∃ ms, tok h.bytes = some (.obj ms)
  skipped : ∀ ms, tok h.bytes = some (.obj ms) → forwarded ms = [] →
    handleConvert curl tok spare args = handleConvert curl tok spare { args with headers := none }

theorem Accepted.answer_invalid (ha : Accepted tok args conv url) (hnone : convertHeaders tok args.headers = .ok none) :
    (handleConvert curl tok spare args).answer = .ok invalidHeaders := by
  rw [ha.handleConvert_eq, hnone, convertWith]

/-- An object with an entry to forward gives one request with its entries. -/
theorem headersUsed_object (ha : Accepted tok args conv url) (hh : args.headers = some h) (hne : h.bytes ≠ [])
    {ms : List (Bytes × Json)} (htok : tok h.bytes = some (.obj ms)) (hlen : h.bytes.length ≤ intMax)
    (hms : forwarded ms ≠ []) : HeadersUsed curl spare tok args url h := by
  have hparse := jsonxParse_obj_iff.2 ⟨hlen, htok⟩
  obtain ⟨arr, n, hsome, hlines⟩ : ∃ arr n, convertHeaders tok (some h) = .ok (some (arr, n)) ∧
    requestHeaders (convertReq url arr n) = .ok (headerLines ms) := convertHeaders_object hne hparse hms
  obtain ⟨hsent, hanswer⟩ := convertFetch_sent curl spare conv hlines
  have hrun := ha.handleConvert_eq curl spare
  rw [hh, hsome, convertWith] at hrun
  have huniq : ∀ ms', tok h.bytes = some (.obj ms') → ms' = ms := by
    intro ms' h'
    rw [htok] at h'
    cases h'
    rfl
  refine ⟨fun ms' h' => ?_, ?_, fun ms' h' hnil => ?_⟩
  · rw [huniq ms' h', hrun]
    exact ⟨headerLines ms, bytes_headerLines (jsonxParse_membersSize hparse), hsent⟩
  · rw [hrun]
    exact ⟨fun hans => absurd hans hanswer, fun hno => absurd ⟨ms, htok⟩ hno⟩
  · rw [huniq ms' h'] at hnil
    exact absurd hnil hms

/-- What is not an object is answered as invalid. -/
theorem headersUsed_other (ha : Accepted tok args conv url) (hh : args.headers = some h) (hne : h.bytes ≠ [])
    (hobj : ¬ ∃ ms, tok h.bytes = some (.obj ms)) : HeadersUsed curl spare tok args url h := by
  have hnone : convertHeaders tok args.headers = .ok none := by
    rw [hh]
    exact convertHeaders_other hne fun ms hp => hobj ⟨ms, (jsonxParse_obj_iff.1 hp).2⟩
  refine ⟨fun ms htok => absurd ⟨ms, htok⟩ hobj, ?_, fun ms htok => absurd ⟨ms, htok⟩ hobj⟩
  exact ⟨fun _ => hobj, fun _ => ha.answer_invalid curl spare hnone⟩

/-- The headers are used as they should exactly when an object has an entry to forward and is not too long for
the tokener. -/
theorem headersUsed_iff (ha : Accepted tok args conv url) (hh : args.headers = some h) (hne : h.bytes ≠ []) :
    HeadersUsed curl spare tok args url h ↔
      ∀ ms, tok h.bytes = some (.obj ms) → h.bytes.length ≤ intMax ∧ forwarded ms ≠ [] := by
  constructor
  · intro hused ms htok
    have hvalid : convertHeaders tok args.headers ≠ .ok none :=
      fun hnone => hused.invalid.1 (ha.answer_invalid curl spare hnone) ⟨ms, htok⟩
    rw [hh] at hvalid
    -- `jsonx_parse` refuses a length that is not an `int`
    by_cases hlen : h.bytes.length ≤ intMax
    · exact ⟨hlen, fun hms => hvalid (convertHeaders_empty hne (jsonxParse_obj_iff.2 ⟨hlen, htok⟩) hms)⟩
    · exact absurd (convertHeaders_other hne fun ms' hp => hlen (jsonxParse_obj_iff.1 hp).1) hvalid
  · intro hall
    by_cases hobj : ∃ ms, tok h.bytes = some (.obj ms)
    · obtain ⟨ms, htok⟩ := hobj
      obtain ⟨hlen, hms⟩ := hall ms htok
      exact headersUsed_object curl spare ha hh hne htok hlen hms
    · exact headersUsed_other curl spare ha hh hne hobj

end Request

/-! ## Two arguments -/

/-- A request for a sing-box subscription with this headers argument. -/
def singboxArgs (headers : CStr) : ConvertArgs := ⟨.lit "GET", some (.lit "singbox"), some (.lit "http://h/s"), some headers⟩

theorem accepted_singbox (tok : Tokener) (headers : CStr) :
    Accepted tok (singboxArgs headers) (convSingbox tok) (.lit "http://h/s") where
  method := rfl
  type := ⟨.lit "singbox", rfl, List.find?_cons_of_pos (decide_eq_true rfl)⟩
  url := rfl

def noSpare : Spare := ⟨[], by decide⟩

theorem headersUsed_test : HeadersUsed (fun _ => ⟨[], .other, 0⟩) noSpare testTok (singboxArgs (entryJson "X-Test" "1"))
    (.lit "http://h/s") (entryJson "X-Test" "1") := by
  refine (headersUsed_iff _ _ (accepted_singbox _ _) rfl (by decide +kernel)).2 fun ms htok => ?_
  rw [testTok, Tokener.only_self] at htok
  cases htok
  exact ⟨by decide +kernel, by decide +kernel⟩

def emptyObjectTok : Tokener := .only (CStr.lit "\x7b\x7d").bytes (.obj []) (by decide +kernel)

/-- An object without entries is refused as if it were none. -/
theorem handleConvert_emptyObject :
    emptyObjectTok (CStr.lit "\x7b\x7d").bytes = some (.obj []) ∧
      (handleConvert (fun _ => ⟨[], .other, 0⟩) emptyObjectTok noSpare (singboxArgs (.lit "\x7b\x7d"))).answer =
        .ok invalidHeaders ∧
      ¬ HeadersUsed (fun _ => ⟨[], .other, 0⟩) noSpare emptyObjectTok (singboxArgs (.lit "\x7b\x7d"))
        (.lit "http://h/s") (.lit "\x7b\x7d") := by
  have htok : emptyObjectTok (CStr.lit "\x7b\x7d").bytes = some (.obj []) := Tokener.only_self
  have hanswer : (handleConvert (fun _ => ⟨[], .other, 0⟩) emptyObjectTok noSpare
      (singboxArgs (.lit "\x7b\x7d"))).answer = .ok invalidHeaders := by decide +kernel
  exact ⟨htok, hanswer, fun hused => hused.invalid.1 hanswer ⟨[], htok⟩⟩

end SubConverter
