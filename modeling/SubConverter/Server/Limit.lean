/-
The response limit. libcurl holds it against the bytes of the transfer, while `body_write_cb` stores the decoded
ones and counts nothing but the capacity of its buffer.
-/
import SubConverter.Src.Server

namespace SubConverter

open CMem

/-! ## The body over all chunks -/

/-- A chunk is stored behind the others, or refused because no buffer is that long. -/
theorem bodyWriteCb_spec (chunk : Bytes) (buf : BodyBuf) :
    (bodyWriteCb chunk buf).1 = chunk.length ∧ (bodyWriteCb chunk buf).2.bytes = buf.bytes ++ chunk ∧
        (chunk = [] ∨ buf.bytes.length + chunk.length + 1 ≤ 2 ^ 62) ∨
      (bodyWriteCb chunk buf).1 ≠ chunk.length ∧ 2 ^ 62 < buf.bytes.length + chunk.length + 1 := by
  unfold bodyWriteCb
  split_ifs with hnil hlen
  · refine .inl ⟨by rw [hnil]; rfl, by rw [hnil, List.append_nil], .inl hnil⟩
  · exact .inl ⟨rfl, rfl, .inr hlen⟩
  · refine .inr ⟨?_, by omega⟩
    have := List.length_pos_of_ne_nil hnil
    show 0 ≠ chunk.length
    omega

/-- Every chunk is taken exactly when they all fit into one buffer. -/
theorem deliver_taken_iff {chunks : List Bytes} {buf : BodyBuf} :
    (deliver chunks buf).1 = true ↔
      chunks.flatten = [] ∨ buf.bytes.length + chunks.flatten.length + 1 ≤ 2 ^ 62 := by
  induction chunks generalizing buf with
  | nil => simp [deliver]
  | cons chunk chunks ih =>
    simp only [deliver]
    rw [List.flatten_cons, List.append_eq_nil_iff, List.length_append]
    rcases bodyWriteCb_spec chunk buf with ⟨hn, hbytes, hfits⟩ | ⟨hn, hlen⟩
    · rw [if_pos hn, ih, hbytes, List.length_append]
      rcases hfits with hnil | hlen
      · rw [hnil, List.length_nil, Nat.add_zero, Nat.zero_add]
        simp
      · constructor
        · rintro (hnil | h)
          · rw [hnil, List.length_nil]
            exact .inr (by omega)
          · exact .inr (by omega)
        · rintro (h | h)
          · exact .inl h.2
          · exact .inr (by omega)
    · rw [if_neg hn]
      constructor
      · intro h
        cases h
      · rintro (⟨hnil, -⟩ | h)
        · rw [hnil] at hn
          -- an empty chunk is never refused
          exact absurd rfl hn
        · omega

/-- What is stored when every chunk was taken. -/
theorem deliver_bytes {chunks : List Bytes} {buf : BodyBuf} (h : (deliver chunks buf).1 = true) :
    (deliver chunks buf).2.bytes = buf.bytes ++ chunks.flatten := by
  induction chunks generalizing buf with
  | nil => rw [deliver, List.flatten_nil, List.append_nil]
  | cons chunk chunks ih =>
    simp only [deliver] at h ⊢
    rcases bodyWriteCb_spec chunk buf with ⟨hn, hbytes, -⟩ | ⟨hn, -⟩
    · rw [if_pos hn] at h ⊢
      rw [ih h, hbytes, List.append_assoc, List.flatten_cons]
    · rw [if_neg hn] at h
      cases h

/-! ## The limit -/

/-- The decoded body. -/
def Transfer.body (t : Transfer) : Bytes := t.chunks.flatten

/-- The transfer ends well with a status below 400, and there is a buffer for its body. -/
structure Transfer.Succeeds (t : Transfer) : Prop where
  code : t.code = .ok
  status : t.status < 400
  stored : t.body.length + 1 ≤ 2 ^ 62

/-- A success has a body no longer than the request allows. -/
def ResponseWithinLimit (curl : Curl) (req : HttpcReq) : Prop :=
  ∀ options rc resp, httpcRequest curl req = .ok (options, rc, resp) → rc = .ok →
    (resp.body.bytes.length : Int) ≤ req.maxResponse

theorem httpcStatus_eq_ok {code : CurlCode} {status : Int} :
    httpcStatus code status = .ok ↔ code = .ok ∧ status < 400 := by
  unfold httpcStatus
  cases code with
  | ok =>
    by_cases h : status ≥ 400
    · rw [if_pos h]
      simp only [true_and]
      constructor
      · intro h'
        cases h'
      · intro h'
        omega
    · rw [if_neg h]
      simp only [true_and, true_iff]
      omega
  | operationTimedout => simp
  | httpReturnedError => simp
  | writeError => simp
  | other => simp

theorem deliver_init_taken_iff (t : Transfer) : (deliver t.chunks .init).1 = true ↔ t.body.length + 1 ≤ 2 ^ 62 := by
  rw [deliver_taken_iff, ← Transfer.body]
  rcases t.body with _ | ⟨c, b⟩
  · simp
  · rw [show BodyBuf.init.bytes = [] from rfl, List.length_nil, Nat.zero_add]
    simp

/-- The transfer of a success succeeded, and its whole decoded body comes back. -/
theorem httpcRequest_ok {curl : Curl} {req : HttpcReq} {options : Option CurlOptions} {resp : HttpcResponse}
    (h : httpcRequest curl req = .ok (options, .ok, resp)) :
    ∃ url headers, req.url = some url ∧ requestHeaders req = .ok headers ∧
      (curl (curlOptions req url headers)).Succeeds ∧ resp.body.bytes = (curl (curlOptions req url headers)).body := by
  unfold httpcRequest at h
  split at h
  · cases h
  · rename_i url hurl
    obtain ⟨headers, hheaders, h⟩ := bind_ok_iff.1 h
    injection h with h
    injection h with _ h
    injection h with hrc hresp
    obtain ⟨hcode, hstatus⟩ := httpcStatus_eq_ok.1 hrc
    refine ⟨url, headers, hurl, hheaders, ?_⟩
    by_cases htaken : (deliver (curl (curlOptions req url headers)).chunks .init).1 = true
    · rw [if_pos htaken] at hcode
      refine ⟨⟨hcode, hstatus, (deliver_init_taken_iff _).1 htaken⟩, ?_⟩
      rw [← hresp]
      exact deliver_bytes htaken
    · rw [if_neg htaken] at hcode
      cases hcode

/-- A transfer that succeeds makes the request a success. -/
theorem httpcRequest_succeeds {curl : Curl} {req : HttpcReq} {url : CStr} {headers : List CStr}
    (hurl : req.url = some url) (hheaders : requestHeaders req = .ok headers)
    (hsucc : (curl (curlOptions req url headers)).Succeeds) :
    ∃ options resp, httpcRequest curl req = .ok (options, .ok, resp) ∧
      resp.body.bytes = (curl (curlOptions req url headers)).body := by
  have htaken := (deliver_init_taken_iff _).2 hsucc.stored
  have hstatus := httpcStatus_eq_ok.2 ⟨hsucc.code, hsucc.status⟩
  refine ⟨some (curlOptions req url headers), ⟨(curl (curlOptions req url headers)).status,
    (deliver (curl (curlOptions req url headers)).chunks .init).2⟩, ?_, deliver_bytes htaken⟩
  simp only [httpcRequest, hurl, hheaders, ok_bind, htaken, if_true, hstatus]

/-- The limit holds exactly when the decoded body of a successful transfer is within it anyway: `httpc_request`
leaves it to libcurl, and the callback does not look at it. -/
theorem response_within_limit_iff (curl : Curl) (req : HttpcReq) :
    ResponseWithinLimit curl req ↔
      ∀ url headers, req.url = some url → requestHeaders req = .ok headers →
        (curl (curlOptions req url headers)).Succeeds →
          ((curl (curlOptions req url headers)).body.length : Int) ≤ req.maxResponse := by
  constructor
  · intro h url headers hurl hheaders hsucc
    obtain ⟨options, resp, hrun, hbody⟩ := httpcRequest_succeeds hurl hheaders hsucc
    rw [← hbody]
    exact h options .ok resp hrun rfl
  · rintro h options rc resp hrun rfl
    obtain ⟨url, headers, hurl, hheaders, hsucc, hbody⟩ := httpcRequest_ok hrun
    rw [hbody]
    exact h url headers hurl hheaders hsucc

/-! ## What libcurl limits -/

/-- An answer on its way: the size it is sent in, its decoded chunks and the HTTP status. -/
structure Download where
  wireSize : Nat
  chunks : List Bytes
  status : Int

/-- A transfer that is given up when more than `CURLOPT_MAXFILESIZE_LARGE` bytes are sent. -/
def Download.curl (d : Download) : Curl := fun options =>
  match options.maxFileSizeLarge with
  | some limit => ⟨d.chunks, if limit < d.wireSize then .other else .ok, d.status⟩
  | none => ⟨d.chunks, .ok, d.status⟩

theorem Download.curl_chunks (d : Download) (options : CurlOptions) : (d.curl options).chunks = d.chunks := by
  unfold Download.curl
  split <;> rfl

/-- The limit is kept for an answer that does not grow when it is decoded. -/
theorem Download.within_limit {d : Download} {req : HttpcReq} (hmax : 0 < req.maxResponse)
    (hd : d.chunks.flatten.length ≤ d.wireSize) : ResponseWithinLimit d.curl req := by
  rintro options rc resp hrun rfl
  obtain ⟨url, headers, -, -, hsucc, hbody⟩ := httpcRequest_ok hrun
  have hlimit : (curlOptions req url headers).maxFileSizeLarge = some req.maxResponse := if_pos hmax
  have hcode := hsucc.code
  simp only [Download.curl, hlimit] at hcode
  rw [hbody, Transfer.body, d.curl_chunks]
  by_cases hwire : req.maxResponse < d.wireSize
  · rw [if_pos hwire] at hcode
    cases hcode
  · omega

/-- An answer of 2100 bytes that decodes to 129 chunks of 16 KiB. -/
def bomb : Download := ⟨2100, List.replicate 129 (List.replicate 16384 0), 200⟩

theorem length_bomb : bomb.chunks.flatten.length = 2113536 := by
  show (List.replicate 129 (List.replicate 16384 (0 : Byte))).flatten.length = _
  rw [List.length_flatten, List.map_replicate, List.length_replicate, List.sum_replicate]
  rfl

/-- It is sent well within the limit of `handle_convert`, and comes back as a success beyond it. -/
theorem bomb_beyond_limit :
    0 < (convertReq (.lit "http://sub.example/") none 0).maxResponse ∧
      (bomb.wireSize : Int) ≤ (convertReq (.lit "http://sub.example/") none 0).maxResponse ∧
      ¬ ResponseWithinLimit bomb.curl (convertReq (.lit "http://sub.example/") none 0) := by
  refine ⟨by decide, by decide, ?_⟩
  intro h
  have hsucc : (bomb.curl (curlOptions (convertReq (.lit "http://sub.example/") none 0)
      (.lit "http://sub.example/") [])).Succeeds := by
    refine ⟨rfl, by decide, ?_⟩
    rw [Transfer.body, bomb.curl_chunks, length_bomb]
    decide
  obtain ⟨options, resp, hrun, hbody⟩ := httpcRequest_succeeds rfl rfl hsucc
  have hle := h options .ok resp hrun rfl
  rw [hbody, Transfer.body, bomb.curl_chunks, length_bomb] at hle
  exact absurd hle (by decide)

end SubConverter
