/-
The spellings of a shadowsocks link: the method and the password in base64, the whole authority in
base64, percent-encoded, or as they stand. The parser reads each of them back except where it takes the
other base64 alphabet than the link, and where percent coding changes the text.
-/
import SubConverter.Coding.Alphabets
import SubConverter.Share.Encoded

namespace SubConverter

open CMem

/-! ## Host and port -/

theorem hostSegs_some {b x p : Bytes} (h : hostSegs b = some (x, p)) :
    b = x ++ ch ':' :: p ∨ b = ch '[' :: (x ++ ch ']' :: ch ':' :: p) := by
  unfold hostSegs at h
  split at h
  · rename_i hb
    rcases b with _ | ⟨a, r⟩
    · cases hb
    obtain rfl : a = ch '[' := by simpa using hb
    split at h
    · rename_i host d port hc
      split at h
      · rename_i hd
        cases h
        rw [List.tail_cons] at hc
        rw [(cut_some hc).1, hd]
        exact .inr rfl
      · cases h
    · cases h
  · left
    rcases last_split (ch ':') b with hn | ⟨x', y, rfl, hy⟩
    · rw [cutLast_none hn] at h; cases h
    · rw [cutLast_append hy] at h; cases h; rfl

/-- The characters of a number in a text are no delimiters. -/
theorem number_plain : ∀ c, isSpace c = true ∨ c = ch '-' ∨ c = ch '+' ∨ isDigit c = true → c ∉ str "@?#" := by
  decide +kernel

theorem digit_not_eol : ∀ c, isDigit c = true → c ≠ 10 ∧ c ≠ 13 := by decide +kernel

theorem intText_plain {s : Bytes} {i : Int} (h : intText s = some i) : ∀ c ∈ s, c ∉ str "@?#" := by
  obtain ⟨x, ds, rfl, -, hd, hx⟩ := intText_some h
  intro c hc
  apply number_plain
  rcases List.mem_append.1 hc with hc | hc
  · have := hx c hc
    tauto
  · exact .inr (.inr (.inr (hd c hc)))

/-! ## Links -/

/-- The data of a shadowsocks link; `authority` is its `host:port` text. -/
structure SsData where
  method : CStr
  password : CStr
  authority : CStr
  host : CStr
  port : Int
  method_ne : method.bytes ≠ []
  method_plain : ∀ c ∈ method.bytes, c ∉ str ":@?#%"
  reads : hostPort authority.bytes = some (host, port)
  host_plain : ∀ c ∈ host.bytes, c ∉ str "@?#"

inductive SsSpelling
  | userStd | userUrl | wholeStd | wholeUrl | percent | raw

namespace SsData

/-- `method:password`. -/
def user (d : SsData) : Bytes := d.method.bytes ++ ch ':' :: d.password.bytes

/-- `method:password@host:port`. -/
def whole (d : SsData) : Bytes := d.user ++ ch '@' :: d.authority.bytes

/-- What follows the scheme. -/
def spelled (d : SsData) : SsSpelling → Bytes
  | .userStd => (base64Encode d.user .init).bytes ++ ch '@' :: d.authority.bytes
  | .userUrl => (base64EncodeUrl d.user .init).bytes ++ ch '@' :: d.authority.bytes
  | .wholeStd => (base64Encode d.whole .init).bytes
  | .wholeUrl => (base64EncodeUrl d.whole .init).bytes
  | .percent => encoded d.method ++ ch ':' :: encoded d.password ++ ch '@' :: d.authority.bytes
  | .raw => d.whole

/-- The raw form is for passwords without the delimiters. -/
def Admits (d : SsData) (s : SsSpelling) : Prop := s = .raw → ∀ c ∈ d.password.bytes, c ∉ str "@?#%"

/-- The parser takes the link and reads the data back. -/
def Reads (d : SsData) (tok : Tokener) (s : SsSpelling) : Prop :=
  ∃ n, nodeParseShare .machine tok (str "ss://" ++ d.spelled s) (str "ss://" ++ d.spelled s).length = .ok (0, n) ∧
    n.cipher = some d.method ∧ n.password = some d.password ∧ n.server = some d.host ∧ n.port = d.port

/-- Where a spelling is read back. -/
def Readable (d : SsData) : SsSpelling → Prop
  | .userStd | .wholeUrl | .raw => True
  | .userUrl => ch '-' ∉ (base64EncodeUrl d.user .init).bytes ∧ ch '_' ∉ (base64EncodeUrl d.user .init).bytes
  | .wholeStd => ch '+' ∉ (base64Encode d.whole .init).bytes ∧ ch '/' ∉ (base64Encode d.whole .init).bytes
  | .percent => d.method.bytes.all isUnreserved = true ∧ d.password.bytes.all isUnreserved = true

/-- The name that a spelling gets, which has no fragment, can be counted in an `int`. -/
def Named (d : SsData) : Prop := (fallbackText d.host d.port).length ≤ intMax

theorem authority_segs (d : SsData) : ∃ p, hostSegs d.authority.bytes = some (d.host.bytes, p) ∧ (0 : Byte) ∉ p ∧
    intText p = some d.port := by
  obtain ⟨x, p, hs, -, -, hhost, hport, -⟩ := hostPort_some.1 d.reads
  have h0 : (0 : Byte) ∉ x ∧ (0 : Byte) ∉ p := by
    have := d.authority.nulFree
    rcases hostSegs_some hs with h | h
    · rw [h] at this
      simp at this
      tauto
    · rw [h] at this
      simp at this
      tauto
  rw [CStr.ofBytes_bytes h0.2] at hport
  refine ⟨p, ?_, h0.2, hport⟩
  rw [hhost, CStr.ofBytes_bytes h0.1]
  exact hs

/-- The `host:port` text has no delimiters and ends in a digit. -/
theorem authority_plain (d : SsData) : (∀ c ∈ d.authority.bytes, c ∉ str "@?#") ∧
    ∃ x ds, d.authority.bytes = x ++ ds ∧ ds ≠ [] ∧ ∀ c ∈ ds, isDigit c = true := by
  obtain ⟨p, hs, h0, hport⟩ := d.authority_segs
  obtain ⟨y, ds, hp, hne, hd, -⟩ := intText_some hport
  have hplain := intText_plain hport
  have hbr : ∀ c ∈ str ":[]", c ∉ str "@?#" := by decide +kernel
  rcases hostSegs_some hs with h | h
  · constructor
    · rw [h]
      simp only [List.mem_append, List.mem_cons]
      rintro c (hc | rfl | hc)
      · exact d.host_plain c hc
      · exact hbr _ (by decide)
      · exact hplain c hc
    · exact ⟨d.host.bytes ++ ch ':' :: y, ds, by rw [h, hp]; simp, hne, hd⟩
  · constructor
    · rw [h]
      simp only [List.mem_append, List.mem_cons]
      rintro c (rfl | hc | rfl | rfl | hc)
      · exact hbr _ (by decide)
      · exact d.host_plain c hc
      · exact hbr _ (by decide)
      · exact hbr _ (by decide)
      · exact hplain c hc
    · exact ⟨ch '[' :: (d.host.bytes ++ ch ']' :: ch ':' :: y), ds, by rw [h, hp]; simp, hne, hd⟩

theorem method_no (d : SsData) {c : Byte} (hc : c ∈ str ":@?#%") : c ∉ d.method.bytes :=
  fun hm => d.method_plain c hm hc

theorem authority_no (d : SsData) {c : Byte} (hc : c ∈ str "@?#") : c ∉ d.authority.bytes :=
  fun hm => d.authority_plain.1 c hm hc

/-- A spelling has neither a query nor a fragment. -/
theorem spelled_plain (d : SsData) {s : SsSpelling} (h : d.Admits s) : ∀ c ∈ str "?#", c ∉ d.spelled s := by
  intro c hc
  have hdel : c = ch '?' ∨ c = ch '#' := by simpa [str] using hc
  have hsep : c ∈ str "@?#" ∧ c ∈ str ":@?#%" ∧ c ∈ str "@?#:\n\r" ∧ c ∈ str "@?#%" ∧ c ≠ ch ':' ∧ c ≠ ch '@' ∧
      isCodeChar c = false := by
    rcases hdel with rfl | rfl <;> decide +kernel
  obtain ⟨h1, h2, h3, h4, h5, h6, h7⟩ := hsep
  have ha := d.authority_no h1
  have hm := d.method_no h2
  cases s with
  | userStd => simp [spelled, (text_plain d.user).1 c h3, h6, ha]
  | userUrl => simp [spelled, (text_plain d.user).2 c h3, h6, ha]
  | wholeStd => exact (text_plain d.whole).1 c h3
  | wholeUrl => exact (text_plain d.whole).2 c h3
  | percent => simp [spelled, not_mem_encoded h7, h5, h6, ha]
  | raw =>
    have hp : c ∉ d.password.bytes := fun hp => h rfl c hp h4
    simp [spelled, whole, user, hm, h5, hp, h6, ha]

/-- The link ends in a digit or in a character of its base64 text. -/
theorem trim_spelled (d : SsData) (s : SsSpelling) :
    trimLine (str "ss://" ++ d.spelled s) = str "ss://" ++ d.spelled s := by
  obtain ⟨x, ds, hx, hne, hd⟩ := d.authority_plain.2
  have hdig : ∀ a : Bytes, trimLine (a ++ d.authority.bytes) = a ++ d.authority.bytes := by
    intro a
    rw [hx, ← List.append_assoc]
    exact trimLine_append_text _ hne fun c hc => digit_not_eol c (hd c hc)
  have htext : ∀ a : Bytes, (∀ c ∈ str "@?#:\n\r", c ∉ a) → trimLine (str "ss://" ++ a) = str "ss://" ++ a := by
    intro a ha
    have h := trimLine_append_text [] (y := str "ss://" ++ a) (by simp [str]) fun c hc => ?_
    · rwa [List.nil_append] at h
    have hscheme : ∀ c ∈ str "ss://", c ≠ 10 ∧ c ≠ 13 := by decide +kernel
    rcases List.mem_append.1 hc with hc | hc
    · exact hscheme c hc
    · constructor
      · rintro rfl; exact ha 10 (by decide) hc
      · rintro rfl; exact ha 13 (by decide) hc
  cases s with
  | userStd => simpa [spelled] using hdig (str "ss://" ++ (base64Encode d.user .init).bytes ++ [ch '@'])
  | userUrl => simpa [spelled] using hdig (str "ss://" ++ (base64EncodeUrl d.user .init).bytes ++ [ch '@'])
  | wholeStd => exact htext _ (text_plain d.whole).1
  | wholeUrl => exact htext _ (text_plain d.whole).2
  | percent => simpa [spelled] using hdig (str "ss://" ++ (encoded d.method ++ ch ':' :: encoded d.password ++ [ch '@']))
  | raw => simpa [spelled, whole] using hdig (str "ss://" ++ (d.user ++ [ch '@']))

theorem splitLink_plain {m : Bytes} (hq : ch '?' ∉ m) (hf : ch '#' ∉ m) : splitLink m = ⟨m, none, none⟩ := by
  have h := splitLink_join (p := ⟨m, none, none⟩) ⟨by simpa [LinkParts.queryPart] using hf, hq⟩
  rwa [show (⟨m, none, none⟩ : LinkParts).join = m by
    simp [LinkParts.join, LinkParts.queryPart, LinkParts.fragPart]] at h

theorem linkForm_ss {m : Bytes} (hq : ch '?' ∉ m) (hf : ch '#' ∉ m) :
    linkForm (str "ss://" ++ m) = some (.ss ⟨m, none, none⟩) ∧ strayLink (str "ss://" ++ m) = none := by
  have hv : vlessBody (str "ss://" ++ m) = none := rfl
  have hm : stripScheme "vmess://" (str "ss://" ++ m) = none := rfl
  constructor
  · rw [linkForm, hv, hm, stripScheme_append]
    simp only
    rw [splitLink_plain hq hf]
  · rw [strayLink, hv]
    rfl

/-- A spelling is read back exactly when its authority is, and the node is named. -/
theorem reads_iff (d : SsData) (tok : Tokener) {s : SsSpelling} (h : d.Admits s) :
    d.Reads tok s ↔ d.Named ∧ ssAuthority (d.spelled s) = some ((d.method, d.password), (d.host, d.port)) := by
  have hplain := d.spelled_plain h
  obtain ⟨hform, hstray⟩ := linkForm_ss (hplain _ (by decide)) (hplain _ (by decide))
  have hrun := nodeParseShare_eq .machine tok (str "ss://" ++ d.spelled s) [] (by rw [d.trim_spelled s]; exact hstray)
  rw [List.append_nil, d.trim_spelled s, linkRun_form, hform] at hrun
  unfold Reads Named
  rw [hrun]
  simp only [formRun, ssLink]
  rcases ssAuthority (d.spelled s) with _ | ⟨⟨method, password⟩, host, port⟩
  · constructor
    · rintro ⟨n, hn, -⟩
      cases hn
    · rintro ⟨-, hn⟩
      cases hn
  simp only [tailRun, nameRun, fallbackRun]
  by_cases hlen : (fallbackText host port).length ≤ intMax
  · rw [if_pos hlen]
    constructor
    · rintro ⟨n, hn, h1, h2, h3, h4⟩
      cases hn
      cases h1
      cases h2
      cases h3
      cases h4
      exact ⟨hlen, rfl⟩
    · rintro ⟨-, hn⟩
      cases hn
      exact ⟨_, rfl, rfl, rfl, rfl, rfl⟩
  · rw [if_neg hlen]
    constructor
    · rintro ⟨n, hn, -⟩
      cases hn
    · rintro ⟨hname, hn⟩
      cases hn
      exact absurd hname hlen

/-! ## The authority of each spelling -/

/-- The parser does not decode the percent form. -/
theorem ofBytes_encoded_iff {s : CStr} : CStr.ofBytes (encoded s) = s ↔ encoded s = s.bytes := by
  have h0 : (0 : Byte) ∉ encoded s := not_mem_encoded (by decide) s
  constructor
  · intro h
    rw [← congrArg CStr.bytes h, CStr.ofBytes_bytes h0]
  · intro h
    rw [h, CStr.ofBytes_self]

/-- `parse_method_pass` on the text as it stands: the colon keeps it from being base64. -/
theorem methodPass_plain {m p : Bytes} (hm : m ≠ []) (hc : ch ':' ∉ m) :
    methodPass (m ++ ch ':' :: p) = some (CStr.ofBytes m, CStr.ofBytes p) := by
  have hno := b64DecodeCore_refuses alphabet_std (b := m ++ ch ':' :: p) (c := ch ':') (by simp) (by decide) (by decide)
    (by decide +kernel) .init
  unfold methodPass base64Decode
  rcases hd : b64DecodeCore (m ++ ch ':' :: p) .init b64StdChars with ⟨rc, dec⟩
  rw [hd] at hno
  simp only
  rw [if_neg fun h => hno h.1, cut_append hc]
  exact if_neg hm

theorem methodPass_user (d : SsData) : methodPass d.user = some (d.method, d.password) := by
  rw [user, methodPass_plain d.method_ne (d.method_no (by decide)), CStr.ofBytes_self, CStr.ofBytes_self]

/-- `parse_method_pass` on a base64 text of the two. -/
theorem methodPass_decoded (d : SsData) {u : Bytes} (h : base64Decode u .init = (0, Strbuf.init.push d.user)) :
    methodPass u = some (d.method, d.password) := by
  have hc : ch ':' ∈ d.user := by simp [user]
  unfold methodPass
  rw [h]
  simp only [Strbuf.bytes_push, Strbuf.bytes_init, List.nil_append]
  rw [if_pos ⟨trivial, hc⟩, user, cut_append (d.method_no (by decide))]
  simp only [CStr.ofBytes_self]
  exact if_neg d.method_ne

/-- `parse_method_pass` on a text without a colon that is not base64. -/
theorem methodPass_refused {u : Bytes} (hc : ch ':' ∉ u) (h : (base64Decode u .init).1 ≠ 0) : methodPass u = none := by
  unfold methodPass
  rcases hd : base64Decode u .init with ⟨rc, dec⟩
  rw [hd] at h
  simp only
  rw [if_neg fun hrc => h hrc.1, cut_none hc]

/-- The URL-safe text of the user part is read where the standard alphabet shares it. -/
theorem methodPass_url (d : SsData) : methodPass (b64Text b64UrlChars false d.user) = some (d.method, d.password) ↔
    d.Readable .userUrl := by
  rw [Readable, base64EncodeUrl_bytes, shared_url_iff]
  rcases base64Decode_url d.user with ⟨hs, hd⟩ | ⟨hs, hd⟩
  · exact iff_of_true (d.methodPass_decoded hd) hs
  · have hcol := (text_plain d.user).2 (ch ':') (by decide)
    rw [base64EncodeUrl_bytes] at hcol
    rw [methodPass_refused hcol hd]
    exact iff_of_false (by simp) hs

theorem ssAuthority_user (d : SsData) {u : Bytes} (hu : ch '@' ∉ u) {mp : CStr × CStr} :
    ssAuthority (u ++ ch '@' :: d.authority.bytes) = some (mp, (d.host, d.port)) ↔ methodPass u = some mp := by
  rw [ssAuthority, cut_append hu]
  simp only
  rw [ssUser_some, and_iff_left d.reads]

theorem ssAuthority_whole (d : SsData) {w : Bytes} (hw : ch '@' ∉ w)
    (h : base64DecodeUrl w .init = (0, Strbuf.init.push d.whole)) :
    ssAuthority w = some ((d.method, d.password), (d.host, d.port)) := by
  have hat : ch '@' ∉ d.authority.bytes := d.authority_no (by decide)
  have hne : d.user ≠ [] := by simp [user]
  rw [ssAuthority, cut_none hw, h]
  simp only [Strbuf.bytes_push, Strbuf.bytes_init, List.nil_append]
  rw [if_neg (by simp), whole, cutLast_append hat]
  simp only
  rw [if_neg hne]
  exact ssUser_some.2 ⟨d.methodPass_user, d.reads⟩

/-- The standard text of the whole is read where the URL-safe alphabet shares it. -/
theorem ssAuthority_std (d : SsData) :
    ssAuthority (b64Text b64StdChars true d.whole) = some ((d.method, d.password), (d.host, d.port)) ↔
      d.Readable .wholeStd := by
  have hno := (text_plain d.whole).1 (ch '@') (by decide)
  rw [base64Encode_bytes] at hno
  rw [Readable, base64Encode_bytes, shared_std_iff]
  rcases base64DecodeUrl_std d.whole with ⟨hs, hd⟩ | ⟨hs, hd⟩
  · exact iff_of_true (d.ssAuthority_whole hno hd) hs
  · rw [ssAuthority, cut_none hno]
    rcases hx : base64DecodeUrl (b64Text b64StdChars true d.whole) .init with ⟨rc, sb⟩
    rw [hx] at hd
    simp only
    rw [if_pos hd]
    exact iff_of_false (by simp) hs

theorem reads_readable (d : SsData) (tok : Tokener) {s : SsSpelling} (h : d.Admits s) :
    d.Reads tok s ↔ d.Named ∧ d.Readable s := by
  have hat : ∀ b, ch '@' ∉ (base64Encode b .init).bytes ∧ ch '@' ∉ (base64EncodeUrl b .init).bytes :=
    fun b => ⟨(text_plain b).1 _ (by decide), (text_plain b).2 _ (by decide)⟩
  rw [reads_iff d tok h]
  refine and_congr_right fun _ => ?_
  cases s with
  | userStd =>
    refine iff_of_true ((d.ssAuthority_user (hat _).1).2 (d.methodPass_decoded ?_)) trivial
    rw [base64Encode_bytes]
    exact base64Decode_std d.user
  | userUrl => rw [spelled, d.ssAuthority_user (hat _).2, base64EncodeUrl_bytes, methodPass_url]
  | wholeStd => rw [spelled, base64Encode_bytes, ssAuthority_std]
  | wholeUrl =>
    refine iff_of_true (d.ssAuthority_whole (hat _).2 ?_) trivial
    rw [spelled, base64EncodeUrl_bytes]
    exact base64DecodeUrl_url d.whole
  | percent =>
    have hno : ch '@' ∉ encoded d.method ++ ch ':' :: encoded d.password := by
      simp [not_mem_encoded (c := ch '@') (by decide)]
      decide
    rw [spelled, d.ssAuthority_user hno, methodPass_plain (encoded_ne_nil d.method_ne)
      (not_mem_encoded (by decide) d.method), Readable, ← percentText_eq_self_iff,
      ← percentText_eq_self_iff, ← encoded_eq, ← encoded_eq]
    simp only [Option.some.injEq, Prod.mk.injEq, ofBytes_encoded_iff]
  | raw =>
    have hno : ch '@' ∉ d.user := by
      have hp : ch '@' ∉ d.password.bytes := fun hp => h rfl _ hp (by decide)
      have hm : ch '@' ∉ d.method.bytes := d.method_no (by decide)
      simp [user, hm, hp]
      decide
    exact iff_of_true ((d.ssAuthority_user hno).2 d.methodPass_user) trivial

/-- All spellings mean the same node exactly when the URL-safe text of the user part has neither `-` nor
`_`, the standard text of the whole has neither `+` nor `/`, percent coding changes nothing, and the name of the node
can be counted. -/
theorem spellings_iff (d : SsData) (tok : Tokener) : (∀ s, d.Admits s → d.Reads tok s) ↔
    d.Readable .userUrl ∧ d.Readable .wholeStd ∧ d.Readable .percent ∧ d.Named := by
  have hadmits : ∀ s, s ≠ SsSpelling.raw → d.Admits s := fun s hs h => absurd h hs
  have hread : ∀ s, s ≠ SsSpelling.raw → d.Reads tok s → d.Named ∧ d.Readable s := fun s hs =>
    (d.reads_readable tok (hadmits s hs)).1
  constructor
  · intro h
    have h1 := hread .userUrl (by simp) (h _ (hadmits _ (by simp)))
    have h2 := hread .wholeStd (by simp) (h _ (hadmits _ (by simp)))
    have h3 := hread .percent (by simp) (h _ (hadmits _ (by simp)))
    exact ⟨h1.2, h2.2, h3.2, h1.1⟩
  · rintro ⟨h1, h2, h3, hname⟩ s hs
    rw [d.reads_readable tok hs]
    refine ⟨hname, ?_⟩
    cases s with
    | userStd => trivial
    | userUrl => exact h1
    | wholeStd => exact h2
    | wholeUrl => trivial
    | percent => exact h3
    | raw => trivial

/-- The password `>>>`, whose texts have a `+`, a `-` or percent signs. -/
def angle : SsData where
  method := .lit "m"
  password := .lit ">>>"
  authority := .lit "h:1"
  host := .lit "h"
  port := 1
  method_ne := by decide
  method_plain := by decide +kernel
  reads := by decide +kernel
  host_plain := by decide +kernel

/-- Three spellings of one link are refused or read differently. -/
theorem angle_not_uniform : ¬ ((∀ s, angle.Admits s → angle.Reads .refusing s) ∨
    angle.Reads .refusing .userUrl ∨ angle.Reads .refusing .wholeStd ∨ angle.Reads .refusing .percent) := by
  have h1 : ¬ angle.Reads .refusing .userUrl := by
    rw [reads_readable _ _ (by rintro ⟨⟩), Readable]
    exact fun h => absurd h.2 (by decide +kernel)
  have h2 : ¬ angle.Reads .refusing .wholeStd := by
    rw [reads_readable _ _ (by rintro ⟨⟩), Readable]
    exact fun h => absurd h.2 (by decide +kernel)
  have h3 : ¬ angle.Reads .refusing .percent := by
    rw [reads_readable _ _ (by rintro ⟨⟩), Readable]
    exact fun h => absurd h.2 (by decide +kernel)
  rintro (h | h | h | h)
  · exact h1 (h _ (by rintro ⟨⟩))
  · exact h1 h
  · exact h2 h
  · exact h3 h

end SsData

end SubConverter
