/-
When `node_parse_share` faults: a length wraps exactly at a vless or trojan link with its first `@`
in the fragment, and a null pointer is duplicated exactly at the empty parts listed in `NullPart`.
No other fault exists.
-/
import SubConverter.Share.Fields
import SubConverter.Share.Schemes

namespace SubConverter

open CMem

/-! ## Null pointers -/

/-- The name of a link duplicates a null pointer: its fragment is empty, or `server:port` has to stand for it and is
longer than an `int` can count. -/
def NullName (frag : Option Bytes) (server : CStr) (port : Int) : Prop :=
  frag = some [] ∨ ((∀ f, frag = some f → urlRc f ≠ 0) ∧ intMax < (fallbackText server port).length)

/-- The query and fragment of a link whose other parts are accepted duplicate a null pointer. -/
def NullTail (p : LinkParts) (server : CStr) (port : Int) : Prop :=
  match p.query with
  | none => NullName p.frag server port
  | some q => emptyFirstPair (queryPairs q) ∨ (decodePairs (queryPairs q) ≠ none ∧ NullName p.frag server port)

/-- The same for the link `u@h`. -/
def NullUser (p : LinkParts) (u h : Bytes) : Prop :=
  u = [] ∨ (urlRc u = 0 ∧ ∃ host port, hostPort h = some (host, port) ∧ NullTail p host port)

/-- A vless-like link with such a part. -/
def NullVless (p : LinkParts) : Prop := ∃ u h, cut (ch '@') p.main = some (u, h) ∧ NullUser p u h

/-- A vmess body in base64: accepted so far, with an empty `ps`. -/
def EmptyPs (tok : Tokener) (b : Bytes) : Prop :=
  ∃ obj, (base64Decode b .init).1 = 0 ∧ jsonxParse tok (base64Decode b .init).2.data = some obj ∧
    jsonxGetString obj "add" ≠ none ∧ (∃ i, jsonIntField obj "port" = some i ∧ 1 ≤ i ∧ i ≤ 65535) ∧
    ∃ v, jsonxGetString obj "ps" = some v ∧ v.bytes = []

/-- A shadowsocks link with such a part. -/
def NullSs (p : LinkParts) : Prop :=
  ∃ mp host port, ssAuthority p.main = some (mp, (host, port)) ∧ NullTail p host port

/-- The links on which the parsers duplicate a null pointer. -/
def NullPart (tok : Tokener) (b : Bytes) : Prop :=
  match vlessBody b, stripScheme "vmess://" b, stripScheme "ss://" b with
  | some (_, r), _, _ => NullVless (splitLink r)
  | none, some r, _ =>
    let p := splitLink r
    if ch '@' ∈ p.main ++ p.queryPart then NullVless p else EmptyPs tok (p.main ++ p.queryPart)
  | none, none, some r => NullSs (splitLink r)
  | none, none, none => False

theorem urlRc_nil : urlRc [] = 0 := rfl

/-- A fragment that is a name. -/
theorem not_nullName {f : Bytes} (hf : f ≠ []) (hrc : urlRc f = 0) (server : CStr) (port : Int) :
    ¬ NullName (some f) server port := by
  rintro (h | ⟨h, -⟩)
  · exact hf (Option.some.inj h)
  · exact h f rfl hrc

theorem fallbackRun_error_iff {server : CStr} {n : ProxyNode} {e : Fault} :
    fallbackRun server n = .error e ↔ e = .null ∧ intMax < (fallbackText server n.port).length := by
  unfold fallbackRun
  by_cases h : (fallbackText server n.port).length ≤ intMax
  · simp [h]
  · simp [h, not_le.1 h, eq_comm]

theorem nameRun_error_iff {frag : Option Bytes} {server : CStr} {n : ProxyNode} {e : Fault} :
    nameRun frag server n = .error e ↔ e = .null ∧ NullName frag server n.port := by
  unfold NullName
  rcases frag with _ | f
  · simp [nameRun, fallbackRun_error_iff]
  · rw [nameRun, fragName]
    by_cases hrc : urlRc f = 0
    · by_cases hf : f = []
      · simp [hf, urlRc_nil, eq_comm]
      · simp [hrc, hf]
    · have hf : f ≠ [] := by rintro rfl; exact hrc urlRc_nil
      simp [hrc, hf, fallbackRun_error_iff]

theorem tailRun_error_iff {p : LinkParts} {apply : List KvPair → ProxyNode → ProxyNode} {server : CStr}
    {n : ProxyNode} (happly : ∀ ps, (apply ps n).port = n.port) {e : Fault} :
    tailRun p apply server n = .error e ↔ e = .null ∧ NullTail p server n.port := by
  unfold tailRun NullTail
  rcases p.query with _ | q
  · exact nameRun_error_iff
  · simp only [queryRun]
    by_cases hq : emptyFirstPair (queryPairs q)
    · simp [hq, eq_comm]
    · rcases hd : decodePairs (queryPairs q) with _ | pairs
      · simp [hq]
      · simp only [hq, if_false, ok_bind, nameRun_error_iff, happly, false_or, ne_eq, reduceCtorEq,
          not_false_eq_true, true_and]

theorem userLink_error_iff {type : NodeType} {p : LinkParts} {u h : Bytes} {n : ProxyNode} {e : Fault} :
    userLink type p u h n = .error e ↔ e = .null ∧ NullUser p u h := by
  unfold userLink NullUser
  by_cases hu : u = []
  · simp [hu, urlRc_nil, eq_comm]
  -- a refused user part ends the parse before the host is read
  · by_cases hrc : urlRc u = 0
    · rw [if_neg (not_not.2 hrc), if_neg hu]
      rcases hostPort h with _ | ⟨host, port⟩
      · simp [hu]
      · simp [hu, hrc, tailRun_error_iff fun ps => applyQuery_port ps _]
    · simp [hu, hrc]

theorem vlessLink_error_iff {type : NodeType} {p : LinkParts} {n : ProxyNode} {e : Fault} :
    vlessLink type p n = .error e ↔ e = .null ∧ NullVless p := by
  unfold vlessLink NullVless
  rcases cut (ch '@') p.main with _ | ⟨u, h⟩
  · simp
  · simp only [userLink_error_iff, Option.some.injEq, Prod.mk.injEq]
    constructor
    · rintro ⟨he, hu⟩; exact ⟨he, u, h, ⟨rfl, rfl⟩, hu⟩
    · rintro ⟨he, _, _, ⟨rfl, rfl⟩, hu⟩; exact ⟨he, hu⟩

theorem ssLink_error_iff {p : LinkParts} {n : ProxyNode} {e : Fault} :
    ssLink p n = .error e ↔ e = .null ∧ NullSs p := by
  unfold ssLink NullSs
  rcases ssAuthority p.main with _ | ⟨⟨method, password⟩, host, port⟩
  · simp
  · simp [tailRun_error_iff fun ps => applySsQuery_port ps _]

/-- A given name is decoded, or kept when an escape is bad; an empty one is a null pointer. -/
theorem vmessName_given {obj : Json} {v : CStr} (h : jsonxGetString obj "ps" = some v) (n : ProxyNode) :
    vmessName obj n = if v.bytes = [] then .error .null
      else .ok { n with name := some (if urlRc v.bytes = 0 then CStr.ofBytes (urlText v.bytes).1 else v) } := by
  have hd := urlDecode_eq v.bytes [] .init
  rw [List.append_nil] at hd
  unfold vmessName
  simp only [h, hd, ok_bind]
  by_cases hrc : urlRc v.bytes = 0
  · rw [if_pos hrc, xstrdup_push hrc, if_pos hrc]
    by_cases hv : v.bytes = []
    · rw [if_pos hv, if_pos hv]
      rfl
    · rw [if_neg hv, if_neg hv]
      rfl
  · have hv : v.bytes ≠ [] := by
      intro hv
      rw [hv] at hrc
      exact hrc urlRc_nil
    rw [if_neg hrc, if_neg hv, if_neg hrc]

theorem length_fallbackText {server : CStr} {port : Int} (h : 1 ≤ port ∧ port ≤ 65535) :
    (fallbackText server port).length ≤ server.bytes.length + 6 := by
  obtain ⟨n, rfl⟩ := Int.eq_ofNat_of_zero_le (by omega : 0 ≤ port)
  have hlen := (length_decimal_le_iff (n := n) (k := 5) (by decide)).2 (by omega)
  rw [fallbackText, List.length_append, List.length_cons]
  show _ + ((decimal n).length + 1) ≤ _
  omega

/-- A name made of a server and a port is none too long where the server stands in a JSON text. -/
theorem setNameFallback_json {obj : Json} (hobj : obj.size ≤ intMax) {n : ProxyNode} {server : CStr}
    (hadd : jsonxGetString obj "add" = some server) (hserver : n.server = some server)
    (hport : 1 ≤ n.port ∧ n.port ≤ 65535) :
    setNameFallback n = .ok { n with name := some (fallbackName server n.port) } := by
  have hsize := jsonxGetString_size hadd
  have hlen := @length_fallbackText server _ hport
  have hfits : (server.bytes ++ ch ':' :: decimalInt n.port).length ≤ intMax := by
    rw [fallbackText] at hlen
    omega
  unfold setNameFallback
  simp only [hserver]
  rw [Strbuf.appendf_eq _ hfits]
  rfl

theorem vmessName_error_iff {obj : Json} (hobj : obj.size ≤ intMax) {n : ProxyNode} {server : CStr}
    (hadd : jsonxGetString obj "add" = some server) (hserver : n.server = some server)
    (hport : 1 ≤ n.port ∧ n.port ≤ 65535) {e : Fault} :
    vmessName obj n = .error e ↔ e = .null ∧ ∃ v, jsonxGetString obj "ps" = some v ∧ v.bytes = [] := by
  rcases hps : jsonxGetString obj "ps" with _ | v
  · simp [vmessName, hps, setNameFallback_json hobj hadd hserver hport]
  · rw [vmessName_given hps]
    by_cases hv : v.bytes = []
    · simp [hv, eq_comm]
    · simp [hv]

theorem parseVmessJson_error_iff {tok : Tokener} {b : Bytes} {e : Fault} :
    parseVmessJson tok b b.length nodeInit = .error e ↔ e = .null ∧ EmptyPs tok b := by
  unfold parseVmessJson EmptyPs
  rw [slice_self, ok_bind]
  rcases base64Decode b .init with ⟨rc, sb⟩
  simp only
  by_cases hrc : rc = 0
  swap
  · simp [hrc]
  rcases hobj : jsonxParse tok sb.data with _ | obj
  · simp [hrc]
  have hport : (1 ≤ (jsonIntField obj "port").getD (-1) ∧ (jsonIntField obj "port").getD (-1) ≤ 65535) ↔
      ∃ i, jsonIntField obj "port" = some i ∧ 1 ≤ i ∧ i ≤ 65535 := by
    rcases jsonIntField obj "port" with _ | i <;> simp
  rw [if_neg (not_not.2 hrc)]
  simp only [hrc, true_and, Option.some.injEq, exists_eq_left']
  rw [← hport]
  by_cases hno : ((jsonxGetString obj "add").or nodeInit.server) = none ∨ (jsonIntField obj "port").getD (-1) < 1 ∨
      (jsonIntField obj "port").getD (-1) > 65535
  -- the server or port check refuses the body, so the name is never set
  · rw [if_pos hno]
    simp only [nodeInit, Option.or_none] at hno
    constructor
    · intro h; cases h
    · rintro ⟨-, h1, ⟨h2, h3⟩, -⟩
      rcases hno with h | h | h
      · exact absurd h h1
      · omega
      · omega
  · rw [if_neg hno]
    simp only [nodeInit, Option.or_none, not_or, not_lt, gt_iff_lt] at hno
    obtain ⟨server, hadd⟩ := Option.ne_none_iff_exists'.1 hno.1
    have hname := @vmessName_error_iff obj (jsonxParse_size hobj)
      (vmessFields obj { nodeInit with type := .vmess, udp := true, cipher := some (CStr.lit "auto"),
                                       server := (jsonxGetString obj "add").or nodeInit.server,
                                       port := (jsonIntField obj "port").getD (-1) })
      server hadd (by rw [vmessFields_eq, hadd]; rfl) (by rw [vmessFields_eq]; exact hno.2) e
    rw [bind_error_iff, hname]
    simp [hno, and_comm]

theorem vmessLink_error_iff {tok : Tokener} {p : LinkParts} {e : Fault} :
    vmessLink tok p nodeInit = .error e ↔ e = .null ∧
      if ch '@' ∈ p.main ++ p.queryPart then NullVless p else EmptyPs tok (p.main ++ p.queryPart) := by
  unfold vmessLink
  split
  · rw [bind_error_iff, vlessLink_error_iff]
    constructor
    · rintro (h | ⟨r, -, h⟩)
      · exact h
      · cases r <;> cases h
    · exact .inl
  · exact parseVmessJson_error_iff

/-- The only fault of a link without a stray `@` is a null pointer, at an empty part. -/
theorem linkRun_error_iff {tok : Tokener} {b : Bytes} {e : Fault} :
    linkRun tok b = .error e ↔ e = .null ∧ NullPart tok b := by
  unfold linkRun NullPart
  rcases vlessBody b with _ | ⟨type, r⟩
  · rcases stripScheme "vmess://" b with _ | r
    · rcases stripScheme "ss://" b with _ | r
      · simp
      · exact ssLink_error_iff
    · exact vmessLink_error_iff
  · exact vlessLink_error_iff

end SubConverter
