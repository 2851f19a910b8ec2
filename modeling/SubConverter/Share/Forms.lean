/-
The three forms of a link: `user@host:port`, the shadowsocks authority and the vmess JSON in base64.
For each, when it is accepted and the node it then gives.
-/
import SubConverter.C.Number
import SubConverter.Share.Faults

namespace SubConverter

open CMem

/-! ## Host and port -/

/-- The host and the port of a `host:port` text, unchecked. -/
def hostSegs (b : Bytes) : Option (Bytes × Bytes) :=
  if b.head? = some (ch '[') then
    match cut (ch ']') b.tail with
    | some (host, d :: port) => if d = ch ':' then some (host, port) else none
    | _ => none
  else cutLast (ch ':') b

theorem hostPort_segs (b : Bytes) : hostPort b = (hostSegs b).bind fun x => hostPortSegs x.1 x.2 := by
  unfold hostPort hostSegs
  split
  · rcases cut (ch ']') b.tail with _ | ⟨host, _ | ⟨d, port⟩⟩
    · rfl
    · rfl
    · simp only
      split <;> rfl
  · cases cutLast (ch ':') b <;> rfl

theorem hostPortOf_some {x p : Bytes} {host : CStr} {port : Int} : hostPortOf x p = some (host, port) ↔
    host = CStr.ofBytes x ∧ intText (CStr.ofBytes p).bytes = some port ∧ 1 ≤ port ∧ port ≤ 65535 := by
  unfold hostPortOf
  rcases strtol_intText (CStr.ofBytes p).bytes with ⟨i, hi, hs, hne⟩ | ⟨hi, hs⟩
  · have hpos := List.length_pos_iff.2 hne
    simp only [hs, hi]
    constructor
    · intro h
      split at h
      · cases h
      · rename_i hok
        cases h
        -- a value that saturates is out of range
        unfold clampLong longMin longMax at hok ⊢
        refine ⟨rfl, congrArg some ?_, ?_, ?_⟩ <;> omega
    · rintro ⟨rfl, hport, h1, h2⟩
      cases hport
      rw [clampLong_of_mem (by unfold longMin longMax; omega), if_neg (by omega)]
  · simp only [hi]
    constructor
    · intro h
      rw [if_pos (by tauto)] at h
      cases h
    · rintro ⟨-, h, -⟩
      cases h

theorem hostPort_some {b : Bytes} {host : CStr} {port : Int} : hostPort b = some (host, port) ↔
    ∃ x p, hostSegs b = some (x, p) ∧ x ≠ [] ∧ p.length < 16 ∧ host = CStr.ofBytes x ∧
      intText (CStr.ofBytes p).bytes = some port ∧ 1 ≤ port ∧ port ≤ 65535 := by
  rw [hostPort_segs]
  constructor
  · intro h
    obtain ⟨⟨x, p⟩, hs, h⟩ := Option.bind_eq_some_iff.1 h
    unfold hostPortSegs at h
    split at h
    · cases h
    · rename_i hok
      push Not at hok
      exact ⟨x, p, hs, hok.1, hok.2.2, hostPortOf_some.1 h⟩
  · rintro ⟨x, p, hs, hx, hlen, h⟩
    have hp : p ≠ [] := by
      rintro rfl
      cases h.2.1
    rw [hs, Option.bind_some, hostPortSegs, if_neg (by simp only [not_or]; exact ⟨hx, hp, by omega⟩)]
    exact hostPortOf_some.2 h

/-! ## Query and name -/

/-- The parameters of a link. -/
def linkPairs (p : LinkParts) : Option (List KvPair) :=
  match p.query with
  | none => some []
  | some q => decodePairs (queryPairs q)

/-- The name of a link. -/
def linkName (frag : Option Bytes) (server : CStr) (port : Int) : CStr :=
  match frag with
  | none => fallbackName server port
  | some f => if urlRc f = 0 then CStr.ofBytes (urlText f).1 else fallbackName server port

theorem fallbackRun_some {server : CStr} {n m : ProxyNode} :
    fallbackRun server n = .ok (some m) ↔
      ¬ intMax < (fallbackText server n.port).length ∧ m = { n with name := some (fallbackName server n.port) } := by
  unfold fallbackRun
  by_cases h : (fallbackText server n.port).length ≤ intMax
  · simp [h, eq_comm]
  · simp [h, not_le.1 h]

theorem nameRun_some {frag : Option Bytes} {server : CStr} {n m : ProxyNode} :
    nameRun frag server n = .ok (some m) ↔
      ¬ NullName frag server n.port ∧ m = { n with name := some (linkName frag server n.port) } := by
  unfold NullName
  rcases frag with _ | f
  · simp [nameRun, linkName, fallbackRun_some]
  · unfold nameRun fragName linkName
    by_cases hrc : urlRc f = 0
    · by_cases hf : f = []
      · subst hf; simp [urlRc_nil]
      · simp [hrc, hf, eq_comm]
    · have hf : f ≠ [] := by rintro rfl; exact hrc urlRc_nil
      simp [hrc, hf, fallbackRun_some]

theorem tailRun_some {p : LinkParts} {apply : List KvPair → ProxyNode → ProxyNode} (h0 : ∀ n, apply [] n = n)
    (hport : ∀ ps n, (apply ps n).port = n.port) {server : CStr} {n m : ProxyNode} :
    tailRun p apply server n = .ok (some m) ↔ ¬ NullTail p server n.port ∧
      ∃ pairs, linkPairs p = some pairs ∧ m = { apply pairs n with name := some (linkName p.frag server n.port) } := by
  unfold tailRun NullTail linkPairs
  rcases p.query with _ | q
  · simp [nameRun_some, h0]
  · simp only [queryRun]
    by_cases hq : emptyFirstPair (queryPairs q)
    · simp [hq]
    · rcases decodePairs (queryPairs q) with _ | pairs
      · simp [hq]
      · simp [hq, nameRun_some, hport]

/-! ## Forms -/

inductive LinkForm
  | user (type : NodeType) (p : LinkParts)
  | json (text : Bytes)
  | ss (p : LinkParts)

/-- The type of the node a form gives. -/
def LinkForm.type : LinkForm → NodeType
  | user type _ => type
  | json _ => .vmess
  | ss _ => .shadowsocks

/-- The form of a line, `none` without a known scheme. -/
def linkForm (b : Bytes) : Option LinkForm :=
  match vlessBody b, stripScheme "vmess://" b, stripScheme "ss://" b with
  | some (type, r), _, _ => some (.user type (splitLink r))
  | none, some r, _ =>
    let p := splitLink r
    some (if ch '@' ∈ p.main ++ p.queryPart then .user .vmess p else .json (p.main ++ p.queryPart))
  | none, none, some r => some (.ss (splitLink r))
  | none, none, none => none

/-- A vmess link in the `@` form has no cipher of its own. -/
def withCipher (type : NodeType) (n : ProxyNode) : ProxyNode :=
  if type = .vmess then { n with cipher := some (CStr.lit "auto") } else n

/-- What the parser of a form returns. -/
def formRun (tok : Tokener) : Option LinkForm → Run (Option ProxyNode)
  | some (.user type p) => Option.map (withCipher type) <$> vlessLink type p nodeInit
  | some (.json t) => parseVmessJson tok t t.length nodeInit
  | some (.ss p) => ssLink p nodeInit
  | none => .ok none

theorem vlessBody_type {b r : Bytes} {type : NodeType} (h : vlessBody b = some (type, r)) :
    type = .vless ∨ type = .trojan := by
  unfold vlessBody at h
  split at h
  · cases h; exact .inl rfl
  · obtain ⟨x, -, hx⟩ := Option.map_eq_some_iff.1 h
    cases hx; exact .inr rfl

theorem linkRun_form (tok : Tokener) (b : Bytes) : linkRun tok b = formRun tok (linkForm b) := by
  unfold linkRun linkForm
  rcases hv : vlessBody b with _ | ⟨type, r⟩
  · rcases stripScheme "vmess://" b with _ | r
    · cases stripScheme "ss://" b <;> rfl
    · simp only [vmessLink]
      split
      · simp only [formRun]
        rcases vlessLink .vmess (splitLink r) nodeInit with e | _ | n <;> rfl
      · rfl
  · simp only [formRun]
    have hw : withCipher type = id := by
      funext n
      rcases vlessBody_type hv with rfl | rfl <;> rfl
    rw [hw]
    rcases vlessLink type (splitLink r) nodeInit with e | _ | n <;> rfl

theorem linkForm_user {b : Bytes} {type : NodeType} {p : LinkParts} (h : linkForm b = some (.user type p)) :
    type = .vless ∨ type = .trojan ∨ type = .vmess := by
  unfold linkForm at h
  split at h
  · rename_i hv
    cases h
    rcases vlessBody_type hv with h | h
    · exact .inl h
    · exact .inr (.inl h)
  · simp only at h
    split at h
    · cases h; exact .inr (.inr rfl)
    · cases h
  · cases h
  · cases h

theorem nullPart_form (tok : Tokener) (b : Bytes) : NullPart tok b ↔
    match linkForm b with
    | some (.user _ p) => NullVless p
    | some (.json t) => EmptyPs tok t
    | some (.ss p) => NullSs p
    | none => False := by
  unfold NullPart linkForm
  rcases vlessBody b with _ | ⟨type, r⟩
  · rcases stripScheme "vmess://" b with _ | r
    · cases stripScheme "ss://" b <;> rfl
    · simp only
      split
      · rfl
      · rfl
  · rfl

/-! ## The nodes they give -/

/-- The node of a link `user@host:port`. -/
def userNode (type : NodeType) (cred host : CStr) (port : Int) (frag : Option Bytes) (pairs : List KvPair) :
    ProxyNode :=
  { applyQuery pairs { credNode type cred nodeInit with server := some host, port := port } with
    name := some (linkName frag host port) }

/-- What the parameters leave as it is. -/
theorem userNode_keeps (type : NodeType) (cred host : CStr) (port : Int) (frag : Option Bytes) (pairs : List KvPair) :
    (withCipher type (userNode type cred host port frag pairs)).type = type ∧
      (withCipher type (userNode type cred host port frag pairs)).server = some host ∧
      (withCipher type (userNode type cred host port frag pairs)).port = port ∧
      (withCipher type (userNode type cred host port frag pairs)).alterId = 0 := by
  unfold withCipher userNode credNode
  rw [applyQuery_eq]
  split_ifs <;> exact ⟨rfl, rfl, rfl, rfl⟩

theorem userLink_some {type : NodeType} {p : LinkParts} {u h : Bytes} {m : ProxyNode} :
    userLink type p u h nodeInit = .ok (some m) ↔ (¬ NullUser p u h ∧ urlRc u = 0) ∧
      ∃ host port pairs, hostPort h = some (host, port) ∧ linkPairs p = some pairs ∧
        m = userNode type (CStr.ofBytes (urlText u).1) host port p.frag pairs := by
  unfold userLink NullUser
  by_cases hu : u = []
  · simp [hu, urlRc_nil]
  by_cases hrc : urlRc u = 0
  · rw [if_neg (not_not.2 hrc), if_neg hu]
    rcases hostPort h with _ | ⟨host, port⟩
    · simp
    · rw [@tailRun_some _ applyQuery (fun _ => rfl) applyQuery_port]
      simp [userNode, hu, hrc]
  · simp [hrc, hu]

theorem vlessLink_some {type : NodeType} {p : LinkParts} {m : ProxyNode} :
    vlessLink type p nodeInit = .ok (some m) ↔ ∃ u h, cut (ch '@') p.main = some (u, h) ∧
      (¬ NullUser p u h ∧ urlRc u = 0) ∧ ∃ host port pairs, hostPort h = some (host, port) ∧
        linkPairs p = some pairs ∧ m = userNode type (CStr.ofBytes (urlText u).1) host port p.frag pairs := by
  unfold vlessLink
  rcases cut (ch '@') p.main with _ | ⟨u, h⟩
  · simp
  · simp only [userLink_some]
    constructor
    · intro hm
      exact ⟨u, h, rfl, hm⟩
    · rintro ⟨u', h', huh, hm⟩
      cases huh
      exact hm

/-- The `host:port` text of a shadowsocks authority, plain or in base64. -/
def ssHost (m : Bytes) : Option Bytes :=
  match cut (ch '@') m with
  | some (_, h) => some h
  | none => (cutLast (ch '@') (base64DecodeUrl m .init).2.bytes).map Prod.snd

theorem ssUser_some {u h : Bytes} {mp : CStr × CStr} {hp : CStr × Int} :
    ssUser u h = some (mp, hp) ↔ methodPass u = some mp ∧ hostPort h = some hp := by
  unfold ssUser
  rcases methodPass u with _ | mp'
  · simp
  · rcases hostPort h with _ | hp' <;> simp

theorem ssAuthority_host {m : Bytes} {mp : CStr × CStr} {hp : CStr × Int} (h : ssAuthority m = some (mp, hp)) :
    ∃ t, ssHost m = some t ∧ hostPort t = some hp := by
  unfold ssAuthority at h
  unfold ssHost
  rcases hc : cut (ch '@') m with _ | ⟨u, t⟩
  · rcases hd : base64DecodeUrl m .init with ⟨rc, sb⟩
    rw [hc, hd] at h
    simp only at h ⊢
    by_cases hrc : rc = 0
    · rw [if_neg (not_not.2 hrc)] at h
      rcases hl : cutLast (ch '@') sb.bytes with _ | ⟨u, t⟩
      · rw [hl] at h; cases h
      · rw [hl] at h
        simp only at h
        by_cases hu : u = []
        · rw [if_pos hu] at h; cases h
        · rw [if_neg hu] at h
          exact ⟨t, rfl, (ssUser_some.1 h).2⟩
    · rw [if_pos hrc] at h; cases h
  · rw [hc] at h
    exact ⟨t, rfl, (ssUser_some.1 h).2⟩

/-- The node of a shadowsocks link. -/
def ssNode (method password host : CStr) (port : Int) (frag : Option Bytes) (pairs : List KvPair) : ProxyNode :=
  { applySsQuery pairs { nodeInit with type := .shadowsocks, udp := true, cipher := some method,
                                       password := some password, server := some host, port := port } with
    name := some (linkName frag host port) }

theorem ssNode_eq (method password host : CStr) (port : Int) (frag : Option Bytes) (pairs : List KvPair) :
    ssNode method password host port frag pairs =
      { nodeInit with type := .shadowsocks, udp := true, cipher := some method, password := some password,
                      server := some host, port := port, name := some (linkName frag host port),
                      plugin := lastValue pairs "plugin", pluginOpts := lastOpts pairs } := by
  rw [ssNode, applySsQuery_eq]
  simp only [nodeInit, Option.or_none]

theorem ssLink_some {p : LinkParts} {m : ProxyNode} : ssLink p nodeInit = .ok (some m) ↔ ¬ NullSs p ∧
    ∃ method password host port pairs, ssAuthority p.main = some ((method, password), (host, port)) ∧
      linkPairs p = some pairs ∧ m = ssNode method password host port p.frag pairs := by
  unfold ssLink NullSs
  rcases ssAuthority p.main with _ | ⟨⟨method, password⟩, host, port⟩
  · simp
  · simp only
    rw [@tailRun_some _ applySsQuery (fun _ => rfl) applySsQuery_port]
    simp only [ssNode]
    constructor
    · rintro ⟨ht, pairs, hp, rfl⟩
      refine ⟨?_, method, password, host, port, pairs, rfl, hp, rfl⟩
      rintro ⟨_, _, _, hauth, hnull⟩
      cases hauth
      exact ht hnull
    · rintro ⟨ht, _, _, _, _, pairs, hauth, hp, rfl⟩
      cases hauth
      exact ⟨fun hnull => ht ⟨_, _, _, rfl, hnull⟩, pairs, hp, rfl⟩

/-- What the vmess JSON of an accepted body gives. -/
structure VmessJson (tok : Tokener) (t : Bytes) (obj : Json) (server : CStr) (port : Int) : Prop where
  decodes : (base64Decode t .init).1 = 0
  parsed : jsonxParse tok (base64Decode t .init).2.data = some obj
  add : jsonxGetString obj "add" = some server
  number : jsonIntField obj "port" = some port
  range : 1 ≤ port ∧ port ≤ 65535

/-- The node of a vmess JSON. -/
def jsonNode (obj : Json) (server : CStr) (port : Int) (name : CStr) : ProxyNode :=
  { vmessFields obj { nodeInit with type := .vmess, udp := true, cipher := some (CStr.lit "auto"),
                                    server := some server, port := port } with
    name := some name }

/-- The `ps` field as the name. -/
def jsonName (obj : Json) (server : CStr) (port : Int) : CStr :=
  match jsonxGetString obj "ps" with
  | none => fallbackName server port
  | some v => if urlRc v.bytes = 0 then CStr.ofBytes (urlText v.bytes).1 else v

theorem vmessName_ok {obj : Json} (hobj : obj.size ≤ intMax) {n m : ProxyNode} {server : CStr}
    (hadd : jsonxGetString obj "add" = some server) (hs : n.server = some server) (hport : 1 ≤ n.port ∧ n.port ≤ 65535) :
    vmessName obj n = .ok m ↔ (∀ v, jsonxGetString obj "ps" = some v → v.bytes ≠ []) ∧
      m = { n with name := some (jsonName obj server n.port) } := by
  unfold jsonName
  rcases hps : jsonxGetString obj "ps" with _ | v
  · simp [vmessName, hps, setNameFallback_json hobj hadd hs hport, eq_comm]
  · rw [vmessName_given hps]
    by_cases hv : v.bytes = []
    · simp [hv]
    · simp [hv, eq_comm]

theorem parseVmessJson_some {tok : Tokener} {t : Bytes} {m : ProxyNode} :
    parseVmessJson tok t t.length nodeInit = .ok (some m) ↔ ∃ obj server port, VmessJson tok t obj server port ∧
      (∀ v, jsonxGetString obj "ps" = some v → v.bytes ≠ []) ∧
        m = jsonNode obj server port (jsonName obj server port) := by
  unfold parseVmessJson
  rw [slice_self, ok_bind]
  constructor
  · intro h
    rcases hd : base64Decode t .init with ⟨rc, sb⟩
    rw [hd] at h
    simp only at h
    split at h
    · cases h
    rename_i hrc
    split at h
    · cases h
    rename_i obj hobj
    rw [show nodeInit.server = none from rfl, Option.or_none] at h
    rcases hadd : jsonxGetString obj "add" with _ | server
    · simp [hadd] at h
    rcases hport : jsonIntField obj "port" with _ | port
    · simp [hport] at h
    simp only [hadd, hport, Option.getD_some, reduceCtorEq, false_or] at h
    split at h
    · cases h
    rename_i hr
    obtain ⟨n, hn, h⟩ := bind_ok_iff.1 h
    cases h
    obtain ⟨hps, rfl⟩ := (@vmessName_ok obj (jsonxParse_size hobj) _ _ server hadd (by rw [vmessFields_eq])
      (by rw [vmessFields_eq]; simp only; omega)).1 hn
    refine ⟨obj, server, port, ⟨by rw [hd]; exact not_not.1 hrc, by rw [hd]; exact hobj, hadd, hport, by omega⟩, hps, ?_⟩
    rw [jsonNode, show (vmessFields obj _).port = port by rw [vmessFields_eq]]
  · rintro ⟨obj, server, port, hj, hps, rfl⟩
    simp only [hj.decodes, ne_eq, not_true_eq_false, if_false, hj.parsed, hj.add, Option.some_or, hj.number,
      Option.getD_some, reduceCtorEq, false_or]
    have hr := hj.range
    rw [if_neg (by omega), (@vmessName_ok obj (jsonxParse_size hj.parsed) _ _ server hj.add (by rw [vmessFields_eq])
      (by rw [vmessFields_eq]; exact hr)).2 ⟨hps, rfl⟩, ok_bind, jsonNode, show (vmessFields obj _).port = port by rw [vmessFields_eq]]

/-! ## Their types -/

theorem formRun_user {tok : Tokener} {type : NodeType} {p : LinkParts} {m : ProxyNode} :
    formRun tok (some (.user type p)) = .ok (some m) ↔
      ∃ n, vlessLink type p nodeInit = .ok (some n) ∧ withCipher type n = m := by
  simp only [formRun]
  rcases vlessLink type p nodeInit with e | _ | n <;> simp

theorem formRun_type {tok : Tokener} {f : LinkForm} {m : ProxyNode} (h : formRun tok (some f) = .ok (some m)) :
    m.type = f.type := by
  cases f with
  | user type p =>
    obtain ⟨n, hn, rfl⟩ := formRun_user.1 h
    obtain ⟨u, t, -, -, host, port, pairs, -, -, rfl⟩ := vlessLink_some.1 hn
    exact (userNode_keeps ..).1
  | json t =>
    obtain ⟨obj, server, port, -, -, rfl⟩ := parseVmessJson_some.1 h
    rw [jsonNode, vmessFields_eq]
    rfl
  | ss p =>
    obtain ⟨-, method, password, host, port, pairs, -, -, rfl⟩ := ssLink_some.1 h
    rw [ssNode_eq]
    rfl

end SubConverter
