/-
What `node_parse_share` computes on a line, whatever lies behind the line in memory: the shadowsocks
and vmess parsers, the choice by scheme, and the one kind of link whose lengths wrap.
-/
import SubConverter.Share.Link

namespace SubConverter

open CMem

/-! ## shadowsocks -/

/-- What `parse_method_pass` returns on a segment: `method:password`, in base64 or as it stands. -/
def methodPass (u : Bytes) : Option (CStr × CStr) :=
  let (rc, dec) := base64Decode u .init
  match cut (ch ':') (if rc = 0 ∧ ch ':' ∈ dec.bytes then dec.bytes else u) with
  | some (m, pw) => if m = [] then none else some (CStr.ofBytes m, CStr.ofBytes pw)
  | none => none

/-- The authority `u@h` of a shadowsocks link. -/
def ssUser (u h : Bytes) : Option ((CStr × CStr) × (CStr × Int)) :=
  (methodPass u).bind fun mp => (hostPort h).map fun hp => (mp, hp)

/-- What the authority of a shadowsocks link says, in plain or in base64. -/
def ssAuthority (m : Bytes) : Option ((CStr × CStr) × (CStr × Int)) :=
  match cut (ch '@') m with
  | some (u, h) => ssUser u h
  | none =>
    let (rc, sb) := base64DecodeUrl m .init
    if rc ≠ 0 then none
    else
      match cutLast (ch '@') sb.bytes with
      | some (u, h) => if u = [] then none else ssUser u h
      | none => none

def ssLink (p : LinkParts) (n : ProxyNode) : Run (Option ProxyNode) :=
  match ssAuthority p.main with
  | none => .ok none
  | some ((method, password), (host, port)) =>
    tailRun p applySsQuery host
      { n with type := .shadowsocks, udp := true, cipher := some method, password := some password,
               server := some host, port := port }

theorem xstrdup_appendBytes_init (b : Bytes) : xstrdup (Strbuf.init.appendBytes b).data = .ok (CStr.ofBytes b) := rfl

theorem parseMethodPass_eq (σ : Arith) (u t : Bytes) : parseMethodPass σ (u ++ t) u.length = .ok (methodPass u) := by
  unfold parseMethodPass methodPass
  rw [slice_append, ok_bind]
  rcases base64Decode u .init with ⟨rc, dec⟩
  simp only
  generalize (if rc = 0 ∧ ch ':' ∈ dec.bytes then dec.bytes else u) = body
  rcases first_split (ch ':') body with hb | ⟨m, pw, rfl, hm⟩
  · have := scan_miss_zero (y := []) hb
    rw [List.append_nil] at this
    rw [this, ok_bind, cut_none hb]; simp
  · have hd : (m ++ ch ':' :: pw).drop (m.length + 1) = pw := by
      rw [← List.drop_drop, List.drop_left]; rfl
    rw [scan_hit_zero hm (by simp), ok_bind, cut_append hm]
    simp only [Option.getD_some]
    by_cases hme : m = []
    · rw [if_pos (by simp [hme]), if_pos hme]
    · rw [if_neg (by simp [hme]), slice_append, ok_bind, xstrdup_appendBytes_init, ok_bind, usub_le σ (by simp),
        ok_bind, usub_le σ (by simp), ok_bind, hd, show (m ++ ch ':' :: pw).length - m.length - 1 = pw.length by simp,
        slice_self, ok_bind, xstrdup_appendBytes_init, ok_bind, if_neg hme]

theorem ssUser_eq (σ : Arith) (u h t t' : Bytes) {len : Nat} (hlen : len = u.length + 1 + h.length) :
    (do
      match ← parseMethodPass σ (u ++ t) u.length with
      | none => .ok none
      | some mp => do
        match ← parseHostPort σ (h ++ t') (← usub σ (← usub σ len u.length) 1) with
        | none => .ok none
        | some hp => .ok (some (mp, hp)) : Run (Option ((CStr × CStr) × (CStr × Int)))) = .ok (ssUser u h) := by
  rw [parseMethodPass_eq, ok_bind, ssUser]
  cases methodPass u with
  | none => rfl
  | some mp =>
    simp only
    rw [usub_le σ (by omega), ok_bind, usub_le σ (by omega), ok_bind,
      show len - u.length - 1 = h.length by omega, parseHostPort_eq, ok_bind]
    cases hostPort h <;> rfl

theorem parseSsAuthority_at (σ : Arith) {u h : Bytes} (t : Bytes) {len : Nat} (hlen : u.length < len) :
    parseSsAuthority σ (u ++ ch '@' :: h ++ t) len (u ++ ch '@' :: h).length u.length = .ok (ssUser u h) := by
  have hd : (u ++ ch '@' :: h ++ t).drop (u.length + 1) = h ++ t := by
    rw [List.append_assoc, ← List.drop_drop, List.drop_left]; rfl
  have := ssUser_eq σ u h (ch '@' :: h ++ t) t (show (u ++ ch '@' :: h).length = _ by simp; omega)
  rw [parseSsAuthority, if_pos hlen, hd, List.append_assoc]
  exact this

theorem parseSsAuthority_base64 (σ : Arith) {m : Bytes} (hm : ch '@' ∉ m) (t : Bytes) (len : Nat) :
    parseSsAuthority σ (m ++ t) len m.length len = .ok (ssAuthority m) := by
  rw [parseSsAuthority, if_neg (lt_irrefl _), slice_append, ok_bind, ssAuthority, cut_none hm]
  rcases base64DecodeUrl m .init with ⟨rc, sb⟩
  simp only
  by_cases hrc : rc = 0
  swap
  · rw [if_pos hrc, if_pos hrc]
  rw [if_neg (not_not.2 hrc), if_neg (not_not.2 hrc), Strbuf.len]
  generalize sb.bytes = b
  -- the decoded text is cut at its last `@`, the plain authority at its first
  rcases last_split (ch '@') b with hb | ⟨u, h, rfl, hh⟩
  · have := scanLast_miss (p := []) (y := []) (o := none) hb
    simp only [List.nil_append, List.append_nil, List.length_nil] at this
    rw [this, ok_bind, cutLast_none hb]
  · have := scanLast_hit (p := []) (x := u) (y := []) (o := none) hh
    simp only [List.nil_append, List.append_nil, List.length_nil, Nat.zero_add] at this
    have hd : (u ++ ch '@' :: h).drop (u.length + 1) = h ++ [] := by
      rw [← List.drop_drop, List.drop_left]; simp
    have hu := ssUser_eq σ u h (ch '@' :: h) [] rfl
    rw [show (u ++ ch '@' :: h).length = u.length + 1 + h.length by simp; omega, this, ok_bind, cutLast_append hh]
    simp only [List.length_eq_zero_iff]
    by_cases hue : u = []
    · rw [if_pos hue, if_pos hue]
    · rw [if_neg hue, if_neg hue, hd]; exact hu

theorem parseSs_eq (σ : Arith) {p : LinkParts} (hp : p.WF) (t : Bytes) (n : ProxyNode) :
    parseSs σ (p.join ++ t) p.join.length n = ssLink p n := by
  obtain ⟨i, hi, hfrag⟩ := LinkParts.scan_hash hp t
  obtain ⟨j, hj, hquery⟩ := LinkParts.scan_quest hp t
  have hpm : p.join ++ t = p.main ++ (p.queryPart ++ p.fragPart ++ t) := by simp [LinkParts.join]
  have hauth : ∃ k, scan (p.join ++ t) (ch '@') 0 p.main.length = .ok k ∧
      parseSsAuthority σ (p.join ++ t) p.join.length p.main.length (k.getD p.join.length) =
        .ok (ssAuthority p.main) := by
    rw [hpm]
    -- without an `@` the authority is the base64 text of `method:password@host:port`
    rcases first_split (ch '@') p.main with hm | ⟨u, h, hm, hu⟩
    · exact ⟨none, scan_miss_zero hm, parseSsAuthority_base64 σ hm ..⟩
    · refine ⟨some u.length, ?_, ?_⟩
      · rw [hm, List.append_assoc]; exact scan_hit_zero hu (by simp)
      · have hlt : u.length < p.join.length := by simp [LinkParts.join, hm]
        rw [ssAuthority, hm, cut_append hu]
        exact parseSsAuthority_at σ _ hlt
  obtain ⟨k, hk, hauth⟩ := hauth
  unfold parseSs ssLink
  rw [hi, ok_bind]
  simp only [hfrag]
  rw [hj, ok_bind]
  simp only [hquery, LinkParts.limit_eq]
  rw [hk, ok_bind, hauth, ok_bind]
  rcases ssAuthority p.main with _ | ⟨⟨method, password⟩, host, port⟩
  · rfl
  · exact parseTail_eq σ t applySsQuery rfl fun ps => applySsQuery_server ps _

/-! ## vmess -/

/-- The base64 form reads its segment only. -/
theorem parseVmessJson_append (tok : Tokener) (b t : Bytes) (n : ProxyNode) :
    parseVmessJson tok (b ++ t) b.length n = parseVmessJson tok b b.length n := by
  unfold parseVmessJson
  rw [slice_append, slice_self]

def vmessLink (tok : Tokener) (p : LinkParts) (n : ProxyNode) : Run (Option ProxyNode) :=
  if ch '@' ∈ p.main ++ p.queryPart then do
    match ← vlessLink .vmess p n with
    | none => .ok none
    | some n => .ok (some { n with cipher := some (CStr.lit "auto") })
  else parseVmessJson tok (p.main ++ p.queryPart) (p.main ++ p.queryPart).length n

theorem parseVmess_eq (σ : Arith) (tok : Tokener) {p : LinkParts} (hp : p.WF) (t : Bytes) (n : ProxyNode) :
    parseVmess σ tok (p.join ++ t) p.join.length n = vmessLink tok p n := by
  obtain ⟨i, hi, hfrag⟩ := LinkParts.scan_hash hp t
  have hpm : p.join ++ t = (p.main ++ p.queryPart) ++ (p.fragPart ++ t) := by simp [LinkParts.join]
  unfold parseVmess vmessLink
  rw [hi, ok_bind]
  simp only [hfrag]
  rcases first_split (ch '@') (p.main ++ p.queryPart) with hm | ⟨u, h, hm, hu⟩
  · have hs : scan (p.join ++ t) (ch '@') 0 p.fragIdx = .ok none := by rw [hpm]; exact scan_miss_zero hm
    rw [hs, ok_bind, if_neg hm]
    simp only
    rw [hpm]
    exact parseVmessJson_append ..
  · have hs : scan (p.join ++ t) (ch '@') 0 p.fragIdx = .ok (some u.length) := by
      rw [hpm, LinkParts.fragIdx, hm, List.append_assoc]; exact scan_hit_zero hu (by simp)
    -- the search stopped at the `#`, so `parse_vless_like` finds its `@` before the fragment
    have hstray : strayAt p = none := by
      refine if_pos ?_
      by_contra hno
      push Not at hno
      have hq : p.queryPart = [] := by
        unfold LinkParts.queryPart
        rcases hpq : p.query with _ | q
        · rfl
        · simp [hpq] at hno
      rw [hq, List.append_nil] at hm
      exact hno.1 (by rw [hm]; simp)
    rw [hs, ok_bind, if_pos (by rw [hm]; simp)]
    simp only
    exact congrArg (· >>= _) (parseVlessLike_eq σ hp t .vmess n hstray)

/-! ## The line -/

/-- The line without its trailing line ends. -/
def trimLine (b : Bytes) : Bytes := b.rdropWhile fun c => c = 10 ∨ c = 13

/-- What follows the scheme. -/
def stripScheme (scheme : String) (b : Bytes) : Option Bytes := (str scheme).isPrefixOf? b

/-- The link behind `vless://` or `trojan://`. -/
def vlessBody (b : Bytes) : Option (NodeType × Bytes) :=
  match stripScheme "vless://" b with
  | some r => some (.vless, r)
  | none => (stripScheme "trojan://" b).map (.trojan, ·)

/-- What the parser of a line's scheme returns on the line. -/
def linkRun (tok : Tokener) (b : Bytes) : Run (Option ProxyNode) :=
  match vlessBody b, stripScheme "vmess://" b, stripScheme "ss://" b with
  | some (type, r), _, _ => vlessLink type (splitLink r) nodeInit
  | none, some r, _ => vmessLink tok (splitLink r) nodeInit
  | none, none, some r => ssLink (splitLink r) nodeInit
  | none, none, none => .ok none

/-- The text before the first `@` of a vless or trojan link that has it in the fragment, and the
text after it. -/
def strayLink (b : Bytes) : Option (Bytes × Bytes) := (vlessBody b).bind fun x => strayAt (splitLink x.2)

def shareResult : Option ProxyNode → Int × ProxyNode
  | some n => (0, n)
  | none => (-1, nodeInit)

theorem trimCrlf_eq (t : Bytes) : ∀ (b : Bytes), trimCrlf (b ++ t) b.length = .ok (trimLine b).length := by
  intro b
  induction b using List.reverseRecOn generalizing t with
  | nil => rfl
  | append_singleton b c ih =>
    rw [List.length_append, List.length_singleton, trimCrlf, List.append_assoc, List.singleton_append, rd_append_cons,
      ok_bind]
    by_cases h : c = 10 ∨ c = 13
    · rw [if_pos h, ih, trimLine, trimLine, List.rdropWhile_concat_pos _ _ _ (by simpa using h)]
    · rw [if_neg h, trimLine, List.rdropWhile_concat_neg _ _ _ (by simpa using h)]; simp

theorem trimLine_append (b : Bytes) : ∃ r, b = trimLine b ++ r := by
  obtain ⟨r, hr⟩ := List.rdropWhile_prefix (fun c : Byte => decide (c = 10 ∨ c = 13)) (l := b)
  exact ⟨r, hr.symm⟩

theorem stripScheme_some {scheme : String} {b r : Bytes} (h : stripScheme scheme b = some r) : b = str scheme ++ r :=
  (List.isPrefixOf?_eq_some_iff_append_eq.1 h).symm

theorem stripScheme_append (scheme : String) (r : Bytes) : stripScheme scheme (str scheme ++ r) = some r :=
  List.isPrefixOf?_eq_some_iff_append_eq.2 rfl

theorem prefixMatch_eq (b t : Bytes) (scheme : String) :
    prefixMatch (b ++ t) b.length scheme = .ok (stripScheme scheme b).isSome := by
  unfold prefixMatch
  by_cases hlen : (str scheme).length ≤ b.length
  · rw [if_pos hlen, slice, if_pos (by simp; omega), ok_bind, List.take_append_of_le_length hlen]
    congr 1
    rw [Bool.eq_iff_iff, beq_iff_eq, Option.isSome_iff_exists]
    constructor
    · intro h
      have hb := List.take_append_drop (str scheme).length b
      rw [h] at hb
      exact ⟨_, List.isPrefixOf?_eq_some_iff_append_eq.2 hb⟩
    · rintro ⟨r, hr⟩
      rw [stripScheme_some hr]; simp
  · rw [if_neg hlen]
    congr 1
    rcases h : stripScheme scheme b with _ | r
    · rfl
    · exact absurd (by rw [stripScheme_some h]; simp) hlen

/-- A parser called on what follows the scheme. -/
theorem scheme_call (σ : Arith) {scheme : String} {b r : Bytes} (h : stripScheme scheme b = some r) (t : Bytes)
    {α : Type} (f : Bytes → Nat → Run α) (k : Nat) (hk : (str scheme).length = k) :
    (usub σ b.length k >>= fun len => f ((b ++ t).drop k) len) = f (r ++ t) r.length := by
  subst hk
  rw [stripScheme_some h, usub_le σ (by simp), ok_bind, List.append_assoc, List.drop_left]
  simp

theorem parseScheme_dispatch (σ : Arith) (tok : Tokener) (b t : Bytes) :
    parseScheme σ tok (b ++ t) b.length nodeInit =
      match vlessBody b, stripScheme "vmess://" b, stripScheme "ss://" b with
      | some (type, r), _, _ => parseVlessLike σ (r ++ t) r.length type nodeInit
      | none, some r, _ => parseVmess σ tok (r ++ t) r.length nodeInit
      | none, none, some r => parseSs σ (r ++ t) r.length nodeInit
      | none, none, none => .ok none := by
  unfold parseScheme vlessBody
  simp only [prefixMatch_eq, ok_bind]
  rcases h1 : stripScheme "vless://" b with _ | r
  · rcases h2 : stripScheme "trojan://" b with _ | r
    · rcases h3 : stripScheme "vmess://" b with _ | r
      · rcases h4 : stripScheme "ss://" b with _ | r
        · rfl
        · exact scheme_call σ h4 t (fun s len => parseSs σ s len nodeInit) 5 rfl
      · exact scheme_call σ h3 t (fun s len => parseVmess σ tok s len nodeInit) 8 rfl
    · exact scheme_call σ h2 t (fun s len => parseVlessLike σ s len .trojan nodeInit) 9 rfl
  · exact scheme_call σ h1 t (fun s len => parseVlessLike σ s len .vless nodeInit) 8 rfl

theorem parseScheme_eq (σ : Arith) (tok : Tokener) (b t : Bytes) (hs : strayLink b = none) :
    parseScheme σ tok (b ++ t) b.length nodeInit = linkRun tok b := by
  rw [parseScheme_dispatch, linkRun]
  rcases hv : vlessBody b with _ | ⟨type, r⟩
  · rcases stripScheme "vmess://" b with _ | r
    · rcases stripScheme "ss://" b with _ | r
      · rfl
      · have := parseSs_eq σ (splitLink_spec r).2 t nodeInit
        rwa [(splitLink_spec r).1] at this
    · have := parseVmess_eq σ tok (splitLink_spec r).2 t nodeInit
      rwa [(splitLink_spec r).1] at this
  · have := parseVlessLike_eq σ (splitLink_spec r).2 t type nodeInit (by simpa [strayLink, hv] using hs)
    rwa [(splitLink_spec r).1] at this

/-- The line after `node_parse_share` has dropped its line ends. -/
theorem nodeParseShare_trim (σ : Arith) (tok : Tokener) (b t : Bytes) :
    ∃ r, b = trimLine b ++ r ∧ nodeParseShare σ tok (b ++ t) b.length =
      shareResult <$> parseScheme σ tok (trimLine b ++ (r ++ t)) (trimLine b).length nodeInit := by
  obtain ⟨r, hr⟩ := trimLine_append b
  refine ⟨r, hr, ?_⟩
  unfold nodeParseShare
  rw [trimCrlf_eq, ok_bind, ← List.append_assoc, ← hr]
  cases parseScheme σ tok (b ++ t) (trimLine b).length nodeInit with
  | error e => rfl
  | ok r => cases r <;> rfl

/-- A line without a stray `@`: the result depends on the line alone, and no length wraps. -/
theorem nodeParseShare_eq (σ : Arith) (tok : Tokener) (b t : Bytes) (hs : strayLink (trimLine b) = none) :
    nodeParseShare σ tok (b ++ t) b.length = shareResult <$> linkRun tok (trimLine b) := by
  obtain ⟨r, hr, h⟩ := nodeParseShare_trim σ tok b t
  rw [h, parseScheme_eq σ tok _ _ hs]

/-- A line with a stray `@` runs `parse_vless_like` on it. -/
theorem nodeParseShare_stray (σ : Arith) (tok : Tokener) (b t : Bytes) {a y : Bytes}
    (hs : strayLink (trimLine b) = some (a, y)) :
    ∃ type l r, strayAt (splitLink l) = some (a, y) ∧ b = trimLine b ++ r ∧
      (splitLink l).join.length ≤ (trimLine b).length ∧
      nodeParseShare σ tok (b ++ t) b.length = shareResult <$>
        parseVlessLike σ ((splitLink l).join ++ (r ++ t)) (splitLink l).join.length type nodeInit := by
  obtain ⟨r, hr, h⟩ := nodeParseShare_trim σ tok b t
  obtain ⟨⟨type, l⟩, hl, hs⟩ := Option.bind_eq_some_iff.1 hs
  refine ⟨type, l, r, hs, hr, ?_, ?_⟩
  · rw [(splitLink_spec l).1]
    unfold vlessBody at hl
    split at hl
    · rename_i h; cases hl; rw [stripScheme_some h]; simp
    · obtain ⟨x, hx, hxl⟩ := Option.map_eq_some_iff.1 hl
      cases hxl; rw [stripScheme_some hx]; simp
  · rw [h, parseScheme_dispatch, hl, (splitLink_spec l).1]

theorem nodeParseShare_stray_checked (tok : Tokener) (b t : Bytes) {a y : Bytes}
    (hs : strayLink (trimLine b) = some (a, y)) :
    nodeParseShare .checked tok (b ++ t) b.length = if urlRc a ≠ 0 then .ok (-1, nodeInit) else .error .wrap := by
  obtain ⟨type, l, r, hl, -, -, h⟩ := nodeParseShare_stray .checked tok b t hs
  rw [h, parseVlessLike_stray_checked (splitLink_spec l).2 _ type nodeInit hl]
  split <;> rfl

/-- In memory `b ++ t` the search for the host behind a stray `@` leaves the buffer. -/
def StrayFault (b t : Bytes) : Prop :=
  ∃ a y r, strayLink (trimLine b) = some (a, y) ∧ b = trimLine b ++ r ∧ urlRc a = 0 ∧ ¬ BracketClosed (y ++ (r ++ t))

/-- A stray `@` on the machine: the line is refused, or the run leaves its buffer. -/
theorem nodeParseShare_stray_machine (tok : Tokener) {b t : Bytes} {a y : Bytes}
    (hs : strayLink (trimLine b) = some (a, y)) (hlen : (b ++ t).length < 2 ^ 63) :
    (¬ StrayFault b t ∧ nodeParseShare .machine tok (b ++ t) b.length = .ok (-1, nodeInit)) ∨
      (StrayFault b t ∧ nodeParseShare .machine tok (b ++ t) b.length = .error .oob) := by
  obtain ⟨type, l, r, hl, hb, hle, h⟩ := nodeParseShare_stray .machine tok b t hs
  have hlen' : ((splitLink l).join ++ (r ++ t)).length < 2 ^ 63 := by
    have hbl : b.length = (trimLine b).length + r.length := by conv_lhs => rw [hb, List.length_append]
    simp only [List.length_append] at hlen ⊢; omega
  rw [h]
  rcases parseVlessLike_stray_machine (splitLink_spec l).2 type nodeInit hl hlen' with ⟨hc, h⟩ | ⟨hc, h⟩
  -- `StrayFault` names the same split of the line, so its parts are the ones above
  · refine .inl ⟨?_, by rw [h]; rfl⟩
    rintro ⟨a', y', r', hs', hb', hrc, hbr⟩
    obtain ⟨rfl, rfl⟩ : a = a' ∧ y = y' := by simpa [hs] using hs'
    obtain rfl : r = r' := List.append_cancel_left (hb.symm.trans hb')
    exact hc.elim (· hrc) hbr
  · exact .inr ⟨⟨a, y, r, hs, hb, hc⟩, by rw [h]; rfl⟩

end SubConverter
