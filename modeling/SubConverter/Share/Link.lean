/-
What the parsers of the four schemes compute, as functions of the link alone: the link is split
into the part before `?` and `#`, the query and the fragment, and every segment the source cuts
out of it lies inside. One shape of link is left out, a vless or trojan link whose first `@` is in
the fragment: there the length of `host:port` wraps (`parseVlessLike_stray`).
-/
import SubConverter.Share.Query

namespace SubConverter

open CMem

/-! ## The parts of a link -/

structure LinkParts where
  main : Bytes
  query : Option Bytes
  frag : Option Bytes

namespace LinkParts

def queryPart (p : LinkParts) : Bytes :=
  match p.query with
  | some q => ch '?' :: q
  | none => []

def fragPart (p : LinkParts) : Bytes :=
  match p.frag with
  | some f => ch '#' :: f
  | none => []

/-- The link with these parts. -/
def join (p : LinkParts) : Bytes := p.main ++ (p.queryPart ++ p.fragPart)

/-- The delimiters stand at the first `#` and at the first `?` before it. -/
structure WF (p : LinkParts) : Prop where
  hash : ch '#' ∉ p.main ++ p.queryPart
  quest : ch '?' ∉ p.main

/-- The index of the fragment's `#`, the length of the link without one. -/
def fragIdx (p : LinkParts) : Nat := (p.main ++ p.queryPart).length

/-- The index of the query's `?`, the length of the link without one. -/
def queryIdx (p : LinkParts) : Nat := if p.query.isSome then p.main.length else p.join.length

end LinkParts

/-- The parts of a link without a fragment. -/
def splitQuery (b : Bytes) (frag : Option Bytes) : LinkParts :=
  match cut (ch '?') b with
  | some (main, q) => ⟨main, some q, frag⟩
  | none => ⟨b, none, frag⟩

/-- The parts of a link. -/
def splitLink (b : Bytes) : LinkParts :=
  match cut (ch '#') b with
  | some (b, f) => splitQuery b (some f)
  | none => splitQuery b none

theorem splitQuery_spec (b : Bytes) (f : Option Bytes) :
    (splitQuery b f).main ++ (splitQuery b f).queryPart = b ∧ ch '?' ∉ (splitQuery b f).main ∧
      (splitQuery b f).frag = f := by
  unfold splitQuery
  rcases first_split (ch '?') b with h | ⟨x, y, rfl, h⟩
  · rw [cut_none h]; simpa [LinkParts.queryPart] using h
  · rw [cut_append h]; simpa [LinkParts.queryPart] using h

theorem splitLink_spec (b : Bytes) : (splitLink b).join = b ∧ (splitLink b).WF := by
  unfold splitLink
  rcases first_split (ch '#') b with h | ⟨x, y, rfl, h⟩
  · obtain ⟨h1, h2, h3⟩ := splitQuery_spec b none
    rw [cut_none h]
    refine ⟨?_, ⟨by rw [h1]; exact h, h2⟩⟩
    simp [LinkParts.join, LinkParts.fragPart, h3, h1]
  · obtain ⟨h1, h2, h3⟩ := splitQuery_spec x (some y)
    rw [cut_append h]
    refine ⟨?_, ⟨by rw [h1]; exact h, h2⟩⟩
    rw [LinkParts.join, ← List.append_assoc, h1]; simp [LinkParts.fragPart, h3]

namespace LinkParts

variable {p : LinkParts}

theorem scan_hash (h : p.WF) (t : Bytes) :
    ∃ r, scan (p.join ++ t) (ch '#') 0 p.join.length = .ok r ∧ r.getD p.join.length = p.fragIdx := by
  obtain ⟨m, q, _ | f⟩ := p
  · exact ⟨none, scan_miss_zero (by simpa [join, fragPart] using h.hash), by simp [join, fragIdx, fragPart]⟩
  · have := scan_hit_zero (c := ch '#') (y := f ++ t) (n := (⟨m, q, some f⟩ : LinkParts).join.length) h.hash
      (by simp [join, fragPart, queryPart])
    exact ⟨_, by simpa [join, fragPart] using this, by simp [fragIdx]⟩

theorem scan_quest (h : p.WF) (t : Bytes) :
    ∃ r, scan (p.join ++ t) (ch '?') 0 p.fragIdx = .ok r ∧ r.getD p.join.length = p.queryIdx := by
  obtain ⟨m, _ | q, f⟩ := p
  · have := scan_miss_zero (y := (⟨m, none, f⟩ : LinkParts).fragPart ++ t) h.quest
    exact ⟨none, by simpa [join, fragIdx, queryPart] using this, by simp [queryIdx]⟩
  · have := scan_hit_zero (y := q ++ (⟨m, some q, f⟩ : LinkParts).fragPart ++ t)
      (n := (⟨m, some q, f⟩ : LinkParts).fragIdx) h.quest (by simp [fragIdx, queryPart])
    exact ⟨_, by simpa [join, queryPart] using this, by simp [queryIdx]⟩

theorem queryIdx_lt_iff (p : LinkParts) : p.queryIdx < p.fragIdx ↔ p.query.isSome := by
  obtain ⟨m, _ | q, f⟩ := p
  · simp [fragIdx, queryIdx, join, queryPart]
  · simp [fragIdx, queryIdx, queryPart]

/-- The end of `host:port`, the lesser of the two indices. -/
theorem limit_eq (p : LinkParts) : (if p.queryIdx < p.fragIdx then p.queryIdx else p.fragIdx) = p.main.length := by
  obtain ⟨m, _ | q, f⟩ := p
  · rw [if_neg (by simp [queryIdx_lt_iff])]; simp [fragIdx, queryPart]
  · rw [if_pos (by simp [queryIdx_lt_iff])]; simp [queryIdx]

end LinkParts

/-! ## Query and fragment -/

/-- What `parse_query` returns on the query of a link. -/
def queryRun (q : Bytes) : Run (Option (List KvPair)) :=
  if emptyFirstPair (queryPairs q) then .error .null else .ok (decodePairs (queryPairs q))

/-- What `set_name_from_fragment` returns: an empty fragment leaves the buffer null. -/
def fragName (f : Bytes) : Run (Option CStr) :=
  if urlRc f ≠ 0 then .ok none
  else if f = [] then .error .null
  else .ok (some (CStr.ofBytes (urlText f).1))

/-- `server:port`. -/
def fallbackText (server : CStr) (port : Int) : Bytes := server.bytes ++ ch ':' :: decimalInt port

def fallbackName (server : CStr) (port : Int) : CStr := CStr.ofBytes (fallbackText server port)

/-- What `set_name_fallback` returns: a text that cannot be counted in an `int` leaves the buffer null. -/
def fallbackRun (server : CStr) (n : ProxyNode) : Run (Option ProxyNode) :=
  if (fallbackText server n.port).length ≤ intMax then .ok (some { n with name := some (fallbackName server n.port) })
  else .error .null

def nameRun (frag : Option Bytes) (server : CStr) (n : ProxyNode) : Run (Option ProxyNode) :=
  match frag with
  | none => fallbackRun server n
  | some f => do
    match ← fragName f with
    | some name => .ok (some { n with name := some name })
    | none => fallbackRun server n

/-- What the end of a link parser returns. -/
def tailRun (p : LinkParts) (apply : List KvPair → ProxyNode → ProxyNode) (server : CStr) (n : ProxyNode) :
    Run (Option ProxyNode) :=
  match p.query with
  | none => nameRun p.frag server n
  | some q => do
    match ← queryRun q with
    | none => .ok none
    | some pairs => nameRun p.frag server (apply pairs n)

theorem xstrdup_push {b : Bytes} (h : urlRc b = 0) :
    xstrdup (Strbuf.init.push (urlText b).1).data =
      if b = [] then .error .null else .ok (CStr.ofBytes (urlText b).1) := by
  split
  · rename_i hb; subst hb; rfl
  · rename_i hb; exact xstrdup_push_init (mt (urlText_eq_nil h).1 hb)

theorem setNameFromFragment_none (σ : Arith) (s : Bytes) (len : Nat) :
    setNameFromFragment σ s len len = .ok none := by
  simp [setNameFromFragment]

theorem setNameFromFragment_eq (σ : Arith) (a f t : Bytes) :
    setNameFromFragment σ (a ++ (ch '#' :: f ++ t)) (a ++ ch '#' :: f).length a.length = fragName f := by
  have hd : (a ++ (ch '#' :: f ++ t)).drop (a.length + 1) = f ++ t := by
    rw [← List.drop_drop, List.drop_left]; rfl
  unfold setNameFromFragment fragName
  rw [if_neg (by simp), usub_le σ (by simp), ok_bind, usub_le σ (by simp), ok_bind, hd,
    show (a ++ ch '#' :: f).length - a.length - 1 = f.length by simp, urlDecode_eq, ok_bind]
  simp only
  by_cases h : urlRc f = 0
  · rw [if_neg (by simpa using h), if_neg (by simpa using h), xstrdup_push h]
    split <;> rfl
  · rw [if_pos h, if_pos h]

theorem setNameFallback_eq {n : ProxyNode} {server : CStr} (h : n.server = some server) :
    (do
      .ok (some (← setNameFallback n)) : Run (Option ProxyNode)) = fallbackRun server n := by
  unfold setNameFallback fallbackRun
  simp only [h]
  rw [show server.bytes ++ ch ':' :: decimalInt n.port = fallbackText server n.port from rfl]
  by_cases hlen : (fallbackText server n.port).length ≤ intMax
  · rw [if_pos hlen, Strbuf.appendf_eq _ hlen]
    rfl
  · rw [if_neg hlen, Strbuf.appendf_long _ (not_le.1 hlen)]
    rfl

/-- The name of a link, whatever follows it in memory. -/
theorem name_eq (σ : Arith) (p : LinkParts) (t : Bytes) {n : ProxyNode} {server : CStr}
    (h : n.server = some server) :
    (do
      match ← setNameFromFragment σ (p.join ++ t) p.join.length p.fragIdx with
      | some name => .ok (some { n with name := some name })
      | none => do
        .ok (some (← setNameFallback n)) : Run (Option ProxyNode)) = nameRun p.frag server n := by
  obtain ⟨m, q, _ | f⟩ := p
  · have hi : (⟨m, q, none⟩ : LinkParts).fragIdx = (⟨m, q, none⟩ : LinkParts).join.length := by
      simp [LinkParts.fragIdx, LinkParts.join, LinkParts.fragPart]
    rw [hi, setNameFromFragment_none, ok_bind]
    exact setNameFallback_eq h
  · have := setNameFromFragment_eq σ (m ++ (⟨m, q, some f⟩ : LinkParts).queryPart) f t
    rw [show (⟨m, q, some f⟩ : LinkParts).join ++ t =
        m ++ (⟨m, q, some f⟩ : LinkParts).queryPart ++ (ch '#' :: f ++ t) by
          simp [LinkParts.join, LinkParts.fragPart],
      show (⟨m, q, some f⟩ : LinkParts).join = m ++ (⟨m, q, some f⟩ : LinkParts).queryPart ++ ch '#' :: f by
          simp [LinkParts.join, LinkParts.fragPart], LinkParts.fragIdx, this, nameRun, ← setNameFallback_eq h]

theorem parseTail_eq (σ : Arith) {p : LinkParts} (t : Bytes) (apply : List KvPair → ProxyNode → ProxyNode)
    {n : ProxyNode} {server : CStr} (hn : n.server = some server)
    (happly : ∀ ps, (apply ps n).server = some server) :
    parseTail σ (p.join ++ t) p.join.length p.fragIdx p.queryIdx apply n = tailRun p apply server n := by
  unfold parseTail tailRun
  have hq := p.queryIdx_lt_iff
  -- the query segment exists exactly when the code's `query < frag` holds
  rcases hpq : p.query with _ | q
  · simp only [hpq, Option.isSome_none, Bool.false_eq_true, iff_false] at hq
    simp only [if_neg hq, ok_bind]
    exact name_eq σ p t hn
  · simp only [hpq, Option.isSome_some, iff_true] at hq
    have hi : p.queryIdx = p.main.length := by simp [LinkParts.queryIdx, hpq]
    have hf : p.fragIdx = p.main.length + 1 + q.length := by
      simp [LinkParts.fragIdx, LinkParts.queryPart, hpq]; omega
    have hd : (p.join ++ t).drop (p.queryIdx + 1) = q ++ (p.fragPart ++ t) := by
      rw [hi, LinkParts.join, ← List.drop_drop, List.append_assoc, List.drop_left]
      simp [LinkParts.queryPart, hpq]
    rw [if_pos hq, usub_le σ (by omega), ok_bind, usub_le σ (by omega), ok_bind, hd,
      show p.fragIdx - p.queryIdx - 1 = q.length by omega, parseQuery_eq, pairsRun_init]
    simp only [queryRun]
    split
    · rfl
    · simp only [ok_bind]
      cases decodePairs (queryPairs q) with
      | none => rfl
      | some pairs =>
        exact name_eq σ p t (happly pairs)

/-! ## vless, trojan and the `@` form of vmess -/

theorem foldl_keeps {β : Type} {g : ProxyNode → β} {f : ProxyNode → KvPair → ProxyNode}
    (hf : ∀ n kv, g (f n kv) = g n) : ∀ (ps : List KvPair) (n : ProxyNode), g (ps.foldl f n) = g n
  | [], _ => rfl
  | kv :: ps, n => by rw [List.foldl_cons, foldl_keeps hf ps, hf]

/-- The query sets neither the type nor the server nor the port. -/
theorem applyQuery_keeps (ps : List KvPair) (n : ProxyNode) :
    ((applyQuery ps n).type, (applyQuery ps n).server, (applyQuery ps n).port) = (n.type, n.server, n.port) := by
  rw [applyQuery, foldl_keeps (g := fun n => (n.type, n.server, n.port)),
    foldl_keeps (g := fun n => (n.type, n.server, n.port))]
  · intro n kv; unfold applyMode; split_ifs <;> rfl
  · intro n kv; unfold applyParam; split_ifs <;> rfl

theorem applySsQuery_keeps (ps : List KvPair) (n : ProxyNode) :
    ((applySsQuery ps n).type, (applySsQuery ps n).server, (applySsQuery ps n).port) = (n.type, n.server, n.port) := by
  refine foldl_keeps (g := fun n => (n.type, n.server, n.port)) (fun n kv => ?_) ps n
  unfold applySsParam; split_ifs <;> rfl

theorem applyQuery_server (ps : List KvPair) (n : ProxyNode) : (applyQuery ps n).server = n.server :=
  congrArg (·.2.1) (applyQuery_keeps ps n)

theorem applySsQuery_server (ps : List KvPair) (n : ProxyNode) : (applySsQuery ps n).server = n.server :=
  congrArg (·.2.1) (applySsQuery_keeps ps n)

theorem applyQuery_port (ps : List KvPair) (n : ProxyNode) : (applyQuery ps n).port = n.port :=
  congrArg (·.2.2) (applyQuery_keeps ps n)

theorem applySsQuery_port (ps : List KvPair) (n : ProxyNode) : (applySsQuery ps n).port = n.port :=
  congrArg (·.2.2) (applySsQuery_keeps ps n)

/-- The node a vless-like link starts from, with its credential. -/
def credNode (type : NodeType) (cred : CStr) (n : ProxyNode) : ProxyNode :=
  let n := { n with type := type, udp := true, tls := if type = NodeType.trojan then .tls else n.tls }
  if type = .trojan then { n with password := some cred } else { n with uuid := some cred }

/-- A vless-like link `u@h` with what follows it. -/
def userLink (type : NodeType) (p : LinkParts) (u h : Bytes) (n : ProxyNode) : Run (Option ProxyNode) :=
  if urlRc u ≠ 0 then .ok none
  else if u = [] then .error .null
  else
    match hostPort h with
    | none => .ok none
    | some (host, port) =>
      tailRun p applyQuery host
        { credNode type (CStr.ofBytes (urlText u).1) n with server := some host, port := port }

/-- What `parse_vless_like` returns on a link whose `@` is not in the fragment. -/
def vlessLink (type : NodeType) (p : LinkParts) (n : ProxyNode) : Run (Option ProxyNode) :=
  match cut (ch '@') p.main with
  | some (u, h) => userLink type p u h n
  | none => .ok none

/-- For a link whose first `@` comes after its first `#`, with no `?` before that `#`: the text
before that `@` and the text after it. -/
def strayAt (p : LinkParts) : Option (Bytes × Bytes) :=
  if ch '@' ∈ p.main ∨ p.query.isSome then none
  else (p.frag.bind (cut (ch '@'))).map fun x => (p.main ++ ch '#' :: x.1, x.2)

/-- `parse_vless_like` from the credential on, for the indices `query` and `at`. -/
theorem parseVlessLike_step (σ : Arith) {p : LinkParts} (hp : p.WF) (t : Bytes) (type : NodeType) (n : ProxyNode)
    {r : Option Nat} (hr : scan (p.join ++ t) (ch '@') 0 p.queryIdx = .ok r) :
    parseVlessLike σ (p.join ++ t) p.join.length type n =
      (if r.getD p.join.length = p.join.length then .ok none
      else do
        let (rc, sb) ← urlDecode (p.join ++ t) (r.getD p.join.length) .init
        if rc ≠ 0 then .ok none
        else do
          let cred ← xstrdup sb.data
          let hplen ← usub σ (← usub σ p.main.length (r.getD p.join.length)) 1
          match ← parseHostPort σ ((p.join ++ t).drop (r.getD p.join.length + 1)) hplen with
          | none => .ok none
          | some (host, port) =>
            parseTail σ (p.join ++ t) p.join.length p.fragIdx p.queryIdx applyQuery
              { credNode type cred n with server := some host, port := port }) := by
  obtain ⟨i, hi, hfrag⟩ := LinkParts.scan_hash hp t
  obtain ⟨j, hj, hquery⟩ := LinkParts.scan_quest hp t
  unfold parseVlessLike
  rw [hi, ok_bind]
  simp only [hfrag]
  rw [hj, ok_bind]
  simp only [hquery]
  rw [hr, ok_bind]
  simp only [LinkParts.limit_eq]
  rfl

theorem scan_at_main {p : LinkParts} {u h : Bytes} (hu : ch '@' ∉ u) (hm : p.main = u ++ ch '@' :: h) (t : Bytes) :
    scan (p.join ++ t) (ch '@') 0 p.queryIdx = .ok (some u.length) := by
  have hle : u.length < p.queryIdx := by
    unfold LinkParts.queryIdx LinkParts.join; split <;> simp [hm]
  have := scan_hit_zero (c := ch '@') (x := u) (y := h ++ (p.queryPart ++ p.fragPart) ++ t) hu hle
  simpa [LinkParts.join, hm] using this

theorem parseVlessLike_user (σ : Arith) {p : LinkParts} (hp : p.WF) (t : Bytes) (type : NodeType) (n : ProxyNode)
    {u h : Bytes} (hu : ch '@' ∉ u) (hm : p.main = u ++ ch '@' :: h) :
    parseVlessLike σ (p.join ++ t) p.join.length type n = userLink type p u h n := by
  rw [parseVlessLike_step σ hp t type n (scan_at_main hu hm t)]
  have hlt : u.length < p.join.length := by simp [LinkParts.join, hm]
  have hj : p.join ++ t = u ++ (ch '@' :: (h ++ (p.queryPart ++ p.fragPart ++ t))) := by
    simp [LinkParts.join, hm]
  have hd : (p.join ++ t).drop (u.length + 1) = h ++ (p.queryPart ++ p.fragPart ++ t) := by
    rw [hj, ← List.drop_drop, List.drop_left]; rfl
  simp only [Option.getD_some]
  rw [if_neg (by omega)]
  have hurl : urlDecode (p.join ++ t) u.length .init = .ok (urlRc u, Strbuf.init.push (urlText u).1) := by
    rw [hj]; exact urlDecode_eq ..
  rw [hurl, ok_bind, userLink]
  simp only
  by_cases hrc : urlRc u = 0
  · rw [if_neg (not_not.2 hrc), if_neg (not_not.2 hrc), xstrdup_push hrc]
    split
    · rfl
    · rw [ok_bind, usub_le σ (by simp [hm]), ok_bind, usub_le σ (by simp [hm]), ok_bind, hd,
        show p.main.length - u.length - 1 = h.length by simp [hm], parseHostPort_eq, ok_bind]
      rcases hostPort h with _ | ⟨host, port⟩
      · rfl
      · exact parseTail_eq σ t applyQuery rfl fun ps => applyQuery_server ps _
  · rw [if_pos hrc, if_pos hrc]

/-- Without a stray `@` the result depends on the link alone, and no length wraps. -/
theorem parseVlessLike_eq (σ : Arith) {p : LinkParts} (hp : p.WF) (t : Bytes) (type : NodeType) (n : ProxyNode)
    (hs : strayAt p = none) : parseVlessLike σ (p.join ++ t) p.join.length type n = vlessLink type p n := by
  unfold vlessLink
  rcases first_split (ch '@') p.main with hm | ⟨u, h, hm, hu⟩
  · have hno : scan (p.join ++ t) (ch '@') 0 p.queryIdx = .ok none := by
      obtain ⟨m, _ | q, f⟩ := p
      · have hf : ch '@' ∉ (⟨m, none, f⟩ : LinkParts).join := by
          rcases f with _ | f
          · simpa [LinkParts.join, LinkParts.queryPart, LinkParts.fragPart] using hm
          · rcases first_split (ch '@') f with h | ⟨x, y, rfl, hx⟩
            · simp only [LinkParts.join, LinkParts.queryPart, LinkParts.fragPart, List.mem_append, List.mem_cons,
                List.not_mem_nil, false_or, not_or]
              exact ⟨hm, by decide, h⟩
            · simp [strayAt, hm, cut_append hx] at hs
        simpa [LinkParts.queryIdx] using scan_miss_zero (y := t) hf
      · have := scan_miss_zero (y := (⟨m, some q, f⟩ : LinkParts).queryPart ++ (⟨m, some q, f⟩ : LinkParts).fragPart ++ t) hm
        simpa [LinkParts.join, LinkParts.queryIdx] using this
    rw [parseVlessLike_step σ hp t type n hno, cut_none hm]; simp
  · rw [parseVlessLike_user σ hp t type n hu hm, hm, cut_append hu]

/-- The `@` of a link without query and user stands in the fragment. -/
theorem strayAt_parts {p : LinkParts} {a y : Bytes} (h : strayAt p = some (a, y)) :
    p.query = none ∧ ch '@' ∉ p.main ∧ ∃ f, p.frag = some (f ++ ch '@' :: y) ∧ ch '@' ∉ f ∧ a = p.main ++ ch '#' :: f := by
  unfold strayAt at h
  split at h
  · cases h
  rename_i hno
  simp only [not_or, Bool.not_eq_true, Option.isSome_eq_false_iff, Option.isNone_iff_eq_none] at hno
  obtain ⟨⟨f, g⟩, hf, hx⟩ := Option.map_eq_some_iff.1 h
  obtain ⟨fr, hfr, hcut⟩ := Option.bind_eq_some_iff.1 hf
  obtain ⟨rfl, hf'⟩ := cut_some hcut
  cases hx
  exact ⟨hno.2, hno.1, f, hfr, hf', rfl⟩

theorem strayAt_some {p : LinkParts} {a y : Bytes} (h : strayAt p = some (a, y)) :
    p.query = none ∧ p.join = a ++ ch '@' :: y ∧ ch '@' ∉ a ∧ p.main.length < a.length := by
  obtain ⟨m, q, fr⟩ := p
  obtain ⟨rfl, hm, f, rfl, hf, rfl⟩ := strayAt_parts h
  refine ⟨rfl, by simp [LinkParts.join, LinkParts.queryPart, LinkParts.fragPart], ?_, by simp⟩
  simp only [List.mem_append, List.mem_cons, not_or]
  exact ⟨hm, by decide, hf⟩

theorem parseVlessLike_stray (σ : Arith) {p : LinkParts} (hp : p.WF) (t : Bytes) (type : NodeType) (n : ProxyNode)
    {a y : Bytes} (hs : strayAt p = some (a, y)) :
    parseVlessLike σ (p.join ++ t) p.join.length type n =
      (if urlRc a ≠ 0 then .ok none
      else do
        let hplen ← usub σ (← usub σ p.main.length a.length) 1
        match ← parseHostPort σ (y ++ t) hplen with
        | none => .ok none
        | some (host, port) =>
          parseTail σ (p.join ++ t) p.join.length p.fragIdx p.queryIdx applyQuery
            { credNode type (CStr.ofBytes (urlText a).1) n with server := some host, port := port }) := by
  obtain ⟨hq, hj, ha, hlt⟩ := strayAt_some hs
  have hqi : p.queryIdx = p.join.length := by simp [LinkParts.queryIdx, hq]
  have hscan : scan (p.join ++ t) (ch '@') 0 p.queryIdx = .ok (some a.length) := by
    have := scan_hit_zero (c := ch '@') (x := a) (y := y ++ t) (n := p.queryIdx) ha (by rw [hqi, hj]; simp)
    rwa [hj, List.append_assoc]
  have hane : a ≠ [] := by rintro rfl; simp at hlt
  have hj' : p.join ++ t = a ++ (ch '@' :: (y ++ t)) := by rw [hj]; simp
  have hd : (p.join ++ t).drop (a.length + 1) = y ++ t := by
    rw [hj', ← List.drop_drop, List.drop_left]; rfl
  have hurl : urlDecode (p.join ++ t) a.length .init = .ok (urlRc a, Strbuf.init.push (urlText a).1) := by
    rw [hj']; exact urlDecode_eq ..
  rw [parseVlessLike_step σ hp t type n hscan]
  simp only [Option.getD_some]
  rw [if_neg (by rw [hj]; simp), hurl, ok_bind]
  simp only
  by_cases hrc : urlRc a = 0
  · rw [if_neg (not_not.2 hrc), if_neg (not_not.2 hrc), xstrdup_push hrc, if_neg hane, ok_bind, hd]
  · rw [if_pos hrc, if_pos hrc]

/-- A run that traps on a wrapped length stops at a stray `@` with valid escapes before it. -/
theorem parseVlessLike_stray_checked {p : LinkParts} (hp : p.WF) (t : Bytes) (type : NodeType) (n : ProxyNode)
    {a y : Bytes} (hs : strayAt p = some (a, y)) :
    parseVlessLike .checked (p.join ++ t) p.join.length type n =
      if urlRc a ≠ 0 then .ok none else .error .wrap := by
  rw [parseVlessLike_stray .checked hp t type n hs, usub_wrap (strayAt_some hs).2.2.2]; rfl

/-- Text that starts with `[` and has a `]` with a byte behind it. -/
def BracketClosed (s : Bytes) : Prop := ∃ h d z, s = ch '[' :: (h ++ ch ']' :: d :: z)

theorem not_bracketClosed_end {x : Bytes} (hx : ch ']' ∉ x) : ¬ BracketClosed (ch '[' :: (x ++ [ch ']'])) := by
  rintro ⟨h, d, z, he⟩
  have he := (List.cons.inj he).2
  rcases List.append_eq_append_iff.1 he with ⟨as, rfl, ha⟩ | ⟨as, rfl, ha⟩
  · cases as <;> simp at ha
  · cases as with
    | nil => simp at ha
    | cons a as =>
      simp only [List.cons_append, List.cons.injEq] at ha
      exact hx (by simp [ha.1])

/-- The `]` is looked for in vain when the text has none. -/
theorem scan_bracket_past {r : Bytes} {len : Nat} (h : r.length + 2 < len) (hr : ch ']' ∉ r) :
    scan (ch '[' :: r) (ch ']') 1 (len - 1) = .error .oob := by
  rcases hsc : scan (ch '[' :: r) (ch ']') 1 (len - 1) with e | _ | j
  · rw [scan_error hsc]
  · rcases scan_none hsc with h' | h'
    · omega
    · simp only [List.length_cons] at h'; omega
  · obtain ⟨h1, -, h3⟩ := scan_some hsc
    obtain ⟨j, rfl⟩ : ∃ k, j = k + 1 := ⟨j - 1, by omega⟩
    exact absurd (List.mem_of_getElem? (by simpa using h3)) hr

theorem parseHostPortBracket_past {r : Bytes} {len : Nat} (h : r.length + 1 + 17 ≤ len) :
    (BracketClosed (ch '[' :: r) ∧ parseHostPortBracket .machine (ch '[' :: r) len = .ok none) ∨
      (¬ BracketClosed (ch '[' :: r) ∧ parseHostPortBracket .machine (ch '[' :: r) len = .error .oob) := by
  rw [parseHostPortBracket]
  rcases first_split (ch ']') r with hr | ⟨x, y, rfl, hx⟩
  · -- no `]`: the scan leaves the buffer
    refine .inr ⟨?_, ?_⟩
    · rintro ⟨h, d, z, he⟩
      exact hr (by rw [(List.cons.inj he).2]; simp)
    · rw [scan_bracket_past (by omega) hr]; rfl
  · have hsc := scan_hit (c := ch ']') (p := [ch '[']) (x := x) (y := y) (n := len - 1) hx (by simp at h; omega)
    simp only [List.cons_append, List.nil_append, List.length_singleton] at hsc
    rw [hsc, ok_bind]
    simp only
    rw [if_neg (by simp at h; omega)]
    rcases y with _ | ⟨d, z⟩
    · -- the `]` is the last byte, and the one behind it is read
      refine .inr ⟨not_bracketClosed_end hx, ?_⟩
      rw [rd_oob (by simp)]; rfl
    · have hd : rd (ch '[' :: (x ++ ch ']' :: d :: z)) (1 + x.length + 1) = .ok d := by
        have := rd_append_cons (ch '[' :: (x ++ [ch ']'])) d z
        simpa [Nat.add_comm, Nat.add_left_comm, Nat.add_assoc] using this
      refine .inl ⟨⟨x, d, z, rfl⟩, ?_⟩
      rw [hd, ok_bind]
      simp only [List.length_append, List.length_cons] at h
      split
      · rfl
      · -- the port would be too long a segment
        rw [usub_le _ (by omega), ok_bind, usub_le _ (by omega), ok_bind, usub_le _ (by omega), ok_bind]
        exact if_pos (.inr (.inr (by omega)))

/-- With a length far past the buffer, `parse_host_port` fails on a closed bracket and leaves the
buffer otherwise. -/
theorem parseHostPort_past {s : Bytes} {len : Nat} (h : s.length + 17 ≤ len) :
    (BracketClosed s ∧ parseHostPort .machine s len = .ok none) ∨
      (¬ BracketClosed s ∧ parseHostPort .machine s len = .error .oob) := by
  unfold parseHostPort startsBracket
  rw [if_pos (by omega)]
  rcases s with _ | ⟨c, r⟩
  · exact .inr ⟨nofun, rfl⟩
  rw [rd_cons_zero, ok_bind, ok_bind]
  by_cases hc : c = ch '['
  · subst hc
    rw [if_pos (by simp)]
    exact parseHostPortBracket_past (by simpa using h)
  · -- the last `:` is looked for in every byte up to the length
    have hno : ¬ BracketClosed (c :: r) := by
      rintro ⟨h, d, z, he⟩; exact hc (List.cons.inj he).1
    rw [if_neg (by simpa using hc)]
    refine .inr ⟨hno, ?_⟩
    rw [parseHostPortBare, scanLast_oob (by simp at h ⊢; omega) (by omega)]; rfl

/-- A stray `@` on the machine: the link is refused, or the run leaves its buffer. -/
theorem parseVlessLike_stray_machine {p : LinkParts} (hp : p.WF) {t : Bytes} (type : NodeType) (n : ProxyNode)
    {a y : Bytes} (hs : strayAt p = some (a, y)) (hlen : (p.join ++ t).length < 2 ^ 63) :
    ((urlRc a ≠ 0 ∨ BracketClosed (y ++ t)) ∧ parseVlessLike .machine (p.join ++ t) p.join.length type n = .ok none) ∨
      ((urlRc a = 0 ∧ ¬ BracketClosed (y ++ t)) ∧
        parseVlessLike .machine (p.join ++ t) p.join.length type n = .error .oob) := by
  obtain ⟨-, hj, -, hlt⟩ := strayAt_some hs
  have hl : a.length + 1 + y.length + t.length < 2 ^ 63 := by
    have : (p.join ++ t).length = a.length + 1 + y.length + t.length := by rw [hj]; simp; omega
    omega
  rw [parseVlessLike_stray .machine hp t type n hs]
  by_cases hrc : urlRc a = 0
  swap
  · exact .inl ⟨.inl hrc, if_pos hrc⟩
  rw [if_neg (not_not.2 hrc), usub_machine hlt, ok_bind, usub_le _ (by unfold sizeMod; omega), ok_bind]
  have hpast := parseHostPort_past (s := y ++ t)
    (show (y ++ t).length + 17 ≤ sizeMod + p.main.length - a.length - 1 by unfold sizeMod; simp; omega)
  rcases hpast with ⟨hb, h⟩ | ⟨hb, h⟩
  · rw [h]; exact .inl ⟨.inr hb, rfl⟩
  · rw [h]; exact .inr ⟨⟨hrc, hb⟩, rfl⟩

end SubConverter
