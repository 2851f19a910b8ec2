/-
What `parse_query` computes: the segments it takes from the query, with its reading of an `=` or
`&` at index 0 as absent, and the run of the two shared buffers over them. The buffers are null
only until the first byte comes, so a null pointer reaches `xstrdup` exactly at the first pair.
-/
import SubConverter.Share.Segments

namespace SubConverter

open CMem

/-! ## The pairs of a query -/

/-- The segments with an `=`, split at the first one. -/
def rawPairs (b : Bytes) : List (Bytes × Bytes) :=
  match _h : cut (ch '&') b with
  | none => (cut (ch '=') b).toList
  | some (seg, rest) => (cut (ch '=') seg).toList ++ rawPairs rest
termination_by b.length
decreasing_by
  have := (cut_some _h).1
  subst this; simp; omega

/-- The pairs `parse_query` decodes. At the start of the query an index 0 stands for "not found": a
leading `&` is taken into the first key and ends the loop, a leading `=` skips its segment. -/
def queryPairs (q : Bytes) : List (Bytes × Bytes) :=
  if q.head? = some (ch '&') then (cut (ch '=') q).toList
  else if q.head? = some (ch '=') then
    match cut (ch '&') q with
    | none => []
    | some (_, rest) => rawPairs rest
  else rawPairs q

/-- One pair on the two shared buffers. -/
def pairStep (k v : Bytes) (ksb vsb : Strbuf) : Run (Option (Strbuf × Strbuf × KvPair)) :=
  if urlRc k ≠ 0 ∨ urlRc v ≠ 0 then .ok none
  else do
    let ksb := ksb.clear.push (urlText k).1
    let vsb := vsb.clear.push (urlText v).1
    let key ← xstrdup ksb.data
    let value ← xstrdup vsb.data
    .ok (some (ksb, vsb, ⟨key, value⟩))

/-- `parse_query` over its pairs. -/
def pairsRun : List (Bytes × Bytes) → Strbuf → Strbuf → List KvPair → Run (Option (List KvPair))
  | [], _, _, acc => .ok (some acc)
  | (k, v) :: ps, ksb, vsb, acc => do
    match ← pairStep k v ksb vsb with
    | none => .ok none
    | some (ksb, vsb, kv) => pairsRun ps ksb vsb (acc ++ [kv])

theorem rawPairs_last {b : Bytes} (h : ch '&' ∉ b) : rawPairs b = (cut (ch '=') b).toList := by
  rw [rawPairs]; split
  · rfl
  · rename_i h'; rw [cut_none h] at h'; cases h'

theorem rawPairs_cons {x y : Bytes} (h : ch '&' ∉ x) :
    rawPairs (x ++ ch '&' :: y) = (cut (ch '=') x).toList ++ rawPairs y := by
  rw [rawPairs]; split
  · rename_i h'; rw [cut_append h] at h'; cases h'
  · rename_i h'; rw [cut_append h] at h'; cases h'; rfl

theorem rawPairs_nil : rawPairs [] = [] := by rw [rawPairs_last (by simp)]; rfl

/-! ## The loop -/

theorem parseQueryPair_eq (σ : Arith) (p k v t : Bytes) (ksb vsb : Strbuf) :
    parseQueryPair σ (p ++ (k ++ ch '=' :: (v ++ t))) p.length (p.length + k.length)
      (p.length + k.length + 1 + v.length) ksb vsb = pairStep k v ksb vsb := by
  unfold parseQueryPair pairStep
  have h1 : (p ++ (k ++ ch '=' :: (v ++ t))).drop p.length = k ++ (ch '=' :: (v ++ t)) := List.drop_left
  have h2 : (p ++ (k ++ ch '=' :: (v ++ t))).drop (p.length + k.length + 1) = v ++ t := by
    rw [← List.drop_drop, ← List.drop_drop, h1, List.drop_left]; rfl
  rw [usub_le σ (by omega), ok_bind, h1, show p.length + k.length - p.length = k.length by omega, urlDecode_eq,
    ok_bind]
  simp only
  by_cases hk : urlRc k = 0
  · rw [if_neg (by simpa using hk), usub_le σ (by omega), ok_bind, usub_le σ (by omega), ok_bind, h2,
      show p.length + k.length + 1 + v.length - (p.length + k.length) - 1 = v.length by omega, urlDecode_eq,
      ok_bind]
    by_cases hv : urlRc v = 0 <;> simp [hk, hv]
  · simp [hk]

/-- A scan of what lies behind `p` for a byte that is not there. -/
theorem scan_rest_miss {c : Byte} {p r t : Bytes} (h : c ∉ r) :
    scan (p ++ (r ++ t)) c p.length r.length = .ok none := by
  rw [← List.append_assoc]; exact scan_miss h

/-- A scan of what lies behind `p` for a byte with `x` before it. -/
theorem scan_rest_hit {c : Byte} {p x y t : Bytes} (h : c ∉ x) :
    scan (p ++ ((x ++ c :: y) ++ t)) c p.length (x ++ c :: y).length = .ok (some (p.length + x.length)) := by
  rw [List.append_assoc, ← List.append_assoc]; exact scan_hit h (by simp)

/-- A scan of a segment finds nothing before its end: either nothing at all or something later. -/
theorem scan_rest_later {c : Byte} {p x y t : Bytes} (h : c ∉ x) :
    ∃ r, scan (p ++ ((x ++ y) ++ t)) c p.length (x ++ y).length = .ok r ∧ ∀ j ∈ r, p.length + x.length ≤ j := by
  rcases first_split c y with hy | ⟨u, v, rfl, hu⟩
  · exact ⟨none, scan_rest_miss (by simp [h, hy]), by simp⟩
  · have := scan_rest_hit (c := c) (p := p) (x := x ++ u) (y := v) (t := t) (by simp [h, hu])
    rw [List.append_assoc x] at this
    exact ⟨_, this, by simp⟩

/-- No `=` or `&` of `r` behind the prefix `p` is at index 0. -/
def NoZeroIndex (p r : Bytes) : Prop :=
  ∀ x c y, r = x ++ c :: y → c = ch '&' ∨ c = ch '=' → p.length + x.length ≠ 0

theorem noZeroIndex_of_ne_nil {p : Bytes} (h : p ≠ []) (r : Bytes) : NoZeroIndex p r := by
  intro x c y _ _
  have := List.length_pos_iff.2 h; omega

/-- The loop on the last segment, where no index is 0. -/
theorem parseQueryLoop_last (σ : Arith) (t : Bytes) {r : Bytes} (hamp : ch '&' ∉ r) (n : Nat) {p : Bytes}
    (hp : NoZeroIndex p r) (ksb vsb : Strbuf) (acc : List KvPair) :
    parseQueryLoop σ (p ++ (r ++ t)) (p.length + r.length) (n + 1) p.length ksb vsb acc =
      pairsRun (rawPairs r) ksb vsb acc := by
  rw [parseQueryLoop]
  rcases first_split (ch '=') r with heq | ⟨k, v, rfl, hk⟩
  · -- no `=`: the segment is passed over, an empty one ends the loop at once
    rw [rawPairs_last hamp, cut_none heq]
    split
    · rw [Nat.add_sub_cancel_left, scan_rest_miss heq, ok_bind, scan_rest_miss hamp, ok_bind]; simp [pairsRun]
    · rfl
  · rw [rawPairs_last hamp, cut_append hk, if_pos (by simp), Nat.add_sub_cancel_left, scan_rest_hit hk, ok_bind,
      scan_rest_miss hamp, ok_bind]
    simp only [Option.getD_some, Option.getD_none, ne_eq, not_true_eq_false, if_false, Option.toList_some]
    have hlen : p.length + (k ++ ch '=' :: v).length = p.length + k.length + 1 + v.length := by simp; omega
    rw [if_pos ⟨hp k _ v rfl (.inr rfl), by simp⟩, hlen, List.append_assoc, List.cons_append, parseQueryPair_eq]
    rfl

/-- The loop on a segment with `&` behind it, given what it does behind that `&`. -/
theorem parseQueryLoop_cons (σ : Arith) (t : Bytes) {x y : Bytes} (hx : ch '&' ∉ x) (n : Nat) {p : Bytes}
    (hp : NoZeroIndex p (x ++ ch '&' :: y))
    (hrest : ∀ (ksb vsb : Strbuf) (acc : List KvPair),
      parseQueryLoop σ (p ++ ((x ++ ch '&' :: y) ++ t)) (p.length + (x ++ ch '&' :: y).length) n
        (p.length + x.length + 1) ksb vsb acc = pairsRun (rawPairs y) ksb vsb acc) (ksb vsb : Strbuf) (acc : List KvPair) :
    parseQueryLoop σ (p ++ ((x ++ ch '&' :: y) ++ t)) (p.length + (x ++ ch '&' :: y).length) (n + 1) p.length ksb vsb acc =
      pairsRun (rawPairs (x ++ ch '&' :: y)) ksb vsb acc := by
  have hamp : p.length + x.length ≠ 0 := hp x _ y rfl (.inl rfl)
  rw [parseQueryLoop, rawPairs_cons hx, if_pos (by simp), Nat.add_sub_cancel_left]
  rcases first_split (ch '=') x with heq | ⟨k, v, rfl, hk⟩
  · -- the next `=`, if any, is behind the `&` and belongs to a later segment
    obtain ⟨e, he, hle⟩ := scan_rest_later (c := ch '=') (p := p) (x := x) (y := ch '&' :: y) (t := t) heq
    rw [he, ok_bind, scan_rest_hit hx, ok_bind]
    simp only [Option.getD_some, cut_none heq, Option.toList_none, List.nil_append]
    rw [if_pos hamp, if_neg (by cases e with
      | none => simp
      | some j => have := hle j rfl; simp; omega), if_neg hamp, hrest]
  · have he := scan_rest_hit (c := ch '=') (p := p) (x := k) (y := v ++ ch '&' :: y) (t := t) hk
    have hl : k ++ ch '=' :: (v ++ ch '&' :: y) = k ++ ch '=' :: v ++ ch '&' :: y := by simp
    rw [hl] at he
    have hpair := parseQueryPair_eq σ p k v (ch '&' :: y ++ t) ksb vsb
    rw [show p.length + k.length + 1 + v.length = p.length + (k ++ ch '=' :: v).length by simp; omega,
      show p ++ (k ++ ch '=' :: (v ++ (ch '&' :: y ++ t))) = p ++ ((k ++ ch '=' :: v ++ ch '&' :: y) ++ t) by simp]
      at hpair
    rw [he, ok_bind, scan_rest_hit hx, ok_bind]
    simp only [Option.getD_some, cut_append hk, Option.toList_some, List.cons_append, List.nil_append, pairsRun]
    rw [if_pos hamp, if_pos ⟨hp k _ (v ++ ch '&' :: y) (by simp) (.inr rfl), by simp⟩]
    simp only [List.append_assoc, List.cons_append] at hpair hrest ⊢
    rw [hpair]
    congr 1; funext r
    rcases r with _ | ⟨ksb, vsb, kv⟩
    · rfl
    · simp only; rw [if_neg hamp]; exact hrest ksb vsb (acc ++ [kv])

/-- The loop where no index is 0. -/
theorem parseQueryLoop_eq (σ : Arith) (t : Bytes) : ∀ (n : Nat) (r : Bytes), r.length < n → ∀ (p : Bytes),
    NoZeroIndex p r → ∀ (ksb vsb : Strbuf) (acc : List KvPair),
      parseQueryLoop σ (p ++ (r ++ t)) (p.length + r.length) n p.length ksb vsb acc =
        pairsRun (rawPairs r) ksb vsb acc := by
  intro n
  induction n with
  | zero => intro r h; omega
  | succ n ih =>
    intro r hr p hp ksb vsb acc
    rcases first_split (ch '&') r with hamp | ⟨x, y, rfl, hx⟩
    · exact parseQueryLoop_last σ t hamp n hp ksb vsb acc
    · refine parseQueryLoop_cons σ t hx n hp (fun ksb vsb acc => ?_) ksb vsb acc
      -- behind the `&` the prefix is not empty, so no index is 0 there either
      have := ih y (by simp at hr; omega) (p ++ (x ++ [ch '&'])) (noZeroIndex_of_ne_nil (by simp) y) ksb vsb acc
      simpa [Nat.add_assoc, Nat.add_comm, Nat.add_left_comm] using this

theorem parseQueryLoop_amp (σ : Arith) (r t : Bytes) (n : Nat) :
    parseQueryLoop σ (ch '&' :: r ++ t) (ch '&' :: r).length (n + 1) 0 .init .init [] =
      pairsRun (cut (ch '=') (ch '&' :: r)).toList .init .init [] := by
  rw [parseQueryLoop, if_pos (by simp), Nat.sub_zero]
  have hamp : scan (ch '&' :: r ++ t) (ch '&') 0 (ch '&' :: r).length = .ok (some 0) :=
    scan_hit_zero (x := []) (y := r ++ t) (by simp) (by simp)
  rcases first_split (ch '=') r with heq | ⟨k, v, rfl, hk⟩
  · have hno : ch '=' ∉ ch '&' :: r := by simp only [List.mem_cons, not_or]; exact ⟨by decide, heq⟩
    rw [scan_miss_zero hno, ok_bind, hamp, ok_bind, cut_none hno]; simp [pairsRun]
  · have hk' : ch '=' ∉ ch '&' :: k := by simp only [List.mem_cons, not_or]; exact ⟨by decide, hk⟩
    have he := scan_hit_zero (c := ch '=') (x := ch '&' :: k) (y := v ++ t)
      (n := (ch '&' :: (k ++ ch '=' :: v)).length) hk' (by simp)
    have hpair := parseQueryPair_eq σ [] (ch '&' :: k) v t .init .init
    simp only [List.nil_append, List.cons_append, List.append_assoc, List.length_nil, Nat.zero_add] at he hpair hamp ⊢
    rw [he, ok_bind, hamp, ok_bind, ← List.cons_append, cut_append hk']
    simp only [Option.getD_some, ne_eq, not_true_eq_false, if_false, Option.toList_some, pairsRun]
    rw [if_pos ⟨by simp, by simp⟩, show (ch '&' :: k ++ ch '=' :: v).length = (ch '&' :: k).length + 1 + v.length by
      simp; omega, hpair]
    rfl

theorem parseQueryLoop_eqSign (σ : Arith) (r t : Bytes) (n : Nat) (hn : r.length < n) :
    parseQueryLoop σ (ch '=' :: r ++ t) (ch '=' :: r).length (n + 1) 0 .init .init [] =
      pairsRun (match cut (ch '&') (ch '=' :: r) with
        | none => []
        | some (_, rest) => rawPairs rest) .init .init [] := by
  rw [parseQueryLoop, if_pos (by simp), Nat.sub_zero]
  have heq : scan (ch '=' :: r ++ t) (ch '=') 0 (ch '=' :: r).length = .ok (some 0) :=
    scan_hit_zero (x := []) (y := r ++ t) (by simp) (by simp)
  rw [heq, ok_bind]
  rcases first_split (ch '&') r with hamp | ⟨x, y, rfl, hx⟩
  · have hno : ch '&' ∉ ch '=' :: r := by simp only [List.mem_cons, not_or]; exact ⟨by decide, hamp⟩
    rw [scan_miss_zero hno, ok_bind, cut_none hno]; simp [pairsRun]
  · have hx' : ch '&' ∉ ch '=' :: x := by simp only [List.mem_cons, not_or]; exact ⟨by decide, hx⟩
    have ha := scan_hit_zero (c := ch '&') (x := ch '=' :: x) (y := y ++ t)
      (n := (ch '=' :: (x ++ ch '&' :: y)).length) hx' (by simp)
    have hrest := parseQueryLoop_eq σ t n y (by simp at hn; omega) (ch '=' :: x ++ [ch '&'])
      (noZeroIndex_of_ne_nil (by simp) y) .init .init []
    have hl : (ch '=' :: (x ++ ch '&' :: y)).length = (ch '=' :: (x ++ [ch '&'])).length + y.length := by
      simp; omega
    simp only [List.nil_append, List.cons_append, List.append_assoc] at ha hrest ⊢
    rw [ha, ok_bind, ← List.cons_append, cut_append hx', if_neg (by simp), if_neg (by simp), List.cons_append, hl,
      ← hrest]
    simp

/-- `parse_query` on a segment: it reads nothing else and no length wraps. -/
theorem parseQuery_eq (σ : Arith) (q t : Bytes) :
    parseQuery σ (q ++ t) q.length = pairsRun (queryPairs q) .init .init [] := by
  unfold parseQuery queryPairs
  rcases q with _ | ⟨a, r⟩
  · have := parseQueryLoop_eq σ t 1 [] (by simp) [] (by intro x c y h; simp at h) .init .init []
    simpa using this
  · by_cases ha : a = ch '&'
    · subst ha; rw [if_pos (by simp)]; exact parseQueryLoop_amp ..
    · by_cases he : a = ch '='
      · subst he; rw [if_neg (by simp; decide), if_pos (by simp)]
        exact parseQueryLoop_eqSign σ r t _ (by simp)
      · rw [if_neg (by simpa using ha), if_neg (by simpa using he)]
        have := parseQueryLoop_eq σ t ((a :: r).length + 1) (a :: r) (by simp) [] (by
          intro x c y h hc
          rcases x with _ | ⟨b, x⟩
          · obtain rfl : a = c := by simpa using congrArg List.head? h
            rcases hc with rfl | rfl
            · exact absurd rfl ha
            · exact absurd rfl he
          · simp) .init .init []
        simpa using this

/-! ## When a null pointer is duplicated -/

/-- The pairs of a query as `parse_query` stores them, `none` for a bad escape. -/
def decodePairs : List (Bytes × Bytes) → Option (List KvPair)
  | [] => some []
  | (k, v) :: ps =>
    if urlRc k ≠ 0 ∨ urlRc v ≠ 0 then none
    else (decodePairs ps).map (⟨CStr.ofBytes (urlText k).1, CStr.ofBytes (urlText v).1⟩ :: ·)

/-- The first pair has an empty key or value, and its escapes are valid. -/
def emptyFirstPair : List (Bytes × Bytes) → Prop
  | [] => False
  | (k, v) :: _ => urlRc k = 0 ∧ urlRc v = 0 ∧ (k = [] ∨ v = [])

instance : DecidablePred emptyFirstPair := fun l => by
  unfold emptyFirstPair; split <;> infer_instance

/-- With both buffers allocated no duplication fails. -/
theorem pairsRun_allocated : ∀ (ps : List (Bytes × Bytes)) (ksb vsb : Strbuf) (acc : List KvPair),
    ksb.data ≠ none → vsb.data ≠ none →
      pairsRun ps ksb vsb acc = .ok ((decodePairs ps).map (acc ++ ·))
  | [], ksb, vsb, acc, _, _ => by simp [pairsRun, decodePairs]
  | (k, v) :: ps, ksb, vsb, acc, hk, hv => by
    have hk' : (ksb.clear.push (urlText k).1).data ≠ none := by simp [Strbuf.data_push_eq_none, hk]
    have hv' : (vsb.clear.push (urlText v).1).data ≠ none := by simp [Strbuf.data_push_eq_none, hv]
    rw [pairsRun, pairStep, decodePairs]
    split
    · rfl
    · dsimp only
      rw [Strbuf.data_eq_some hk', Strbuf.data_eq_some hv']
      simp only [xstrdup, ok_bind]
      rw [pairsRun_allocated ps _ _ _ hk' hv']
      cases decodePairs ps <;> simp

/-- `parse_query` duplicates a null pointer exactly when its first pair has an empty key or value;
otherwise it returns the decoded pairs. -/
theorem pairsRun_init (ps : List (Bytes × Bytes)) :
    pairsRun ps .init .init [] = if emptyFirstPair ps then .error .null else .ok (decodePairs ps) := by
  rcases ps with _ | ⟨⟨k, v⟩, ps⟩
  · simp [pairsRun, decodePairs, emptyFirstPair]
  · rw [pairsRun, pairStep, decodePairs]
    by_cases hrc : urlRc k ≠ 0 ∨ urlRc v ≠ 0
    · rw [if_pos hrc, if_pos hrc, if_neg (by unfold emptyFirstPair; tauto)]; rfl
    · rw [if_neg hrc, if_neg hrc]
      dsimp only
      push Not at hrc
      obtain ⟨hk, hv⟩ := hrc
      have hnull : ∀ {b : Bytes}, urlRc b = 0 → ((Strbuf.init.clear.push (urlText b).1).data = none ↔ b = []) := by
        intro b hb; rw [Strbuf.data_push_eq_none, urlText_eq_nil hb]; simp [Strbuf.init]
      by_cases hke : k = []
      · rw [if_pos ⟨hk, hv, .inl hke⟩, (hnull hk).2 hke]; rfl
      · by_cases hve : v = []
        · rw [if_pos ⟨hk, hv, .inr hve⟩, Strbuf.data_eq_some (mt (hnull hk).1 hke), (hnull hv).2 hve]; rfl
        · have hk' := mt (hnull hk).1 hke
          have hv' := mt (hnull hv).1 hve
          rw [if_neg (by unfold emptyFirstPair; tauto), Strbuf.data_eq_some hk', Strbuf.data_eq_some hv']
          simp only [xstrdup, ok_bind]
          rw [pairsRun_allocated ps _ _ _ hk' hv']
          cases decodePairs ps <;> simp

/-! ## Written queries -/

/-- `k=v&k=v...`. -/
def joinPairs (ps : List (Bytes × Bytes)) : Bytes := [ch '&'].intercalate (ps.map fun p => p.1 ++ ch '=' :: p.2)

/-- The delimiters do not stand in a key or a value. -/
def PlainPair (p : Bytes × Bytes) : Prop := ch '=' ∉ p.1 ∧ ch '&' ∉ p.1 ∧ ch '&' ∉ p.2

theorem joinPairs_cons (p p' : Bytes × Bytes) (ps : List (Bytes × Bytes)) :
    joinPairs (p :: p' :: ps) = p.1 ++ ch '=' :: p.2 ++ ch '&' :: joinPairs (p' :: ps) := by
  simp [joinPairs, List.intercalate_cons_cons]

theorem joinPairs_singleton (p : Bytes × Bytes) : joinPairs [p] = p.1 ++ ch '=' :: p.2 := by simp [joinPairs]

theorem PlainPair.amp {p : Bytes × Bytes} (h : PlainPair p) : ch '&' ∉ p.1 ++ ch '=' :: p.2 := by
  rw [List.mem_append, List.mem_cons, not_or, not_or]
  exact ⟨h.2.1, by decide, h.2.2⟩

/-- Pairs that are written down are found again. -/
theorem rawPairs_joinPairs : ∀ {ps : List (Bytes × Bytes)}, (∀ p ∈ ps, PlainPair p) → rawPairs (joinPairs ps) = ps
  | [], _ => rawPairs_nil
  | [p], h => by
    have hp := h p (by simp)
    rw [joinPairs_singleton, rawPairs_last hp.amp, cut_append hp.1]
    rfl
  | p :: p' :: ps, h => by
    have hp := h p (by simp)
    rw [joinPairs_cons, rawPairs_cons hp.amp, rawPairs_joinPairs fun q hq => h q (List.mem_cons_of_mem _ hq),
      cut_append hp.1]
    rfl

/-- A query starts with the first byte of its first key. -/
theorem head_joinPairs {ps : List (Bytes × Bytes)} (h : ∀ p ∈ ps, p.1 ≠ []) {c : Byte} (hc : ∀ p ∈ ps, c ∉ p.1) :
    (joinPairs ps).head? ≠ some c := by
  rcases ps with _ | ⟨p, ps⟩
  · simp [joinPairs]
  · obtain ⟨a, r, har⟩ := List.exists_cons_of_ne_nil (h p (by simp))
    have hhead : (joinPairs (p :: ps)).head? = some a := by
      rcases ps with _ | ⟨p', ps⟩
      · simp [joinPairs_singleton, har]
      · simp [joinPairs_cons, har]
    rw [hhead]
    intro ha
    cases ha
    exact hc p (by simp) (by rw [har]; simp)

theorem queryPairs_joinPairs {ps : List (Bytes × Bytes)} (h : ∀ p ∈ ps, PlainPair p) (hne : ∀ p ∈ ps, p.1 ≠ []) :
    queryPairs (joinPairs ps) = ps := by
  rw [queryPairs, if_neg (head_joinPairs hne fun p hp => (h p hp).2.1),
    if_neg (head_joinPairs hne fun p hp => (h p hp).1), rawPairs_joinPairs h]

/-- A byte of a query is a delimiter or stands in a pair. -/
theorem not_mem_joinPairs {c : Byte} (ha : c ≠ ch '&') (he : c ≠ ch '=') : ∀ {ps : List (Bytes × Bytes)},
    (∀ p ∈ ps, c ∉ p.1 ∧ c ∉ p.2) → c ∉ joinPairs ps
  | [], _ => by simp [joinPairs]
  | [p], h => by
    have hp := h p (by simp)
    simp [joinPairs_singleton, hp.1, hp.2, he]
  | p :: p' :: ps, h => by
    have hp := h p (by simp)
    have ih := not_mem_joinPairs ha he fun q hq => h q (List.mem_cons_of_mem _ hq)
    simp [joinPairs_cons, hp.1, hp.2, ha, he, ih]

theorem decodePairs_valid : ∀ {ps : List (Bytes × Bytes)}, (∀ p ∈ ps, urlRc p.1 = 0 ∧ urlRc p.2 = 0) →
    decodePairs ps = some (ps.map fun p => ⟨CStr.ofBytes (urlText p.1).1, CStr.ofBytes (urlText p.2).1⟩)
  | [], _ => rfl
  | p :: ps, h => by
    have hp := h p (by simp)
    rw [decodePairs, if_neg (by simp [hp.1, hp.2]), decodePairs_valid fun q hq => h q (List.mem_cons_of_mem _ hq)]
    rfl

end SubConverter
