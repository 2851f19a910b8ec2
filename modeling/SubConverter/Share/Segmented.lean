/-
Whether `parse_query` reads a query segment by segment. It does unless an index 0 stands for "not found", at
a leading `&` or `=`, or the first pair has an empty part and a null pointer is duplicated.
-/
import SubConverter.Coding.Percent
import SubConverter.Share.Query

namespace SubConverter

open CMem

/-! ## Segments -/

/-- The pairs of the segments between the `&`, each split at its first `=`; `none` for a bad escape. -/
def segmentPairs (q : Bytes) : Option (List KvPair) := decodePairs ((q.splitOn (ch '&')).filterMap (cut (ch '=')))

/-- `parse_query` returns the pairs of the segments, or -1 for a bad escape in one of them. -/
def ReadsSegments (q : Bytes) : Prop := ∀ σ t, parseQuery σ (q ++ t) q.length = .ok (segmentPairs q)

/-- A query put together from two is read as the two. -/
structure QueryLaw (a b : Bytes) : Prop where
  fails : ∀ σ t, parseQuery σ (a ++ ch '&' :: b ++ t) (a ++ ch '&' :: b).length = .ok none ↔
    parseQuery σ (a ++ t) a.length = .ok none ∨ parseQuery σ (b ++ t) b.length = .ok none
  pairs : ∀ σ t, ¬ (parseQuery σ (a ++ t) a.length = .ok none ∨ parseQuery σ (b ++ t) b.length = .ok none) →
    ∃ pa pb, parseQuery σ (a ++ t) a.length = .ok (some pa) ∧ parseQuery σ (b ++ t) b.length = .ok (some pb) ∧
      parseQuery σ (a ++ ch '&' :: b ++ t) (a ++ ch '&' :: b).length = .ok (some (pa ++ pb))
  segments : ∀ q ∈ [a, b, a ++ ch '&' :: b], ReadsSegments q

/-- The first segment with an `=` has nothing before or behind it, and no bad escape. -/
def EmptyFirst (q : Bytes) : Prop := emptyFirstPair ((q.splitOn (ch '&')).filterMap (cut (ch '=')))

/-- The text `k` before the first `=` of a query ends in a key `y` that stands for the same C string as `k` with
an `&` in front, and no other pair follows: an escaped NUL ends that string before the last `&` of `k`. -/
def HiddenAmp (k v : Bytes) : Prop :=
  urlRc k = 0 ∧ urlRc v = 0 ∧ v ≠ [] ∧
    (∃ x y, k = x ++ ch '&' :: y ∧ ch '&' ∉ y ∧ 0 ∈ (urlText x).1 ∧
      (CStr.ofBytes (urlText y).1).bytes = ch '&' :: (CStr.ofBytes (urlText x).1).bytes) ∧
    ∀ z w, v = z ++ ch '&' :: w → ch '&' ∉ z → 0 ∈ (urlText z).1 ∧ ch '=' ∉ w

/-- The queries that are read segment by segment. -/
def Segmented (q : Bytes) : Prop :=
  if q.head? = some (ch '&') then
    segmentPairs q = none ∨ ∀ k v, q = ch '&' :: (k ++ ch '=' :: v) → ch '=' ∉ k → HiddenAmp k v
  else if q.head? = some (ch '=') then
    ∃ v rest, q = v ++ ch '&' :: rest ∧ ch '&' ∉ v ∧ segmentPairs rest = none ∧ ¬ EmptyFirst rest
  else ¬ EmptyFirst q

theorem rawPairs_eq : ∀ (n : Nat) (q : Bytes), q.length < n → rawPairs q = (q.splitOn (ch '&')).filterMap (cut (ch '='))
  | n + 1, q, hn => by
    rcases first_split (ch '&') q with h | ⟨x, y, rfl, h⟩
    · rw [rawPairs_last h, List.splitOn_eq_singleton h]
      cases hc : cut (ch '=') q <;> simp [hc]
    · rw [rawPairs_cons h, List.splitOn_append_cons_self, List.splitOn_eq_singleton h, List.singleton_append,
        List.filterMap_cons, rawPairs_eq n y (by simp at hn; omega)]
      cases hc : cut (ch '=') x <;> simp

theorem segmentPairs_eq (q : Bytes) : segmentPairs q = decodePairs (rawPairs q) := by
  rw [rawPairs_eq (q.length + 1) q (Nat.lt_succ_self _), segmentPairs]

theorem emptyFirst_iff (q : Bytes) : EmptyFirst q ↔ emptyFirstPair (rawPairs q) := by
  rw [rawPairs_eq (q.length + 1) q (Nat.lt_succ_self _), EmptyFirst]

/-- The segments of a query put together from two are those of the two. -/
theorem rawPairs_append (a b : Bytes) : rawPairs (a ++ ch '&' :: b) = rawPairs a ++ rawPairs b := by
  rw [rawPairs_eq _ _ (Nat.lt_succ_self _), rawPairs_eq _ a (Nat.lt_succ_self _), rawPairs_eq _ b (Nat.lt_succ_self _),
    List.splitOn_append_cons_self, List.filterMap_append]

theorem cut_toList_nil_iff {c : Byte} {b : Bytes} : (cut c b).toList = [] ↔ c ∉ b := by
  rcases first_split c b with h | ⟨x, y, rfl, h⟩
  · simp [cut_none h, h]
  · simp [cut_append h]

theorem rawPairs_nil_iff : ∀ (n : Nat) {q : Bytes}, q.length < n → (rawPairs q = [] ↔ ch '=' ∉ q)
  | n + 1, q, hn => by
    rcases first_split (ch '&') q with h | ⟨x, y, rfl, h⟩
    · rw [rawPairs_last h, cut_toList_nil_iff]
    · rw [rawPairs_cons h, List.append_eq_nil_iff, cut_toList_nil_iff, rawPairs_nil_iff n (by simp at hn; omega),
        List.mem_append, List.mem_cons, or_iff_right (by decide : ch '=' ≠ ch '&'), not_or]

/-- The pair of the first segment, and what the segments behind it give. -/
theorem rawPairs_pair {k v : Bytes} (hk : ch '&' ∉ k) (he : ch '=' ∉ k) :
    (ch '&' ∉ v ∧ rawPairs (k ++ ch '=' :: v) = [(k, v)]) ∨
      ∃ y w, v = y ++ ch '&' :: w ∧ ch '&' ∉ y ∧ rawPairs (k ++ ch '=' :: v) = (k, y) :: rawPairs w := by
  have hno : ∀ y, ch '&' ∉ y → ch '&' ∉ k ++ ch '=' :: y := by
    intro y hy
    rw [List.mem_append, List.mem_cons, not_or, not_or]
    exact ⟨hk, by decide, hy⟩
  rcases first_split (ch '&') v with h | ⟨y, w, rfl, h⟩
  · refine .inl ⟨h, ?_⟩
    rw [rawPairs_last (hno v h), cut_append he]
    rfl
  · refine .inr ⟨y, w, rfl, h, ?_⟩
    rw [← List.cons_append, ← List.append_assoc, rawPairs_cons (hno y h), cut_append he]
    rfl

theorem decodePairs_append : ∀ (a b : List (Bytes × Bytes)), decodePairs (a ++ b) =
    (decodePairs a).bind fun pa => (decodePairs b).map (pa ++ ·)
  | [], b => by simp [decodePairs]
  | (k, v) :: a, b => by
    rw [List.cons_append, decodePairs, decodePairs]
    split
    · rfl
    · rw [decodePairs_append a b]
      cases decodePairs a with
      | none => rfl
      | some pa => cases decodePairs b <;> rfl

theorem segmentPairs_append (a b : Bytes) : segmentPairs (a ++ ch '&' :: b) =
    (segmentPairs a).bind fun pa => (segmentPairs b).map (pa ++ ·) := by
  rw [segmentPairs_eq, segmentPairs_eq, segmentPairs_eq, rawPairs_append, decodePairs_append]

/-! ## Escapes -/

theorem decodePairs_ne_none {ps : List (Bytes × Bytes)} (h : ∀ p ∈ ps, urlRc p.1 = 0 ∧ urlRc p.2 = 0) :
    decodePairs ps ≠ none := by
  induction ps with
  | nil => simp [decodePairs]
  | cons p ps ih =>
    rw [List.forall_mem_cons] at h
    obtain ⟨⟨hk, hv⟩, hps⟩ := h
    rw [decodePairs, if_neg (by simp [hk, hv]), ne_eq, Option.map_eq_none_iff]
    exact ih hps

/-- The segments of a query with valid escapes have valid escapes. -/
theorem urlRc_rawPairs : ∀ (n : Nat) {q : Bytes}, q.length < n → urlRc q = 0 →
    ∀ p ∈ rawPairs q, urlRc p.1 = 0 ∧ urlRc p.2 = 0
  | n + 1, q, hn, hq, p, hp => by
    have hcut : ∀ s, urlRc s = 0 → p ∈ (cut (ch '=') s).toList → urlRc p.1 = 0 ∧ urlRc p.2 = 0 := by
      intro s hs hm
      rcases hc : cut (ch '=') s with _ | ⟨k, v⟩
      · simp [hc] at hm
      · obtain ⟨rfl, -⟩ := cut_some hc
        rw [hc, Option.toList_some, List.mem_singleton] at hm
        subst hm
        exact (urlRc_separator (.inr rfl) k v).1 hs
    rcases first_split (ch '&') q with h | ⟨x, y, rfl, h⟩
    · rw [rawPairs_last h] at hp
      exact hcut q hq hp
    · obtain ⟨hx, hy⟩ := (urlRc_separator (.inl rfl) x y).1 hq
      rw [rawPairs_cons h] at hp
      rcases List.mem_append.1 hp with hp | hp
      · exact hcut x hx hp
      · exact urlRc_rawPairs n (by simp at hn; omega) hy p hp

/-! ## A leading separator -/

theorem readsSegments_iff (q : Bytes) : ReadsSegments q ↔
    ¬ emptyFirstPair (queryPairs q) ∧ decodePairs (queryPairs q) = decodePairs (rawPairs q) := by
  have hrun : ∀ σ t, parseQuery σ (q ++ t) q.length =
      if emptyFirstPair (queryPairs q) then .error .null else .ok (decodePairs (queryPairs q)) := by
    intro σ t
    rw [parseQuery_eq, pairsRun_init]
  constructor
  · intro h
    have hq := h .machine []
    rw [hrun, segmentPairs_eq] at hq
    split at hq
    · cases hq
    · rename_i hne
      exact ⟨hne, Except.ok.inj hq⟩
  · rintro ⟨hne, heq⟩ σ t
    rw [hrun, if_neg hne, heq, segmentPairs_eq]

theorem decodePairs_length : ∀ {ps : List (Bytes × Bytes)} {l : List KvPair}, decodePairs ps = some l →
    l.length = ps.length
  | [], _, h => by
    cases h
    rfl
  | (k, v) :: ps, l, h => by
    rw [decodePairs] at h
    split at h
    · cases h
    · obtain ⟨l', hl, rfl⟩ := Option.map_eq_some_iff.1 h
      rw [List.length_cons, List.length_cons, decodePairs_length hl]

/-- One pair more never decodes to the same pairs. -/
theorem decodePairs_cons_eq {p : Bytes × Bytes} {ps : List (Bytes × Bytes)} :
    decodePairs ps = decodePairs (p :: ps) ↔ decodePairs ps = none := by
  constructor
  · intro h
    rcases hd : decodePairs ps with _ | l
    · rfl
    · rw [hd] at h
      have hlen := decodePairs_length h.symm
      rw [List.length_cons, decodePairs_length hd] at hlen
      omega
  · intro h
    obtain ⟨k, v⟩ := p
    rw [decodePairs, h]
    split <;> rfl

/-- Some pairs decode to a single one. -/
theorem decodePairs_single_iff {y z : Bytes} {W : List (Bytes × Bytes)} {kv : KvPair} :
    decodePairs ((y, z) :: W) = some [kv] ↔ urlRc y = 0 ∧ urlRc z = 0 ∧ W = [] ∧
      CStr.ofBytes (urlText y).1 = kv.key ∧ CStr.ofBytes (urlText z).1 = kv.value := by
  rw [decodePairs]
  by_cases hrc : urlRc y ≠ 0 ∨ urlRc z ≠ 0
  · rw [if_pos hrc]
    refine iff_of_false (by simp) ?_
    rintro ⟨hy, hz, -⟩
    exact hrc.elim (· hy) (· hz)
  · rw [if_neg hrc]
    push Not at hrc
    constructor
    · intro h
      obtain ⟨l, hl, hcons⟩ := Option.map_eq_some_iff.1 h
      obtain ⟨rfl, rfl⟩ := List.cons.inj hcons
      exact ⟨hrc.1, hrc.2, List.length_eq_zero_iff.1 (decodePairs_length hl).symm, rfl, rfl⟩
    · rintro ⟨-, -, rfl, hk, hv⟩
      rw [hk, hv]
      rfl

/-- The string of a text ends at its first NUL, or goes on behind it. -/
theorem ofBytes_append (x y : Bytes) : (0 ∈ x → CStr.ofBytes (x ++ y) = CStr.ofBytes x) ∧
    (0 ∉ x → (CStr.ofBytes (x ++ y)).bytes = x ++ (CStr.ofBytes y).bytes) := by
  constructor
  · intro h
    obtain ⟨u, w, rfl, hu⟩ := List.eq_append_cons_of_mem h
    have hstop : ∀ r, CStr.ofBytes (u ++ 0 :: r) = ⟨u, hu⟩ := fun r => CStr.ofBytes_append_nul ⟨u, hu⟩ r
    rw [List.append_assoc, List.cons_append, hstop, hstop]
  · intro h
    refine List.takeWhile_append_of_pos fun c hc => ?_
    simp only [ne_eq, decide_eq_true_eq]
    rintro rfl
    exact h hc

/-- The pairs of a query behind a leading `&`: the first one has the last segment of `k` as its key. -/
theorem rawPairs_lastKey {k v : Bytes} (he : ch '=' ∉ k) : ∃ y z W, ch '&' ∉ y ∧ (k = y ∨ ∃ x, k = x ++ ch '&' :: y) ∧
    rawPairs (k ++ ch '=' :: v) = (y, z) :: W ∧
      ((z = v ∧ ch '&' ∉ v ∧ W = []) ∨ ∃ w, v = z ++ ch '&' :: w ∧ ch '&' ∉ z ∧ W = rawPairs w) := by
  have hlast : ∃ y, ch '&' ∉ y ∧ ch '=' ∉ y ∧ (k = y ∨ ∃ x, k = x ++ ch '&' :: y) ∧
      rawPairs (k ++ ch '=' :: v) = rawPairs (y ++ ch '=' :: v) := by
    rcases last_split (ch '&') k with h | ⟨x, y, rfl, hy⟩
    · exact ⟨k, h, he, .inl rfl, rfl⟩
    · simp only [List.mem_append, List.mem_cons, not_or] at he
      obtain ⟨hx, -, hey⟩ := he
      refine ⟨y, hy, hey, .inr ⟨x, rfl⟩, ?_⟩
      rw [List.append_assoc, List.cons_append, rawPairs_append, (rawPairs_nil_iff _ (Nat.lt_succ_self _)).2 hx,
        List.nil_append]
  obtain ⟨y, hy, hey, hk, heq⟩ := hlast
  rcases rawPairs_pair (v := v) hy hey with ⟨hv, hp⟩ | ⟨z, w, rfl, hz, hp⟩
  · exact ⟨y, v, [], hy, hk, heq.trans hp, .inl ⟨rfl, hv, rfl⟩⟩
  · exact ⟨y, z, _, hy, hk, heq.trans hp, .inr ⟨w, rfl, hz, rfl⟩⟩

theorem bytes_amp (b : Bytes) : (CStr.ofBytes (ch '&' :: b)).bytes = ch '&' :: (CStr.ofBytes b).bytes :=
  (ofBytes_append [ch '&'] b).2 (by decide)

theorem urlText_amp {x r : Bytes} (h : urlRc (x ++ ch '&' :: r) = 0) :
    (urlText (x ++ ch '&' :: r)).1 = (urlText x).1 ++ ch '&' :: (urlText r).1 := by
  rw [urlText_append ((urlRc_separator (.inl rfl) x r).1 h).1, urlText_cons (by decide)]

/-- A key is not itself with an `&` in front, unless a NUL ends it before its last `&`. -/
theorem hiddenKey {k y : Bytes} (hk : urlRc k = 0) (hkey : k = y ∨ ∃ x, k = x ++ ch '&' :: y)
    (h : CStr.ofBytes (urlText y).1 = CStr.ofBytes (ch '&' :: (urlText k).1)) :
    ∃ x, k = x ++ ch '&' :: y ∧ 0 ∈ (urlText x).1 ∧
      (CStr.ofBytes (urlText y).1).bytes = ch '&' :: (CStr.ofBytes (urlText x).1).bytes := by
  have hbytes : (CStr.ofBytes (urlText y).1).bytes = ch '&' :: (CStr.ofBytes (urlText k).1).bytes := by
    rw [h, bytes_amp]
  rcases hkey with rfl | ⟨x, rfl⟩
  · -- without an `&` in it the key would be longer than itself
    exact absurd (congrArg List.length hbytes) (by simp)
  · by_cases h0 : 0 ∈ (urlText x).1
    · refine ⟨x, rfl, h0, ?_⟩
      rw [hbytes, urlText_amp hk, (ofBytes_append _ _).1 h0]
    · rw [urlText_amp hk, (ofBytes_append _ _).2 h0, bytes_amp] at hbytes
      exact absurd (congrArg List.length hbytes) (by simp; omega)

/-- A value is its first segment only when a NUL ends it there. -/
theorem hiddenValue {z w : Bytes} (hv : urlRc (z ++ ch '&' :: w) = 0) :
    CStr.ofBytes (urlText z).1 = CStr.ofBytes (urlText (z ++ ch '&' :: w)).1 ↔ 0 ∈ (urlText z).1 := by
  rw [urlText_amp hv]
  constructor
  · intro h
    by_contra h0
    have hbytes := congrArg CStr.bytes h
    rw [(ofBytes_append _ _).2 h0, CStr.ofBytes_bytes h0] at hbytes
    exact absurd (congrArg List.length hbytes) (by simp [bytes_amp])
  · exact fun h0 => ((ofBytes_append _ _).1 h0).symm

/-- With valid escapes, the whole text before and behind the first `=` is the one pair of the segments only
when a NUL hides the `&`. -/
theorem hiddenAmp_iff {k v : Bytes} (he : ch '=' ∉ k) (hk : urlRc k = 0) (hv : urlRc v = 0) (hne : v ≠ []) :
    decodePairs (rawPairs (k ++ ch '=' :: v)) = some [⟨CStr.ofBytes (ch '&' :: (urlText k).1), CStr.ofBytes (urlText v).1⟩] ↔
      HiddenAmp k v := by
  obtain ⟨y, z, W, hy, hkey, hpairs, hval⟩ := @rawPairs_lastKey k v he
  -- the loop reads one pair `&k=v`; the segments give `y=z` first and then the pairs of `W`
  rw [hpairs, decodePairs_single_iff]
  constructor
  · rintro ⟨-, -, hW, hkeq, hveq⟩
    obtain ⟨x, hkx, h0, hkb⟩ := hiddenKey hk hkey hkeq
    refine ⟨hk, hv, hne, ⟨x, y, hkx, hy, h0, hkb⟩, ?_⟩
    rintro z' w rfl hz'
    -- the first `&` of `v` ends the value that was read
    rcases hval with ⟨-, hno, -⟩ | ⟨w', hvw', hz, rfl⟩
    · exact absurd (by simp) hno
    · obtain ⟨rfl, rfl⟩ := cut_inj hz' hz hvw'
      exact ⟨(hiddenValue hv).1 hveq, (rawPairs_nil_iff _ (Nat.lt_succ_self _)).1 hW⟩
  · rintro ⟨-, -, -, ⟨x, y', rfl, hy', h0, hkb⟩, hvw⟩
    obtain rfl : y' = y := by
      rcases hkey with rfl | ⟨x', hx'⟩
      · exact absurd (by simp) hy
      · exact (cutLast_inj hy' hy hx').2
    have hyrc : urlRc y' = 0 := ((urlRc_separator (.inl rfl) x y').1 hk).2
    have hkeq : CStr.ofBytes (urlText y').1 = CStr.ofBytes (ch '&' :: (urlText (x ++ ch '&' :: y')).1) := by
      refine CStr.ext ?_
      rw [bytes_amp, urlText_amp hk, (ofBytes_append _ _).1 h0]
      exact hkb
    rcases hval with ⟨rfl, -, hW⟩ | ⟨w, rfl, hz, rfl⟩
    · exact ⟨hyrc, hv, hW, hkeq, rfl⟩
    · obtain ⟨hz0, hwe⟩ := hvw z w rfl hz
      exact ⟨hyrc, ((urlRc_separator (.inl rfl) z w).1 hv).1, (rawPairs_nil_iff _ (Nat.lt_succ_self _)).2 hwe, hkeq,
        (hiddenValue hv).2 hz0⟩

/-! ## Which queries are read segment by segment -/

theorem rawPairs_amp (r : Bytes) : rawPairs (ch '&' :: r) = rawPairs r := by
  have h := rawPairs_append [] r
  rwa [rawPairs_nil, List.nil_append, List.nil_append] at h

theorem urlRc_amp {k : Bytes} : urlRc (ch '&' :: k) = 0 ↔ urlRc k = 0 := by
  rw [urlRc_eq_zero, urlRc_eq_zero, urlText_cons (by decide)]

/-- What the one pair behind a leading `&` is read as agrees with the segments. -/
theorem ampPair_iff {k v : Bytes} (he : ch '=' ∉ k) :
    ¬ emptyFirstPair [(ch '&' :: k, v)] ∧ decodePairs [(ch '&' :: k, v)] = decodePairs (rawPairs (k ++ ch '=' :: v)) ↔
      decodePairs (rawPairs (k ++ ch '=' :: v)) = none ∨ HiddenAmp k v := by
  rw [emptyFirstPair, urlRc_amp]
  by_cases hval : urlRc k = 0 ∧ urlRc v = 0
  · -- the escapes are valid, and so are those of the segments
    obtain ⟨hk, hv⟩ := hval
    have hseg := decodePairs_ne_none (urlRc_rawPairs _ (Nat.lt_succ_self _) ((urlRc_separator (.inr rfl) k v).2 ⟨hk, hv⟩))
    have hcode : decodePairs [(ch '&' :: k, v)] =
        some [⟨CStr.ofBytes (ch '&' :: (urlText k).1), CStr.ofBytes (urlText v).1⟩] := by
      rw [decodePairs_single_iff, urlText_cons (by decide)]
      exact ⟨urlRc_amp.2 hk, hv, rfl, rfl, rfl⟩
    rw [hcode, or_iff_right hseg]
    constructor
    · rintro ⟨hne, heq⟩
      refine (hiddenAmp_iff he hk hv ?_).1 heq.symm
      rintro rfl
      exact hne ⟨hk, hv, .inr rfl⟩
    · intro h
      refine ⟨?_, ((hiddenAmp_iff he hk hv h.2.2.1).2 h).symm⟩
      rintro ⟨-, -, hem | hem⟩
      · cases hem
      · exact h.2.2.1 hem
  · -- a bad escape in `k` or `v`: the loop returns -1
    have hcode : decodePairs [(ch '&' :: k, v)] = none := by
      rw [decodePairs, if_pos]
      rw [Ne, Ne, urlRc_amp]
      tauto
    rw [hcode]
    constructor
    · rintro ⟨-, heq⟩
      exact .inl heq.symm
    · rintro (heq | h)
      · exact ⟨fun h => hval ⟨h.1, h.2.1⟩, heq.symm⟩
      · exact absurd ⟨h.1, h.2.1⟩ hval

/-- Behind a leading `&` the first pair is the text before and behind the first `=`. -/
theorem readsSegments_amp (r : Bytes) : ReadsSegments (ch '&' :: r) ↔ segmentPairs (ch '&' :: r) = none ∨
    ∀ k v, ch '&' :: r = ch '&' :: (k ++ ch '=' :: v) → ch '=' ∉ k → HiddenAmp k v := by
  rw [readsSegments_iff, segmentPairs_eq, rawPairs_amp, queryPairs, if_pos (by simp)]
  have hamp : ∀ k, ch '=' ∉ k → ch '=' ∉ ch '&' :: k := by
    intro k he
    rw [List.mem_cons, not_or]
    exact ⟨by decide, he⟩
  rcases first_split (ch '=') r with hno | ⟨k, v, rfl, he⟩
  · -- without an `=` neither has a pair
    rw [cut_none (hamp r hno), (rawPairs_nil_iff _ (Nat.lt_succ_self _)).2 hno]
    refine iff_of_true ⟨fun h => ?_, rfl⟩ (.inr fun k v hkv _ => ?_)
    · cases h
    · obtain ⟨-, rfl⟩ := List.cons.inj hkv
      exact absurd (by simp) hno
  · have hcut : cut (ch '=') (ch '&' :: (k ++ ch '=' :: v)) = some (ch '&' :: k, v) := cut_append (hamp k he)
    have honly : (∀ k' v', ch '&' :: (k ++ ch '=' :: v) = ch '&' :: (k' ++ ch '=' :: v') → ch '=' ∉ k' → HiddenAmp k' v') ↔
        HiddenAmp k v := by
      refine ⟨fun h => h k v rfl he, fun h k' v' hkv hk' => ?_⟩
      obtain ⟨rfl, rfl⟩ := cut_inj he hk' (List.cons.inj hkv).2
      exact h
    rw [hcut, honly, Option.toList_some, ampPair_iff he]

/-- A leading `=` drops the first segment. -/
theorem readsSegments_eqSign (r : Bytes) : ReadsSegments (ch '=' :: r) ↔
    ∃ v rest, ch '=' :: r = v ++ ch '&' :: rest ∧ ch '&' ∉ v ∧ segmentPairs rest = none ∧ ¬ EmptyFirst rest := by
  rw [readsSegments_iff, queryPairs, if_neg (by simp; decide), if_pos (by simp)]
  have hfirst : ∀ v, cut (ch '=') (ch '=' :: v) = some ([], v) := fun v => cut_append (x := []) (by simp)
  rcases first_split (ch '&') (ch '=' :: r) with hno | ⟨v, rest, hv, hno⟩
  · -- the loop looks for the next pair behind the first `&`, and there is none
    rw [cut_none hno, rawPairs_last hno, hfirst]
    refine iff_of_false ?_ ?_
    · rintro ⟨-, h⟩
      have := decodePairs_length h.symm
      cases this
    · rintro ⟨v, rest, hv, -⟩
      exact hno (by rw [hv]; simp)
  · have honly : (∃ v' rest', ch '=' :: r = v' ++ ch '&' :: rest' ∧ ch '&' ∉ v' ∧ segmentPairs rest' = none ∧
        ¬ EmptyFirst rest') ↔ segmentPairs rest = none ∧ ¬ EmptyFirst rest := by
      constructor
      · rintro ⟨v', rest', hv', hno', h⟩
        obtain ⟨rfl, rfl⟩ := cut_inj hno hno' (hv.symm.trans hv')
        exact h
      · exact fun h => ⟨v, rest, hv, hno, h⟩
    obtain ⟨u, rfl⟩ : ∃ u, v = ch '=' :: u := by
      rcases v with _ | ⟨c, u⟩
      · obtain ⟨h, -⟩ := List.cons.inj hv
        exact absurd h (by decide)
      · obtain ⟨rfl, -⟩ := List.cons.inj hv
        exact ⟨u, rfl⟩
    rw [honly, hv, cut_append hno, rawPairs_cons hno, hfirst, segmentPairs_eq, emptyFirst_iff]
    simp only [Option.toList_some, List.singleton_append]
    constructor
    · rintro ⟨hne, heq⟩
      exact ⟨decodePairs_cons_eq.1 heq, hne⟩
    · rintro ⟨hnone, hne⟩
      exact ⟨hne, decodePairs_cons_eq.2 hnone⟩

theorem readsSegments_iff_segmented (q : Bytes) : ReadsSegments q ↔ Segmented q := by
  unfold Segmented
  by_cases ha : q.head? = some (ch '&')
  · rw [if_pos ha]
    obtain ⟨r, rfl⟩ := List.head?_eq_some_iff.1 ha
    exact readsSegments_amp r
  · by_cases he : q.head? = some (ch '=')
    · rw [if_neg ha, if_pos he]
      obtain ⟨r, rfl⟩ := List.head?_eq_some_iff.1 he
      exact readsSegments_eqSign r
    · rw [if_neg ha, if_neg he, readsSegments_iff, queryPairs, if_neg ha, if_neg he, emptyFirst_iff]
      exact and_iff_left rfl

/-- A query put together from two is read as the two, each by its segments, exactly when no index 0, no empty
first pair and no hidden `&` is in the way of any of the three. -/
theorem queryLaw_iff (a b : Bytes) : QueryLaw a b ↔ ∀ q ∈ [a, b, a ++ ch '&' :: b], Segmented q := by
  constructor
  · exact fun h q hq => (readsSegments_iff_segmented q).1 (h.segments q hq)
  · intro h
    have hread : ∀ q ∈ [a, b, a ++ ch '&' :: b], ReadsSegments q := fun q hq => (readsSegments_iff_segmented q).2 (h q hq)
    have ha := hread a (by simp)
    have hb := hread b (by simp)
    have hab := hread (a ++ ch '&' :: b) (by simp)
    refine ⟨fun σ t => ?_, fun σ t => ?_, hread⟩
    · rw [ha, hb, hab, segmentPairs_append]
      cases segmentPairs a <;> cases segmentPairs b <;> simp
    · rw [ha, hb, hab, segmentPairs_append]
      cases segmentPairs a <;> cases segmentPairs b <;> simp

/-- A `&` before the only parameter is read as part of its key, and one behind an empty value is not reached. -/
theorem queryLaw_leading : ¬ QueryLaw [] (str "k=v") ∧ ¬ QueryLaw (str "k=") (str "x=y") := by
  constructor
  · intro h
    have hq := h.segments (str "&k=v") (by simp; decide) .machine []
    rw [List.append_nil] at hq
    have hcode : parseQuery .machine (str "&k=v") (str "&k=v").length = .ok (some [⟨.lit "&k", .lit "v"⟩]) := by decide +kernel
    rw [hcode] at hq
    exact absurd hq (by decide +kernel)
  · intro h
    have hq := h.segments (str "k=") (by simp) .machine []
    rw [List.append_nil] at hq
    have hcode : parseQuery .machine (str "k=") (str "k=").length = .error .null := by decide +kernel
    rw [hcode] at hq
    cases hq

end SubConverter
