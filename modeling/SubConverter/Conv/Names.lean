/-
The renaming: `assign_unique_name` returns the first of `base`, `base - 2`, `base - 3`, ... that is
not in use, after at most one try more than there are names in use. It gets there when the number
stays an `int` and the text is not longer than `strbuf_appendf` can write.
-/
import SubConverter.Lib.Fresh
import SubConverter.Src.ConvBase64

namespace SubConverter

open CMem Fresh

/-- `base - k`. -/
def numbered (base : CStr) (k : Nat) : CStr := CStr.ofBytes (base.bytes ++ (str " - " ++ decimal k))

/-- The names `assign_unique_name` tries, in order. -/
def candidate (base : CStr) : Nat → CStr
  | 0 => base
  | k + 1 => numbered base (k + 2)

/-- The names given to nodes with these base names. -/
def uniqueNames (bases : List CStr) : List CStr := assign candidate bases []

theorem bytes_numbered (base : CStr) (k : Nat) : (numbered base k).bytes = base.bytes ++ (str " - " ++ decimal k) := by
  refine CStr.ofBytes_bytes fun h => ?_
  simp only [List.mem_append] at h
  rcases h with h | h | h
  · exact base.nulFree h
  · revert h; decide +kernel
  · have := decimal_digit h; simp at this

theorem numbered_injective (base : CStr) : Function.Injective (numbered base) := fun a b h => by
  have h := congrArg CStr.bytes h
  rw [bytes_numbered, bytes_numbered] at h
  exact decimal_injective (List.append_cancel_left (List.append_cancel_left h))

theorem numbered_ne (base : CStr) (k : Nat) : numbered base k ≠ base := fun h => by
  have h := congrArg (fun s => s.bytes.length) h
  have := List.length_pos_iff.2 (decimal_ne_nil k)
  simp only [bytes_numbered, List.length_append] at h
  omega

theorem candidate_injective (base : CStr) : Function.Injective (candidate base)
  | 0, 0, _ => rfl
  | 0, k + 1, h => absurd h.symm (numbered_ne base (k + 2))
  | j + 1, 0, h => absurd h (numbered_ne base (j + 2))
  | j + 1, k + 1, h => by
    have := numbered_injective base h
    omega

theorem nameUsed_iff {used : List CStr} {name : CStr} : nameUsed used name = true ↔ name ∈ used := by
  simp only [nameUsed, List.any_eq_true, beq_iff_eq]
  constructor
  · rintro ⟨u, hu, h⟩; rwa [← CStr.ext h]
  · exact fun h => ⟨name, h, rfl⟩

/-- Later candidates are no shorter. -/
theorem length_candidate_le (base : CStr) {j k : Nat} (h : j ≤ k) :
    (candidate base j).bytes.length ≤ (candidate base k).bytes.length := by
  rcases j with _ | j <;> rcases k with _ | k
  · exact le_rfl
  · simp only [candidate, bytes_numbered, List.length_append]
    omega
  · omega
  · have hdec : (decimal (j + 2)).length ≤ (decimal (k + 2)).length :=
      (length_decimal_le_iff (List.length_pos_iff.2 (decimal_ne_nil _))).2
        (lt_of_le_of_lt (by omega)
          ((length_decimal_le_iff (List.length_pos_iff.2 (decimal_ne_nil _))).1 (le_refl (decimal (k + 2)).length)))
    simp only [candidate, bytes_numbered, List.length_append]
    omega

/-! ## One name -/

/-- `strbuf_appendf` writes the candidate, and `suffix` stays an `int` up to it. -/
def Writable (base : CStr) (k : Nat) : Prop := (candidate base k).bytes.length ≤ intMax ∧ k + 1 < intMax

/-- The base name or a candidate that can be written is not in use. -/
def NameFits (used : List CStr) (base : CStr) : Prop := ∃ k, candidate base k ∉ used ∧ (k = 0 ∨ Writable base k)

/-- Then so can the first one that is not in use, as it is no longer. -/
theorem nameFits_iff {used : List CStr} {base : CStr} {j : Nat} (hj : IsFirst (candidate base) used j) :
    NameFits used base ↔ j = 0 ∨ Writable base j := by
  refine ⟨?_, fun h => ⟨j, hj.fresh, h⟩⟩
  rintro ⟨k, hk, hw⟩
  have hjk : j ≤ k := Nat.not_lt.1 fun hlt => hk (hj.least k hlt)
  rcases hw with rfl | ⟨hlen, hnum⟩
  · exact .inl (Nat.le_zero.1 hjk)
  · exact .inr ⟨(length_candidate_le base hjk).trans hlen, by omega⟩

theorem xstrdup_candidate {base : CStr} {k : Nat} (h : (candidate base (k + 1)).bytes.length ≤ intMax) :
    xstrdup (Strbuf.init.appendf (base.bytes ++ (str " - " ++ decimal (k + 2)))).data = .ok (candidate base (k + 1)) := by
  rw [candidate, bytes_numbered] at h
  rw [Strbuf.appendf_eq _ h]
  rfl

theorem xstrdup_candidate_long {base : CStr} {k : Nat} (h : intMax < (candidate base (k + 1)).bytes.length) :
    xstrdup (Strbuf.init.appendf (base.bytes ++ (str " - " ++ decimal (k + 2)))).data = .error .null := by
  rw [candidate, bytes_numbered] at h
  rw [Strbuf.appendf_long _ h]
  rfl

/-- From the candidate `k` on the search finds the first that is not in use, when each one it writes up
to there can be written. -/
theorem assignUniqueLoop_ok_iff {used : List CStr} {base : CStr} {j : Nat} (hj : IsFirst (candidate base) used j) (c : CStr) :
    ∀ (n k : Nat), k ≤ j → j < k + n →
      (assignUniqueLoop used base n (k + 2) (candidate base k) = .ok c ↔
        c = candidate base j ∧ (j = k ∨ Writable base j))
  | 0, k, h1, h2 => by omega
  | n + 1, k, h1, h2 => by
    rw [assignUniqueLoop]
    simp only [nameUsed_iff]
    rcases Nat.lt_or_eq_of_le h1 with h | rfl
    · rw [if_pos (hj.least k h)]
      have hlen := length_candidate_le base (show k + 1 ≤ j from h)
      split
      · -- the number behind the candidate `k` is the largest one
        simp only [reduceCtorEq, Writable, false_iff]
        omega
      by_cases hl : (candidate base (k + 1)).bytes.length ≤ intMax
      · rw [xstrdup_candidate hl, ok_bind, assignUniqueLoop_ok_iff hj c n (k + 1) h (by omega)]
        constructor
        · rintro ⟨rfl, rfl | hw⟩
          · exact ⟨rfl, .inr ⟨hl, by omega⟩⟩
          · exact ⟨rfl, .inr hw⟩
        · rintro ⟨rfl, rfl | hw⟩
          · omega
          · exact ⟨rfl, .inr hw⟩
      · rw [xstrdup_candidate_long (Nat.not_le.1 hl), error_bind]
        simp only [reduceCtorEq, Writable, false_iff]
        omega
    · rw [if_neg hj.fresh]
      simp only [Except.ok.injEq, true_or, and_true]
      exact eq_comm

theorem assignUniqueName_ok_iff (used : List CStr) (base : CStr) (r : CStr × List CStr) :
    assignUniqueName used base = .ok r ↔
      r = (pick (candidate base) used, used ++ [pick (candidate base) used]) ∧ NameFits used base := by
  obtain ⟨k, hle, hk⟩ := exists_isFirst (candidate_injective base) used
  have hloop := fun c => assignUniqueLoop_ok_iff hk c (used.length + 1) 0 (Nat.zero_le k) (by omega)
  rw [assignUniqueName, pick_eq hk hle, nameFits_iff hk, bind_ok_iff]
  constructor
  · rintro ⟨c, hc, hr⟩
    obtain ⟨rfl, h⟩ := (hloop c).1 hc
    cases hr
    exact ⟨rfl, h⟩
  · rintro ⟨rfl, h⟩
    exact ⟨candidate base k, (hloop _).2 ⟨rfl, h⟩, rfl⟩

theorem assignUniqueName_eq {used : List CStr} {base : CStr} (h : NameFits used base) :
    assignUniqueName used base = .ok (pick (candidate base) used, used ++ [pick (candidate base) used]) :=
  (assignUniqueName_ok_iff used base _).2 ⟨rfl, h⟩

/-- A base name that leaves room for a number can be numbered among that many names. -/
theorem nameFits_of_short {used : List CStr} {base : CStr} (hbase : base.bytes.length + 13 ≤ intMax)
    (hused : used.length + 1 < intMax) : NameFits used base := by
  obtain ⟨k, hle, hk⟩ := exists_isFirst (candidate_injective base) used
  refine ⟨k, hk.fresh, ?_⟩
  rcases k with _ | k
  · exact .inl rfl
  · have hdec : (decimal (k + 2)).length ≤ 10 := (length_decimal_le_iff (by decide)).2 (by unfold intMax at *; omega)
    refine .inr ⟨?_, by omega⟩
    rw [candidate, bytes_numbered, List.length_append, List.length_append, show (str " - ").length = 3 from rfl]
    omega

/-! ## The naming pass -/

def setName (n : ProxyNode) (name : CStr) : ProxyNode := { n with name := some name }

/-- Every name can be found when names are given to these base names in order. -/
def NamesFit : List CStr → List CStr → Prop
  | [], _ => True
  | base :: bases, used => NameFits used base ∧ NamesFit bases (used ++ [pick (candidate base) used])

theorem namesFit_append : ∀ (as bs : List CStr) (used : List CStr),
    NamesFit (as ++ bs) used ↔ NamesFit as used ∧ NamesFit bs (used ++ assign candidate as used)
  | [], bs, used => by simp [NamesFit, assign]
  | a :: as, bs, used => by simp [NamesFit, assign, namesFit_append as bs, and_assoc]

theorem namesFit_of_short : ∀ {bases used : List CStr}, (∀ base ∈ bases, base.bytes.length + 13 ≤ intMax) →
    used.length + bases.length < intMax → NamesFit bases used
  | [], _, _, _ => trivial
  | base :: bases, used, hb, hn => by
    rw [List.length_cons] at hn
    refine ⟨nameFits_of_short (hb base (by simp)) (by omega), namesFit_of_short (fun b h => hb b (by simp [h])) ?_⟩
    rw [List.length_append, List.length_singleton]
    omega

theorem nameNodes_ok_iff : ∀ (ns : List ProxyNode) (used : List CStr) (r : List ProxyNode),
    nameNodes ns used = .ok r ↔
      r = List.zipWith setName ns (assign candidate (ns.map fun n => nvl n.name) used) ∧
        NamesFit (ns.map fun n => nvl n.name) used
  | [], _, r => by simp [nameNodes, NamesFit, eq_comm]
  | n :: ns, used, r => by
    rw [nameNodes, bind_ok_iff, List.map_cons, NamesFit]
    constructor
    · rintro ⟨a, ha, h⟩
      obtain ⟨rfl, hf⟩ := (assignUniqueName_ok_iff ..).1 ha
      obtain ⟨ms, hms, hr⟩ := bind_ok_iff.1 h
      obtain ⟨rfl, hfs⟩ := (nameNodes_ok_iff ..).1 hms
      cases hr
      exact ⟨rfl, hf, hfs⟩
    · rintro ⟨rfl, hf, hfs⟩
      exact ⟨_, assignUniqueName_eq hf, bind_ok_iff.2 ⟨_, (nameNodes_ok_iff ..).2 ⟨rfl, hfs⟩, rfl⟩⟩

theorem uniqueNames_nodup (bases : List CStr) : (uniqueNames bases).Nodup := by
  have h := nodup_append_assign candidate_injective bases (List.nodup_nil : ([] : List CStr).Nodup)
  rwa [List.nil_append] at h

theorem length_uniqueNames (bases : List CStr) : (uniqueNames bases).length = bases.length := length_assign ..

theorem map_name_setName : ∀ {ns : List ProxyNode} {names : List CStr}, names.length = ns.length →
    (List.zipWith setName ns names).map (fun n => nvl n.name) = names
  | [], [], _ => rfl
  | n :: ns, s :: names, h => by
    rw [List.zipWith_cons_cons, List.map_cons, map_name_setName (by simpa using h)]; rfl

end SubConverter
