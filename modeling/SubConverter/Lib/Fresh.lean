/-
Fresh names from a numbered sequence of candidates: the first candidate not in use is found within
one more try than there are names in use, and names given in order this way are pairwise distinct.
-/
import Mathlib

namespace Fresh

variable {α β : Type} [DecidableEq α]

/-! ## One name -/

/-- The first of the `n` candidates from index `k` on that is not in use. -/
def search (cand : ℕ → α) (used : List α) : ℕ → ℕ → Option ℕ
  | 0, _ => none
  | n + 1, k => if cand k ∈ used then search cand used n (k + 1) else some k

/-- `k` is the first candidate that is not in use. -/
structure IsFirst (cand : ℕ → α) (used : List α) (k : ℕ) : Prop where
  fresh : cand k ∉ used
  least : ∀ j < k, cand j ∈ used

/-- The first candidate that is not in use. -/
def pick (cand : ℕ → α) (used : List α) : α := cand ((search cand used (used.length + 1) 0).getD 0)

/-- Distinct candidates cannot all be in use. -/
theorem exists_fresh {cand : ℕ → α} (h : Function.Injective cand) (used : List α) :
    ∃ k ≤ used.length, cand k ∉ used := by
  by_contra hno
  push Not at hno
  have hsub : (Finset.range (used.length + 1)).image cand ⊆ used.toFinset := by
    intro a ha
    obtain ⟨k, hk, rfl⟩ := Finset.mem_image.1 ha
    exact List.mem_toFinset.2 (hno k (by simpa [Nat.lt_succ_iff] using hk))
  have hcard := (Finset.card_le_card hsub).trans used.toFinset_card_le
  rw [Finset.card_image_of_injective _ h, Finset.card_range] at hcard
  omega

theorem exists_isFirst {cand : ℕ → α} (h : Function.Injective cand) (used : List α) :
    ∃ k ≤ used.length, IsFirst cand used k := by
  obtain ⟨m, hm, hfresh⟩ := exists_fresh h used
  have hex : ∃ k, cand k ∉ used := ⟨m, hfresh⟩
  exact ⟨Nat.find hex, (Nat.find_min' hex hfresh).trans hm, Nat.find_spec hex,
    fun j hj => not_not.1 (Nat.find_min hex hj)⟩

/-- A search that reaches the first candidate not in use returns it. -/
theorem search_eq {cand : ℕ → α} {used : List α} {k : ℕ} (hk : IsFirst cand used k) :
    ∀ {n i : ℕ}, i ≤ k → k < i + n → search cand used n i = some k
  | 0, i, h1, h2 => by omega
  | n + 1, i, h1, h2 => by
    rcases Nat.lt_or_eq_of_le h1 with h | rfl
    · rw [search, if_pos (hk.least i h), search_eq hk (by omega) (by omega)]
    · rw [search, if_neg hk.fresh]

theorem pick_eq {cand : ℕ → α} {used : List α} {k : ℕ} (hk : IsFirst cand used k) (hle : k ≤ used.length) :
    pick cand used = cand k := by
  rw [pick, search_eq hk (Nat.zero_le k) (by omega)]; rfl

theorem pick_not_mem {cand : ℕ → α} (h : Function.Injective cand) (used : List α) : pick cand used ∉ used := by
  obtain ⟨k, hle, hk⟩ := exists_isFirst h used
  rw [pick_eq hk hle]; exact hk.fresh

/-! ## Names in order -/

/-- The names given to `bs` one after another. -/
def assign (cand : β → ℕ → α) : List β → List α → List α
  | [], _ => []
  | b :: bs, used => pick (cand b) used :: assign cand bs (used ++ [pick (cand b) used])

@[simp] theorem length_assign (cand : β → ℕ → α) : ∀ (bs : List β) (used : List α),
    (assign cand bs used).length = bs.length
  | [], _ => rfl
  | b :: bs, used => by simp [assign, length_assign cand bs]

theorem assign_append (cand : β → ℕ → α) : ∀ (bs cs : List β) (used : List α),
    assign cand (bs ++ cs) used = assign cand bs used ++ assign cand cs (used ++ assign cand bs used)
  | [], cs, used => by simp [assign]
  | b :: bs, cs, used => by simp [assign, assign_append cand bs cs]

theorem mem_assign {cand : β → ℕ → α} {a : α} : ∀ {bs : List β} {used : List α},
    a ∈ assign cand bs used → ∃ b ∈ bs, ∃ k, a = cand b k
  | b :: bs, used, h => by
    rcases List.mem_cons.1 h with rfl | h
    · exact ⟨b, by simp, _, rfl⟩
    · obtain ⟨c, hc, k, hk⟩ := mem_assign h
      exact ⟨c, by simp [hc], k, hk⟩

/-- The first candidate of every element is in use in the end. -/
theorem zero_mem_assign {cand : β → ℕ → α} (h : ∀ b, Function.Injective (cand b)) {b : β} :
    ∀ {bs : List β} {used : List α}, b ∈ bs → cand b 0 ∈ used ++ assign cand bs used
  | c :: bs, used, hb => by
    rw [assign, ← List.singleton_append, ← List.append_assoc]
    rcases List.mem_cons.1 hb with rfl | hb
    · refine List.mem_append_left _ ?_
      obtain ⟨k, hle, hk⟩ := exists_isFirst (h b) used
      rw [pick_eq hk hle]
      -- a later candidate is picked only when the first was in use before
      rcases Nat.eq_zero_or_pos k with rfl | hpos
      · exact List.mem_append_right _ (List.mem_singleton.2 rfl)
      · exact List.mem_append_left _ (hk.least 0 hpos)
    · exact zero_mem_assign h hb

/-- The names given are new and pairwise distinct. -/
theorem nodup_append_assign {cand : β → ℕ → α} (h : ∀ b, Function.Injective (cand b)) :
    ∀ (bs : List β) {used : List α}, used.Nodup → (used ++ assign cand bs used).Nodup
  | [], used, hu => by simpa [assign] using hu
  | b :: bs, used, hu => by
    have hnew : (used ++ [pick (cand b) used]).Nodup := by
      rw [List.nodup_append_comm]
      exact List.nodup_cons.2 ⟨pick_not_mem (h b) used, hu⟩
    simpa [assign] using nodup_append_assign h bs hnew

/-- The name of each element is its first candidate that no earlier name is equal to. -/
theorem getElem_assign (cand : β → ℕ → α) : ∀ (bs : List β) (used : List α) (i : ℕ) (hi : i < bs.length),
    (assign cand bs used)[i]? = some (pick (cand bs[i]) (used ++ (assign cand bs used).take i))
  | b :: bs, used, 0, _ => by simp [assign]
  | b :: bs, used, i + 1, hi => by
    have := getElem_assign cand bs (used ++ [pick (cand b) used]) i (by simpa using hi)
    simpa [assign] using this

end Fresh
