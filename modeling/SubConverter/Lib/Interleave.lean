/-
Owners that share a memory and take their events in any order. Each of them has a state of its own; what it owns
follows from its own events, whatever the others do in between.
-/
import SubConverter.Lib.Own

namespace Own

variable {β ε ι κ ρ : Type} [DecidableEq ι]

/-- Owners with a state each that share a memory. -/
structure Sys (ι κ β : Type) where
  mem : Mem β
  states : ι → κ

/-- The owner `i` runs what `next` says for its event, `none` where it takes no such event. A stop comes with whether a
call found no room. -/
def Sys.step (next : κ → ρ → Option (Prog ε β κ)) (s : Sys ι κ β) (i : ι) (x : ρ) :
    Option (Except (ε × Bool) (Sys ι κ β)) :=
  (next (s.states i) x).map fun run =>
    match run s.mem with
    | ⟨.ok k, m, _⟩ => .ok ⟨m, Function.update s.states i k⟩
    | ⟨.error e, _, short⟩ => .error (e, short)

/-- The runs over the events of all owners, in any order. -/
inductive Runs (next : κ → ρ → Option (Prog ε β κ)) (s₀ : Sys ι κ β) : List (ι × ρ) → Sys ι κ β → Prop
  | nil : Runs next s₀ [] s₀
  | snoc {es : List (ι × ρ)} {s s' : Sys ι κ β} {i : ι} {x : ρ} : Runs next s₀ es s →
      s.step next i x = some (.ok s') → Runs next s₀ (es ++ [(i, x)]) s'

/-- A run as a computation; `none` where it stops. -/
def Sys.run (next : κ → ρ → Option (Prog ε β κ)) : List (ι × ρ) → Sys ι κ β → Option (Sys ι κ β)
  | [], s => some s
  | (i, x) :: es, s =>
    match s.step next i x with
    | some (.ok s') => Sys.run next es s'
    | _ => none

theorem Runs.of_run {next : κ → ρ → Option (Prog ε β κ)} {s₀ : Sys ι κ β} : ∀ {es : List (ι × ρ)} {s s' : Sys ι κ β}
    {es₀ : List (ι × ρ)}, Runs next s₀ es₀ s → s.run next es = some s' → Runs next s₀ (es₀ ++ es) s'
  | [], s, s', es₀, hruns, h => by
    cases h
    rwa [List.append_nil]
  | (i, x) :: es, s, s', es₀, hruns, h => by
    rw [Sys.run] at h
    split at h
    · rename_i s'' hstep
      rw [List.append_cons]
      exact Runs.of_run (hruns.snoc hstep) h
    · cases h

/-- The events of one owner. -/
def own (i : ι) (es : List (ι × ρ)) : List ρ := (es.filter fun e => e.1 = i).map Prod.snd

theorem own_snoc_self (i : ι) (es : List (ι × ρ)) (x : ρ) : own i (es ++ [(i, x)]) = own i es ++ [x] := by
  simp [own]

theorem own_snoc_of_ne {i j : ι} (h : j ≠ i) (es : List (ι × ρ)) (x : ρ) : own i (es ++ [(j, x)]) = own i es := by
  simp [own, h]

/-- What an owner keeps by its own events, and how they may stop it, by whether a call of them found no room. -/
def Keeps (next : κ → ρ → Option (Prog ε β κ)) (I : List ρ → κ → Heap β → Prop) (E : Prop → List ρ → ρ → ε → Prop) :
    Prop :=
  ∀ S es k x run, next k x = some run → Triple S (E S es x) (I es k) run fun k' => I (es ++ [x]) k'

/-- Each owner has the blocks its invariant speaks of, and the blocks there were at the start are still there. -/
def Owned (I : List ρ → κ → Heap β → Prop) (s₀ : Sys ι κ β) (es : List (ι × ρ)) (s : Sys ι κ β) : Prop :=
  ∃ parts : Option ι → Heap β, Shares parts s.mem.heap ∧ parts none = s₀.mem.heap ∧
    ∀ i, I (own i es) (s.states i) (parts (some i))

variable {next : κ → ρ → Option (Prog ε β κ)} {I : List ρ → κ → Heap β → Prop} {E : Prop → List ρ → ρ → ε → Prop}
  {s₀ : Sys ι κ β}

theorem owned_init (h : ∀ i, I [] (s₀.states i) fun _ => none) : Owned I s₀ [] s₀ := by
  refine ⟨fun i => i.elim s₀.mem.heap fun _ _ => none, ⟨?_, ?_, ?_⟩, rfl, h⟩
  · rintro (_ | i) p v hv
    · exact hv
    · cases hv
  · exact fun p v hv => ⟨none, hv⟩
  · rintro (_ | i) (_ | j) p v hij hv
    · exact absurd rfl hij
    · rfl
    · cases hv
    · cases hv

/-- One event. -/
theorem Owned.step (hkeeps : Keeps next I E) {es : List (ι × ρ)} {s : Sys ι κ β} (ho : Owned I s₀ es s) {i : ι} {x : ρ}
    {r : Except (ε × Bool) (Sys ι κ β)} (hr : s.step next i x = some r) :
    (∀ s', r = .ok s' → Owned I s₀ (es ++ [(i, x)]) s') ∧
      ∀ e short, r = .error (e, short) → E (short = true) (own i es) x e := by
  obtain ⟨parts, hs, hrest, hI⟩ := ho
  obtain ⟨run, hrun, rfl⟩ := Option.map_eq_some_iff.1 hr
  have hstep := (hkeeps ((run s.mem).short = true) _ _ x run hrun).shares id hs (some i) (hI i)
  rcases hm : run s.mem with ⟨e | k, m, short⟩
  · rw [hm] at hstep
    refine ⟨fun s' h => (by cases h), fun e' short' h => ?_⟩
    cases h
    exact hstep
  · rw [hm] at hstep
    obtain ⟨g, hg, hk⟩ := hstep
    refine ⟨fun s' h => ?_, fun e' short' h => (by cases h)⟩
    cases h
    refine ⟨Function.update parts (some i) g, hg, ?_, fun j => ?_⟩
    · rw [Function.update_of_ne (by simp), hrest]
    · by_cases hj : j = i
      · subst hj
        simp only [Function.update_self, own_snoc_self]
        exact hk
      · simp only [Function.update_of_ne hj, Function.update_of_ne (show some j ≠ some i by simpa using hj),
          own_snoc_of_ne (Ne.symm hj)]
        exact hI j

/-- Any interleaving. -/
theorem Runs.owned (hkeeps : Keeps next I E) (h : ∀ i, I [] (s₀.states i) fun _ => none) {es : List (ι × ρ)}
    {s : Sys ι κ β} (hruns : Runs next s₀ es s) : Owned I s₀ es s := by
  induction hruns with
  | nil => exact owned_init h
  | snoc _ hr ih => exact (ih.step hkeeps hr).1 _ rfl

/-- An event stops a run only as its owner's events allow. -/
theorem Runs.stops (hkeeps : Keeps next I E) (h : ∀ i, I [] (s₀.states i) fun _ => none) {es : List (ι × ρ)}
    {s : Sys ι κ β} (hruns : Runs next s₀ es s) {i : ι} {x : ρ} {e : ε} {short : Bool}
    (he : s.step next i x = some (.error (e, short))) : E (short = true) (own i es) x e :=
  ((hruns.owned hkeeps h).step hkeeps he).2 e short rfl

end Own
