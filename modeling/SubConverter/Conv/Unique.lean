/-
The names of the emitted proxies. Each is the first candidate of its base name that no earlier proxy
has got, so no two proxies of a document share a name. The search ends with it exactly when a candidate that
can be written is not in use.
-/
import SubConverter.Conv.Base64
import SubConverter.Conv.Singbox

namespace SubConverter

open CMem Fresh

/-- In order, each name is the base name when no earlier name is equal to it, else `base - k` with the
least `k ≥ 2` that no earlier name is equal to. -/
structure FirstFit (bases names : List CStr) : Prop where
  length_eq : names.length = bases.length
  first : ∀ i base, bases[i]? = some base →
    ∃ k ≤ i, names[i]? = some (candidate base k) ∧ IsFirst (candidate base) (names.take i) k

theorem uniqueNames_firstFit (bases : List CStr) : FirstFit bases (uniqueNames bases) where
  length_eq := length_uniqueNames bases
  first i base hb := by
    obtain ⟨hi, rfl⟩ := List.getElem?_eq_some_iff.1 hb
    obtain ⟨k, hle, hk⟩ := exists_isFirst (candidate_injective bases[i]) ((uniqueNames bases).take i)
    refine ⟨k, hle.trans (List.length_take_le ..), ?_, hk⟩
    have h := getElem_assign candidate bases [] i hi
    rw [List.nil_append] at h
    rw [uniqueNames, h, ← uniqueNames, pick_eq hk hle]

/-- The names the proxies of a document carry. -/
def Document.names (d : Document) : List CStr := d.proxies.map fun n => nvl n.name

@[simp] theorem names_base64Doc (ns : List ProxyNode) :
    (base64Doc ns).names = uniqueNames (ns.map fun n => nvl n.name) := names_renamed ns

@[simp] theorem names_singboxDoc (es : List Elem) : (singboxDoc es).names = uniqueNames (es.flatMap elemBases) := by
  rw [Document.names, singboxDoc, flatten_elemNames, map_name_setName, uniqueNames]
  rw [length_assign, length_flatMap_elemBases]

/-- The search gives the first candidate that is not in use, after at most one try more than there are names in use. -/
def SearchEnds (used : List CStr) (base : CStr) : Prop :=
  ∃ k ≤ used.length, IsFirst (candidate base) used k ∧
    (∀ n, used.length < n → assignUniqueLoop used base n 2 base = .ok (candidate base k)) ∧
    assignUniqueName used base = .ok (candidate base k, used ++ [candidate base k])

theorem searchEnds_iff (used : List CStr) (base : CStr) : SearchEnds used base ↔ NameFits used base := by
  constructor
  · rintro ⟨k, -, -, -, h⟩
    exact ((assignUniqueName_ok_iff ..).1 h).2
  · intro hfit
    obtain ⟨k, hle, hk⟩ := exists_isFirst (candidate_injective base) used
    have hname := assignUniqueName_eq hfit
    rw [pick_eq hk hle] at hname
    refine ⟨k, hle, hk, fun n hn => ?_, hname⟩
    exact (assignUniqueLoop_ok_iff hk _ n 0 (Nat.zero_le k) (by omega)).2 ⟨rfl, (nameFits_iff hk).1 hfit⟩

theorem convSingboxRun_ok {tok : Tokener} {ctx : ConvCtx} {outYaml out : Option CStr}
    (h : convSingboxRun tok ctx outYaml = .ok (0, out)) :
    ∃ xs, jsonxParse tok (some ctx.data) = some (.arr xs) ∧ singboxElems xs ≠ [] ∧
      out = some (singboxDoc (singboxElems xs)).yaml := by
  by_cases hx : ∃ xs, jsonxParse tok (some ctx.data) = some (.arr xs)
  · obtain ⟨xs, hx⟩ := hx
    rw [convSingboxRun_eq hx] at h
    refine ⟨xs, hx, ?_⟩
    split at h
    · cases h
    · rename_i hne
      cases h
      exact ⟨hne, rfl⟩
  · rw [convSingboxRun_other (not_exists.1 hx)] at h
    cases h

/-- The proxies of a run that succeeds have pairwise distinct names, given first come first served; the search for a name
ends exactly when the base name or a numbered one that can be written is not in use. -/
theorem conv_names_unique (tok : Tokener) (ctx : ConvCtx) (outYaml out : Option CStr) :
    (convBase64Run tok ctx outYaml = .ok (0, out) →
      out = some (base64Doc (acceptedNodes tok (bodyText ctx))).yaml ∧
      (base64Doc (acceptedNodes tok (bodyText ctx))).names.Nodup ∧
      FirstFit ((acceptedNodes tok (bodyText ctx)).map fun n => nvl n.name)
        (base64Doc (acceptedNodes tok (bodyText ctx))).names) ∧
    (convSingboxRun tok ctx outYaml = .ok (0, out) →
      ∃ xs, jsonxParse tok (some ctx.data) = some (.arr xs) ∧ out = some (singboxDoc (singboxElems xs)).yaml ∧
        (singboxDoc (singboxElems xs)).names.Nodup ∧
        FirstFit ((singboxElems xs).flatMap elemBases) (singboxDoc (singboxElems xs)).names) ∧
    ∀ used base, SearchEnds used base ↔ NameFits used base := by
  refine ⟨fun h => ?_, fun h => ?_, searchEnds_iff⟩
  · rcases convBase64Run_ok h with h | ⟨-, h⟩
    · cases h
    · cases h
      rw [names_base64Doc]
      exact ⟨rfl, uniqueNames_nodup _, uniqueNames_firstFit _⟩
  · obtain ⟨xs, hx, -, rfl⟩ := convSingboxRun_ok h
    refine ⟨xs, hx, rfl, ?_⟩
    rw [names_singboxDoc]
    exact ⟨uniqueNames_nodup _, uniqueNames_firstFit _⟩

/-- Two links without a name, and two elements with the same remarks. -/
theorem conv_names_unique_twin :
    (base64Doc (acceptedNodes .refusing (bodyText twinBody))).names.Nodup ∧
      (singboxDoc (singboxElems twinJson)).names.Nodup := by
  refine ⟨((conv_names_unique .refusing twinBody none _).1 twinBody_run).2.1, ?_⟩
  obtain ⟨xs, hx, -, h, -⟩ := (conv_names_unique twinTok twinCtx none _).2.1 twinCtx_run
  rw [twinCtx_parse] at hx
  cases hx
  exact h

/-- A second node gets no name when no number fits behind the first one's. -/
theorem assignUniqueName_long {base : CStr} (h : intMax ≤ base.bytes.length) : assignUniqueName [base] base = .error .null := by
  have hlen : intMax < (candidate base 1).bytes.length := by
    rw [candidate, bytes_numbered, List.length_append, List.length_append, show (str " - ").length = 3 from rfl]
    omega
  have hused : nameUsed [base] base = true := nameUsed_iff.2 (List.mem_singleton.2 rfl)
  rw [assignUniqueName, List.length_singleton, assignUniqueLoop, if_pos hused, if_neg (by decide),
    xstrdup_candidate_long hlen]
  rfl

/-- A name of 2147483647 bytes. -/
def longName : CStr := ⟨List.replicate intMax (ch 'a'), fun h => absurd (List.eq_of_mem_replicate h) (by decide)⟩

theorem longName_twice : assignUniqueName [longName] longName = .error .null ∧ ¬ SearchEnds [longName] longName := by
  have herr := @assignUniqueName_long longName (List.length_replicate ..).ge
  refine ⟨herr, ?_⟩
  rintro ⟨k, -, -, -, h⟩
  rw [herr] at h
  cases h

end SubConverter
