/-
The groups `conv_singbox_run` writes. The select groups of the elements cut the list of proxies into
consecutive segments; group names, which no renaming protects, are distinct exactly when the input's are.
-/
import SubConverter.Conv.Unique

namespace SubConverter

open CMem Fresh

/-! ## Elements and success -/

theorem yielding_eq : ∀ (es : List (Option Elem)), yielding es = (es.filterMap id).filter (·.members ≠ [])
  | [] => rfl
  | none :: es => by rw [yielding, yielding_eq es]; rfl
  | some e :: es => by
    rw [yielding, yielding_eq es]
    show _ = (e :: es.filterMap id).filter _
    by_cases h : e.members = [] <;> simp [h]

/-- JSON `null` is no element. -/
theorem readElem_ptr (x : Json) : readElem (Json.ptr (some x)) = readElem (some x) := by cases x <;> rfl

theorem singboxElems_eq (xs : List Json) :
    singboxElems xs = (xs.filterMap fun x => readElem (some x)).filter (·.members ≠ []) := by
  rw [singboxElems, yielding_eq, jsonxElems, List.map_map, List.filterMap_map]
  congr 2
  funext x
  exact readElem_ptr x

theorem readOutbound_isSome {ob : Option Json} :
    (readOutbound ob).isSome ↔ ∃ ms, ob = some (.obj ms) ∧ (parseVlessOutbound (.obj ms)).isSome := by
  by_cases h : ∃ ms, ob = some (.obj ms)
  · obtain ⟨ms, rfl⟩ := h
    simp [readOutbound]
  · rw [(scan_skip (not_exists.1 h)).1]
    refine iff_of_false (by simp) ?_
    rintro ⟨ms, hms, -⟩
    exact h ⟨ms, hms⟩

/-- Some outbound of some element is accepted. -/
def SomeAccepted (xs : List Json) : Prop :=
  ∃ ms, .obj ms ∈ xs ∧ ∃ ob, some (.obj ob) ∈ elemOutbounds (.obj ms) ∧ (parseVlessOutbound (.obj ob)).isSome

theorem members_ne_nil_iff {ms : List (Bytes × Json)} :
    (elemOutbounds (.obj ms)).filterMap readOutbound ≠ [] ↔
      ∃ ob, some (.obj ob) ∈ elemOutbounds (.obj ms) ∧ (parseVlessOutbound (.obj ob)).isSome := by
  rw [Ne, List.filterMap_eq_nil_iff]
  push Not
  constructor
  · rintro ⟨ob, hob, h⟩
    obtain ⟨o, rfl, ho⟩ := readOutbound_isSome.1 (Option.isSome_iff_ne_none.2 h)
    exact ⟨o, hob, ho⟩
  · rintro ⟨o, hob, ho⟩
    exact ⟨_, hob, Option.isSome_iff_ne_none.1 (readOutbound_isSome.2 ⟨o, rfl, ho⟩)⟩

theorem singboxElems_ne_nil_iff (xs : List Json) : singboxElems xs ≠ [] ↔ SomeAccepted xs := by
  rw [singboxElems_eq, Ne, List.filter_eq_nil_iff]
  push Not
  constructor
  · rintro ⟨e, he, hm⟩
    obtain ⟨x, hx, hr⟩ := List.mem_filterMap.1 he
    cases x <;> cases hr
    exact ⟨_, hx, members_ne_nil_iff.1 (by simpa using hm)⟩
  · rintro ⟨ms, hms, ho⟩
    exact ⟨_, List.mem_filterMap.2 ⟨_, hms, rfl⟩, by simpa using members_ne_nil_iff.2 ho⟩

/-! ## The partition -/

/-- The select groups of the elements: all but PROXY, which comes last. -/
def Document.selects (d : Document) : List Group := d.groups.dropLast.filter (·.kind = .select)

/-- A group's members without the trailing DIRECT. -/
def Group.own (g : Group) : List CStr := g.members.dropLast

def selectGroup (e : Elem) (names : List CStr) : Group := ⟨e.remarks, .select, names ++ [.lit "DIRECT"]⟩

theorem filter_elemGroups (e : Elem) (names : List CStr) :
    (elemGroups e names).filter (·.kind = .select) = [selectGroup e names] := by
  cases h : e.balancer <;> simp [elemGroups, h, selectGroup]

theorem filter_flatten_elemGroups : ∀ (es : List Elem) (names : List (List CStr)),
    (List.zipWith elemGroups es names).flatten.filter (·.kind = .select) = List.zipWith selectGroup es names
  | [], _ => by simp
  | _ :: _, [] => by simp
  | e :: es, ns :: names => by
    rw [List.zipWith_cons_cons, List.flatten_cons, List.filter_append, filter_elemGroups,
      filter_flatten_elemGroups es names]
    rfl

theorem selects_singboxDoc (es : List Elem) :
    (singboxDoc es).selects = List.zipWith selectGroup es (elemNames es []) := by
  rw [Document.selects, singboxDoc, List.dropLast_concat, filter_flatten_elemGroups]

theorem length_elemNames : ∀ (es : List Elem) (used : List CStr), (elemNames es used).length = es.length
  | [], _ => rfl
  | e :: es, used => by rw [elemNames, List.length_cons, length_elemNames es, List.length_cons]

theorem map_length_elemNames : ∀ (es : List Elem) (used : List CStr),
    (elemNames es used).map List.length = es.map fun e => e.members.length
  | [], _ => rfl
  | e :: es, used => by
    rw [elemNames, List.map_cons, map_length_elemNames es, length_assign, length_elemBases, List.map_cons]

theorem own_selectGroup (e : Elem) (names : List CStr) : (selectGroup e names).own = names := List.dropLast_concat

theorem map_selectGroup : ∀ (es : List Elem) (names : List (List CStr)), names.length = es.length →
    (List.zipWith selectGroup es names).map Group.own = names ∧
      (List.zipWith selectGroup es names).map Group.name = es.map Elem.remarks
  | [], [], _ => ⟨rfl, rfl⟩
  | e :: es, ns :: names, h => by
    obtain ⟨hown, hname⟩ := map_selectGroup es names (by simpa using h)
    rw [List.zipWith_cons_cons, List.map_cons, List.map_cons, hown, hname, own_selectGroup]
    exact ⟨rfl, rfl⟩

theorem own_selects (es : List Elem) : (singboxDoc es).selects.map Group.own = elemNames es [] := by
  rw [selects_singboxDoc]; exact (map_selectGroup es _ (length_elemNames es [])).1

theorem name_selects (es : List Elem) : (singboxDoc es).selects.map Group.name = es.map Elem.remarks := by
  rw [selects_singboxDoc]; exact (map_selectGroup es _ (length_elemNames es [])).2

/-- The groups of a document for these elements: each element has one select group with one name for
each of its accepted outbounds, and with a balancer a url-test group with the same names. -/
structure Partition (es : List Elem) (d : Document) : Prop where
  names : d.selects.map Group.name = es.map Elem.remarks
  counts : d.selects.map (fun g => g.own.length) = es.map fun e => e.members.length
  flatten : (d.selects.map Group.own).flatten = d.names
  nodup : d.names.Nodup
  proxies : d.proxies = List.zipWith setName (elemNodes es) d.names
  groups : d.groups =
    (List.zipWith elemGroups es (d.selects.map Group.own)).flatten ++ [proxyGroup (es.map Elem.remarks)]

theorem singboxDoc_partition (es : List Elem) : Partition es (singboxDoc es) where
  names := name_selects es
  counts := by
    have h := map_length_elemNames es []
    rwa [← own_selects, List.map_map] at h
  flatten := by rw [own_selects, flatten_elemNames, names_singboxDoc, uniqueNames]
  nodup := by rw [names_singboxDoc]; exact uniqueNames_nodup _
  proxies := by rw [names_singboxDoc, uniqueNames, ← flatten_elemNames]; rfl
  groups := by rw [own_selects]; rfl

/-- `conv_singbox_run` on an array succeeds exactly when some outbound is accepted, and the groups it then
writes partition the proxies. When it fails it leaves `*out_yaml`. -/
theorem convSingboxRun_partition (tok : Tokener) (ctx : ConvCtx) {xs : List Json}
    (h : jsonxParse tok (some ctx.data) = some (.arr xs)) (outYaml : Option CStr) :
    (SomeAccepted xs → ∃ d : Document, convSingboxRun tok ctx outYaml = .ok (0, some d.yaml) ∧
      Partition ((xs.filterMap fun x => readElem (some x)).filter (·.members ≠ [])) d) ∧
    (¬ SomeAccepted xs → convSingboxRun tok ctx outYaml = .ok (-1, outYaml)) := by
  rw [convSingboxRun_eq h, ← singboxElems_eq, ← singboxElems_ne_nil_iff]
  constructor
  · intro hne
    rw [if_neg hne]
    exact ⟨singboxDoc (singboxElems xs), rfl, singboxDoc_partition _⟩
  · intro hne
    rw [if_pos (not_not.1 hne)]

theorem convSingboxRun_partition_pair :
    ∃ d : Document, convSingboxRun pairTok pairCtx none = .ok (0, some d.yaml) ∧
      Partition ((pairJson.filterMap fun x => readElem (some x)).filter (·.members ≠ [])) d :=
  (convSingboxRun_partition pairTok pairCtx pairCtx_parse none).1
    ((singboxElems_ne_nil_iff _).1 (by decide +kernel))

/-! ## Group names -/

def Document.groupNames (d : Document) : List CStr := d.groups.map Group.name

/-- The names `remarks - balancerTag` of the elements with a leastPing balancer. -/
def urlTestNames (es : List Elem) : List CStr := es.filterMap fun e => e.balancer.map (dashed e.remarks)

/-- Remarks and balancer tags that give every group a name of its own. -/
structure ApartNames (es : List Elem) : Prop where
  remarks : (es.map Elem.remarks).Nodup
  proxy : .lit "PROXY" ∉ es.map Elem.remarks
  urlTests : (urlTestNames es).Nodup
  apart : ∀ n ∈ urlTestNames es, n ∉ es.map Elem.remarks

theorem bytes_dashed (a b : CStr) : (dashed a b).bytes = a.bytes ++ (str " - " ++ b.bytes) := by
  refine CStr.ofBytes_bytes fun h => ?_
  simp only [List.mem_append] at h
  rcases h with h | h | h
  · exact a.nulFree h
  · revert h; decide +kernel
  · exact b.nulFree h

/-- A name without a space is not made by joining two names. -/
theorem dashed_ne_lit {s : String} (h : (32 : Byte) ∉ str s) (a b : CStr) : dashed a b ≠ .lit s := fun he => by
  refine h ((List.takeWhile_prefix fun c => decide (c ≠ 0)).subset ?_)
  rw [show (str s).takeWhile _ = (CStr.lit s).bytes from rfl, ← he, bytes_dashed]
  exact List.mem_append_right _ (List.mem_append_left _ (by decide +kernel))

theorem urlTestNames_eq (es : List Elem) :
    urlTestNames es = es.flatMap fun e => (e.balancer.map (dashed e.remarks)).toList := by
  rw [urlTestNames, List.filterMap_eq_flatMap_toList]

theorem groupNames_singboxDoc (es : List Elem) :
    (singboxDoc es).groupNames.Perm (.lit "PROXY" :: (es.map Elem.remarks ++ urlTestNames es)) := by
  have hflat : ∀ (es : List Elem) (names : List (List CStr)), names.length = es.length →
      (List.zipWith elemGroups es names).flatten.map Group.name =
        es.flatMap fun e => e.remarks :: (e.balancer.map (dashed e.remarks)).toList := by
    intro es
    induction es with
    | nil => simp
    | cons e es ih =>
      rintro (_ | ⟨ns, names⟩) h
      · cases h
      · rw [List.zipWith_cons_cons, List.flatten_cons, List.map_append, ih names (by simpa using h)]
        cases hb : e.balancer <;> simp [elemGroups, hb]
  rw [Document.groupNames, singboxDoc, List.map_append, hflat es _ (length_elemNames es []), urlTestNames_eq]
  refine (List.perm_append_singleton _ _).trans (.cons _ ?_)
  exact (List.map_append_flatMap_perm ..).symm

theorem groupNames_nodup_iff (es : List Elem) : (singboxDoc es).groupNames.Nodup ↔ ApartNames es := by
  rw [(groupNames_singboxDoc es).nodup_iff, List.nodup_cons, List.nodup_append]
  have hproxy : .lit "PROXY" ∉ urlTestNames es := by
    rintro h
    obtain ⟨e, -, he⟩ := List.mem_filterMap.1 h
    obtain ⟨b, -, hb⟩ := Option.map_eq_some_iff.1 he
    exact dashed_ne_lit (by decide +kernel) _ _ hb
  constructor
  · rintro ⟨hp, hr, hu, hd⟩
    exact ⟨hr, fun h => hp (List.mem_append_left _ h), hu, fun n hn hm => hd n hm n hn rfl⟩
  · rintro ⟨hr, hp, hu, hd⟩
    refine ⟨?_, hr, hu, fun a ha b hb hab => hd b hb (hab ▸ ha)⟩
    rw [List.mem_append, not_or]
    exact ⟨hp, hproxy⟩

/-- The groups of a successful run have pairwise distinct names exactly when the remarks and the balancer
tags give them such names. -/
theorem convSingboxRun_groups_nodup_iff (tok : Tokener) (ctx : ConvCtx) {xs : List Json}
    (h : jsonxParse tok (some ctx.data) = some (.arr xs)) (outYaml out : Option CStr)
    (hrun : convSingboxRun tok ctx outYaml = .ok (0, out)) :
    out = some (singboxDoc (singboxElems xs)).yaml ∧
      ((singboxDoc (singboxElems xs)).groupNames.Nodup ↔ ApartNames (singboxElems xs)) := by
  obtain ⟨ys, hy, -, rfl⟩ := convSingboxRun_ok hrun
  rw [h] at hy
  cases hy
  exact ⟨rfl, groupNames_nodup_iff _⟩

theorem convSingboxRun_groups_nodup_pair :
    (singboxDoc (singboxElems pairJson)).groupNames.Nodup ↔ ApartNames (singboxElems pairJson) :=
  (convSingboxRun_groups_nodup_iff pairTok pairCtx pairCtx_parse none _ pairCtx_run).2

/-- Two elements with the same remarks give two groups of one name. -/
theorem convSingboxRun_groups_twin :
    convSingboxRun twinTok twinCtx none =
        .ok (0, some (singboxDoc (singboxElems twinJson)).yaml) ∧
      (singboxDoc (singboxElems twinJson)).groupNames = [.lit "A", .lit "A", .lit "PROXY"] ∧
      ¬ (singboxDoc (singboxElems twinJson)).groupNames.Nodup := by
  have hn : (singboxDoc (singboxElems twinJson)).groupNames = [.lit "A", .lit "A", .lit "PROXY"] := by decide +kernel
  refine ⟨twinCtx_run, hn, ?_⟩
  rw [hn]
  decide +kernel

end SubConverter
