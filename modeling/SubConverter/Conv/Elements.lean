/-
The elements of a sing-box array: their remarks, accepted outbounds and balancers. The whole array was
parsed from a text whose length is an `int`, so every name an element asks for can be written, and there
are fewer proxies than an `int` counts.
-/
import SubConverter.Conv.Outbound

namespace SubConverter

open CMem

/-! ## Elements -/

/-- An element of the input: its accepted outbounds with their tags, and the tag of its first
balancer with the strategy leastPing. -/
structure Elem where
  remarks : CStr
  members : List (ProxyNode × CStr)
  balancer : Option CStr

def readOutbound : Option Json → Option (ProxyNode × CStr)
  | some (.obj ms) => (parseVlessOutbound (.obj ms)).map fun p => (p.1, nvl p.2)
  | _ => none

def readElem : Option Json → Option Elem
  | some (.obj ms) =>
    some ⟨getStringOr (.obj ms) "remarks", (elemOutbounds (.obj ms)).filterMap readOutbound, elemBalancer (.obj ms)⟩
  | _ => none

/-- The elements with an accepted outbound, in order. -/
def yielding : List (Option Elem) → List Elem
  | [] => []
  | none :: es => yielding es
  | some e :: es => if e.members = [] then yielding es else e :: yielding es

def elemNodes (es : List Elem) : List ProxyNode := es.flatMap fun e => e.members.map Prod.fst

def elemTags (es : List Elem) : List CStr := es.flatMap fun e => e.members.map Prod.snd

/-- The entry of `meta` of an element whose nodes start at `k`. -/
def metaOf (k : Nat) (e : Elem) : ElemMeta :=
  ⟨k, e.members.length, some e.remarks, e.balancer.isSome, e.balancer⟩

/-- The entries of `meta` when `k` nodes come before. -/
def metasOf : Nat → List (Option Elem) → List ElemMeta
  | _, [] => []
  | k, none :: es => elemMetaZero :: metasOf k es
  | k, some e :: es => metaOf k e :: metasOf (k + e.members.length) es

/-- Any value but an object is passed over. -/
theorem scan_skip {v : Option Json} (h : ∀ ms, v ≠ some (.obj ms)) :
    readOutbound v = none ∧ readElem v = none ∧
      (∀ obs nodes tags, scanOutbounds (v :: obs) nodes tags = scanOutbounds obs nodes tags) ∧
      ∀ elems nodes tags metas,
        scanElems (v :: elems) nodes tags metas = scanElems elems nodes tags (metas ++ [elemMetaZero]) := by
  rcases v with _ | j
  · exact ⟨rfl, rfl, fun _ _ _ => rfl, fun _ _ _ _ => rfl⟩
  · cases j <;> first | exact absurd rfl (h _) | exact ⟨rfl, rfl, fun _ _ _ => rfl, fun _ _ _ _ => rfl⟩

theorem scanOutbounds_eq : ∀ (obs : List (Option Json)) (nodes : List ProxyNode) (tags : List CStr),
    scanOutbounds obs nodes tags =
      (nodes ++ (obs.filterMap readOutbound).map Prod.fst, tags ++ (obs.filterMap readOutbound).map Prod.snd)
  | [], nodes, tags => by simp [scanOutbounds]
  | ob :: obs, nodes, tags => by
    by_cases h : ∃ ms, ob = some (.obj ms)
    · obtain ⟨ms, rfl⟩ := h
      rw [scanOutbounds, List.filterMap_cons]
      simp only [readOutbound]
      cases parseVlessOutbound (.obj ms) with
      | none => simp [scanOutbounds_eq obs]
      | some p => simp [scanOutbounds_eq obs]
    · obtain ⟨hr, -, hs, -⟩ := scan_skip (not_exists.1 h)
      rw [hs, scanOutbounds_eq obs, List.filterMap_cons, hr]

theorem scanElems_eq : ∀ (elems : List (Option Json)) (nodes : List ProxyNode) (tags : List CStr) (metas : List ElemMeta),
    scanElems elems nodes tags metas =
      (nodes ++ elemNodes (yielding (elems.map readElem)), tags ++ elemTags (yielding (elems.map readElem)),
        metas ++ metasOf nodes.length (elems.map readElem))
  | [], nodes, tags, metas => by simp [scanElems, elemNodes, elemTags, yielding, metasOf]
  | elem :: elems, nodes, tags, metas => by
    by_cases h : ∃ ms, elem = some (.obj ms)
    · obtain ⟨ms, rfl⟩ := h
      simp only [scanElems, List.map_cons, scanOutbounds_eq, scanElems_eq elems, readElem, metasOf, metaOf, yielding]
      split
      · rename_i hm
        simp [hm]
      · simp [elemNodes, elemTags]
    · obtain ⟨-, hr, -, hs⟩ := scan_skip (not_exists.1 h)
      rw [hs, scanElems_eq elems, List.map_cons, hr]
      simp [metasOf, yielding]

/-- `a - b`. -/
def dashed (a b : CStr) : CStr := CStr.ofBytes (a.bytes ++ (str " - " ++ b.bytes))

/-! ## Sizes -/

theorem Json.size_pos (v : Json) : 0 < v.size := by
  cases v <;> simp [Json.size]

theorem two_mul_length_le (xs : List Json) : 2 * xs.length ≤ elemsSize xs := by
  induction xs with
  | nil => exact Nat.zero_le _
  | cons x xs ih =>
    have := x.size_pos
    rw [List.length_cons, elemsSize]
    omega

theorem mem_jsonxElems {xs : List Json} {v : Json} (h : some v ∈ jsonxElems (.arr xs)) : v ∈ xs := by
  obtain ⟨x, hx, hp⟩ := List.mem_map.1 h
  rwa [Json.ptr_some hp]

/-- A string field beside another member. -/
theorem getStringOr_size {v w : Json} {key key' : String} (h : jsonxObjGet v key' = some w) (hne : str key ≠ str key') :
    (getStringOr v key).bytes.length + w.size + 5 ≤ v.size := by
  unfold getStringOr jsonxGetString
  split
  · rename_i t ht
    have htwo := jsonxObjGet_size_two ht h hne
    have hlen := length_ofBytes_le t
    rw [Json.size] at htwo
    simp only [Option.getD_some]
    omega
  · have hone := jsonxObjGet_size h
    rw [Option.getD_none, show (CStr.lit "").bytes.length = 0 from rfl]
    omega

theorem jsonxObjGet_of_string {v : Json} {key : String} {s : CStr} (h : jsonxGetString v key = some s) :
    ∃ t, jsonxObjGet v key = some (.str t) := by
  unfold jsonxGetString at h
  split at h
  · rename_i t ht
    exact ⟨t, ht⟩
  · cases h

theorem jsonxObjGet_of_arr {v w : Json} {key : String} (h : jsonxGetArr v key = some w) :
    ∃ xs, w = .arr xs ∧ jsonxObjGet v key = some (.arr xs) := by
  unfold jsonxGetArr at h
  split at h
  · rename_i xs hxs
    cases h
    exact ⟨xs, rfl, hxs⟩
  · cases h

theorem jsonxObjGet_of_obj {v w : Json} {key : String} (h : jsonxGetObj v key = some w) : jsonxObjGet v key = some w := by
  unfold jsonxGetObj at h
  split at h
  · rename_i ms hms
    cases h
    exact hms
  · cases h

/-- An accepted outbound has its protocol beside its tag. -/
theorem readOutbound_size {v : Json} {m : ProxyNode × CStr} (h : readOutbound (some v) = some m) :
    m.2.bytes.length + 7 ≤ v.size := by
  cases v with
  | obj ms =>
    obtain ⟨⟨n, tag⟩, hp, rfl⟩ := Option.map_eq_some_iff.1 h
    obtain ⟨-, -, -, ⟨⟨proto, hproto, -⟩, -⟩, -, rfl⟩ := parseVlessOutbound_some.1 hp
    obtain ⟨t, ht⟩ := jsonxObjGet_of_string hproto
    have hsize : (getStringOr (.obj ms) "tag").bytes.length + (Json.str t).size + 5 ≤ (Json.obj ms).size :=
      getStringOr_size ht (by decide +kernel)
    rw [show (Json.str t).size = t.length + 2 by rw [Json.size]] at hsize
    rw [show nvl (jsonxGetString (.obj ms) "tag") = getStringOr (.obj ms) "tag" from rfl]
    simp only
    omega
  | null => cases h
  | bool => cases h
  | int i => cases h
  | double => cases h
  | str s => cases h
  | arr xs => cases h

/-- Every base name of the element can be written with a number behind it, and the name of its url-test group can be
written. -/
structure Elem.Room (e : Elem) : Prop where
  members : ∀ m ∈ e.members, e.remarks.bytes.length + m.2.bytes.length + 16 ≤ intMax
  balancer : ∀ b, e.balancer = some b → e.remarks.bytes.length + b.bytes.length + 3 ≤ intMax

theorem scanBalancers_size : ∀ {bs : List Json} {tag : CStr}, scanBalancers (bs.map fun b => Json.ptr (some b)) = some tag →
    tag.bytes.length ≤ elemsSize bs
  | [], _, h => by cases h
  | b :: bs, tag, h => by
    have hrest : scanBalancers (bs.map fun b => Json.ptr (some b)) = some tag → tag.bytes.length ≤ elemsSize (b :: bs) :=
      fun h => (scanBalancers_size h).trans (by rw [elemsSize]; omega)
    cases b with
    | obj ms =>
      simp only [List.map_cons, Json.ptr, scanBalancers] at h
      split at h
      · rename_i hping
        cases h
        -- the strategy stands beside the tag
        unfold isLeastPing at hping
        split at hping
        · rename_i strategy hs
          have := getStringOr_size (jsonxObjGet_of_obj hs) (show str "tag" ≠ str "strategy" by decide +kernel)
          rw [elemsSize]
          omega
        · cases hping
      · exact hrest h
    | null => exact hrest h
    | bool => exact hrest h
    | int i => exact hrest h
    | double => exact hrest h
    | str s => exact hrest h
    | arr xs => exact hrest h

theorem elemBalancer_size {v : Json} {tag : CStr} (h : elemBalancer v = some tag) :
    ∃ routing, jsonxObjGet v "routing" = some routing ∧ tag.bytes.length ≤ routing.size := by
  unfold elemBalancer at h
  split at h
  · rename_i routing hr
    refine ⟨routing, jsonxObjGet_of_obj hr, ?_⟩
    split at h
    · rename_i bals hb
      obtain ⟨bs, rfl, hget⟩ := jsonxObjGet_of_arr hb
      have htag := scanBalancers_size h
      have hsize := jsonxObjGet_size hget
      rw [Json.size] at hsize
      omega
    · cases h
  · cases h

/-- The outbounds of an element that yields proxies. -/
theorem elemOutbounds_size {v : Json} (h : elemOutbounds v ≠ []) :
    ∃ obs, elemOutbounds v = jsonxElems (.arr obs) ∧ jsonxObjGet v "outbounds" = some (.arr obs) := by
  unfold elemOutbounds at *
  split at h
  · rename_i w hw
    obtain ⟨obs, rfl, hget⟩ := jsonxObjGet_of_arr hw
    exact ⟨obs, rfl, hget⟩
  · exact absurd rfl h

theorem readElem_some {v : Json} {e : Elem} (h : readElem (some v) = some e) :
    e = ⟨getStringOr v "remarks", (elemOutbounds v).filterMap readOutbound, elemBalancer v⟩ := by
  cases v <;> cases h
  rfl

theorem readElem_room {v : Json} {e : Elem} (h : readElem (some v) = some e) (hv : v.size + 2 ≤ intMax) : e.Room := by
  obtain rfl := readElem_some h
  constructor
  · intro m hm
    obtain ⟨ob, hob, hm⟩ := List.mem_filterMap.1 hm
    obtain ⟨obs, hobs, hget⟩ := elemOutbounds_size (List.ne_nil_of_mem hob)
    rcases ob with _ | ob
    · cases hm
    rw [hobs] at hob
    have hob := elemsSize_mem (mem_jsonxElems hob)
    have htag := readOutbound_size hm
    have hsize := getStringOr_size hget (show str "remarks" ≠ str "outbounds" by decide +kernel)
    rw [show (Json.arr obs).size = elemsSize obs + 1 by rw [Json.size]] at hsize
    simp only
    omega
  · intro b hb
    obtain ⟨routing, hget, hlen⟩ := elemBalancer_size hb
    have hsize := getStringOr_size hget (show str "remarks" ≠ str "routing" by decide +kernel)
    simp only
    omega

theorem readElem_count {v : Json} {e : Elem} (h : readElem (some v) = some e) : 2 * e.members.length ≤ v.size := by
  obtain rfl := readElem_some h
  simp only
  by_cases hnil : elemOutbounds v = []
  · rw [hnil]
    simp
  · obtain ⟨obs, hobs, hget⟩ := elemOutbounds_size hnil
    have hlen := List.length_filterMap_le readOutbound (jsonxElems (.arr obs))
    have htwo := two_mul_length_le obs
    have hsize := jsonxObjGet_size hget
    rw [Json.size] at hsize
    rw [hobs]
    simp only [jsonxElems, List.length_map] at hlen ⊢
    omega

/-- The elements that yield proxies are among those read. -/
theorem mem_yielding {e : Elem} : ∀ {es : List (Option Elem)}, e ∈ yielding es → some e ∈ es
  | none :: es, h => List.mem_cons_of_mem _ (mem_yielding h)
  | some d :: es, h => by
    rw [yielding] at h
    split at h
    · exact List.mem_cons_of_mem _ (mem_yielding h)
    · rcases List.mem_cons.1 h with rfl | h
      · exact List.mem_cons_self
      · exact List.mem_cons_of_mem _ (mem_yielding h)

theorem yielding_room {xs : List Json} (h : elemsSize xs ≤ intMax - 1) :
    ∀ e ∈ yielding ((jsonxElems (.arr xs)).map readElem), e.Room := by
  intro e he
  obtain ⟨ov, hov, hread⟩ := List.mem_map.1 (mem_yielding he)
  rcases ov with _ | v
  · cases hread
  · have := elemsSize_mem (mem_jsonxElems hov)
    exact readElem_room hread (by unfold intMax at *; omega)

theorem length_yielding : ∀ (xs : List Json),
    2 * (elemNodes (yielding ((jsonxElems (.arr xs)).map readElem))).length ≤ elemsSize xs
  | [] => by simp [jsonxElems, yielding, elemNodes]
  | x :: xs => by
    have ih := length_yielding xs
    rw [jsonxElems, List.map_cons, List.map_cons, elemsSize]
    rw [jsonxElems] at ih
    rcases he : readElem (Json.ptr (some x)) with _ | e
    · rw [yielding]
      omega
    · rw [yielding]
      split
      · omega
      · have hx : Json.ptr (some x) = some x := by
          cases x <;> first | rfl | cases he
        rw [hx] at he
        have := readElem_count he
        simp only [elemNodes, List.flatMap_cons, List.length_append, List.length_map] at ih ⊢
        omega

end SubConverter
