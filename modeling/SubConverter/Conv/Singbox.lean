/-
`conv_singbox_run` as a function of the elements that yield proxies. The index ranges in `meta` cut
the array of nodes into one segment for each element; every later loop reads back its own segment.
-/
import SubConverter.Conv.Elements
import SubConverter.Conv.Emit

namespace SubConverter

open CMem Line Fresh

/-! ## Names -/

/-- The base names of an element's proxies. -/
def elemBases (e : Elem) : List CStr :=
  if e.members.length = 1 then [e.remarks] else e.members.map fun m => dashed e.remarks m.2

/-- The names of the proxies of each element, after those in `used`. -/
def elemNames : List Elem → List CStr → List (List CStr)
  | [], _ => []
  | e :: es, used =>
    assign candidate (elemBases e) used :: elemNames es (used ++ assign candidate (elemBases e) used)

theorem length_elemBases (e : Elem) : (elemBases e).length = e.members.length := by
  unfold elemBases
  split
  · rename_i h; rw [h]; rfl
  · simp

theorem flatten_elemNames : ∀ (es : List Elem) (used : List CStr),
    (elemNames es used).flatten = assign candidate (es.flatMap elemBases) used
  | [], _ => rfl
  | e :: es, used => by
    rw [elemNames, List.flatten_cons, flatten_elemNames es, List.flatMap_cons, assign_append]

theorem arrayAt_append {α : Type} (p : List α) (x : α) (s : List α) : arrayAt (p ++ x :: s) p.length = .ok x := by
  simp [arrayAt]

theorem nameNode_eq (p : List ProxyNode) (n : ProxyNode) (s : List ProxyNode) {used : List CStr} {base : CStr}
    (hfit : NameFits used base) :
    nameNode (p ++ n :: s) used p.length base =
      .ok (p ++ setName n (pick (candidate base) used) :: s, used ++ [pick (candidate base) used]) := by
  rw [nameNode, assignUniqueName_eq hfit, ok_bind]
  simp only
  rw [arrayAt_append, ok_bind]
  simp [setName]

theorem xstrdup_dashed {a b : CStr} (h : a.bytes.length + b.bytes.length + 3 ≤ intMax) :
    xstrdup (Strbuf.init.appendf (a.bytes ++ (str " - " ++ b.bytes))).data = .ok (dashed a b) := by
  have hlen : (a.bytes ++ (str " - " ++ b.bytes)).length ≤ intMax := by
    rw [List.length_append, List.length_append, show (str " - ").length = 3 from rfl]
    omega
  rw [Strbuf.appendf_eq _ hlen]
  rfl

theorem nameRange_eq (g : CStr) : ∀ (ms : List (ProxyNode × CStr)) (p s : List ProxyNode) (tp ts used : List CStr),
    p.length = tp.length → (∀ m ∈ ms, g.bytes.length + m.2.bytes.length + 3 ≤ intMax) →
    NamesFit (ms.map fun m => dashed g m.2) used →
      nameRange g (tp ++ (ms.map Prod.snd ++ ts)) p.length ms.length (p ++ (ms.map Prod.fst ++ s)) used =
        .ok (p ++ (List.zipWith setName (ms.map Prod.fst) (assign candidate (ms.map fun m => dashed g m.2) used) ++ s),
          used ++ assign candidate (ms.map fun m => dashed g m.2) used)
  | [], p, s, tp, ts, used, _, _, _ => by simp [nameRange, assign]
  | (n, tag) :: ms, p, s, tp, ts, used, hp, hroom, hfit => by
    have ht : arrayAt (tp ++ (tag :: (ms.map Prod.snd ++ ts))) p.length = .ok tag := by
      rw [hp]; exact arrayAt_append ..
    have ih := nameRange_eq g ms (p ++ [setName n (pick (candidate (dashed g tag)) used)]) s (tp ++ [tag]) ts
      (used ++ [pick (candidate (dashed g tag)) used]) (by simp [hp]) (fun m hm => hroom m (by simp [hm])) hfit.2
    simp only [List.append_assoc, List.cons_append, List.nil_append, List.length_append, List.length_singleton] at ih
    rw [List.length_cons, nameRange]
    simp only [List.map_cons, List.cons_append]
    rw [ht, ok_bind]
    rw [xstrdup_dashed (hroom (n, tag) (by simp)), ok_bind, nameNode_eq _ _ _ hfit.1, ok_bind]
    simp only
    rw [ih]
    simp [assign]

theorem nameElem_eq {e : Elem} (hroom : e.Room) (p s : List ProxyNode) (tp ts : List CStr) {used : List CStr}
    (hp : p.length = tp.length) (hfit : NamesFit (elemBases e) used) :
    nameElem (tp ++ (e.members.map Prod.snd ++ ts)) (metaOf p.length e) (p ++ (e.members.map Prod.fst ++ s)) used =
      .ok (p ++ (List.zipWith setName (e.members.map Prod.fst) (assign candidate (elemBases e) used) ++ s),
        used ++ assign candidate (elemBases e) used) := by
  rw [nameElem, metaOf, strArg, ok_bind]
  simp only
  unfold elemBases at *
  split
  · rename_i h1
    obtain ⟨⟨n, tag⟩, hm⟩ := List.length_eq_one_iff.1 h1
    rw [if_pos h1] at hfit
    rw [hm]
    exact nameNode_eq p n s hfit.1
  · rename_i h1
    rw [if_neg h1] at hfit
    refine nameRange_eq e.remarks e.members p s tp ts used hp (fun m hm => ?_) hfit
    have := hroom.members m hm
    omega

theorem nameElems_eq : ∀ (es : List (Option Elem)) (p : List ProxyNode) (tp used : List CStr), p.length = tp.length →
    (∀ e ∈ yielding es, e.Room) → NamesFit ((yielding es).flatMap elemBases) used →
    nameElems (tp ++ elemTags (yielding es)) (metasOf p.length es) (p ++ elemNodes (yielding es)) used =
      .ok (p ++ List.zipWith setName (elemNodes (yielding es)) (elemNames (yielding es) used).flatten,
        used ++ (elemNames (yielding es) used).flatten)
  | [], p, tp, used, _, _, _ => by simp [nameElems, yielding, metasOf, elemNodes, elemNames]
  | none :: es, p, tp, used, hp, hroom, hfit => by
    rw [metasOf, nameElems, if_pos (show elemMetaZero.count = 0 from rfl)]
    exact nameElems_eq es p tp used hp hroom hfit
  | some e :: es, p, tp, used, hp, hroom, hfit => by
    rw [metasOf, nameElems, yielding]
    rw [yielding] at hroom hfit
    by_cases hm : e.members = []
    · rw [if_pos hm] at hroom hfit
      rw [if_pos hm, if_pos (by simp [metaOf, hm]), hm]
      exact nameElems_eq es p tp used hp hroom hfit
    · -- the element's own segment, then the others with it in the prefix
      rw [if_neg hm] at hroom hfit
      rw [List.flatMap_cons, namesFit_append] at hfit
      have h1 := nameElem_eq (hroom e (by simp)) p (elemNodes (yielding es)) tp (elemTags (yielding es)) hp hfit.1
      have hlen : (List.zipWith setName (e.members.map Prod.fst) (assign candidate (elemBases e) used)).length =
          e.members.length := by simp [length_elemBases]
      have ih := nameElems_eq es
        (p ++ List.zipWith setName (e.members.map Prod.fst) (assign candidate (elemBases e) used))
        (tp ++ e.members.map Prod.snd) (used ++ assign candidate (elemBases e) used) (by simp [hp, length_elemBases])
        (fun d hd => hroom d (by simp [hd])) hfit.2
      rw [List.length_append, hlen, List.append_assoc, List.append_assoc] at ih
      rw [if_neg hm, if_neg (by simpa [metaOf] using hm)]
      simp only [elemTags, elemNodes, List.flatMap_cons, elemNames, List.flatten_cons] at ih h1 ⊢
      rw [h1, ok_bind]
      simp only
      rw [ih, List.zipWith_append (by simp [length_elemBases])]
      simp only [List.append_assoc]

/-! ## Groups -/

/-- The groups of an element whose proxies have these names. -/
def elemGroups (e : Elem) (names : List CStr) : List Group :=
  ⟨e.remarks, .select, names ++ [.lit "DIRECT"]⟩ ::
    (e.balancer.map fun b => (⟨dashed e.remarks b, .urlTest, names⟩ : Group)).toList

/-- The document of `conv_singbox_run` for these elements. -/
def singboxDoc (es : List Elem) : Document :=
  ⟨List.zipWith setName (elemNodes es) (elemNames es []).flatten,
    (List.zipWith elemGroups es (elemNames es [])).flatten ++ [proxyGroup (es.map Elem.remarks)]⟩

theorem emitRange_eq : ∀ (xs p s : List ProxyNode) (out : Strbuf), (∀ n ∈ xs, n.name ≠ none) →
    emitRange (p ++ (xs ++ s)) p.length xs.length out =
      .ok (out.appendLines ((xs.map fun n => nvl n.name).map (item 6)))
  | [], _, _, _, _ => rfl
  | n :: xs, p, s, out, h => by
    obtain ⟨name, hn⟩ := Option.ne_none_iff_exists'.1 (h n (by simp))
    have ih := emitRange_eq xs (p ++ [n]) s (yamlEmitDash out 6 name) fun m hm => h m (by simp [hm])
    rw [List.length_append, List.length_singleton, List.append_assoc] at ih
    rw [List.length_cons, emitRange, List.cons_append, arrayAt_append, ok_bind, hn, strArg, ok_bind]
    simp only [List.cons_append, List.nil_append] at ih
    rw [ih, yamlEmitDash_eq]
    simp [hn, nvl, Strbuf.appendLines_cons]

theorem zipWith_setName_ne_none {ns : List ProxyNode} {names : List CStr} :
    ∀ n ∈ List.zipWith setName ns names, n.name ≠ none := by
  intro n hn
  obtain ⟨m, -, s, -, rfl⟩ := mem_setName hn
  exact Option.some_ne_none s

/-- The groups of one element, whose nodes stand behind `p`. -/
theorem emitGroup_eq {e : Elem} (hroom : e.Room) {names : List CStr} (hn : names.length = e.members.length) (p s : List ProxyNode)
    (out : Strbuf) :
    emitGroup (p ++ (List.zipWith setName (e.members.map Prod.fst) names ++ s)) (metaOf p.length e) out =
      .ok (out.appendLines ((elemGroups e names).flatMap Group.lines)) := by
  have hxs : (List.zipWith setName (e.members.map Prod.fst) names).length = e.members.length := by simp [hn]
  have hr := fun out => emitRange_eq (List.zipWith setName (e.members.map Prod.fst) names) p s out
    zipWith_setName_ne_none
  rw [hxs, map_name_setName (by simp [hn])] at hr
  rw [emitGroup, metaOf, strArg, ok_bind]
  simp only [hr, ok_bind, yamlEmitKv_none, yamlEmitKv_str, yamlEmitDashKv_eq, yamlEmitDash_eq]
  rcases hb : e.balancer with _ | b
  · simp [elemGroups, hb, Group.lines, GroupKind.lines, Strbuf.appendLines_append, Strbuf.appendLines_cons]
  · rw [if_pos (Option.isSome_some), emitUrlTest, strArg, ok_bind]
    simp only [xstrdup_dashed (hroom.balancer b hb), ok_bind, hr, yamlEmitKv_none, yamlEmitKv_str, yamlEmitDashKv_eq,
      yamlEmitKvInt_eq]
    simp [elemGroups, hb, Group.lines, GroupKind.lines, Strbuf.appendLines_append, Strbuf.appendLines_cons]

theorem emitGroups_eq : ∀ (es : List (Option Elem)) (p : List ProxyNode) (used : List CStr) (out : Strbuf),
    (∀ e ∈ yielding es, e.Room) →
    emitGroups (p ++ List.zipWith setName (elemNodes (yielding es)) (elemNames (yielding es) used).flatten)
        (metasOf p.length es) out =
      .ok (out.appendLines
        ((List.zipWith elemGroups (yielding es) (elemNames (yielding es) used)).flatten.flatMap Group.lines))
  | [], _, _, _, _ => by simp [emitGroups, yielding, metasOf, elemNames]
  | none :: es, p, used, out, hroom => by
    rw [metasOf, emitGroups, if_pos (show elemMetaZero.count = 0 from rfl)]
    exact emitGroups_eq es p used out hroom
  | some e :: es, p, used, out, hroom => by
    rw [metasOf, emitGroups, yielding]
    rw [yielding] at hroom
    by_cases hm : e.members = []
    · rw [if_pos hm] at hroom
      rw [if_pos hm, if_pos (by simp [metaOf, hm]), hm]
      exact emitGroups_eq es p used out hroom
    · -- the element reads back the segment it was named in
      rw [if_neg hm] at hroom
      have hlen : (assign candidate (elemBases e) used).length = e.members.length := by simp [length_elemBases]
      have h1 := emitGroup_eq (hroom e (by simp)) hlen p (List.zipWith setName (elemNodes (yielding es))
        (elemNames (yielding es) (used ++ assign candidate (elemBases e) used)).flatten) out
      have ih := emitGroups_eq es
        (p ++ List.zipWith setName (e.members.map Prod.fst) (assign candidate (elemBases e) used))
        (used ++ assign candidate (elemBases e) used)
        (out.appendLines ((elemGroups e (assign candidate (elemBases e) used)).flatMap Group.lines))
        fun d hd => hroom d (by simp [hd])
      rw [List.length_append, List.length_zipWith, hlen, List.length_map, min_self, List.append_assoc] at ih
      rw [if_neg hm, if_neg (by simpa [metaOf] using hm)]
      simp only [elemNodes, List.flatMap_cons, elemNames, List.flatten_cons] at ih h1 ⊢
      rw [List.zipWith_append (by simp [length_elemBases]), h1, ok_bind, ih]
      simp [Strbuf.appendLines_append]

theorem emitGroupNames_eq : ∀ (es : List (Option Elem)) (k : Nat) (out : Strbuf),
    emitGroupNames (metasOf k es) out = .ok (out.appendLines (((yielding es).map Elem.remarks).map (item 6)))
  | [], _, _ => rfl
  | none :: es, k, out => by
    rw [metasOf, emitGroupNames, if_pos (show elemMetaZero.count = 0 from rfl)]
    exact emitGroupNames_eq es k out
  | some e :: es, k, out => by
    rw [metasOf, emitGroupNames, yielding]
    by_cases hm : e.members = []
    · rw [if_pos hm, if_pos (by simp [metaOf, hm])]
      exact emitGroupNames_eq es _ out
    · rw [if_neg hm, if_neg (by simpa [metaOf] using hm), metaOf, strArg, ok_bind, emitGroupNames_eq es,
        yamlEmitDash_eq]
      rfl

theorem emitAll_eq : ∀ (ns : List ProxyNode) (out : Strbuf),
    ns.foldl (fun sb n => (nodeEmitYaml sb n).2) out = out.appendLines (ns.flatMap nodeLines)
  | [], _ => rfl
  | n :: ns, out => by
    rw [List.foldl_cons, emitAll_eq ns, nodeEmitYaml_eq, List.flatMap_cons, Strbuf.appendLines_append]

/-! ## The run -/

/-- The elements of the input that yield proxies. -/
def singboxElems (xs : List Json) : List Elem := yielding ((jsonxElems (.arr xs)).map readElem)

theorem length_flatMap_elemBases (es : List Elem) : (es.flatMap elemBases).length = (elemNodes es).length := by
  simp [elemNodes, List.length_flatMap, length_elemBases]

/-- What was parsed leaves room for the names. -/
theorem singboxElems_room {tok : Tokener} {data : Option Bytes} {xs : List Json}
    (h : jsonxParse tok data = some (.arr xs)) :
    (∀ e ∈ singboxElems xs, e.Room) ∧ NamesFit ((singboxElems xs).flatMap elemBases) [] := by
  have hsize := jsonxParse_size h
  rw [Json.size] at hsize
  have hroom := @yielding_room xs (by omega)
  refine ⟨hroom, namesFit_of_short (fun base hb => ?_) ?_⟩
  · obtain ⟨e, he, hb⟩ := List.mem_flatMap.1 hb
    unfold elemBases at hb
    split at hb
    · rename_i h1
      obtain ⟨m, hm⟩ := List.length_eq_one_iff.1 h1
      have := (hroom e he).members m (by rw [hm]; simp)
      obtain rfl := List.mem_singleton.1 hb
      omega
    · obtain ⟨m, hm, rfl⟩ := List.mem_map.1 hb
      have := (hroom e he).members m hm
      have hlen := length_ofBytes_le (e.remarks.bytes ++ (str " - " ++ m.2.bytes))
      rw [List.length_append, List.length_append, show (str " - ").length = 3 from rfl] at hlen
      rw [dashed]
      omega
  · have hlen := length_yielding xs
    rw [length_flatMap_elemBases, List.length_nil]
    unfold singboxElems
    unfold intMax at *
    omega

theorem elemNodes_eq_nil : ∀ (es : List (Option Elem)), elemNodes (yielding es) = [] ↔ yielding es = []
  | [] => by simp [yielding, elemNodes]
  | none :: es => elemNodes_eq_nil es
  | some e :: es => by
    rw [yielding]
    split
    · exact elemNodes_eq_nil es
    · rename_i hm
      simp [elemNodes, hm]

/-- `conv_singbox_run` on a JSON array. -/
theorem convSingboxRun_eq {tok : Tokener} {ctx : ConvCtx} {xs : List Json}
    (h : jsonxParse tok (some ctx.data) = some (.arr xs)) (outYaml : Option CStr) :
    convSingboxRun tok ctx outYaml =
      .ok (if singboxElems xs = [] then (-1, outYaml) else (0, some (singboxDoc (singboxElems xs)).yaml)) := by
  unfold convSingboxRun
  rw [h]
  simp only [scanElems_eq, List.nil_append, elemNodes_eq_nil]
  change (if singboxElems xs = [] then _ else _) = _
  split
  · rfl
  · -- naming, proxies, groups and PROXY append their lines one after another
    obtain ⟨hroom, hfit⟩ := singboxElems_room h
    have hname := nameElems_eq ((jsonxElems (.arr xs)).map readElem) [] [] [] rfl hroom hfit
    have hgroups := fun out => emitGroups_eq ((jsonxElems (.arr xs)).map readElem) [] [] out hroom
    simp only [List.nil_append, List.length_nil] at hname hgroups ⊢
    have hx := xstrdup_document (singboxDoc (singboxElems xs))
    simp only [Document.lines, singboxDoc, singboxElems, proxyGroup, Group.lines, GroupKind.lines, List.flatMap_cons,
      List.flatMap_nil, List.flatMap_append, List.append_nil, List.map_append, List.map_cons, List.map_nil,
      List.cons_append, List.nil_append, Strbuf.appendLines_append, Strbuf.appendLines_cons,
      Strbuf.appendLines_nil] at hx
    unfold convSingboxEmit
    rw [hname, ok_bind]
    simp only [emitAll_eq, hgroups, ok_bind, emitGroupNames_eq, yamlEmitKv_none, yamlEmitKv_str, yamlEmitDashKv_eq,
      yamlEmitDash_eq]
    rw [hx]
    rfl

/-- Any other input is refused. -/
theorem convSingboxRun_other {tok : Tokener} {ctx : ConvCtx}
    (h : ∀ xs, jsonxParse tok (some ctx.data) ≠ some (.arr xs)) (outYaml : Option CStr) :
    convSingboxRun tok ctx outYaml = .ok (-1, outYaml) := by
  unfold convSingboxRun
  split
  · rename_i xs hx; exact absurd hx (h xs)
  · rfl

/-! ## Two small inputs -/

/-- An outbound with only what `parse_vless_outbound` asks for, and a tag. -/
def smallOutbound (tag : String) : Json :=
  .obj [(str "protocol", .str (str "vless")), (str "tag", .str (str tag)),
    (str "settings", .obj [(str "vnext", .arr [.obj [(str "address", .str (str "h")), (str "port", .int 1),
      (str "users", .arr [.obj [(str "id", .str (str "u"))]])]])])]

/-- An element with such outbounds and perhaps a leastPing balancer. -/
def smallElem (remarks : String) (tags : List String) (balancer : Option String) : Json :=
  .obj ([(str "remarks", .str (str remarks)), (str "outbounds", .arr (tags.map smallOutbound))] ++
    (balancer.map fun b => (str "routing", .obj [(str "balancers", .arr [.obj [(str "tag", .str (str b)),
      (str "strategy", .obj [(str "type", .str (str "leastPing"))])]])])).toList)

/-- The text of `smallOutbound`. -/
def smallText (tag : String) : Bytes :=
  str "\x7b\"protocol\":\"vless\",\"tag\":\"" ++ (str tag ++
    str "\",\"settings\":\x7b\"vnext\":[\x7b\"address\":\"h\",\"port\":1,\"users\":[\x7b\"id\":\"u\"\x7d]\x7d]\x7d\x7d")

/-- A `null` and an element with two outbounds and a balancer. -/
def pairJson : List Json := [.null, smallElem "A" ["s", "t"] (some "b")]

def pairCtx : ConvCtx where
  data := str "[null,\x7b\"remarks\":\"A\",\"outbounds\":[" ++ (smallText "s" ++ (str "," ++ (smallText "t" ++
    str ("],\"routing\":\x7b\"balancers\":[\x7b\"tag\":\"b\",\"strategy\":" ++
      "\x7b\"type\":\"leastPing\"\x7d\x7d]\x7d\x7d]"))))
  spare := []
  fits := by decide +kernel

/-- Two elements with the same remarks and a single outbound each. -/
def twinJson : List Json := [smallElem "A" ["t"] none, smallElem "A" ["t"] none]

def twinCtx : ConvCtx where
  data := str "[\x7b\"remarks\":\"A\",\"outbounds\":[" ++ (smallText "t" ++ (str "]\x7d,\x7b\"remarks\":\"A\",\"outbounds\":[" ++
    (smallText "t" ++ str "]\x7d]")))
  spare := []
  fits := by decide +kernel

theorem jsonxParse_array {tok : Tokener} {d : Bytes} {xs : List Json} (hlen : ¬ intMax < d.length)
    (h : tok d = some (.arr xs)) : jsonxParse tok (some d) = some (.arr xs) := by
  rw [jsonxParse, if_neg hlen, h]; rfl

/-- The tokener of `pairJson`. -/
def pairTok : Tokener := .only pairCtx.data (.arr pairJson) (by decide +kernel)

/-- The tokener of `twinJson`. -/
def twinTok : Tokener := .only twinCtx.data (.arr twinJson) (by decide +kernel)

theorem pairCtx_parse : jsonxParse pairTok (some pairCtx.data) = some (.arr pairJson) :=
  jsonxParse_array (by decide +kernel) Tokener.only_self

theorem twinCtx_parse : jsonxParse twinTok (some twinCtx.data) = some (.arr twinJson) :=
  jsonxParse_array (by decide +kernel) Tokener.only_self

theorem pairCtx_run : convSingboxRun pairTok pairCtx none =
    .ok (0, some (singboxDoc (singboxElems pairJson)).yaml) := by
  rw [convSingboxRun_eq pairCtx_parse, if_neg (by decide +kernel)]

theorem twinCtx_run : convSingboxRun twinTok twinCtx none =
    .ok (0, some (singboxDoc (singboxElems twinJson)).yaml) := by
  rw [convSingboxRun_eq twinCtx_parse, if_neg (by decide +kernel)]

end SubConverter
