/-
The documents of the converters have the skeleton that the shapes of the nodes, the sizes of the groups and
the balancers fix: no string of the input adds, drops or changes a line.
-/
import SubConverter.Conv.Unique
import SubConverter.Emit.Skeleton

namespace SubConverter

open CMem

/-- The skeleton of the document for nodes of these shapes. -/
def base64Skeleton (shapes : List NodeShape) : List Bytes := docSkeleton shapes [(.select, shapes.length + 1)]

/-- The shapes of an element's nodes, and whether it has a leastPing balancer. -/
structure ElemShape where
  nodes : List NodeShape
  balancer : Bool
  deriving DecidableEq

def Elem.shape (e : Elem) : ElemShape := ⟨e.members.map fun m => m.1.shape, e.balancer.isSome⟩

def ElemShape.groups (s : ElemShape) : List (GroupKind × Nat) :=
  (.select, s.nodes.length + 1) :: if s.balancer then [(.urlTest, s.nodes.length)] else []

/-- The skeleton of the document for elements of these shapes. -/
def singboxSkeleton (shapes : List ElemShape) : List Bytes :=
  docSkeleton (shapes.flatMap ElemShape.nodes) (shapes.flatMap ElemShape.groups ++ [(.select, shapes.length + 1)])

/-- The name is no part of the shape. -/
theorem map_shape_setName : ∀ {ns : List ProxyNode} {names : List CStr}, names.length = ns.length →
    (List.zipWith setName ns names).map ProxyNode.shape = ns.map ProxyNode.shape
  | [], _, _ => by simp
  | n :: ns, s :: names, h => by
    rw [List.zipWith_cons_cons, List.map_cons, map_shape_setName (by simpa using h)]; rfl

theorem base64Doc_skeleton (ns : List ProxyNode) :
    HasSkeleton (base64Doc ns).yaml.bytes (base64Skeleton (ns.map ProxyNode.shape)) := by
  have h := (base64Doc ns).hasSkeleton
  have hshapes : (base64Doc ns).proxies.map ProxyNode.shape = ns.map ProxyNode.shape :=
    map_shape_setName (by rw [length_uniqueNames, List.length_map])
  have hgroups : ((base64Doc ns).groups.map fun g => (g.kind, g.members.length)) =
      [(.select, (ns.map ProxyNode.shape).length + 1)] := by
    rw [base64Doc, names_renamed]
    simp [proxyGroup, length_uniqueNames]
  rwa [hshapes, hgroups] at h

theorem sizes_elemGroups : ∀ (es : List Elem) (used : List CStr),
    ((List.zipWith elemGroups es (elemNames es used)).flatten.map fun g => (g.kind, g.members.length)) =
      (es.map Elem.shape).flatMap ElemShape.groups
  | [], _ => rfl
  | e :: es, used => by
    rw [elemNames, List.zipWith_cons_cons, List.flatten_cons, List.map_append, sizes_elemGroups es, List.map_cons,
      List.flatMap_cons]
    congr 1
    cases hb : e.balancer <;> simp [elemGroups, ElemShape.groups, Elem.shape, hb, length_elemBases]

theorem singboxDoc_skeleton (es : List Elem) :
    HasSkeleton (singboxDoc es).yaml.bytes (singboxSkeleton (es.map Elem.shape)) := by
  have h := (singboxDoc es).hasSkeleton
  have hshapes : (singboxDoc es).proxies.map ProxyNode.shape = (es.map Elem.shape).flatMap ElemShape.nodes := by
    rw [singboxDoc, map_shape_setName]
    · simp [elemNodes, List.map_flatMap, List.flatMap_map, Elem.shape, Function.comp_def]
    · rw [flatten_elemNames, Fresh.length_assign, length_flatMap_elemBases]
  have hgroups : ((singboxDoc es).groups.map fun g => (g.kind, g.members.length)) =
      (es.map Elem.shape).flatMap ElemShape.groups ++ [(.select, (es.map Elem.shape).length + 1)] := by
    rw [singboxDoc, List.map_append, sizes_elemGroups]
    simp [proxyGroup]
  rwa [hshapes, hgroups] at h

/-- The lines `node_emit_yaml` writes, and the lines of the documents of both converters, are fixed up to
their values by the shapes: two inputs of the same shapes have the same skeleton, whatever is in the strings. -/
theorem conv_skeleton :
    (∀ (n : ProxyNode) (out : Strbuf), ∃ text, (nodeEmitYaml out n).2.bytes = out.bytes ++ text ∧
      HasSkeleton text n.shape.skeleton) ∧
    (∀ tok ctx outYaml out, convBase64Run tok ctx outYaml = .ok (0, some out) →
      HasSkeleton out.bytes (base64Skeleton ((acceptedNodes tok (bodyText ctx)).map ProxyNode.shape))) ∧
    (∀ tok ctx outYaml out, convSingboxRun tok ctx outYaml = .ok (0, some out) →
      ∃ xs, jsonxParse tok (some ctx.data) = some (.arr xs) ∧
        HasSkeleton out.bytes (singboxSkeleton ((singboxElems xs).map Elem.shape))) := by
  refine ⟨fun n out => ⟨(nodeLines n).flatMap Line.text, ?_, ?_⟩, fun tok ctx outYaml out h => ?_,
    fun tok ctx outYaml out h => ?_⟩
  · rw [nodeEmitYaml_eq, Strbuf.bytes_appendLines]
  · rw [← skeleton_shape]
    exact hasSkeleton_lines (keyOk_nodeLines n)
  · rcases convBase64Run_ok h with h | ⟨-, h⟩
    · cases h
    · cases h
      exact base64Doc_skeleton _
  · obtain ⟨xs, hx, -, h⟩ := convSingboxRun_ok h
    cases h
    exact ⟨xs, hx, singboxDoc_skeleton _⟩

/-- The skeleton of a run on one link. -/
theorem conv_skeleton_link :
    HasSkeleton (base64Doc (acceptedNodes .refusing (bodyText linkBody))).yaml.bytes
      (base64Skeleton ((acceptedNodes .refusing (bodyText linkBody)).map ProxyNode.shape)) :=
  conv_skeleton.2.1 .refusing linkBody none _ linkBody_run

end SubConverter
