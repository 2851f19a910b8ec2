/-
The skeleton of a text: the heads of its lines, without the values. The skeleton of a node depends on the
node's shape alone, and that of a document on the shapes of its nodes and the sizes of its groups.
-/
import SubConverter.Emit.Document
import SubConverter.Emit.Quote

namespace SubConverter

open CMem Line

/-! ## Lines of a text -/

/-- The lines of the text start with these heads, in order, and no other line follows; what stands behind a
head has no control characters. -/
def HasSkeleton (text : Bytes) (heads : List Bytes) : Prop :=
  ∃ tails : List Bytes, tails.length = heads.length ∧ (∀ t ∈ tails, ∀ c ∈ t, isControl c = false) ∧
    text.splitOn 10 = List.zipWith (· ++ ·) heads tails ++ [[]]

theorem splitOn_lines : ∀ {ls : List Line}, (∀ l ∈ ls, l.KeyOk) →
    (ls.flatMap Line.text).splitOn 10 = List.zipWith (· ++ ·) (ls.map head) (ls.map tail) ++ [[]]
  | [], _ => rfl
  | l :: ls, h => by
    have hno : (10 : Byte) ∉ l.head ++ l.tail := fun hc => by
      rcases List.mem_append.1 hc with hc | hc
      · exact absurd (head_noControl (h l (by simp)) 10 hc) (by decide)
      · exact absurd (l.tail_noControl 10 hc) (by decide)
    rw [List.flatMap_cons, Line.text, ← List.append_assoc, List.append_assoc, List.singleton_append,
      List.splitOn_append_cons_self, List.splitOn_eq_singleton hno, splitOn_lines fun l' hl => h l' (by simp [hl])]
    rfl

theorem hasSkeleton_lines {ls : List Line} (h : ∀ l ∈ ls, l.KeyOk) :
    HasSkeleton (ls.flatMap Line.text) (ls.map head) := by
  refine ⟨ls.map tail, by simp, fun t ht => ?_, splitOn_lines h⟩
  obtain ⟨l, -, rfl⟩ := List.mem_map.1 ht
  exact l.tail_noControl

theorem strKv_injective {indent : Nat} {key : String} {s t : CStr}
    (h : (strKv indent key s).head ++ (strKv indent key s).tail = (strKv indent key t).head ++ (strKv indent key t).tail) :
    s = t := by
  have htail : ∀ u : CStr, (strKv indent key u).tail = str " " ++ scalarText u.bytes := fun u => rfl
  rw [show (strKv indent key s).head = (strKv indent key t).head from rfl, List.append_cancel_left_eq, htail, htail,
    List.append_cancel_left_eq] at h
  exact CStr.ext (scalarText_injective h)

/-! ## Shapes -/

/-- What is known of an optional string but for its contents. -/
inductive Presence
  | null | empty | nonempty
  deriving DecidableEq, Repr

def presence : Option CStr → Presence
  | none => .null
  | some s => if s.bytes = [] then .empty else .nonempty

/-- The type, the modes and which optional fields are null or empty. -/
structure NodeShape where
  type : NodeType
  transport : NodeTransport
  tls : NodeTls
  sni : Presence
  fp : Presence
  realityPbk : Presence
  realitySid : Presence
  plugin : Presence
  pluginOpts : Presence
  deriving DecidableEq

def ProxyNode.shape (n : ProxyNode) : NodeShape where
  type := n.type
  transport := n.transport
  tls := n.tls
  sni := presence n.sni
  fp := presence n.fp
  realityPbk := presence n.realityPbk
  realitySid := presence n.realitySid
  plugin := presence n.plugin
  pluginOpts := presence n.pluginOpts

theorem given_eq (p : Option CStr) : given p = decide (presence p = .nonempty) := by
  rcases p with _ | s
  · rfl
  · by_cases h : s.bytes = [] <;> simp [given, presence, h]

theorem isSome_eq (p : Option CStr) : p.isSome = decide (presence p ≠ .null) := by
  rcases p with _ | s
  · rfl
  · by_cases h : s.bytes = [] <;> simp [presence, h]

theorem map_head_optKv (cond : Bool) (indent : Nat) (key : String) (s : Option CStr) :
    (optKv cond indent key s).map head = if cond then [(kv indent key none).head] else [] := by
  cases cond <;> rfl

/-- Two nodes of one shape have lines with the same heads. -/
theorem map_head_nodeLines {n m : ProxyNode} (h : n.shape = m.shape) :
    (nodeLines n).map head = (nodeLines m).map head := by
  obtain ⟨htype, htransport, htls, hsni, hfp, hpbk, hsid, hplugin, hopts⟩ := NodeShape.mk.inj h
  have hreality : (realityLines n).map head = (realityLines m).map head := by
    simp only [realityLines, List.map_append, map_head_optKv, apply_ite (List.map head), List.map_cons, given_eq,
      isSome_eq, hfp, hpbk, hsid]
  have hws : (wsLines n).map head = (wsLines m).map head := rfl
  have hxhttp : (xhttpLines n).map head = (xhttpLines m).map head := rfl
  unfold nodeLines
  rw [htype]
  split
  · simp only [vlessLines, List.map_append, map_head_optKv, apply_ite (List.map head), given_eq, hreality, hws, hxhttp,
      htransport, htls, hsni]
    rfl
  · simp only [vmessLines, List.map_append, map_head_optKv, apply_ite (List.map head), given_eq, hws, htransport, htls,
      hsni]
    rfl
  · simp only [ssLines, List.map_append, map_head_optKv, given_eq, hplugin, hopts]
    rfl
  · simp only [trojanLines, List.map_append, List.map_cons, map_head_optKv, apply_ite (List.map head), given_eq,
      hreality, hws, htransport, htls, hsni]
    rfl
  · rfl

/-! ## Skeletons -/

def Presence.sample : Presence → Option CStr
  | null => none
  | empty => some (.lit "")
  | nonempty => some (.lit "x")

/-- A node of this shape. -/
def NodeShape.node (s : NodeShape) : ProxyNode :=
  { nodeInit with
    type := s.type, transport := s.transport, tls := s.tls, sni := s.sni.sample, fp := s.fp.sample,
    realityPbk := s.realityPbk.sample, realitySid := s.realitySid.sample, plugin := s.plugin.sample,
    pluginOpts := s.pluginOpts.sample }

/-- The heads of the lines of any node of this shape. -/
def NodeShape.skeleton (s : NodeShape) : List Bytes := (nodeLines s.node).map head

theorem presence_sample (p : Presence) : presence p.sample = p := by cases p <;> decide +kernel

theorem shape_node (s : NodeShape) : s.node.shape = s := by
  simp [ProxyNode.shape, NodeShape.node, presence_sample]

theorem skeleton_shape (n : ProxyNode) : (nodeLines n).map head = n.shape.skeleton :=
  map_head_nodeLines (shape_node n.shape).symm

/-- The heads of the lines of a group with this many members. -/
def groupSkeleton (g : GroupKind × Nat) : List Bytes :=
  (itemKv 2 "name" (.lit "")).head ::
    (g.1.lines.map head ++ (kv 4 "proxies" none).head :: List.replicate g.2 (item 6 (.lit "")).head)

/-- The heads of the lines of a document with nodes of these shapes and such groups. -/
def docSkeleton (shapes : List NodeShape) (groups : List (GroupKind × Nat)) : List Bytes :=
  (kv 0 "proxies" none).head ::
    (shapes.flatMap NodeShape.skeleton ++ (kv 0 "proxy-groups" none).head :: groups.flatMap groupSkeleton)

theorem map_head_groupLines (g : Group) : g.lines.map head = groupSkeleton (g.kind, g.members.length) := by
  have hitems : (g.members.map (item 6)).map head = List.replicate g.members.length (item 6 (.lit "")).head := by
    rw [List.map_map, List.eq_replicate_iff]
    exact ⟨by simp, by simp [item, head]⟩
  rw [Group.lines, List.map_cons, List.map_append, List.map_cons, hitems]
  rfl

namespace Document

theorem map_head_lines (d : Document) :
    d.lines.map head = docSkeleton (d.proxies.map ProxyNode.shape) (d.groups.map fun g => (g.kind, g.members.length)) := by
  rw [lines, List.map_cons, List.map_append, List.map_cons, List.map_flatMap, List.map_flatMap, docSkeleton,
    List.flatMap_map, List.flatMap_map]
  simp only [skeleton_shape, map_head_groupLines]

theorem hasSkeleton (d : Document) : HasSkeleton d.yaml.bytes
    (docSkeleton (d.proxies.map ProxyNode.shape) (d.groups.map fun g => (g.kind, g.members.length))) := by
  rw [bytes_yaml, ← map_head_lines]
  exact hasSkeleton_lines d.keyOk_lines

end Document

end SubConverter
