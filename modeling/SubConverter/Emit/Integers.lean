/-
The integers of a document: each proxy writes its port, and a vmess proxy its `alterId`, once.
-/
import SubConverter.Emit.Document

namespace SubConverter

open CMem Line

/-- The integer a line gives for a key. -/
def Line.intAt (key : String) (l : Line) : Option Int :=
  if l.key = some key then
    match l.value with
    | some (.int i) => some i
    | _ => none
  else none

/-- The integers lines give for a key, in order. -/
def ints (key : String) (ls : List Line) : List Int := ls.filterMap (Line.intAt key)

section Lines

variable (key : String)

@[simp] theorem ints_nil : ints key [] = [] := rfl

@[simp] theorem ints_cons (l : Line) (ls : List Line) : ints key (l :: ls) = (l.intAt key).toList ++ ints key ls := by
  unfold ints
  rw [List.filterMap_cons]
  cases l.intAt key <;> rfl

@[simp] theorem ints_append (a b : List Line) : ints key (a ++ b) = ints key a ++ ints key b := List.filterMap_append

@[simp] theorem ints_ite {c : Prop} [Decidable c] {ls : List Line} (h : ints key ls = []) :
    ints key (if c then ls else []) = [] := by
  split
  · exact h
  · rfl

theorem ints_flatMap {α : Type} (f : α → List Line) (xs : List α) :
    ints key (xs.flatMap f) = xs.flatMap fun x => ints key (f x) := List.filterMap_flatMap

/-- Only lines with an integer count. -/
theorem intAt_none {l : Line} (h : ∀ i, l.value ≠ some (.int i)) : l.intAt key = none := by
  unfold Line.intAt
  split
  · split
    · rename_i i hv; exact absurd hv (h i)
    · rfl
  · rfl

theorem ints_none {ls : List Line} (h : ∀ l ∈ ls, ∀ i, l.value ≠ some (.int i)) : ints key ls = [] :=
  List.filterMap_eq_nil_iff.2 fun l hl => intAt_none key (h l hl)

@[simp] theorem ints_optKv (cond : Bool) (indent : Nat) (k : String) (s : Option CStr) :
    ints key (optKv cond indent k s) = [] := by
  refine ints_none key fun l hl i => ?_
  unfold optKv at hl
  split at hl
  · rw [List.mem_singleton.1 hl]
    cases s <;> simp [kv]
  · cases hl

@[simp] theorem intAt_int (indent : Nat) (k : String) (i : Int) :
    (kv indent k (some (.int i))).intAt key = if k = key then some i else none := by
  simp [Line.intAt, kv]

@[simp] theorem intAt_strKv (indent : Nat) (k : String) (s : CStr) : (strKv indent k s).intAt key = none :=
  intAt_none key (by simp [strKv, kv])

@[simp] theorem intAt_kv_none (indent : Nat) (k : String) :
    (kv indent k none).intAt key = none := intAt_none key (by simp [kv])

@[simp] theorem intAt_kv_str (indent : Nat) (k : String) (s : Option CStr) :
    (kv indent k (s.map .str)).intAt key = none :=
  intAt_none key (by cases s <;> simp [kv])

@[simp] theorem intAt_bool (indent : Nat) (k : String) (b : Bool) : (kv indent k (some (.bool b))).intAt key = none :=
  intAt_none key (by simp [kv])

@[simp] theorem intAt_itemKv (indent : Nat) (k : String) (s : CStr) : (itemKv indent k s).intAt key = none :=
  intAt_none key (by simp [itemKv])

@[simp] theorem ints_wsLines (n : ProxyNode) : ints key (wsLines n) = [] := by
  simp [wsLines]

@[simp] theorem ints_xhttpLines (n : ProxyNode) : ints key (xhttpLines n) = [] := by
  simp [xhttpLines]

@[simp] theorem ints_realityLines (n : ProxyNode) : ints key (realityLines n) = [] := by
  rw [realityLines, ints_append, ints_optKv, List.nil_append]
  exact ints_ite key (by simp)

end Lines

/-- The ports and the `alterId` of a node's lines. -/
theorem ints_nodeLines {n : ProxyNode} (h : n.type.emits = true) :
    ints "port" (nodeLines n) = [n.port] ∧ ints "alterId" (nodeLines n) = if n.type = .vmess then [n.alterId] else [] := by
  unfold nodeLines
  rcases ht : n.type with _ | _ | _ | _ | _ | _ | _ | _ <;> rw [ht] at h <;> try cases h
  · simp [vlessLines]
  · simp [vmessLines]
  · simp [ssLines]
  · simp [trojanLines]

theorem ints_groupLines {key : String} (hi : "interval" ≠ key) (ht : "tolerance" ≠ key) (g : Group) :
    ints key g.lines = [] := by
  have hitems : ints key (g.members.map (item 6)) = [] := by
    refine ints_none key fun l hl i => ?_
    obtain ⟨s, -, rfl⟩ := List.mem_map.1 hl
    simp [item]
  unfold Group.lines GroupKind.lines
  cases g.kind <;> simp [hi, ht, hitems]

/-- The integers of a document are those of its proxies. -/
theorem ints_document {key : String} (hi : "interval" ≠ key) (ht : "tolerance" ≠ key) (d : Document) :
    ints key d.lines = d.proxies.flatMap fun n => ints key (nodeLines n) := by
  have hgroups : ints key (d.groups.flatMap Group.lines) = [] := by
    rw [ints_flatMap]
    simp [ints_groupLines hi ht]
  simp [Document.lines, hgroups, ints_flatMap]

theorem ints_port {d : Document} (h : ∀ n ∈ d.proxies, n.type.emits = true) :
    ints "port" d.lines = d.proxies.map ProxyNode.port := by
  rw [ints_document (by decide) (by decide), List.flatMap_congr fun n hn => (ints_nodeLines (h n hn)).1]
  exact List.map_eq_flatMap.symm

theorem ints_alterId {d : Document} (h : ∀ n ∈ d.proxies, n.type.emits = true) : ints "alterId" d.lines =
    d.proxies.filterMap fun n => if n.type = .vmess then some n.alterId else none := by
  rw [ints_document (by decide) (by decide), List.flatMap_congr fun n hn => (ints_nodeLines (h n hn)).2]
  induction d.proxies with
  | nil => rfl
  | cons n ns ih =>
    rw [List.flatMap_cons, ih, List.filterMap_cons]
    by_cases ht : n.type = .vmess <;> simp [ht]

end SubConverter
