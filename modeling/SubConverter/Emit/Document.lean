/-
The document the converters write: proxies, and groups that list their members by name. Its text is
its lines; the keys are constants, so no line but the values depends on the input.
-/
import SubConverter.Emit.Node

namespace SubConverter

open CMem Line

/-! ## Documents -/

inductive GroupKind
  | select | urlTest
  deriving DecidableEq, Repr

structure Group where
  name : CStr
  kind : GroupKind
  members : List CStr
  deriving DecidableEq

structure Document where
  proxies : List ProxyNode
  groups : List Group
  deriving DecidableEq

def GroupKind.lines : GroupKind → List Line
  | select => [strKv 4 "type" (.lit "select")]
  | urlTest =>
    [strKv 4 "type" (.lit "url-test"), strKv 4 "url" (.lit "http://www.gstatic.com/generate_204"),
     kv 4 "interval" (some (.int 300)), kv 4 "tolerance" (some (.int 50))]

def Group.lines (g : Group) : List Line :=
  itemKv 2 "name" g.name :: (g.kind.lines ++ kv 4 "proxies" none :: g.members.map (item 6))

namespace Document

def lines (d : Document) : List Line :=
  kv 0 "proxies" none :: (d.proxies.flatMap nodeLines ++ kv 0 "proxy-groups" none :: d.groups.flatMap Group.lines)

def text (d : Document) : Bytes := d.lines.flatMap Line.text

/-- The string the converters return. -/
def yaml (d : Document) : CStr := CStr.ofBytes d.text

end Document

/-! ## Keys -/

/-- Printable ASCII, as all keys of the program are. -/
def keyOk (k : String) : Bool := k.toList.all fun c => 32 ≤ c.toNat && c.toNat < 127

def Line.KeyOk (l : Line) : Prop := ∀ k ∈ l.key, keyOk k = true

theorem str_printable {k : String} (h : keyOk k = true) : ∀ c ∈ str k, 32 ≤ c.toNat ∧ c.toNat < 127 := by
  intro c hc
  obtain ⟨d, hd, rfl⟩ := List.mem_map.1 hc
  have := List.all_eq_true.1 h d hd
  simp only [Bool.and_eq_true, decide_eq_true_eq] at this
  rwa [ch_toNat (by omega)]

theorem Line.head_printable {l : Line} (h : l.KeyOk) : ∀ c ∈ l.head, 32 ≤ c.toNat ∧ c.toNat < 127 := by
  obtain ⟨i, d, k, v⟩ := l
  intro c hc
  simp only [head, List.mem_append, List.mem_replicate] at hc
  rcases hc with ⟨-, rfl⟩ | hc | hc
  · decide
  · cases d
    · simp at hc
    · exact str_printable rfl c hc
  · rcases k with _ | k
    · simp at hc
    · simp only [Option.elim_some, List.mem_append] at hc
      rcases hc with hc | hc
      · exact str_printable (h k rfl) c hc
      · exact str_printable rfl c hc

theorem Line.head_noControl {l : Line} (h : l.KeyOk) : ∀ c ∈ l.head, isControl c = false := by
  intro c hc
  have := head_printable h c hc
  rw [Bool.eq_false_iff, Ne, isControl_iff]
  omega

theorem keyOk_kv {indent : Nat} {key : String} {v : Option Value} (h : keyOk key = true) :
    (kv indent key v).KeyOk := by
  rintro k ⟨⟩; exact h

theorem keyOk_itemKv {indent : Nat} {key : String} {v : CStr} (h : keyOk key = true) :
    (itemKv indent key v).KeyOk := by
  rintro k ⟨⟩; exact h

theorem keyOk_item {indent : Nat} {v : CStr} : (item indent v).KeyOk := nofun

theorem keyOk_optKv {cond : Bool} {indent : Nat} {key : String} {s : Option CStr} (h : keyOk key = true) :
    ∀ l ∈ optKv cond indent key s, l.KeyOk := by
  unfold optKv; split
  · simpa using keyOk_kv h
  · simp

theorem forall_mem_ite {α : Type} {c : Prop} [Decidable c] {P : α → Prop} {ls : List α} (h : ∀ l ∈ ls, P l) :
    ∀ l ∈ (if c then ls else []), P l := by
  split
  · exact h
  · simp

theorem keyOk_wsLines (n : ProxyNode) : ∀ l ∈ wsLines n, l.KeyOk := by
  simp only [wsLines, List.forall_mem_cons, List.not_mem_nil, false_imp_iff, implies_true, and_true]
  exact ⟨keyOk_kv rfl, keyOk_kv rfl, keyOk_kv rfl, keyOk_kv rfl⟩

theorem keyOk_xhttpLines (n : ProxyNode) : ∀ l ∈ xhttpLines n, l.KeyOk := by
  simp only [xhttpLines, List.forall_mem_cons, List.not_mem_nil, false_imp_iff, implies_true, and_true]
  exact ⟨keyOk_kv rfl, keyOk_kv rfl, keyOk_kv rfl, keyOk_kv rfl⟩

theorem keyOk_realityLines (n : ProxyNode) : ∀ l ∈ realityLines n, l.KeyOk := by
  rw [realityLines, List.forall_mem_append]
  refine ⟨keyOk_optKv rfl, forall_mem_ite ?_⟩
  rw [List.forall_mem_cons, List.forall_mem_append]
  exact ⟨keyOk_kv rfl, keyOk_optKv rfl, keyOk_optKv rfl⟩

theorem keyOk_nodeLines (n : ProxyNode) : ∀ l ∈ nodeLines n, l.KeyOk := by
  unfold nodeLines
  split
  · simp only [vlessLines, List.forall_mem_append, List.forall_mem_cons, List.not_mem_nil, false_imp_iff,
      implies_true, and_true]
    exact ⟨⟨keyOk_itemKv rfl, keyOk_kv rfl, keyOk_kv rfl, keyOk_kv rfl, keyOk_kv rfl, keyOk_kv rfl, keyOk_kv rfl,
      keyOk_kv rfl⟩, keyOk_optKv rfl, forall_mem_ite (keyOk_realityLines n), forall_mem_ite (keyOk_wsLines n),
      forall_mem_ite (keyOk_xhttpLines n)⟩
  · simp only [vmessLines, List.forall_mem_append, List.forall_mem_cons, List.not_mem_nil, false_imp_iff,
      implies_true, and_true]
    exact ⟨⟨keyOk_itemKv rfl, keyOk_kv rfl, keyOk_kv rfl, keyOk_kv rfl, keyOk_kv rfl, keyOk_kv rfl, keyOk_kv rfl,
      keyOk_kv rfl, keyOk_kv rfl, keyOk_kv rfl⟩, keyOk_optKv rfl, forall_mem_ite (keyOk_wsLines n)⟩
  · simp only [ssLines, List.forall_mem_append, List.forall_mem_cons, List.not_mem_nil, false_imp_iff, implies_true,
      and_true]
    exact ⟨⟨keyOk_itemKv rfl, keyOk_kv rfl, keyOk_kv rfl, keyOk_kv rfl, keyOk_kv rfl, keyOk_kv rfl, keyOk_kv rfl⟩,
      keyOk_optKv rfl, keyOk_optKv rfl⟩
  · simp only [trojanLines, List.forall_mem_append, List.forall_mem_cons, List.not_mem_nil, false_imp_iff,
      implies_true, and_true]
    exact ⟨⟨keyOk_itemKv rfl, keyOk_kv rfl, keyOk_kv rfl, keyOk_kv rfl, keyOk_kv rfl, keyOk_kv rfl, keyOk_kv rfl⟩,
      keyOk_optKv rfl, keyOk_kv rfl, forall_mem_ite (keyOk_realityLines n), forall_mem_ite (keyOk_wsLines n)⟩
  · simp

theorem keyOk_groupLines (g : Group) : ∀ l ∈ g.lines, l.KeyOk := by
  rw [Group.lines, List.forall_mem_cons, List.forall_mem_append, List.forall_mem_cons]
  refine ⟨keyOk_itemKv rfl, ?_, keyOk_kv rfl, ?_⟩
  · cases g.kind
    · exact List.forall_mem_singleton.2 (keyOk_kv rfl)
    · simp only [GroupKind.lines, List.forall_mem_cons, List.not_mem_nil, false_imp_iff, implies_true, and_true]
      exact ⟨keyOk_kv rfl, keyOk_kv rfl, keyOk_kv rfl, keyOk_kv rfl⟩
  · simpa using fun a _ => keyOk_item

theorem Document.keyOk_lines (d : Document) : ∀ l ∈ d.lines, l.KeyOk := by
  rw [lines, List.forall_mem_cons, List.forall_mem_append, List.forall_mem_cons]
  refine ⟨keyOk_kv rfl, ?_, keyOk_kv rfl, ?_⟩
  · simpa using fun l n _ hl => keyOk_nodeLines n l hl
  · simpa using fun l g _ hl => keyOk_groupLines g l hl

/-- The only control characters of a document are its line ends. -/
theorem Document.text_control (d : Document) : ∀ c ∈ d.text, isControl c = true → c = 10 := by
  intro c hc hcc
  obtain ⟨l, hl, hc⟩ := List.mem_flatMap.1 hc
  rw [Line.text, List.mem_append, List.mem_append, List.mem_singleton] at hc
  rcases hc with hc | hc | hc
  · rw [Line.head_noControl (d.keyOk_lines l hl) c hc] at hcc; cases hcc
  · rw [l.tail_noControl c hc] at hcc; cases hcc
  · exact hc

/-- The returned string is the whole text: it has no NUL. -/
theorem Document.bytes_yaml (d : Document) : d.yaml.bytes = d.text :=
  CStr.ofBytes_bytes fun h => absurd (d.text_control 0 h (by decide)) (by decide)

end SubConverter
