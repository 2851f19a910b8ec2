/-
What the converters write once the nodes are known. A run of `conv_base64_run` from the naming pass on
returns the text of `base64Doc`.
-/
import SubConverter.Conv.Names
import SubConverter.Emit.Document

namespace SubConverter

open CMem Line

/-- The nodes with the names the naming pass gives them. -/
def renamed (ns : List ProxyNode) : List ProxyNode :=
  List.zipWith setName ns (uniqueNames (ns.map fun n => nvl n.name))

def proxyGroup (names : List CStr) : Group := ⟨.lit "PROXY", .select, names ++ [.lit "DIRECT"]⟩

/-- The document of `conv_base64_run` for these nodes. -/
def base64Doc (ns : List ProxyNode) : Document :=
  ⟨renamed ns, [proxyGroup ((renamed ns).map fun n => nvl n.name)]⟩

theorem names_renamed (ns : List ProxyNode) :
    (renamed ns).map (fun n => nvl n.name) = uniqueNames (ns.map fun n => nvl n.name) :=
  map_name_setName (by simp [length_uniqueNames])

theorem emitNodes_eq : ∀ {ns : List ProxyNode} (out : Strbuf), (∀ n ∈ ns, n.type.emits = true) →
    emitNodes ns out = some (out.appendLines (ns.flatMap nodeLines))
  | [], _, _ => rfl
  | n :: ns, out, h => by
    rw [emitNodes, nodeEmitYaml_eq, if_pos (h n (by simp))]
    simp only [ne_eq, not_true_eq_false, if_false]
    rw [emitNodes_eq _ fun m hm => h m (by simp [hm]), List.flatMap_cons, Strbuf.appendLines_append]

/-- The members, each with its name. -/
theorem emitNames_eq : ∀ {ns : List ProxyNode} (out : Strbuf), (∀ n ∈ ns, n.name ≠ none) →
    emitNames ns out = .ok (out.appendLines ((ns.map fun n => nvl n.name).map (item 6)))
  | [], _, _ => rfl
  | n :: ns, out, h => by
    obtain ⟨s, hs⟩ := Option.ne_none_iff_exists'.1 (h n (by simp))
    rw [emitNames, hs, strArg, ok_bind, emitNames_eq _ fun m hm => h m (by simp [hm]), yamlEmitDash_eq]
    simp [hs, nvl, Strbuf.appendLines_cons]

theorem mem_setName {ns : List ProxyNode} {names : List CStr} {m : ProxyNode}
    (hm : m ∈ List.zipWith setName ns names) : ∃ n ∈ ns, ∃ s ∈ names, m = setName n s := by
  rw [← List.map_uncurry_zip_eq_zipWith, List.mem_map] at hm
  obtain ⟨⟨n, s⟩, h, rfl⟩ := hm
  exact ⟨n, (List.of_mem_zip h).1, s, (List.of_mem_zip h).2, rfl⟩

theorem renamed_ne_none {ns : List ProxyNode} : ∀ m ∈ renamed ns, m.name ≠ none := by
  intro m hm
  obtain ⟨n, -, s, -, rfl⟩ := mem_setName hm
  exact Option.some_ne_none s

theorem renamed_emits {ns : List ProxyNode} (h : ∀ n ∈ ns, n.type.emits = true) :
    ∀ m ∈ renamed ns, m.type.emits = true := by
  intro m hm
  obtain ⟨n, hn, s, -, rfl⟩ := mem_setName hm
  exact h n hn

theorem data_appendLines {ls : List Line} (h : ls ≠ []) (out : Strbuf) :
    (out.appendLines ls).data = some (out.bytes ++ ls.flatMap Line.text) := by
  obtain ⟨ls, l, rfl⟩ := (List.eq_nil_or_concat' ls).resolve_left h
  rw [Strbuf.appendLines_append, Strbuf.appendLines_cons, Strbuf.appendLines_nil, Strbuf.data_appendBytes,
    Strbuf.bytes_appendLines]
  simp

theorem xstrdup_document (d : Document) : xstrdup (Strbuf.init.appendLines d.lines).data = .ok d.yaml := by
  rw [data_appendLines (by simp [Document.lines])]; rfl

/-- The document is written when every name can be given. -/
theorem convBase64Emit_eq {ns : List ProxyNode} (h : ∀ n ∈ ns, n.type.emits = true)
    (hfit : NamesFit (ns.map fun n => nvl n.name) []) (outYaml : Option CStr) :
    convBase64Emit ns outYaml = .ok (0, some (base64Doc ns).yaml) := by
  have hr : nameNodes ns [] = .ok (renamed ns) := (nameNodes_ok_iff ..).2 ⟨rfl, hfit⟩
  rw [convBase64Emit, hr, ok_bind, emitNodes_eq _ (renamed_emits h)]
  simp only [emitNames_eq _ renamed_ne_none, ok_bind]
  have hx := xstrdup_document (base64Doc ns)
  simp only [Document.lines, base64Doc, proxyGroup, Group.lines, GroupKind.lines, List.flatMap_cons, List.flatMap_nil,
    List.append_nil, List.map_append, List.map_cons, List.map_nil, List.cons_append, List.nil_append,
    Strbuf.appendLines_append, Strbuf.appendLines_cons, Strbuf.appendLines_nil] at hx
  simp only [yamlEmitKv_none, yamlEmitKv_str, yamlEmitDashKv_eq, yamlEmitDash_eq]
  rw [hx, ok_bind]
  rfl

theorem convBase64Emit_error {ns : List ProxyNode} (hfit : ¬ NamesFit (ns.map fun n => nvl n.name) [])
    (outYaml : Option CStr) : ∃ e, convBase64Emit ns outYaml = .error e := by
  rcases hname : nameNodes ns [] with e | ms
  · exact ⟨e, by rw [convBase64Emit, hname]; rfl⟩
  · exact absurd ((nameNodes_ok_iff ..).1 hname).2 hfit

end SubConverter
