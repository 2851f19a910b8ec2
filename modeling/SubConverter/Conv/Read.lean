/-
What a reader of YAML gets from the document a converter returns: the tree of its nodes and groups, exactly when
the strings that are written are kept. Numbering a name neither loses a string nor saves one.
-/
import SubConverter.Conv.Skeleton
import SubConverter.Conv.Utf8
import SubConverter.Emit.Read

namespace SubConverter

open CMem Line Yaml Fresh

/-! ## Strings of a document -/

/-- All strings of the list are read back. -/
def AllKept (ss : List CStr) : Prop := ∀ s ∈ ss, Kept s.bytes

/-- The strings of a group that depend on the input. -/
def Group.strings (g : Group) : List CStr := g.name :: g.members

theorem allKept_cons {s : CStr} {ss : List CStr} : AllKept (s :: ss) ↔ Kept s.bytes ∧ AllKept ss := List.forall_mem_cons

theorem allKept_append {ss ts : List CStr} : AllKept (ss ++ ts) ↔ AllKept ss ∧ AllKept ts := List.forall_mem_append

theorem allKept_groupLines (g : Group) : AllKept (g.lines.filterMap Line.string) ↔ AllKept g.strings := by
  have hkind : AllKept (g.kind.lines.filterMap Line.string) := by
    have hlit : AllKept [.lit "select", .lit "url-test", .lit "http://www.gstatic.com/generate_204"] := by
      unfold AllKept
      decide +kernel
    cases g.kind <;> exact fun s hs => hlit s (by revert hs; simp +contextual [GroupKind.lines, Line.string, strKv, kv])
  have hitems : (g.members.map (item 6)).filterMap Line.string = g.members := by
    rw [List.filterMap_map]
    exact List.filterMap_some
  have hlines : g.lines.filterMap Line.string = g.name :: (g.kind.lines.filterMap Line.string ++ g.members) := by
    rw [Group.lines, List.filterMap_cons_some (f := Line.string) rfl, List.filterMap_append,
      List.filterMap_cons_none (f := Line.string) rfl, hitems]
  rw [hlines, Group.strings, allKept_cons, allKept_append, allKept_cons]
  exact and_congr_right fun _ => and_iff_right hkind

/-- Nothing but the strings of its nodes and groups matters for a document. -/
theorem Document.stringsKept_parts (d : Document) :
    d.StringsKept ↔ (∀ n ∈ d.proxies, AllKept n.written) ∧ ∀ g ∈ d.groups, AllKept g.strings := by
  have hstrings : d.lines.filterMap Line.string =
      d.proxies.flatMap ProxyNode.written ++ d.groups.flatMap fun g => g.lines.filterMap Line.string := by
    rw [Document.lines, List.filterMap_cons_none rfl, List.filterMap_append, List.filterMap_cons_none rfl,
      List.filterMap_flatMap, List.filterMap_flatMap]
    rfl
  rw [Document.StringsKept, hstrings, List.forall_mem_append, List.forall_mem_flatMap, List.forall_mem_flatMap]
  exact and_congr_right fun _ => forall₂_congr fun g _ => allKept_groupLines g

/-! ## Names -/

/-- A numbered name has a space and ends in a digit. -/
theorem kept_numbered (base : CStr) (k : Nat) : Kept (numbered base k).bytes := by
  rw [bytes_numbered]
  constructor
  · rintro ⟨-, hlast⟩
    rw [← List.append_assoc, List.getLast?_append_of_ne_nil _ (decimal_ne_nil k)] at hlast
    have hdigit := decimal_digit (List.mem_of_getLast? hlast)
    exact absurd hdigit (by decide)
  · intro hdot
    have hblank := dotted_bytes hdot (ch ' ') (by simp [str])
    exact hblank.2.2.2.1 rfl

/-- The given names are kept exactly when the names asked for are. -/
theorem allKept_uniqueNames (bases : List CStr) : AllKept (uniqueNames bases) ↔ AllKept bases := by
  constructor
  · intro h b hb
    have h0 : candidate b 0 ∈ [] ++ assign candidate bases [] := zero_mem_assign candidate_injective hb
    exact h _ h0
  · intro h s hs
    obtain ⟨b, hb, k, rfl⟩ := mem_assign hs
    rcases k with _ | k
    · exact h b hb
    · exact kept_numbered b (k + 2)

theorem allKept_written {ns : List ProxyNode} (h : ∀ n ∈ ns, n.type.emits = true) :
    (∀ n ∈ ns, AllKept n.written) ↔ AllKept (ns.map fun n => nvl n.name) ∧ ∀ t ∈ ns.map (·.written.tail), AllKept t := by
  unfold AllKept
  rw [List.forall_mem_map, List.forall_mem_map, ← forall₂_and]
  refine forall₂_congr fun n hn => ?_
  rw [written_eq, if_pos (h n hn), List.forall_mem_cons]
  rfl

theorem map_tail_setName : ∀ {ns : List ProxyNode} {names : List CStr}, names.length = ns.length →
    (List.zipWith setName ns names).map (·.written.tail) = ns.map (·.written.tail)
  | [], _, _ => by simp
  | n :: ns, s :: names, h => by
    rw [List.zipWith_cons_cons, List.map_cons, map_tail_setName (by simpa using h), written_setName]
    rfl

/-! ## A list of links -/

/-- The document of a list of links is read back exactly when the strings written for the links are. -/
theorem stringsKept_base64Doc {ns : List ProxyNode} (h : ∀ n ∈ ns, n.type.emits = true) :
    (base64Doc ns).StringsKept ↔ ∀ n ∈ ns, AllKept n.written := by
  have hlit : Kept (CStr.lit "PROXY").bytes ∧ Kept (CStr.lit "DIRECT").bytes := by decide +kernel
  have hlen : (uniqueNames (ns.map fun n => nvl n.name)).length = ns.length := by simp [length_uniqueNames]
  have hproxies : (∀ n ∈ (base64Doc ns).proxies, AllKept n.written) ↔ ∀ n ∈ ns, AllKept n.written := by
    rw [base64Doc, allKept_written (renamed_emits h), allKept_written h, names_renamed, allKept_uniqueNames, renamed,
      map_tail_setName hlen]
  rw [Document.stringsKept_parts, hproxies]
  -- the members of PROXY are names of proxies again
  refine and_iff_left_of_imp fun hall => List.forall_mem_singleton.2 (allKept_cons.2 ⟨hlit.1, ?_⟩)
  refine allKept_append.2 ⟨?_, List.forall_mem_singleton.2 hlit.2⟩
  rw [names_renamed, allKept_uniqueNames]
  exact ((allKept_written h).1 hall).1

/-! ## The runs -/

/-- The document a run returns is read as the tree of its nodes and groups exactly when its strings are kept; for
a list of links these are the strings written for the accepted links. -/
theorem conv_document_read (tok : Tokener) (ctx : ConvCtx) (outYaml : Option CStr) (y : CStr) :
    (convBase64Run tok ctx outYaml = .ok (0, some y) →
      (readDocument y.bytes = some (base64Doc (acceptedNodes tok (bodyText ctx))).tree ↔
        ∀ n ∈ acceptedNodes tok (bodyText ctx), AllKept n.written)) ∧
    (convSingboxRun tok ctx outYaml = .ok (0, some y) →
      ∃ xs, jsonxParse tok (some ctx.data) = some (.arr xs) ∧
        (readDocument y.bytes = some (singboxDoc (singboxElems xs)).tree ↔
          (singboxDoc (singboxElems xs)).StringsKept)) := by
  constructor
  · intro h
    rcases convBase64Run_ok h with h | ⟨-, h⟩
    · cases h
    · cases h
      rw [Document.read_iff, stringsKept_base64Doc (acceptedNodes_emits tok (length_bodyText_lt ctx))]
  · intro h
    obtain ⟨xs, hx, -, hy⟩ := convSingboxRun_ok h
    cases hy
    exact ⟨xs, hx, Document.read_iff _⟩

/-- A link without a name, and an element of two outbounds. -/
theorem conv_document_read_pair :
    readDocument (base64Doc (acceptedNodes .refusing (bodyText linkBody))).yaml.bytes =
        some (base64Doc (acceptedNodes .refusing (bodyText linkBody))).tree ∧
      ∃ xs, jsonxParse pairTok (some pairCtx.data) = some (.arr xs) ∧
        (readDocument (singboxDoc (singboxElems pairJson)).yaml.bytes = some (singboxDoc (singboxElems xs)).tree ↔
          (singboxDoc (singboxElems xs)).StringsKept) := by
  refine ⟨((conv_document_read .refusing linkBody none _).1 linkBody_run).2 ?_,
    (conv_document_read pairTok pairCtx none _).2 pairCtx_run⟩
  unfold AllKept
  decide +kernel

end SubConverter
