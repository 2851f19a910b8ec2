/-
A flow list read as a flow sequence. The items are quoted as for block context, so that a plain one with a
character of the flow structure ends early; all the others are read back.
-/
import SubConverter.Emit.Scalar
import SubConverter.Yaml.Flow

namespace SubConverter

open CMem Yaml

/-! ## The text of a list -/

/-- The text behind an item: the other items, each behind a comma, and the end. -/
def flowRest (items : List CStr) : Bytes := (items.flatMap fun s => str ", " ++ scalarText s.bytes) ++ str "]\n"

/-- The text from the first item on. -/
def flowEntries : List CStr → Bytes
  | [] => str "]\n"
  | s :: items => scalarText s.bytes ++ flowRest items

theorem flowRest_cons (s : CStr) (items : List CStr) :
    flowRest (s :: items) = ch ',' :: ch ' ' :: flowEntries (s :: items) := by
  rw [flowRest, List.flatMap_cons, flowEntries, flowRest]
  simp only [List.append_assoc]
  rfl

theorem flowListLoop_eq (b : Bytes) : ∀ (items : List CStr) (i : Nat) (out : Strbuf),
    (flowListLoop (i + 1) items out).appendBytes b =
      out.appendBytes ((items.flatMap fun s => str ", " ++ scalarText s.bytes) ++ b)
  | [], _, _ => rfl
  | s :: items, i, out => by
    rw [flowListLoop, if_pos (Nat.succ_pos i), flowListLoop_eq b items, yamlQuote_eq, Strbuf.appendStr,
      Strbuf.appendBytes_appendBytes, Strbuf.appendBytes_appendBytes, List.flatMap_cons]
    simp only [List.append_assoc]

theorem yamlEmitFlowList_eq (out : Strbuf) (items : List CStr) :
    yamlEmitFlowList out items = out.appendBytes (ch '[' :: flowEntries items) := by
  rw [yamlEmitFlowList, Strbuf.appendStr, Strbuf.appendChar]
  cases items with
  | nil => rw [flowListLoop, Strbuf.appendBytes_appendBytes]; rfl
  | cons s items =>
    rw [flowListLoop, if_neg (Nat.lt_irrefl 0), flowListLoop_eq, yamlQuote_eq, Strbuf.appendBytes_appendBytes,
      Strbuf.appendBytes_appendBytes]
    rfl

/-! ## One item -/

/-- Written plain, the item has no character of the flow structure. -/
def FlowSafe (s : Bytes) : Prop := Plain s → ∀ c ∈ s, isFlowIndicator c = false

theorem flowCut_of_pairs : ∀ {s : Bytes}, (∀ c ∈ s, isControl c = false) → badPair s = false →
    (∀ c ∈ s, isFlowIndicator c = false) → (flowCut s).2 = []
  | [], _, _, _ => rfl
  | [c], _, _, hf => by
    rw [flowCut, if_neg (by simp [hf c (by simp)])]
    rfl
  | c :: d :: r, hc, hp, hf => by
    rw [badPair] at hp
    simp only [Bool.or_eq_false_iff, Bool.and_eq_false_iff, beq_eq_false_iff_ne] at hp
    have ih := flowCut_of_pairs (s := d :: r) (fun e he => hc e (List.mem_cons_of_mem c he)) hp.2
      fun e he => hf e (List.mem_cons_of_mem c he)
    -- the two pairs that cut are those the emitter refuses
    have hcut : ¬ (isFlowIndicator c = true ∨ (c = ch ':' ∧ (d :: r).head?.any isBlank = true) ∨
        (isBlank c = true ∧ (d :: r).head? = some (ch '#'))) := by
      simp only [hf c (by simp), List.head?_cons, Option.any_some, Option.some.injEq, isBlank_iff (hc c (by simp)),
        isBlank_iff (hc d (by simp))]
      rintro (h | ⟨rfl, rfl⟩ | ⟨rfl, rfl⟩)
      · cases h
      · rcases hp.1.1 with h | h <;> exact h rfl
      · rcases hp.1.2 with h | h <;> exact h rfl
    rw [flowCut, if_neg hcut]
    exact ih

/-- The text of an item that is flow safe is read up to the character of the structure behind it. -/
theorem readFlowScalar_scalarText {s : Bytes} (h : FlowSafe s) {d : Byte} (hd : isFlowIndicator d = true) (r : Bytes) :
    readFlowScalar (scalarText s ++ d :: r) = some (s, d :: r) := by
  by_cases hp : Plain s
  · have hsafe := plainSafe_of hp.2
    obtain ⟨c, s, rfl⟩ := List.exists_cons_of_ne_nil hp.1
    obtain ⟨hi, hb⟩ := hsafe.first c rfl
    rw [scalarText_plain hp]
    refine readFlowScalar_plain hi hb (flowCut_of_pairs hsafe.noControl hsafe.pairs (h hp)) ?_ hsafe.last hd r
    exact List.all_eq_true.2 fun e he => isPrintable_of (hsafe.noControl e he)
  · rw [scalarText_quoted hp, List.cons_append, List.append_assoc, readFlowScalar, if_pos rfl]
    exact unquote_flatMap (d :: r) fun c _ r => unquote_escaped c r

/-- The text of an item starts neither with a blank nor with the end of the list. -/
theorem scalarText_first (s : Bytes) : ∃ c t, scalarText s = c :: t ∧ isBlank c = false ∧ c ≠ ch ']' := by
  by_cases hp : Plain s
  · have hfirst := (plainSafe_of hp.2).first
    obtain ⟨c, s, rfl⟩ := List.exists_cons_of_ne_nil hp.1
    obtain ⟨hi, hb⟩ := hfirst c rfl
    refine ⟨c, s, scalarText_plain hp, hb, ?_⟩
    rintro rfl
    exact absurd hi (by decide +kernel)
  · exact ⟨ch '"', _, scalarText_quoted hp, by decide, by decide⟩

/-- An item that is not flow safe ends before its last character. -/
theorem readFlowScalar_unsafe {s : Bytes} (h : ¬ FlowSafe s) (t : Bytes) {x y : Bytes}
    (hr : readFlowScalar (scalarText s ++ t) = some (x, y)) : x ≠ s := by
  unfold FlowSafe at h
  push Not at h
  obtain ⟨hp, c, hc, hf⟩ := h
  rw [scalarText_plain hp] at hr
  have hq : s.head? ≠ some (ch '"') := fun hq => hp.noQuote.1 (List.mem_of_head? hq)
  have hlen := readFlowScalar_short hq ⟨c, hc, by simpa using hf⟩ hr
  rintro rfl
  exact Nat.lt_irrefl _ hlen

/-! ## The list -/

theorem flowRest_first (items : List CStr) :
    ∃ d r, flowRest items = d :: r ∧ isFlowIndicator d = true ∧ isBlank d = false := by
  cases items with
  | nil => exact ⟨ch ']', [10], rfl, by decide, by decide⟩
  | cons s items => exact ⟨ch ',', _, flowRest_cons s items, by decide, by decide⟩

/-- The entries are the items exactly when every item is flow safe: before an item that is not, all is read, and the
item itself is cut. -/
theorem readEntries_flowEntries {items : List CStr} : ∀ {fuel : Nat}, items.length < fuel →
    (readEntries fuel (flowEntries items) = some (items.map CStr.bytes, [10]) ↔ ∀ s ∈ items, FlowSafe s.bytes) := by
  induction items with
  | nil =>
    rintro (_ | fuel) hfuel
    · cases hfuel
    · exact iff_of_true rfl (by simp)
  | cons s items ih =>
    rintro (_ | fuel) hfuel
    · cases hfuel
    obtain ⟨c, t, htext, hb, hc⟩ := scalarText_first s.bytes
    have hentries : flowEntries (s :: items) = c :: (t ++ flowRest items) := by
      rw [flowEntries, htext, List.cons_append]
    by_cases hs : FlowSafe s.bytes
    · obtain ⟨d, r, hrest, hd, hdb⟩ := flowRest_first items
      have hread := readFlowScalar_scalarText hs hd r
      rw [htext, List.cons_append] at hread
      rw [hentries, hrest, readEntries_scalar hb hc hread hdb, List.forall_mem_cons, and_iff_right hs, List.map_cons]
      rcases items with _ | ⟨s', items⟩
      · cases hrest
        exact iff_of_true rfl (by simp)
      · rw [flowRest_cons] at hrest
        cases hrest
        rw [if_pos rfl, readEntries_blank (by decide), ← ih (Nat.lt_of_succ_lt_succ hfuel), Option.map_eq_some_iff]
        constructor
        · rintro ⟨q, hq, h⟩
          rw [Prod.mk.injEq, List.cons.injEq] at h
          obtain ⟨⟨-, hl⟩, hrest⟩ := h
          rw [hq, ← hl, ← hrest]
        · exact fun h => ⟨_, h, rfl⟩
    · refine iff_of_false ?_ fun h => hs (h s List.mem_cons_self)
      intro h
      rw [hentries, List.map_cons] at h
      obtain ⟨r, hr⟩ := readEntries_first hb h
      rw [← List.cons_append, ← htext] at hr
      exact readFlowScalar_unsafe hs _ hr rfl

theorem length_flowEntries (items : List CStr) : items.length < (flowEntries items).length := by
  induction items with
  | nil => decide
  | cons s items ih =>
    obtain ⟨c, t, htext, -, -⟩ := scalarText_first s.bytes
    rw [flowEntries, htext, List.cons_append, List.length_cons, List.length_cons, List.length_append]
    rcases items with _ | ⟨s', items⟩
    · exact Nat.succ_lt_succ (Nat.lt_of_lt_of_le (by decide) (Nat.le_add_left _ _))
    · rw [flowRest_cons, List.length_cons (a := ch ','), List.length_cons (a := ch ' ')]
      omega

/-- A flow list is read back item by item exactly when no item that is written plain has one of `,[]{}`. -/
theorem flow_list_readsBack_iff (out : Strbuf) (items : List CStr) :
    readFlowSeq ((yamlEmitFlowList out items).bytes.drop out.bytes.length) = some (items.map CStr.bytes) ↔
      ∀ s ∈ items, Plain s.bytes → ∀ c ∈ s.bytes, isFlowIndicator c = false := by
  rw [yamlEmitFlowList_eq, Strbuf.bytes_appendBytes, List.drop_left, readFlowSeq, if_pos rfl]
  refine Iff.trans ?_ (readEntries_flowEntries (length_flowEntries items))
  rcases readEntries (flowEntries items).length (flowEntries items) with _ | ⟨l, rest⟩
  · simp
  · simp only [Option.some.injEq, Prod.mk.injEq]
    split <;> simp [*]

/-- `a,b` is written plain, and is two entries. -/
theorem flow_list_split :
    readFlowSeq (yamlEmitFlowList .init [.lit "a,b", .lit "c"]).bytes = some [str "a", str "b", str "c"] ∧
      readFlowSeq (yamlEmitFlowList .init [.lit "a,b", .lit "c"]).bytes ≠
        some ([CStr.lit "a,b", CStr.lit "c"].map CStr.bytes) := by
  decide +kernel

end SubConverter
