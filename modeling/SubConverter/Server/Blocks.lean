/-
What the functions on heap blocks take and leave. A buffer is a data pointer with its block, an array its elements with
the blocks they point to.
-/
import SubConverter.Src.Heap

namespace SubConverter

open CMem Own

/-! ## Ownership -/

/-- A buffer with this data pointer and content. -/
def buffer (data : Option ℕ) (b : Bytes) (h : Heap Block) : Prop :=
  match data with
  | none => b = [] ∧ emp h
  | some p => pts p (.chars b) h

/-- The content of an array with these elements and no others. -/
def elemPtrs (cap : Nat) (items : List (List (ℕ × Block))) : List (Option (List ℕ)) :=
  items.map (fun item => some (item.map Prod.fst)) ++ List.replicate (cap - items.length) none

/-- An array, and the blocks its elements point to. -/
def elements (a : PtrArray) (items : List (List (ℕ × Block))) (h : Heap Block) : Prop :=
  match a.arr with
  | none => (items = [] ∧ a.n = 0 ∧ a.cap = 0) ∧ emp h
  | some p => (a.n = items.length ∧ a.n ≤ a.cap ∧ 0 < a.cap) ∧
      sep (pts p (.array (elemPtrs a.cap items))) (blocks items.flatten) h

/-- Strings as the elements of an array. -/
def stringItems (l : List (ℕ × CStr)) : List (List (ℕ × Block)) := l.map fun e => [(e.1, .chars e.2.bytes)]

theorem elements_init {h : Heap Block} (he : emp h) : elements .init [] h := ⟨⟨rfl, rfl, rfl⟩, he⟩

theorem elements_n {a : PtrArray} {items : List (List (ℕ × Block))} {h : Heap Block} (ha : elements a items h) :
    a.n = items.length ∧ a.n ≤ a.cap := by
  obtain ⟨_ | p, n, cap⟩ := a
  · obtain ⟨⟨rfl, hn, hcap⟩, -⟩ := ha
    exact ⟨hn, by simp only at hn hcap ⊢; omega⟩
  · exact ⟨ha.1.1, ha.1.2.1⟩

theorem elements_null {a : PtrArray} {items : List (List (ℕ × Block))} {h : Heap Block} (ha : elements a items h)
    (harr : a.arr = none) : items = [] ∧ emp h := by
  unfold elements at ha
  rw [harr] at ha
  exact ⟨ha.1.1, ha.2⟩

theorem elemPtrs_getElem? {cap : Nat} {items : List (List (ℕ × Block))} {i : Nat} (hi : i < items.length) :
    (elemPtrs cap items)[i]? = some (some (items[i].map Prod.fst)) := by
  rw [elemPtrs, List.getElem?_append_left (by simpa using hi), List.getElem?_map, List.getElem?_eq_getElem hi]
  rfl

theorem elemPtrs_set {cap : Nat} {items : List (List (ℕ × Block))} (item : List (ℕ × Block))
    (hlt : items.length < cap) :
    (elemPtrs cap items).set items.length (some (item.map Prod.fst)) = elemPtrs cap (items ++ [item]) := by
  obtain ⟨k, hk⟩ : ∃ k, cap - items.length = k + 1 := ⟨cap - items.length - 1, by omega⟩
  have hk' : cap - (items ++ [item]).length = k := by
    rw [List.length_append, List.length_singleton]
    omega
  rw [elemPtrs, elemPtrs, hk, hk', List.replicate_succ, List.set_append_right _ _ (by simp), List.length_map,
    Nat.sub_self, List.set_cons_zero, List.map_append, List.append_assoc]
  rfl

theorem elemPtrs_grow {cap ncap : Nat} (items : List (List (ℕ × Block))) (hle : items.length ≤ cap) (hlt : cap < ncap) :
    (elemPtrs cap items).take ncap ++ List.replicate (ncap - (elemPtrs cap items).length) none =
      elemPtrs ncap items := by
  have hlen : (elemPtrs cap items).length = cap := by
    simp only [elemPtrs, List.length_append, List.length_map, List.length_replicate]
    omega
  rw [List.take_of_length_le (by omega), hlen, elemPtrs, elemPtrs, List.append_assoc, List.replicate_append_replicate]
  congr 2
  omega

section Triples

variable {S : Prop} {E : Stop → Prop}

/-! ## Reads and frees -/

theorem loadChars_spec (p : ℕ) (b : Bytes) :
    Triple S E (pts p (.chars b)) (loadChars p) fun a h => a = b ∧ pts p (.chars b) h := by
  refine Triple.bind (Triple.load p _) fun v => Triple.of_fact ?_
  rintro rfl
  exact Triple.pure fun h hp => ⟨rfl, hp⟩

theorem loadStrbuf_spec (p : ℕ) (data : Option ℕ) :
    Triple S E (pts p (.strbuf data)) (loadStrbuf p) fun a h => a = data ∧ pts p (.strbuf data) h := by
  refine Triple.bind (Triple.load p _) fun v => Triple.of_fact ?_
  rintro rfl
  exact Triple.pure fun h hp => ⟨rfl, hp⟩

theorem loadJson_spec (p : ℕ) (v : Json) :
    Triple S E (pts p (.json v)) (loadJson p) fun a h => a = v ∧ pts p (.json v) h := by
  refine Triple.bind (Triple.load p _) fun v => Triple.of_fact ?_
  rintro rfl
  exact Triple.pure fun h hp => ⟨rfl, hp⟩

theorem loadResponse_spec (p : ℕ) (r : ResponseBlock) :
    Triple S E (pts p (.response r)) (loadResponse p) fun a h => a = r ∧ pts p (.response r) h := by
  refine Triple.bind (Triple.load p _) fun v => Triple.of_fact ?_
  rintro rfl
  exact Triple.pure fun h hp => ⟨rfl, hp⟩

theorem loadArray_spec (p : ℕ) (elems : List (Option (List ℕ))) :
    Triple S E (pts p (.array elems)) (loadArray p) fun a h => a = elems ∧ pts p (.array elems) h := by
  refine Triple.bind (Triple.load p _) fun v => Triple.of_fact ?_
  rintro rfl
  exact Triple.pure fun h hp => ⟨rfl, hp⟩

theorem strbufText_spec (data : Option ℕ) (b : Bytes) :
    Triple S E (buffer data b) (strbufText data) fun a h => a = b ∧ buffer data b h := by
  cases data with
  | none => exact Triple.pure fun _ hp => ⟨hp.1.symm, hp⟩
  | some p => exact loadChars_spec p b

theorem strbufFree_spec (data : Option ℕ) (b : Bytes) :
    Triple S E (buffer data b) (strbufFree data) fun _ => emp := by
  cases data with
  | none => exact Triple.pure fun _ hp => hp.2
  | some p => exact Triple.free p _

/-! ## Arrays -/

theorem PtrArray.grow_spec (A : Allocator) {a : PtrArray} (items : List (List (ℕ × Block))) {ncap : Nat}
    (hlt : a.cap < ncap) :
    Triple S E (elements a items) (a.grow A ncap) fun r h =>
      match r with
      | none => S ∧ elements a items h
      | some b => b.cap = ncap ∧ elements b items h := by
  obtain ⟨_ | p, n, cap⟩ := a
  · refine Triple.of_fact ?_
    rintro ⟨rfl, rfl, rfl⟩
    refine Triple.bind (Triple.alloc A _) ?_
    rintro (_ | q)
    · exact Triple.pure fun h hh => ⟨hh.1, ⟨rfl, rfl, rfl⟩, hh.2⟩
    · refine Triple.pure fun h hh => ⟨rfl, ⟨rfl, Nat.zero_le _, hlt⟩, ?_⟩
      exact sep_comm (emp_sep.2 hh)
  · refine Triple.of_fact ?_
    rintro ⟨rfl, hle, hpos⟩
    refine Triple.bind_read (loadArray_spec p _) ?_
    rw [elemPtrs_grow items hle hlt]
    refine Triple.bind ((Triple.resize A p _ _).frame _) ?_
    rintro (_ | q)
    · exact Triple.pure fun h hh => ⟨(sep_fact.1 hh).1, ⟨rfl, hle, hpos⟩, (sep_fact.1 hh).2⟩
    · refine Triple.pure fun h hh => ⟨rfl, ⟨rfl, ?_, by simp only; omega⟩, hh⟩
      simp only at hle hlt ⊢
      omega

/-- Room for one more element. -/
theorem PtrArray.ensure_spec (A : Allocator) {a : PtrArray} (items : List (List (ℕ × Block))) {full : Prop} [Decidable full]
    {ncap : Nat} (hfull : full → a.cap < ncap) (hroom : ¬ full → a.n ≠ a.cap) :
    Triple S E (elements a items) (a.ensure A full ncap) fun r h =>
      match r with
      | none => S ∧ elements a items h
      | some b => items.length < b.cap ∧ elements b items h := by
  refine Triple.pre (Triple.of_fact fun hcount => ?_) fun h ha => ⟨elements_n ha, ha⟩
  unfold PtrArray.ensure
  by_cases hf : full
  · rw [if_pos hf]
    refine (PtrArray.grow_spec A items (hfull hf)).post ?_
    rintro (_ | b) h hh
    · exact hh
    · refine ⟨?_, hh.2⟩
      have := hfull hf
      have := hh.1
      omega
  · rw [if_neg hf]
    have hlt : items.length < a.cap := by
      have := hroom hf
      omega
    exact Triple.pure fun h ha => ⟨hlt, ha⟩

theorem PtrArray.store_spec {a : PtrArray} (items : List (List (ℕ × Block))) (item : List (ℕ × Block))
    (hlt : items.length < a.cap) :
    Triple S E (sep (elements a items) (blocks item)) (a.store (item.map Prod.fst)) fun b => elements b (items ++ [item]) := by
  obtain ⟨_ | p, n, cap⟩ := a
  · refine (Triple.of_fact (φ := items = [] ∧ n = 0 ∧ cap = 0) (P := sep emp (blocks item)) ?_).pre fun h => sep_fact.1
    rintro ⟨rfl, rfl, rfl⟩
    exact absurd hlt (Nat.not_lt_zero _)
  · have hlt : items.length < cap := hlt
    refine (Triple.of_fact (φ := n = items.length ∧ n ≤ cap ∧ 0 < cap)
      (P := sep (sep (pts p (.array (elemPtrs cap items))) (blocks items.flatten)) (blocks item)) ?_).pre fun h => sep_fact.1
    rintro ⟨rfl, hle, hpos⟩
    refine Triple.pre ?_ fun h => sep_assoc.1
    refine Triple.bind_read (loadArray_spec p _) ?_
    rw [if_pos (by simp only [elemPtrs, List.length_append, List.length_map, List.length_replicate]; omega)]
    refine Triple.bind ((Triple.store p _ _).frame _) fun _ => Triple.pure fun h hh => ?_
    refine ⟨⟨by simp, hlt, hpos⟩, ?_⟩
    rw [elemPtrs_set item hlt] at hh
    refine sep_mono hh (fun _ => id) fun h' hh' => ?_
    rw [List.flatten_append, List.flatten_singleton]
    exact (blocks_append _ _).2 hh'

theorem freeElem_spec (item : List (ℕ × Block)) :
    Triple S E (blocks item) (freeElem (item.map Prod.fst)) fun _ => emp := by
  induction item with
  | nil => exact Triple.pure fun _ => id
  | cons b item ih => exact Triple.bind_drop (Triple.free b.1 b.2) fun _ => ih

theorem freeElems_spec (p cap : ℕ) (items : List (List (ℕ × Block))) (k i : Nat) (hi : i + k = items.length) :
    Triple S E (sep (pts p (.array (elemPtrs cap items))) (blocks (items.drop i).flatten)) (freeElems (some p) k i)
      fun _ => pts p (.array (elemPtrs cap items)) := by
  induction k generalizing i with
  | zero =>
    refine Triple.pure fun h hh => ?_
    rw [List.drop_eq_nil_of_le (by omega)] at hh
    exact emp_sep.1 (sep_comm hh)
  | succ k ih =>
    refine Triple.bind_read (loadArray_spec p _) ?_
    rw [elemPtrs_getElem? (show i < items.length by omega), List.drop_eq_getElem_cons (by omega), List.flatten_cons]
    refine Triple.pre (P := sep (blocks items[i]) (sep (pts p (.array (elemPtrs cap items)))
      (blocks (items.drop (i + 1)).flatten))) ?_ fun h hh => ?_
    · exact Triple.bind_drop (freeElem_spec _) fun _ => ih (i + 1) (by omega)
    · exact sep_left_comm (sep_mono hh (fun _ => id) fun _ => (blocks_append _ _).1)

/-- An array is freed with its elements. -/
theorem freeArray_spec (a : PtrArray) (items : List (List (ℕ × Block))) :
    Triple S E (elements a items) (freeArray a.arr a.n) fun _ => emp := by
  obtain ⟨_ | p, n, cap⟩ := a
  · refine Triple.of_fact ?_
    rintro ⟨rfl, rfl, rfl⟩
    exact Triple.bind (Triple.pure fun _ => id) fun _ => Triple.pure fun _ => id
  · refine Triple.of_fact ?_
    rintro ⟨rfl, -, -⟩
    exact Triple.bind (freeElems_spec p cap items items.length 0 (Nat.zero_add _)) fun _ => Triple.free p _

/-! ## Allocations -/

variable {A : Allocator} (hE : S → E .abort)

include hE

theorem newOrAbort_spec (v : Block) : Triple S E emp (newOrAbort A v) fun p => pts p v := by
  refine Triple.bind (Triple.alloc A v) ?_
  rintro (_ | p)
  · exact Triple.of_fact fun hshort => Triple.fail (hE hshort)
  · exact Triple.pure fun _ => id

theorem strbufAppend_spec (data : Option ℕ) (b x : Bytes) :
    Triple S E (buffer data b) (strbufAppend A data x) fun data' => buffer data' (b ++ x) := by
  cases data with
  | none =>
    refine Triple.of_fact ?_
    rintro rfl
    exact Triple.bind (newOrAbort_spec hE _) fun q => Triple.pure fun _ => id
  | some p =>
    refine Triple.bind (loadChars_spec p b) fun old => Triple.of_fact ?_
    rintro rfl
    refine Triple.bind (Triple.resize A p _ _) ?_
    rintro (_ | q)
    · exact Triple.of_fact fun hshort => Triple.fail (hE hshort)
    · exact Triple.pure fun _ => id

/-- The first text of a buffer. -/
theorem strbufAppend_init (x : Bytes) :
    Triple S E emp (strbufAppend A none x) fun data => buffer data x :=
  (strbufAppend_spec hE none [] x).pre fun _ he => ⟨rfl, he⟩

theorem strbufDetachHeap_spec (data : Option ℕ) (b : Bytes) :
    Triple S E (buffer data b) (strbufDetachHeap A data) fun r h => r.2 = none ∧ pts r.1 (.chars b) h := by
  cases data with
  | none =>
    refine Triple.of_fact ?_
    rintro rfl
    exact Triple.bind (newOrAbort_spec hE _) fun q => Triple.pure fun _ hp => ⟨rfl, hp⟩
  | some p => exact Triple.pure fun _ hp => ⟨rfl, hp⟩

omit hE in
/-- The JSON value of a text, or nothing: then there is no such value, or no room for it. -/
theorem jsonxParseHeap_spec (A : Allocator) (tok : Tokener) (data : Bytes) :
    Triple S E emp (jsonxParseHeap A tok data) fun r h =>
      match r with
      | none => (jsonxParse tok (some data) = none ∨ S) ∧ emp h
      | some p => ∃ v, jsonxParse tok (some data) = some v ∧ pts p (.json v) h := by
  unfold jsonxParseHeap jsonxParse
  by_cases hlen : intMax < data.length
  · simp only [if_pos hlen]
    exact Triple.pure fun h he => ⟨.inl trivial, he⟩
  simp only [if_neg hlen]
  refine Triple.bind (Triple.alloc A _) ?_
  rintro (_ | copy)
  · exact Triple.pure fun h hh => ⟨.inr hh.1, hh.2⟩
  refine Triple.bind_new (Triple.alloc A Block.tokener) ?_
  rintro (_ | t)
  · refine (Triple.of_fact (φ := S) (P := sep emp (pts copy (.chars data))) fun hfull => ?_).pre fun h => sep_fact.1
    refine Triple.pre ?_ fun h => emp_sep.1
    exact Triple.bind (Triple.free copy _) fun _ => Triple.pure fun h he => ⟨.inr hfull, he⟩
  refine Triple.pre ?_ fun h => sep_comm
  refine Triple.bind_read (loadChars_spec copy data) ?_
  -- the object is made while the copy and the tokener are there
  have hfree : ∀ r : Option ℕ, Triple S E (sep (pts copy (Block.chars data)) (pts t Block.tokener))
      (do
        Own.free deadBlock t
        Own.free deadBlock copy
        pure r) fun r' h => r' = r ∧ emp h := fun r => by
    refine Triple.pre ?_ fun h => sep_comm
    refine Triple.bind_drop (Triple.free t _) fun _ => ?_
    exact Triple.bind (Triple.free copy _) fun _ => Triple.pure fun h he => ⟨rfl, he⟩
  rcases hv : Json.ptr (tok data) with _ | v
  · refine (hfree none).post fun r h hh => ?_
    obtain ⟨rfl, he⟩ := hh
    exact ⟨.inl rfl, he⟩
  · refine Triple.bind_new (Triple.alloc A (Block.json v)) ?_
    rintro (_ | o)
    · refine Triple.pre (Triple.of_fact (φ := S) fun hfull => ?_) fun h => sep_fact.1
      refine ((hfree none).pre fun h => emp_sep.1).post fun r h hh => ?_
      obtain ⟨rfl, he⟩ := hh
      exact ⟨.inr hfull, he⟩
    · refine (((hfree (some o)).frame (pts o (.json v))).pre fun h => sep_comm).post fun r h hh => ?_
      obtain ⟨rfl, hown⟩ := sep_fact.1 hh
      exact ⟨v, rfl, emp_sep.1 hown⟩

end Triples

end SubConverter
