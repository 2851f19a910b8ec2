/-
The representation of `strbuf` over any calls: the block has room for the content and a NUL, no size wraps, and the
content is what the abstract buffer holds.
-/
import SubConverter.Src.Strbuf
import SubConverter.Src.Util

namespace SubConverter

open CMem

namespace StrbufRep

/-! ## The invariant -/

/-- An allocated buffer: the block is as long as the capacity says, with a NUL behind the content. -/
structure Allocated (m : Arch) (sb : StrbufRep) (block : Bytes) : Prop where
  data : sb.data = some block
  cap : block.length = sb.cap
  cap_lt : sb.cap < 2 ^ m.sizeBits
  len_lt : sb.len < sb.cap
  nul : block[sb.len]? = some 0

/-- Nothing is allocated, or the buffer is. -/
def Valid (m : Arch) (sb : StrbufRep) : Prop :=
  (sb.data = none ∧ sb.len = 0 ∧ sb.cap = 0) ∨ ∃ block, sb.Allocated m block

/-- The first `len` bytes. -/
def bytes (sb : StrbufRep) : Bytes := (sb.data.getD []).take sb.len

/-- The buffer as its users see it. -/
def view (sb : StrbufRep) : Strbuf := ⟨sb.data.map fun block => block.take sb.len⟩

theorem view_bytes (sb : StrbufRep) : sb.view.bytes = sb.bytes := by
  rcases sb with ⟨_ | block, len, cap⟩
  · rw [bytes, Option.getD_none, List.take_nil]; rfl
  · rfl

section Sizes

variable {m : Arch} (σ : Arith)

/-- The block is as long as the capacity, and holds the content. -/
theorem Valid.block {sb : StrbufRep} (h : sb.Valid m) :
    (sb.data.getD []).length = sb.cap ∧ sb.cap < 2 ^ m.sizeBits ∧ sb.len ≤ sb.cap := by
  rcases h with ⟨hdata, hlen, hcap⟩ | ⟨block, h⟩
  · rw [hdata, hlen, hcap]
    exact ⟨rfl, Nat.two_pow_pos _, Nat.le_refl _⟩
  · rw [h.data]
    exact ⟨h.cap, h.cap_lt, h.len_lt.le⟩

/-! ## Growing -/

/-- The loop ends: the capacity doubles until it is enough or more than half of all sizes, where too much is needed. -/
theorem growLoop_spec (need : Nat) : ∀ {fuel ncap : Nat}, ncap < 2 ^ m.sizeBits → 2 ^ m.sizeBits ≤ ncap * 2 ^ fuel →
    (growLoop m σ fuel ncap need = .error .abort ∧ m.half < need) ∨
      ∃ c, growLoop m σ fuel ncap need = .ok c ∧ ncap ≤ c ∧ need ≤ c ∧ c < 2 ^ m.sizeBits
  | 0, ncap, hlt, hfuel => by
    rw [Nat.pow_zero, Nat.mul_one] at hfuel
    exact absurd hlt (Nat.not_lt.2 hfuel)
  | fuel + 1, ncap, hlt, hfuel => by
    rw [growLoop]
    by_cases hneed : ncap < need
    · rw [if_pos hneed]
      by_cases hhalf : ncap > m.sizeMax / 2
      · exact .inl ⟨if_pos hhalf, by rw [Arch.sizeMax, m.two_half] at hhalf; omega⟩
      · have hdouble : ncap * 2 < 2 ^ m.sizeBits := by
          unfold Arch.sizeMax at hhalf
          omega
        rw [if_neg hhalf, m.size_eq σ hdouble]
        rw [Nat.pow_succ, Nat.mul_comm (2 ^ fuel) 2, ← Nat.mul_assoc] at hfuel
        rcases growLoop_spec need hdouble hfuel with h | ⟨c, h, hle, hc⟩
        · exact .inl h
        · exact .inr ⟨c, h, by omega, hc⟩
    · exact .inr ⟨ncap, if_neg hneed, Nat.le_refl _, Nat.not_lt.1 hneed, hlt⟩

/-- The loop from the capacity on that `strbuf_grow` starts with. -/
theorem growLoop_start (need : Nat) {cap : Nat} (hcap : cap < 2 ^ m.sizeBits) :
    (growLoop m σ (m.sizeBits + 1) (if cap = 0 then 32 else cap) need = .error .abort ∧ m.half < need) ∨
      ∃ c, growLoop m σ (m.sizeBits + 1) (if cap = 0 then 32 else cap) need = .ok c ∧ cap ≤ c ∧ need ≤ c ∧
        c < 2 ^ m.sizeBits := by
  have hbits := m.le_two_pow_sizeBits
  have hstart : ∀ {n : Nat}, 0 < n → 2 ^ m.sizeBits ≤ n * 2 ^ (m.sizeBits + 1) := by
    intro n hn
    calc 2 ^ m.sizeBits ≤ 2 ^ (m.sizeBits + 1) := Nat.pow_le_pow_right (by decide) (Nat.le_succ _)
      _ ≤ n * 2 ^ (m.sizeBits + 1) := Nat.le_mul_of_pos_left _ hn
  by_cases hzero : cap = 0
  · rw [if_pos hzero]
    rcases growLoop_spec σ need (show 32 < 2 ^ m.sizeBits by omega) (hstart (by decide)) with h | ⟨c, h, -, hc⟩
    · exact .inl h
    · exact .inr ⟨c, h, by omega, hc⟩
  · rw [if_neg hzero]
    exact growLoop_spec σ need hcap (hstart (Nat.pos_of_ne_zero hzero))

/-- A grown buffer has a block of the size needed with the same content. -/
theorem grow_spec (r : Realloc) {sb : StrbufRep} (h : sb.Valid m) {need : Nat} (hpos : 0 < need) :
    (grow m σ r sb need = .error .abort ∧ (r.fails = true ∨ m.half < need)) ∨
      ∃ block, grow m σ r sb need = .ok ⟨some block, sb.len, block.length⟩ ∧ block.length < 2 ^ m.sizeBits ∧
        need ≤ block.length ∧ block.take sb.len = sb.bytes := by
  obtain ⟨hold, hlt, hlen⟩ := h.block
  rw [grow]
  by_cases hneed : need ≤ sb.cap
  · rw [if_pos hneed]
    rcases h with ⟨-, -, hcap⟩ | ⟨block, h⟩
    · omega
    · refine .inr ⟨block, ?_, by rw [h.cap]; exact hlt, by rw [h.cap]; exact hneed, ?_⟩
      · rw [h.cap, ← h.data]
      · rw [bytes, h.data, Option.getD_some]
  rw [if_neg hneed]
  rcases growLoop_start σ need hlt with ⟨hloop, hhalf⟩ | ⟨ncap, hloop, hcap, hge, hncap⟩
  · rw [hloop]
    exact .inl ⟨rfl, .inr hhalf⟩
  rw [hloop, exec_ok_bind]
  rcases r.run_spec (show (sb.data.getD []).length ≤ ncap by rw [hold]; exact hcap) with ⟨hrun, hfails⟩ | ⟨fresh, hrun, hsize⟩
  · rw [hrun]
    exact .inl ⟨rfl, .inl hfails⟩
  · rw [hrun]
    refine .inr ⟨sb.data.getD [] ++ fresh, by rw [hsize], by rw [hsize]; exact hncap, by rw [hsize]; exact hge, ?_⟩
    rw [List.take_append_of_le_length (by rw [hold]; exact hlen), bytes]

/-- After a reservation there is room for the bytes and the NUL, and the content stands. -/
theorem reserve_spec (r : Realloc) {sb : StrbufRep} (h : sb.Valid m) (extra : Nat) :
    (reserve m σ r sb extra = .error .abort ∧ (r.fails = true ∨ m.half ≤ sb.len + extra)) ∨
      ∃ block, reserve m σ r sb extra = .ok ⟨some block, sb.len, block.length⟩ ∧ block.length < 2 ^ m.sizeBits ∧
        sb.len + extra + 1 ≤ block.length ∧ block.take sb.len = sb.bytes := by
  obtain ⟨-, hlt, hle⟩ := h.block
  have hmax : m.sizeMax + 1 = 2 ^ m.sizeBits := Nat.sub_add_cancel Nat.one_le_two_pow
  rw [reserve, m.sizeSub_eq σ (show sb.len ≤ m.sizeMax by omega), exec_ok_bind]
  by_cases hextra : extra ≥ m.sizeMax - sb.len
  · exact .inl ⟨if_pos hextra, .inr (by rw [m.two_half] at hmax; have := m.half_pos; omega)⟩
  -- below the limit no sum wraps
  rw [if_neg hextra, m.size_eq σ (show sb.len + extra < 2 ^ m.sizeBits by omega), exec_ok_bind,
    m.size_eq σ (show sb.len + extra + 1 < 2 ^ m.sizeBits by omega), exec_ok_bind]
  exact (grow_spec σ r h (Nat.succ_pos _)).imp_left fun ⟨habort, hwhy⟩ => ⟨habort, hwhy.imp_right Nat.le_of_lt_succ⟩

/-! ## The calls -/

/-- Bytes and a NUL written behind the content of a block that has room for them. -/
theorem written {block b : Bytes} {len : Nat} (hlen : len + b.length + 1 ≤ block.length)
    (hlt : block.length < 2 ^ m.sizeBits) :
    let sb : StrbufRep := ⟨some (block.take len ++ ((b ++ [0]) ++ block.drop (len + (b ++ [0]).length))),
      len + b.length, block.length⟩
    sb.Valid m ∧ sb.view = ⟨some (block.take len ++ b)⟩ := by
  have htake : (block.take len ++ b).length = len + b.length := by
    rw [List.length_append, List.length_take_of_le (by omega)]
  have hsplit : block.take len ++ ((b ++ [0]) ++ block.drop (len + (b ++ [0]).length)) =
      (block.take len ++ b) ++ 0 :: block.drop (len + b.length + 1) := by
    simp [Nat.add_assoc]
  intro sb
  refine ⟨.inr ⟨_, rfl, ?_, hlt, by show len + b.length < block.length; omega, ?_⟩, ?_⟩
  · rw [hsplit, List.length_append, htake, List.length_cons, List.length_drop]
    show _ = block.length
    omega
  · show (block.take len ++ _)[len + b.length]? = some 0
    rw [hsplit, List.getElem?_append_right (by omega), htake, Nat.sub_self]
    rfl
  · show (⟨some ((block.take len ++ _).take (len + b.length))⟩ : Strbuf) = _
    rw [hsplit, List.take_left' htake]

theorem Valid.length_bytes {sb : StrbufRep} (h : sb.Valid m) : sb.bytes.length = sb.len := by
  obtain ⟨hblock, -, hlen⟩ := h.block
  rw [bytes, List.length_take_of_le (by rw [hblock]; exact hlen)]

theorem appendBytes_spec (r : Realloc) {sb : StrbufRep} (h : sb.Valid m) (b : Bytes) :
    (sb.appendBytes m σ r b = .error .abort ∧ (r.fails = true ∨ m.half ≤ (sb.bytes ++ b).length)) ∨
      ∃ sb', sb.appendBytes m σ r b = .ok (0, sb') ∧ sb'.Valid m ∧ sb'.view = sb.view.appendBytes b := by
  rw [appendBytes, List.length_append, h.length_bytes]
  rcases reserve_spec σ r h b.length with ⟨hr, hwhy⟩ | ⟨block, hr, hlt, hlen, htake⟩
  · rw [hr]
    exact .inl ⟨rfl, hwhy⟩
  -- copying no bytes leaves the block as it is
  have hcopy : copyIn ⟨some block, sb.len, block.length⟩ b =
      .ok (some (block.take sb.len ++ (b ++ block.drop (sb.len + b.length)))) := by
    unfold copyIn
    by_cases hb : b = []
    · rw [if_pos hb, hb, List.length_nil, Nat.add_zero, List.nil_append, List.take_append_drop]
    · rw [if_neg hb, store_eq (show sb.len + b.length ≤ block.length by omega)]
      rfl
  obtain ⟨hvalid, hview⟩ := written hlen hlt
  refine .inr ⟨_, ?_, hvalid, ?_⟩
  · rw [hr, exec_ok_bind, hcopy, exec_ok_bind, m.size_eq σ (show sb.len + b.length < 2 ^ m.sizeBits by omega),
      exec_ok_bind, store_store hlen, exec_ok_bind]
  · rw [hview, htake, Strbuf.appendBytes, view_bytes]

theorem vsnprintfLen_cases (text : Option Bytes) : vsnprintfLen m text = -1 ∨
    ∃ t, text = some t ∧ t.length ≤ m.intMax ∧ vsnprintfLen m text = t.length := by
  rcases text with _ | t
  · exact .inl rfl
  · by_cases ht : t.length ≤ m.intMax
    · exact .inr ⟨t, rfl, ht, if_pos ht⟩
    · exact .inl (if_neg ht)

/-- The second pass has room for what the first one counted. -/
theorem appendf_spec (r : Realloc) {sb : StrbufRep} (h : sb.Valid m) (text : Option Bytes) :
    (vsnprintfLen m text = -1 ∧ sb.appendf m σ r text = .ok (-1, sb)) ∨
      ∃ t, text = some t ∧ vsnprintfLen m text = t.length ∧
        ((sb.appendf m σ r text = .error .abort ∧ (r.fails = true ∨ m.half ≤ (sb.bytes ++ t).length)) ∨
          ∃ sb', sb.appendf m σ r text = .ok (t.length, sb') ∧ sb'.Valid m ∧ sb'.view = sb.view.appendBytes t) := by
  rcases vsnprintfLen_cases (m := m) text with hn | ⟨t, rfl, hint, hn⟩
  · refine .inl ⟨hn, ?_⟩
    simp only [appendf, hn]
    rfl
  refine .inr ⟨t, rfl, hn, ?_⟩
  have hsize : t.length % 2 ^ m.sizeBits = t.length := Nat.mod_eq_of_lt (Nat.lt_of_le_of_lt hint m.intMax_lt)
  simp only [appendf, hn, if_neg (show ¬ (t.length : Int) < 0 by omega), Int.toNat_natCast, hsize, Option.getD_some]
  rw [List.length_append, h.length_bytes]
  rcases reserve_spec σ r h t.length with ⟨hr, hwhy⟩ | ⟨block, hr, hlt, hlen, htake⟩
  · rw [hr]
    exact .inl ⟨rfl, hwhy⟩
  obtain ⟨hvalid, hview⟩ := written hlen hlt
  refine .inr ⟨_, ?_, hvalid, ?_⟩
  · have hfit : t.take (block.length - sb.len - 1) = t := List.take_of_length_le (by omega)
    have hroom : sb.len + (t ++ [0]).length ≤ block.length := by
      rw [List.length_append, List.length_singleton]
      omega
    rw [hr]
    simp only [exec_ok_bind]
    rw [m.sizeSub_eq σ (show sb.len ≤ block.length by omega), exec_ok_bind, vsnprintf, if_neg (by omega), hfit,
      store_eq hroom]
    simp only [exec_ok_bind]
    rw [m.size_eq σ (show sb.len + t.length < 2 ^ m.sizeBits by omega), exec_ok_bind]
  · rw [hview, htake, Strbuf.appendBytes, view_bytes]

end Sizes

/-- The NUL goes to the front. -/
theorem clear_spec {m : Arch} {sb : StrbufRep} (h : sb.Valid m) :
    ∃ sb', sb.clear = .ok sb' ∧ sb'.Valid m ∧ sb'.view = sb.view.clear := by
  rcases h with ⟨hdata, -, hcap⟩ | ⟨block, h⟩
  · exact ⟨⟨none, 0, sb.cap⟩, by rw [clear, hdata], .inl ⟨rfl, rfl, hcap⟩, by rw [view, view, hdata]; rfl⟩
  · have hpos : 0 < block.length := by
      rw [h.cap]
      exact Nat.lt_of_le_of_lt (Nat.zero_le _) h.len_lt
    obtain ⟨c, rest, rfl⟩ := List.exists_cons_of_length_pos hpos
    refine ⟨⟨some (0 :: rest), 0, sb.cap⟩, ?_, .inr ⟨0 :: rest, rfl, h.cap, h.cap_lt, ?_, rfl⟩, ?_⟩
    · rw [clear, h.data]
      simp [store]
    · show 0 < sb.cap
      rw [← h.cap]
      exact hpos
    · rw [view, view, h.data]
      rfl

end StrbufRep

/-! ## Runs -/

namespace StrbufOp

/-- What the call does to the content. -/
def apply (m : Arch) (sb : Strbuf) : StrbufOp → Strbuf
  | appendBytes b => sb.appendBytes b
  | appendStr s => sb.appendBytes s.bytes
  | appendChar c => sb.appendChar c
  | appendf text => if vsnprintfLen m text < 0 then sb else sb.appendBytes (text.getD [])
  | clear => sb.clear
  | free => .init

/-- The call empties the buffer. -/
def resets : StrbufOp → Bool
  | clear => true
  | free => true
  | _ => false

/-- What the call appends; a text that is not formatted is not appended. -/
def text (m : Arch) : StrbufOp → Bytes
  | appendBytes b => b
  | appendStr s => s.bytes
  | appendChar c => [c]
  | appendf text => if vsnprintfLen m text < 0 then [] else text.getD []
  | clear => []
  | free => []

theorem bytes_apply (m : Arch) (sb : Strbuf) (op : StrbufOp) :
    (op.apply m sb).bytes = if op.resets then [] else sb.bytes ++ op.text m := by
  cases op with
  | appendBytes b => rfl
  | appendStr s => rfl
  | appendChar c => rfl
  | appendf t =>
    simp only [apply, text, resets]
    split
    · simp
    · rfl
  | clear => exact Strbuf.bytes_clear sb
  | free => rfl

/-- A call on a valid buffer leaves a valid one with what the abstract call gives. It aborts only where no room is found,
or where the content would take half of all sizes. -/
theorem run_spec {m : Arch} (σ : Arith) (r : Realloc) {sb : StrbufRep} (h : sb.Valid m) (op : StrbufOp) :
    (op.run m σ r sb = .error .abort ∧ (r.fails = true ∨ m.half ≤ (op.apply m sb.view).bytes.length)) ∨
      ∃ rc sb', op.run m σ r sb = .ok (rc, sb') ∧ sb'.Valid m ∧ sb'.view = op.apply m sb.view := by
  have happend : ∀ b, (sb.appendBytes m σ r b = .error .abort ∧
      (r.fails = true ∨ m.half ≤ (sb.view.appendBytes b).bytes.length)) ∨
      ∃ rc sb', sb.appendBytes m σ r b = .ok (rc, sb') ∧ sb'.Valid m ∧ sb'.view = sb.view.appendBytes b := by
    intro b
    rw [Strbuf.bytes_appendBytes, sb.view_bytes]
    exact (sb.appendBytes_spec σ r h b).imp_right fun h => ⟨0, h⟩
  cases op with
  | appendBytes b => exact happend b
  | appendStr s => exact happend s.bytes
  | appendChar c => exact happend [c]
  | appendf t =>
    rcases sb.appendf_spec σ r h t with ⟨hn, hrun⟩ | ⟨t, rfl, hn, hrun⟩
    · exact .inr ⟨-1, sb, hrun, h, by simp [apply, hn]⟩
    · have happly : (appendf (some t)).apply m sb.view = sb.view.appendBytes t := by
        rw [apply, hn, if_neg (by omega)]
        rfl
      rw [happly, Strbuf.bytes_appendBytes, sb.view_bytes]
      exact hrun.imp_right fun h => ⟨t.length, h⟩
  | clear =>
    obtain ⟨sb', hrun, hvalid, hview⟩ := sb.clear_spec h
    exact .inr ⟨0, sb', by rw [run, hrun]; rfl, hvalid, hview⟩
  | free => exact .inr ⟨0, sb.free, rfl, .inl ⟨rfl, rfl, rfl⟩, rfl⟩

end StrbufOp

/-- Calls on a valid buffer refine the abstract ones, or one of them aborts. -/
theorem runOps_refines (m : Arch) (σ : Arith) : ∀ (ops : List (Realloc × StrbufOp)) {sb : StrbufRep}, sb.Valid m →
    (runOps m σ ops sb = .error .abort ∧ ∃ done r op rest, ops = done ++ (r, op) :: rest ∧ (r.fails = true ∨
        m.half ≤ (((done ++ [(r, op)]).map Prod.snd).foldl (StrbufOp.apply m) sb.view).bytes.length)) ∨
      ∃ sb', runOps m σ ops sb = .ok sb' ∧ sb'.Valid m ∧
        sb'.view = (ops.map Prod.snd).foldl (StrbufOp.apply m) sb.view
  | [], sb, h => .inr ⟨sb, rfl, h, rfl⟩
  | (r, op) :: ops, sb, h => by
    rw [runOps]
    rcases op.run_spec σ r h with ⟨hrun, hwhy⟩ | ⟨rc, sb', hrun, hvalid, hview⟩
    · rw [hrun]
      exact .inl ⟨rfl, [], r, op, ops, rfl, hwhy⟩
    · rw [hrun, exec_ok_bind, List.map_cons, List.foldl_cons, ← hview]
      refine (runOps_refines m σ ops hvalid).imp_left fun ⟨habort, done, r', op', rest, hops, hwhy⟩ => ?_
      refine ⟨habort, (r, op) :: done, r', op', rest, by rw [hops, List.cons_append], ?_⟩
      rwa [List.cons_append, List.map_cons, List.foldl_cons, ← hview]

/-- What was appended since the buffer was last emptied. -/
def appendedText (m : Arch) (ops : List StrbufOp) : Bytes :=
  (ops.rtakeWhile fun op => !op.resets).flatMap (StrbufOp.text m)

/-- The abstract buffer holds what was appended since it was last emptied. -/
theorem bytes_foldl_apply (m : Arch) (ops : List StrbufOp) :
    (ops.foldl (StrbufOp.apply m) .init).bytes = appendedText m ops := by
  induction ops using List.reverseRecOn with
  | nil => rfl
  | append_singleton ops op ih =>
    rw [List.foldl_append, List.foldl_cons, List.foldl_nil, StrbufOp.bytes_apply, ih, appendedText, appendedText]
    by_cases hr : op.resets = true
    · rw [if_pos hr, List.rtakeWhile_concat_neg _ _ _ (by simp [hr])]
      rfl
    · rw [if_neg hr, List.rtakeWhile_concat_pos _ _ _ (by simpa using hr), List.flatMap_append]
      simp

/-- Every run of calls from an empty buffer ends in a valid one that holds what was appended since it was last emptied,
without a size that wraps or a write outside the block. It aborts only at a call that finds no room or would make the
content as long as half of all sizes. The loop of `strbuf_grow` ends for all sizes, and aborts only where more than half
of them is needed. -/
theorem strbuf_runs_valid (m : Arch) (σ : Arith) (ops : List (Realloc × StrbufOp)) :
    ((runOps m σ ops .init = .error .abort ∧ ∃ done r op rest, ops = done ++ (r, op) :: rest ∧
          (r.fails = true ∨ m.half ≤ (appendedText m ((done ++ [(r, op)]).map Prod.snd)).length)) ∨
        ∃ sb, runOps m σ ops .init = .ok sb ∧ sb.Valid m ∧ sb.bytes = appendedText m (ops.map Prod.snd)) ∧
      ∀ cap need : Fin (2 ^ m.sizeBits),
        (StrbufRep.growLoop m σ (m.sizeBits + 1) (if cap.val = 0 then 32 else cap.val) need.val = .error .abort ∧
            m.half < need.val) ∨
          ∃ ncap, StrbufRep.growLoop m σ (m.sizeBits + 1) (if cap.val = 0 then 32 else cap.val) need.val = .ok ncap ∧
            need.val ≤ ncap ∧ ncap < 2 ^ m.sizeBits := by
  constructor
  · have hinit : StrbufRep.init.Valid m := .inl ⟨rfl, rfl, rfl⟩
    rcases runOps_refines m σ ops hinit with ⟨habort, done, r, op, rest, hops, hwhy⟩ | ⟨sb, hrun, hvalid, hview⟩
    · refine .inl ⟨habort, done, r, op, rest, hops, ?_⟩
      rw [← bytes_foldl_apply]
      exact hwhy
    · refine .inr ⟨sb, hrun, hvalid, ?_⟩
      rw [← sb.view_bytes, hview]
      exact bytes_foldl_apply m _
  · intro cap need
    rcases StrbufRep.growLoop_start σ need.val cap.isLt with habort | ⟨ncap, hloop, -, hspec⟩
    · exact .inl habort
    · exact .inr ⟨ncap, hloop, hspec⟩

end SubConverter
