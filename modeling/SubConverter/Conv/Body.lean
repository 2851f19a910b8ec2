/-
The loop of `conv_base64_run` over its body: the body is cut at its line ends, each line goes to
`node_parse_share` where it stands in memory, and the accepted nodes are collected in order.
-/
import SubConverter.Share.Accepted
import SubConverter.Conv.Emit

namespace SubConverter

open CMem

/-! ## One line -/

theorem lineBlank_eq (t : Bytes) : ∀ (b p : Bytes), lineBlank (p ++ (b ++ t)) p.length b.length = .ok (b.all isWs)
  | [], _ => rfl
  | c :: b, p => by
    have ih := lineBlank_eq t b (p ++ [c])
    rw [List.length_cons, lineBlank, List.cons_append, rd_append_cons, ok_bind, List.all_cons]
    cases isWs c
    · simp
    · simpa using ih

/-- A blank line is refused by `node_parse_share` as well. -/
theorem nodeParseShare_blank (σ : Arith) (tok : Tokener) {b : Bytes} (t : Bytes) (h : b.all isWs = true) :
    nodeParseShare σ tok (b ++ t) b.length = .ok (-1, nodeInit) := by
  have hc : ch ':' ∉ trimLine b := by
    obtain ⟨r, hr⟩ := trimLine_append b
    intro hm
    have := List.all_eq_true.1 h _ (by rw [hr]; exact List.mem_append_left _ hm)
    revert this; decide
  obtain ⟨h1, h2⟩ := linkRun_noColon tok hc
  rw [nodeParseShare_eq σ tok b t h2, h1]; rfl

/-- The line `b` with `t` behind it: the accepted node is pushed. -/
theorem convLine_eq (tok : Tokener) {b t : Bytes} (hlen : (b ++ t).length < 2 ^ 63) (nodes : List ProxyNode) :
    (LineFaults tok b t ∧ ∃ e, convLine tok (b ++ t) b.length nodes = .error e) ∨
      (¬ LineFaults tok b t ∧
        convLine tok (b ++ t) b.length nodes = .ok (nodes ++ (acceptLine tok b).toList)) := by
  have hblank := lineBlank_eq t b []
  simp only [List.nil_append, List.length_nil] at hblank
  have hp := nodeParseShare_inPlace tok hlen
  unfold convLine
  rw [hblank, ok_bind]
  cases hb : b.all isWs
  · -- the loop appends the node of an accepted line and goes on after any other
    simp only [Bool.false_eq_true, if_false]
    rcases hp with ⟨hf, e, he⟩ | ⟨hf, hr⟩
    · exact .inl ⟨hf, e, by rw [he]; rfl⟩
    · refine .inr ⟨hf, ?_⟩
      rw [hr, ok_bind]
      cases acceptLine tok b <;> simp [shareResult]
  · -- a blank line is skipped, and would not have been accepted
    simp only [if_true]
    rw [nodeParseShare_blank .machine tok t hb] at hp
    rcases hp with ⟨-, e, he⟩ | ⟨hf, hr⟩
    · cases he
    · refine .inr ⟨hf, ?_⟩
      cases ha : acceptLine tok b with
      | none => simp
      | some n => rw [ha] at hr; cases hr

theorem acceptLine_nil (tok : Tokener) : acceptLine tok [] = none := acceptLine_noColon (by simp)

theorem not_lineFaults_nil (tok : Tokener) (t : Bytes) : ¬ LineFaults tok [] t := by
  rintro (h | ⟨a, y, r, h, -⟩)
  · exact h
  · cases h

/-! ## The loop -/

/-- The line `l` with `t` behind it; an empty one is skipped. -/
def bodyLine (tok : Tokener) (l t : Bytes) (nodes : List ProxyNode) : Run (List ProxyNode) :=
  if l = [] then .ok nodes else convLine tok (l ++ t) l.length nodes

/-- The lines, each parsed with the rest of the memory behind it. -/
def bodyRun (tok : Tokener) (t : Bytes) : List Bytes → List ProxyNode → Run (List ProxyNode)
  | [], nodes => .ok nodes
  | l :: ls, nodes => do
    let nodes ← bodyLine tok l (ls.flatMap (10 :: ·) ++ t) nodes
    bodyRun tok t ls nodes

/-- A line that makes `node_parse_share` fault where it stands. -/
def BodyFaults (tok : Tokener) (t : Bytes) : List Bytes → Prop
  | [] => False
  | l :: ls => LineFaults tok l (ls.flatMap (10 :: ·) ++ t) ∨ BodyFaults tok t ls

theorem flatMap_splitOn (c : Byte) : ∀ (b : Bytes), (b.splitOn c).flatMap (c :: ·) = c :: b
  | [] => rfl
  | a :: b => by
    have ih := flatMap_splitOn c b
    rw [List.splitOn_cons_eq_if_modifyHead]
    split
    · rename_i h
      rw [List.flatMap_cons, ih, eq_of_beq h]; rfl
    · obtain ⟨l, ls, hl⟩ := List.exists_cons_of_ne_nil (List.splitOn_ne_nil c b)
      rw [hl] at ih ⊢
      simpa using ih

theorem convLines_skip (tok : Tokener) (src : Bytes) (c : Byte) (rest : Bytes) (start : Nat) (nodes : List ProxyNode) :
    ∀ (x : Bytes) (i : Nat), (10 : Byte) ∉ x → (0 : Byte) ∉ x →
      convLines tok src (x ++ c :: rest) i start nodes = convLines tok src (c :: rest) (i + x.length) start nodes
  | [], i, _, _ => rfl
  | a :: x, i, h10, h0 => by
    simp only [List.mem_cons, not_or] at h10 h0
    rw [List.cons_append, convLines, if_pos ⟨Ne.symm h10.1, Ne.symm h0.1⟩,
      convLines_skip tok src c rest start nodes x (i + 1) h10.2 h0.2, List.length_cons, Nat.add_assoc, Nat.add_comm 1]

/-- The end of the line `x` that starts behind `p`. -/
theorem convLines_end (tok : Tokener) {p x : Bytes} {c : Byte} (rest : Bytes) (nodes : List ProxyNode)
    (h10 : (10 : Byte) ∉ x) (h0 : (0 : Byte) ∉ x) (hc : c = 10 ∨ c = 0) :
    convLines tok (p ++ (x ++ c :: rest)) (x ++ c :: rest) p.length p.length nodes = (do
      let nodes ← bodyLine tok x (c :: rest) nodes
      if c = 0 then .ok nodes
      else convLines tok (p ++ (x ++ c :: rest)) rest (p.length + x.length + 1) (p.length + x.length + 1) nodes) := by
  rw [convLines_skip tok _ c rest _ nodes x _ h10 h0, convLines, if_neg (by rcases hc with rfl | rfl <;> simp),
    List.drop_left, Nat.add_sub_cancel_left]
  rcases x with _ | ⟨a, x⟩
  · simp [bodyLine]
  · rw [if_pos (by simp), bodyLine, if_neg (by simp)]

/-- The loop is `bodyRun` over the lines of the body. -/
theorem convLines_eq (tok : Tokener) (t : Bytes) : ∀ (n : Nat) (b : Bytes), b.length ≤ n → (0 : Byte) ∉ b →
    ∀ (p : Bytes) (nodes : List ProxyNode),
      convLines tok (p ++ (b ++ 0 :: t)) (b ++ 0 :: t) p.length p.length nodes =
        bodyRun tok (0 :: t) (b.splitOn 10) nodes := by
  intro n
  induction n with
  | zero =>
    intro b hb h0 p nodes
    obtain rfl := List.eq_nil_of_length_eq_zero (Nat.le_zero.1 hb)
    rw [convLines_end tok t nodes (by simp) h0 (.inr rfl)]; rfl
  | succ n ih =>
    intro b hb h0 p nodes
    rcases first_split 10 b with hno | ⟨x, y, rfl, hx⟩
    · -- the last line
      rw [List.splitOn_eq_singleton hno, convLines_end tok t nodes hno h0 (.inr rfl)]; rfl
    · -- a line and its newline: the rest starts behind it, with the line in the prefix
      simp only [List.mem_append, List.mem_cons, not_or] at h0
      have hrest : ∀ nodes, convLines tok (p ++ (x ++ 10 :: (y ++ 0 :: t))) (y ++ 0 :: t) (p.length + x.length + 1)
          (p.length + x.length + 1) nodes = bodyRun tok (0 :: t) (y.splitOn 10) nodes := by
        intro nodes
        have := ih y (by simp at hb; omega) h0.2.2 (p ++ (x ++ [10])) nodes
        simpa [Nat.add_assoc] using this
      rw [List.append_assoc, List.cons_append, convLines_end tok _ nodes hx h0.1 (.inl rfl),
        List.splitOn_append_cons_self_of_not_mem hx, bodyRun, flatMap_splitOn]
      simp only [hrest]
      rfl

theorem bodyLine_eq (tok : Tokener) {l t : Bytes} (hlen : (l ++ t).length < 2 ^ 63) (nodes : List ProxyNode) :
    (LineFaults tok l t ∧ ∃ e, bodyLine tok l t nodes = .error e) ∨
      (¬ LineFaults tok l t ∧ bodyLine tok l t nodes = .ok (nodes ++ (acceptLine tok l).toList)) := by
  unfold bodyLine
  by_cases hl : l = []
  · subst hl
    exact .inr ⟨not_lineFaults_nil tok t, by simp [acceptLine_nil]⟩
  · rw [if_neg hl]
    exact convLine_eq tok hlen nodes

/-- The run over the lines faults at a faulting line, and otherwise appends the accepted nodes. -/
theorem bodyRun_eq (tok : Tokener) (t : Bytes) : ∀ (ls : List Bytes) (nodes : List ProxyNode),
    (ls.flatMap (10 :: ·) ++ t).length ≤ 2 ^ 63 →
      (BodyFaults tok t ls ∧ ∃ e, bodyRun tok t ls nodes = .error e) ∨
        (¬ BodyFaults tok t ls ∧ bodyRun tok t ls nodes = .ok (nodes ++ ls.filterMap (acceptLine tok)))
  | [], nodes, _ => .inr ⟨id, by simp [bodyRun]⟩
  | l :: ls, nodes, hlen => by
    simp only [List.flatMap_cons, List.length_append, List.length_cons] at hlen
    have ih := bodyRun_eq tok t ls (nodes ++ (acceptLine tok l).toList) (by rw [List.length_append]; omega)
    have hacc : nodes ++ (acceptLine tok l).toList ++ ls.filterMap (acceptLine tok) =
        nodes ++ (l :: ls).filterMap (acceptLine tok) := by
      rw [List.filterMap_cons]; cases acceptLine tok l <;> simp
    rw [bodyRun]
    rcases bodyLine_eq tok (l := l) (t := ls.flatMap (10 :: ·) ++ t) (by simp only [List.length_append]; omega) nodes
      with ⟨hf, e, he⟩ | ⟨hf, hok⟩
    · exact .inl ⟨.inl hf, e, by rw [he]; rfl⟩
    · rw [hok, ok_bind]
      rcases ih with ⟨hb, e, he⟩ | ⟨hb, hok⟩
      · exact .inl ⟨.inr hb, e, he⟩
      · exact .inr ⟨fun h => h.elim hf hb, by rw [hok, hacc]⟩

end SubConverter
