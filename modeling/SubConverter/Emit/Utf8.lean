/-
`utf8_validate` accepts the concatenations of code points, and the text of a line is such a
concatenation exactly when its string is: quoting, keys and numbers only add ASCII.
-/
import SubConverter.Emit.Document
import SubConverter.Lib.PrefixCode

namespace SubConverter

open CMem Line

/-! ## Code points -/

/-- The value of a code point with these continuation bytes. -/
def tailValue : Nat → Bytes → Option Nat
  | v, [] => some v
  | v, cc :: t => if cc &&& 0xC0 ≠ 0x80 then none else tailValue ((v <<< 6) ||| (cc &&& 0x3F).toNat) t

/-- The length of the code point at the head. -/
def codePointLen : Bytes → Option Nat
  | [] => none
  | c :: r =>
    match utf8Lead c with
    | none => none
    | some (v, extra, mincp) =>
      if r.length < extra then none
      else
        match tailValue v (r.take extra) with
        | none => none
        | some v => if v < mincp ∨ 0x10FFFF < v ∨ (0xD800 ≤ v ∧ v ≤ 0xDFFF) then none else some (extra + 1)

theorem utf8Tail_eq : ∀ (n v : Nat) (p r : Bytes), n ≤ r.length →
    utf8Tail (p ++ r) p.length n v = .ok (tailValue v (r.take n))
  | 0, _, _, _, _ => by rw [utf8Tail, List.take_zero, tailValue]
  | n + 1, v, p, cc :: r, h => by
    rw [utf8Tail, rd_append_cons, ok_bind, List.take_succ_cons, tailValue]
    split
    · rfl
    · have ih := utf8Tail_eq n ((v <<< 6) ||| (cc &&& 0x3F).toNat) (p ++ [cc]) r (by simpa using h)
      simpa using ih

theorem utf8NextCodepoint_eq (p b : Bytes) :
    utf8NextCodepoint (p ++ b) (p ++ b).length p.length = .ok ((codePointLen b).map (p.length + ·)) := by
  rcases b with _ | ⟨c, r⟩
  · rw [utf8NextCodepoint, if_pos (by simp)]; rfl
  · rw [utf8NextCodepoint, if_neg (by simp), rd_append_cons, ok_bind, codePointLen]
    rcases utf8Lead c with _ | ⟨v, extra, mincp⟩
    · rfl
    · simp only [List.length_append, List.length_cons]
      by_cases hlen : r.length < extra
      · rw [if_pos (by omega), if_pos hlen]; rfl
      · have ht := utf8Tail_eq extra v (p ++ [c]) r (by omega)
        rw [List.append_assoc, List.singleton_append, List.length_append, List.length_singleton] at ht
        rw [if_neg (by omega), if_neg hlen, ht, ok_bind]
        rcases tailValue v (r.take extra) with _ | v
        · rfl
        · simp only
          split
          · rfl
          · simp [Nat.add_assoc]

theorem codePointLen_cons {c : Byte} {r : Bytes} {k : Nat} : codePointLen (c :: r) = some k ↔
    ∃ v extra mincp v', utf8Lead c = some (v, extra, mincp) ∧ extra ≤ r.length ∧ tailValue v (r.take extra) = some v' ∧
      ¬ (v' < mincp ∨ 0x10FFFF < v' ∨ (0xD800 ≤ v' ∧ v' ≤ 0xDFFF)) ∧ k = extra + 1 := by
  rw [codePointLen]
  rcases utf8Lead c with _ | ⟨v, extra, mincp⟩
  · simp
  · simp only [Option.some.injEq, Prod.mk.injEq]
    constructor
    · intro h
      split_ifs at h with hlen
      split at h
      · cases h
      · rename_i v' hv
        split_ifs at h with hbad
        cases h
        exact ⟨v, extra, mincp, v', ⟨rfl, rfl, rfl⟩, by omega, hv, hbad, rfl⟩
    · rintro ⟨_, _, _, v', ⟨rfl, rfl, rfl⟩, hlen, hv, hbad, rfl⟩
      rw [if_neg (by omega), hv]
      simp only
      rw [if_neg hbad]

def CodePoint (w : Bytes) : Prop := codePointLen w = some w.length

theorem CodePoint.codePointLen_append {w : Bytes} (h : CodePoint w) (r : Bytes) :
    codePointLen (w ++ r) = some w.length := by
  rcases w with _ | ⟨c, t⟩
  · cases h
  · obtain ⟨v, extra, mincp, v', hlead, hlen, hv, hbad, hk⟩ := codePointLen_cons.1 h
    obtain rfl : t.length = extra := by simpa using hk
    rw [List.take_length] at hv
    rw [List.cons_append]
    exact codePointLen_cons.2 ⟨v, t.length, mincp, v', hlead, by simp, by rwa [List.take_left], hbad, rfl⟩

theorem codePoint_take {b : Bytes} {k : Nat} (h : codePointLen b = some k) :
    0 < k ∧ k ≤ b.length ∧ CodePoint (b.take k) := by
  rcases b with _ | ⟨c, r⟩
  · cases h
  · obtain ⟨v, extra, mincp, v', hlead, hlen, hv, hbad, rfl⟩ := codePointLen_cons.1 h
    refine ⟨by omega, by simpa using hlen, codePointLen_cons.2 ⟨v, extra, mincp, v', hlead, ?_, ?_, hbad, ?_⟩⟩
    · simpa using hlen
    · rwa [List.take_take, min_self]
    · simpa using hlen

theorem tailValue_cont : ∀ {t : Bytes} {v v' : Nat}, tailValue v t = some v' → ∀ c ∈ t, c &&& 0xC0 = 0x80
  | d :: t, v, v', h, c, hc => by
    rw [tailValue] at h
    split_ifs at h with hd
    rcases List.mem_cons.1 hc with rfl | hc
    · exact not_not.1 hd
    · exact tailValue_cont h c hc

theorem cont_not_ascii {c : Byte} (h : c &&& 0xC0 = 0x80) : ¬ c.toNat < 128 := by
  have hall : ∀ n < 128, ¬ Nat.toUInt8 n &&& 0xC0 = 0x80 := by decide +kernel
  intro hc
  refine hall c.toNat hc ?_
  rwa [show Nat.toUInt8 c.toNat = c by simp [Nat.toUInt8]]

theorem utf8Lead_ascii {c : Byte} (h : c.toNat < 128) : utf8Lead c = some (c.toNat, 0, 0) := by
  rw [utf8Lead, if_pos (UInt8.lt_iff_toNat_lt.2 h)]

theorem codePoint_ascii {c : Byte} (h : c.toNat < 128) : CodePoint [c] :=
  codePointLen_cons.2 ⟨c.toNat, 0, 0, c.toNat, utf8Lead_ascii h, le_rfl, rfl, by omega, rfl⟩

/-- UTF-8: the words are the code points, and ASCII bytes stand alone. -/
def utf8 : PrefixCode Byte where
  Word := CodePoint
  Plain c := c.toNat < 128
  not_nil h := by cases h
  prefixFree := by
    rintro v w hv hw ⟨r, rfl⟩
    have hlen := hv.codePointLen_append r
    rw [hw] at hlen
    simpa using hlen
  plainWord := codePoint_ascii
  plainAlone := by
    intro c w hw hc hplain
    rcases w with _ | ⟨d, t⟩
    · cases hw
    · obtain ⟨v, extra, mincp, v', hlead, hlen, hv, -, hk⟩ := codePointLen_cons.1 hw
      rcases List.mem_cons.1 hc with rfl | hc
      · -- an ASCII lead byte has no continuation
        rw [utf8Lead_ascii hplain] at hlead
        cases hlead
        rw [List.length_eq_zero_iff.1 (by simpa using hk : t.length = 0)]
      · obtain rfl : t.length = extra := by simpa using hk
        rw [List.take_length] at hv
        exact absurd hplain (cont_not_ascii (tailValue_cont hv c hc))

/-! ## The validator -/

theorem utf8ValidateLoop_eq : ∀ (fuel : Nat) (b p : Bytes), b.length < fuel →
    ∃ r, utf8ValidateLoop (p ++ b) (p ++ b).length fuel p.length = .ok r ∧ (r = true ↔ utf8.Valid b)
  | 0, _, _, h => absurd h (Nat.not_lt_zero _)
  | fuel + 1, b, p, h => by
    rcases eq_or_ne b [] with rfl | hb
    · exact ⟨true, by rw [utf8ValidateLoop, if_neg (by simp)], iff_of_true rfl .nil⟩
    · rw [utf8ValidateLoop, if_pos (by simpa [List.length_pos_iff] using hb), utf8NextCodepoint_eq, ok_bind]
      rcases hk : codePointLen b with _ | k
      · refine ⟨false, rfl, iff_of_false (by simp) fun hv => ?_⟩
        cases hv with
        | nil => exact hb rfl
        | append hw _ =>
          rw [CodePoint.codePointLen_append hw] at hk
          cases hk
      · -- the validator goes on behind the code point
        obtain ⟨hpos, hle, hw⟩ := codePoint_take hk
        obtain ⟨r, hr, hiff⟩ := utf8ValidateLoop_eq fuel (b.drop k) (p ++ b.take k) (by rw [List.length_drop]; omega)
        refine ⟨r, ?_, ?_⟩
        · rw [List.append_assoc, List.take_append_drop] at hr
          have hlen : (p ++ b.take k).length = p.length + k := by rw [List.length_append, List.length_take_of_le hle]
          rwa [hlen] at hr
        · rw [hiff, ← PrefixCode.word_append_iff (C := utf8) hw, List.take_append_drop]

/-- `utf8_validate` ends, and accepts exactly the concatenations of code points. -/
theorem utf8Validate_eq (b : Bytes) : ∃ r, utf8Validate b b.length = .ok r ∧ (r = true ↔ utf8.Valid b) :=
  utf8ValidateLoop_eq (b.length + 1) b [] (Nat.lt_succ_self _)

theorem utf8Validate_iff (b : Bytes) : utf8Validate b b.length = .ok true ↔ utf8.Valid b := by
  obtain ⟨r, hr, h⟩ := utf8Validate_eq b
  rw [hr, ← h, Except.ok.injEq]

/-! ## The text of a line -/

theorem plain_iff {c : Byte} : utf8.Plain c ↔ c.toNat < 128 := Iff.rfl

theorem str_plain {k : String} (h : keyOk k = true) : ∀ c ∈ str k, utf8.Plain c := fun c hc =>
  (str_printable h c hc).2.trans (by decide)

/-- The string a line carries. -/
def Line.string (l : Line) : Option CStr :=
  match l.value with
  | some (.str s) => some s
  | _ => none

end SubConverter
