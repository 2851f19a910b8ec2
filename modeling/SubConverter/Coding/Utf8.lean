/-
The code points that `utf8_next_codepoint` accepts are the UTF-8 encodings of the Unicode scalar values, so that
`utf8_validate` accepts exactly the encoded texts.
-/
import SubConverter.Emit.Utf8

namespace SubConverter

open CMem

/-! ## Bytes as numbers -/

theorem utf8Lead_eq (c : Byte) : utf8Lead c =
    if c.toNat < 128 then some (c.toNat, 0, 0)
    else if c.toNat < 192 then none
    else if c.toNat < 224 then some (c.toNat - 192, 1, 0x80)
    else if c.toNat < 240 then some (c.toNat - 224, 2, 0x800)
    else if c.toNat < 248 then some (c.toNat - 240, 3, 0x10000)
    else none := by
  have hall : ∀ n < 256, utf8Lead (Nat.toUInt8 n) =
      if n < 128 then some (n, 0, 0)
      else if n < 192 then none
      else if n < 224 then some (n - 192, 1, 0x80)
      else if n < 240 then some (n - 224, 2, 0x800)
      else if n < 248 then some (n - 240, 3, 0x10000)
      else none := by decide +kernel
  have hc := hall c.toNat c.toNat_lt
  rwa [show Nat.toUInt8 c.toNat = c by simp [Nat.toUInt8]] at hc

/-- A continuation byte has the next six bits. -/
theorem tailValue_cons (v : Nat) (cc : Byte) (t : Bytes) : tailValue v (cc :: t) =
    if 128 ≤ cc.toNat ∧ cc.toNat < 192 then tailValue (v * 64 + (cc.toNat - 128)) t else none := by
  have hall : ∀ n < 256, (Nat.toUInt8 n &&& 0xC0 = 0x80 ↔ 128 ≤ n ∧ n < 192) ∧
      ((128 ≤ n ∧ n < 192) → (Nat.toUInt8 n &&& 0x3F).toNat = n - 128) := by decide +kernel
  obtain ⟨hcont, hbits⟩ := hall cc.toNat cc.toNat_lt
  rw [show Nat.toUInt8 cc.toNat = cc by simp [Nat.toUInt8]] at hcont hbits
  rw [tailValue]
  by_cases h : 128 ≤ cc.toNat ∧ cc.toNat < 192
  · have hlt : cc.toNat - 128 < 2 ^ 6 := by omega
    rw [if_neg (not_not.2 (hcont.2 h)), if_pos h, hbits h, ← Nat.shiftLeft_add_eq_or_of_lt hlt, Nat.shiftLeft_eq]
  · rw [if_pos (fun hc => h (hcont.1 hc)), if_neg h]

theorem tailValue_nil (v : Nat) : tailValue v [] = some v := rfl

/-! ## Scalar values -/

/-- The encoding of a scalar value is a code point. -/
theorem codePoint_encodeChar (c : Char) : CodePoint (String.utf8EncodeChar c) := by
  have hvalid : c.val.toNat.isValidChar := c.valid
  have hbyte : ∀ {n : Nat}, n < 256 → (UInt8.ofNat n).toNat = n := fun h => UInt8.toNat_ofNat_of_lt' h
  unfold Nat.isValidChar at hvalid
  unfold String.utf8EncodeChar
  generalize c.val.toNat = v at hvalid
  simp only
  split_ifs with h1 h2 h3
  · refine codePointLen_cons.2 ⟨v, 0, 0, v, ?_, by simp, rfl, by omega, rfl⟩
    rw [utf8Lead_eq, hbyte (by omega), if_pos (by omega)]
  · have hb0 := hbyte (show v / 64 % 32 + 192 < 256 by omega)
    have hb1 := hbyte (show v % 64 + 128 < 256 by omega)
    refine codePointLen_cons.2 ⟨v / 64, 1, 0x80, v, ?_, by simp, ?_, by omega, rfl⟩
    · rw [utf8Lead_eq, hb0, if_neg (by omega), if_neg (by omega), if_pos (by omega)]
      simp; omega
    · rw [List.take_succ_cons, List.take_zero, tailValue_cons, hb1, if_pos (by omega), tailValue_nil]
      exact congrArg some (by omega)
  · have hb0 := hbyte (show v / 4096 % 16 + 224 < 256 by omega)
    have hb1 := hbyte (show v / 64 % 64 + 128 < 256 by omega)
    have hb2 := hbyte (show v % 64 + 128 < 256 by omega)
    refine codePointLen_cons.2 ⟨v / 4096, 2, 0x800, v, ?_, by simp, ?_, by omega, rfl⟩
    · rw [utf8Lead_eq, hb0, if_neg (by omega), if_neg (by omega), if_neg (by omega), if_pos (by omega)]
      simp; omega
    · rw [List.take_succ_cons, List.take_succ_cons, List.take_zero, tailValue_cons, hb1, if_pos (by omega),
        tailValue_cons, hb2, if_pos (by omega), tailValue_nil]
      exact congrArg some (by omega)
  · have hb0 := hbyte (show v / 262144 % 8 + 240 < 256 by omega)
    have hb1 := hbyte (show v / 4096 % 64 + 128 < 256 by omega)
    have hb2 := hbyte (show v / 64 % 64 + 128 < 256 by omega)
    have hb3 := hbyte (show v % 64 + 128 < 256 by omega)
    refine codePointLen_cons.2 ⟨v / 262144, 3, 0x10000, v, ?_, by simp, ?_, by omega, rfl⟩
    · rw [utf8Lead_eq, hb0, if_neg (by omega), if_neg (by omega), if_neg (by omega), if_neg (by omega),
        if_pos (by omega)]
      simp; omega
    · rw [List.take_succ_cons, List.take_succ_cons, List.take_succ_cons, List.take_zero, tailValue_cons, hb1,
        if_pos (by omega), tailValue_cons, hb2, if_pos (by omega), tailValue_cons, hb3, if_pos (by omega),
        tailValue_nil]
      exact congrArg some (by omega)

/-- A code point is the encoding of a scalar value: the value it codes. -/
theorem codePoint_value {w : Bytes} (h : CodePoint w) : ∃ c : Char, w = String.utf8EncodeChar c := by
  rcases w with _ | ⟨b0, t⟩
  · cases h
  obtain ⟨v, extra, mincp, v', hlead, -, hv, hok, hk⟩ := codePointLen_cons.1 h
  obtain rfl : t.length = extra := by simpa using hk
  rw [List.take_length] at hv
  have hvalid : v'.isValidChar := by
    unfold Nat.isValidChar
    omega
  have hbyte : ∀ {n : Nat} {b : Byte}, n = b.toNat → UInt8.ofNat n = b := by
    rintro n b rfl
    exact UInt8.ofNat_toNat
  refine ⟨Char.ofNatAux v' hvalid, ?_⟩
  have hval : (Char.ofNatAux v' hvalid).val.toNat = v' := rfl
  simp only [String.utf8EncodeChar, hval]
  rw [utf8Lead_eq] at hlead
  have hlt := b0.toNat_lt
  split_ifs at hlead with h1 h2 h3 h4 h5
  · simp only [Option.some.injEq, Prod.mk.injEq] at hlead
    obtain ⟨rfl, hlen, rfl⟩ := hlead
    obtain rfl := List.length_eq_zero_iff.1 hlen.symm
    obtain rfl : b0.toNat = v' := Option.some.inj hv
    rw [if_pos (by omega), hbyte rfl]
  · simp only [Option.some.injEq, Prod.mk.injEq] at hlead
    obtain ⟨rfl, hlen, rfl⟩ := hlead
    obtain ⟨b1, rfl⟩ := List.length_eq_one_iff.1 hlen.symm
    rw [tailValue_cons, tailValue_nil] at hv
    split_ifs at hv with hc1
    have hv := Option.some.inj hv
    rw [if_neg (by omega), if_pos (by omega), hbyte (b := b0) (by omega), hbyte (b := b1) (by omega)]
  · simp only [Option.some.injEq, Prod.mk.injEq] at hlead
    obtain ⟨rfl, hlen, rfl⟩ := hlead
    obtain ⟨b1, b2, rfl⟩ := List.length_eq_two.1 hlen.symm
    rw [tailValue_cons] at hv
    split_ifs at hv with hc1
    rw [tailValue_cons, tailValue_nil] at hv
    split_ifs at hv with hc2
    have hv := Option.some.inj hv
    rw [if_neg (by omega), if_neg (by omega), if_pos (by omega), hbyte (b := b0) (by omega),
      hbyte (b := b1) (by omega), hbyte (b := b2) (by omega)]
  · simp only [Option.some.injEq, Prod.mk.injEq] at hlead
    obtain ⟨rfl, hlen, rfl⟩ := hlead
    obtain ⟨b1, b2, b3, rfl⟩ := List.length_eq_three.1 hlen.symm
    rw [tailValue_cons] at hv
    split_ifs at hv with hc1
    rw [tailValue_cons] at hv
    split_ifs at hv with hc2
    rw [tailValue_cons, tailValue_nil] at hv
    split_ifs at hv with hc3
    have hv := Option.some.inj hv
    rw [if_neg (by omega), if_neg (by omega), if_neg (by omega), hbyte (b := b0) (by omega),
      hbyte (b := b1) (by omega), hbyte (b := b2) (by omega), hbyte (b := b3) (by omega)]

/-- The code points of `utf8_next_codepoint` are the encoded scalar values. -/
theorem codePoint_iff {w : Bytes} : CodePoint w ↔ ∃ c : Char, w = String.utf8EncodeChar c := by
  constructor
  · exact codePoint_value
  · rintro ⟨c, rfl⟩
    exact codePoint_encodeChar c

/-! ## The validator -/

theorem valid_iff_encoded {s : Bytes} : utf8.Valid s ↔ ∃ cs : List Char, s = cs.flatMap String.utf8EncodeChar := by
  constructor
  · intro h
    induction h with
    | nil => exact ⟨[], rfl⟩
    | append hw _ ih =>
      obtain ⟨c, rfl⟩ := codePoint_iff.1 hw
      obtain ⟨cs, rfl⟩ := ih
      exact ⟨c :: cs, rfl⟩
  · rintro ⟨cs, rfl⟩
    induction cs with
    | nil => exact .nil
    | cons c cs ih => exact .append (codePoint_encodeChar c) ih

/-- The position moves over the encoding of a scalar value, or stays where none starts. -/
theorem utf8NextCodepointAt_spec (s : Bytes) (pos : Nat) :
    (∃ c : Char, String.utf8EncodeChar c <+: s.drop pos ∧
        utf8NextCodepointAt s s.length pos = .ok (0, pos + (String.utf8EncodeChar c).length)) ∨
      ((∀ c : Char, ¬ String.utf8EncodeChar c <+: s.drop pos) ∧
        utf8NextCodepointAt s s.length pos = .ok (-1, pos)) := by
  have hnext : utf8NextCodepoint s s.length pos = .ok ((codePointLen (s.drop pos)).map (pos + ·)) := by
    rcases Nat.lt_or_ge s.length pos with hpos | hpos
    · rw [utf8NextCodepoint, if_pos hpos.le, List.drop_eq_nil_of_le hpos.le]
      rfl
    · have h := utf8NextCodepoint_eq (s.take pos) (s.drop pos)
      rwa [List.take_append_drop, List.length_take_of_le hpos] at h
  rw [utf8NextCodepointAt, hnext]
  rcases hlen : codePointLen (s.drop pos) with _ | k
  · refine .inr ⟨?_, rfl⟩
    rintro c ⟨r, hr⟩
    rw [← hr, (codePoint_encodeChar c).codePointLen_append] at hlen
    cases hlen
  · obtain ⟨-, hle, hw⟩ := codePoint_take hlen
    obtain ⟨c, hc⟩ := codePoint_iff.1 hw
    refine .inl ⟨c, ?_, ?_⟩
    · rw [← hc]
      exact List.take_prefix k _
    · rw [← hc, List.length_take_of_le hle]
      rfl

/-- `utf8_validate` ends without a read behind its buffer and accepts exactly the encoded texts; a step of it moves
over one encoding, or fails and leaves the position. -/
theorem utf8_validate_exact (s : Bytes) :
    (∃ r, utf8Validate s s.length = .ok r ∧ (r = true ↔ ∃ cs : List Char, s = cs.flatMap String.utf8EncodeChar)) ∧
      ∀ pos, (∃ c : Char, String.utf8EncodeChar c <+: s.drop pos ∧
          utf8NextCodepointAt s s.length pos = .ok (0, pos + (String.utf8EncodeChar c).length)) ∨
        ((∀ c : Char, ¬ String.utf8EncodeChar c <+: s.drop pos) ∧
          utf8NextCodepointAt s s.length pos = .ok (-1, pos)) := by
  obtain ⟨r, hr, hvalid⟩ := utf8Validate_eq s
  exact ⟨⟨r, hr, hvalid.trans valid_iff_encoded⟩, utf8NextCodepointAt_spec s⟩

end SubConverter
