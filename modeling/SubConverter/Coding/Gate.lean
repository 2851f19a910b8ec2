/-
`base64_looks_like` against the decoder. The test only counts the characters modulo four, so it differs
from the decoder on texts whose `=` are not the last two characters at most, and on unpadded ones.
-/
import SubConverter.Coding.Base64

namespace SubConverter

open CMem

/-- A byte that may stand in a base64 text. -/
def GateByte (c : Byte) : Prop := c = ch '=' ∨ InAlphabet b64StdChars c

/-- `=` is only among the last two bytes, and before the last one only if that is `=` too. -/
def PaddingLast (s : Bytes) : Prop := ∃ d p, s = d ++ List.replicate p (ch '=') ∧ ch '=' ∉ d ∧ p ≤ 2

/-- Where the test and the decoder agree: whole groups with their padding at the end, and no unpadded
ends. -/
def GateAgrees (s : Bytes) : Prop :=
  (∀ c ∈ s, GateByte c) →
    (s.length % 4 = 0 → PaddingLast s) ∧ (s.length % 4 = 2 ∨ s.length % 4 = 3 → ch '=' ∈ s)

/-! ## The test -/

theorem b64LooksLoop_iff : ∀ (b : Bytes) (n : Nat), b64LooksLoop b n = true ↔
    (∀ c ∈ b64Sig b, GateByte c) ∧ 4 ≤ n + (b64Sig b).length ∧ (n + (b64Sig b).length) % 4 = 0
  | [], n => by simp [b64LooksLoop, b64Sig]
  | c :: b, n => by
    rw [b64LooksLoop]
    by_cases hws : b64IsWs c = true
    · have hskip : b64Sig (c :: b) = b64Sig b := List.filter_cons_of_neg (by simpa using hws)
      rw [if_pos hws, hskip, b64LooksLoop_iff b n]
    · have hcons : b64Sig (c :: b) = c :: b64Sig b := List.filter_cons_of_pos (by simpa using hws)
      have hbad : ¬ GateByte c ↔ c ≠ ch '=' ∧ b64CharVal b64StdChars c = none := by
        rw [GateByte, InAlphabet, not_or, not_not]
      rw [if_neg hws, hcons, List.forall_mem_cons, List.length_cons]
      split
      · rename_i h
        exact iff_of_false (by simp) fun hall => (hbad.2 h) hall.1.1
      · rename_i h
        rw [b64LooksLoop_iff b (n + 1), show n + 1 + (b64Sig b).length = n + ((b64Sig b).length + 1) by omega,
          and_iff_right (not_not.1 (mt hbad.1 h))]

theorem base64LooksLike_iff (b : Bytes) : base64LooksLike b = true ↔
    (∀ c ∈ b64Sig b, GateByte c) ∧ 4 ≤ (b64Sig b).length ∧ (b64Sig b).length % 4 = 0 := by
  have h := b64LooksLoop_iff b 0
  rwa [Nat.zero_add] at h

/-! ## The decoder -/

theorem not_inAlphabet_eq : ¬ InAlphabet b64StdChars (ch '=') := fun h => h.ne_eq alphabet_std rfl

/-- A text that decodes has only bytes that may stand there. -/
theorem Coded.gateByte {b d : Bytes} {p : Nat} (h : Coded b64StdChars b d p) : ∀ c ∈ b64Sig b, GateByte c := by
  rw [h.text]
  intro c hc
  rcases List.mem_append.1 hc with hc | hc
  · exact .inr (h.chars c hc)
  · exact .inl (List.eq_of_mem_replicate hc)

theorem Coded.length {b d : Bytes} {p : Nat} (h : Coded b64StdChars b d p) : (b64Sig b).length = d.length + p := by
  rw [h.text, List.length_append, List.length_replicate]

theorem Coded.eq_not_mem {b d : Bytes} {p : Nat} (h : Coded b64StdChars b d p) : ch '=' ∉ d :=
  fun hm => not_inAlphabet_eq (h.chars _ hm)

/-- Complete groups decode exactly when the padding is at the end. -/
theorem coded_iff_of_groups {b : Bytes} (hall : ∀ c ∈ b64Sig b, GateByte c) (hlen : (b64Sig b).length % 4 = 0) :
    (∃ d p, Coded b64StdChars b d p) ↔ PaddingLast (b64Sig b) := by
  constructor
  · rintro ⟨d, p, h⟩
    have hp := h.padded
    have hl := h.length
    unfold Padded at hp
    exact ⟨d, p, h.text, h.eq_not_mem, by omega⟩
  · rintro ⟨d, p, ht, hd, hp⟩
    have hl : (b64Sig b).length = d.length + p := by rw [ht, List.length_append, List.length_replicate]
    refine ⟨d, p, ht, fun c hc => ?_, ?_⟩
    · rcases hall c (by rw [ht]; exact List.mem_append_left _ hc) with rfl | h
      · exact absurd hc hd
      · exact h
    · unfold Padded
      omega

/-- An incomplete last group decodes exactly when it is of two or three characters and has no padding. -/
theorem coded_iff_of_rest {b : Bytes} (hall : ∀ c ∈ b64Sig b, GateByte c) (hlen : (b64Sig b).length % 4 ≠ 0) :
    (∃ d p, Coded b64StdChars b d p) ↔
      ((b64Sig b).length % 4 = 2 ∨ (b64Sig b).length % 4 = 3) ∧ ch '=' ∉ b64Sig b := by
  constructor
  · rintro ⟨d, p, h⟩
    have hp := h.padded
    have hl := h.length
    unfold Padded at hp
    obtain rfl : p = 0 := by omega
    refine ⟨by omega, ?_⟩
    rw [h.text, List.replicate_zero, List.append_nil]
    exact h.eq_not_mem
  · rintro ⟨hmod, hno⟩
    refine ⟨b64Sig b, 0, by rw [List.replicate_zero, List.append_nil], fun c hc => ?_, ?_⟩
    · rcases hall c hc with rfl | h
      · exact absurd hc hno
      · exact h
    · unfold Padded
      omega

/-! ## Agreement -/

/-- The test and the decoder agree on a text of four characters or more exactly when its padding is
that of whole groups, or neither takes it. -/
theorem looksLike_iff_decodes {b : Bytes} (h : 4 ≤ (b64Sig b).length) (out : Strbuf) :
    (base64LooksLike b = true ↔ (base64Decode b out).1 = 0) ↔ GateAgrees (b64Sig b) := by
  rw [base64Decode, b64DecodeCore_ok_iff alphabet_std, base64LooksLike_iff, GateAgrees]
  by_cases hall : ∀ c ∈ b64Sig b, GateByte c
  · by_cases hlen : (b64Sig b).length % 4 = 0
    · rw [coded_iff_of_groups hall hlen]
      refine (iff_true_left ⟨hall, h, hlen⟩).trans ?_
      constructor
      · exact fun hp _ => ⟨fun _ => hp, by omega⟩
      · exact fun hc => (hc hall).1 hlen
    · rw [coded_iff_of_rest hall hlen]
      refine (iff_false_left fun hl => hlen hl.2.2).trans ?_
      rw [not_and, not_not]
      constructor
      · exact fun hp _ => ⟨fun h0 => absurd h0 hlen, hp⟩
      · exact fun hc => (hc hall).2
  · -- a foreign byte: neither takes the text
    have hno : ¬ ∃ d p, Coded b64StdChars b d p := fun ⟨_, _, hc⟩ => hall hc.gateByte
    exact iff_of_true (iff_of_false (fun hl => hall hl.1) hno) fun hc => absurd hc hall

theorem looksLike_iff_decodes_padded : (base64LooksLike (str "YWI=") = true ↔ (base64Decode (str "YWI=") .init).1 = 0) ↔
    GateAgrees (b64Sig (str "YWI=")) :=
  looksLike_iff_decodes (by decide +kernel) .init

/-- An unpadded end decodes and does not look like base64; a text that looks like base64 and does not
decode. -/
theorem looksLike_unpadded :
    (4 ≤ (b64Sig (str "YWJjZA")).length ∧ (base64Decode (str "YWJjZA") .init).1 = 0 ∧
      base64LooksLike (str "YWJjZA") = false) ∧
    (4 ≤ (b64Sig (str "A===")).length ∧ (base64Decode (str "A===") .init).1 = -1 ∧
      base64LooksLike (str "A===") = true) := by
  decide +kernel

end SubConverter
