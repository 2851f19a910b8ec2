/-
The decoders give back what the coders were given, with white space anywhere in the text, and with or
without the padding of the last group.
-/
import SubConverter.Coding.Alphabets

namespace SubConverter

open CMem Sextet

/-! ## Variants of a text -/

/-- The second text is the first one with white space put in. -/
inductive Spaced : Bytes → Bytes → Prop
  | nil : Spaced [] []
  | char (c : Byte) {s t : Bytes} : Spaced s t → Spaced (c :: s) (c :: t)
  | ws {c : Byte} {s t : Bytes} : b64IsWs c = true → Spaced s t → Spaced s (c :: t)

/-- The text without the `=` at its end. -/
def unpadded (s : Bytes) : Bytes := s.rdropWhile (· == ch '=')

/-- The text with `=` up to a multiple of four characters. -/
def padded (s : Bytes) : Bytes := s ++ List.replicate ((4 - s.length % 4) % 4) (ch '=')

/-- The decoder succeeded and appended `x`. -/
def Yields (r : Int × Strbuf) (out : Strbuf) (x : Bytes) : Prop := r.1 = 0 ∧ r.2.bytes = out.bytes ++ x

theorem Spaced.sig {s t : Bytes} (h : Spaced s t) : b64Sig t = b64Sig s := by
  induction h with
  | nil => rfl
  | char c h ih =>
    rw [b64Sig, b64Sig, List.filter_cons, List.filter_cons]
    split
    · exact congrArg (c :: ·) ih
    · exact ih
  | ws hc h ih =>
    rw [b64Sig, List.filter_cons_of_neg (by simp [hc])]
    exact ih

theorem rdropWhile_append_replicate {p : Byte → Bool} {a : Byte} (ha : p a = true) (l : Bytes) :
    ∀ (n : Nat), (l ++ List.replicate n a).rdropWhile p = l.rdropWhile p
  | 0 => by rw [List.replicate_zero, List.append_nil]
  | n + 1 => by
    rw [List.replicate_succ', ← List.append_assoc, List.rdropWhile_concat_pos _ _ _ ha,
      rdropWhile_append_replicate ha l n]

section Texts

variable {alphabet : Bytes} (ha : Alphabet alphabet)
include ha

theorem unpadded_chars (x : Bytes) : unpadded (b64Chars alphabet x) = b64Chars alphabet x := by
  rw [unpadded, List.rdropWhile_eq_self_iff]
  intro hne
  have hlast := (inAlphabet_chars ha x _ (List.getLast_mem hne)).ne_eq ha
  simpa using hlast

theorem unpadded_text (x : Bytes) : unpadded (b64Text alphabet true x) = b64Text alphabet false x := by
  have hchars := unpadded_chars ha x
  rw [unpadded] at hchars ⊢
  rw [b64Text, rdropWhile_append_replicate (by decide), hchars, b64Text, if_neg (by decide), List.replicate_zero,
    List.append_nil]

omit ha in
theorem padded_text (x : Bytes) : padded (b64Text alphabet false x) = b64Text alphabet true x := by
  have hfalse : b64Text alphabet false x = b64Chars alphabet x := by
    rw [b64Text, if_neg (by decide), List.replicate_zero, List.append_nil]
  have hpad : (4 - (b64Chars alphabet x).length % 4) % 4 = padCount x := by
    rw [b64Chars, List.length_map, length_sextets, padCount]
    -- 3q + r octets are 4q characters, and r + 1 more when r is not 0
    obtain ⟨q, r, hr, hx⟩ : ∃ q r, r < 3 ∧ x.length = 3 * q + r := ⟨_, _, Nat.mod_lt _ (by decide), (Nat.div_add_mod _ 3).symm⟩
    have hchars : (4 * x.length + 2) / 3 = 4 * q + (4 * r + 2) / 3 := by omega
    have hmod : x.length % 3 = r := by omega
    rw [hchars, hmod]
    interval_cases r
    · omega
    · omega
    · omega
  rw [hfalse, padded, hpad]
  rfl

theorem decode_spaced {withPadding : Bool} {x t : Bytes} (h : Spaced (b64Text alphabet withPadding x) t) (out : Strbuf) :
    Yields (b64DecodeCore t out alphabet) out x := by
  have hsig : b64Sig t = b64Text alphabet withPadding x := by rw [h.sig, b64Text_ws ha]
  rw [b64DecodeCore_text ha hsig]
  exact ⟨rfl, Strbuf.bytes_push out x⟩

end Texts

/-- What was coded decodes, with or without padding and with any white space put in. -/
theorem base64_roundTrip (x : Bytes) (out : Strbuf) :
    (∀ s ∈ [(base64Encode x .init).bytes, unpadded (base64Encode x .init).bytes], ∀ t, Spaced s t →
      Yields (base64Decode t out) out x) ∧
    (∀ s ∈ [(base64EncodeUrl x .init).bytes, padded (base64EncodeUrl x .init).bytes], ∀ t, Spaced s t →
      Yields (base64DecodeUrl t out) out x) := by
  rw [base64Encode_bytes, base64EncodeUrl_bytes, unpadded_text alphabet_std, padded_text]
  simp only [List.forall_mem_cons, List.not_mem_nil, false_imp_iff, implies_true, and_true]
  refine ⟨⟨fun t h => ?_, fun t h => ?_⟩, fun t h => ?_, fun t h => ?_⟩
  · exact decode_spaced alphabet_std h out
  · exact decode_spaced alphabet_std h out
  · exact decode_spaced alphabet_url h out
  · exact decode_spaced alphabet_url h out

/-- The text of `"ab"` without its `=` and with a line end in it. -/
theorem base64_roundTrip_line : Yields (base64Decode (str "YW\nI") .init) .init (str "ab") := by
  refine (base64_roundTrip (str "ab") .init).1 (str "YWI") ?_ (str "YW\nI") ?_
  · decide +kernel
  · exact .char _ (.char _ (.ws (by decide) (.char _ .nil)))

end SubConverter
