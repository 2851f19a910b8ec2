/-
The two alphabets side by side. They differ in the characters of the values 62 and 63 only: a text that
needs neither is the same in both, and any other one is refused by the decoder of the other alphabet.
-/
import SubConverter.Coding.Base64

namespace SubConverter

open CMem Sextet

section Texts

variable {alphabet : Bytes} (ha : Alphabet alphabet)
include ha

theorem b64Text_ws (withPadding : Bool) (b : Bytes) :
    b64Sig (b64Text alphabet withPadding b) = b64Text alphabet withPadding b := by
  refine List.filter_eq_self.2 fun c hc => ?_
  rcases List.mem_append.1 hc with hc | hc
  · rw [(inAlphabet_chars ha b c hc).ws ha, Bool.not_false]
  · rw [List.eq_of_mem_replicate hc]; rfl

/-- A text has characters of its alphabet and `=` only. -/
theorem not_mem_b64Text {c : Byte} (hn : ¬ InAlphabet alphabet c) (he : c ≠ ch '=') (withPadding : Bool) (b : Bytes) :
    c ∉ b64Text alphabet withPadding b := by
  intro hc
  rcases List.mem_append.1 hc with hc | hc
  · exact hn (inAlphabet_chars ha b c hc)
  · exact he (List.eq_of_mem_replicate hc)

/-- A byte outside the alphabet makes the decoder fail. -/
theorem b64DecodeCore_refuses {b : Bytes} {c : Byte} (hc : c ∈ b) (hws : b64IsWs c = false) (he : c ≠ ch '=')
    (hn : ¬ InAlphabet alphabet c) (out : Strbuf) : (b64DecodeCore b out alphabet).1 ≠ 0 := by
  intro h
  obtain ⟨d, p, hd⟩ := (b64DecodeCore_ok_iff ha).1 h
  have hsig : c ∈ b64Sig b := List.mem_filter.2 ⟨hc, by rw [hws]; rfl⟩
  rw [hd.text] at hsig
  rcases List.mem_append.1 hsig with hsig | hsig
  · exact hn (hd.chars c hsig)
  · exact he (List.eq_of_mem_replicate hsig)

end Texts

/-! ## The last two characters -/

/-- No value of the code of `b` is 62 or 63. -/
def Shared (b : Bytes) : Prop := ∀ v ∈ sextets b, v.toNat < 62

theorem b64Char_shared : ∀ n < 62, b64Char b64UrlChars n = b64Char b64StdChars n := by decide +kernel

theorem b64Text_shared {b : Bytes} (h : Shared b) (withPadding : Bool) :
    b64Text b64UrlChars withPadding b = b64Text b64StdChars withPadding b := by
  have hchars : b64Chars b64UrlChars b = b64Chars b64StdChars b :=
    List.map_congr_left fun v hv => b64Char_shared v.toNat (h v hv)
  rw [b64Text, b64Text, hchars]

/-- The last two characters `c` and `d` of an alphabet stand in the texts of the bytes that need them. -/
theorem shared_iff {alphabet : Bytes} {c d : Byte} (hlast : ∀ n < 64, ¬ n < 62 → b64Char alphabet n = c ∨ b64Char alphabet n = d)
    (hother : ∀ n < 62, b64Char alphabet n ≠ c ∧ b64Char alphabet n ≠ d) (hc : c ≠ ch '=') (hd : d ≠ ch '=')
    (withPadding : Bool) (b : Bytes) :
    (c ∉ b64Text alphabet withPadding b ∧ d ∉ b64Text alphabet withPadding b) ↔ Shared b := by
  constructor
  · rintro ⟨h1, h2⟩ v hv
    by_contra hv62
    have hmem : b64Char alphabet v.toNat ∈ b64Text alphabet withPadding b :=
      List.mem_append_left _ (List.mem_map.2 ⟨v, hv, rfl⟩)
    rcases hlast v.toNat (sextets_lt b v hv) hv62 with h | h
    · exact h1 (h ▸ hmem)
    · exact h2 (h ▸ hmem)
  · intro h
    have hno : ∀ x, (∀ n < 62, b64Char alphabet n ≠ x) → x ≠ ch '=' → x ∉ b64Text alphabet withPadding b := by
      intro x hx he hm
      rcases List.mem_append.1 hm with hm | hm
      · obtain ⟨v, hv, rfl⟩ := List.mem_map.1 hm
        exact hx v.toNat (h v hv) rfl
      · exact he (List.eq_of_mem_replicate hm)
    exact ⟨hno c (fun n hn => (hother n hn).1) hc, hno d (fun n hn => (hother n hn).2) hd⟩

theorem shared_std_iff (withPadding : Bool) (b : Bytes) :
    (ch '+' ∉ b64Text b64StdChars withPadding b ∧ ch '/' ∉ b64Text b64StdChars withPadding b) ↔ Shared b :=
  shared_iff (by decide +kernel) (by decide +kernel) (by decide) (by decide) withPadding b

theorem shared_url_iff (withPadding : Bool) (b : Bytes) :
    (ch '-' ∉ b64Text b64UrlChars withPadding b ∧ ch '_' ∉ b64Text b64UrlChars withPadding b) ↔ Shared b :=
  shared_iff (by decide +kernel) (by decide +kernel) (by decide) (by decide) withPadding b

/-! ## The decoder of the other alphabet -/

theorem base64Decode_std (b : Bytes) : base64Decode (b64Text b64StdChars true b) .init = (0, Strbuf.init.push b) :=
  b64DecodeCore_text alphabet_std (b64Text_ws alphabet_std true b) .init

theorem base64DecodeUrl_url (b : Bytes) : base64DecodeUrl (b64Text b64UrlChars false b) .init = (0, Strbuf.init.push b) :=
  b64DecodeCore_text alphabet_url (b64Text_ws alphabet_url false b) .init

/-- The standard decoder reads a URL-safe text that needs neither `-` nor `_`, and refuses any other. -/
theorem base64Decode_url (b : Bytes) :
    (Shared b ∧ base64Decode (b64Text b64UrlChars false b) .init = (0, Strbuf.init.push b)) ∨
      (¬ Shared b ∧ (base64Decode (b64Text b64UrlChars false b) .init).1 ≠ 0) := by
  by_cases h : Shared b
  · refine .inl ⟨h, ?_⟩
    rw [b64Text_shared h]
    exact b64DecodeCore_text alphabet_std (b64Text_ws alphabet_std false b) .init
  · refine .inr ⟨h, ?_⟩
    rw [← shared_url_iff false, Classical.not_and_iff_not_or_not, not_not, not_not] at h
    rcases h with h | h
    · exact b64DecodeCore_refuses alphabet_std h (by decide) (by decide) (by decide +kernel) .init
    · exact b64DecodeCore_refuses alphabet_std h (by decide) (by decide) (by decide +kernel) .init

/-- The URL-safe decoder reads a standard text that needs neither `+` nor `/`, and refuses any other. -/
theorem base64DecodeUrl_std (b : Bytes) :
    (Shared b ∧ base64DecodeUrl (b64Text b64StdChars true b) .init = (0, Strbuf.init.push b)) ∨
      (¬ Shared b ∧ (base64DecodeUrl (b64Text b64StdChars true b) .init).1 ≠ 0) := by
  by_cases h : Shared b
  · refine .inl ⟨h, ?_⟩
    rw [← b64Text_shared h]
    exact b64DecodeCore_text alphabet_url (b64Text_ws alphabet_url true b) .init
  · refine .inr ⟨h, ?_⟩
    rw [← shared_std_iff true, Classical.not_and_iff_not_or_not, not_not, not_not] at h
    rcases h with h | h
    · exact b64DecodeCore_refuses alphabet_url h (by decide) (by decide) (by decide +kernel) .init
    · exact b64DecodeCore_refuses alphabet_url h (by decide) (by decide) (by decide +kernel) .init

/-! ## Delimiters -/

theorem delims_not_inAlphabet : ∀ c ∈ str "@?#:\n\r",
    (¬ InAlphabet b64StdChars c ∧ c ≠ ch '=') ∧ ¬ InAlphabet b64UrlChars c ∧ c ≠ ch '=' := by decide +kernel

/-- A base64 text has no delimiters and no line ends. -/
theorem text_plain (b : Bytes) : (∀ c ∈ str "@?#:\n\r", c ∉ (base64Encode b .init).bytes) ∧
    ∀ c ∈ str "@?#:\n\r", c ∉ (base64EncodeUrl b .init).bytes := by
  rw [base64Encode_bytes, base64EncodeUrl_bytes]
  refine ⟨fun c hc => ?_, fun c hc => ?_⟩
  · obtain ⟨⟨hn, he⟩, -⟩ := delims_not_inAlphabet c hc
    exact not_mem_b64Text alphabet_std hn he true b
  · obtain ⟨-, hn, he⟩ := delims_not_inAlphabet c hc
    exact not_mem_b64Text alphabet_url hn he false b

end SubConverter
