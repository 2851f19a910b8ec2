/-
The texts the base64 decoders take: characters of the alphabet and the padding of the last group or none,
with white space anywhere. The decoders also take a NUL for a character, since `strchr` finds the end of
the alphabet.
-/
import SubConverter.Coding.Base64

namespace SubConverter

open CMem Sextet

/-! ## Texts -/

/-- The characters `d` and `p` times `=`, with white space anywhere. -/
structure IsText (alphabet b d : Bytes) (p : Nat) : Prop where
  text : b64Sig b = d ++ List.replicate p (ch '=')
  chars : ∀ c ∈ d, c ∈ alphabet
  padded : d.length % 4 ≠ 1 ∧ (p = 0 ∨ (d.length % 4 = 2 ∧ p = 2) ∨ (d.length % 4 = 3 ∧ p = 1))

/-- The octets of the six-bit values of some characters, as many as are complete. -/
def textOctets (alphabet d : Bytes) : Bytes := bitOctets ((d.map alphabet.idxOf).flatMap (bits 6))

example : textOctets b64StdChars (str "YWJjZA") = str "abcd" := by decide +kernel

/-- On this input the decoder takes the texts of its alphabet only, and appends their octets. -/
structure DecodesTexts (decode : Bytes → Strbuf → Int × Strbuf) (alphabet b : Bytes) (out : Strbuf) : Prop where
  accepts : (decode b out).1 = 0 ↔ ∃ d p, IsText alphabet b d p
  values : ∀ d p, IsText alphabet b d p → ∀ c ∈ d, alphabet.idxOf c < 64
  octets : ∀ d p, IsText alphabet b d p → (decode b out).2.bytes = out.bytes ++ textOctets alphabet d

/-- The input with a letter for every NUL. -/
def nulAsLetter (b : Bytes) : Bytes := b.map fun c => if c = 0 then ch 'A' else c

/-- A NUL stands where a letter would make a text. -/
def NulInText (alphabet b : Bytes) : Prop := 0 ∈ b ∧ ∃ d p, IsText alphabet (nulAsLetter b) d p

/-! ## A NUL for a letter -/

theorem padded_iff {n p : Nat} :
    Padded n p ↔ n % 4 ≠ 1 ∧ (p = 0 ∨ (n % 4 = 2 ∧ p = 2) ∨ (n % 4 = 3 ∧ p = 1)) := by
  unfold Padded
  omega

theorem b64IsWs_nulAsLetter (c : Byte) : b64IsWs (if c = 0 then ch 'A' else c) = b64IsWs c := by
  split
  · rename_i h
    rw [h]
    decide
  · rfl

theorem b64Sig_nulAsLetter (b : Bytes) : b64Sig (nulAsLetter b) = nulAsLetter (b64Sig b) := by
  simp only [b64Sig, nulAsLetter, List.filter_map]
  congr 1
  refine List.filter_congr fun c _ => ?_
  rw [Function.comp_apply, b64IsWs_nulAsLetter]

theorem nulAsLetter_replicate (p : Nat) : nulAsLetter (List.replicate p (ch '=')) = List.replicate p (ch '=') := by
  rw [nulAsLetter, List.map_replicate, if_neg (by decide)]

theorem zero_mem_b64Sig {b : Bytes} : 0 ∈ b64Sig b ↔ 0 ∈ b := by
  rw [b64Sig, List.mem_filter]
  exact and_iff_left (by decide)

section Texts

variable {alphabet : Bytes} (ha : Alphabet alphabet)

theorem IsText.coded {b d : Bytes} {p : Nat} (h : IsText alphabet b d p) : Coded alphabet b d p where
  text := h.text
  chars := fun c hc => inAlphabet_iff.2 (List.mem_append_left _ (h.chars c hc))
  padded := padded_iff.2 h.padded

theorem Coded.isText {b d : Bytes} {p : Nat} (h : Coded alphabet b d p) (h0 : 0 ∉ b) : IsText alphabet b d p where
  text := h.text
  chars := by
    intro c hc
    rcases List.mem_append.1 (inAlphabet_iff.1 (h.chars c hc)) with hm | hm
    · exact hm
    · -- the end of the alphabet would be a NUL of the input
      rw [List.mem_singleton] at hm
      subst hm
      exact absurd (zero_mem_b64Sig.1 (by rw [h.text]; exact List.mem_append_left _ hc)) h0
  padded := padded_iff.1 h.padded

theorem Coded.withLetters {b d : Bytes} {p : Nat} (hA : ch 'A' ∈ alphabet) (h : Coded alphabet b d p) :
    IsText alphabet (nulAsLetter b) (nulAsLetter d) p where
  text := by
    rw [b64Sig_nulAsLetter, h.text, nulAsLetter, List.map_append, ← nulAsLetter, ← nulAsLetter, nulAsLetter_replicate]
  chars := by
    intro c hc
    obtain ⟨a, ha, rfl⟩ := List.mem_map.1 hc
    split
    · exact hA
    · rename_i hne
      rcases List.mem_append.1 (inAlphabet_iff.1 (h.chars a ha)) with hm | hm
      · exact hm
      · exact absurd (List.mem_singleton.1 hm) hne
  padded := by
    rw [nulAsLetter, List.length_map]
    exact padded_iff.1 h.padded

/-- Only `=` is written as `=`. -/
theorem nulAsLetter_eq_replicate {y : Bytes} {p : Nat} (h : nulAsLetter y = List.replicate p (ch '=')) :
    y = List.replicate p (ch '=') := by
  rw [List.eq_replicate_iff]
  refine ⟨by simpa [nulAsLetter] using congrArg List.length h, fun c hc => ?_⟩
  have hmem : (if c = 0 then ch 'A' else c) ∈ List.replicate p (ch '=') := by
    rw [← h]
    exact List.mem_map.2 ⟨c, hc, rfl⟩
  have he := List.eq_of_mem_replicate hmem
  split at he
  · exact absurd he (by decide)
  · exact he

theorem IsText.coded_nul {b d : Bytes} {p : Nat} (h : IsText alphabet (nulAsLetter b) d p) :
    ∃ x, Coded alphabet b x p := by
  obtain ⟨htext, hchars, hpad⟩ := h
  rw [b64Sig_nulAsLetter] at htext
  obtain ⟨x, y, hsig, rfl, hy⟩ := List.map_eq_append_iff.1 htext
  refine ⟨x, ?_, ?_, ?_⟩
  · rw [hsig, nulAsLetter_eq_replicate hy]
  · intro c hc
    rw [inAlphabet_iff, List.mem_append, List.mem_singleton]
    have hm := hchars _ (List.mem_map.2 ⟨c, hc, rfl⟩)
    split at hm
    · rename_i h0
      exact .inr h0
    · exact .inl hm
  · rw [List.length_map] at hpad
    exact padded_iff.2 hpad

/-- The decoder's texts are those with letters for the NULs. -/
theorem coded_iff_nulAsLetter (hA : ch 'A' ∈ alphabet) {b : Bytes} :
    (∃ d p, Coded alphabet b d p) ↔ ∃ d p, IsText alphabet (nulAsLetter b) d p := by
  constructor
  · rintro ⟨d, p, h⟩
    exact ⟨_, p, h.withLetters hA⟩
  · rintro ⟨d, p, h⟩
    obtain ⟨x, hx⟩ := h.coded_nul
    exact ⟨x, p, hx⟩

include ha

theorem b64Val_idxOf (hlen : alphabet.length = 64) {c : Byte} (hc : c ∈ alphabet) :
    alphabet.idxOf c < 64 ∧ (b64Val alphabet c).toNat = alphabet.idxOf c := by
  have hidx : alphabet.idxOf c < alphabet.length := List.idxOf_lt_length_of_mem hc
  have hlt : alphabet.idxOf c < 64 := hlen ▸ hidx
  have hchar : b64Char alphabet (alphabet.idxOf c) = c := by
    rw [b64Char, List.getD_eq_getElem _ _ hidx, List.getElem_idxOf]
  have hval := ha.val _ hlt
  rw [hchar] at hval
  rw [b64Val, hval, Option.getD_some, Nat.toUInt8, UInt8.toNat_ofNat', Nat.mod_eq_of_lt (by omega)]
  exact ⟨hlt, rfl⟩

theorem b64Octets_eq (hlen : alphabet.length = 64) {d : Bytes} (hd : ∀ c ∈ d, c ∈ alphabet) :
    b64Octets alphabet d = textOctets alphabet d := by
  rw [b64Octets, octets_bits, textOctets, ← List.flatMap_map, List.map_map]
  · have hmap : d.map (UInt8.toNat ∘ b64Val alphabet) = d.map alphabet.idxOf :=
      List.map_congr_left fun c hc => (b64Val_idxOf ha hlen (hd c hc)).2
    rw [hmap]
  · intro v hv
    obtain ⟨c, hc, rfl⟩ := List.mem_map.1 hv
    obtain ⟨hlt, hval⟩ := b64Val_idxOf ha hlen (hd c hc)
    omega

/-- A decoder takes exactly the texts of its alphabet, unless a NUL stands for a letter. -/
theorem decodesTexts_iff (hA : ch 'A' ∈ alphabet) (hnul : 0 ∉ alphabet) (hlen : alphabet.length = 64) (b : Bytes)
    (out : Strbuf) : DecodesTexts (fun b out => b64DecodeCore b out alphabet) alphabet b out ↔ ¬ NulInText alphabet b := by
  constructor
  · -- what the decoder takes has a NUL, and no text has one
    rintro h ⟨h0, hletter⟩
    obtain ⟨d, p, ht⟩ := h.accepts.1 ((b64DecodeCore_ok_iff ha).2 ((coded_iff_nulAsLetter hA).2 hletter))
    have hmem := zero_mem_b64Sig.2 h0
    rw [ht.text] at hmem
    rcases List.mem_append.1 hmem with hm | hm
    · exact hnul (ht.chars 0 hm)
    · exact absurd (List.eq_of_mem_replicate hm) (by decide)
  · intro h
    refine ⟨(b64DecodeCore_ok_iff ha).trans ?_, fun d p ht c hc => ?_, fun d p ht => ?_⟩
    · constructor
      · rintro ⟨d, p, hc⟩
        by_cases h0 : 0 ∈ b
        · exact absurd ⟨h0, (coded_iff_nulAsLetter hA).1 ⟨d, p, hc⟩⟩ h
        · exact ⟨d, p, hc.isText h0⟩
      · rintro ⟨d, p, ht⟩
        exact ⟨d, p, ht.coded⟩
    · exact (b64Val_idxOf ha hlen (ht.chars c hc)).1
    · rw [b64DecodeCore_eq ha ht.coded, Strbuf.bytes_push, b64Octets_eq ha hlen ht.chars]

end Texts

/-- `base64_decode` and `base64_decode_url` take exactly the texts of their alphabets and decode them, except
for inputs that are texts with a NUL in the place of a letter. -/
theorem base64Decode_language_iff (b : Bytes) (out : Strbuf) :
    (DecodesTexts base64Decode b64StdChars b out ↔ ¬ NulInText b64StdChars b) ∧
      (DecodesTexts base64DecodeUrl b64UrlChars b out ↔ ¬ NulInText b64UrlChars b) := by
  constructor
  · exact decodesTexts_iff alphabet_std (by decide +kernel) (by decide +kernel) (by decide +kernel) b out
  · exact decodesTexts_iff alphabet_url (by decide +kernel) (by decide +kernel) (by decide +kernel) b out

/-- A NUL among the characters decodes. -/
theorem base64Decode_nul : ¬ DecodesTexts base64Decode b64StdChars [ch 'Y', ch 'W', 0, ch 'j'] .init ∧
    ¬ DecodesTexts base64DecodeUrl b64UrlChars [ch 'Y', ch 'W', 0, ch 'j'] .init := by
  have hno : ∀ alphabet : Bytes, 0 ∉ alphabet → ∀ d p, ¬ IsText alphabet [ch 'Y', ch 'W', 0, ch 'j'] d p := by
    intro alphabet hnul d p h
    have hmem : 0 ∈ d ++ List.replicate p (ch '=') := by
      rw [← h.text]
      decide
    rcases List.mem_append.1 hmem with hm | hm
    · exact hnul (h.chars 0 hm)
    · exact absurd (List.eq_of_mem_replicate hm) (by decide)
  constructor
  · intro h
    obtain ⟨d, p, ht⟩ := h.accepts.1 (by decide +kernel)
    exact hno _ (by decide +kernel) d p ht
  · intro h
    obtain ⟨d, p, ht⟩ := h.accepts.1 (by decide +kernel)
    exact hno _ (by decide +kernel) d p ht

end SubConverter
