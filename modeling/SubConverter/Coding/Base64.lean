/-
What the base64 coder and decoder compute. The decoder skips white space, reads alphabet characters and
then `=`; it accepts whole groups, and shorter ends with exactly their padding or none. The test
whether a body looks like base64 only counts, and agrees with the decoder on all but two kinds of text.
-/
import SubConverter.Lib.Sextet
import SubConverter.Src.Base64

namespace SubConverter

open CMem Sextet

/-! ## Characters -/

/-- The bytes that are not white space. -/
def b64Sig (b : Bytes) : Bytes := b.filter fun c => !b64IsWs c

/-- The value of a character of the alphabet. -/
def b64Val (alphabet : Bytes) (c : Byte) : Byte := (b64CharVal alphabet c).getD 0

/-- A byte the decoder takes as a value. -/
def InAlphabet (alphabet : Bytes) (c : Byte) : Prop := b64CharVal alphabet c ≠ none

instance (alphabet : Bytes) : DecidablePred (InAlphabet alphabet) := fun c =>
  inferInstanceAs (Decidable (b64CharVal alphabet c ≠ none))

/-- What the coder and the decoder ask of an alphabet: neither white space nor `=` is in it, and its 64
characters have their indices as values. -/
structure Alphabet (alphabet : Bytes) : Prop where
  ws : ∀ c ∈ alphabet ++ [0], b64IsWs c = false
  eq : ch '=' ∉ alphabet ++ [0]
  val : ∀ n < 64, b64CharVal alphabet (b64Char alphabet n) = some (Nat.toUInt8 n)

theorem noWs_of_all {alphabet : Bytes} (h : (alphabet ++ [0]).all (fun c => !b64IsWs c) = true) :
    ∀ c ∈ alphabet ++ [0], b64IsWs c = false := by
  intro c hc
  simpa using List.all_eq_true.1 h c hc

theorem alphabet_std : Alphabet b64StdChars := ⟨noWs_of_all (by decide +kernel), by decide +kernel, by decide +kernel⟩

theorem alphabet_url : Alphabet b64UrlChars := ⟨noWs_of_all (by decide +kernel), by decide +kernel, by decide +kernel⟩

theorem inAlphabet_iff {alphabet : Bytes} {c : Byte} : InAlphabet alphabet c ↔ c ∈ alphabet ++ [0] := by
  rw [InAlphabet, b64CharVal, ne_eq, Option.map_eq_none_iff, List.idxOf?_eq_none_iff, not_not]

section Decoder

variable {alphabet : Bytes}

theorem InAlphabet.ws {c : Byte} (h : InAlphabet alphabet c) (ha : Alphabet alphabet) : b64IsWs c = false :=
  ha.ws c (inAlphabet_iff.1 h)

theorem InAlphabet.ne_eq {c : Byte} (h : InAlphabet alphabet c) (ha : Alphabet alphabet) : c ≠ ch '=' := by
  rintro rfl
  exact ha.eq (inAlphabet_iff.1 h)

theorem InAlphabet.charVal {c : Byte} (h : InAlphabet alphabet c) :
    b64CharVal alphabet c = some (b64Val alphabet c) := by
  obtain ⟨v, hv⟩ := Option.ne_none_iff_exists'.1 h
  rw [b64Val, hv, Option.getD_some]

/-! ## The decoder -/

/-- White space is skipped wherever it stands. -/
theorem b64DecodeLoop_sig : ∀ (b : Bytes) (quad : List Byte) (pad : Nat) (out : Strbuf),
    b64DecodeLoop alphabet b quad pad out = b64DecodeLoop alphabet (b64Sig b) quad pad out
  | [], _, _, _ => rfl
  | c :: b, quad, pad, out => by
    by_cases hws : b64IsWs c = true
    · rw [b64DecodeLoop, if_pos hws, b64DecodeLoop_sig b, b64Sig, b64Sig, List.filter_cons_of_neg (by simpa using hws)]
    · have hcons : b64Sig (c :: b) = c :: b64Sig b := List.filter_cons_of_pos (by simpa using hws)
      rw [hcons, b64DecodeLoop, b64DecodeLoop, if_neg hws, if_neg hws]
      -- both sides take the same branch on `c` and go on with the rest
      simp only [b64DecodeLoop_sig b]

/-- One character before any `=`. -/
theorem b64DecodeLoop_char (ha : Alphabet alphabet) {c : Byte} (hc : InAlphabet alphabet c) (r : Bytes) (quad : List Byte)
    (out : Strbuf) : b64DecodeLoop alphabet (c :: r) quad 0 out =
      match quad with
      | [q0, q1, q2] =>
        b64DecodeLoop alphabet r [] 0 (((out.appendChar ((q0 <<< 2) ||| (q1 >>> 4))).appendChar
          (((q1 &&& 0x0F) <<< 4) ||| (q2 >>> 2))).appendChar (((q2 &&& 0x03) <<< 6) ||| b64Val alphabet c))
      | _ => b64DecodeLoop alphabet r (quad ++ [b64Val alphabet c]) 0 out := by
  rw [b64DecodeLoop, if_neg (by simp [hc.ws ha]), if_neg (hc.ne_eq ha), hc.charVal]
  rfl

/-- The characters before the first `=`: complete groups are written, the others wait. -/
theorem b64DecodeLoop_chars (ha : Alphabet alphabet) : ∀ {d : Bytes}, (∀ c ∈ d, InAlphabet alphabet c) → ∀ (r : Bytes)
    (out : Strbuf), b64DecodeLoop alphabet (d ++ r) [] 0 out =
      b64DecodeLoop alphabet r (rest (d.map (b64Val alphabet))) 0 (out.push (octets (d.map (b64Val alphabet))))
  | p :: q :: s :: t :: d, h, r, out => by
    simp only [List.forall_mem_cons] at h
    obtain ⟨hp, hq, hs, ht, hd⟩ := h
    have ih := b64DecodeLoop_chars ha hd r
    simp only [List.cons_append, b64DecodeLoop_char ha hp, b64DecodeLoop_char ha hq, b64DecodeLoop_char ha hs,
      b64DecodeLoop_char ha ht, List.nil_append, ih, List.map_cons, rest, octets, Strbuf.push_cons]
  | [], _, _, _ => rfl
  | [p], h, r, out => by
    simp only [List.forall_mem_cons] at h
    rw [List.singleton_append, b64DecodeLoop_char ha h.1]
    rfl
  | [p, q], h, r, out => by
    simp only [List.forall_mem_cons] at h
    rw [List.cons_append, List.singleton_append, b64DecodeLoop_char ha h.1]
    simp only [List.nil_append]
    rw [b64DecodeLoop_char ha h.2.1]
    rfl
  | [p, q, s], h, r, out => by
    simp only [List.forall_mem_cons] at h
    rw [List.cons_append, List.cons_append, List.singleton_append, b64DecodeLoop_char ha h.1]
    simp only [List.nil_append]
    rw [b64DecodeLoop_char ha h.2.1]
    simp only [List.cons_append, List.nil_append]
    rw [b64DecodeLoop_char ha h.2.2.1]
    rfl

/-- After a `=` only the missing ones may follow. -/
theorem b64DecodeLoop_pad (quad : List Byte) (hq : quad.length = 2 ∨ quad.length = 3) (out : Strbuf) :
    ∀ {r : Bytes} {pad : Nat}, (∀ c ∈ r, b64IsWs c = false) → 0 < pad →
      ((b64DecodeLoop alphabet r quad pad out).1 = 0 ↔ (∀ c ∈ r, c = ch '=') ∧ quad.length + pad + r.length = 4) ∧
      ((b64DecodeLoop alphabet r quad pad out).1 = 0 → (b64DecodeLoop alphabet r quad pad out).2 = out.push (restOctets quad))
  | [], pad, _, hpad => by
    rcases quad with _ | ⟨a, _ | ⟨b, _ | ⟨c, _ | ⟨d, q⟩⟩⟩⟩
    · simp at hq
    · simp at hq
    · rw [b64DecodeLoop, b64DecodeEnd]
      by_cases h : pad ≠ 0 ∧ pad ≠ 2
      · rw [if_pos h]
        simp
        omega
      · rw [if_neg h]; simp [restOctets]; omega
    · rw [b64DecodeLoop, b64DecodeEnd]
      by_cases h : pad ≠ 0 ∧ pad ≠ 1
      · rw [if_pos h]
        simp
        omega
      · rw [if_neg h]; simp [restOctets]; omega
    · simp at hq
  | c :: r, pad, hws, hpad => by
    rw [List.forall_mem_cons] at hws
    rw [b64DecodeLoop, if_neg (by simp [hws.1])]
    by_cases hc : c = ch '='
    · rw [if_pos hc, if_neg (by omega)]
      by_cases hlen : quad.length + (pad + 1) > 4
      · rw [if_pos hlen]
        simp; omega
      · rw [if_neg hlen]
        have ih := b64DecodeLoop_pad quad hq out hws.2 (Nat.succ_pos pad)
        refine ⟨ih.1.trans ?_, ih.2⟩
        rw [List.forall_mem_cons, List.length_cons]
        constructor
        · rintro ⟨h1, h2⟩; exact ⟨⟨hc, h1⟩, by omega⟩
        · rintro ⟨⟨-, h1⟩, h2⟩; exact ⟨h1, by omega⟩
    · rw [if_neg hc]
      split
      · simp [hc]
      · rw [if_pos hpad]
        simp [hc]

/-- The number of `=` behind `n` characters: none, or those that complete the last group. -/
def Padded (n p : Nat) : Prop := n % 4 ≠ 1 ∧ (p = 0 ∨ (n % 4 ≠ 0 ∧ n % 4 + p = 4))

/-- What follows the last character. -/
theorem b64DecodeLoop_tail {quad : List Byte} (hq : quad.length < 4) {r : Bytes} (hws : ∀ c ∈ r, b64IsWs c = false)
    (hhead : ∀ c ∈ r.head?, ¬ InAlphabet alphabet c) (out : Strbuf) :
    ((b64DecodeLoop alphabet r quad 0 out).1 = 0 ↔ (∀ c ∈ r, c = ch '=') ∧ Padded quad.length r.length) ∧
      ((b64DecodeLoop alphabet r quad 0 out).1 = 0 →
        (b64DecodeLoop alphabet r quad 0 out).2 = out.push (restOctets quad)) := by
  rcases r with _ | ⟨c, r⟩
  · rw [b64DecodeLoop, Padded, Nat.mod_eq_of_lt hq]
    rcases quad with _ | ⟨q0, _ | ⟨q1, _ | ⟨q2, _ | ⟨q3, q⟩⟩⟩⟩
    · simp [b64DecodeEnd, restOctets]
    · simp [b64DecodeEnd]
    · simp [b64DecodeEnd, restOctets]
    · simp [b64DecodeEnd, restOctets]
    · simp only [List.length_cons] at hq
      omega
  · rw [List.forall_mem_cons] at hws
    rw [b64DecodeLoop, if_neg (by simp [hws.1])]
    by_cases hc : c = ch '='
    · rw [if_pos hc]
      by_cases hlen : quad.length < 2 ∨ quad.length > 3
      · rw [if_pos hlen, Padded]
        simp
        omega
      · rw [if_neg hlen, if_neg (by omega)]
        have hpad := @b64DecodeLoop_pad alphabet quad (by omega) out r 1 hws.2 Nat.one_pos
        refine ⟨hpad.1.trans ?_, hpad.2⟩
        rw [List.forall_mem_cons, List.length_cons, Padded]
        constructor
        · rintro ⟨h1, h2⟩
          exact ⟨⟨hc, h1⟩, by omega, by omega⟩
        · rintro ⟨⟨-, h1⟩, -, h2⟩
          exact ⟨h1, by omega⟩
    · have hnone : b64CharVal alphabet c = none := not_not.1 (hhead c rfl)
      rw [if_neg hc, hnone]
      simp [hc]

/-- The characters and the padding of a text that decodes. -/
structure Coded (alphabet b d : Bytes) (p : Nat) : Prop where
  text : b64Sig b = d ++ List.replicate p (ch '=')
  chars : ∀ c ∈ d, InAlphabet alphabet c
  padded : Padded d.length p

/-- The octets of alphabet characters. -/
def b64Octets (alphabet d : Bytes) : Bytes :=
  octets (d.map (b64Val alphabet)) ++ restOctets (rest (d.map (b64Val alphabet)))

theorem Strbuf.push_append (sb : Strbuf) (a b : Bytes) : sb.push (a ++ b) = (sb.push a).push b := List.foldl_append

theorem padded_mod {n p : Nat} : Padded (n % 4) p ↔ Padded n p := by
  rw [Padded, Padded, Nat.mod_mod]

theorem forall_eq_iff_replicate {α : Type} {a : α} {r : List α} : (∀ c ∈ r, c = a) ↔ r = List.replicate r.length a :=
  List.eq_replicate_length.symm

/-- The decoder on characters and what follows them. -/
theorem b64DecodeCore_split (ha : Alphabet alphabet) {b d r : Bytes} (hb : b64Sig b = d ++ r)
    (hd : ∀ c ∈ d, InAlphabet alphabet c) (hr : ∀ c ∈ r.head?, ¬ InAlphabet alphabet c) (out : Strbuf) :
    ((b64DecodeCore b out alphabet).1 = 0 ↔ (∀ c ∈ r, c = ch '=') ∧ Padded d.length r.length) ∧
      ((b64DecodeCore b out alphabet).1 = 0 → (b64DecodeCore b out alphabet).2 = out.push (b64Octets alphabet d)) := by
  have hws : ∀ c ∈ r, b64IsWs c = false := by
    intro c hc
    have : c ∈ b64Sig b := by rw [hb]; exact List.mem_append_right _ hc
    simpa using (List.mem_filter.1 this).2
  have hlen : (rest (d.map (b64Val alphabet))).length = d.length % 4 := by rw [length_rest, List.length_map]
  have htail := b64DecodeLoop_tail (by rw [hlen]; exact Nat.mod_lt _ (by decide)) hws hr (out.push (octets (d.map (b64Val alphabet))))
  rw [b64DecodeCore, b64DecodeLoop_sig, hb, b64DecodeLoop_chars ha hd]
  rw [hlen, padded_mod] at htail
  rw [b64Octets, Strbuf.push_append]
  exact htail

theorem b64DecodeCore_eq (ha : Alphabet alphabet) {b d : Bytes} {p : Nat} (h : Coded alphabet b d p) (out : Strbuf) :
    b64DecodeCore b out alphabet = (0, out.push (b64Octets alphabet d)) := by
  have hhead : ∀ c ∈ (List.replicate p (ch '=')).head?, ¬ InAlphabet alphabet c := by
    intro c hc
    rw [List.eq_of_mem_replicate (List.mem_of_head? hc), inAlphabet_iff]
    exact ha.eq
  have hs := b64DecodeCore_split ha h.text h.chars hhead out
  have hrc := hs.1.2 ⟨fun c hc => List.eq_of_mem_replicate hc, by rw [List.length_replicate]; exact h.padded⟩
  exact Prod.ext hrc (hs.2 hrc)

/-- The texts that decode. -/
theorem b64DecodeCore_ok_iff (ha : Alphabet alphabet) {b : Bytes} {out : Strbuf} :
    (b64DecodeCore b out alphabet).1 = 0 ↔ ∃ d p, Coded alphabet b d p := by
  constructor
  · intro h
    have hb : b64Sig b = (b64Sig b).takeWhile (fun c => decide (InAlphabet alphabet c)) ++
        (b64Sig b).dropWhile fun c => decide (InAlphabet alphabet c) := List.takeWhile_append_dropWhile.symm
    have hd : ∀ c ∈ (b64Sig b).takeWhile (fun c => decide (InAlphabet alphabet c)), InAlphabet alphabet c :=
      fun c hc => by simpa using List.mem_takeWhile_imp hc
    have hr : ∀ c ∈ ((b64Sig b).dropWhile fun c => decide (InAlphabet alphabet c)).head?, ¬ InAlphabet alphabet c := by
      intro c hc
      have := List.head?_dropWhile_not (fun c => decide (InAlphabet alphabet c)) (b64Sig b)
      rw [hc] at this
      simpa using this
    obtain ⟨heq, hpad⟩ := (b64DecodeCore_split ha hb hd hr out).1.1 h
    exact ⟨_, _, by rw [← forall_eq_iff_replicate.1 heq]; exact hb, hd, hpad⟩
  · rintro ⟨d, p, h⟩
    rw [b64DecodeCore_eq ha h]

end Decoder

/-! ## The coder -/

/-- The padding of the coder. -/
def padCount (b : Bytes) : Nat := (3 - b.length % 3) % 3

/-- The characters of some bytes. -/
def b64Chars (alphabet b : Bytes) : Bytes := (sextets b).map fun v => b64Char alphabet v.toNat

/-- What the coder writes. -/
def b64Text (alphabet : Bytes) (withPadding : Bool) (b : Bytes) : Bytes :=
  b64Chars alphabet b ++ List.replicate (if withPadding then padCount b else 0) (ch '=')

section Bits

variable (a b c : Byte)

theorem first_char : (((a.toUInt32 <<< 16 ||| b.toUInt32 <<< 8 ||| c.toUInt32) >>> 18) &&& 0x3F : UInt32) =
    (a >>> 2 : UInt8).toUInt32 := by
  apply UInt32.eq_of_toBitVec_eq
  ext i hi
  simp [-UInt8.toUInt32_shiftLeft]
  interval_cases i <;> simp

theorem second_char : (((a.toUInt32 <<< 16 ||| b.toUInt32 <<< 8 ||| c.toUInt32) >>> 12) &&& 0x3F : UInt32) =
    (((a &&& 3) <<< 4) ||| (b >>> 4) : UInt8).toUInt32 := by
  apply UInt32.eq_of_toBitVec_eq
  ext i hi
  simp [-UInt8.toUInt32_shiftLeft]
  interval_cases i <;> simp

theorem third_char : (((a.toUInt32 <<< 16 ||| b.toUInt32 <<< 8 ||| c.toUInt32) >>> 6) &&& 0x3F : UInt32) =
    (((b &&& 15) <<< 2) ||| (c >>> 6) : UInt8).toUInt32 := by
  apply UInt32.eq_of_toBitVec_eq
  ext i hi
  simp [-UInt8.toUInt32_shiftLeft]
  interval_cases i <;> simp

theorem fourth_char : ((a.toUInt32 <<< 16 ||| b.toUInt32 <<< 8 ||| c.toUInt32) &&& 0x3F : UInt32) =
    (c &&& 63 : UInt8).toUInt32 := by
  apply UInt32.eq_of_toBitVec_eq
  ext i hi
  simp [-UInt8.toUInt32_shiftLeft]
  interval_cases i <;> simp

theorem first_tail : ((a.toUInt32 >>> 2) &&& 0x3F : UInt32) = (a >>> 2 : UInt8).toUInt32 := by
  apply UInt32.eq_of_toBitVec_eq
  ext i hi
  simp [-UInt8.toUInt32_shiftLeft]
  interval_cases i <;> simp

theorem second_tail : (((a.toUInt32 &&& 0x03) <<< 4) ||| (b.toUInt32 >>> 4) : UInt32) =
    (((a &&& 3) <<< 4) ||| (b >>> 4) : UInt8).toUInt32 := by
  apply UInt32.eq_of_toBitVec_eq
  ext i hi
  simp [-UInt8.toUInt32_shiftLeft]
  interval_cases i <;> simp

theorem last_of_one : ((a.toUInt32 &&& 0x03) <<< 4 : UInt32) = ((a &&& 3) <<< 4 : UInt8).toUInt32 := by
  apply UInt32.eq_of_toBitVec_eq
  ext i hi
  simp [-UInt8.toUInt32_shiftLeft]
  interval_cases i <;> simp

theorem last_of_two : ((b.toUInt32 &&& 0x0F) <<< 2 : UInt32) = ((b &&& 15) <<< 2 : UInt8).toUInt32 := by
  apply UInt32.eq_of_toBitVec_eq
  ext i hi
  simp [-UInt8.toUInt32_shiftLeft]
  interval_cases i <;> simp

end Bits

theorem padCount_cons (a b c : Byte) (r : Bytes) : padCount (a :: b :: c :: r) = padCount r := by
  simp only [padCount, List.length_cons, show r.length + 1 + 1 + 1 = r.length + 3 by omega, Nat.add_mod_right]

/-- The coder writes its groups one after the other. -/
theorem b64EncodeLoop_eq (alphabet : Bytes) (withPadding : Bool) : ∀ (b : Bytes) (out : Strbuf),
    b64EncodeLoop alphabet withPadding b out = out.push (b64Text alphabet withPadding b)
  | a :: b :: c :: r, out => by
    have ih := b64EncodeLoop_eq alphabet withPadding r
    rw [b64Text, b64Chars] at ih
    rw [b64EncodeLoop, b64Text, b64Chars, padCount_cons]
    simp only [first_char, second_char, third_char, fourth_char, UInt8.toNat_toUInt32, ih, sextets, List.map_cons,
      List.cons_append, Strbuf.push_cons]
  | [a], out => by
    rw [b64EncodeLoop, b64Text, b64Chars, first_tail, last_of_one]
    cases withPadding
    · rfl
    · simp only [↓reduceIte, UInt8.toNat_toUInt32, Strbuf.appendStr]
      rw [← Strbuf.push_eq _ (by decide)]
      rfl
  | [a, b], out => by
    rw [b64EncodeLoop, b64Text, b64Chars, first_tail, second_tail, last_of_two]
    cases withPadding <;> rfl
  | [], out => by cases withPadding <;> rfl

theorem b64Text_nil (alphabet : Bytes) (withPadding : Bool) : b64Text alphabet withPadding [] = [] := by
  cases withPadding <;> rfl

theorem b64EncodeCore_bytes (alphabet : Bytes) (withPadding : Bool) (b : Bytes) :
    (b64EncodeCore b .init alphabet withPadding).bytes = b64Text alphabet withPadding b := by
  rw [b64EncodeCore]
  split
  · rename_i h
    rw [h, b64Text_nil]; rfl
  · rw [b64EncodeLoop_eq, Strbuf.bytes_push, Strbuf.bytes_init, List.nil_append]

theorem base64Encode_bytes (b : Bytes) : (base64Encode b .init).bytes = b64Text b64StdChars true b :=
  b64EncodeCore_bytes _ _ _

theorem base64EncodeUrl_bytes (b : Bytes) : (base64EncodeUrl b .init).bytes = b64Text b64UrlChars false b :=
  b64EncodeCore_bytes _ _ _

/-! ## Decoding what was coded -/

section RoundTrip

variable {alphabet : Bytes} (ha : Alphabet alphabet)
include ha

theorem b64Val_char {n : Nat} (h : n < 64) : b64Val alphabet (b64Char alphabet n) = Nat.toUInt8 n := by
  rw [b64Val, ha.val n h, Option.getD_some]

theorem map_b64Val (b : Bytes) : (b64Chars alphabet b).map (b64Val alphabet) = sextets b := by
  rw [b64Chars, List.map_map]
  refine (List.map_congr_left fun v hv => ?_).trans (List.map_id _)
  rw [Function.comp_apply, b64Val_char ha (sextets_lt b v hv)]
  exact UInt8.ofNat_toNat

theorem inAlphabet_chars (b : Bytes) : ∀ c ∈ b64Chars alphabet b, InAlphabet alphabet c := by
  intro c hc
  obtain ⟨v, hv, rfl⟩ := List.mem_map.1 hc
  rw [InAlphabet, ha.val _ (sextets_lt b v hv)]
  exact Option.some_ne_none _

theorem b64Octets_chars (b : Bytes) : b64Octets alphabet (b64Chars alphabet b) = b := by
  rw [b64Octets, map_b64Val ha]
  exact octets_sextets b

/-- A text with white space in it is that of some bytes when its other characters are. -/
theorem coded_text {withPadding : Bool} {t b : Bytes} (h : b64Sig t = b64Text alphabet withPadding b) :
    Coded alphabet t (b64Chars alphabet b) (if withPadding then padCount b else 0) := by
  refine ⟨h, inAlphabet_chars ha b, ?_⟩
  have hmod : b.length % 3 = 0 ∨ b.length % 3 = 1 ∨ b.length % 3 = 2 := by omega
  rw [Padded, b64Chars, List.length_map, length_sextets, padCount]
  rcases hmod with hm | hm | hm
  · rw [hm]; split <;> omega
  · rw [hm]; split <;> omega
  · rw [hm]; split <;> omega

theorem b64DecodeCore_text {withPadding : Bool} {t b : Bytes} (h : b64Sig t = b64Text alphabet withPadding b)
    (out : Strbuf) : b64DecodeCore t out alphabet = (0, out.push b) := by
  rw [b64DecodeCore_eq ha (coded_text ha h), b64Octets_chars ha]

end RoundTrip

end SubConverter
