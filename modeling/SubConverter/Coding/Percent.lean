/-
Percent coding: `url_decode` undoes `url_encode`, and an encoded text holds none of the delimiters of
a link. What `url_decode` takes at all is a grammar of literal bytes and complete escapes.
-/
import SubConverter.Src.Util

namespace SubConverter

open CMem

/-- What `url_encode` writes for a byte. -/
def percentByte (c : Byte) : Bytes := if isUnreserved c then [c] else [ch '%', hexDig (c >>> 4), hexDig (c &&& 15)]

/-- What `url_encode` writes. -/
def percentText (b : Bytes) : Bytes := b.flatMap percentByte

theorem percentText_cons (c : Byte) (b : Bytes) : percentText (c :: b) = percentByte c ++ percentText b := rfl

theorem urlEncode_eq : ∀ (b : Bytes) (out : Strbuf), urlEncode b out = out.push (percentText b)
  | [], _ => rfl
  | c :: b, out => by
    rw [urlEncode, percentText_cons, percentByte]
    split
    · rw [urlEncode_eq b]; rfl
    · rw [urlEncode_eq b]; rfl

/-! ## Bytes -/

/-- The two digits of a byte give it back. -/
theorem hexVal_hexDig (c : Byte) :
    hexVal (hexDig (c >>> 4)) = some (c >>> 4) ∧ hexVal (hexDig (c &&& 15)) = some (c &&& 15) ∧
      ((c >>> 4) <<< 4) ||| (c &&& 15) = c := by
  revert c
  decide +kernel

theorem unreserved_ne_percent {c : Byte} (h : isUnreserved c = true) : c ≠ ch '%' := by
  rintro rfl
  revert h
  decide

theorem hexDig_unreserved (c : Byte) : isUnreserved (hexDig (c >>> 4)) = true ∧
    isUnreserved (hexDig (c &&& 15)) = true := by
  revert c
  decide +kernel

/-! ## Texts -/

theorem urlText_percentByte (c : Byte) (r : Bytes) :
    urlText (percentByte c ++ r) = (c :: (urlText r).1, (urlText r).2) := by
  unfold percentByte
  split
  · rename_i h
    exact urlText_cons (unreserved_ne_percent h)
  · obtain ⟨hhi, hlo, hc⟩ := hexVal_hexDig c
    rw [urlText.eq_def]
    simp only [List.cons_append, List.nil_append, if_true, hhi, hlo, hc]

/-- `url_decode` gives back what `url_encode` was given. -/
theorem urlText_percentText : ∀ (b : Bytes), urlText (percentText b) = (b, true)
  | [] => rfl
  | c :: b => by rw [percentText_cons, urlText_percentByte, urlText_percentText b]

theorem urlRc_percentText (b : Bytes) : urlRc (percentText b) = 0 := by
  rw [urlRc, urlText_percentText]
  rfl

theorem percentText_eq_nil {b : Bytes} : percentText b = [] ↔ b = [] := by
  constructor
  · intro h
    have := urlText_percentText b
    rw [h] at this
    exact (congrArg Prod.fst this).symm
  · rintro rfl; rfl

/-- The characters of encoded texts. -/
def isCodeChar (c : Byte) : Bool := isUnreserved c || c == ch '%'

theorem mem_percentText {b : Bytes} {d : Byte} (h : d ∈ percentText b) : isCodeChar d = true := by
  rw [isCodeChar, Bool.or_eq_true, beq_iff_eq]
  obtain ⟨c, -, hd⟩ := List.mem_flatMap.1 h
  unfold percentByte at hd
  split at hd
  · rename_i hc
    rw [List.mem_singleton.1 hd]
    exact .inl hc
  · obtain ⟨h1, h2⟩ := hexDig_unreserved c
    simp only [List.mem_cons, List.not_mem_nil, or_false] at hd
    rcases hd with rfl | rfl | rfl
    · exact .inr rfl
    · exact .inl h1
    · exact .inl h2

/-- Every other character is missing from an encoded text. -/
theorem not_mem_percentText {d : Byte} (hd : isCodeChar d = false) (b : Bytes) : d ∉ percentText b := by
  intro h
  rw [mem_percentText h] at hd
  cases hd

theorem length_percentText : ∀ (b : Bytes), b.length ≤ (percentText b).length
  | [] => le_rfl
  | c :: b => by
    have := length_percentText b
    rw [percentText_cons, percentByte]
    split <;> simp <;> omega

/-- A text is its own code exactly when all its characters are unreserved. -/
theorem percentText_eq_self_iff {b : Bytes} : percentText b = b ↔ b.all isUnreserved = true := by
  induction b with
  | nil => simp [percentText]
  | cons c b ih =>
    rw [percentText_cons, percentByte, List.all_cons, Bool.and_eq_true]
    split
    · rename_i hc
      simp only [List.singleton_append, List.cons.injEq, true_and, ih, hc]
    · rename_i hc
      -- the code of a reserved character is longer
      refine iff_of_false (fun h => ?_) fun h => hc h.1
      have hlen := congrArg List.length h
      have := length_percentText b
      simp at hlen
      omega

/-! ## The grammar of escapes -/

/-- A hexadecimal digit of either case, with its value. -/
def HexDigit (c : Byte) (v : Nat) : Prop :=
  (str "0123456789abcdef")[v]? = some c ∨ (str "0123456789ABCDEF")[v]? = some c

instance (c : Byte) (v : Nat) : Decidable (HexDigit c v) := inferInstanceAs (Decidable (_ ∨ _))

/-- The first text is literal bytes and complete escapes; the second one is the bytes they stand for. -/
inductive Decoded : Bytes → Bytes → Prop
  | nil : Decoded [] []
  | literal {c : Byte} {y d : Bytes} : c ≠ ch '%' → Decoded y d → Decoded (c :: y) (c :: d)
  | escape {h l : Byte} {hi lo : Nat} {y d : Bytes} : HexDigit h hi → HexDigit l lo → Decoded y d →
      Decoded (ch '%' :: h :: l :: y) ((16 * hi + lo).toUInt8 :: d)

/-- Letters, digits and `-_.~`, and escapes with upper-case digits. -/
inductive PercentCoded : Bytes → Prop
  | nil : PercentCoded []
  | plain {c : Byte} {s : Bytes} :
      c ∈ str "ABCDEFGHIJKLMNOPQRSTUVWXYZabcdefghijklmnopqrstuvwxyz0123456789-_.~" → PercentCoded s → PercentCoded (c :: s)
  | escape {h l : Byte} {s : Bytes} : h ∈ str "0123456789ABCDEF" → l ∈ str "0123456789ABCDEF" → PercentCoded s →
      PercentCoded (ch '%' :: h :: l :: s)

theorem HexDigit.lt {c : Byte} {v : Nat} (h : HexDigit c v) : v < 16 := by
  rcases h with h | h
  · exact (List.getElem?_eq_some_iff.1 h).1
  · exact (List.getElem?_eq_some_iff.1 h).1

theorem str_hexDigits :
    str "0123456789abcdef" = [48, 49, 50, 51, 52, 53, 54, 55, 56, 57, 97, 98, 99, 100, 101, 102] ∧
      str "0123456789ABCDEF" = [48, 49, 50, 51, 52, 53, 54, 55, 56, 57, 65, 66, 67, 68, 69, 70] := by
  decide +kernel

theorem hexVal_digit {c : Byte} {v : Nat} (h : HexDigit c v) : hexVal c = some v.toUInt8 := by
  have hlower : ∀ v < 16, ∀ c ∈ (str "0123456789abcdef")[v]?, hexVal c = some v.toUInt8 := by
    rw [str_hexDigits.1]
    decide +kernel
  have hupper : ∀ v < 16, ∀ c ∈ (str "0123456789ABCDEF")[v]?, hexVal c = some v.toUInt8 := by
    rw [str_hexDigits.2]
    decide +kernel
  rcases h with h | h
  · exact hlower v (HexDigit.lt (.inl h)) c h
  · exact hupper v (HexDigit.lt (.inr h)) c h

theorem digit_of_hexVal (c : Byte) : hexVal c ≠ none → c ∈ str "0123456789abcdef" ∨ c ∈ str "0123456789ABCDEF" := by
  revert c
  rw [str_hexDigits.1, str_hexDigits.2]
  decide +kernel

/-- `hex_val` finds the value of a digit, and nothing else has one. -/
theorem hexVal_spec (c : Byte) : (∀ b, hexVal c = some b → HexDigit c b.toNat) ∧
    ∀ v, HexDigit c v → hexVal c = some v.toUInt8 := by
  refine ⟨fun b hb => ?_, fun v hv => hexVal_digit hv⟩
  obtain ⟨v, hv⟩ : ∃ v, HexDigit c v := by
    rcases digit_of_hexVal c (by simp [hb]) with hm | hm
    · obtain ⟨v, hv⟩ := List.mem_iff_getElem?.1 hm
      exact ⟨v, .inl hv⟩
    · obtain ⟨v, hv⟩ := List.mem_iff_getElem?.1 hm
      exact ⟨v, .inr hv⟩
  have hlt := hv.lt
  have hval := hexVal_digit hv
  rw [hb, Option.some_inj] at hval
  rwa [hval, Nat.toUInt8, UInt8.toNat_ofNat', Nat.mod_eq_of_lt (by omega)]

theorem escape_byte : ∀ hi < (16 : Nat), ∀ lo < (16 : Nat), (hi.toUInt8 <<< 4) ||| lo.toUInt8 = (16 * hi + lo).toUInt8 := by
  decide +kernel

/-- What `url_decode` writes for a text of the grammar. -/
theorem Decoded.urlText {y d : Bytes} (h : Decoded y d) : urlText y = (d, true) := by
  induction h with
  | nil => rfl
  | literal hc h ih => rw [urlText_cons hc, ih]
  | escape hh hl h ih =>
    rw [urlText.eq_def]
    simp only [if_true, (hexVal_spec _).2 _ hh, (hexVal_spec _).2 _ hl, ih, escape_byte _ hh.lt _ hl.lt]

/-- The texts `url_decode` takes are those of the grammar. -/
theorem urlRc_iff (y : Bytes) : urlRc y = 0 ↔ ∃ d, Decoded y d := by
  constructor
  · intro h
    have hend : (SubConverter.urlText y).2 = true := by
      by_contra hno
      rw [urlRc, if_neg hno] at h
      cases h
    clear h
    fun_induction SubConverter.urlText y with
    | case1 => exact ⟨[], .nil⟩
    | case2 h l r' hi lo hlo hhi ih =>
      obtain ⟨d, hd⟩ := ih hend
      exact ⟨_, .escape ((hexVal_spec h).1 _ hhi) ((hexVal_spec l).1 _ hlo) hd⟩
    | case3 h l r' hno => cases hend
    | case4 r hr => cases hend
    | case5 c r hc ih =>
      obtain ⟨d, hd⟩ := ih hend
      exact ⟨_, .literal hc hd⟩
  · rintro ⟨d, hd⟩
    rw [urlRc, hd.urlText]
    rfl

theorem mem_unreserved (c : Byte) : isUnreserved c = true →
    c ∈ str "ABCDEFGHIJKLMNOPQRSTUVWXYZabcdefghijklmnopqrstuvwxyz0123456789-_.~" := by
  revert c
  decide +kernel

theorem hexDig_mem (c : Byte) : hexDig (c >>> 4) ∈ str "0123456789ABCDEF" ∧ hexDig (c &&& 15) ∈ str "0123456789ABCDEF" := by
  have hdig : ∀ d : Byte, d.toNat < 16 → hexDig d ∈ str "0123456789ABCDEF" := by
    intro d hd
    have hlt : d.toNat < (str "0123456789ABCDEF").length := by
      rw [str_hexDigits.2]
      exact hd
    rw [hexDig, List.getD_eq_getElem _ _ hlt]
    exact List.getElem_mem hlt
  have hnibble : (c >>> 4).toNat < 16 ∧ (c &&& 15).toNat < 16 := by
    revert c
    decide +kernel
  exact ⟨hdig _ hnibble.1, hdig _ hnibble.2⟩

theorem percentCoded_text : ∀ (x : Bytes), PercentCoded (percentText x)
  | [] => .nil
  | c :: x => by
    rw [percentText_cons, percentByte]
    split
    · rename_i hc
      exact .plain (mem_unreserved c hc) (percentCoded_text x)
    · exact .escape (hexDig_mem c).1 (hexDig_mem c).2 (percentCoded_text x)

/-- `url_encode` writes unreserved characters and upper-case escapes, and `url_decode` gives back what it was
given. `url_decode` succeeds exactly on literal bytes and complete escapes, writes what they stand for, and
does not depend on what lies behind its input. -/
theorem urlCoding_spec (x y : Bytes) (out : Strbuf) :
    PercentCoded (urlEncode x .init).bytes ∧
      (∃ o, (∀ t, urlDecode ((urlEncode x .init).bytes ++ t) (urlEncode x .init).bytes.length out = .ok (0, o)) ∧
        o.bytes = out.bytes ++ x) ∧
      ∃ rc o, (∀ t, urlDecode (y ++ t) y.length out = .ok (rc, o)) ∧ (rc = 0 ↔ ∃ d, Decoded y d) ∧
        ∀ d, Decoded y d → o.bytes = out.bytes ++ d := by
  have henc : (urlEncode x .init).bytes = percentText x := by
    rw [urlEncode_eq, Strbuf.bytes_push]
    rfl
  rw [henc]
  refine ⟨percentCoded_text x, ⟨out.push x, fun t => ?_, Strbuf.bytes_push out x⟩, urlRc y, out.push (urlText y).1,
    fun t => urlDecode_eq y t out, urlRc_iff y, fun d hd => ?_⟩
  · rw [urlDecode_eq, urlRc_percentText, urlText_percentText]
  · rw [hd.urlText, Strbuf.bytes_push]

/-! ## Parts of a text -/

/-- Valid escapes in front do not change what follows. -/
theorem Decoded.append {x d : Bytes} (h : Decoded x d) (y : Bytes) :
    SubConverter.urlText (x ++ y) = (d ++ (SubConverter.urlText y).1, (SubConverter.urlText y).2) := by
  induction h with
  | nil => rfl
  | literal hc h ih => rw [List.cons_append, urlText_cons hc, ih, List.cons_append]
  | escape hh hl h ih =>
    rw [List.cons_append, List.cons_append, List.cons_append, urlText.eq_def]
    simp only [if_true, (hexVal_spec _).2 _ hh, (hexVal_spec _).2 _ hl, ih, escape_byte _ hh.lt _ hl.lt]
    rfl

theorem urlText_append {x : Bytes} (h : urlRc x = 0) (y : Bytes) :
    urlText (x ++ y) = ((urlText x).1 ++ (urlText y).1, (urlText y).2) := by
  obtain ⟨d, hd⟩ := (urlRc_iff x).1 h
  rw [hd.append, hd.urlText]

/-- No escape reaches over a byte that is neither a digit nor `%`. -/
theorem Decoded.before {c : Byte} (hc : ∀ v, ¬ HexDigit c v) : ∀ {x y d : Bytes}, Decoded (x ++ c :: y) d →
    ∃ d', Decoded x d'
  | [], _, _, _ => ⟨[], .nil⟩
  | a :: x, y, d, h => by
    rw [List.cons_append] at h
    generalize hz : x ++ c :: y = z at h
    cases h with
    | literal ha h =>
      rw [← hz] at h
      obtain ⟨d', hd⟩ := Decoded.before hc h
      exact ⟨a :: d', .literal ha hd⟩
    | escape hh hl h =>
      -- the byte would be one of the two digits
      rcases x with _ | ⟨b, _ | ⟨e, x⟩⟩
      · cases hz
        exact absurd hh (hc _)
      · cases hz
        exact absurd hl (hc _)
      · cases hz
        obtain ⟨d', hd⟩ := Decoded.before hc h
        exact ⟨_, .escape hh hl hd⟩

theorem urlRc_eq_zero {b : Bytes} : urlRc b = 0 ↔ (urlText b).2 = true := by
  unfold urlRc
  split
  · simp [*]
  · simp [*]

/-- A text cut at a separator has valid escapes when its parts have. -/
theorem urlRc_separator {c : Byte} (hc : c = ch '&' ∨ c = ch '=') (x y : Bytes) :
    urlRc (x ++ c :: y) = 0 ↔ urlRc x = 0 ∧ urlRc y = 0 := by
  have hne : c ≠ ch '%' := by rcases hc with rfl | rfl <;> decide
  have hhex : ∀ v, ¬ HexDigit c v := by
    intro v hv
    have hnone : hexVal c = none := by rcases hc with rfl | rfl <;> decide
    rw [(hexVal_spec c).2 v hv] at hnone
    cases hnone
  have hsplit : urlRc x = 0 → (urlRc (x ++ c :: y) = 0 ↔ urlRc y = 0) := by
    intro hx
    rw [urlRc_eq_zero, urlRc_eq_zero, urlText_append hx, urlText_cons hne]
  constructor
  · intro h
    obtain ⟨d, hd⟩ := (urlRc_iff _).1 h
    have hx := (urlRc_iff x).2 (hd.before hhex)
    exact ⟨hx, (hsplit hx).1 h⟩
  · rintro ⟨hx, hy⟩
    exact (hsplit hx).2 hy

end SubConverter
