/-
`base64.c`: the two alphabets, the coder, the decoder and the test whether a body looks like
base64.
-/
import SubConverter.Src.Util

namespace SubConverter

open CMem

def b64StdChars : Bytes := str "ABCDEFGHIJKLMNOPQRSTUVWXYZabcdefghijklmnopqrstuvwxyz0123456789+/"

def b64UrlChars : Bytes := str "ABCDEFGHIJKLMNOPQRSTUVWXYZabcdefghijklmnopqrstuvwxyz0123456789-_"

def b64IsWs (c : Byte) : Bool :=
  c == ch ' ' || c == 9 || c == 10 || c == 13 || c == 11 || c == 12

/-- `b64_char_val`, `none` for -1. `strchr` also finds the terminator of the alphabet, so NUL has
the value 64. -/
def b64CharVal (alphabet : Bytes) (c : Byte) : Option Byte :=
  ((alphabet ++ [0]).idxOf? c).map Nat.toUInt8

/-- `alphabet[i]`. -/
def b64Char (alphabet : Bytes) (i : Nat) : Byte := alphabet.getD i 0

/-! ## Coding -/

def b64EncodeLoop (alphabet : Bytes) (withPadding : Bool) : Bytes → Strbuf → Strbuf
  | a :: b :: c :: r, out =>
    let v : UInt32 := (a.toUInt32 <<< 16) ||| (b.toUInt32 <<< 8) ||| c.toUInt32
    b64EncodeLoop alphabet withPadding r
      ((((out.appendChar (b64Char alphabet ((v >>> 18) &&& 0x3F).toNat)).appendChar
        (b64Char alphabet ((v >>> 12) &&& 0x3F).toNat)).appendChar
        (b64Char alphabet ((v >>> 6) &&& 0x3F).toNat)).appendChar (b64Char alphabet (v &&& 0x3F).toNat))
  | [a], out =>
    let out := (out.appendChar (b64Char alphabet ((a.toUInt32 >>> 2) &&& 0x3F).toNat)).appendChar
      (b64Char alphabet ((a.toUInt32 &&& 0x03) <<< 4).toNat)
    if withPadding then out.appendStr "==" else out
  | [a, b], out =>
    let out := ((out.appendChar (b64Char alphabet ((a.toUInt32 >>> 2) &&& 0x3F).toNat)).appendChar
      (b64Char alphabet (((a.toUInt32 &&& 0x03) <<< 4) ||| (b.toUInt32 >>> 4)).toNat)).appendChar
      (b64Char alphabet ((b.toUInt32 &&& 0x0F) <<< 2).toNat)
    if withPadding then out.appendChar (ch '=') else out
  | [], out => out

/-- `b64_encode_core`, which always returns 0 on non-null data. -/
def b64EncodeCore (data : Bytes) (out : Strbuf) (alphabet : Bytes) (withPadding : Bool) : Strbuf :=
  if data = [] then out.clear else b64EncodeLoop alphabet withPadding data out

def base64Encode (data : Bytes) (out : Strbuf) : Strbuf := b64EncodeCore data out b64StdChars true

def base64EncodeUrl (data : Bytes) (out : Strbuf) : Strbuf := b64EncodeCore data out b64UrlChars false

/-! ## Decoding -/

/-- What follows the loop of `b64_decode_core`: the `qn` values in `quad` and the `=` seen. -/
def b64DecodeEnd (quad : List Byte) (pad : Nat) (out : Strbuf) : Int × Strbuf :=
  match quad with
  | [_] => (-1, out)
  | [q0, q1] =>
    if pad ≠ 0 ∧ pad ≠ 2 then (-1, out) else (0, out.appendChar ((q0 <<< 2) ||| (q1 >>> 4)))
  | [q0, q1, q2] =>
    if pad ≠ 0 ∧ pad ≠ 1 then (-1, out)
    else (0, (out.appendChar ((q0 <<< 2) ||| (q1 >>> 4))).appendChar (((q1 &&& 0x0F) <<< 4) ||| (q2 >>> 2)))
  | _ => (0, out)

def b64DecodeLoop (alphabet : Bytes) : Bytes → List Byte → Nat → Strbuf → Int × Strbuf
  | [], quad, pad, out => b64DecodeEnd quad pad out
  | c :: r, quad, pad, out =>
    if b64IsWs c then b64DecodeLoop alphabet r quad pad out
    else if c = ch '=' then
      if quad.length < 2 ∨ quad.length > 3 then (-1, out)
      else if quad.length + (pad + 1) > 4 then (-1, out)
      else b64DecodeLoop alphabet r quad (pad + 1) out
    else
      match b64CharVal alphabet c with
      | none => (-1, out)
      | some v =>
        -- no character may follow a `=`
        if pad > 0 then (-1, out)
        else
          match quad with
          | [q0, q1, q2] =>
            b64DecodeLoop alphabet r [] pad
              (((out.appendChar ((q0 <<< 2) ||| (q1 >>> 4))).appendChar
                (((q1 &&& 0x0F) <<< 4) ||| (q2 >>> 2))).appendChar (((q2 &&& 0x03) <<< 6) ||| v))
          | _ => b64DecodeLoop alphabet r (quad ++ [v]) pad out

/-- `b64_decode_core` on the `inlen` bytes of `in`. -/
def b64DecodeCore (input : Bytes) (out : Strbuf) (alphabet : Bytes) : Int × Strbuf :=
  b64DecodeLoop alphabet input [] 0 out

def base64Decode (input : Bytes) (out : Strbuf) : Int × Strbuf := b64DecodeCore input out b64StdChars

def base64DecodeUrl (input : Bytes) (out : Strbuf) : Int × Strbuf := b64DecodeCore input out b64UrlChars

/-! ## The test -/

/-- The loop of `base64_looks_like` with `n` significant characters seen. -/
def b64LooksLoop : Bytes → Nat → Bool
  | [], n => 4 ≤ n && n % 4 == 0
  | c :: r, n =>
    if b64IsWs c then b64LooksLoop r n
    else if c ≠ ch '=' ∧ b64CharVal b64StdChars c = none then false
    else b64LooksLoop r (n + 1)

def base64LooksLike (input : Bytes) : Bool := b64LooksLoop input 0

/-- A body with a byte outside the alphabet does not look like base64. -/
theorem not_looksLike_of_mem {c : Byte} (hws : b64IsWs c = false) (heq : c ≠ ch '=')
    (hval : b64CharVal b64StdChars c = none) : ∀ {b : Bytes} {n : Nat}, c ∈ b → b64LooksLoop b n = false
  | a :: b, n, h => by
    rw [b64LooksLoop]
    rcases List.mem_cons.1 h with rfl | h
    · simp [hws, heq, hval]
    · split
      · exact not_looksLike_of_mem hws heq hval h
      · split
        · rfl
        · exact not_looksLike_of_mem hws heq hval h

end SubConverter
