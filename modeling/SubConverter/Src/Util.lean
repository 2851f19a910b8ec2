/-
`util.c`: the growable buffer `strbuf`, percent coding, the UTF-8 check and `xstrdup`. A buffer is
modelled by what its users see of it: `data` null, or allocated with the first `len` bytes and a
terminating NUL; capacity and allocation are not observable through it.
-/
import SubConverter.C.Str

namespace SubConverter

open CMem

/-- `INT_MAX`. -/
def intMax : Nat := 2 ^ 31 - 1

/-! ## strbuf -/

/-- `strbuf`: `data` is `none` while the pointer is null, and otherwise its first `len` bytes. -/
structure Strbuf where
  data : Option Bytes
  deriving DecidableEq

namespace Strbuf

/-- `strbuf_init`, and the state `strbuf_free` leaves. -/
def init : Strbuf := ⟨none⟩

/-- The first `len` bytes. -/
def bytes (sb : Strbuf) : Bytes := sb.data.getD []

def len (sb : Strbuf) : Nat := sb.bytes.length

/-- `strbuf_append_bytes`: reserves, hence allocates, also when there is nothing to copy. -/
def appendBytes (sb : Strbuf) (b : Bytes) : Strbuf := ⟨some (sb.bytes ++ b)⟩

/-- `strbuf_append_str` of a constant. -/
def appendStr (sb : Strbuf) (s : String) : Strbuf := sb.appendBytes (str s)

def appendChar (sb : Strbuf) (c : Byte) : Strbuf := sb.appendBytes [c]

/-- `strbuf_appendf`, given the formatted text: one that `vsnprintf` cannot count in an `int` is not appended, and no
caller looks at the -1. -/
def appendf (sb : Strbuf) (text : Bytes) : Strbuf := if text.length ≤ intMax then sb.appendBytes text else sb

/-- `strbuf_clear`: keeps an allocation. -/
def clear (sb : Strbuf) : Strbuf := ⟨sb.data.map fun _ => []⟩

end Strbuf

/-- `xstrdup(p)` of a buffer's `data`: `strlen` and `malloc` up to the first NUL; a null pointer is
dereferenced. -/
def xstrdup : Option Bytes → Run CStr
  | some b => .ok (CStr.ofBytes b)
  | none => .error .null

/-! ## Percent coding -/

/-- `hex_val`, `none` for -1. -/
def hexVal (c : Byte) : Option Byte :=
  if ch '0' ≤ c ∧ c ≤ ch '9' then some (c - ch '0')
  else if ch 'a' ≤ c ∧ c ≤ ch 'f' then some (c - ch 'a' + 10)
  else if ch 'A' ≤ c ∧ c ≤ ch 'F' then some (c - ch 'A' + 10)
  else none

/-- The loop of `url_decode` at index `i` with `inlen - i` bytes to go: the return code and the
buffer, which keeps what was decoded before a bad escape. -/
def urlDecodeLoop (s : Bytes) : Nat → Nat → Strbuf → Run (Int × Strbuf)
  | _, 0, out => .ok (0, out)
  | i, k + 1, out => do
    let c ← rd s i
    if c = ch '%' then
      match k with
      | k' + 2 => do
        let hi := hexVal (← rd s (i + 1))
        let lo := hexVal (← rd s (i + 2))
        match hi, lo with
        | some hi, some lo => urlDecodeLoop s (i + 3) k' (out.appendChar ((hi <<< 4) ||| lo))
        | _, _ => .ok (-1, out)
      -- `i + 2 >= inlen`
      | _ => .ok (-1, out)
    else urlDecodeLoop s (i + 1) k (out.appendChar c)

def urlDecode (s : Bytes) (inlen : Nat) (out : Strbuf) : Run (Int × Strbuf) :=
  urlDecodeLoop s 0 inlen out

def isUnreserved (c : Byte) : Bool :=
  (ch 'A' ≤ c && c ≤ ch 'Z') || (ch 'a' ≤ c && c ≤ ch 'z') || (ch '0' ≤ c && c ≤ ch '9') ||
    c == ch '-' || c == ch '_' || c == ch '.' || c == ch '~'

/-- `hexdig[d]`. -/
def hexDig (d : Byte) : Byte := (str "0123456789ABCDEF").getD d.toNat 0

def urlEncode : Bytes → Strbuf → Strbuf
  | [], out => out
  | c :: s, out =>
    if isUnreserved c then urlEncode s (out.appendChar c)
    else urlEncode s (((out.appendChar (ch '%')).appendChar (hexDig (c >>> 4))).appendChar (hexDig (c &&& 15)))

/-! ## UTF-8 -/

/-- The value bits, the number of continuation bytes and the least code point of a lead byte. -/
def utf8Lead (c : Byte) : Option (Nat × Nat × Nat) :=
  if c < 0x80 then some (c.toNat, 0, 0)
  else if c &&& 0xE0 = 0xC0 then some ((c &&& 0x1F).toNat, 1, 0x80)
  else if c &&& 0xF0 = 0xE0 then some ((c &&& 0x0F).toNat, 2, 0x800)
  else if c &&& 0xF8 = 0xF0 then some ((c &&& 0x07).toNat, 3, 0x10000)
  else none

/-- The continuation bytes of a code point from index `i` on. -/
def utf8Tail (s : Bytes) : Nat → Nat → Nat → Run (Option Nat)
  | _, 0, v => .ok (some v)
  | i, n + 1, v => do
    let cc ← rd s i
    if cc &&& 0xC0 ≠ 0x80 then .ok none
    else utf8Tail s (i + 1) n ((v <<< 6) ||| (cc &&& 0x3F).toNat)

/-- `utf8_next_codepoint`: the new position, `none` for -1. -/
def utf8NextCodepoint (s : Bytes) (len pos : Nat) : Run (Option Nat) :=
  if len ≤ pos then .ok none
  else do
    match utf8Lead (← rd s pos) with
    | none => .ok none
    | some (v, extra, mincp) =>
      if len ≤ pos + extra then .ok none
      else do
        match ← utf8Tail s (pos + 1) extra v with
        | none => .ok none
        | some v =>
          if v < mincp ∨ 0x10FFFF < v ∨ (0xD800 ≤ v ∧ v ≤ 0xDFFF) then .ok none
          else .ok (some (pos + extra + 1))

/-- The return code of `utf8_next_codepoint`, and `*pos`, written only where it returns 0. -/
def utf8NextCodepointAt (s : Bytes) (len pos : Nat) : Run (Int × Nat) := do
  match ← utf8NextCodepoint s len pos with
  | none => .ok (-1, pos)
  | some next => .ok (0, next)

/-- The loop of `utf8_validate`. -/
def utf8ValidateLoop (s : Bytes) (len : Nat) : Nat → Nat → Run Bool
  | 0, _ => .error .fuel
  | fuel + 1, pos =>
    if pos < len then do
      match ← utf8NextCodepoint s len pos with
      | none => .ok false
      | some pos => utf8ValidateLoop s len fuel pos
    else .ok true

def utf8Validate (s : Bytes) (len : Nat) : Run Bool := utf8ValidateLoop s len (len + 1) 0

/-! ## Buffer laws -/

namespace Strbuf

@[simp] theorem bytes_init : init.bytes = [] := rfl
@[simp] theorem bytes_mk_some (b : Bytes) : (⟨some b⟩ : Strbuf).bytes = b := rfl
@[simp] theorem bytes_appendBytes (sb : Strbuf) (b : Bytes) : (sb.appendBytes b).bytes = sb.bytes ++ b := rfl
@[simp] theorem bytes_appendChar (sb : Strbuf) (c : Byte) : (sb.appendChar c).bytes = sb.bytes ++ [c] := rfl
@[simp] theorem bytes_appendStr (sb : Strbuf) (s : String) : (sb.appendStr s).bytes = sb.bytes ++ str s := rfl
@[simp] theorem data_appendBytes (sb : Strbuf) (b : Bytes) :
    (sb.appendBytes b).data = some (sb.bytes ++ b) := rfl

theorem appendf_eq (sb : Strbuf) {text : Bytes} (h : text.length ≤ intMax) : sb.appendf text = sb.appendBytes text :=
  if_pos h

theorem appendf_long (sb : Strbuf) {text : Bytes} (h : intMax < text.length) : sb.appendf text = sb :=
  if_neg (not_le.2 h)

theorem appendBytes_appendBytes (sb : Strbuf) (a b : Bytes) :
    (sb.appendBytes a).appendBytes b = sb.appendBytes (a ++ b) := by
  simp [appendBytes]

/-- Appending byte by byte: nothing happens, so nothing is allocated, on the empty list. -/
def push (sb : Strbuf) (d : Bytes) : Strbuf := d.foldl appendChar sb

@[simp] theorem push_nil (sb : Strbuf) : sb.push [] = sb := rfl
@[simp] theorem push_cons (sb : Strbuf) (c : Byte) (d : Bytes) : sb.push (c :: d) = (sb.appendChar c).push d := rfl

theorem push_eq (sb : Strbuf) : ∀ {d : Bytes}, d ≠ [] → sb.push d = sb.appendBytes d
  | [c], _ => rfl
  | c :: c' :: d, _ => by
    rw [push_cons, push_eq (sb.appendChar c) (d := c' :: d) (by simp), appendChar, appendBytes_appendBytes]
    rfl

@[simp] theorem bytes_push (sb : Strbuf) (d : Bytes) : (sb.push d).bytes = sb.bytes ++ d := by
  rcases d with _ | ⟨c, d⟩
  · simp
  · rw [push_eq _ (by simp)]; rfl

/-- A buffer byte-wise filled is null exactly when it was and nothing came. -/
theorem data_push_eq_none (sb : Strbuf) (d : Bytes) : (sb.push d).data = none ↔ sb.data = none ∧ d = [] := by
  rcases d with _ | ⟨c, d⟩
  · simp
  · rw [push_eq _ (by simp)]; simp

@[simp] theorem bytes_clear (sb : Strbuf) : sb.clear.bytes = [] := by
  rcases sb with ⟨_ | b⟩ <;> rfl

@[simp] theorem data_clear_eq_none (sb : Strbuf) : sb.clear.data = none ↔ sb.data = none := by
  rcases sb with ⟨_ | b⟩ <;> simp [clear]

theorem data_eq_some {sb : Strbuf} (h : sb.data ≠ none) : sb.data = some sb.bytes := by
  rcases sb with ⟨_ | b⟩
  · exact absurd rfl h
  · rfl

end Strbuf

theorem xstrdup_push_init {d : Bytes} (h : d ≠ []) :
    xstrdup (Strbuf.init.push d).data = .ok (CStr.ofBytes d) := by
  rw [Strbuf.push_eq _ h]; rfl

/-! ## What url_decode computes -/

/-- The bytes `url_decode` writes before it stops, and whether it reaches the end. -/
def urlText : Bytes → Bytes × Bool
  | [] => ([], true)
  | c :: r =>
    if c = ch '%' then
      match r with
      | h :: l :: r' =>
        match hexVal h, hexVal l with
        | some hi, some lo => (((hi <<< 4) ||| lo) :: (urlText r').1, (urlText r').2)
        | _, _ => ([], false)
      | _ => ([], false)
    else (c :: (urlText r).1, (urlText r).2)

/-- The return code of `url_decode`. -/
def urlRc (b : Bytes) : Int := if (urlText b).2 then 0 else -1

theorem urlText_cons {c : Byte} {r : Bytes} (h : c ≠ ch '%') :
    urlText (c :: r) = (c :: (urlText r).1, (urlText r).2) := by
  rw [urlText.eq_def]; simp [h]

theorem urlDecodeLoop_succ (s : Bytes) (i k : Nat) (out : Strbuf) :
    urlDecodeLoop s i (k + 1) out = (do
      let c ← rd s i
      if c = ch '%' then
        match k with
        | k' + 2 => do
          let hi := hexVal (← rd s (i + 1))
          let lo := hexVal (← rd s (i + 2))
          match hi, lo with
          | some hi, some lo => urlDecodeLoop s (i + 3) k' (out.appendChar ((hi <<< 4) ||| lo))
          | _, _ => .ok (-1, out)
        | _ => .ok (-1, out)
      else urlDecodeLoop s (i + 1) k (out.appendChar c)) := by
  rw [urlDecodeLoop.eq_def]

/-- The loop from behind a prefix `p` on, whatever follows the `b.length` bytes it may read. -/
theorem urlDecodeLoop_eq (t : Bytes) : ∀ (b p : Bytes) (out : Strbuf),
    urlDecodeLoop (p ++ (b ++ t)) p.length b.length out = .ok (urlRc b, out.push (urlText b).1) := by
  intro b
  have hrd : ∀ (p : Bytes) (c : Byte) (r : Bytes) (k : Nat), rd (p ++ (c :: r)) (p.length + (k + 1)) = rd r k :=
    fun p c r k => by rw [rd_append_right]; simp [rd]
  fun_induction urlText b with
  | case1 => intro p out; simp [urlDecodeLoop, urlRc, urlText]
  | case2 h l r' hi lo hhi hlo ih =>
    intro p out
    have := ih (p ++ [ch '%', h, l]) (out.appendChar ((hi <<< 4) ||| lo))
    simp only [List.append_assoc, List.cons_append, List.nil_append, List.length_append, List.length_cons,
      List.length_nil, Nat.zero_add] at this
    simp only [List.cons_append, List.length_cons, urlDecodeLoop]
    rw [rd_append_cons, ok_bind, if_pos rfl, hrd, hrd, rd_cons_zero, ok_bind]
    simp only [rd, List.getElem?_cons_succ, List.getElem?_cons_zero, ok_bind, hlo, hhi, this]
    simp [urlRc, urlText, hlo, hhi]
  | case3 h l r' hno =>
    intro p out
    simp only [List.cons_append, List.length_cons, urlDecodeLoop]
    rw [rd_append_cons, ok_bind, if_pos rfl, hrd, hrd, rd_cons_zero, ok_bind]
    simp only [rd, List.getElem?_cons_succ, List.getElem?_cons_zero, ok_bind]
    rw [show urlRc (ch '%' :: h :: l :: r') = -1 by simp [urlRc, urlText]]; rfl
  | case4 r hr =>
    intro p out
    rcases r with _ | ⟨h, _ | ⟨l, r'⟩⟩
    · simp [urlDecodeLoop, urlRc, urlText, rd]
    · simp [urlDecodeLoop, urlRc, urlText, rd]
    · exact absurd rfl (hr h l r')
  | case5 c r hc ih =>
    intro p out
    have := ih (p ++ [c]) (out.appendChar c)
    simp only [List.append_assoc, List.cons_append, List.nil_append, List.length_append, List.length_singleton] at this
    rw [List.cons_append, List.length_cons, urlDecodeLoop_succ, rd_append_cons, ok_bind, if_neg hc, this]
    simp [urlRc, urlText_cons hc]

/-- `url_decode` reads exactly the bytes it is given. -/
theorem urlDecode_eq (b t : Bytes) (out : Strbuf) :
    urlDecode (b ++ t) b.length out = .ok (urlRc b, out.push (urlText b).1) :=
  urlDecodeLoop_eq t b [] out

theorem urlText_eq_nil {b : Bytes} (h : urlRc b = 0) : (urlText b).1 = [] ↔ b = [] := by
  constructor
  · intro h1
    by_contra hb
    obtain ⟨c, r, rfl⟩ := List.exists_cons_of_ne_nil hb
    by_cases hc : c = ch '%'
    · subst hc
      unfold urlRc at h
      rw [urlText.eq_def] at h h1
      rcases r with _ | ⟨x, _ | ⟨y, r⟩⟩
      · simp at h
      · simp at h
      · rcases hx : hexVal x with _ | hi <;> rcases hy : hexVal y with _ | lo <;> simp [hx, hy] at h h1
    · rw [urlText_cons hc] at h1; cases h1
  · rintro rfl; rfl

end SubConverter
