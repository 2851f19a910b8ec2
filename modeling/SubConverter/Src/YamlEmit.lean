/-
`yaml_emit.c`: the choice between a plain and a double-quoted scalar, and the emitters of one line.
The tests of `yaml_plain_safe` are only reached with a non-empty string; a scalar is passed as its
bytes, since every caller takes its length first.
-/
import SubConverter.C.Str
import SubConverter.Src.Util

namespace SubConverter

open CMem

/-! ## The plain form -/

def isWs (c : Byte) : Bool :=
  c == ch ' ' || c == 9 || c == 10 || c == 13 || c == 11 || c == 12

def isLeadingIndicator (c : Byte) : Bool := (str "-?:,[]{}#&*!|>'\"%@`").contains c

def hexch (c : Byte) : Bool :=
  isDigit c || (ch 'a' ≤ c && c ≤ ch 'f') || (ch 'A' ≤ c && c ≤ ch 'F')

/-- The text behind `0x`, `0b` or `0o`. -/
def radixDigits (p : Byte → Bool) (s : Bytes) : Bool := s.all p && !s.isEmpty

/-- An optional exponent and the end of the number. -/
def numberExp (s : Bytes) : Bool :=
  match s with
  | [] => true
  | e :: r =>
    if e = ch 'e' ∨ e = ch 'E' then
      let r := if r.head? = some (ch '+') ∨ r.head? = some (ch '-') then r.tail else r
      match r with
      | [] => false
      | d :: r => isDigit d && (r.dropWhile isDigit).isEmpty
    else false

/-- An optional fraction, then the rest of the number. -/
def numberFrac (s : Bytes) : Bool :=
  match s with
  | c :: r =>
    if c = ch '.' then
      match r with
      | [] => false
      | d :: r => isDigit d && numberExp (r.dropWhile isDigit)
    else numberExp s
  | [] => numberExp s

def numberDec (s : Bytes) : Bool :=
  match s with
  | [] => false
  | d :: r => isDigit d && numberFrac (r.dropWhile isDigit)

def isYamlNumber (s : Bytes) : Bool :=
  let s := if s.head? = some (ch '+') ∨ s.head? = some (ch '-') then s.tail else s
  match s with
  | c :: p :: r =>
    if c = ch '0' ∧ (p = ch 'x' ∨ p = ch 'X') then radixDigits hexch r
    else if c = ch '0' ∧ (p = ch 'b' ∨ p = ch 'B') then radixDigits (fun c => c == ch '0' || c == ch '1') r
    else if c = ch '0' ∧ (p = ch 'o' ∨ p = ch 'O') then radixDigits (fun c => ch '0' ≤ c && c ≤ ch '7') r
    else numberDec s
  | s => numberDec s

def isYamlDate (s : Bytes) : Bool :=
  match s with
  | [y1, y2, y3, y4, a, m1, m2, b, d1, d2] =>
    isDigit y1 && isDigit y2 && isDigit y3 && isDigit y4 && a == ch '-' && isDigit m1 && isDigit m2 &&
      b == ch '-' && isDigit d1 && isDigit d2
  | _ => false

def asciiLower (c : Byte) : Byte := if ch 'A' ≤ c ∧ c ≤ ch 'Z' then c + (ch 'a' - ch 'A') else c

def asciiLowerEqual (s : Bytes) (word : String) : Bool := s.map asciiLower == str word

def isResolvedWord (s : Bytes) : Bool :=
  ["true", "false", "yes", "no", "on", "off", "null"].any (asciiLowerEqual s) || s == str "~"

/-- `": "` or `" #"` among the adjacent pairs. -/
def badPair : Bytes → Bool
  | a :: b :: r => (a == ch ':' && b == ch ' ') || (a == ch ' ' && b == ch '#') || badPair (b :: r)
  | _ => false

def isControl (c : Byte) : Bool := c < 0x20 || c == 0x7F

def yamlPlainSafe (s : Bytes) : Bool :=
  if s.head?.any isWs || s.getLast?.any isWs then false
  else if s.head?.any isLeadingIndicator then false
  else if s.any isControl then false
  else if badPair s then false
  else if s.contains (ch '"') || s.contains (ch '\\') then false
  else if s == str "." || s == str ".." || isYamlNumber s || isResolvedWord s || isYamlDate s then false
  else if s.head?.any isDigit && s.contains (ch ':') then false
  else true

/-! ## The quoted form -/

def appendXhex (out : Strbuf) (c : Byte) : Strbuf :=
  (((out.appendChar (ch '\\')).appendChar (ch 'x')).appendChar (hexDig (c >>> 4))).appendChar (hexDig (c &&& 15))

/-- One round of the loop of `append_quoted`. -/
def appendEscaped (c : Byte) (out : Strbuf) : Strbuf :=
  if c = ch '\\' then out.appendStr "\\\\"
  else if c = ch '"' then out.appendStr "\\\""
  else if c = 10 then out.appendStr "\\n"
  else if c = 9 then out.appendStr "\\t"
  else if c = 13 then out.appendStr "\\r"
  else if c = 0 then out.appendStr "\\0"
  else if isControl c then appendXhex out c
  else out.appendChar c

def appendQuoted (s : Bytes) (out : Strbuf) : Strbuf :=
  (s.foldl (fun out c => appendEscaped c out) (out.appendChar (ch '"'))).appendChar (ch '"')

def yamlQuote (s : Bytes) (out : Strbuf) : Strbuf :=
  if s = [] then out.appendStr "\"\""
  else if yamlPlainSafe s then out.appendBytes s
  else appendQuoted s out

/-! ## Lines -/

def emitIndent (out : Strbuf) : Nat → Strbuf
  | 0 => out
  | indent + 1 => emitIndent (out.appendChar (ch ' ')) indent

def yamlEmitKv (out : Strbuf) (indent : Nat) (key : String) (value : Option CStr) : Strbuf :=
  let out := (emitIndent out indent).appendStr key
  let out := match value with
    | some v => yamlQuote v.bytes (out.appendStr ": ")
    | none => out.appendChar (ch ':')
  out.appendChar 10

/-- The text of an `int64_t` is never too long for `strbuf_appendf`. -/
def yamlEmitKvInt (out : Strbuf) (indent : Nat) (key : String) (value : Int) : Strbuf :=
  ((((emitIndent out indent).appendStr key).appendStr ": ").appendBytes (decimalInt value)).appendChar 10

def yamlEmitKvBool (out : Strbuf) (indent : Nat) (key : String) (value : Bool) : Strbuf :=
  ((emitIndent out indent).appendStr key).appendStr (if value then ": true\n" else ": false\n")

def yamlEmitDash (out : Strbuf) (indent : Nat) (value : CStr) : Strbuf :=
  (yamlQuote value.bytes ((emitIndent out indent).appendStr "- ")).appendChar 10

def yamlEmitDashKv (out : Strbuf) (indent : Nat) (key : String) (value : CStr) : Strbuf :=
  (yamlQuote value.bytes ((((emitIndent out indent).appendStr "- ").appendStr key).appendStr ": ")).appendChar 10

def yamlEmitDashKvOpen (out : Strbuf) (indent : Nat) (key : String) : Strbuf :=
  (((emitIndent out indent).appendStr "- ").appendStr key).appendStr ":\n"

/-- The loop of `yaml_emit_flow_list` at index `i`, with the items from there on. -/
def flowListLoop : Nat → List CStr → Strbuf → Strbuf
  | _, [], out => out
  | i, item :: items, out =>
    let out := if i > 0 then out.appendStr ", " else out
    flowListLoop (i + 1) items (yamlQuote item.bytes out)

def yamlEmitFlowList (out : Strbuf) (items : List CStr) : Strbuf :=
  (flowListLoop 0 items (out.appendChar (ch '['))).appendStr "]\n"

end SubConverter
