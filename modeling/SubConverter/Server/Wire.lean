/-
The header texts as they are read on the wire, line by line: what a line stands for is the name before its
first `:`. A restricted name can come from a key with blanks or a `:` in it, or from behind a line end.
-/
import SubConverter.Server.Headers

namespace SubConverter

open CMem

/-! ## Lines on the wire -/

/-- A line ends at every CR and LF. -/
def wireLines (b : Bytes) : List Bytes := b.splitOnP fun c => c == 13 || c == 10

def isFieldBlank (c : Byte) : Bool := c == ch ' ' || c == 9

/-- A text without the blanks around it. -/
def trimBlanks (b : Bytes) : Bytes := (b.dropWhile isFieldBlank).rdropWhile isFieldBlank

/-- The text before the first `:`, without the blanks around it. -/
def namePart (b : Bytes) : Bytes := trimBlanks (b.takeWhile (· ≠ ch ':'))

/-- The field name of a line that has a `:`. -/
def fieldName (line : Bytes) : Option Bytes := if ch ':' ∈ line then some (namePart line) else none

def restrictedName (name : Bytes) : Bool :=
  ["host", "content-length", "transfer-encoding"].any fun s => name.map asciiLower == str s

/-- A line with a restricted field name. -/
def RestrictedLine (line : Bytes) : Prop := ∃ name, fieldName line = some name ∧ restrictedName name = true

/-- The lines `parse_headers` hands to the HTTP client. -/
def handedLines (tok : Tokener) (json : CStr) : Run (List CStr) := do
  let (headers, nheaders) ← parseHeaders tok json
  requestHeaders { httpcReqInit with headers := headers, nheaders := nheaders }

/-- No line on the wire has a restricted name. -/
def NoneRestricted (lines : List CStr) : Prop := ∀ l ∈ lines, ∀ w ∈ wireLines l.bytes, ¬ RestrictedLine w

/-- Each text is one line. -/
def OneLineEach (lines : List CStr) : Prop := ∀ l ∈ lines, wireLines l.bytes = [l.bytes]

/-- The name a key gives its own line is restricted, or a line before it in the key, or one behind the first in
the value. -/
def HidesRestricted (e : CStr × CStr) : Prop :=
  (∃ w ∈ (wireLines e.1.bytes).dropLast, RestrictedLine w) ∨
    (∃ w, (wireLines e.1.bytes).getLast? = some w ∧ restrictedName (namePart w) = true) ∨
    ∃ w ∈ (wireLines e.2.bytes).tail, RestrictedLine w

/-- No line end in key and value. -/
def PlainEntry (e : CStr × CStr) : Prop := ∀ c ∈ e.1.bytes ++ e.2.bytes, c ≠ 13 ∧ c ≠ 10

/-- The lines of two texts side by side: the last line of one and the first of the other become one. -/
theorem splitOnP_append {α : Type} {p : α → Bool} {y l : List α} {ls : List (List α)} (hy : y.splitOnP p = l :: ls) :
    ∀ {x k : List α} {ks : List (List α)}, x.splitOnP p = ks ++ [k] → (x ++ y).splitOnP p = ks ++ (k ++ l) :: ls
  | [], k, ks, hx => by
    rw [List.splitOnP_nil, ← List.nil_append [[]]] at hx
    obtain ⟨rfl, hk⟩ := List.append_inj' hx rfl
    cases hk
    simpa using hy
  | a :: x, k, ks, hx => by
    obtain ⟨ks', k', hks⟩ : ∃ ks' k', x.splitOnP p = ks' ++ [k'] :=
      (List.eq_nil_or_concat _).resolve_left (List.splitOnP_ne_nil p x) |>.imp fun _ h => h.imp fun _ h => by
        rw [h, List.concat_eq_append]
    have ih := splitOnP_append hy hks
    rw [List.splitOnP_cons_eq_if_modifyHead, hks] at hx
    rw [List.cons_append, List.splitOnP_cons_eq_if_modifyHead, ih]
    by_cases hp : p a = true
    · rw [if_pos hp, ← List.cons_append] at hx
      rw [if_pos hp]
      obtain ⟨rfl, hk⟩ := List.append_inj' hx rfl
      cases hk
      rfl
    · rw [if_neg hp] at hx
      rw [if_neg hp]
      rcases ks' with _ | ⟨z, ks'⟩
      · rw [List.nil_append, List.modifyHead_cons, ← List.nil_append [a :: k']] at hx
        obtain ⟨rfl, hk⟩ := List.append_inj' hx rfl
        cases hk
        rfl
      · rw [List.cons_append, List.modifyHead_cons, ← List.cons_append] at hx
        obtain ⟨rfl, hk⟩ := List.append_inj' hx rfl
        cases hk
        rfl

/-! ## The lines of an entry -/

theorem wireLines_ne_nil (b : Bytes) : wireLines b ≠ [] := List.splitOnP_ne_nil _ b

/-- The lines of `key: value`, by those of the key and the value. -/
theorem wireLines_entry (e : CStr × CStr) : ∃ ks k v vs, wireLines e.1.bytes = ks ++ [k] ∧ wireLines e.2.bytes = v :: vs ∧
    wireLines (entryText e) = ks ++ (k ++ (str ": " ++ v)) :: vs := by
  obtain ⟨ks, k, hk⟩ := (List.eq_nil_or_concat _).resolve_left (wireLines_ne_nil e.1.bytes)
  obtain ⟨v, vs, hv⟩ := List.exists_cons_of_ne_nil (wireLines_ne_nil e.2.bytes)
  rw [List.concat_eq_append] at hk
  -- the separator has no line end, so it joins the last line of the key to the first of the value
  have hsep : wireLines (str ": ") = [] ++ [str ": "] := by decide +kernel
  exact ⟨ks, k, v, vs, hk, hv, splitOnP_append (splitOnP_append hv hsep) hk⟩

theorem takeWhile_before {k r : Bytes} : (k ++ ch ':' :: r).takeWhile (· ≠ ch ':') = k.takeWhile (· ≠ ch ':') := by
  induction k with
  | nil => rfl
  | cons c k ih =>
    rw [List.cons_append, List.takeWhile_cons, List.takeWhile_cons, ih]

/-- The line with the separator has the name of the key's last line. -/
theorem fieldName_entry (k v : Bytes) : fieldName (k ++ (str ": " ++ v)) = some (namePart k) := by
  have hsep : k ++ (str ": " ++ v) = k ++ ch ':' :: (ch ' ' :: v) := rfl
  rw [fieldName, hsep, if_pos (by simp), namePart, takeWhile_before, namePart]

/-- An entry hides a restricted name exactly when a line of its text has one. -/
theorem hidesRestricted_iff (e : CStr × CStr) :
    HidesRestricted e ↔ ∃ w ∈ wireLines (entryText e), RestrictedLine w := by
  obtain ⟨ks, k, v, vs, hk, hv, hw⟩ := wireLines_entry e
  have hmid : RestrictedLine (k ++ (str ": " ++ v)) ↔ restrictedName (namePart k) = true := by
    rw [RestrictedLine, fieldName_entry]
    simp
  rw [HidesRestricted, hk, hv, hw, List.dropLast_concat, List.getLast?_concat, List.tail_cons]
  simp only [List.mem_append, List.mem_cons, or_and_right, exists_or, exists_eq_left, Option.some.injEq, hmid,
    exists_eq_left']

/-- A text without line ends is one line. -/
theorem wireLines_eq_self_iff {b : Bytes} : wireLines b = [b] ↔ ∀ c ∈ b, c ≠ 13 ∧ c ≠ 10 := by
  constructor
  · intro h c hc
    by_contra hend
    have hsep : (c == 13 || c == 10) = true := by
      rw [Bool.or_eq_true, beq_iff_eq, beq_iff_eq]
      tauto
    -- a line end in the text splits it in two
    obtain ⟨x, y, rfl⟩ := List.append_of_mem hc
    have hlen := congrArg List.length h
    rw [wireLines, List.splitOnP_append_cons x y hsep, List.length_append, List.length_singleton] at hlen
    have hx := List.length_pos_of_ne_nil (wireLines_ne_nil x)
    have hy := List.length_pos_of_ne_nil (wireLines_ne_nil y)
    unfold wireLines at hx hy
    omega
  · intro h
    refine List.splitOnP_eq_singleton fun c hc => ?_
    obtain ⟨h13, h10⟩ := h c hc
    simp [h13, h10]

/-- The text of an entry is one line exactly when neither part has a line end. -/
theorem oneLine_entry_iff (e : CStr × CStr) : wireLines (entryText e) = [entryText e] ↔ PlainEntry e := by
  have hsep : ∀ c ∈ str ": ", c ≠ 13 ∧ c ≠ 10 := by decide +kernel
  rw [wireLines_eq_self_iff, PlainEntry, entryText, List.forall_mem_append, List.forall_mem_append,
    List.forall_mem_append, and_iff_right hsep]

/-- Without line ends only the name of the key itself can be restricted. -/
theorem PlainEntry.hidesRestricted_iff {e : CStr × CStr} (h : PlainEntry e) :
    HidesRestricted e ↔ restrictedName (namePart e.1.bytes) = true := by
  rw [PlainEntry, List.forall_mem_append] at h
  rw [HidesRestricted, wireLines_eq_self_iff.2 h.1, wireLines_eq_self_iff.2 h.2]
  simp

/-! ## What is handed over -/

theorem handedLines_object {tok : Tokener} {json : CStr} {ms : List (Bytes × Json)}
    (h : jsonxParse tok (some json.bytes) = some (.obj ms)) : handedLines tok json = .ok (headerLines ms) := by
  obtain ⟨a, ha, hholds⟩ := parseHeaders_object h
  rw [handedLines, ha, ok_bind]
  exact hholds.requestHeaders rfl rfl

theorem forall_mem_headerLines {P : Bytes → Prop} {ms : List (Bytes × Json)} (hsize : membersSize ms ≤ intMax) :
    (∀ l ∈ headerLines ms, P l.bytes) ↔ ∀ e ∈ forwarded ms, P (entryText e) := by
  constructor
  · intro h e he
    rw [← headerText_bytes ((length_entryText he).trans hsize)]
    exact h _ (List.mem_map_of_mem he)
  · intro h l hl
    obtain ⟨e, he, rfl⟩ := List.mem_map.1 hl
    rw [headerText_bytes ((length_entryText he).trans hsize)]
    exact h e he

/-- Each string entry that is not restricted is handed over as one text. No line of these texts has a restricted
name exactly when no entry hides one; and each text is one line as well exactly when no key and no value has a
line end and no key has a restricted name before its first `:`. -/
theorem handedLines_safe_iff {tok : Tokener} {json : CStr} {ms : List (Bytes × Json)}
    (h : jsonxParse tok (some json.bytes) = some (.obj ms)) :
    ∃ lines, handedLines tok json = .ok lines ∧ lines.map CStr.bytes = (forwarded ms).map entryText ∧
      (NoneRestricted lines ↔ ∀ e ∈ forwarded ms, ¬ HidesRestricted e) ∧
      (NoneRestricted lines ∧ OneLineEach lines ↔
        ∀ e ∈ forwarded ms, PlainEntry e ∧ restrictedName (namePart e.1.bytes) = false) := by
  have hsize := jsonxParse_membersSize h
  have hsafe : NoneRestricted (headerLines ms) ↔ ∀ e ∈ forwarded ms, ¬ HidesRestricted e := by
    rw [NoneRestricted, forall_mem_headerLines (P := fun b => ∀ w ∈ wireLines b, ¬ RestrictedLine w) hsize]
    simp only [hidesRestricted_iff, not_exists, not_and]
  have hone : OneLineEach (headerLines ms) ↔ ∀ e ∈ forwarded ms, PlainEntry e := by
    rw [OneLineEach, forall_mem_headerLines (P := fun b => wireLines b = [b]) hsize]
    simp only [oneLine_entry_iff]
  refine ⟨headerLines ms, handedLines_object h, bytes_headerLines hsize, hsafe, ?_⟩
  rw [hsafe, hone]
  constructor
  · rintro ⟨hhides, hplain⟩ e he
    have hno := hhides e he
    rw [(hplain e he).hidesRestricted_iff] at hno
    exact ⟨hplain e he, Bool.eq_false_iff.2 hno⟩
  · intro hall
    refine ⟨fun e he => ?_, fun e he => (hall e he).1⟩
    obtain ⟨hplain, hname⟩ := hall e he
    rw [hplain.hidesRestricted_iff, hname]
    decide

/-! ## Two arguments -/

/-- The JSON text of an object with one string entry. -/
def entryJson (key value : String) : CStr := .lit ("\x7b\"" ++ key ++ "\":\"" ++ value ++ "\"\x7d")

/-- An object with one string entry. -/
def entryObject (key value : String) : List (Bytes × Json) := [(str key, .str (str value))]

def testTok : Tokener := .only (entryJson "X-Test" "1").bytes (.obj (entryObject "X-Test" "1")) (by decide +kernel)

theorem handedLines_safe_test : ∃ lines, handedLines testTok (entryJson "X-Test" "1") = .ok lines ∧
    NoneRestricted lines ∧ OneLineEach lines := by
  have hparse : jsonxParse testTok (some (entryJson "X-Test" "1").bytes) = some (.obj (entryObject "X-Test" "1")) := by
    rw [jsonxParse, if_neg (by decide +kernel), testTok, Tokener.only_self]
    rfl
  obtain ⟨lines, hlines, -, -, hiff⟩ := handedLines_safe_iff hparse
  refine ⟨lines, hlines, hiff.2 ?_⟩
  unfold PlainEntry
  decide +kernel

def blankKeyTok : Tokener := .only (entryJson "Host " "x").bytes (.obj (entryObject "Host " "x")) (by decide +kernel)

def lineEndTok : Tokener :=
  .only (entryJson "X" "1\\r\\nHost: x").bytes (.obj (entryObject "X" "1\r\nHost: x")) (by decide +kernel)

/-- A blank behind the key, and a line end in the value. -/
theorem handedLines_host :
    (∃ lines, handedLines blankKeyTok (entryJson "Host " "x") = .ok lines ∧ ¬ NoneRestricted lines) ∧
      ∃ lines, handedLines lineEndTok (entryJson "X" "1\\r\\nHost: x") = .ok lines ∧ ¬ NoneRestricted lines := by
  refine ⟨⟨[.lit "Host : x"], by decide +kernel, fun h => ?_⟩, [.lit "X: 1\r\nHost: x"], by decide +kernel, fun h => ?_⟩
  · refine h _ (List.mem_singleton_self _) (str "Host : x") (by decide +kernel) ⟨str "Host", ?_, ?_⟩
    · decide +kernel
    · decide +kernel
  · refine h _ (List.mem_singleton_self _) (str "Host: x") (by decide +kernel) ⟨str "Host", ?_, ?_⟩
    · decide +kernel
    · decide +kernel

end SubConverter
