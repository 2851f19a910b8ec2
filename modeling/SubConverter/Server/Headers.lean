/-
The headers of `/convert`. The array of `parse_headers` holds one text `key: value` for each string entry of
the object whose key is not restricted. What is read of these texts on the wire is another matter: a key is
compared as a whole, and line ends in keys and values are passed on.
-/
import SubConverter.Src.Server

namespace SubConverter

open CMem

/-! ## Entries -/

/-- The string entries of an object whose keys are not restricted, as C strings. -/
def forwarded (ms : List (Bytes × Json)) : List (CStr × CStr) :=
  ms.filterMap fun m => (jsonxStr (Json.ptr (some m.2))).bind fun v =>
    if isRestricted (CStr.ofBytes m.1) then none else some (CStr.ofBytes m.1, v)

/-- `key: value`. -/
def entryText (e : CStr × CStr) : Bytes := e.1.bytes ++ (str ": " ++ e.2.bytes)

/-- The texts of the entries. -/
def headerLines (ms : List (Bytes × Json)) : List CStr := (forwarded ms).map fun e => headerText e.1 e.2

/-- A header is its entry, unless it is too long for `strbuf_appendf`. -/
theorem headerText_bytes {e : CStr × CStr} (hlen : (entryText e).length ≤ intMax) :
    (headerText e.1 e.2).bytes = entryText e := by
  have h0 : (0 : Byte) ∉ entryText e := by
    simp only [entryText, List.mem_append, not_or]
    exact ⟨e.1.nulFree, by decide, e.2.nulFree⟩
  rw [headerText, Strbuf.appendf, ← entryText, if_pos hlen]
  exact CStr.ofBytes_bytes h0

/-- An entry is no longer than the object it is in. -/
theorem length_entryText {ms : List (Bytes × Json)} {e : CStr × CStr} (he : e ∈ forwarded ms) :
    (entryText e).length ≤ membersSize ms := by
  obtain ⟨⟨k, x⟩, hm, hx⟩ := List.mem_filterMap.1 he
  obtain ⟨v, hv, hx⟩ := Option.bind_eq_some_iff.1 hx
  have hsize := membersSize_mem hm
  cases x with
  | str s =>
    cases hv
    split_ifs at hx
    cases hx
    have hk := length_ofBytes_le k
    have hs := length_ofBytes_le s
    have hsep : (str ": ").length = 2 := rfl
    rw [Json.size] at hsize
    rw [entryText, List.length_append, List.length_append, hsep]
    simp only at hsize ⊢
    omega
  | null => cases hv
  | bool => cases hv
  | int i => cases hv
  | double => cases hv
  | arr xs => cases hv
  | obj ms => cases hv

/-- The members of a value that was parsed are no longer than `strbuf_appendf` takes. -/
theorem jsonxParse_membersSize {tok : Tokener} {data : Option Bytes} {ms : List (Bytes × Json)}
    (h : jsonxParse tok data = some (.obj ms)) : membersSize ms ≤ intMax := by
  have hsize := jsonxParse_size h
  rw [Json.size] at hsize
  omega

theorem bytes_headerLines {ms : List (Bytes × Json)} (hsize : membersSize ms ≤ intMax) :
    (headerLines ms).map CStr.bytes = (forwarded ms).map entryText := by
  rw [headerLines, List.map_map]
  exact List.map_congr_left fun e he => headerText_bytes ((length_entryText he).trans hsize)

theorem headerLines_cons (m : Bytes × Json) (ms : List (Bytes × Json)) :
    headerLines (m :: ms) = headerLines [m] ++ headerLines ms := by
  rw [headerLines, forwarded, ← List.singleton_append, List.filterMap_append, List.map_append]
  rfl

/-! ## The array -/

namespace HeaderArr

/-- The first slots hold these headers; the array is null as long as there are none. -/
structure Holds (a : HeaderArr) (hs : List CStr) : Prop where
  n : a.n = hs.length
  null : a.arr = none → hs = [] ∧ a.cap = 0
  slots : ∀ slots, a.arr = some slots → hs ≠ [] ∧ slots.length = a.cap ∧ a.n ≤ a.cap ∧ slots.take a.n = hs.map some

theorem init_holds : init.Holds [] := ⟨rfl, fun _ => ⟨rfl, rfl⟩, nofun⟩

/-- Storing behind the headers there are. -/
theorem store_holds {a : HeaderArr} {hs : List CStr} {slots : StrArray} (h : CStr) (ha : a.arr = some slots)
    (hn : a.n = hs.length) (hlen : slots.length = a.cap) (hlt : a.n < a.cap) (htake : slots.take a.n = hs.map some) :
    ∃ b, a.store h = .ok b ∧ b.Holds (hs ++ [h]) := by
  have hset : (slots.set a.n (some h)).take (a.n + 1) = (hs ++ [h]).map some := by
    rw [List.take_add_one, List.take_set_of_le (le_refl _), htake, List.getElem?_set_self (by omega), List.map_append]
    rfl
  refine ⟨{ a with arr := some (slots.set a.n (some h)), n := a.n + 1 }, ?_, ?_, ?_, ?_⟩
  · unfold store
    rw [ha]
    exact if_pos (by omega)
  · simp [hn]
  · exact nofun
  · rintro _ ⟨⟩
    exact ⟨by simp, by simpa using hlen, hlt, hset⟩

/-- One more header. -/
theorem append_holds {a : HeaderArr} {hs : List CStr} (h : CStr) (ha : a.Holds hs) :
    ∃ b, a.append h = .ok b ∧ b.Holds (hs ++ [h]) := by
  unfold append
  rcases harr : a.arr with _ | slots
  · -- the first header: the array is allocated
    obtain ⟨rfl, hcap⟩ := ha.null harr
    have hn := ha.n
    rw [if_pos (by rw [hn, hcap]; rfl)]
    have hgrow : a.grow.arr = some (List.replicate 8 none) := by simp [grow, harr, hcap]
    refine store_holds h hgrow hn ?_ ?_ ?_
    · simp [grow, hcap]
    · simp [grow, hn, hcap]
    · simp [grow, hn]
  · obtain ⟨hne, hlen, hle, htake⟩ := ha.slots slots harr
    have hpos := List.length_pos_of_ne_nil hne
    have hn := ha.n
    by_cases hfull : a.n = a.cap
    · -- as many slots again
      have hgrow : a.grow = { a with arr := some (slots ++ List.replicate slots.length none), cap := a.cap * 2 } := by
        have hall : slots.take (a.cap * 2) = slots := List.take_of_length_le (by omega)
        have hnew : a.cap * 2 - slots.length = slots.length := by omega
        simp only [grow, harr, Option.getD_some, if_neg (show ¬ a.cap = 0 by omega), hall, hnew]
      rw [if_pos hfull, hgrow]
      refine store_holds h rfl hn ?_ ?_ ?_
      · simp only [List.length_append, List.length_replicate]
        omega
      · simp only
        omega
      · have hshort : (slots ++ List.replicate slots.length none).take a.n = slots.take a.n :=
          List.take_append_of_le_length (by omega)
        exact hshort.trans htake
    · rw [if_neg hfull]
      exact store_holds h harr hn hlen (by omega) htake

end HeaderArr

/-! ## The loop -/

theorem foreachAt_eq (ms : List (Bytes × Json)) : ∀ (i k : Nat), foreachAt (i + k) i ms = ms[k]? := by
  induction ms with
  | nil => intro i k; rfl
  | cons m ms ih =>
    intro i k
    cases k with
    | zero => exact if_pos rfl
    | succ k =>
      rw [foreachAt, if_neg (by omega), show i + (k + 1) = i + 1 + k by omega, ih]
      rfl

/-- `jsonx_obj_entries` gives the members one by one. -/
theorem jsonxObjEntries_obj (ms : List (Bytes × Json)) (idx : Nat) : jsonxObjEntries (.obj ms) idx =
    (ms[idx]?).map fun m => (CStr.ofBytes m.1, Json.ptr (some m.2), idx + 1) := by
  have hat := foreachAt_eq ms 0 idx
  rw [Nat.zero_add] at hat
  simp only [jsonxObjEntries, Json.objectLength, hat]
  split
  · rename_i hge
    rw [List.getElem?_eq_none hge]
    rfl
  · rfl

/-- The loop appends the headers of the entries from `idx` on. -/
theorem parseHeadersLoop_spec (ms : List (Bytes × Json)) : ∀ (fuel idx : Nat) {a : HeaderArr} {hs : List CStr},
    a.Holds hs → ms.length < fuel + idx → idx ≤ ms.length →
      ∃ b, parseHeadersLoop (.obj ms) fuel idx a = .ok b ∧ b.Holds (hs ++ headerLines (ms.drop idx))
  | 0, idx, a, hs, _, hfuel, hidx => absurd hfuel (by omega)
  | fuel + 1, idx, a, hs, ha, hfuel, hidx => by
    rw [parseHeadersLoop, jsonxObjEntries_obj]
    by_cases hlt : idx < ms.length
    · rw [List.getElem?_eq_getElem hlt, Option.map_some, List.drop_eq_getElem_cons hlt, headerLines_cons,
        ← List.append_assoc]
      generalize ms[idx] = m
      have hskip : headerLines [m] = [] → ∃ b, parseHeadersLoop (.obj ms) fuel (idx + 1) a = .ok b ∧
          b.Holds (hs ++ headerLines [m] ++ headerLines (ms.drop (idx + 1))) := by
        intro hm
        rw [hm, List.append_nil]
        exact parseHeadersLoop_spec ms fuel (idx + 1) ha (by omega) (by omega)
      rcases hv : jsonxStr (Json.ptr (some m.2)) with _ | v
      · -- not a string
        simp only [hv]
        exact hskip (by simp [headerLines, forwarded, hv])
      · by_cases hr : isRestricted (CStr.ofBytes m.1) = true
        · -- a restricted key
          simp only [hv, if_pos hr]
          exact hskip (by simp [headerLines, forwarded, hv, hr])
        · have hm : headerLines [m] = [headerText (CStr.ofBytes m.1) v] := by simp [headerLines, forwarded, hv, hr]
          obtain ⟨b, hb, hholds⟩ := HeaderArr.append_holds (headerText (CStr.ofBytes m.1) v) ha
          simp only [hv, if_neg hr, hb, ok_bind]
          rw [hm]
          exact parseHeadersLoop_spec ms fuel (idx + 1) hholds (by omega) (by omega)
    · rw [List.getElem?_eq_none (by omega), List.drop_eq_nil_of_le (by omega)]
      exact ⟨a, rfl, by simpa [headerLines, forwarded] using ha⟩

/-- On an object `parse_headers` returns its header lines. -/
theorem parseHeaders_object {tok : Tokener} {json : CStr} {ms : List (Bytes × Json)}
    (h : jsonxParse tok (some json.bytes) = some (.obj ms)) :
    ∃ a : HeaderArr, parseHeaders tok json = .ok (a.arr, a.n) ∧ a.Holds (headerLines ms) := by
  obtain ⟨a, ha, hholds⟩ := parseHeadersLoop_spec ms (ms.length + 1) 0 HeaderArr.init_holds (by omega) (by omega)
  refine ⟨a, ?_, by simpa using hholds⟩
  simp only [parseHeaders, h, Json.isObject, if_true, Json.objectLength, ha]
  rfl

/-! ## The list for the HTTP client -/

theorem headerList_eq {slots : StrArray} : ∀ {hs : List CStr} {i : Nat}, (slots.drop i).take hs.length = hs.map some →
    headerList slots hs.length i = .ok hs
  | [], i, _ => rfl
  | h :: hs, i, hslots => by
    have hi : i < slots.length := by
      have hlen := congrArg List.length hslots
      simp only [List.length_take, List.length_drop, List.length_map, List.length_cons] at hlen
      omega
    rw [List.drop_eq_getElem_cons hi, List.length_cons, List.take_succ_cons, List.map_cons] at hslots
    obtain ⟨hhead, htail⟩ := List.cons.inj hslots
    rw [List.length_cons, headerList, List.getElem?_eq_getElem hi, hhead]
    simp only [headerList_eq htail]
    rfl

/-- The array and its length are read as the headers. -/
theorem HeaderArr.Holds.requestHeaders {a : HeaderArr} {hs : List CStr} (ha : a.Holds hs) {req : HttpcReq}
    (harr : req.headers = a.arr) (hn : req.nheaders = a.n) : SubConverter.requestHeaders req = .ok hs := by
  unfold SubConverter.requestHeaders
  rw [harr, hn, ha.n]
  rcases hslots : a.arr with _ | slots
  · rw [(ha.null hslots).1]
  · obtain ⟨hne, -, -, htake⟩ := ha.slots slots hslots
    simp only
    rw [if_pos (List.length_pos_of_ne_nil hne)]
    refine headerList_eq ?_
    rw [List.drop_zero, ← ha.n]
    exact htake

end SubConverter
