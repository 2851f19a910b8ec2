/-
Memory safety of `node_parse_share` on an arbitrary line. Splitting the link stays inside it unless
the link is of the one kind `AtInFragment`, and no null pointer is duplicated unless the link has one of
the parts that `NullPart` lists.
-/
import SubConverter.Share.Faults

namespace SubConverter

open CMem

/-! ## Lengths and reads -/

/-- A run on exactly the line, with trapping subtractions, neither wraps a length nor reads a byte
outside the line, and its loops end: it stops at a null pointer or not at all. -/
def StaysInside (tok : Tokener) (line : Bytes) : Prop :=
  ∀ e, nodeParseShare .checked tok line line.length = .error e → e = .null

/-- A vless or trojan link without `?` before its first `#`, whose first `@` comes after that `#`,
with valid escapes before that `@`. -/
def AtInFragment (line : Bytes) : Prop :=
  ∃ scheme m f y, (scheme = "vless://" ∨ scheme = "trojan://") ∧
    trimLine line = str scheme ++ (m ++ ch '#' :: (f ++ ch '@' :: y)) ∧
    ch '#' ∉ m ∧ ch '?' ∉ m ∧ ch '@' ∉ m ∧ ch '@' ∉ f ∧ urlRc (m ++ ch '#' :: f) = 0

theorem vlessBody_iff {b : Bytes} {r : Bytes} :
    (∃ type, vlessBody b = some (type, r)) ↔ b = str "vless://" ++ r ∨ b = str "trojan://" ++ r := by
  unfold vlessBody
  constructor
  · rintro ⟨type, h⟩
    split at h
    · rename_i h'; cases h; exact .inl (stripScheme_some h')
    · obtain ⟨x, hx, he⟩ := Option.map_eq_some_iff.1 h
      cases he; exact .inr (stripScheme_some hx)
  · rintro (rfl | rfl)
    · rw [stripScheme_append]; exact ⟨_, rfl⟩
    · rw [stripScheme_append]
      exact ⟨_, rfl⟩

theorem strayAt_iff {r a y : Bytes} : strayAt (splitLink r) = some (a, y) ↔
    ∃ m f, r = m ++ ch '#' :: (f ++ ch '@' :: y) ∧ a = m ++ ch '#' :: f ∧
      ch '#' ∉ m ∧ ch '?' ∉ m ∧ ch '@' ∉ m ∧ ch '@' ∉ f := by
  constructor
  · intro h
    obtain ⟨hj, hwf⟩ := splitLink_spec r
    obtain ⟨hq, hm, f, hfr, hf, rfl⟩ := strayAt_parts h
    refine ⟨(splitLink r).main, f, ?_, rfl, ?_, hwf.quest, hm, hf⟩
    · conv_lhs => rw [← hj]
      simp [LinkParts.join, LinkParts.queryPart, LinkParts.fragPart, hq, hfr]
    · exact fun h => hwf.hash (List.mem_append_left _ h)
  · rintro ⟨m, f, rfl, rfl, h1, h2, h3, h4⟩
    rw [splitLink, cut_append h1]
    simp [splitQuery, cut_none h2, strayAt, h3, cut_append h4]

theorem atInFragment_iff {line : Bytes} :
    AtInFragment line ↔ ∃ a y, strayLink (trimLine line) = some (a, y) ∧ urlRc a = 0 := by
  have hstray : ∀ a y, strayLink (trimLine line) = some (a, y) ↔
      ∃ r, (trimLine line = str "vless://" ++ r ∨ trimLine line = str "trojan://" ++ r) ∧
        strayAt (splitLink r) = some (a, y) := by
    intro a y
    rw [strayLink, Option.bind_eq_some_iff]
    constructor
    · rintro ⟨⟨type, r⟩, h1, h2⟩; exact ⟨r, vlessBody_iff.1 ⟨type, h1⟩, h2⟩
    · rintro ⟨r, h1, h2⟩
      obtain ⟨type, h⟩ := vlessBody_iff.2 h1
      exact ⟨(type, r), h, h2⟩
  constructor
  · rintro ⟨scheme, m, f, y, hs, ht, h1, h2, h3, h4, hrc⟩
    refine ⟨_, y, (hstray _ y).2 ⟨_, ?_, strayAt_iff.2 ⟨m, f, rfl, rfl, h1, h2, h3, h4⟩⟩, hrc⟩
    rcases hs with rfl | rfl
    · exact .inl ht
    · exact .inr ht
  · rintro ⟨a, y, h, hrc⟩
    obtain ⟨r, hr, h⟩ := (hstray a y).1 h
    obtain ⟨m, f, rfl, rfl, h1, h2, h3, h4⟩ := strayAt_iff.1 h
    rcases hr with hr | hr
    · exact ⟨_, m, f, y, .inl rfl, hr, h1, h2, h3, h4, hrc⟩
    · exact ⟨_, m, f, y, .inr rfl, hr, h1, h2, h3, h4, hrc⟩

theorem nodeParseShare_error_iff (σ : Arith) (tok : Tokener) {line : Bytes} (hs : strayLink (trimLine line) = none)
    {e : Fault} : nodeParseShare σ tok line line.length = .error e ↔ e = .null ∧ NullPart tok (trimLine line) := by
  have h := nodeParseShare_eq σ tok line [] hs
  rw [List.append_nil] at h
  rw [h, ← linkRun_error_iff]
  cases linkRun tok (trimLine line) with
  | error e' => exact ⟨fun h => by cases h; rfl, fun h => by cases h; rfl⟩
  | ok r => simp

/-- Splitting stays inside the link except at an `@` in the fragment. -/
theorem staysInside_iff (tok : Tokener) (line : Bytes) : StaysInside tok line ↔ ¬ AtInFragment line := by
  rw [atInFragment_iff, StaysInside]
  rcases hs : strayLink (trimLine line) with _ | ⟨a, y⟩
  · simp only [nodeParseShare_error_iff .checked tok hs]
    exact iff_of_true (fun e h => h.1) (by simp)
  · have h := nodeParseShare_stray_checked tok line [] hs
    rw [List.append_nil] at h
    rw [h]
    by_cases hrc : urlRc a = 0 <;> simp [hrc]

/-- `vless://h#a@b`: the length of `host:port` wraps, and the machine's search for the colon leaves
the link. -/
theorem vless_fragment_at :
    ¬ StaysInside .refusing (str "vless://h#a@b") ∧
      nodeParseShare .checked .refusing (str "vless://h#a@b") 13 = .error .wrap ∧
      nodeParseShare .machine .refusing (str "vless://h#a@b") 13 = .error .oob := by
  have h : nodeParseShare .checked .refusing (str "vless://h#a@b") 13 = .error .wrap := by decide +kernel
  exact ⟨fun hs => Fault.noConfusion (hs _ h), h, by decide +kernel⟩

/-! ## Null pointers -/

/-- A link with a stray `@` has no part that is duplicated from null: its user part has the `#`, and its host is never
accepted. -/
theorem not_nullPart_of_stray {tok : Tokener} {b : Bytes} {x : Bytes × Bytes} (hs : strayLink b = some x) :
    ¬ NullPart tok b := by
  obtain ⟨⟨type, l⟩, hv, hl⟩ := Option.bind_eq_some_iff.1 hs
  obtain ⟨-, hm, -⟩ := strayAt_parts hl
  simp [NullPart, hv, NullVless, cut_none hm]

/-- No null pointer reaches `xstrdup` except at the parts that `NullPart` lists. -/
theorem noNull_iff (σ : Arith) (tok : Tokener) (line : Bytes) (hlen : line.length < 2 ^ 63) :
    nodeParseShare σ tok line line.length ≠ .error .null ↔ ¬ NullPart tok (trimLine line) := by
  rcases hs : strayLink (trimLine line) with _ | ⟨a, y⟩
  · rw [Ne, nodeParseShare_error_iff σ tok hs]; simp
  refine iff_of_true (fun h => ?_) (not_nullPart_of_stray hs)
  cases σ with
  | checked =>
    have hrun := nodeParseShare_stray_checked tok line [] hs
    rw [List.append_nil, h] at hrun
    split at hrun
    · cases hrun
    · cases hrun
  | machine =>
    have hrun := nodeParseShare_stray_machine tok (b := line) (t := []) hs (by simpa using hlen)
    rw [List.append_nil, h] at hrun
    rcases hrun with ⟨-, hrun⟩ | ⟨-, hrun⟩
    · cases hrun
    · cases hrun

theorem noNull_iff_link : nodeParseShare .machine .refusing (str "vless://u@h:1") 13 ≠ .error .null ↔
    ¬ NullPart .refusing (trimLine (str "vless://u@h:1")) :=
  noNull_iff .machine .refusing (str "vless://u@h:1") (by decide)

/-- `vless://@h:1`: the empty user name is decoded into an unallocated buffer. -/
theorem vless_empty_user : nodeParseShare .machine .refusing (str "vless://@h:1") 12 = .error .null := by
  decide +kernel

end SubConverter
