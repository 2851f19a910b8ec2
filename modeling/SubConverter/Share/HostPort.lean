/-
The texts `parse_host_port` takes: a host and a port of decimal digits. Its check of the port is that of
`strtol` on a C string, so it also takes blanks or a `+` before the digits, and anything behind a NUL.
-/
import SubConverter.Share.Encoded

namespace SubConverter

open CMem

/-! ## Texts -/

/-- A `host:port` text with its two parts, unchecked. -/
inductive HostText : Bytes → Bytes → Bytes → Prop
  | bracket {h p : Bytes} : ch ']' ∉ h → HostText (ch '[' :: (h ++ ch ']' :: ch ':' :: p)) h p
  | bare {h p : Bytes} : h.head? ≠ some (ch '[') → ch ':' ∉ p → HostText (h ++ ch ':' :: p) h p

/-- One to fifteen digits with a value in range. -/
structure PortText (p : Bytes) (v : Nat) : Prop where
  nonempty : p ≠ []
  length : p.length ≤ 15
  digits : ∀ c ∈ p, isDigit c = true
  value : decValue p = v
  range : 1 ≤ v ∧ v ≤ 65535

/-- `parse_host_port` takes the texts of host and port and returns their parts; on any other input it
returns -1, which is `none`, and neither output is written. -/
structure HostPortExact (s : Bytes) : Prop where
  accepts : ∀ h p v, HostText s h p → h ≠ [] → PortText p v → ∀ σ t,
    parseHostPort σ (s ++ t) s.length = .ok (some (CStr.ofBytes h, (v : Int)))
  refuses : (¬ ∃ h p v, HostText s h p ∧ h ≠ [] ∧ PortText p v) → ∀ σ t,
    parseHostPort σ (s ++ t) s.length = .ok none

/-- At most fifteen bytes that are not all digits, and up to the first NUL are blanks, a `+` or nothing, and
digits with a value in range. -/
structure LenientPort (p : Bytes) : Prop where
  length : p.length ≤ 15
  other : ∃ c ∈ p, isDigit c = false
  positive : ∃ n ws sign ds, PositiveText (p.takeWhile (· ≠ 0)) n ws sign ds ∧ 1 ≤ n ∧ n ≤ 65535

/-! ## The parts -/

theorem hostSegs_iff {s h p : Bytes} : hostSegs s = some (h, p) ↔ HostText s h p := by
  constructor
  · intro hs
    by_cases hb : s.head? = some (ch '[')
    · obtain ⟨r, rfl⟩ := List.head?_eq_some_iff.1 hb
      obtain ⟨rfl, hno⟩ := hostSegs_bracket.1 hs
      exact .bracket hno
    · rw [hostSegs, if_neg hb] at hs
      rcases last_split (ch ':') s with hno | ⟨x, y, rfl, hy⟩
      · rw [cutLast_none hno] at hs
        cases hs
      · rw [cutLast_append hy] at hs
        cases hs
        refine .bare (fun hh => hb ?_) hy
        rw [List.head?_append, hh]
        rfl
  · rintro (⟨hno⟩ | ⟨hhead, hno⟩)
    · exact hostSegs_bracket.2 ⟨rfl, hno⟩
    · have hb : (h ++ ch ':' :: p).head? ≠ some (ch '[') := by
        rw [List.head?_append]
        rcases hh : h.head? with _ | a
        · rw [Option.none_or, List.head?_cons]
          decide
        · rw [hh] at hhead
          exact hhead
      rw [hostSegs, if_neg hb, cutLast_append hno]

/-- A port is accepted as digits, or in one of the other forms `strtol` takes. -/
theorem intText_port_iff {p : Bytes} (hlen : p.length ≤ 15) {n : Nat} (h1 : 1 ≤ n) (h2 : n ≤ 65535) :
    intText (CStr.ofBytes p).bytes = some (n : Int) ↔
      PortText p n ∨ (LenientPort p ∧ ∃ ws sign ds, PositiveText (p.takeWhile (· ≠ 0)) n ws sign ds) := by
  rw [show (CStr.ofBytes p).bytes = p.takeWhile (· ≠ 0) from rfl, intText_pos_iff h1]
  constructor
  · rintro ⟨ws, sign, ds, h⟩
    by_cases hd : ∀ c ∈ p, isDigit c = true
    · have h0 : (0 : Byte) ∉ p := fun hm => absurd (hd 0 hm) (by decide)
      have hp : p.takeWhile (· ≠ 0) = p := CStr.ofBytes_bytes h0
      have hne : p ≠ [] := by
        rintro rfl
        have := congrArg List.length h.text
        have := List.length_pos_iff.2 h.nonempty
        simp only [List.takeWhile_nil, List.length_nil, List.length_append] at *
        omega
      have hval := (intText_pos_iff h1).2 ⟨ws, sign, ds, h⟩
      rw [hp, intText_digits hne hd] at hval
      exact .inl ⟨hne, hlen, hd, by exact_mod_cast Option.some.inj hval, h1, h2⟩
    · push Not at hd
      obtain ⟨c, hc, hno⟩ := hd
      exact .inr ⟨⟨hlen, ⟨c, hc, by simpa using hno⟩, n, ws, sign, ds, h, h1, h2⟩, ws, sign, ds, h⟩
  · rintro (h | ⟨-, h⟩)
    · have h0 : (0 : Byte) ∉ p := fun hm => absurd (h.digits 0 hm) (by decide)
      have hp : p.takeWhile (· ≠ 0) = p := CStr.ofBytes_bytes h0
      rw [hp]
      exact ⟨[], [], p, rfl, by simp, .inl rfl, h.nonempty, h.digits, h.value⟩
    · exact h

/-! ## Exactness -/

theorem hostPort_text_iff {s : Bytes} {host : CStr} {port : Int} : hostPort s = some (host, port) ↔
    ∃ h p n, HostText s h p ∧ h ≠ [] ∧ host = CStr.ofBytes h ∧ port = (n : Nat) ∧ 1 ≤ n ∧ n ≤ 65535 ∧
      (PortText p n ∨ (LenientPort p ∧ ∃ ws sign ds, PositiveText (p.takeWhile (· ≠ 0)) n ws sign ds)) := by
  rw [hostPort_some]
  constructor
  · rintro ⟨h, p, hs, hne, hlen, hhost, hport, h1, h2⟩
    obtain ⟨n, rfl⟩ := Int.eq_ofNat_of_zero_le (by omega : 0 ≤ port)
    exact ⟨h, p, n, hostSegs_iff.1 hs, hne, hhost, rfl, by omega, by omega,
      (intText_port_iff (by omega) (by omega) (by omega)).1 hport⟩
  · rintro ⟨h, p, n, hs, hne, hhost, rfl, h1, h2, hp⟩
    have hlen : p.length ≤ 15 := hp.elim PortText.length fun h => h.1.length
    exact ⟨h, p, hostSegs_iff.2 hs, hne, by omega, hhost, (intText_port_iff hlen h1 h2).2 hp, by omega, by omega⟩

/-- `parse_host_port` takes exactly the texts of host and port, unless the port is one of the other forms
`strtol` takes. -/
theorem hostPortExact_iff (s : Bytes) : HostPortExact s ↔ ¬ ∃ h p, HostText s h p ∧ h ≠ [] ∧ LenientPort p := by
  constructor
  · rintro hs ⟨h, p, ht, hne, hp⟩
    obtain ⟨n, ws, sign, ds, hn, h1, h2⟩ := hp.positive
    have hsome : hostPort s = some (CStr.ofBytes h, (n : Int)) :=
      hostPort_text_iff.2 ⟨h, p, n, ht, hne, rfl, rfl, h1, h2, .inr ⟨hp, ws, sign, ds, hn⟩⟩
    have hnone := hs.refuses ?_ .machine []
    · rw [parseHostPort_eq, hsome] at hnone
      cases hnone
    · rintro ⟨h', p', v, ht', -, hv⟩
      -- the parts of a text are unique, so that the port text would be all digits
      have hparts := (hostSegs_iff.2 ht').symm.trans (hostSegs_iff.2 ht)
      cases hparts
      obtain ⟨c, hc, hno⟩ := hp.other
      rw [hv.digits c hc] at hno
      cases hno
  · intro hs
    refine ⟨fun h p v ht hne hv σ t => ?_, fun hno σ t => ?_⟩
    · rw [parseHostPort_eq, hostPort_text_iff.2 ⟨h, p, v, ht, hne, rfl, rfl, hv.range.1, hv.range.2, .inl hv⟩]
    · rw [parseHostPort_eq]
      rcases hr : hostPort s with _ | ⟨host, port⟩
      · rfl
      · obtain ⟨h, p, n, ht, hne, -, -, -, -, hp | ⟨hp, -⟩⟩ := hostPort_text_iff.1 hr
        · exact absurd ⟨h, p, n, ht, hne, hp⟩ hno
        · exact absurd ⟨h, p, ht, hne, hp⟩ hs

/-- A port text that is not digits is accepted where it should not be. -/
theorem not_exact_of_accepted {p : Bytes} (hp : ch ':' ∉ p) (hd : ∃ c ∈ p, isDigit c = false)
    (hrun : parseHostPort .machine (str "h:" ++ p) (str "h:" ++ p).length = .ok (some (.lit "h", 80))) :
    ¬ HostPortExact (str "h:" ++ p) := by
  intro h
  have hno : ¬ ∃ h q v, HostText (str "h:" ++ p) h q ∧ h ≠ [] ∧ PortText q v := by
    rintro ⟨h, q, v, ht, -, hv⟩
    obtain ⟨c, hc, hd⟩ := hd
    have hparts := (hostSegs_iff.2 ht).symm.trans (hostSegs_iff.2 (@HostText.bare (str "h") p (by decide) hp))
    cases hparts
    rw [hv.digits c hc] at hd
    cases hd
  have hr := h.refuses hno .machine []
  rw [List.append_nil, hrun] at hr
  cases hr

/-- A blank or a `+` before the port and a NUL behind it are accepted. -/
theorem hostPort_not_exact : ¬ HostPortExact (str "h: 80") ∧ ¬ HostPortExact (str "h:+80") ∧
    ¬ HostPortExact (str "h:80" ++ 0 :: str "x") := by
  refine ⟨?_, ?_, ?_⟩
  · exact @not_exact_of_accepted (str " 80") (by decide) (by decide) (by decide +kernel)
  · exact @not_exact_of_accepted (str "+80") (by decide) (by decide) (by decide +kernel)
  · exact @not_exact_of_accepted (str "80" ++ 0 :: str "x") (by decide) (by decide) (by decide +kernel)

end SubConverter
