/-
When a conversion faults. The run over a list of links faults exactly at a line whose split reads behind the line or
that has no text where one is copied, or at a name that cannot be numbered; decoding never does, and neither does the
run over a JSON array.
-/
import SubConverter.Coding.Gate
import SubConverter.Conv.Unique

namespace SubConverter

open CMem Sextet

/-! ## The text of the lines -/

/-- A group of two characters or more has an octet. -/
theorem b64Octets_ne_nil {alphabet d : Bytes} (h : 2 ≤ d.length) : b64Octets alphabet d ≠ [] := by
  rcases d with _ | ⟨p, _ | ⟨q, _ | ⟨r, _ | ⟨s, d⟩⟩⟩⟩
  · simp at h
  · simp at h
  · simp [b64Octets, octets, rest, restOctets]
  · simp [b64Octets, octets, rest, restOctets]
  · simp [b64Octets, octets]

/-- What looks like base64 decodes to some text, or fails. -/
theorem convSrc_ne_error (ctx : ConvCtx) (f : Fault) : convSrc ctx ≠ .error f := by
  unfold convSrc
  by_cases hlooks : base64LooksLike ctx.data = true
  · simp only [if_pos hlooks]
    by_cases hrc : (base64Decode ctx.data .init).1 = 0
    · obtain ⟨d, p, hcoded⟩ := (b64DecodeCore_ok_iff alphabet_std).1 hrc
      have hlen := hcoded.length
      have hpad := hcoded.padded
      have hfour := ((base64LooksLike_iff _).1 hlooks).2.1
      unfold Padded at hpad
      have hne : b64Octets b64StdChars d ≠ [] := b64Octets_ne_nil (by omega)
      have hdecode : base64Decode ctx.data .init = (0, Strbuf.init.push (b64Octets b64StdChars d)) :=
        b64DecodeCore_eq alphabet_std hcoded .init
      rw [hdecode, Strbuf.push_eq _ hne]
      simp [Strbuf.appendBytes]
    · simp [hrc]
  · simp [hlooks]

/-- A line of the text faults where it stands, with the rest of its block behind it, or a node cannot be given a
name. -/
def TextFaults (tok : Tokener) (ctx : ConvCtx) : Prop :=
  ∃ u, convSrc ctx = .ok (some (bodyText ctx ++ 0 :: u)) ∧ ¬ TextSafe tok (bodyText ctx) u

/-! ## The runs -/

theorem convBase64Run_error_iff (tok : Tokener) (ctx : ConvCtx) (outYaml : Option CStr) :
    (∃ f, convBase64Run tok ctx outYaml = .error f) ↔ TextFaults tok ctx := by
  rcases hsrc : convSrc ctx with f | _ | src
  · exact absurd hsrc (convSrc_ne_error ctx f)
  · refine iff_of_false ?_ ?_
    · rintro ⟨f, h⟩
      rw [convBase64Run, hsrc] at h
      cases h
    · rintro ⟨u, h, -⟩
      rw [hsrc] at h
      cases h
  · obtain ⟨u, rfl, hlen⟩ := convSrc_some hsrc
    rcases convBase64Run_src tok outYaml hsrc (nul_not_mem_bodyText ctx) hlen with ⟨hf, e, he⟩ | ⟨hf, hok⟩
    · exact iff_of_true ⟨e, he⟩ ⟨u, hsrc, hf⟩
    · refine iff_of_false ?_ ?_
      · rintro ⟨f, h⟩
        rw [hok] at h
        cases h
      · rintro ⟨u', h, hf'⟩
        have hcut := List.append_cancel_left (Option.some.inj (Except.ok.inj (hsrc.symm.trans h)))
        cases hcut
        exact hf' hf

theorem convSingboxRun_ne_error (tok : Tokener) (ctx : ConvCtx) (outYaml : Option CStr) (f : Fault) :
    convSingboxRun tok ctx outYaml ≠ .error f := by
  by_cases hx : ∃ xs, jsonxParse tok (some ctx.data) = some (.arr xs)
  · obtain ⟨xs, hx⟩ := hx
    rw [convSingboxRun_eq hx]
    exact nofun
  · rw [convSingboxRun_other fun xs hxs => hx ⟨xs, hxs⟩]
    exact nofun

end SubConverter
