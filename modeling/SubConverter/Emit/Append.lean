/-
What the writers do to the buffer they get: they add to its end. Only a base64 coder with nothing to code empties
it first.
-/
import SubConverter.Src.Writers
import SubConverter.Coding.Base64
import SubConverter.Coding.Percent
import SubConverter.Emit.Flow
import SubConverter.Emit.Node

namespace SubConverter

open CMem

/-! ## Appending -/

/-- The call leaves what was in the buffer, and a success adds to it what it writes into an empty one. -/
def AppendsTo (w : Writer) (out : Strbuf) : Prop :=
  ∀ rc out', w.run out = .ok (rc, out') →
    out.bytes <+: out'.bytes ∧
      (rc = 0 → ∃ out₀, w.run .init = .ok (0, out₀) ∧ out'.bytes = out.bytes ++ out₀.bytes)

/-- The function adds the same text to every buffer, with the same return code. -/
def Appends (f : Strbuf → Int × Strbuf) : Prop :=
  ∃ rc text, ∀ out, (f out).1 = rc ∧ (f out).2.bytes = out.bytes ++ text

theorem Appends.of_eq {f : Strbuf → Int × Strbuf} {rc : Int} {text : Bytes} (h : ∀ out, f out = (rc, out.push text)) :
    Appends f :=
  ⟨rc, text, fun out => by rw [h, Strbuf.bytes_push]; exact ⟨rfl, rfl⟩⟩

/-- Writing a byte first. -/
theorem Appends.appendChar {f : Strbuf → Int × Strbuf} (h : Appends f) (c : Byte) :
    Appends fun out => f (out.appendChar c) := by
  obtain ⟨rc, text, h⟩ := h
  refine ⟨rc, c :: text, fun out => ⟨(h _).1, ?_⟩⟩
  rw [(h _).2, Strbuf.bytes_appendChar, List.append_assoc, List.singleton_append]

/-- Refusing the call. -/
theorem Appends.refuse (rc : Int) : Appends fun out => (rc, out) :=
  ⟨rc, [], fun _ => ⟨rfl, (List.append_nil _).symm⟩⟩

/-- Always writing the same text. -/
theorem Appends.of_append {f : Strbuf → Strbuf} {text : Bytes} (h : ∀ out, f out = out.appendBytes text) :
    Appends fun out => (0, f out) :=
  ⟨0, text, fun out => ⟨rfl, congrArg Strbuf.bytes (h out)⟩⟩

theorem AppendsTo.of_appends {w : Writer} {f : Strbuf → Int × Strbuf} (hf : ∀ out, w.run out = .ok (f out))
    (h : Appends f) (out : Strbuf) : AppendsTo w out := by
  obtain ⟨rc₀, text, h⟩ := h
  intro rc out' hrun
  rw [hf] at hrun
  have hout := h out
  rw [Except.ok.inj hrun] at hout
  obtain ⟨rfl, hbytes⟩ := hout
  obtain ⟨hrc, hinit⟩ := h .init
  refine ⟨⟨text, hbytes.symm⟩, fun hzero => ⟨(f .init).2, ?_, ?_⟩⟩
  · rw [hf, ← hzero, ← show (f .init).1 = rc from hrc]
  · rw [show out'.bytes = _ from hbytes, hinit]
    rfl

/-! ## The writers -/

theorem b64DecodeEnd_appends (quad : List Byte) (pad : Nat) : Appends fun out => b64DecodeEnd quad pad out := by
  rcases quad with _ | ⟨q0, _ | ⟨q1, _ | ⟨q2, _ | ⟨q3, q⟩⟩⟩⟩
  · exact .refuse 0
  · exact .refuse (-1)
  · by_cases hpad : pad ≠ 0 ∧ pad ≠ 2
    · simp only [b64DecodeEnd, if_pos hpad]
      exact .refuse (-1)
    · simp only [b64DecodeEnd, if_neg hpad]
      exact (Appends.refuse 0).appendChar _
  · by_cases hpad : pad ≠ 0 ∧ pad ≠ 1
    · simp only [b64DecodeEnd, if_pos hpad]
      exact .refuse (-1)
    · simp only [b64DecodeEnd, if_neg hpad]
      exact ((Appends.refuse 0).appendChar _).appendChar _
  · exact .refuse 0

/-- What was decoded before a failure stays behind the earlier content. -/
theorem b64DecodeLoop_appends (alphabet : Bytes) (b : Bytes) : ∀ (quad : List Byte) (pad : Nat),
    Appends fun out => b64DecodeLoop alphabet b quad pad out := by
  induction b with
  | nil => exact b64DecodeEnd_appends
  | cons c b ih =>
    intro quad pad
    by_cases hws : b64IsWs c = true
    · simp only [b64DecodeLoop, if_pos hws]
      exact ih quad pad
    by_cases heq : c = ch '='
    · simp only [b64DecodeLoop, if_neg hws, if_pos heq]
      split_ifs
      · exact .refuse (-1)
      · exact .refuse (-1)
      · exact ih quad (pad + 1)
    simp only [b64DecodeLoop, if_neg hws, if_neg heq]
    rcases b64CharVal alphabet c with _ | v
    · exact .refuse (-1)
    by_cases hpad : pad > 0
    · simp only [if_pos hpad]
      exact .refuse (-1)
    simp only [if_neg hpad]
    split
    · -- a full group of four gives three bytes
      exact (((ih [] pad).appendChar _).appendChar _).appendChar _
    · exact ih _ pad

theorem decodeSpan_appends {decode : Bytes → Strbuf → Int × Strbuf} (h : ∀ b, Appends (decode b)) (input : Span) :
    Appends fun out => decodeSpan decode input out := by
  cases input with
  | null len =>
    by_cases hlen : len > 0
    · simp only [decodeSpan, if_pos hlen]
      exact .refuse (-1)
    · simp only [decodeSpan, if_neg hlen]
      exact h []
  | bytes b => exact h b

/-- With something to code, also behind a null pointer. -/
theorem encodeSpan_appends {alphabet : Bytes} {withPadding : Bool} {data : Span} (h : data.len ≠ 0) :
    Appends fun out => encodeSpan (fun b out => b64EncodeCore b out alphabet withPadding) data out := by
  cases data with
  | null len =>
    simp only [encodeSpan, if_neg (show ¬ len = 0 from h)]
    exact .refuse (-1)
  | bytes b =>
    have hb : b ≠ [] := fun hb => h (by rw [hb]; rfl)
    simp only [encodeSpan, b64EncodeCore, if_neg hb]
    exact .of_eq fun out => by rw [b64EncodeLoop_eq]

theorem yamlEmitDashKvOpen_eq (out : Strbuf) (indent : Nat) (key : String) :
    yamlEmitDashKvOpen out indent key = out.appendBytes (Line.text ⟨indent, true, some key, none⟩) := by
  simp [yamlEmitDashKvOpen, Strbuf.appendStr, Strbuf.appendBytes_appendBytes, emitIndent_appendBytes, Line.text,
    Line.head, Line.tail, str, ch]

namespace Writer

/-- A base64 coder that has nothing to code. -/
def codesNothing : Writer → Bool
  | base64Encode data => data.len == 0
  | base64EncodeUrl data => data.len == 0
  | _ => false

/-- Nothing to code: the buffer is emptied. -/
theorem run_clear {w : Writer} (h : w.codesNothing = true) (out : Strbuf) : w.run out = .ok (0, out.clear) := by
  have hspan : ∀ {alphabet withPadding} {data : Span}, data.len = 0 →
      encodeSpan (fun b out => b64EncodeCore b out alphabet withPadding) data out = (0, out.clear) := by
    intro alphabet withPadding data hdata
    cases data with
    | null len => exact if_pos hdata
    | bytes b => rw [encodeSpan, List.length_eq_zero_iff.1 hdata, b64EncodeCore, if_pos rfl]
  cases w with
  | base64Encode data => exact congrArg Except.ok (hspan (beq_iff_eq.1 h))
  | base64EncodeUrl data => exact congrArg Except.ok (hspan (beq_iff_eq.1 h))
  | _ => cases h

/-- Any other call reads a null pointer or appends. -/
theorem run_spec {w : Writer} (h : w.codesNothing = false) :
    (∃ e, ∀ out, w.run out = .error e) ∨ ∃ f, (∀ out, w.run out = .ok (f out)) ∧ Appends f := by
  cases w with
  | base64Encode data => exact .inr ⟨_, fun _ => rfl, encodeSpan_appends (beq_eq_false_iff_ne.1 h)⟩
  | base64EncodeUrl data => exact .inr ⟨_, fun _ => rfl, encodeSpan_appends (beq_eq_false_iff_ne.1 h)⟩
  | base64Decode input =>
    exact .inr ⟨_, fun _ => rfl, decodeSpan_appends (fun b => b64DecodeLoop_appends _ b [] 0) input⟩
  | base64DecodeUrl input =>
    exact .inr ⟨_, fun _ => rfl, decodeSpan_appends (fun b => b64DecodeLoop_appends _ b [] 0) input⟩
  | urlEncode input =>
    rcases input with ⟨_ | len⟩ | b
    · exact .inr ⟨_, fun _ => rfl, .refuse 0⟩
    · exact .inl ⟨.null, fun _ => rfl⟩
    · exact .inr ⟨_, fun _ => rfl, .of_eq fun out => by rw [urlEncode_eq]⟩
  | urlDecode input =>
    rcases input with ⟨_ | len⟩ | b
    · exact .inr ⟨_, fun _ => rfl, .refuse 0⟩
    · exact .inl ⟨.null, fun _ => rfl⟩
    · refine .inr ⟨fun out => (urlRc b, out.push (urlText b).1), fun out => ?_, .of_eq fun _ => rfl⟩
      have hdecode := urlDecode_eq b [] out
      rwa [List.append_nil] at hdecode
  | yamlQuote s =>
    cases s with
    | null len => exact .inr ⟨_, fun _ => rfl, .of_append fun out => yamlQuote_eq [] out⟩
    | bytes b => exact .inr ⟨_, fun _ => rfl, .of_append fun out => yamlQuote_eq b out⟩
  | yamlEmitKv indent key value => exact .inr ⟨_, fun _ => rfl, .of_append fun out => yamlEmitKv_eq out _ _ _⟩
  | yamlEmitKvInt indent key value => exact .inr ⟨_, fun _ => rfl, .of_append fun out => yamlEmitKvInt_eq out _ _ _⟩
  | yamlEmitKvBool indent key value => exact .inr ⟨_, fun _ => rfl, .of_append fun out => yamlEmitKvBool_eq out _ _ _⟩
  | yamlEmitDash indent value => exact .inr ⟨_, fun _ => rfl, .of_append fun out => yamlEmitDash_eq out _ _⟩
  | yamlEmitDashKv indent key value => exact .inr ⟨_, fun _ => rfl, .of_append fun out => yamlEmitDashKv_eq out _ _ _⟩
  | yamlEmitDashKvOpen indent key => exact .inr ⟨_, fun _ => rfl, .of_append fun out => yamlEmitDashKvOpen_eq out _ _⟩
  | yamlEmitFlowList items => exact .inr ⟨_, fun _ => rfl, .of_append fun out => yamlEmitFlowList_eq out items⟩
  | nodeEmitYaml n =>
    cases n with
    | none => exact .inr ⟨_, fun _ => rfl, .refuse (-1)⟩
    | some n =>
      refine .inr ⟨fun out => SubConverter.nodeEmitYaml out n, fun _ => rfl, if n.type.emits then 0 else -1,
        (nodeLines n).flatMap Line.text, fun out => ?_⟩
      show (SubConverter.nodeEmitYaml out n).1 = _ ∧ (SubConverter.nodeEmitYaml out n).2.bytes = _
      rw [nodeEmitYaml_eq, Strbuf.bytes_appendLines]
      exact ⟨rfl, rfl⟩

end Writer

/-- A call appends except when a base64 coder has nothing to code and the buffer is not empty. -/
theorem appends_iff (w : Writer) (out : Strbuf) : AppendsTo w out ↔ ¬ (w.codesNothing = true ∧ out.bytes ≠ []) := by
  constructor
  · rintro h ⟨hw, hne⟩
    obtain ⟨hpre, -⟩ := h 0 out.clear (w.run_clear hw out)
    rw [Strbuf.bytes_clear] at hpre
    exact hne (List.prefix_nil.1 hpre)
  · intro h
    by_cases hw : w.codesNothing = true
    · have hnil : out.bytes = [] := by
        by_contra hne
        exact h ⟨hw, hne⟩
      intro rc out' hrun
      rw [w.run_clear hw] at hrun
      cases hrun
      rw [hnil]
      exact ⟨List.nil_prefix, fun _ => ⟨_, w.run_clear hw .init, by simp⟩⟩
    · rcases Writer.run_spec (Bool.eq_false_iff.2 hw) with ⟨e, he⟩ | ⟨f, hf, happends⟩
      · intro rc out' hrun
        rw [he] at hrun
        cases hrun
      · exact .of_appends hf happends out

/-- Coding nothing throws away the scheme that was written before. -/
theorem base64Encode_nothing_clears : ¬ AppendsTo (.base64Encode (.bytes [])) (Strbuf.init.appendStr "ss://") := by
  intro h
  obtain ⟨hpre, -⟩ := h 0 ⟨some []⟩ rfl
  exact absurd hpre (by decide)

end SubConverter
