/-
The transport parameters in the text of a node. `emit_vless` writes those of ws and xhttp, `emit_vmess` and
`emit_trojan` those of ws; the other parameters the parser stores are not written.
-/
import SubConverter.Emit.Skeleton

namespace SubConverter

open CMem Line

/-! ## Parameters -/

/-- The types a link `user@host:port` gives. -/
def userTypes : List NodeType := [.vless, .vmess, .trojan]

/-- The parameters of a node's transport, a null pointer as the empty string. -/
def transportParams (n : ProxyNode) : List CStr :=
  match n.transport with
  | .ws => [nvl n.wsPath, nvl n.wsHost]
  | .xhttp => [nvl n.xhttpHost, nvl n.xhttpPath, nvl n.xhttpMode]
  | .grpc => [nvl n.grpcService]
  | .http => [nvl n.xhttpHost, nvl n.xhttpPath]
  | .none => []

/-- Everything but the parameters of a node's transport. -/
def withoutParams (n : ProxyNode) : ProxyNode :=
  match n.transport with
  | .ws => { n with wsPath := none, wsHost := none }
  | .xhttp => { n with xhttpHost := none, xhttpPath := none, xhttpMode := none }
  | .grpc => { n with grpcService := none }
  | .http => { n with xhttpHost := none, xhttpPath := none }
  | .none => n

/-- The options of this transport are written for this type. -/
def writesOptions (type : NodeType) (transport : NodeTransport) : Bool :=
  transport == .ws || (type == .vless && transport == .xhttp)

/-- The lines of the options. -/
def optionLines (n : ProxyNode) : List Line :=
  (if n.transport = .ws then wsLines n else []) ++
    if n.type = .vless ∧ n.transport = .xhttp then xhttpLines n else []

/-- The text of a node shows its transport parameters: two nodes that differ in them only have the same text
exactly when they do not differ. -/
def ShowsParams (out : Strbuf) (n m : ProxyNode) : Prop :=
  (nodeEmitYaml out n).2.bytes = (nodeEmitYaml out m).2.bytes ↔ transportParams n = transportParams m

/-- The node with the parameters of another one. -/
def setParams (n p : ProxyNode) : ProxyNode :=
  { n with
    wsPath := p.wsPath, wsHost := p.wsHost, xhttpHost := p.xhttpHost, xhttpPath := p.xhttpPath,
    xhttpMode := p.xhttpMode, grpcService := p.grpcService }

theorem setParams_withoutParams (n p : ProxyNode) : setParams (withoutParams n) p = setParams n p := by
  unfold withoutParams
  split <;> rfl

theorem eq_setParams {n m : ProxyNode} (h : withoutParams n = withoutParams m) : m = setParams n m := by
  rw [← setParams_withoutParams n m, h, setParams_withoutParams]
  rfl

/-! ## Lines -/

/-- Only the options depend on the parameters. -/
theorem nodeLines_options {n : ProxyNode} (ht : n.type ∈ userTypes) (p : ProxyNode) :
    ∃ base, nodeLines n = base ++ optionLines n ∧
      nodeLines (setParams n p) = base ++ optionLines (setParams n p) := by
  have hother : NodeType.vmess ≠ .vless ∧ NodeType.trojan ≠ .vless := by decide
  have htype : (setParams n p).type = n.type := rfl
  simp only [userTypes, List.mem_cons, List.not_mem_nil, or_false] at ht
  -- the options stand last for each type; the lines before them do not read the parameters
  rcases ht with ht | ht | ht
  · simp only [nodeLines, optionLines, vlessLines, htype, ht, true_and, ← List.append_assoc]
    exact ⟨_, rfl, rfl⟩
  · simp only [nodeLines, optionLines, vmessLines, htype, ht, hother.1, false_and, if_false, List.append_nil,
      ← List.append_assoc]
    exact ⟨_, rfl, rfl⟩
  · simp only [nodeLines, optionLines, trojanLines, htype, ht, hother.2, false_and, if_false, List.append_nil,
      ← List.cons_append, ← List.append_assoc]
    exact ⟨_, rfl, rfl⟩

theorem wsLines_injective {n m : ProxyNode}
    (h : (wsLines n).flatMap Line.text = (wsLines m).flatMap Line.text) :
    nvl n.wsPath = nvl m.wsPath ∧ nvl n.wsHost = nvl m.wsHost := by
  have hlines := congrArg (List.splitOn 10) h
  rw [splitOn_lines (keyOk_wsLines n), splitOn_lines (keyOk_wsLines m), List.append_cancel_right_eq] at hlines
  simp only [wsLines, List.map_cons, List.zipWith_cons_cons, List.cons.injEq] at hlines
  obtain ⟨-, hpath, -, hhost, -⟩ := hlines
  exact ⟨strKv_injective hpath, strKv_injective hhost⟩

theorem xhttpLines_injective {n m : ProxyNode}
    (h : (xhttpLines n).flatMap Line.text = (xhttpLines m).flatMap Line.text) :
    nvl n.xhttpHost = nvl m.xhttpHost ∧ nvl n.xhttpPath = nvl m.xhttpPath ∧ nvl n.xhttpMode = nvl m.xhttpMode := by
  have hlines := congrArg (List.splitOn 10) h
  rw [splitOn_lines (keyOk_xhttpLines n), splitOn_lines (keyOk_xhttpLines m), List.append_cancel_right_eq] at hlines
  simp only [xhttpLines, List.map_cons, List.zipWith_cons_cons, List.cons.injEq] at hlines
  obtain ⟨-, hhost, hpath, hmode, -⟩ := hlines
  exact ⟨strKv_injective hhost, strKv_injective hpath, strKv_injective hmode⟩

/-- The options of two nodes of one type and transport have one text when nothing is written, or when the
parameters are the same. -/
theorem optionLines_text_iff {n m : ProxyNode} (htype : m.type = n.type) (htransport : m.transport = n.transport) :
    (optionLines n).flatMap Line.text = (optionLines m).flatMap Line.text ↔
      (writesOptions n.type n.transport = true → transportParams n = transportParams m) := by
  unfold optionLines transportParams
  rw [htype, htransport]
  rcases ht : n.transport with _ | _ | _ | _ | _
  · simp
  · -- ws: written for every type
    constructor
    · intro h _
      simp only [if_true, reduceCtorEq, and_false, if_false, List.append_nil] at h
      obtain ⟨hpath, hhost⟩ := wsLines_injective h
      rw [hpath, hhost]
    · intro h
      have hparams := h rfl
      simp only [List.cons.injEq, and_true] at hparams
      simp only [if_true, reduceCtorEq, and_false, if_false, List.append_nil, wsLines, hparams.1, hparams.2]
  · -- xhttp: written by `emit_vless` only
    by_cases hv : n.type = .vless
    · simp only [reduceCtorEq, if_false, List.nil_append, hv, and_self, if_true]
      constructor
      · intro h _
        obtain ⟨hhost, hpath, hmode⟩ := xhttpLines_injective h
        rw [hhost, hpath, hmode]
      · intro h
        have hparams := h rfl
        simp only [List.cons.injEq, and_true] at hparams
        simp only [xhttpLines, hparams.1, hparams.2.1, hparams.2.2]
    · simp [hv, writesOptions]
  · simp [writesOptions]
  · simp [writesOptions]

/-- The text of a node shows exactly the parameters that are written. -/
theorem emit_params_iff (out : Strbuf) {n m : ProxyNode} (ht : n.type ∈ userTypes)
    (h : withoutParams n = withoutParams m) :
    (nodeEmitYaml out n).2.bytes = (nodeEmitYaml out m).2.bytes ↔
      (writesOptions n.type n.transport = true → transportParams n = transportParams m) := by
  obtain ⟨base, hn, hm⟩ := nodeLines_options ht m
  rw [← eq_setParams h] at hm
  have htype : m.type = n.type := by rw [eq_setParams h]; rfl
  have htransport : m.transport = n.transport := by rw [eq_setParams h]; rfl
  rw [← optionLines_text_iff htype htransport, nodeEmitYaml_eq, nodeEmitYaml_eq, Strbuf.bytes_appendLines,
    Strbuf.bytes_appendLines, List.append_cancel_left_eq, hn, hm, List.flatMap_append, List.flatMap_append,
    List.append_cancel_left_eq]

/-! ## Emission -/

/-- The text of a node shows its parameters exactly when they are written or there is no difference to show. -/
theorem emit_shows_params_iff (out : Strbuf) {n m : ProxyNode} (ht : n.type ∈ userTypes)
    (h : withoutParams n = withoutParams m) :
    ShowsParams out n m ↔ writesOptions n.type n.transport = true ∨ transportParams n = transportParams m := by
  unfold ShowsParams
  rw [emit_params_iff out ht h]
  constructor
  · intro hshows
    by_cases hw : writesOptions n.type n.transport = true
    · exact .inl hw
    · exact .inr (hshows.1 fun hw' => absurd hw' hw)
  · rintro (hw | hparams)
    · exact ⟨fun himp => himp hw, fun hparams _ => hparams⟩
    · exact ⟨fun _ => hparams, fun _ _ => hparams⟩

/-- Two nodes with different paths for their ws transport. -/
theorem emit_shows_path :
    ShowsParams .init { nodeInit with type := .trojan, transport := .ws, wsPath := some (.lit "/a") }
      { nodeInit with type := .trojan, transport := .ws, wsPath := some (.lit "/b") } :=
  (emit_shows_params_iff .init (by decide) (by decide)).2 (.inl (by decide))

/-- The service name of a grpc transport is not written: these two nodes are different and have one text. -/
theorem emit_hides_service :
    let n := { nodeInit with type := .vless, transport := .grpc, grpcService := some (.lit "a") }
    let m := { nodeInit with type := .vless, transport := .grpc, grpcService := some (.lit "b") }
    withoutParams n = withoutParams m ∧ transportParams n ≠ transportParams m ∧
      (nodeEmitYaml .init n).2.bytes = (nodeEmitYaml .init m).2.bytes := by
  decide +kernel

end SubConverter
