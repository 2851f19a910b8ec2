/-
The strings of a node: those `node_emit_yaml` writes are valid UTF-8 when its fields are.
-/
import SubConverter.Emit.Utf8

namespace SubConverter

open CMem Line

/-! ## Valid strings -/

/-- All strings of the list are valid. -/
def AllValid (ss : List CStr) : Prop := ∀ s ∈ ss, utf8.Valid s.bytes

/-- A string field, when there is one. -/
def OptValid (p : Option CStr) : Prop := ∀ s, p = some s → utf8.Valid s.bytes

theorem valid_lit {k : String} (h : keyOk k = true) : utf8.Valid (CStr.lit k).bytes :=
  PrefixCode.valid_of_plain fun c hc => str_plain h c (List.takeWhile_subset _ hc)

theorem valid_ofBytes {s : Bytes} (h : utf8.Valid s) : utf8.Valid (CStr.ofBytes s).bytes :=
  h.takeWhile_ne (plain_iff.2 (by decide))

theorem optValid_none : OptValid none := nofun

theorem optValid_some {s : CStr} (h : utf8.Valid s.bytes) : OptValid (some s) := by rintro _ ⟨⟩; exact h

theorem OptValid.or {p q : Option CStr} (hp : OptValid p) (hq : OptValid q) : OptValid (p.or q) := by
  rcases p with _ | s
  · exact hq
  · exact hp

theorem OptValid.nvl {p : Option CStr} (h : OptValid p) : utf8.Valid (nvl p).bytes := by
  rcases p with _ | s
  · exact valid_lit rfl
  · exact h s rfl

/-! ## The fields of a node -/

/-- A node whose written string fields are valid, the name apart. -/
structure ProxyNode.FieldsValid (n : ProxyNode) : Prop where
  server : OptValid n.server
  uuid : OptValid n.uuid
  password : OptValid n.password
  cipher : OptValid n.cipher
  sni : OptValid n.sni
  fp : OptValid n.fp
  realityPbk : OptValid n.realityPbk
  realitySid : OptValid n.realitySid
  wsPath : OptValid n.wsPath
  wsHost : OptValid n.wsHost
  xhttpHost : OptValid n.xhttpHost
  xhttpPath : OptValid n.xhttpPath
  xhttpMode : OptValid n.xhttpMode
  plugin : OptValid n.plugin
  pluginOpts : OptValid n.pluginOpts

/-- The strings `node_emit_yaml` writes for the node. -/
def ProxyNode.written (n : ProxyNode) : List CStr := (nodeLines n).filterMap Line.string

def Line.StringValid (l : Line) : Prop := OptValid l.string

theorem optValid_some_iff {s : CStr} : OptValid (some s) ↔ utf8.Valid s.bytes := ⟨fun h => h s rfl, optValid_some⟩

theorem valid_nvl {p : Option CStr} : utf8.Valid (nvl p).bytes ↔ OptValid p := by
  rcases p with _ | s
  · exact iff_of_true (valid_lit rfl) optValid_none
  · exact optValid_some_iff.symm

/-- The empty string is valid. -/
theorem optValid_of_not_given {p : Option CStr} (h : given p = false) : OptValid p := by
  rintro s rfl
  have hs : s.bytes = [] := by simpa [given] using h
  rw [hs]
  exact .nil

theorem stringValid_strKv {indent : Nat} {key : String} {s : CStr} :
    (strKv indent key s).StringValid ↔ utf8.Valid s.bytes := optValid_some_iff

theorem stringValid_itemKv {indent : Nat} {key : String} {s : CStr} :
    (itemKv indent key s).StringValid ↔ utf8.Valid s.bytes := optValid_some_iff

theorem stringValid_kv {indent : Nat} {key : String} {p : Option CStr} :
    (kv indent key (p.map .str)).StringValid ↔ OptValid p := by
  rcases p with _ | s
  · rfl
  · exact Iff.rfl

theorem stringValid_open {indent : Nat} {key : String} : (kv indent key none).StringValid ↔ True :=
  iff_true_intro optValid_none

theorem stringValid_int {indent : Nat} {key : String} {i : Int} : (kv indent key (some (.int i))).StringValid ↔ True :=
  iff_true_intro optValid_none

theorem stringValid_bool {indent : Nat} {key : String} {b : Bool} : (kv indent key (some (.bool b))).StringValid ↔ True :=
  iff_true_intro optValid_none

theorem stringValid_optKv {cond : Bool} {indent : Nat} {key : String} {p : Option CStr} :
    (∀ l ∈ optKv cond indent key p, l.StringValid) ↔ (cond = true → OptValid p) := by
  cases cond
  · simp [optKv]
  · simpa [optKv] using stringValid_kv

theorem valid_networkName (t : NodeTransport) : utf8.Valid (networkName t).bytes := by
  cases t <;> exact valid_lit rfl

theorem forall_mem_ite_iff {α : Type} {P : α → Prop} {c : Prop} [Decidable c] {l : List α} :
    (∀ a ∈ (if c then l else []), P a) ↔ (c → ∀ a ∈ l, P a) := by
  by_cases h : c <;> simp [h]

/-! ## What is written -/

namespace ProxyNode

variable {n : ProxyNode}

/-- The fields of the ws options. -/
def WsValid (n : ProxyNode) : Prop := OptValid n.wsPath ∧ OptValid n.wsHost

/-- The fields of the xhttp options. -/
def XhttpValid (n : ProxyNode) : Prop := OptValid n.xhttpHost ∧ OptValid n.xhttpPath ∧ OptValid n.xhttpMode

/-- The fields of the reality options, with the fingerprint. -/
def RealityValid (n : ProxyNode) : Prop := OptValid n.fp ∧ OptValid n.realityPbk ∧ OptValid n.realitySid

/-- The fields that are written for the node's type, security and transport are valid. -/
def WrittenValid (n : ProxyNode) : Prop :=
  OptValid n.name ∧ OptValid n.server ∧
    match n.type with
    | .vless => OptValid n.uuid ∧ (n.tls ≠ .none → OptValid n.sni) ∧ (n.tls = .reality → n.RealityValid) ∧
        (n.transport = .ws → n.WsValid) ∧ (n.transport = .xhttp → n.XhttpValid)
    | .vmess => OptValid n.uuid ∧ OptValid n.cipher ∧ (n.tls ≠ .none → OptValid n.sni) ∧ (n.transport = .ws → n.WsValid)
    | .shadowsocks => OptValid n.cipher ∧ OptValid n.password ∧ OptValid n.plugin ∧ OptValid n.pluginOpts
    | .trojan => OptValid n.password ∧ (n.tls ≠ .none → OptValid n.sni) ∧ (n.tls = .reality → n.RealityValid) ∧
        (n.transport = .ws → n.WsValid)
    | _ => True

theorem forall_wsLines : (∀ l ∈ wsLines n, l.StringValid) ↔ n.WsValid := by
  simp only [wsLines, List.forall_mem_cons, List.not_mem_nil, false_imp_iff, implies_true, and_true, stringValid_open,
    stringValid_strKv, valid_nvl, true_and, WsValid]

theorem forall_xhttpLines : (∀ l ∈ xhttpLines n, l.StringValid) ↔ n.XhttpValid := by
  simp only [xhttpLines, List.forall_mem_cons, List.not_mem_nil, false_imp_iff, implies_true, and_true, stringValid_open,
    stringValid_strKv, valid_nvl, true_and, XhttpValid]

theorem given_imp_optValid {p : Option CStr} : (given p = true → OptValid p) ↔ OptValid p := by
  refine ⟨fun h => ?_, fun h _ => h⟩
  by_cases hg : given p = true
  · exact h hg
  · exact optValid_of_not_given (by simpa using hg)

theorem isSome_imp_optValid {p : Option CStr} : (p.isSome = true → OptValid p) ↔ OptValid p := by
  cases p with
  | none => simp [optValid_none]
  | some s => simp

theorem forall_realityLines : (∀ l ∈ realityLines n, l.StringValid) ↔ n.RealityValid := by
  rw [realityLines, List.forall_mem_append, stringValid_optKv, given_imp_optValid, forall_mem_ite_iff, RealityValid]
  refine and_congr_right fun _ => ?_
  rw [List.forall_mem_cons, List.forall_mem_append, stringValid_optKv, stringValid_optKv, isSome_imp_optValid,
    isSome_imp_optValid, stringValid_open, true_and]
  refine ⟨fun h => ?_, fun h _ => h⟩
  by_cases hg : (n.realityPbk.isSome || n.realitySid.isSome) = true
  · exact h hg
  · simp only [Bool.or_eq_true, not_or, Bool.not_eq_true, Option.isSome_eq_false_iff, Option.isNone_iff_eq_none] at hg
    rw [hg.1, hg.2]
    exact ⟨optValid_none, optValid_none⟩

/-- The server name is written with a security. -/
theorem forall_sniLines {indent : Nat} {key : String} :
    (∀ l ∈ optKv (n.tls != .none && given n.sni) indent key n.sni, l.StringValid) ↔ (n.tls ≠ .none → OptValid n.sni) := by
  rw [stringValid_optKv, Bool.and_eq_true, and_imp, given_imp_optValid, bne_iff_ne]

theorem forall_nodeLines : (∀ l ∈ nodeLines n, l.StringValid) ↔ (n.type.emits = true → n.WrittenValid) := by
  have hcipher : OptValid (if given n.cipher then n.cipher else some (.lit "auto")) ↔ OptValid n.cipher := by
    by_cases hg : given n.cipher = true
    · rw [if_pos hg]
    · exact iff_of_true (by rw [if_neg hg]; exact optValid_some (valid_lit rfl))
        (optValid_of_not_given (by simpa using hg))
  have hlit : ∀ {s : String}, keyOk s = true → (utf8.Valid (CStr.lit s).bytes ↔ True) := fun h => iff_true_intro (valid_lit h)
  unfold nodeLines WrittenValid
  cases n.type with
  | vless =>
    simp only [vlessLines, List.forall_mem_append, List.forall_mem_cons, List.not_mem_nil, false_imp_iff, implies_true,
      and_true, stringValid_itemKv, stringValid_strKv, stringValid_int, stringValid_bool, valid_nvl, true_and,
      iff_true_intro (valid_networkName _), forall_sniLines, forall_mem_ite_iff, forall_wsLines, forall_xhttpLines,
      forall_realityLines, NodeType.emits, true_imp_iff, hlit (s := "vless") rfl, and_assoc]
  | vmess =>
    simp only [vmessLines, List.forall_mem_append, List.forall_mem_cons, List.not_mem_nil, false_imp_iff, implies_true,
      and_true, stringValid_itemKv, stringValid_strKv, stringValid_kv, stringValid_int, stringValid_bool, valid_nvl,
      true_and, iff_true_intro (valid_networkName _), forall_sniLines, forall_mem_ite_iff, forall_wsLines, hcipher,
      NodeType.emits, true_imp_iff, hlit (s := "vmess") rfl, and_assoc]
  | shadowsocks =>
    simp only [ssLines, List.forall_mem_append, List.forall_mem_cons, List.not_mem_nil, false_imp_iff, implies_true,
      and_true, stringValid_itemKv, stringValid_strKv, stringValid_int, stringValid_bool, stringValid_optKv,
      given_imp_optValid, valid_nvl, true_and, NodeType.emits, true_imp_iff, hlit (s := "ss") rfl, and_assoc]
  | trojan =>
    simp only [trojanLines, List.forall_mem_append, List.forall_mem_cons, List.not_mem_nil, false_imp_iff, implies_true,
      and_true, stringValid_itemKv, stringValid_strKv, stringValid_int, stringValid_bool, valid_nvl, true_and,
      iff_true_intro (valid_networkName _), forall_sniLines, forall_mem_ite_iff, forall_wsLines, forall_realityLines,
      NodeType.emits, true_imp_iff, hlit (s := "trojan") rfl, and_assoc]
  | _ => simp [NodeType.emits]

/-- The strings `node_emit_yaml` writes are valid exactly when the fields they come from are. -/
theorem allValid_written (h : n.type.emits = true) : AllValid n.written ↔ n.WrittenValid := by
  rw [← imp_iff_right (b := n.WrittenValid) h, ← forall_nodeLines, AllValid, written]
  simp only [List.mem_filterMap, forall_exists_index, and_imp]
  exact ⟨fun hall l hl s hs => hall s l hl hs, fun hall s l hl hs => hall l hl s hs⟩

/-- Valid fields and a valid name: every string of the node's lines is valid. -/
theorem FieldsValid.written (h : n.FieldsValid) (hname : utf8.Valid (nvl n.name).bytes) : AllValid n.written := by
  by_cases he : n.type.emits = true
  · refine (allValid_written he).2 ⟨valid_nvl.1 hname, h.server, ?_⟩
    have hws : n.WsValid := ⟨h.wsPath, h.wsHost⟩
    have hreality : n.RealityValid := ⟨h.fp, h.realityPbk, h.realitySid⟩
    split
    · exact ⟨h.uuid, fun _ => h.sni, fun _ => hreality, fun _ => hws, fun _ => ⟨h.xhttpHost, h.xhttpPath, h.xhttpMode⟩⟩
    · exact ⟨h.uuid, h.cipher, fun _ => h.sni, fun _ => hws⟩
    · exact ⟨h.cipher, h.password, h.plugin, h.pluginOpts⟩
    · exact ⟨h.password, fun _ => h.sni, fun _ => hreality, fun _ => hws⟩
    · trivial
  · intro s hs
    unfold ProxyNode.written nodeLines at hs
    revert he hs
    cases n.type <;> simp [NodeType.emits]

end ProxyNode

end SubConverter
