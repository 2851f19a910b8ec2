/-
The tree a document is meant as: its nodes and groups with their fields, under typed scalars. A reader of block
YAML gets exactly this tree from the emitted text, unless a string is written plain and ends in a colon or has
the form of a float.
-/
import SubConverter.Emit.Resolved
import SubConverter.Emit.Scalar
import SubConverter.Emit.Skeleton
import SubConverter.Emit.Utf8
import SubConverter.Yaml.Document

namespace SubConverter

open CMem Line Yaml Layout

/-! ## Rows -/

def Value.scalar : Value → Scalar
  | .str s => .str s.bytes
  | .int i => .core (decimalInt i)
  | .bool b => .core (CMem.str (if b then "true" else "false"))

namespace Line

/-- What stands on a line behind its dash. -/
def entry (l : Line) : Entry Bytes Scalar :=
  match l.key with
  | some k => .field (str k) (l.value.map Value.scalar)
  | none => .leaf (l.value.elim (.str []) Value.scalar)

def row (l : Line) : Yaml.Row := ⟨l.indent, l.dash, l.entry⟩

end Line

/-! ## Trees -/

/-- A field of a mapping. -/
abbrev Field := Bytes × Yaml.Tree

def valueField (key : String) (v : Value) : Field := (str key, .leaf v.scalar)

def strField (key : String) (s : CStr) : Field := valueField key (.str s)

/-- An optional field, when it is written. -/
def optField (cond : Bool) (key : String) (s : Option CStr) : List Field :=
  if cond then [(str key, s.elim .null fun s => .leaf (.str s.bytes))] else []

namespace ProxyNode

def wsFields (n : ProxyNode) : List Field :=
  [(str "ws-opts", .map [strField "path" (nvl n.wsPath),
    (str "headers", .map [strField "Host" (nvl n.wsHost)])])]

def xhttpFields (n : ProxyNode) : List Field :=
  [(str "xhttp-opts", .map [strField "host" (nvl n.xhttpHost), strField "path" (nvl n.xhttpPath),
    strField "mode" (nvl n.xhttpMode)])]

def realityFields (n : ProxyNode) : List Field :=
  optField (given n.fp) "client-fingerprint" n.fp ++
    if n.realityPbk.isSome || n.realitySid.isSome then
      [(str "reality-opts", .map (optField n.realityPbk.isSome "public-key" n.realityPbk ++
        optField n.realitySid.isSome "short-id" n.realitySid))]
    else []

def vlessFields (n : ProxyNode) : List Field :=
  [strField "name" (nvl n.name), strField "type" (.lit "vless"), strField "server" (nvl n.server),
   valueField "port" (.int n.port), strField "uuid" (nvl n.uuid), valueField "udp" (.bool n.udp),
   strField "network" (networkName n.transport), valueField "tls" (.bool (n.tls != .none))] ++
    (optField (n.tls != .none && given n.sni) "servername" n.sni ++
      ((if n.tls = .reality then n.realityFields else []) ++
        ((if n.transport = .ws then n.wsFields else []) ++ if n.transport = .xhttp then n.xhttpFields else [])))

def vmessFields (n : ProxyNode) : List Field :=
  [strField "name" (nvl n.name), strField "type" (.lit "vmess"), strField "server" (nvl n.server),
   valueField "port" (.int n.port), strField "uuid" (nvl n.uuid), valueField "alterId" (.int n.alterId),
   strField "cipher" (if given n.cipher then nvl n.cipher else .lit "auto"), valueField "udp" (.bool n.udp),
   strField "network" (networkName n.transport), valueField "tls" (.bool (n.tls != .none))] ++
    (optField (n.tls != .none && given n.sni) "servername" n.sni ++ if n.transport = .ws then n.wsFields else [])

def ssFields (n : ProxyNode) : List Field :=
  [strField "name" (nvl n.name), strField "type" (.lit "ss"), strField "server" (nvl n.server),
   valueField "port" (.int n.port), strField "cipher" (nvl n.cipher), strField "password" (nvl n.password),
   valueField "udp" (.bool n.udp)] ++
    (optField (given n.plugin) "plugin" n.plugin ++ optField (given n.pluginOpts) "plugin-opts" n.pluginOpts)

def trojanFields (n : ProxyNode) : List Field :=
  [strField "name" (nvl n.name), strField "type" (.lit "trojan"), strField "server" (nvl n.server),
   valueField "port" (.int n.port), strField "password" (nvl n.password), valueField "udp" (.bool n.udp),
   strField "network" (networkName n.transport)] ++
    (optField (n.tls != .none && given n.sni) "sni" n.sni ++ valueField "tls" (.bool (n.tls != .none)) ::
      ((if n.tls = .reality then n.realityFields else []) ++ if n.transport = .ws then n.wsFields else []))

/-- The fields of a node. -/
def fields (n : ProxyNode) : List Field :=
  match n.type with
  | .vless => n.vlessFields
  | .vmess => n.vmessFields
  | .shadowsocks => n.ssFields
  | .trojan => n.trojanFields
  | _ => []

end ProxyNode

/-- A sequence below a key; nothing stands for the empty one. -/
def listTree (ts : List Yaml.Tree) : Yaml.Tree := if ts = [] then .null else .seq ts

def GroupKind.fields : GroupKind → List Field
  | select => [strField "type" (.lit "select")]
  | urlTest =>
    [strField "type" (.lit "url-test"), strField "url" (.lit "http://www.gstatic.com/generate_204"),
     valueField "interval" (.int 300), valueField "tolerance" (.int 50)]

def Group.fields (g : Group) : List Field :=
  strField "name" g.name ::
    (g.kind.fields ++ [(str "proxies", listTree (g.members.map fun s => .leaf (.str s.bytes)))])

namespace Document

/-- The nodes that are written. -/
def emitted (d : Document) : List ProxyNode := d.proxies.filter fun n => n.type.emits

def fields (d : Document) : List Field :=
  [(str "proxies", listTree (d.emitted.map fun n => .map (n.fields))),
   (str "proxy-groups", listTree (d.groups.map fun g => .map g.fields))]

def tree (d : Document) : Yaml.Tree := .map d.fields

end Document

/-! ## Rows of a tree -/

theorem mapRows_nil (m : Nat) : mapRows m ([] : List Field) = [] := by rw [mapRows]

theorem mapRows_value (m : Nat) (key : String) (v : Value) (fs : List Field) :
    mapRows m (valueField key v :: fs) = (kv m key (some v)).row :: mapRows m fs := by
  rw [valueField, mapRows, fieldRows_eq]
  rfl

theorem mapRows_opt (m : Nat) (cond : Bool) (key : String) (s : Option CStr) :
    mapRows m (optField cond key s) = (optKv cond m key s).map row := by
  unfold optField optKv
  split
  · cases s <;> rfl
  · rfl

theorem mapRows_map (m : Nat) (key : String) (fs gs : List Field) :
    mapRows m ((str key, .map fs) :: gs) = (kv m key none).row :: (mapRows (m + 2) fs ++ mapRows m gs) := by
  rw [mapRows, fieldRows_eq]
  rfl

theorem mapRows_ite {c : Prop} [Decidable c] (m : Nat) (fs : List Field) :
    mapRows m (if c then fs else []) = if c then mapRows m fs else [] := by
  split <;> rfl

theorem mapRows_list (m : Nat) (key : String) (ts : List Yaml.Tree) (gs : List Field) :
    mapRows m ((str key, listTree ts) :: gs) = (kv m key none).row :: (seqRows (m + 2) ts ++ mapRows m gs) := by
  unfold listTree
  rw [mapRows, fieldRows_eq]
  split
  · rename_i h
    rw [h]
    rfl
  · rfl

namespace ProxyNode

variable (n : ProxyNode)

theorem mapRows_wsFields : mapRows 4 n.wsFields = (wsLines n).map row := by
  simp only [wsFields, strField, mapRows_map, mapRows_value, mapRows_nil]
  rfl

theorem mapRows_xhttpFields : mapRows 4 n.xhttpFields = (xhttpLines n).map row := by
  simp only [xhttpFields, strField, mapRows_map, mapRows_value, mapRows_nil]
  rfl

theorem mapRows_realityFields : mapRows 4 n.realityFields = (realityLines n).map row := by
  simp only [realityFields, mapRows_append, mapRows_ite, mapRows_map, mapRows_opt, mapRows_nil]
  simp only [realityLines, List.map_append, apply_ite (List.map row), List.map_cons, List.map_nil, List.append_nil]

theorem itemRows_vless : itemRows 2 (.map n.vlessFields) = (vlessLines n).map row := by
  simp only [vlessFields, strField, itemRows, mapRows_append, mapRows_ite, mapRows_value, mapRows_opt, mapRows_wsFields,
    mapRows_xhttpFields, mapRows_realityFields, mapRows_nil, Nat.reduceAdd]
  simp only [vlessLines, List.map_append, apply_ite (List.map row), List.map_cons, List.map_nil]
  rfl

theorem itemRows_vmess : itemRows 2 (.map n.vmessFields) = (vmessLines n).map row := by
  have hcipher : (if given n.cipher then n.cipher else some (.lit "auto")) =
      some (if given n.cipher then nvl n.cipher else .lit "auto") := by
    rcases n.cipher with _ | s
    · rfl
    · split <;> rfl
  simp only [vmessFields, strField, itemRows, mapRows_append, mapRows_ite, mapRows_value, mapRows_opt, mapRows_wsFields,
    mapRows_nil, Nat.reduceAdd]
  simp only [vmessLines, hcipher, List.map_append, apply_ite (List.map row), List.map_cons, List.map_nil]
  rfl

theorem itemRows_ss : itemRows 2 (.map n.ssFields) = (ssLines n).map row := by
  simp only [ssFields, strField, itemRows, mapRows_append, mapRows_value, mapRows_opt, mapRows_nil, Nat.reduceAdd]
  simp only [ssLines, List.map_append, List.map_cons, List.map_nil]
  rfl

theorem itemRows_trojan : itemRows 2 (.map n.trojanFields) = (trojanLines n).map row := by
  simp only [trojanFields, strField, itemRows, mapRows_append, mapRows_ite, mapRows_value, mapRows_opt, mapRows_wsFields,
    mapRows_realityFields, mapRows_nil, Nat.reduceAdd]
  simp only [trojanLines, List.map_append, apply_ite (List.map row), List.map_cons, List.map_nil]
  rfl

/-- The rows of a node's item are those of its lines. -/
theorem itemRows_fields : itemRows 2 (.map n.fields) = (nodeLines n).map row := by
  unfold fields nodeLines
  cases n.type with
  | vless => exact n.itemRows_vless
  | vmess => exact n.itemRows_vmess
  | shadowsocks => exact n.itemRows_ss
  | trojan => exact n.itemRows_trojan
  | _ => rfl

end ProxyNode

theorem itemRows_groupFields (g : Group) : itemRows 2 (.map g.fields) = g.lines.map row := by
  have hkind : mapRows 4 g.kind.fields = g.kind.lines.map row := by
    cases g.kind with
    | select => simp only [GroupKind.fields, strField, mapRows_value, mapRows_nil]; rfl
    | urlTest => simp only [GroupKind.fields, strField, mapRows_value, mapRows_nil]; rfl
  have hitems : seqRows 6 (g.members.map fun s => .leaf (.str s.bytes)) = (g.members.map (item 6)).map row := by
    rw [seqRows_map, List.map_map]
    simp only [itemRows]
    exact List.flatMap_pure_eq_map _ _
  simp only [Group.fields, strField, itemRows, mapRows_value, mapRows_append, mapRows_list, hkind, hitems, mapRows_nil,
    List.append_nil, Nat.reduceAdd]
  rw [Group.lines, List.map_cons, List.map_append, List.map_cons]
  rfl

namespace Document

theorem flatMap_emitted (d : Document) : d.emitted.flatMap nodeLines = d.proxies.flatMap nodeLines := by
  have hnone : ∀ n : ProxyNode, ¬ n.type.emits = true → nodeLines n = [] := by
    intro n h
    unfold nodeLines
    cases ht : n.type <;> simp_all [NodeType.emits]
  unfold emitted
  induction d.proxies with
  | nil => rfl
  | cons n ns ih =>
    rw [List.flatMap_cons, ← ih]
    by_cases h : n.type.emits = true
    · rw [List.filter_cons_of_pos (by simpa using h), List.flatMap_cons]
    · rw [List.filter_cons_of_neg (by simpa using h), hnone n h, List.nil_append]

/-- The rows of a document's tree are its lines. -/
theorem mapRows_fields (d : Document) : mapRows 0 d.fields = d.lines.map row := by
  have hnodes : seqRows 2 (d.emitted.map fun n => .map n.fields) = (d.proxies.flatMap nodeLines).map row := by
    rw [seqRows_map, ← flatMap_emitted, List.map_flatMap]
    simp only [ProxyNode.itemRows_fields]
  have hgroups : seqRows 2 (d.groups.map fun g => .map g.fields) = (d.groups.flatMap Group.lines).map row := by
    rw [seqRows_map, List.map_flatMap]
    simp only [itemRows_groupFields]
  rw [fields, mapRows_list, mapRows_list, hnodes, hgroups, mapRows_nil, List.append_nil, lines, List.map_cons,
    List.map_append, List.map_cons]

end Document

/-! ## Keys -/

/-- All keys the program writes. -/
def lineKeys : List String :=
  ["name", "type", "server", "port", "uuid", "udp", "network", "tls", "servername", "sni", "client-fingerprint",
   "reality-opts", "public-key", "short-id", "ws-opts", "path", "headers", "Host", "xhttp-opts", "host", "mode",
   "alterId", "cipher", "password", "plugin", "plugin-opts", "url", "interval", "tolerance", "proxies", "proxy-groups"]

/-- A line with one of the keys, or an item. -/
def Line.keyed (l : Line) : Bool := l.key.elim (l.dash && l.value.isSome) fun k => lineKeys.contains k

theorem keyed_optKv {cond : Bool} {indent : Nat} {key : String} {s : Option CStr} (h : lineKeys.contains key = true) :
    ∀ l ∈ optKv cond indent key s, l.keyed = true :=
  forall_mem_ite (List.forall_mem_singleton.2 h)

theorem keyed_of_all {ls : List Line} (h : ls.all Line.keyed = true) : ∀ l ∈ ls, l.keyed = true := List.all_eq_true.1 h

theorem keyed_append {a b : List Line} (ha : ∀ l ∈ a, l.keyed = true) (hb : ∀ l ∈ b, l.keyed = true) :
    ∀ l ∈ a ++ b, l.keyed = true :=
  List.forall_mem_append.2 ⟨ha, hb⟩

theorem keyed_wsLines (n : ProxyNode) : ∀ l ∈ wsLines n, l.keyed = true := keyed_of_all rfl

theorem keyed_xhttpLines (n : ProxyNode) : ∀ l ∈ xhttpLines n, l.keyed = true := keyed_of_all rfl

theorem keyed_realityLines (n : ProxyNode) : ∀ l ∈ realityLines n, l.keyed = true :=
  keyed_append (keyed_optKv rfl)
    (forall_mem_ite (List.forall_mem_cons.2 ⟨rfl, keyed_append (keyed_optKv rfl) (keyed_optKv rfl)⟩))

theorem keyed_nodeLines (n : ProxyNode) : ∀ l ∈ nodeLines n, l.keyed = true := by
  unfold nodeLines
  cases n.type with
  | vless =>
    exact keyed_append (keyed_of_all rfl) (keyed_append (keyed_optKv rfl) (keyed_append
      (forall_mem_ite (keyed_realityLines n)) (keyed_append (forall_mem_ite (keyed_wsLines n))
        (forall_mem_ite (keyed_xhttpLines n)))))
  | vmess => exact keyed_append (keyed_of_all rfl) (keyed_append (keyed_optKv rfl) (forall_mem_ite (keyed_wsLines n)))
  | shadowsocks => exact keyed_append (keyed_of_all rfl) (keyed_append (keyed_optKv rfl) (keyed_optKv rfl))
  | trojan =>
    exact keyed_append (keyed_of_all rfl) (keyed_append (keyed_optKv rfl) (List.forall_mem_cons.2 ⟨rfl, keyed_append
      (forall_mem_ite (keyed_realityLines n)) (forall_mem_ite (keyed_wsLines n))⟩))
  | _ => nofun

theorem keyed_groupLines (g : Group) : ∀ l ∈ g.lines, l.keyed = true := by
  rw [Group.lines, List.forall_mem_cons, List.forall_mem_append, List.forall_mem_cons]
  refine ⟨rfl, ?_, rfl, ?_⟩
  · cases g.kind <;> exact keyed_of_all rfl
  · rw [List.forall_mem_map]
    exact fun _ _ => rfl

theorem Document.keyed_lines (d : Document) : ∀ l ∈ d.lines, l.keyed = true := by
  rw [lines, List.forall_mem_cons, List.forall_mem_append, List.forall_mem_cons, List.forall_mem_flatMap,
    List.forall_mem_flatMap]
  exact ⟨rfl, fun n _ => keyed_nodeLines n, rfl, fun g _ => keyed_groupLines g⟩

theorem plainKey_lineKeys : ∀ k ∈ lineKeys, PlainKey (str k) := by
  have h : ∀ k ∈ lineKeys, str k ≠ [] ∧ (∀ c ∈ (str k).head?, isIndicator c = false) ∧
      ∀ c ∈ str k, isPrintable c = true ∧ isBlank c = false ∧ c ≠ ch ':' := by decide +kernel
  exact fun k hk => ⟨(h k hk).1, (h k hk).2.1, (h k hk).2.2⟩

/-! ## Trees that can be printed -/

theorem fieldsFit_value (key : String) (v : Value) (fs : List Field) :
    FieldsFit (valueField key v :: fs) ↔ FieldsFit fs := by
  simp [valueField, FieldsFit, Fits]

theorem fieldsFit_map (key : Bytes) {fs gs : List Field} (hne : fs ≠ []) (hkeys : (fs.map Prod.fst).Nodup)
    (hfs : FieldsFit fs) (hgs : FieldsFit gs) : FieldsFit ((key, .map fs) :: gs) := by
  simp only [FieldsFit, Fits]
  exact ⟨⟨hne, hkeys, hfs⟩, hgs⟩

theorem fieldsFit_nil : FieldsFit ([] : List Field) := by simp [FieldsFit]

theorem fieldsFit_opt (cond : Bool) (key : String) (s : Option CStr) : FieldsFit (optField cond key s) := by
  unfold optField
  split
  · cases s <;> simp [FieldsFit, Fits]
  · exact fieldsFit_nil

theorem fieldsFit_ite {c : Prop} [Decidable c] {fs : List Field} (h : FieldsFit fs) :
    FieldsFit (if c then fs else []) := by
  split
  · exact h
  · exact fieldsFit_nil

theorem keys_opt (cond : Bool) (key : String) (s : Option CStr) :
    ((optField cond key s).map Prod.fst).Sublist [str key] := by
  unfold optField
  split
  · exact .refl _
  · exact List.nil_sublist _

theorem keys_ite {c : Prop} [Decidable c] {fs : List Field} {ks : List Bytes}
    (h : (fs.map Prod.fst).Sublist ks) : ((if c then fs else []).map Prod.fst).Sublist ks := by
  split
  · exact h
  · exact List.nil_sublist _

theorem keys_append {fs gs : List Field} {ks ls : List Bytes} (hf : (fs.map Prod.fst).Sublist ks)
    (hg : (gs.map Prod.fst).Sublist ls) : ((fs ++ gs).map Prod.fst).Sublist (ks ++ ls) := by
  rw [List.map_append]
  exact hf.append hg

theorem nodup_keys (ks : List String) (h : ks.Nodup) (hk : ∀ k ∈ ks, k ∈ lineKeys) : (ks.map str).Nodup := by
  have hinj : ∀ a ∈ lineKeys, ∀ b ∈ lineKeys, str a = str b → a = b := by decide +kernel
  exact (List.nodup_map_iff_inj_on h).2 fun a ha b hb => hinj a (hk a ha) b (hk b hb)

namespace ProxyNode

variable (n : ProxyNode)

theorem fieldsFit_ws : FieldsFit n.wsFields := by
  refine fieldsFit_map _ (by simp) ?_ ?_ fieldsFit_nil
  · exact nodup_keys ["path", "headers"] (by decide) (by decide)
  · rw [strField, fieldsFit_value]
    refine fieldsFit_map _ (by simp) ?_ ?_ fieldsFit_nil
    · exact List.nodup_singleton _
    · exact (fieldsFit_value _ _ _).2 fieldsFit_nil

theorem fieldsFit_xhttp : FieldsFit n.xhttpFields := by
  refine fieldsFit_map _ (by simp) ?_ ?_ fieldsFit_nil
  · exact nodup_keys ["host", "path", "mode"] (by decide) (by decide)
  · simp only [strField, fieldsFit_value, fieldsFit_nil]

theorem fieldsFit_reality : FieldsFit n.realityFields := by
  rw [realityFields, fieldsFit_append]
  refine ⟨fieldsFit_opt _ _ _, ?_⟩
  split
  · rename_i h
    refine fieldsFit_map _ ?_ ?_ ((fieldsFit_append _ _).2 ⟨fieldsFit_opt _ _ _, fieldsFit_opt _ _ _⟩) fieldsFit_nil
    · -- one of the two is there
      rcases Bool.or_eq_true_iff.1 h with h | h <;> simp [optField, h]
    · exact (nodup_keys ["public-key", "short-id"] (by decide) (by decide)).sublist
        (keys_append (keys_opt _ _ _) (keys_opt _ _ _))
  · exact fieldsFit_nil

theorem keys_reality : (n.realityFields.map Prod.fst).Sublist [str "client-fingerprint", str "reality-opts"] :=
  keys_append (keys_opt _ _ _) (keys_ite (.refl _))

/-- The fields of a node can be printed. -/
theorem fieldsFit_fields : FieldsFit n.fields := by
  unfold fields
  cases n.type with
  | vless =>
    simp only [vlessFields, strField, fieldsFit_append, fieldsFit_value, fieldsFit_nil, true_and]
    exact ⟨fieldsFit_opt _ _ _, fieldsFit_ite n.fieldsFit_reality, fieldsFit_ite n.fieldsFit_ws,
      fieldsFit_ite n.fieldsFit_xhttp⟩
  | vmess =>
    simp only [vmessFields, strField, fieldsFit_append, fieldsFit_value, fieldsFit_nil, true_and]
    exact ⟨fieldsFit_opt _ _ _, fieldsFit_ite n.fieldsFit_ws⟩
  | shadowsocks =>
    simp only [ssFields, strField, fieldsFit_append, fieldsFit_value, fieldsFit_nil, true_and]
    exact ⟨fieldsFit_opt _ _ _, fieldsFit_opt _ _ _⟩
  | trojan =>
    simp only [trojanFields, strField, fieldsFit_append, fieldsFit_value, fieldsFit_nil, true_and]
    exact ⟨fieldsFit_opt _ _ _, fieldsFit_ite n.fieldsFit_reality, fieldsFit_ite n.fieldsFit_ws⟩
  | _ => exact fieldsFit_nil

/-- No key stands twice. -/
theorem nodup_fields : (n.fields.map Prod.fst).Nodup := by
  unfold fields
  cases n.type with
  | vless =>
    exact (nodup_keys ["name", "type", "server", "port", "uuid", "udp", "network", "tls", "servername",
      "client-fingerprint", "reality-opts", "ws-opts", "xhttp-opts"] (by decide) (by decide)).sublist
      (keys_append (.refl _) (keys_append (keys_opt _ _ _) (keys_append (keys_ite n.keys_reality)
        (keys_append (keys_ite (.refl _)) (keys_ite (.refl _))))))
  | vmess =>
    exact (nodup_keys ["name", "type", "server", "port", "uuid", "alterId", "cipher", "udp", "network", "tls",
      "servername", "ws-opts"] (by decide) (by decide)).sublist
      (keys_append (.refl _) (keys_append (keys_opt _ _ _) (keys_ite (.refl _))))
  | shadowsocks =>
    exact (nodup_keys ["name", "type", "server", "port", "cipher", "password", "udp", "plugin", "plugin-opts"]
      (by decide) (by decide)).sublist (keys_append (.refl _) (keys_append (keys_opt _ _ _) (keys_opt _ _ _)))
  | trojan =>
    exact (nodup_keys ["name", "type", "server", "port", "password", "udp", "network", "sni", "tls",
      "client-fingerprint", "reality-opts", "ws-opts"] (by decide) (by decide)).sublist
      (keys_append (.refl _) (keys_append (keys_opt _ _ _) (.cons_cons _ (keys_append (keys_ite n.keys_reality)
        (keys_ite (.refl _))))))
  | _ => exact List.nodup_nil

end ProxyNode

theorem fieldsFit_list (key : Bytes) {ts : List Yaml.Tree} {gs : List Field} (ht : ItemsFit ts) (hgs : FieldsFit gs) :
    FieldsFit ((key, listTree ts) :: gs) := by
  unfold listTree
  split
  · simpa only [FieldsFit, Fits, true_and] using hgs
  · rename_i hne
    simp only [FieldsFit, Fits]
    exact ⟨⟨hne, ht⟩, hgs⟩

theorem itemsFit_leaves {α : Type} (f : α → Scalar) : ∀ (xs : List α), ItemsFit (κ := Bytes) (xs.map fun x => .leaf (f x))
  | [] => by simp [ItemsFit]
  | x :: xs => by
    rw [List.map_cons, ItemsFit]
    exact itemsFit_leaves f xs

theorem itemsFit_maps {α : Type} {f : α → List Field} : ∀ {xs : List α}, (∀ x ∈ xs, f x ≠ []) →
    (∀ x ∈ xs, ((f x).map Prod.fst).Nodup ∧ FieldsFit (f x)) → ItemsFit (xs.map fun x => .map (f x))
  | [], _, _ => by simp [ItemsFit]
  | x :: xs, hne, h => by
    rw [List.forall_mem_cons] at hne h
    rw [List.map_cons, ItemsFit]
    exact ⟨⟨hne.1, h.1⟩, itemsFit_maps hne.2 h.2⟩

theorem Group.fieldsFit_fields (g : Group) : FieldsFit g.fields := by
  rw [fields, strField, fieldsFit_value, fieldsFit_append]
  refine ⟨?_, fieldsFit_list _ (itemsFit_leaves _ g.members) fieldsFit_nil⟩
  cases g.kind <;> simp only [GroupKind.fields, strField, fieldsFit_value, fieldsFit_nil]

theorem Group.nodup_fields (g : Group) : (g.fields.map Prod.fst).Nodup := by
  unfold fields
  cases g.kind with
  | select => exact nodup_keys ["name", "type", "proxies"] (by decide) (by decide)
  | urlTest =>
    exact nodup_keys ["name", "type", "url", "interval", "tolerance", "proxies"] (by decide) (by decide)

theorem Document.fieldsFit_fields (d : Document) : FieldsFit d.fields := by
  refine fieldsFit_list _ (itemsFit_maps ?_ ?_) (fieldsFit_list _ (itemsFit_maps ?_ ?_) fieldsFit_nil)
  · -- only these types are written
    intro n hn
    have hemits := (List.mem_filter.1 hn).2
    unfold ProxyNode.fields
    cases ht : n.type <;> simp [ht, NodeType.emits] at hemits <;>
      simp [ProxyNode.vlessFields, ProxyNode.vmessFields, ProxyNode.ssFields, ProxyNode.trojanFields]
  · exact fun n _ => ⟨n.nodup_fields, n.fieldsFit_fields⟩
  · exact fun g _ => by simp [Group.fields]
  · exact fun g _ => ⟨g.nodup_fields, g.fieldsFit_fields⟩

theorem Document.readTree_fields (d : Document) : readTree (d.lines.map row) = some d.tree := by
  rw [← d.mapRows_fields]
  refine readTree_mapRows (by simp [fields]) ?_ d.fieldsFit_fields
  exact nodup_keys ["proxies", "proxy-groups"] (by decide) (by decide)

end SubConverter
