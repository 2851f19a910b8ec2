/-
The lines that are parsed as a whole or not at all. A node is left incomplete only where the host of
a link is empty as a C string, or where the vmess JSON has no `id` or an empty `add`.
-/
import SubConverter.Share.Accepted

namespace SubConverter

open CMem

/-! ## Complete nodes -/

/-- The credentials the type of a node needs. -/
def Credentials (n : ProxyNode) : Prop :=
  match n.type with
  | .vless => n.uuid ≠ none
  | .vmess => n.uuid ≠ none ∧ n.cipher ≠ none
  | .trojan => n.password ≠ none
  | .shadowsocks => n.cipher ≠ none ∧ n.password ≠ none
  | _ => True

structure Complete (n : ProxyNode) : Prop where
  type : n.type.emits = true
  name : n.name ≠ none
  server : ∃ s, n.server = some s ∧ s.bytes ≠ []
  port : 1 ≤ n.port ∧ n.port ≤ 65535
  credentials : Credentials n

/-- A line is refused with the empty node, or it gives a complete one. -/
def AllOrNothing (tok : Tokener) (line : Bytes) : Prop :=
  nodeParseShare .machine tok line line.length = .ok (-1, nodeInit) ∨
    ∃ n, nodeParseShare .machine tok line line.length = .ok (0, n) ∧ Complete n

/-! ## Incomplete links -/

/-- The host of a `host:port` text begins with a NUL. -/
def HostNul (h : Bytes) : Prop := ∃ x p, hostSegs h = some (0 :: x, p)

/-- The accepted links of each form that leave the node incomplete. -/
def IncompleteForm (tok : Tokener) : LinkForm → Prop
  | .user _ p => ∃ u h, cut (ch '@') p.main = some (u, h) ∧ urlRc u = 0 ∧ hostPort h ≠ none ∧ linkPairs p ≠ none ∧
    HostNul h
  | .json t => ∃ obj server port, VmessJson tok t obj server port ∧
    (server.bytes = [] ∨ jsonxGetString obj "id" = none)
  | .ss p => ssAuthority p.main ≠ none ∧ linkPairs p ≠ none ∧ ∃ h, ssHost p.main = some h ∧ HostNul h

def IncompletePart (tok : Tokener) (b : Bytes) : Prop := ∃ f, linkForm b = some f ∧ IncompleteForm tok f

/-! ## Which nodes are complete -/

theorem hostPort_nul {h : Bytes} {host : CStr} {port : Int} (hp : hostPort h = some (host, port)) :
    host.bytes = [] ↔ HostNul h := by
  obtain ⟨x, p, hs, hx, -, rfl, -⟩ := hostPort_some.1 hp
  obtain ⟨c, x, rfl⟩ := List.exists_cons_of_ne_nil hx
  have hb : (CStr.ofBytes (c :: x)).bytes = [] ↔ c = 0 := by
    show (c :: x).takeWhile (· ≠ 0) = [] ↔ c = 0
    by_cases hc : c = 0 <;> simp [hc]
  rw [hb]
  constructor
  · rintro rfl
    exact ⟨x, p, hs⟩
  · rintro ⟨x', p', hs'⟩
    rw [hs] at hs'
    cases hs'
    rfl

theorem userNode_complete {type : NodeType} (ht : type = .vless ∨ type = .trojan ∨ type = .vmess) (cred : CStr)
    {host : CStr} {port : Int} (hport : 1 ≤ port ∧ port ≤ 65535) (frag : Option Bytes) (pairs : List KvPair) :
    Complete (withCipher type (userNode type cred host port frag pairs)) ↔ host.bytes ≠ [] := by
  have hserver := (userNode_keeps type cred host port frag pairs).2.1
  constructor
  · intro h
    obtain ⟨s, hs, hne⟩ := h.server
    rw [hserver] at hs
    cases hs
    exact hne
  · intro hne
    rw [userNode, applyQuery_eq] at *
    rcases ht with rfl | rfl | rfl
    · exact ⟨rfl, Option.some_ne_none _, ⟨host, rfl, hne⟩, hport, Option.some_ne_none _⟩
    · exact ⟨rfl, Option.some_ne_none _, ⟨host, rfl, hne⟩, hport, Option.some_ne_none _⟩
    · exact ⟨rfl, Option.some_ne_none _, ⟨host, rfl, hne⟩, hport, Option.some_ne_none _, Option.some_ne_none _⟩

theorem ssNode_complete (method password : CStr) {host : CStr} {port : Int} (hport : 1 ≤ port ∧ port ≤ 65535)
    (frag : Option Bytes) (pairs : List KvPair) :
    Complete (ssNode method password host port frag pairs) ↔ host.bytes ≠ [] := by
  rw [ssNode_eq]
  constructor
  · rintro ⟨-, -, ⟨s, hs, hne⟩, -⟩
    cases hs
    exact hne
  · intro hne
    exact ⟨rfl, Option.some_ne_none _, ⟨host, rfl, hne⟩, hport, Option.some_ne_none _, Option.some_ne_none _⟩

theorem jsonNode_complete {obj : Json} {server : CStr} {port : Int} (hport : 1 ≤ port ∧ port ≤ 65535) (name : CStr) :
    Complete (jsonNode obj server port name) ↔ ¬ (server.bytes = [] ∨ jsonxGetString obj "id" = none) := by
  unfold jsonNode
  rw [vmessFields_eq]
  constructor
  · rintro ⟨-, -, ⟨s, hs, hne⟩, -, huuid, -⟩
    cases hs
    rintro (h | h)
    · exact hne h
    · exact huuid (by simp [h, nodeInit])
  · intro h
    push Not at h
    refine ⟨rfl, Option.some_ne_none _, ⟨server, rfl, h.1⟩, hport, ?_, ?_⟩
    · simpa [nodeInit] using h.2
    · simp

/-! ## Forms -/

theorem hostPort_range {h : Bytes} {host : CStr} {port : Int} (hp : hostPort h = some (host, port)) :
    1 ≤ port ∧ port ≤ 65535 := by
  obtain ⟨x, p, -, -, -, -, -, hr⟩ := hostPort_some.1 hp
  exact hr

theorem userForm_complete {tok : Tokener} {type : NodeType} (ht : type = .vless ∨ type = .trojan ∨ type = .vmess)
    {p : LinkParts} (he : ¬ NullVless p) :
    (∀ m, formRun tok (some (.user type p)) = .ok (some m) → Complete m) ↔ ¬ IncompleteForm tok (.user type p) := by
  simp only [formRun_user, IncompleteForm]
  constructor
  · rintro hall ⟨u, h, hc, hrc, hp, hq, hnul⟩
    obtain ⟨⟨host, port⟩, hp⟩ := Option.ne_none_iff_exists'.1 hp
    obtain ⟨pairs, hq⟩ := Option.ne_none_iff_exists'.1 hq
    have hacc := (@vlessLink_some type _ _).2 ⟨u, h, hc, ⟨fun hu => he ⟨u, h, hc, hu⟩, hrc⟩, host, port, pairs,
      hp, hq, rfl⟩
    have hcomplete := hall _ ⟨_, hacc, rfl⟩
    exact (userNode_complete ht _ (hostPort_range hp) _ _).1 hcomplete ((hostPort_nul hp).2 hnul)
  · rintro hno m ⟨n, hn, rfl⟩
    obtain ⟨u, h, hc, ⟨-, hrc⟩, host, port, pairs, hp, hq, rfl⟩ := vlessLink_some.1 hn
    rw [userNode_complete ht _ (hostPort_range hp)]
    intro hb
    exact hno ⟨u, h, hc, hrc, by rw [hp]; simp, by rw [hq]; simp, (hostPort_nul hp).1 hb⟩

theorem jsonForm_complete {tok : Tokener} {t : Bytes} (he : ¬ EmptyPs tok t) :
    (∀ m, formRun tok (some (.json t)) = .ok (some m) → Complete m) ↔ ¬ IncompleteForm tok (.json t) := by
  simp only [formRun, IncompleteForm]
  constructor
  · rintro hall ⟨obj, server, port, hj, hlacks⟩
    have hps : ∀ v, jsonxGetString obj "ps" = some v → v.bytes ≠ [] := by
      intro v hv hvb
      exact he ⟨obj, hj.decodes, hj.parsed, by rw [hj.add]; simp, ⟨port, hj.number, hj.range⟩, v, hv, hvb⟩
    have hcomplete := hall _ (parseVmessJson_some.2 ⟨obj, server, port, hj, hps, rfl⟩)
    exact (jsonNode_complete hj.range _).1 hcomplete hlacks
  · intro hno m hm
    obtain ⟨obj, server, port, hj, -, rfl⟩ := parseVmessJson_some.1 hm
    rw [jsonNode_complete hj.range]
    exact fun hlacks => hno ⟨obj, server, port, hj, hlacks⟩

theorem ssForm_complete {tok : Tokener} {p : LinkParts} (he : ¬ NullSs p) :
    (∀ m, formRun tok (some (.ss p)) = .ok (some m) → Complete m) ↔ ¬ IncompleteForm tok (.ss p) := by
  simp only [formRun, IncompleteForm]
  constructor
  · rintro hall ⟨ha, hq, h, hh, hnul⟩
    obtain ⟨⟨⟨method, password⟩, host, port⟩, hauth⟩ := Option.ne_none_iff_exists'.1 ha
    obtain ⟨pairs, hq⟩ := Option.ne_none_iff_exists'.1 hq
    obtain ⟨h', hh', hp⟩ := ssAuthority_host hauth
    obtain rfl : h = h' := Option.some.inj (hh.symm.trans hh')
    have hacc := ssLink_some.2 ⟨he, method, password, host, port, pairs, hauth, hq, rfl⟩
    exact (ssNode_complete _ _ (hostPort_range hp) _ _).1 (hall _ hacc) ((hostPort_nul hp).2 hnul)
  · intro hno m hm
    obtain ⟨-, method, password, host, port, pairs, hauth, hq, rfl⟩ := ssLink_some.1 hm
    obtain ⟨h, hh, hp⟩ := ssAuthority_host hauth
    rw [ssNode_complete _ _ (hostPort_range hp)]
    intro hb
    exact hno ⟨by rw [hauth]; simp, by rw [hq]; simp, h, hh, (hostPort_nul hp).1 hb⟩

/-! ## Lines -/

/-- Where no null pointer is used, an accepted link is complete unless it is one of the incomplete ones. -/
theorem linkRun_complete {tok : Tokener} {b : Bytes} (he : ¬ NullPart tok b) :
    (∀ m, linkRun tok b = .ok (some m) → Complete m) ↔ ¬ IncompletePart tok b := by
  rw [nullPart_form] at he
  rw [linkRun_form]
  unfold IncompletePart
  rcases hf : linkForm b with _ | ⟨type, p⟩ | t | p
  · simp [formRun]
  · rw [hf] at he
    rw [userForm_complete (linkForm_user hf) he]
    simp
  · rw [hf] at he
    rw [jsonForm_complete he]
    simp
  · rw [hf] at he
    rw [ssForm_complete he]
    simp

/-- A line with a stray `@` is not one of the incomplete ones. -/
theorem not_incompletePart_of_stray {tok : Tokener} {b : Bytes} {x : Bytes × Bytes} (hs : strayLink b = some x) :
    ¬ IncompletePart tok b := by
  obtain ⟨⟨type, l⟩, hv, hl⟩ := Option.bind_eq_some_iff.1 hs
  obtain ⟨-, hm, -⟩ := strayAt_parts hl
  rintro ⟨f, hf, hi⟩
  simp only [linkForm, hv, Option.some.injEq] at hf
  subst hf
  obtain ⟨u, h, hc, -⟩ := hi
  rw [cut_none hm] at hc
  cases hc

/-- A line is parsed as a whole or not at all exactly when it neither makes `node_parse_share` fault nor is
one of the accepted lines that leave the node incomplete. -/
theorem allOrNothing_iff (tok : Tokener) (line : Bytes) (hlen : line.length < 2 ^ 63) :
    AllOrNothing tok line ↔ ¬ LineFaults tok line [] ∧ ¬ IncompletePart tok (trimLine line) := by
  unfold AllOrNothing
  rcases nodeParseShare_inPlace tok (b := line) (t := []) (by simpa using hlen) with ⟨hf, e, he⟩ | ⟨hf, hok⟩
  · rw [List.append_nil] at he
    simp [he, hf]
  rw [List.append_nil] at hok
  -- without a fault only the accepted node is in question
  have hnode : ((Except.ok (shareResult (acceptLine tok line)) : Run (Int × ProxyNode)) = .ok (-1, nodeInit) ∨
      ∃ n, (Except.ok (shareResult (acceptLine tok line)) : Run (Int × ProxyNode)) = .ok (0, n) ∧ Complete n) ↔
        ∀ n, acceptLine tok line = some n → Complete n := by
    rcases acceptLine tok line with _ | n
    · simp [shareResult]
    · simp [shareResult]
  rw [hok, hnode, and_iff_right hf]
  rcases hs : strayLink (trimLine line) with _ | x
  · rw [acceptLine_of_noStray hs, ← linkRun_complete fun he => hf (.inl he)]
    rcases linkRun tok (trimLine line) with e | r <;> simp
  · rw [acceptLine_of_stray (y := x.2) hs hlen]
    simp [not_incompletePart_of_stray hs]

theorem allOrNothing_iff_link : AllOrNothing .refusing (str "vless://u@h:1") ↔
    ¬ LineFaults .refusing (str "vless://u@h:1") [] ∧
      ¬ IncompletePart .refusing (trimLine (str "vless://u@h:1")) :=
  allOrNothing_iff .refusing (str "vless://u@h:1") (by decide)

/-! ## Two incomplete nodes -/

/-- A vmess JSON without an `id`. -/
def noIdJson : Json := .obj [(str "add", .str (str "h")), (str "port", .int 1)]

/-- The line with the text of `noIdJson`. -/
def noIdLine : Bytes := str "vmess://eyJhZGQiOiJoIiwicG9ydCI6MX0="

/-- A link with a NUL as its host. -/
def nulHostLine : Bytes := str "vless://u@" ++ 0 :: str ":1"

def noIdTok : Tokener := .only (str "\x7b\"add\":\"h\",\"port\":1\x7d") noIdJson (by decide +kernel)

theorem noIdLine_node : nodeParseShare .machine noIdTok noIdLine noIdLine.length =
    .ok (0, { nodeInit with type := .vmess, udp := true, server := some (.lit "h"), port := 1,
                            cipher := some (.lit "auto"), name := some (.lit "h:1") }) := by decide +kernel

theorem nulHostLine_node : nodeParseShare .machine .refusing nulHostLine nulHostLine.length =
    .ok (0, { nodeInit with type := .vless, udp := true, server := some (.lit ""), port := 1,
                            uuid := some (.lit "u"), name := some (.lit ":1") }) := by decide +kernel

/-- Both lines are accepted, one without a user id and one without a server. -/
theorem accepted_incomplete :
    ¬ AllOrNothing noIdTok noIdLine ∧ ¬ AllOrNothing .refusing nulHostLine := by
  constructor
  · rintro (h | ⟨n, h, hc⟩)
    · rw [noIdLine_node] at h
      cases h
    · rw [noIdLine_node] at h
      cases h
      exact hc.credentials.1 rfl
  · rintro (h | ⟨n, h, hc⟩)
    · rw [nulHostLine_node] at h
      cases h
    · rw [nulHostLine_node] at h
      cases h
      obtain ⟨s, hs, hne⟩ := hc.server
      cases hs
      exact hne rfl

end SubConverter
