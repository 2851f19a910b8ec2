/-
The integers a link gives, without the limits of C, and what `node_parse_share` stores of them: a port
in range is the one given, an `aid` is narrowed to an `int`.
-/
import SubConverter.Share.Accepted

namespace SubConverter

open CMem

/-! ## Members of the JSON -/

/-- The integer a JSON member gives, as a number or as the text of one. -/
def memberInt (obj : Json) (key : String) : Option Int :=
  match jsonxObjGet obj key with
  | some (.int i) => some i
  | some (.str s) => intText (CStr.ofBytes s).bytes
  | _ => none

theorem strtolAll_eq (v : CStr) : strtolAll v = (intText v.bytes).map clampLong := by
  unfold strtolAll
  rcases strtol_intText v.bytes with ⟨i, hi, hs, hne⟩ | ⟨hi, hs⟩
  · have hpos := List.length_pos_iff.2 hne
    simp only [hs, hi]
    rw [if_pos ⟨by omega, trivial⟩]
    rfl
  · simp only [hi]
    exact if_neg (by tauto)

/-- `json_int_field` saturates the integer it is given. -/
theorem jsonIntField_eq (obj : Json) (key : String) : jsonIntField obj key = (memberInt obj key).map clampLong := by
  unfold jsonIntField memberInt jsonxGetInt jsonxGetString
  rcases jsonxObjGet obj key with _ | v
  · rfl
  · cases v with
    | str s => simp [strtolAll_eq]
    | int i => rfl
    | null => rfl
    | bool => rfl
    | double => rfl
    | arr xs => rfl
    | obj ms => rfl

/-- The range of a C `int`. -/
def FitsInt (i : Int) : Prop := -2 ^ 31 ≤ i ∧ i < 2 ^ 31

theorem toInt32_of_fits {i : Int} (h : FitsInt i) : toInt32 i = i := by
  exact Int.bmod_eq_of_le (by unfold FitsInt at h; omega) (by unfold FitsInt at h; omega)

theorem fitsInt_toInt32 (i : Int) : FitsInt (toInt32 i) := by
  have hlo := Int.le_bmod (x := i) (m := 2 ^ 32) (by decide)
  have hhi := Int.bmod_lt (x := i) (m := 2 ^ 32) (by decide)
  unfold FitsInt toInt32
  omega

/-- An integer survives the two conversions exactly when it is an `int`. -/
theorem toInt32_clampLong_iff {i : Int} : toInt32 (clampLong i) = i ↔ FitsInt i := by
  constructor
  · intro h
    have := fitsInt_toInt32 (clampLong i)
    rwa [h] at this
  · intro h
    rw [clampLong_of_mem, toInt32_of_fits h]
    unfold FitsInt at h
    unfold longMin longMax
    omega

theorem clampLong_range {i : Int} (h : 1 ≤ clampLong i ∧ clampLong i ≤ 65535) : clampLong i = i := by
  unfold clampLong longMin longMax at *
  omega

/-! ## Links -/

/-- The integer after the host of a `host:port` text. -/
def hostInt (h : Bytes) : Option Int := (hostSegs h).bind fun s => intText (CStr.ofBytes s.2).bytes

/-- The object of a vmess body. -/
def bodyJson (tok : Tokener) (t : Bytes) : Option Json := jsonxParse tok (base64Decode t .init).2.data

/-- The port a link gives. -/
def LinkForm.port (tok : Tokener) : LinkForm → Option Int
  | user _ p => (cut (ch '@') p.main).bind fun x => hostInt x.2
  | json t => (bodyJson tok t).bind fun obj => memberInt obj "port"
  | ss p => (ssHost p.main).bind hostInt

/-- The `aid` a link gives, 0 without one. -/
def LinkForm.aid (tok : Tokener) : LinkForm → Int
  | json t => ((bodyJson tok t).bind fun obj => memberInt obj "aid").getD 0
  | _ => 0

/-- The node of a link has the port it gives, and what the conversion to `int` leaves of its `aid`. -/
structure CarriesNumbers (tok : Tokener) (f : LinkForm) (n : ProxyNode) : Prop where
  type : n.type = f.type
  port : f.port tok = some n.port
  range : 1 ≤ n.port ∧ n.port ≤ 65535
  alterId : n.alterId = toInt32 (clampLong (f.aid tok))

theorem hostPort_int {h : Bytes} {host : CStr} {port : Int} (hp : hostPort h = some (host, port)) :
    hostInt h = some port ∧ 1 ≤ port ∧ port ≤ 65535 := by
  obtain ⟨x, p, hs, -, -, -, hport, hr⟩ := hostPort_some.1 hp
  exact ⟨by rw [hostInt, hs]; exact hport, hr⟩

theorem userForm_numbers (tok : Tokener) {type : NodeType} {p : LinkParts} {m : ProxyNode}
    (h : vlessLink type p nodeInit = .ok (some m)) : CarriesNumbers tok (.user type p) (withCipher type m) := by
  obtain ⟨u, t, hc, -, host, port, pairs, hp, -, rfl⟩ := vlessLink_some.1 h
  obtain ⟨hint, hr⟩ := hostPort_int hp
  obtain ⟨htype, -, hport, haid⟩ := userNode_keeps type (CStr.ofBytes (urlText u).1) host port p.frag pairs
  refine ⟨htype, ?_, ?_, ?_⟩
  · rw [hport, LinkForm.port, hc]
    exact hint
  · rw [hport]
    exact hr
  · rw [haid]
    rfl

theorem ssForm_numbers (tok : Tokener) {p : LinkParts} {m : ProxyNode} (h : ssLink p nodeInit = .ok (some m)) :
    CarriesNumbers tok (.ss p) m := by
  obtain ⟨-, method, password, host, port, pairs, hauth, -, rfl⟩ := ssLink_some.1 h
  obtain ⟨t, ht, hp⟩ := ssAuthority_host hauth
  obtain ⟨hint, hr⟩ := hostPort_int hp
  rw [ssNode_eq]
  exact ⟨rfl, by rw [LinkForm.port, ht]; exact hint, hr, rfl⟩

theorem jsonForm_numbers {tok : Tokener} {t : Bytes} {m : ProxyNode}
    (h : parseVmessJson tok t t.length nodeInit = .ok (some m)) : CarriesNumbers tok (.json t) m := by
  obtain ⟨obj, server, port, hj, -, rfl⟩ := parseVmessJson_some.1 h
  have hobj : bodyJson tok t = some obj := hj.parsed
  have hport := hj.number
  rw [jsonIntField_eq] at hport
  obtain ⟨i, hi, rfl⟩ := Option.map_eq_some_iff.1 hport
  have hr := hj.range
  unfold jsonNode
  rw [vmessFields_eq]
  refine ⟨rfl, ?_, hr, ?_⟩
  · -- a port in range was not saturated
    rw [LinkForm.port, hobj, Option.bind_some, hi]
    exact congrArg some (clampLong_range hr).symm
  · rw [LinkForm.aid, hobj, Option.bind_some, jsonIntField_eq]
    rcases memberInt obj "aid" with _ | a <;> rfl

theorem linkRun_numbers {tok : Tokener} {b : Bytes} {n : ProxyNode} (h : linkRun tok b = .ok (some n)) :
    ∃ f, linkForm b = some f ∧ CarriesNumbers tok f n := by
  rw [linkRun_form] at h
  rcases hf : linkForm b with _ | ⟨type, p⟩ | t | p
  · rw [hf] at h; cases h
  · rw [hf] at h
    rcases hv : vlessLink type p nodeInit with e | _ | m
    · rw [formRun, hv] at h; cases h
    · rw [formRun, hv] at h; cases h
    · rw [formRun, hv] at h
      cases h
      exact ⟨_, rfl, userForm_numbers tok hv⟩
  · rw [hf] at h
    exact ⟨_, rfl, jsonForm_numbers h⟩
  · rw [hf] at h
    exact ⟨_, rfl, ssForm_numbers tok h⟩

theorem acceptLine_numbers {tok : Tokener} {l : Bytes} (hlen : l.length < 2 ^ 63) {n : ProxyNode}
    (h : acceptLine tok l = some n) : ∃ f, linkForm (trimLine l) = some f ∧ CarriesNumbers tok f n := by
  rcases hs : strayLink (trimLine l) with _ | ⟨a, y⟩
  · rw [acceptLine_of_noStray hs] at h
    rcases hr : linkRun tok (trimLine l) with e | r
    · rw [hr] at h; cases h
    · rw [hr] at h
      simp only at h
      subst h
      exact linkRun_numbers hr
  · rw [acceptLine_of_stray hs hlen] at h; cases h

end SubConverter
