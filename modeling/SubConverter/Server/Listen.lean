/-
Where the daemon listens. `server_start` hands the library a port only, so that every address is listened on, and
`atoi` makes a port of texts that are none.
-/
import SubConverter.C.Number
import SubConverter.Src.Main

namespace SubConverter

open CMem

/-! ## Options -/

inductive Opt
  | host (value : CStr)
  | port (value : CStr)
  deriving DecidableEq

namespace Opt

def args : Opt → List CStr
  | host value => [.lit "--host", value]
  | port value => [.lit "--port", value]

def host? : Opt → Option CStr
  | host value => some value
  | port _ => none

def port? : Opt → Option CStr
  | host _ => none
  | port value => some value

/-- What an option does to the locals of `main`. -/
def apply (p : Platform) (l : Listen) : Opt → Listen
  | host value => { l with host := value }
  | port value => { l with port := atoi p value }

end Opt

/-- The arguments of a list of options. -/
def optArgs (opts : List Opt) : List CStr := opts.flatMap Opt.args

/-- The last `--host` value. -/
def toldHost (opts : List Opt) : CStr := (opts.filterMap Opt.host?).getLast?.getD (.lit "0.0.0.0")

/-- The number in the last `--port` value. -/
def toldPort (opts : List Opt) : Nat := (opts.filterMap Opt.port?).getLast?.elim 9099 fun value => decValue value.bytes

/-- A complete decimal number from 1 to 65535. -/
structure PortNumber (value : CStr) : Prop where
  ne : value.bytes ≠ []
  digits : ∀ c ∈ value.bytes, isDigit c = true
  pos : 1 ≤ decValue value.bytes
  le : decValue value.bytes ≤ 65535

/-- `main` takes every port. -/
def PortsTaken (p : Platform) (opts : List Opt) : Prop := ∀ value, .port value ∈ opts → 0 < atoi p value

/-- Every port is a port number. -/
def PortsProper (opts : List Opt) : Prop := ∀ value, .port value ∈ opts → PortNumber value

/-! ## The arguments -/

theorem nil_eq_optArgs_iff {opts : List Opt} : [] = optArgs opts ↔ opts = [] := by
  rcases opts with _ | ⟨_ | _, opts⟩
  · exact iff_of_true rfl rfl
  · exact iff_of_false (by simp [optArgs, Opt.args]) (by simp)
  · exact iff_of_false (by simp [optArgs, Opt.args]) (by simp)

/-- An option has its name and a value. -/
theorem cons_eq_optArgs {arg : CStr} {rest : List CStr} {opts : List Opt} (h : arg :: rest = optArgs opts) :
    ∃ value args opts', rest = value :: args ∧ args = optArgs opts' ∧
      ((arg = .lit "--host" ∧ opts = .host value :: opts') ∨ (arg = .lit "--port" ∧ opts = .port value :: opts')) := by
  rcases opts with _ | ⟨value | value, opts⟩
  · cases h
  · obtain ⟨harg, hrest⟩ := List.cons.inj h
    exact ⟨value, optArgs opts, opts, hrest, rfl, .inl ⟨harg, rfl⟩⟩
  · obtain ⟨harg, hrest⟩ := List.cons.inj h
    exact ⟨value, optArgs opts, opts, hrest, rfl, .inr ⟨harg, rfl⟩⟩

theorem host_ne_port : CStr.lit "--host" ≠ CStr.lit "--port" := by decide +kernel

/-- The arguments have one reading. -/
theorem optArgs_injective : ∀ {opts opts' : List Opt}, optArgs opts = optArgs opts' → opts = opts'
  | [], _, h => (nil_eq_optArgs_iff.1 h).symm
  | .host value :: opts, opts', h => by
    obtain ⟨v, args, os, hrest, hargs, ⟨-, rfl⟩ | ⟨harg, -⟩⟩ := cons_eq_optArgs (show _ :: _ = optArgs opts' from h)
    · obtain ⟨rfl, rfl⟩ := List.cons.inj hrest
      rw [optArgs_injective hargs]
    · exact absurd harg host_ne_port
  | .port value :: opts, opts', h => by
    obtain ⟨v, args, os, hrest, hargs, ⟨harg, -⟩ | ⟨-, rfl⟩⟩ := cons_eq_optArgs (show _ :: _ = optArgs opts' from h)
    · exact absurd harg.symm host_ne_port
    · obtain ⟨rfl, rfl⟩ := List.cons.inj hrest
      rw [optArgs_injective hargs]

theorem is_lit (a : CStr) {k : String} (hk : (0 : Byte) ∉ str k) : a.is k = true ↔ a = .lit k := by
  rw [CStr.is_iff, CStr.ext_iff, CStr.lit, CStr.ofBytes_bytes hk]

theorem PortsTaken.cons {p : Platform} {o : Opt} {opts : List Opt} :
    PortsTaken p (o :: opts) ↔ (∀ value, o = .port value → 0 < atoi p value) ∧ PortsTaken p opts := by
  simp only [PortsTaken, List.mem_cons]
  constructor
  · intro h
    exact ⟨fun value ho => h value (.inl ho.symm), fun value hv => h value (.inr hv)⟩
  · rintro ⟨ho, h⟩ value (hv | hv)
    · exact ho value hv.symm
    · exact h value hv

/-- The loop takes the arguments of a list of options with ports that it takes. -/
theorem parseArgs_eq_some_iff (p : Platform) : ∀ {args : List CStr} {l l' : Listen},
    parseArgs p args l = some l' ↔ ∃ opts, args = optArgs opts ∧ PortsTaken p opts ∧ l' = opts.foldl (Opt.apply p) l
  | [], l, l' => by
    rw [parseArgs]
    constructor
    · intro h
      cases h
      exact ⟨[], rfl, fun value hv => absurd hv List.not_mem_nil, rfl⟩
    · rintro ⟨opts, hargs, -, rfl⟩
      rw [nil_eq_optArgs_iff.1 hargs]
      rfl
  | [arg], l, l' => by
    rw [parseArgs]
    refine iff_of_false (by simp) ?_
    rintro ⟨opts, hargs, -, -⟩
    obtain ⟨_, _, _, hrest, -, -⟩ := cons_eq_optArgs hargs
    cases hrest
  | arg :: value :: args, l, l' => by
    have hhost := is_lit arg (k := "--host") (by decide +kernel)
    have hport := is_lit arg (k := "--port") (by decide +kernel)
    rw [parseArgs]
    simp only
    constructor
    · intro h
      split_ifs at h with h1 h2 h3
      · obtain ⟨opts, rfl, htaken, rfl⟩ := (parseArgs_eq_some_iff p).1 h
        rw [hhost.1 h1]
        refine ⟨.host value :: opts, rfl, PortsTaken.cons.2 ⟨?_, htaken⟩, rfl⟩
        intro v hv
        cases hv
      · obtain ⟨opts, rfl, htaken, rfl⟩ := (parseArgs_eq_some_iff p).1 h
        rw [hport.1 h2]
        refine ⟨.port value :: opts, rfl, PortsTaken.cons.2 ⟨?_, htaken⟩, rfl⟩
        intro v hv
        cases hv
        omega
    · rintro ⟨opts, hargs, hall, rfl⟩
      obtain ⟨v, as, os, hrest, hargs, ⟨rfl, rfl⟩ | ⟨rfl, rfl⟩⟩ := cons_eq_optArgs hargs
      · obtain ⟨rfl, rfl⟩ := List.cons.inj hrest
        rw [if_pos (hhost.2 rfl)]
        exact (parseArgs_eq_some_iff p).2 ⟨os, hargs, (PortsTaken.cons.1 hall).2, rfl⟩
      · obtain ⟨rfl, rfl⟩ := List.cons.inj hrest
        obtain ⟨hpos, htaken⟩ := PortsTaken.cons.1 hall
        have hport' : ¬ atoi p value ≤ 0 := not_le.2 (hpos value rfl)
        rw [if_neg (fun h => host_ne_port (hhost.1 h).symm), if_pos (hport.2 rfl), if_neg hport']
        exact (parseArgs_eq_some_iff p).2 ⟨os, hargs, htaken, rfl⟩

/-- The last option of a kind counts. -/
theorem foldl_apply (p : Platform) : ∀ (opts : List Opt) (l : Listen),
    opts.foldl (Opt.apply p) l = ⟨(opts.filterMap Opt.host?).getLast?.getD l.host,
      (opts.filterMap Opt.port?).getLast?.elim l.port (atoi p)⟩
  | [], _ => rfl
  | .host value :: opts, l => by
    rw [List.foldl_cons, foldl_apply p opts, List.filterMap_cons, List.filterMap_cons]
    simp only [Opt.host?, Opt.port?, Opt.apply, List.getLast?_cons, Option.getD_some]
  | .port value :: opts, l => by
    rw [List.foldl_cons, foldl_apply p opts, List.filterMap_cons, List.filterMap_cons]
    simp only [Opt.host?, Opt.port?, Opt.apply, List.getLast?_cons, Option.elim_some]
    cases (opts.filterMap Opt.port?).getLast? <;> rfl

/-! ## The daemon -/

/-- Without a socket address the library listens on every IPv4 address. -/
def DaemonOptions.address (options : DaemonOptions) : CStr := options.sockAddr.getD (.lit "0.0.0.0")

/-- What `server_start` hands the library for a port. -/
def daemonOptions (port : Int) : DaemonOptions :=
  ⟨[.useInternalPollingThread, .usePoll], UInt16.ofInt port, none, 30⟩

/-- A daemon that is started listens at the last host and the last port, and every port is a number in range. -/
def ListensAsTold (p : Platform) (prog : CStr) (args : List CStr) : Prop :=
  ∀ options ∈ (main p prog args).started, ∃ opts, args = optArgs opts ∧ PortsProper opts ∧
    options.address = toldHost opts ∧ options.port.toNat = toldPort opts

/-- The daemon is started for arguments that are taken, with their last port and no address. -/
theorem mem_started_iff (p : Platform) (prog : CStr) (args : List CStr) (options : DaemonOptions) :
    options ∈ (main p prog args).started ↔ p.callocOk = true ∧ ∃ opts, args = optArgs opts ∧ PortsTaken p opts ∧
      options = daemonOptions ((opts.filterMap Opt.port?).getLast?.elim 9099 (atoi p)) := by
  have hstarted : ∀ l : Listen, parseArgs p args ⟨.lit "0.0.0.0", 9099⟩ = some l →
      (main p prog args).started = if p.callocOk then [daemonOptions l.port] else [] := by
    intro l hl
    simp only [main, hl, serverCreate]
    by_cases hc : p.callocOk = true
    · rw [if_pos hc, if_pos hc]
      simp only [serverStart]
      split <;> rfl
    · rw [if_neg hc, if_neg hc]
  constructor
  · intro h
    rcases hl : parseArgs p args ⟨.lit "0.0.0.0", 9099⟩ with _ | l
    · rw [main, hl] at h
      cases h
    · rw [hstarted l hl] at h
      obtain ⟨opts, hargs, htaken, rfl⟩ := (parseArgs_eq_some_iff p).1 hl
      rw [foldl_apply] at h
      split_ifs at h with hc
      · exact ⟨hc, opts, hargs, htaken, List.mem_singleton.1 h⟩
      · cases h
  · rintro ⟨hc, opts, hargs, htaken, rfl⟩
    rw [hstarted _ ((parseArgs_eq_some_iff p).2 ⟨opts, hargs, htaken, rfl⟩), if_pos hc, foldl_apply]
    exact List.mem_singleton_self _

/-! ## Ports -/

/-- A port number is read as the number it is. -/
theorem PortNumber.atoi_eq {value : CStr} (h : PortNumber value) (p : Platform) :
    atoi p value = decValue value.bytes := by
  have hle := h.le
  have hstrtol : (strtol value.bytes).1 = decValue value.bytes := by
    rcases strtol_intText value.bytes with ⟨i, hi, hs, -⟩ | ⟨hn, -⟩
    · rw [intText_digits h.ne h.digits] at hi
      cases hi
      rw [hs, clampLong_of_mem]
      unfold longMin longMax
      omega
    · rw [intText_digits h.ne h.digits] at hn
      cases hn
  simp only [atoi, hstrtol]
  rw [if_pos (by omega)]

theorem toNat_ofInt_of_port {n : Nat} (h : n ≤ 65535) : (UInt16.ofInt n).toNat = n := by
  rw [UInt16.ofInt, UInt16.toNat_ofNat']
  omega

/-- Proper ports are handed over as they are told. -/
theorem daemonOptions_port {p : Platform} {opts : List Opt} (h : PortsProper opts) :
    (daemonOptions ((opts.filterMap Opt.port?).getLast?.elim 9099 (atoi p))).port.toNat = toldPort opts := by
  unfold daemonOptions toldPort
  rcases hlast : (opts.filterMap Opt.port?).getLast? with _ | value
  · rfl
  · obtain ⟨o, ho, hov⟩ := List.mem_filterMap.1 (List.mem_of_getLast? hlast)
    have hport : PortNumber value := by
      cases o with
      | host v => cases hov
      | port v =>
        cases hov
        exact h value ho
    rw [Option.elim_some, Option.elim_some, hport.atoi_eq]
    exact toNat_ofInt_of_port hport.le

/-- Of arguments that are taken only `0.0.0.0` is listened at as told. -/
theorem ListensAsTold.spec {p : Platform} {prog : CStr} (opts : List Opt) (h : ListensAsTold p prog (optArgs opts))
    (hc : p.callocOk = true) (htaken : PortsTaken p opts) : toldHost opts = .lit "0.0.0.0" ∧ PortsProper opts := by
  obtain ⟨opts', hargs, hproper, haddress, -⟩ := h _ ((mem_started_iff p prog _ _).2 ⟨hc, opts, rfl, htaken, rfl⟩)
  obtain rfl := optArgs_injective hargs
  exact ⟨haddress.symm, hproper⟩

/-- The daemon listens as told exactly when the last host of the arguments that are taken is `0.0.0.0`, and their
ports are numbers in range. -/
theorem listens_as_told_iff (p : Platform) (prog : CStr) (args : List CStr) :
    ListensAsTold p prog args ↔
      ∀ opts, p.callocOk = true → args = optArgs opts → (∀ value, .port value ∈ opts → 0 < atoi p value) →
        toldHost opts = .lit "0.0.0.0" ∧ ∀ value, .port value ∈ opts → PortNumber value := by
  constructor
  · rintro h opts hc rfl htaken
    exact h.spec opts hc htaken
  · intro h options hoptions
    obtain ⟨hc, opts, hargs, htaken, rfl⟩ := (mem_started_iff p prog args options).1 hoptions
    obtain ⟨hhost, hproper⟩ := h opts hc hargs htaken
    exact ⟨opts, hargs, hproper, hhost.symm, daemonOptions_port hproper⟩

/-- Every daemon starts, at the port it is given. -/
def anyPort : Platform := ⟨fun _ => -1, true, fun options => some ⟨some options.port.toNat⟩⟩

/-- A local address is not used, `80x` is the port 80, and so is 65616. -/
theorem not_listens_as_told :
    ¬ ListensAsTold anyPort (.lit "subconvd") [.lit "--host", .lit "127.0.0.1"] ∧
      ¬ ListensAsTold anyPort (.lit "subconvd") [.lit "--port", .lit "80x"] ∧
      ¬ ListensAsTold anyPort (.lit "subconvd") [.lit "--port", .lit "65616"] := by
  refine ⟨fun h => ?_, fun h => ?_, fun h => ?_⟩
  · have htaken : PortsTaken anyPort [.host (.lit "127.0.0.1")] := by
      intro value hv
      cases List.mem_singleton.1 hv
    exact absurd (h.spec [.host (.lit "127.0.0.1")] rfl htaken).1 (by decide +kernel)
  · have htaken : PortsTaken anyPort [.port (.lit "80x")] := by
      intro value hv
      cases List.mem_singleton.1 hv
      decide +kernel
    have hport := (h.spec [.port (.lit "80x")] rfl htaken).2 _ (List.mem_singleton_self _)
    exact absurd (hport.digits (ch 'x') (by decide +kernel)) (by decide)
  · have htaken : PortsTaken anyPort [.port (.lit "65616")] := by
      intro value hv
      cases List.mem_singleton.1 hv
      decide +kernel
    have hport := (h.spec [.port (.lit "65616")] rfl htaken).2 _ (List.mem_singleton_self _)
    exact absurd hport.le (by decide +kernel)

end SubConverter
