/-
The integers of a run against those its sources give. Both converters narrow what they are given to an
`int`: the list of links loses an `aid` out of that range, the JSON array any port out of its range.
-/
import SubConverter.Conv.Base64
import SubConverter.Conv.Outbound
import SubConverter.Conv.Unique
import SubConverter.Emit.Integers
import SubConverter.Share.Numbers

namespace SubConverter

open CMem

/-! ## Sources -/

/-- The integers a source gives; `aid` is for vmess only. -/
structure Given where
  port : Option Int
  aid : Option Int
  deriving DecidableEq

/-- The integers that are kept: a port in its range, and an `aid` that is an `int`. -/
structure Given.Fits (g : Given) : Prop where
  port : ∃ i, g.port = some i ∧ 1 ≤ i ∧ i ≤ 65535
  aid : ∀ a ∈ g.aid, FitsInt a

/-- The document writes the integers the sources give, in order, and every port is in range. -/
def NumbersKept (gs : List Given) (d : Document) : Prop :=
  (ints "port" d.lines).map some = gs.map Given.port ∧ (∀ p ∈ ints "port" d.lines, 1 ≤ p ∧ p ≤ 65535) ∧
    ints "alterId" d.lines = gs.filterMap Given.aid

/-- The node has what the conversions to `long` and `int` leave of the integers given. -/
structure Given.Narrows (g : Given) (n : ProxyNode) : Prop where
  emits : n.type.emits = true
  port : ∃ i, g.port = some i ∧ n.port = toInt32 (clampLong i)
  aid : g.aid.map (fun a => toInt32 (clampLong a)) = if n.type = .vmess then some n.alterId else none

theorem narrowed_port_iff {i : Int} :
    (toInt32 (clampLong i) = i ∧ 1 ≤ toInt32 (clampLong i) ∧ toInt32 (clampLong i) ≤ 65535) ↔ 1 ≤ i ∧ i ≤ 65535 := by
  constructor
  · rintro ⟨h, hr⟩
    rwa [h] at hr
  · intro hr
    have h := toInt32_clampLong_iff.2 (show FitsInt i by unfold FitsInt; omega)
    rw [h]
    exact ⟨rfl, hr⟩

theorem Given.Narrows.fits_iff {g : Given} {n : ProxyNode} (h : g.Narrows n) : g.Fits ↔ some n.port = g.port ∧
    (1 ≤ n.port ∧ n.port ≤ 65535) ∧ g.aid = if n.type = .vmess then some n.alterId else none := by
  obtain ⟨i, hi, hp⟩ := h.port
  rw [← h.aid, hi, hp]
  constructor
  · rintro ⟨⟨j, hj, hr⟩, ha⟩
    rw [hi] at hj
    cases hj
    obtain ⟨heq, hrange⟩ := narrowed_port_iff.2 hr
    refine ⟨congrArg some heq, hrange, ?_⟩
    cases hg : g.aid with
    | none => rfl
    | some a =>
      rw [Option.map_some, toInt32_clampLong_iff.2 (ha a hg)]
  · rintro ⟨heq, hrange, ha⟩
    refine ⟨⟨i, hi, narrowed_port_iff.1 ⟨Option.some.inj heq, hrange⟩⟩, fun a hg => ?_⟩
    rw [Option.mem_def.1 hg, Option.map_some] at ha
    exact toInt32_clampLong_iff.1 (Option.some.inj ha).symm

/-- The integers of the sources are kept exactly where they fit. -/
theorem numbersKept_iff {gs : List Given} {d : Document} (h : List.Forall₂ Given.Narrows gs d.proxies) :
    NumbersKept gs d ↔ ∀ g ∈ gs, g.Fits := by
  obtain ⟨ns, groups⟩ := d
  simp only at h
  have hemits : ∀ n ∈ ns, n.type.emits = true := by
    induction h with
    | nil => simp
    | cons hg _ ih => exact List.forall_mem_cons.2 ⟨hg.emits, ih⟩
  unfold NumbersKept
  rw [ints_port hemits, ints_alterId hemits]
  clear hemits
  simp only
  induction h with
  | nil => simp
  | @cons g n gs ns hg _ ih =>
    have haid : List.filterMap (fun n => if n.type = .vmess then some n.alterId else none) (n :: ns) =
        List.filterMap Given.aid (g :: gs) ↔
          (g.aid = if n.type = .vmess then some n.alterId else none) ∧
            List.filterMap (fun n => if n.type = .vmess then some n.alterId else none) ns = List.filterMap Given.aid gs := by
      have hmap := hg.aid
      rw [List.filterMap_cons, List.filterMap_cons]
      -- both have an integer here or neither has
      split at hmap
      · rename_i ht
        obtain ⟨a, ha, -⟩ := Option.map_eq_some_iff.1 hmap
        simp [ht, ha, eq_comm]
      · rename_i ht
        simp [ht, Option.map_eq_none_iff.1 hmap]
    have ih : _ ↔ ∀ g ∈ gs, g.Fits := ih
    rw [List.forall_mem_cons, ← ih, hg.fits_iff, haid]
    simp only [List.map_cons, List.cons.injEq, List.forall_mem_cons]
    tauto

/-! ## Lists of links -/

/-- The integers a line gives. -/
def lineGiven (tok : Tokener) (l : Bytes) : Given where
  port := (linkForm (trimLine l)).bind fun f => f.port tok
  aid := (linkForm (trimLine l)).bind fun f => if f.type = .vmess then some (f.aid tok) else none

/-- The lines of a body that are accepted. -/
def acceptedLines (tok : Tokener) (b : Bytes) : List Bytes := (b.splitOn 10).filter fun l => (acceptLine tok l).isSome

theorem lineGiven_narrows {tok : Tokener} {l : Bytes} (hlen : l.length < 2 ^ 63) {n : ProxyNode}
    (h : acceptLine tok l = some n) : (lineGiven tok l).Narrows n ∧ (lineGiven tok l).port = some n.port ∧
      1 ≤ n.port ∧ n.port ≤ 65535 := by
  obtain ⟨f, hf, hn⟩ := acceptLine_numbers hlen h
  have hport : (lineGiven tok l).port = some n.port := by rw [lineGiven, hf]; exact hn.port
  refine ⟨⟨acceptLine_emits hlen h, ⟨n.port, hport, ?_⟩, ?_⟩, hport, hn.range⟩
  · exact (narrowed_port_iff.2 hn.range).1.symm
  · rw [lineGiven, hf]
    simp only [Option.bind_some]
    rw [← hn.type, hn.alterId]
    split <;> rfl

theorem forall₂_filterMap {α β : Type} (f : α → Option β) : ∀ (xs : List α),
    List.Forall₂ (fun a b => f a = some b) (xs.filter fun a => (f a).isSome) (xs.filterMap f)
  | [] => .nil
  | a :: xs => by
    rw [List.filter_cons, List.filterMap_cons]
    cases h : f a with
    | none => exact forall₂_filterMap f xs
    | some b => exact .cons h (forall₂_filterMap f xs)

/-- The naming pass leaves the integers. -/
theorem Given.Narrows.setName {g : Given} {n : ProxyNode} (h : g.Narrows n) (s : CStr) : g.Narrows (setName n s) :=
  ⟨h.emits, h.port, h.aid⟩

theorem forall₂_setName {gs : List Given} {ns : List ProxyNode} (h : List.Forall₂ Given.Narrows gs ns) :
    ∀ {names : List CStr}, names.length = ns.length → List.Forall₂ Given.Narrows gs (List.zipWith setName ns names) := by
  induction h with
  | nil => simp
  | cons hg _ ih =>
    intro names hlen
    rcases names with _ | ⟨s, names⟩
    · simp at hlen
    · exact .cons (hg.setName s) (ih (by simpa using hlen))

theorem base64Doc_narrows {tok : Tokener} {b : Bytes} (hlen : b.length < 2 ^ 63) :
    List.Forall₂ Given.Narrows ((acceptedLines tok b).map (lineGiven tok)) (base64Doc (acceptedNodes tok b)).proxies := by
  refine forall₂_setName ?_ (by simp [length_uniqueNames])
  rw [← acceptedNodes_eq tok hlen, List.forall₂_map_left_iff]
  have hlines : ∀ l ∈ acceptedLines tok b, l.length < 2 ^ 63 := fun l hl =>
    (length_le_of_mem_splitOn (List.mem_of_mem_filter hl)).trans_lt hlen
  have hall := forall₂_filterMap (acceptLine tok) (b.splitOn 10)
  exact ((List.forall₂_and_left _ _).2 ⟨hlines, hall⟩).imp fun l n h => (lineGiven_narrows h.1 h.2).1

/-- On a list of links only an `aid` can fail to fit. -/
theorem lineGiven_fits {tok : Tokener} {b : Bytes} (hlen : b.length < 2 ^ 63) :
    (∀ g ∈ (acceptedLines tok b).map (lineGiven tok), g.Fits) ↔
      ∀ l ∈ acceptedLines tok b, ∀ a ∈ (lineGiven tok l).aid, FitsInt a := by
  rw [List.forall_mem_map]
  refine forall₂_congr fun l hl => ⟨Given.Fits.aid, fun ha => ⟨?_, ha⟩⟩
  obtain ⟨n, hn⟩ := Option.isSome_iff_exists.1 (List.mem_filter.1 hl).2
  have hl' := (length_le_of_mem_splitOn (List.mem_of_mem_filter hl)).trans_lt hlen
  exact ⟨n.port, (lineGiven_narrows hl' hn).2⟩

/-! ## Arrays of elements -/

/-- The port an outbound gives. -/
def outboundPort (ob : Json) : Option Int := do
  let settings ← jsonxGetObj ob "settings"
  let vnext ← jsonxGetArr settings "vnext"
  let v0 ← jsonxArrObj vnext 0
  match jsonxObjGet v0 "port" with
  | some (.int i) => some i
  | _ => none

/-- The outbounds of the elements of an array, in order. -/
def arrayOutbounds (xs : List Json) : List (Option Json) :=
  (jsonxElems (.arr xs)).flatMap fun e =>
    match e with
    | some (.obj ms) => elemOutbounds (.obj ms)
    | _ => []

/-- The outbounds that are accepted. -/
def acceptedOutbounds (xs : List Json) : List (Option Json) :=
  (arrayOutbounds xs).filter fun ob => (readOutbound ob).isSome

/-- The integers an outbound gives. -/
def outboundGiven (ob : Option Json) : Given := ⟨ob.bind outboundPort, none⟩

theorem parseVlessOutbound_narrows {ob : Json} {n : ProxyNode} {tag : Option CStr}
    (h : parseVlessOutbound ob = some (n, tag)) : (outboundGiven (some ob)).Narrows n := by
  obtain ⟨address, port, id, hob, rfl, -⟩ := parseVlessOutbound_some.1 h
  obtain ⟨settings, vnext, v0, users, u0, h1, h2, h3, -, h5, -⟩ := hob.server
  have hnode : (applyStream ob (baseNode address port id)).type = .vless ∧
      (applyStream ob (baseNode address port id)).port = toInt32 port := by
    rcases hs : jsonxGetObj ob "streamSettings" with _ | ss
    · rw [applyStream_none hs]; exact ⟨rfl, rfl⟩
    · rw [applyStream_some hs, streamNode_eq]; exact ⟨rfl, rfl⟩
  obtain ⟨i, hi, hp⟩ : ∃ i, outboundPort ob = some i ∧ port = clampLong i := by
    unfold jsonxGetInt at h5
    split at h5
    · rename_i i hv
      refine ⟨i, ?_, (Option.some.inj h5).symm⟩
      rw [outboundPort, h1, Option.bind_eq_bind, Option.bind_some, h2, Option.bind_some, h3, Option.bind_some, hv]
    · cases h5
  refine ⟨by rw [hnode.1]; rfl, ⟨i, hi, by rw [hnode.2, hp]⟩, ?_⟩
  rw [hnode.1]
  rfl

/-- An element yields the nodes of its accepted outbounds. -/
theorem elemNodes_outbounds : ∀ (vs : List (Option Json)), elemNodes (yielding (vs.map readElem)) =
    (vs.flatMap fun e => match e with
      | some (.obj ms) => elemOutbounds (.obj ms)
      | _ => []).filterMap fun ob => (readOutbound ob).map Prod.fst
  | [] => rfl
  | v :: vs => by
    have ih := elemNodes_outbounds vs
    by_cases h : ∃ ms, v = some (.obj ms)
    · obtain ⟨ms, rfl⟩ := h
      have hmap : (elemOutbounds (.obj ms)).filterMap (fun ob => (readOutbound ob).map Prod.fst) =
          ((elemOutbounds (.obj ms)).filterMap readOutbound).map Prod.fst := List.map_filterMap.symm
      rw [List.flatMap_cons, List.filterMap_append, ← ih, hmap, List.map_cons, readElem, yielding]
      -- an element without an accepted outbound is left out
      split
      · rename_i hm
        simp only at hm
        rw [hm]
        rfl
      · rfl
    · obtain ⟨-, hr, -⟩ := scan_skip (not_exists.1 h)
      rw [List.map_cons, hr, yielding, ih, List.flatMap_cons]
      rcases v with _ | j
      · rfl
      · cases j <;> first | exact absurd ⟨_, rfl⟩ h | rfl

theorem singboxDoc_narrows (xs : List Json) :
    List.Forall₂ Given.Narrows ((acceptedOutbounds xs).map outboundGiven) (singboxDoc (singboxElems xs)).proxies := by
  have hnodes : elemNodes (singboxElems xs) = (arrayOutbounds xs).filterMap fun ob => (readOutbound ob).map Prod.fst :=
    elemNodes_outbounds _
  have hall := forall₂_filterMap (fun ob => (readOutbound ob).map Prod.fst) (arrayOutbounds xs)
  simp only [Option.isSome_map] at hall
  refine forall₂_setName ?_ (by rw [flatten_elemNames, Fresh.length_assign, length_flatMap_elemBases])
  rw [hnodes, List.forall₂_map_left_iff]
  refine hall.imp fun ob n hn => ?_
  obtain ⟨⟨m, tag⟩, hr, rfl⟩ := Option.map_eq_some_iff.1 hn
  unfold readOutbound at hr
  split at hr
  · obtain ⟨⟨m', tag'⟩, hp, heq⟩ := Option.map_eq_some_iff.1 hr
    cases heq
    exact parseVlessOutbound_narrows hp
  · cases hr

/-! ## The runs -/

/-- Both documents write the integers of their sources exactly where these fit: every `aid` of an accepted
vmess link is an `int`, every accepted outbound has a port in range. The ports of links always fit. -/
theorem conv_numbers_iff (tok : Tokener) (ctx : ConvCtx) (outYaml out : Option CStr) :
    (convBase64Run tok ctx outYaml = .ok (0, out) →
      out = some (base64Doc (acceptedNodes tok (bodyText ctx))).yaml ∧
        (NumbersKept ((acceptedLines tok (bodyText ctx)).map (lineGiven tok)) (base64Doc (acceptedNodes tok (bodyText ctx))) ↔
          ∀ l ∈ acceptedLines tok (bodyText ctx), ∀ a ∈ (lineGiven tok l).aid, FitsInt a)) ∧
    (convSingboxRun tok ctx outYaml = .ok (0, out) →
      ∃ xs, jsonxParse tok (some ctx.data) = some (.arr xs) ∧ out = some (singboxDoc (singboxElems xs)).yaml ∧
        (NumbersKept ((acceptedOutbounds xs).map outboundGiven) (singboxDoc (singboxElems xs)) ↔
          ∀ ob ∈ acceptedOutbounds xs, ∃ i, ob.bind outboundPort = some i ∧ 1 ≤ i ∧ i ≤ 65535)) := by
  constructor
  · intro h
    rcases convBase64Run_ok h with h | ⟨-, h⟩
    · cases h
    · cases h
      have hlen := length_bodyText_lt ctx
      refine ⟨rfl, ?_⟩
      rw [numbersKept_iff (base64Doc_narrows hlen), lineGiven_fits hlen]
  · intro h
    obtain ⟨xs, hx, -, rfl⟩ := convSingboxRun_ok h
    refine ⟨xs, hx, rfl, ?_⟩
    rw [numbersKept_iff (singboxDoc_narrows xs), List.forall_mem_map]
    exact forall₂_congr fun ob _ => ⟨Given.Fits.port, fun h => ⟨h, nofun⟩⟩

theorem conv_numbers_pair :
    (NumbersKept ((acceptedLines .refusing (bodyText linkBody)).map (lineGiven .refusing))
        (base64Doc (acceptedNodes .refusing (bodyText linkBody))) ↔
      ∀ l ∈ acceptedLines .refusing (bodyText linkBody), ∀ a ∈ (lineGiven .refusing l).aid, FitsInt a) ∧
    ∃ xs, jsonxParse pairTok (some pairCtx.data) = some (.arr xs) ∧
      some (singboxDoc (singboxElems pairJson)).yaml = some (singboxDoc (singboxElems xs)).yaml ∧
        (NumbersKept ((acceptedOutbounds xs).map outboundGiven) (singboxDoc (singboxElems xs)) ↔
          ∀ ob ∈ acceptedOutbounds xs, ∃ i, ob.bind outboundPort = some i ∧ 1 ≤ i ∧ i ≤ 65535) :=
  ⟨((conv_numbers_iff .refusing linkBody none _).1 linkBody_run).2,
    (conv_numbers_iff pairTok pairCtx none _).2 pairCtx_run⟩

/-! ## Two narrowed integers -/

instance (gs : List Given) (d : Document) : Decidable (NumbersKept gs d) := by
  unfold NumbersKept
  infer_instance

/-- A vmess JSON with an `aid` of 2^32. -/
def wideAidJson : Json :=
  .obj [(str "add", .str (str "h")), (str "port", .int 1), (str "id", .str (str "u")), (str "aid", .int 4294967296)]

def wideAidBody : ConvCtx where
  data := str "vmess://eyJhZGQiOiJoIiwicG9ydCI6MSwiaWQiOiJ1IiwiYWlkIjo0Mjk0OTY3Mjk2fQ=="
  spare := []
  fits := by decide +kernel

/-- The tokener of `wideAidJson`. -/
def wideAidTok : Tokener :=
  .only (str "\x7b\"add\":\"h\",\"port\":1,\"id\":\"u\",\"aid\":4294967296\x7d") wideAidJson (by decide +kernel)

/-- An element with an outbound of port 2^32 + 1. -/
def widePortJson : List Json :=
  [.obj [(str "outbounds", .arr [.obj [(str "protocol", .str (str "vless")),
    (str "settings", .obj [(str "vnext", .arr [.obj [(str "address", .str (str "h")), (str "port", .int 4294967297),
      (str "users", .arr [.obj [(str "id", .str (str "u"))]])]])])]])]]

def widePortCtx : ConvCtx where
  data := str ("[\x7b\"outbounds\":[\x7b\"protocol\":\"vless\",\"settings\":\x7b\"vnext\":[\x7b\"address\":\"h\"," ++
    "\"port\":4294967297,\"users\":[\x7b\"id\":\"u\"\x7d]\x7d]\x7d\x7d]\x7d]")
  spare := []
  fits := by decide +kernel

/-- The tokener of `widePortJson`. -/
def widePortTok : Tokener := .only widePortCtx.data (.arr widePortJson) (by decide +kernel)

/-- The first run writes the `alterId` 0 for 2^32, the second the port 1 for 2^32 + 1. -/
theorem conv_narrows :
    (convBase64Run wideAidTok wideAidBody none =
        .ok (0, some (base64Doc (acceptedNodes wideAidTok (bodyText wideAidBody))).yaml) ∧
      ints "alterId" (base64Doc (acceptedNodes wideAidTok (bodyText wideAidBody))).lines = [0] ∧
      ¬ NumbersKept ((acceptedLines wideAidTok (bodyText wideAidBody)).map (lineGiven wideAidTok))
        (base64Doc (acceptedNodes wideAidTok (bodyText wideAidBody)))) ∧
    convSingboxRun widePortTok widePortCtx none =
        .ok (0, some (singboxDoc (singboxElems widePortJson)).yaml) ∧
      ints "port" (singboxDoc (singboxElems widePortJson)).lines = [1] ∧
      ¬ NumbersKept ((acceptedOutbounds widePortJson).map outboundGiven) (singboxDoc (singboxElems widePortJson)) := by
  refine ⟨⟨?_, ?_, ?_⟩, ?_, ?_, ?_⟩
  · decide +kernel
  · decide +kernel
  · decide +kernel
  · have hx := @jsonxParse_array widePortTok widePortCtx.data _ (by decide +kernel) Tokener.only_self
    rw [convSingboxRun_eq hx, if_neg (by decide +kernel)]
  · decide +kernel
  · decide +kernel

end SubConverter
