import ComplianceMcp.EvidenceExport

/-! # What the hash of a manifest covers

Two manifests have one hash exactly when they list the same evidence: the record of the
control, the approved versions of each policy it names up to the end of the period, and the
test results and tickets of the control in the period.  The gaps are computed from these and
add nothing.

`TicketSystem.search` takes an empty control id as "any control", so the manifest of a
control with the empty id lists every ticket of the period. -/
namespace PyJson
namespace Json

variable {α : Type*}

/-- Values whose encodings print the same are the same. -/
def Faithful (f : α → Json) : Prop := ∀ x y, (f x).sortKeys = (f y).sortKeys → x = y

theorem faithful_str : Faithful Json.str := by
  intro x y h
  rw [sortKeys_str, sortKeys_str] at h
  exact Json.str.inj h

theorem Faithful.list {f : α → Json} (hf : Faithful f) :
    Faithful (fun xs : List α => .arr (xs.map f)) := by
  intro xs ys h
  simp only [sortKeys, sortKeysItems_eq_map, List.map_map, Json.arr.injEq] at h
  exact List.map_injective_iff.mpr hf h

/-- Objects with the same keys print the same only if their values do. -/
theorem values_of_sortKeys {d e : Dict} (h : (Json.obj d).sortKeys = (Json.obj e).sortKeys)
    (hk : d.map Prod.fst = e.map Prod.fst) (hd : (d.map Prod.fst).Nodup) :
    d.map (fun f => f.2.sortKeys) = e.map (fun f => f.2.sortKeys) := by
  have he : (e.map Prod.fst).Nodup := hk ▸ hd
  have hlen : d.length = e.length := by
    rw [← List.length_map Prod.fst, hk, List.length_map]
  have hs : sortedFields d = sortedFields e := Json.obj.inj h
  refine List.ext_getElem (by rw [List.length_map, List.length_map, hlen]) (fun i hi hj => ?_)
  rw [List.length_map] at hi hj
  have hkey : d[i].1 = e[i].1 := by
    have hm := List.getElem_of_eq hk (i := i) (by rw [List.length_map]; exact hi)
    rwa [List.getElem_map, List.getElem_map] at hm
  have hgd : get d d[i].1 = some d[i].2 := (get_eq_some_iff hd).mpr (List.getElem_mem hi)
  have hge : get e d[i].1 = some e[i].2 := by
    rw [hkey]
    exact (get_eq_some_iff he).mpr (List.getElem_mem hj)
  have hv := get_sortedFields hd d[i].1
  rw [hs, get_sortedFields he, hgd, hge] at hv
  rw [List.getElem_map, List.getElem_map]
  exact (Option.some.inj hv).symm

end Json
end PyJson

namespace ComplianceMcp

open PyText PyJson Sha256

/-! ## Lists gathered by key -/

section Keys

variable {κ α : Type*} [DecidableEq κ] {key : α → κ} {f g : κ → List α}

theorem filter_key (hf : ∀ k, ∀ a ∈ f k, key a = k) (k k' : κ) :
    (f k').filter (fun a => key a = k) = if k' = k then f k' else [] := by
  by_cases h : k' = k
  · rw [if_pos h, List.filter_eq_self]
    intro a ha
    exact decide_eq_true ((hf k' a ha).trans h)
  · rw [if_neg h, List.filter_eq_nil_iff]
    intro a ha hk
    exact h ((hf k' a ha).symm.trans (of_decide_eq_true hk))

theorem length_filter_flatMap (hf : ∀ k, ∀ a ∈ f k, key a = k) (k : κ) (ks : List κ) :
    ((ks.flatMap f).filter (fun a => key a = k)).length = ks.count k * (f k).length := by
  induction ks with
  | nil => simp
  | cons k' ks ih =>
    rw [List.flatMap_cons, List.filter_append, List.length_append, ih, filter_key hf,
      List.count_cons]
    by_cases h : k' = k
    · subst h
      rw [if_pos rfl, if_pos (beq_self_eq_true k'), Nat.add_mul, Nat.one_mul, Nat.add_comm]
    · rw [if_neg h, if_neg (by rwa [beq_iff_eq]), List.length_nil, Nat.zero_add, Nat.add_zero]

/-- The parts of a list gathered by key can be told apart. -/
theorem flatMap_key_inj (key : α → κ) (hf : ∀ k, ∀ a ∈ f k, key a = k)
    (hg : ∀ k, ∀ a ∈ g k, key a = k) {ks : List κ} (h : ks.flatMap f = ks.flatMap g) :
    ∀ k ∈ ks, f k = g k := by
  intro k hk
  have hlen : (f k).length = (g k).length := by
    have hl := congrArg (fun l => (l.filter (fun a => decide (key a = k))).length) h
    simp only [length_filter_flatMap hf, length_filter_flatMap hg] at hl
    exact Nat.eq_of_mul_eq_mul_left (List.count_pos_iff.mpr hk) hl
  obtain ⟨as, bs, hks, hno⟩ := List.eq_append_cons_of_mem hk
  have hnil : ∀ {f : κ → List α}, (∀ k, ∀ a ∈ f k, key a = k) →
      (as.flatMap f).filter (fun a => decide (key a = k)) = [] := by
    intro f hf
    refine List.eq_nil_of_length_eq_zero ?_
    rw [length_filter_flatMap hf, List.count_eq_zero_of_not_mem hno, Nat.zero_mul]
  have heq := congrArg (List.filter (fun a => decide (key a = k))) h
  simp only [hks, List.flatMap_append, List.flatMap_cons, List.filter_append, hnil hf, hnil hg,
    List.nil_append, filter_key hf k k, filter_key hg k k, if_true] at heq
  exact List.append_inj_left heq hlen

end Keys

/-! ## What is hashed -/

theorem Frequency.value_inj {x y : Frequency} (h : x.value = y.value) : x = y := by
  cases x <;> cases y <;> first | rfl | exact absurd h (by decide)

theorem TestOutcome.value_inj {x y : TestOutcome} (h : x.value = y.value) : x = y := by
  cases x <;> cases y <;> first | rfl | exact absurd h (by decide)

theorem TicketType.value_inj {x y : TicketType} (h : x.value = y.value) : x = y := by
  cases x <;> cases y <;> first | rfl | exact absurd h (by decide)

open Json

theorem strings_inj {xs ys : List String}
    (h : (Json.arr (xs.map .str)).sortKeys = (Json.arr (ys.map .str)).sortKeys) : xs = ys :=
  faithful_str.list xs ys h

theorem Control.json_faithful : Faithful Control.json := by
  intro x y h
  unfold Control.json at h
  have hv := values_of_sortKeys h rfl (by simp)
  simp only [List.map_cons, List.cons.injEq, sortKeys_str, Json.str.injEq] at hv
  obtain ⟨hid, hname, hdesc, howner, hfreq, hpol, hreg, hev, -⟩ := hv
  obtain ⟨⟩ := x
  obtain ⟨⟩ := y
  simp only [Control.mk.injEq]
  exact ⟨hid, hname, hdesc, howner, Frequency.value_inj hfreq, strings_inj hpol, strings_inj hreg,
    strings_inj hev⟩

theorem TestResult.json_faithful : Faithful TestResult.json := by
  intro x y h
  unfold TestResult.json at h
  have hv := values_of_sortKeys h rfl (by simp)
  simp only [List.map_cons, List.cons.injEq, sortKeys_str, Json.str.injEq] at hv
  obtain ⟨hid, hcontrol, hday, htester, hresult, hnotes, -⟩ := hv
  obtain ⟨⟩ := x
  obtain ⟨⟩ := y
  simp only [TestResult.mk.injEq]
  exact ⟨hid, hcontrol, hday, htester, TestOutcome.value_inj hresult, hnotes⟩

theorem Ticket.json_faithful : Faithful Ticket.json := by
  intro x y h
  unfold Ticket.json at h
  have hv := values_of_sortKeys h rfl (by simp)
  simp only [List.map_cons, List.cons.injEq, sortKeys_str, Json.str.injEq] at hv
  obtain ⟨hid, hcreated, hstatus, htype, htitle, hsummary, hctls, hpols, -⟩ := hv
  obtain ⟨⟩ := x
  obtain ⟨⟩ := y
  simp only [Ticket.mk.injEq]
  exact ⟨hid, hcreated, hstatus, TicketType.value_inj htype, htitle, hsummary, strings_inj hctls,
    strings_inj hpols⟩

theorem PolicyVersionRef.json_faithful : Faithful PolicyVersionRef.json := by
  intro x y h
  unfold PolicyVersionRef.json at h
  have hv := values_of_sortKeys h rfl (by simp)
  simp only [List.map_cons, List.cons.injEq, sortKeys_str, Json.str.injEq] at hv
  obtain ⟨hid, hversion, hdate, htitle, hsource, hsha, -⟩ := hv
  obtain ⟨⟩ := x
  obtain ⟨⟩ := y
  simp only [PolicyVersionRef.mk.injEq]
  exact ⟨hid, hversion, hdate, htitle, hsource, hsha⟩

theorem digest_text_inj {x y : HexDigest} (h : x.text = y.text) : x = y := by
  cases x
  cases y
  cases h
  rfl

/-- The evidence of a manifest: all of it but the gaps and the hash. -/
structure EvidenceManifest.SameListing (m m' : EvidenceManifest) : Prop where
  control : m.control = m'.control
  versions : m.policyVersions = m'.policyVersions
  tests : m.testResults = m'.testResults
  tickets : m.changeTickets = m'.changeTickets

/-- The bytes the hash of a manifest is taken of. -/
def EvidenceManifest.canonical (m : EvidenceManifest) : Bytes := utf8 (dumps markerStyle m.unsigned)

/-- **The canonical JSON of a manifest gives the evidence back.** -/
theorem EvidenceManifest.canonical_inj {m m' : EvidenceManifest} (h : m.canonical = m'.canonical) :
    m.SameListing m' := by
  have hs : m.unsigned.sortKeys = m'.unsigned.sortKeys := dumps_injective (utf8_injective h)
  unfold EvidenceManifest.unsigned at hs
  have hv := values_of_sortKeys hs rfl (by simp)
  simp only [List.map_cons, List.cons.injEq] at hv
  obtain ⟨hcontrol, -, -, hversions, htests, htickets, -, -⟩ := hv
  exact ⟨Control.json_faithful _ _ hcontrol, PolicyVersionRef.json_faithful.list _ _ hversions,
    TestResult.json_faithful.list _ _ htests, Ticket.json_faithful.list _ _ htickets⟩

/-! ## The evidence of a control -/

namespace Systems

variable (data : Systems) (controlId start end_ : String)

/-- The approved versions of a policy that took effect by the day, in the order of their dates. -/
def approvedBy (policyId day : String) : List PolicyVersionRef :=
  ((data.policies.versions policyId).filter (fun v => v.isApproved && v.effectiveDate ≤ day)).map
    Policy.ref

/-- The test results of the control dated inside the period. -/
def testsDated : List TestResult :=
  data.tests.filter (fun t => t.controlId = controlId ∧ start ≤ t.testedOn ∧ t.testedOn ≤ end_)

/-- The tickets dated inside the period. -/
def ticketsDated : List Ticket :=
  data.tickets.filter (fun t => start ≤ t.created ∧ t.created ≤ end_)

/-- The tickets of the control dated inside the period. -/
def ticketsNaming : List Ticket :=
  (data.ticketsDated start end_).filter (fun t => controlId ∈ t.controls)

/-- The tickets a manifest lists: those of the control, or all if the id is empty. -/
def ticketsListed : List Ticket :=
  if controlId = "" then data.ticketsDated start end_ else data.ticketsNaming controlId start end_

end Systems

/-- Two contents of the systems of record agree on the evidence of a control for a period;
`tickets` says which tickets belong to it. -/
structure AgreeOnEvidence (tickets : Systems → String → String → String → List Ticket)
    (data data' : Systems) (controlId start end_ : String) : Prop where
  control : data.control controlId = data'.control controlId
  versions : ∀ ctl, data.control controlId = some ctl → ∀ pid ∈ ctl.policies,
    data.approvedBy pid end_ = data'.approvedBy pid end_
  tests : data.testsDated controlId start end_ = data'.testsDated controlId start end_
  tickets : tickets data controlId start end_ = tickets data' controlId start end_

/-- The hash is that of the evidence: the same evidence gives the same manifest, and two
manifests have one hash exactly on the same evidence. -/
structure HashTracks (rt : Runtime) (data data' : Systems) (controlId start end_ : String)
    (same : Prop) : Prop where
  frame : same → computeManifest rt data controlId start end_ = computeManifest rt data'
    controlId start end_
  hash_iff : ∀ m m', computeManifest rt data controlId start end_ = .ok (some m) →
    computeManifest rt data' controlId start end_ = .ok (some m') →
    (m.manifestSha256 = m'.manifestSha256 ↔ same)

section Tracks

variable {rt : Runtime} {data data' : Systems} {c s e : String}

theorem results_eq (hs : s ≠ "") (he : e ≠ "") : data.results c s e = data.testsDated c s e := by
  unfold Systems.results Systems.testsDated inRange
  simp [hs, he]

theorem ticketsOf_eq (hs : s ≠ "") (he : e ≠ "") :
    data.ticketsOf c s e = data.ticketsListed c s e := by
  unfold Systems.ticketsOf Systems.ticketsListed Systems.ticketsNaming Systems.ticketsDated inRange
  by_cases hc : c = ""
  · simp [hc, hs, he]
  · simp [hc, hs, he, List.filter_filter]

/-- What a computed manifest lists. -/
structure Lists (data : Systems) (c s e : String) (ctl : Control) (m : EvidenceManifest) :
    Prop where
  control : m.control = ctl
  versions : m.policyVersions = ctl.policies.flatMap (fun pid => data.approvedBy pid e)
  tests : m.testResults = data.testsDated c s e
  tickets : m.changeTickets = data.ticketsListed c s e

theorem computeManifest_spec (hs : s ≠ "") (he : e ≠ "") {m : EvidenceManifest}
    (h : computeManifest rt data c s e = .ok (some m)) :
    ∃ ctl, data.control c = some ctl ∧ Lists data c s e ctl m ∧
      m.manifestSha256 = (rt.sha256 m.canonical).text := by
  unfold computeManifest at h
  split at h
  · cases h
  next ctl hctl =>
  simp only [bind, Except.bind] at h
  split at h
  · cases h
  cases h
  refine ⟨ctl, hctl, ⟨rfl, ?_, results_eq hs he, ticketsOf_eq hs he⟩, rfl⟩
  rw [List.map_flatMap]
  rfl

theorem approvedBy_policyId (pid day : String) :
    ∀ v ∈ data.approvedBy pid day, v.policyId = pid := by
  intro v hv
  obtain ⟨d, hd, rfl⟩ := List.mem_map.mp hv
  have hm := List.mem_of_mem_filter hd
  unfold PolicyRepository.versions at hm
  rw [List.mem_insertionSort] at hm
  exact of_decide_eq_true (List.mem_filter.mp hm).2

/-- The manifest is computed from the evidence and from nothing else. -/
theorem computeManifest_frame (hs : s ≠ "") (he : e ≠ "")
    (h : AgreeOnEvidence Systems.ticketsListed data data' c s e) :
    computeManifest rt data c s e = computeManifest rt data' c s e := by
  refine computeManifest_congr ⟨h.control, fun ctl hctl => ?_, ?_, ?_⟩
  · unfold Systems.versionsFor
    rw [List.map_flatMap, List.map_flatMap]
    exact List.flatMap_congr (h.versions ctl hctl)
  · rw [results_eq hs he, results_eq hs he, h.tests]
  · rw [ticketsOf_eq hs he, ticketsOf_eq hs he, h.tickets]

/-- **The hash of a manifest covers the evidence of the control and nothing else**, if SHA-256
does not collide on the two manifests.  For the empty id every ticket of the period counts. -/
theorem manifest_hash_tracks (rt : Runtime) (data data' : Systems) (c s e : String)
    (hs : s ≠ "") (he : e ≠ "") (hsha : ∀ m m', computeManifest rt data c s e = .ok (some m) →
      computeManifest rt data' c s e = .ok (some m') →
      rt.sha256 m.canonical = rt.sha256 m'.canonical → m.canonical = m'.canonical) :
    HashTracks rt data data' c s e (AgreeOnEvidence Systems.ticketsListed data data' c s e) := by
  refine ⟨computeManifest_frame hs he, fun m m' hm hm' => ?_⟩
  obtain ⟨ctl, hctl, hl, hh⟩ := computeManifest_spec hs he hm
  obtain ⟨ctl', hctl', hl', hh'⟩ := computeManifest_spec hs he hm'
  constructor
  · intro heq
    have hdigest : rt.sha256 m.canonical = rt.sha256 m'.canonical := by
      rw [hh, hh'] at heq
      exact digest_text_inj heq
    have hsame := EvidenceManifest.canonical_inj (hsha m m' hm hm' hdigest)
    have hcc : ctl = ctl' := hl.control.symm.trans (hsame.control.trans hl'.control)
    subst hcc
    refine ⟨hctl.trans hctl'.symm, fun ctl₂ h₂ pid hpid => ?_, ?_, ?_⟩
    · cases hctl.symm.trans h₂
      exact flatMap_key_inj PolicyVersionRef.policyId (fun k => approvedBy_policyId k e)
        (fun k => approvedBy_policyId k e)
        (hl.versions.symm.trans (hsame.versions.trans hl'.versions)) pid hpid
    · exact hl.tests.symm.trans (hsame.tests.trans hl'.tests)
    · exact hl.tickets.symm.trans (hsame.tickets.trans hl'.tickets)
  · intro hsame
    have hmm : computeManifest rt data c s e = computeManifest rt data' c s e :=
      computeManifest_frame hs he hsame
    rw [hm, hm'] at hmm
    cases hmm
    rfl

end Tracks

/-! ## Examples -/

/-- The library of one control, with a second control that nothing tests. -/
def sampleExtended : Systems :=
  { sampleSystems with controls := ⟨"CTL-2", "", "", "", .unset, [], [],
    []⟩ :: sampleSystems.controls }

theorem sample_extended : AgreeOnEvidence Systems.ticketsListed sampleSystems sampleExtended
    "CTL-1" "2026-01-01" "2026-03-31" :=
  ⟨by decide, fun _ _ _ _ => rfl, rfl, rfl⟩

theorem manifest_hash_tracks_sample : HashTracks Runtime.python sampleSystems sampleExtended
    "CTL-1" "2026-01-01" "2026-03-31"
    (AgreeOnEvidence Systems.ticketsListed sampleSystems sampleExtended "CTL-1" "2026-01-01"
      "2026-03-31") :=
  manifest_hash_tracks Runtime.python sampleSystems sampleExtended "CTL-1" "2026-01-01" "2026-03-31"
    (by decide) (by decide) (fun m m' hm hm' _ => by
      rw [computeManifest_frame (by decide) (by decide) sample_extended, hm'] at hm
      cases hm
      rfl)

/-- A control with the empty id, and the tickets given. -/
def sampleUnnamed (tickets : List Ticket) : Systems :=
  { sampleSystems with controls := [⟨"", "", "", "", .unset, [], [], []⟩], tickets := tickets }

/-- A ticket of another control. -/
def sampleTicket : Ticket := ⟨"CHG-1", "2026-02-01", "", .change, "", "", ["CTL-1"], []⟩

/-- **With the empty control id a ticket of another control changes the hash.** -/
theorem foreign_ticket_hashed :
    ¬ HashTracks Runtime.python (sampleUnnamed []) (sampleUnnamed [sampleTicket])
    "" "2026-01-01" "2026-03-31"
    (AgreeOnEvidence Systems.ticketsNaming (sampleUnnamed []) (sampleUnnamed [sampleTicket])
      "" "2026-01-01" "2026-03-31") := by
  intro h
  have hsame : AgreeOnEvidence Systems.ticketsNaming (sampleUnnamed [])
    (sampleUnnamed [sampleTicket]) "" "2026-01-01" "2026-03-31" :=
      ⟨rfl, fun _ _ _ _ => rfl, rfl, rfl⟩
  have hperiod : RealPeriod "2026-01-01" "2026-03-31" :=
    ⟨⟨⟨2026, 1, 1⟩, rfl⟩, ⟨⟨2026, 3, 31⟩, rfl⟩, by decide⟩
  have hmanifest : ∀ ts, ∃ m, computeManifest Runtime.python (sampleUnnamed ts) "" "2026-01-01"
    "2026-03-31" = .ok (some m) :=
      fun ts => computeManifest_real (by exact fun h => nomatch h) hperiod
  obtain ⟨m, hm⟩ := hmanifest []
  obtain ⟨m', hm'⟩ := hmanifest [sampleTicket]
  have hhash := (h.hash_iff m m' hm hm').mpr hsame
  have hdiffer : recomputeHash Runtime.python (sampleUnnamed []) "" "2026-01-01" "2026-03-31" ≠
      recomputeHash Runtime.python (sampleUnnamed [sampleTicket]) "" "2026-01-01" "2026-03-31" := by
    decide +kernel
  unfold recomputeHash at hdiffer
  rw [hm, hm'] at hdiffer
  exact hdiffer (congrArg (fun t => Except.ok (some t)) hhash)

end ComplianceMcp
