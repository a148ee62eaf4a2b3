import ComplianceMcp.ManifestHash

/-! # The timeline of a policy

Every policy has a timeline: on each day one approved version is in force, or none yet.  It changes
on the effective dates of approved versions and on no other day.  A manifest cites this timeline up
to the end of its period, and the three policy tools agree on which versions there are. -/
namespace ComplianceMcp

open Latest
open scoped List

namespace PolicyRepository

variable (repo : PolicyRepository)

/-- The approved versions of a policy, by effective date. -/
def approvedVersions (policyId : String) : List Policy :=
  (repo.versions policyId).filter Policy.isApproved

variable {repo} {policyId day day' : String}

theorem mem_approvedVersions {d : Policy} :
    d ∈ repo.approvedVersions policyId ↔ d ∈ repo.approvedOf policyId := by
  unfold approvedVersions approvedOf versions
  rw [List.mem_filter, List.mem_insertionSort, List.mem_filter, List.mem_filter, List.mem_filter]
  constructor
  · rintro ⟨⟨hd, hid⟩, ha⟩
    exact ⟨⟨hd, ha⟩, hid⟩
  · rintro ⟨⟨hd, ha⟩, hid⟩
    exact ⟨⟨hd, hid⟩, ha⟩

theorem approvedVersions_sorted :
    (repo.approvedVersions policyId).Pairwise (fun d e => d.effectiveDate ≤ e.effectiveDate) :=
  (List.pairwise_insertionSort effectiveLE _).filter _

theorem candidates_eq : (repo.versions policyId).filter
    (fun d => d.isApproved && d.effectiveDate ≤ day) =
    (repo.approvedVersions policyId).filter (fun d => d.effectiveDate ≤ day) := by
  rw [approvedVersions, List.filter_filter]
  refine List.filter_congr (fun d _ => ?_)
  exact Bool.and_comm _ _

/-- What is in force on a day is the last approved version up to it. -/
theorem versionAsOf_eq : repo.versionAsOf policyId day =
    lastUpTo Policy.effectiveDate (repo.approvedVersions policyId) day :=
  congrArg List.getLast? candidates_eq

end PolicyRepository

/-- **The version in force changes on effective dates only**: between two days it stays the same
exactly if no approved version of the policy takes effect after the first and by the second. -/
theorem in_force_until (repo : PolicyRepository) (policyId day day' : String) (h : day ≤ day') :
    repo.versionAsOf policyId day = repo.versionAsOf policyId day' ↔
      ∀ d ∈ repo.docs, d.status = .approved → d.policyId = policyId →
        ¬ (day < d.effectiveDate ∧ d.effectiveDate ≤ day') := by
  rw [PolicyRepository.versionAsOf_eq, PolicyRepository.versionAsOf_eq,
    lastUpTo_eq_iff PolicyRepository.approvedVersions_sorted h]
  have hmem : ∀ d, d ∈ repo.approvedVersions policyId ↔
      d ∈ repo.docs ∧ d.status = .approved ∧ d.policyId = policyId := by
    intro d
    rw [PolicyRepository.mem_approvedVersions, PolicyRepository.approvedOf, List.mem_filter,
      List.mem_filter, Policy.isApproved, decide_eq_true_eq, decide_eq_true_eq, and_assoc]
  constructor
  · intro hall d hd ha hid
    exact hall d ((hmem d).mpr ⟨hd, ha, hid⟩)
  · intro hall d hd
    obtain ⟨hdoc, ha, hid⟩ := (hmem d).mp hd
    exact hall d hdoc ha hid

theorem in_force_until_sample :
    sampleRepository.versionAsOf "POL-GE" "2026-06-30" = sampleRepository.versionAsOf "POL-GE"
      "2026-12-31" ↔
      ∀ d ∈ sampleRepository.docs, d.status = .approved → d.policyId = "POL-GE" →
        ¬ ("2026-06-30" < d.effectiveDate ∧ d.effectiveDate ≤ "2026-12-31") :=
  in_force_until sampleRepository "POL-GE" "2026-06-30" "2026-12-31" (by decide)

/-! ## What a manifest cites -/

/-- The versions a manifest cites for the policies of a control. -/
structure CitesTimeline (repo : PolicyRepository) (policies : List String) (end_ : String)
    (cited : List PolicyVersionRef) : Prop where
  /-- Whatever was in force on some day up to the end is cited. -/
  complete : ∀ pid ∈ policies, ∀ day ≤ end_, ∀ v, repo.versionAsOf pid day = some v → v.ref ∈ cited
  /-- The last citation of a policy is the version in force at the end. -/
  last : ∀ pid ∈ policies, (cited.filter (fun r => r.policyId = pid)).getLast? =
    (repo.versionAsOf pid end_).map Policy.ref
  /-- What is cited was approved by the end, and on its effective date a version of that
  date was in force. -/
  only : ∀ r ∈ cited, r.policyId ∈ policies ∧ r.effectiveDate ≤ end_ ∧
    ∃ v ∈ repo.docs, v.status = .approved ∧ v.ref = r ∧
      ∃ w, repo.versionAsOf r.policyId r.effectiveDate = some w ∧ w.effectiveDate = r.effectiveDate

section Cites

variable {rt : Runtime} {data : Systems} {c s e : String} {ctl : Control} {m : EvidenceManifest}

theorem policyVersions_computed (hctl : data.control c = some ctl)
    (h : computeManifest rt data c s e = .ok (some m)) :
    m.policyVersions = ctl.policies.flatMap (fun pid => data.approvedBy pid e) := by
  unfold computeManifest at h
  rw [hctl] at h
  simp only [bind, Except.bind] at h
  split at h
  · cases h
  cases h
  exact List.map_flatMap

theorem approvedBy_eq (pid : String) : data.approvedBy pid e =
    ((data.policies.approvedVersions pid).filter (fun d => d.effectiveDate ≤ e)).map
      Policy.ref := by
  rw [Systems.approvedBy, PolicyRepository.candidates_eq]

theorem mem_approvedBy {pid : String} {r : PolicyVersionRef} : r ∈ data.approvedBy pid e ↔
    ∃ v ∈ data.policies.approvedOf pid, v.effectiveDate ≤ e ∧ v.ref = r := by
  rw [approvedBy_eq, List.mem_map]
  constructor
  · rintro ⟨v, hv, rfl⟩
    obtain ⟨hm, hle⟩ := List.mem_filter.mp hv
    exact ⟨v, PolicyRepository.mem_approvedVersions.mp hm, of_decide_eq_true hle, rfl⟩
  · rintro ⟨v, hv, hle, rfl⟩
    exact ⟨v, List.mem_filter.mpr ⟨PolicyRepository.mem_approvedVersions.mpr hv,
      decide_eq_true hle⟩, rfl⟩

/-- On the effective date of an approved version one of that date is in force. -/
theorem in_force_on_own_date {repo : PolicyRepository} {pid : String} {v : Policy}
    (hv : v ∈ repo.approvedOf pid) :
    ∃ w, repo.versionAsOf pid v.effectiveDate = some w ∧ w.effectiveDate = v.effectiveDate := by
  cases hw : repo.versionAsOf pid v.effectiveDate with
  | none => exact absurd le_rfl (PolicyRepository.versionAsOf_none hw v hv)
  | some w =>
    obtain ⟨-, hle, hmax⟩ := PolicyRepository.versionAsOf_some hw
    exact ⟨w, rfl, le_antisymm hle (hmax v hv le_rfl)⟩

/-- Of the citations of all policies those of one policy are its own, once or more. -/
theorem filter_cited {pid : String} {pids : List String} (h : pid ∈ pids) :
    ((pids.flatMap (fun p => data.approvedBy p e)).filter (fun r => r.policyId = pid)).getLast? =
      (data.approvedBy pid e).getLast? := by
  have hown : (data.approvedBy pid e).filter (fun r => r.policyId = pid) = data.approvedBy pid e :=
    List.filter_eq_self.mpr (fun r hr => decide_eq_true (approvedBy_policyId pid e r hr))
  have hother : ∀ p, p ≠ pid → (data.approvedBy p e).filter (fun r => r.policyId = pid) = [] := by
    intro p hp
    refine List.filter_eq_nil_iff.mpr (fun r hr hd => hp ?_)
    rw [← approvedBy_policyId p e r hr, of_decide_eq_true hd]
  induction pids with
  | nil => cases h
  | cons p pids ih =>
    rw [List.flatMap_cons, List.filter_append, List.getLast?_append]
    by_cases hin : pid ∈ pids
    · rw [ih hin]
      by_cases hp : p = pid
      · rw [hp, hown, Option.or_self]
      · rw [hother p hp, List.getLast?_nil, Option.or_none]
    · have hp : p = pid := ((List.mem_cons.mp h).resolve_right hin).symm
      have hnone : (pids.flatMap (fun p => data.approvedBy p e)).filter
          (fun r => r.policyId = pid) = [] := by
        rw [List.filter_flatMap]
        refine List.flatMap_eq_nil_iff.mpr (fun q hq => hother q (fun hqp => hin (hqp ▸ hq)))
      rw [hnone, hp, hown, List.getLast?_nil, Option.none_or]

end Cites

/-- **A manifest cites the timeline of its policies**: every version in force on some day up to
the end of the period, whichever day that is, the one in force at the end last, and nothing that
had not taken effect. -/
theorem manifest_cites_timeline (rt : Runtime) (data : Systems) (c s e : String) (ctl : Control)
    (m : EvidenceManifest) (hctl : data.control c = some ctl)
    (h : computeManifest rt data c s e = .ok (some m)) :
    CitesTimeline data.policies ctl.policies e m.policyVersions := by
  rw [policyVersions_computed hctl h]
  constructor
  · intro pid hpid day hday v hv
    obtain ⟨hm, hle, -⟩ := PolicyRepository.versionAsOf_some hv
    exact List.mem_flatMap.mpr ⟨pid, hpid, mem_approvedBy.mpr ⟨v, hm, hle.trans hday, rfl⟩⟩
  · intro pid hpid
    rw [filter_cited hpid, approvedBy_eq, List.getLast?_map, PolicyRepository.versionAsOf_eq]
    rfl
  · intro r hr
    obtain ⟨pid, hpid, hr⟩ := List.mem_flatMap.mp hr
    obtain ⟨v, hv, hle, rfl⟩ := mem_approvedBy.mp hr
    have hid : v.ref.policyId = pid := PolicyRepository.mem_approvedOf hv
    obtain ⟨hdoc, ha⟩ := List.mem_filter.mp (List.mem_of_mem_filter hv)
    rw [hid]
    exact ⟨hpid, hle, v, hdoc, of_decide_eq_true ha, rfl, in_force_on_own_date hv⟩

/-- A control under the gifts policy, with no cadence. -/
def giftControl : Control := ⟨"CTL-1", "Gift pre-clearance", "", "", .unset, ["POL-GE"], [], []⟩

def giftSystems : Systems := ⟨sampleRepository, [giftControl], [], [], [], []⟩

theorem manifest_cites_timeline_sample : ∃ m,
    computeManifest Runtime.python giftSystems "CTL-1" "2026-01-01" "2026-06-30" = .ok (some m) ∧
      CitesTimeline sampleRepository ["POL-GE"] "2026-06-30" m.policyVersions := by
  have hcomputed : ∀ rt : Runtime, ∃ m,
      computeManifest rt giftSystems "CTL-1" "2026-01-01" "2026-06-30" = .ok (some m) :=
        fun rt => ⟨_, rfl⟩
  obtain ⟨m, hm⟩ := hcomputed Runtime.python
  exact ⟨m, hm, manifest_cites_timeline Runtime.python giftSystems "CTL-1" "2026-01-01"
    "2026-06-30" giftControl m (by decide) hm⟩

/-! ## The policy tools -/

/-- What the tools say about the current versions fits together. -/
structure ToolsAgree (rt : Runtime) (repo : PolicyRepository) : Prop where
  /-- `policy_get` finds what `policy_list` lists, and nothing else. -/
  get_iff : ∀ policyId d, (∃ text, policyGet repo policyId none = .ok (text, some d)) ↔
    d ∈ repo.current ∧ d.policyId = policyId
  list : ∀ x, x ∈ (policyList repo).2 ↔ ∃ d ∈ repo.current, x = d.summary
  /-- A policy is listed once. -/
  once : ((policyList repo).2.map PolicySummary.policyId).Pairwise (· < ·)
  /-- What `policy_lookup` cites is found there by `policy_get`, and is of the version in
  force on its date. -/
  cited : ∀ query limit text hits, policyLookup rt repo query limit = .ok (text, hits) → ∀ x ∈ hits,
    ∃ d ∈ repo.current, ∃ part ∈ d.sections, x = d.hit part ∧
      (∃ text', policyGet repo x.policyId none = .ok (text', some d)) ∧
      ∃ w, repo.versionAsOf x.policyId x.effectiveDate = some w ∧ w.effectiveDate = x.effectiveDate

section Tools

variable {rt : Runtime} {repo : PolicyRepository}

theorem policyGet_iff {policyId : String} {d : Policy} :
    (∃ text, policyGet repo policyId none = .ok (text, some d)) ↔ d ∈ repo.current ∧
    d.policyId = policyId := by
  obtain ⟨summary, hget⟩ := @policyGet_current repo policyId
  rw [PolicyRepository.mem_current]
  constructor
  · rintro ⟨text, ht⟩
    rw [hget] at ht
    have hr : runningMax Policy.effectiveDate (repo.approvedOf policyId) = some d :=
      congrArg Prod.snd (Except.ok.inj ht)
    have hid : d.policyId = policyId := PolicyRepository.mem_approvedOf (runningMax_isLatest hr).mem
    rw [hid]
    exact ⟨hr, rfl⟩
  · rintro ⟨hr, rfl⟩
    exact ⟨summary, by rw [hget, hr]⟩

instance : Std.Total policyIdLE := ⟨fun d e => le_total d.policyId e.policyId⟩

instance : IsTrans Policy policyIdLE := ⟨fun _ _ _ h h' => le_trans (α := String) h h'⟩

/-- A policy has one current version: the table of the running maxima has one entry for each id. -/
theorem current_policyIds : (repo.current.map Policy.policyId).Pairwise (· < ·) := by
  have hkeys : ((latestByKey Policy.effectiveDate Policy.policyId
    (repo.docs.filter Policy.isApproved)).map
      Prod.snd).map Policy.policyId =
        (latestByKey Policy.effectiveDate Policy.policyId (repo.docs.filter Policy.isApproved)).map
          Prod.fst := by
    rw [List.map_map]
    refine List.map_congr_left (fun entry hentry => ?_)
    have hmax := (mem_latestByKey (k := entry.1) (a := entry.2) Policy.policyId).mp hentry
    exact of_decide_eq_true (List.mem_filter.mp (runningMax_isLatest hmax).mem).2
  have hnodup : (repo.current.map Policy.policyId).Nodup := by
    refine ((List.perm_insertionSort policyIdLE _).map Policy.policyId).nodup_iff.mpr ?_
    rw [hkeys]
    exact nodup_keys_latestByKey Policy.policyId _
  have hsorted : (repo.current.map Policy.policyId).Pairwise (· ≤ ·) :=
    List.pairwise_map.mpr (List.pairwise_insertionSort policyIdLE _)
  exact (hsorted.and hnodup).imp (fun h => lt_of_le_of_ne h.1 h.2)

end Tools

/-- **The policy tools agree** on every repository, whatever the dates and statuses of its files:
they list, return and cite the same versions, each policy once. -/
theorem policy_tools_agree (rt : Runtime) (repo : PolicyRepository) : ToolsAgree rt repo := by
  constructor
  · exact fun policyId d => policyGet_iff
  · intro x
    exact List.mem_map.trans (exists_congr fun d => and_congr_right fun _ => eq_comm)
  · have hids : (policyList repo).2.map PolicySummary.policyId = repo.current.map Policy.policyId :=
      List.map_map
    rw [hids]
    exact current_policyIds
  · intro query limit text hits hl x hx
    unfold policyLookup at hl
    split at hl
    · cases hl
    cases hl
    obtain ⟨d, hd, part, hpart, rfl⟩ := mem_search hx
    refine ⟨d, hd, part, hpart, rfl, policyGet_iff.mpr ⟨hd, rfl⟩, ?_⟩
    exact in_force_on_own_date (runningMax_isLatest (PolicyRepository.mem_current.mp hd)).mem

end ComplianceMcp
