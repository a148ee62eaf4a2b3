import ComplianceMcp.IsoDate
import ComplianceMcp.Latest
import ComplianceMcp.DraftTable
import Mathlib.Algebra.Ring.Nat

/-! # The policy repository

One Markdown file holds one version of one policy.  The version served as current is the
approved version with the latest effective date, found by a running maximum over the files;
the version in force on a day is the last approved one in a sort by effective date.  The
first does not look at the day and keeps the first of several versions of one date, the
second keeps the last: a version approved for a future date is served before it takes
effect, and two versions of one date are served one way and cited the other. -/
namespace ComplianceMcp

open PyText Latest
open scoped List

inductive PolicyStatus where
  | approved
  | draft
  | retired
  deriving DecidableEq

structure PolicySection where
  heading : String
  text : String
  deriving DecidableEq

/-- One version of one policy document. -/
structure Policy where
  policyId : String
  version : String
  effectiveDate : String
  status : PolicyStatus
  title : String
  owner : String
  regulations : List String
  controls : List String
  source : String
  sha256 : String
  sections : List PolicySection
  deriving DecidableEq

/-- The documents, one for each file, in the order of the file names. -/
structure PolicyRepository where
  docs : List Policy
  sources : (docs.map Policy.source).Nodup

structure PolicyHit where
  policyId : String
  version : String
  effectiveDate : String
  title : String
  heading : String
  text : String
  citation : String
  deriving DecidableEq

structure PolicySummary where
  policyId : String
  version : String
  effectiveDate : String
  title : String
  owner : String
  regulations : List String
  controls : List String
  deriving DecidableEq

def Policy.isApproved (d : Policy) : Bool := d.status = .approved

def Policy.summary (d : Policy) : PolicySummary :=
  ⟨d.policyId, d.version, d.effectiveDate, d.title, d.owner, d.regulations, d.controls⟩

/-- A section as a search result. -/
def Policy.hit (d : Policy) (s : PolicySection) : PolicyHit where
  policyId := d.policyId
  version := d.version
  effectiveDate := d.effectiveDate
  title := d.title
  heading := s.heading
  text := s.text
  citation := d.policyId ++ " v" ++ d.version ++ " (effective " ++ d.effectiveDate ++
    "), section '" ++ s.heading ++ "', source " ++ d.source

/-- The order of `sorted(…, key=lambda d: d.effective_date)`. -/
def effectiveLE (d e : Policy) : Prop := d.effectiveDate ≤ e.effectiveDate

instance : DecidableRel effectiveLE :=
  fun d e => inferInstanceAs (Decidable (d.effectiveDate ≤ e.effectiveDate))

instance : Std.Total effectiveLE := ⟨fun d e => le_total d.effectiveDate e.effectiveDate⟩

instance : IsTrans Policy effectiveLE := ⟨fun _ _ _ h h' => le_trans (α := String) h h'⟩

/-- The order of `sorted(…, key=lambda d: d.policy_id)`. -/
def policyIdLE (d e : Policy) : Prop := d.policyId ≤ e.policyId

instance : DecidableRel policyIdLE :=
  fun d e => inferInstanceAs (Decidable (d.policyId ≤ e.policyId))

namespace PolicyRepository

variable (repo : PolicyRepository)

/-- The latest approved version of each policy. -/
def current : List Policy :=
  ((latestByKey Policy.effectiveDate Policy.policyId (repo.docs.filter Policy.isApproved)).map
    Prod.snd).insertionSort policyIdLE

def versions (policyId : String) : List Policy :=
  (repo.docs.filter (fun d => d.policyId = policyId)).insertionSort effectiveLE

/-- The approved version in force on `as_of`. -/
def versionAsOf (policyId asOf : String) : Option Policy :=
  ((repo.versions policyId).filter (fun d => d.isApproved && d.effectiveDate ≤ asOf)).getLast?

end PolicyRepository

/-! ## Search -/

def termChar (c : Char) : Bool := ('a' ≤ c && c ≤ 'z') || ('0' ≤ c && c ≤ '9')

/-- `re.findall(r"[a-z0-9]+", t)`; `run` is the match under way, backwards. -/
def findTerms (run : Text) : Text → List Text
  | [] => if run = [] then [] else [run.reverse]
  | c :: t =>
    if termChar c then findTerms (c :: run) t
    else if run = [] then findTerms [] t else run.reverse :: findTerms [] t

/-- `t.count(term)`: occurrences that do not overlap; `skip` characters belong to the last one. -/
def countTerm (term : Text) : Nat → Text → Nat
  | _, [] => 0
  | skip + 1, _ :: t => countTerm term skip t
  | 0, c :: t =>
    if term.isPrefixOf (c :: t) then 1 + countTerm term (term.length - 1) t else countTerm term 0 t

variable (rt : Runtime)

/-- How often the terms occur in a section. -/
def score (terms : List Text) (s : PolicySection) : Nat :=
  (terms.map (fun t => countTerm t 0 (rt.lower (s.heading ++ " " ++ s.text)).toList)).sum

/-- The order of `sort(key=lambda pair: -pair[0])`. -/
def scoreGE (x y : Nat × PolicyHit) : Prop := y.1 ≤ x.1

instance : DecidableRel scoreGE := fun x y => inferInstanceAs (Decidable (y.1 ≤ x.1))

/-- `PolicyRepository.search`. -/
def PolicyRepository.search (repo : PolicyRepository) (query : String) (limit : Nat) :
    List PolicyHit :=
  let terms := (findTerms [] (rt.lower query).toList).filter (fun t => 2 < t.length)
  let scored := repo.current.flatMap (fun d =>
    (d.sections.filter (fun s => score rt terms s ≠ 0)).map (fun s => (score rt terms s, d.hit s)))
  ((scored.insertionSort scoreGE).take limit).map Prod.snd

/-! ## The tools -/

/-- `policy_lookup`. -/
def policyLookup (repo : PolicyRepository) (query : String) (limit : Int) :
    Except PyError (String × List PolicyHit) :=
  if blank query.toList then .error (.invalidInput "query is required")
  else
    let hits := repo.search rt query (max 1 (min limit 20)).toNat
    .ok (toString hits.length ++ " section(s) for '" ++ query ++ "'", hits)

/-- `policy_get`. -/
def policyGet (repo : PolicyRepository) (policyId : String) (asOf : Option String) :
    Except PyError (String × Option Policy) := do
  validateRange asOf none
  let day := asOf.getD ""
  let doc := if day ≠ "" then repo.versionAsOf policyId day
    else repo.current.find? (fun d => d.policyId = policyId)
  let when_ := if day ≠ "" then " as of " ++ day else ""
  return (match doc with
    | some d => policyId ++ " v" ++ d.version
    | none => "no approved version of " ++ policyId ++ when_, doc)

/-- `policy_list`. -/
def policyList (repo : PolicyRepository) : String × List PolicySummary :=
  (toString repo.current.length ++ " current policies", repo.current.map Policy.summary)

/-! ## What the two choices choose -/

namespace PolicyRepository

variable (repo : PolicyRepository)

/-- The approved versions of a policy, in the order of the files. -/
def approvedOf (policyId : String) : List Policy :=
  (repo.docs.filter Policy.isApproved).filter (fun d => d.policyId = policyId)

variable {repo}

theorem nodup_docs : repo.docs.Nodup := List.Nodup.of_map Policy.source repo.sources

theorem mem_approvedOf {policyId : String} {d : Policy} (h : d ∈ repo.approvedOf policyId) :
    d.policyId = policyId := of_decide_eq_true (List.mem_filter.mp h).2

/-- What is current is the running maximum of its policy. -/
theorem mem_current {d : Policy} :
    d ∈ repo.current ↔ runningMax Policy.effectiveDate (repo.approvedOf d.policyId) = some d := by
  unfold current
  rw [List.mem_insertionSort, List.mem_map]
  constructor
  · rintro ⟨⟨k, e⟩, he, rfl⟩
    have hr := (mem_latestByKey Policy.policyId).mp he
    have hk : e.policyId = k := mem_approvedOf (runningMax_isLatest hr).mem
    exact hk ▸ hr
  · intro h
    exact ⟨(d.policyId, d), (mem_latestByKey Policy.policyId).mpr h, rfl⟩

/-- The current version of a policy is the running maximum. -/
theorem find_current (policyId : String) :
    repo.current.find? (fun d => d.policyId = policyId) =
      runningMax Policy.effectiveDate (repo.approvedOf policyId) := by
  cases hf : repo.current.find? (fun d => d.policyId = policyId) with
  | some d =>
    have hid : d.policyId = policyId :=
      of_decide_eq_true (List.find?_some (p := fun d : Policy => decide (d.policyId = policyId)) hf)
    rw [← mem_current.mp (List.mem_of_find?_eq_some hf), hid]
  | none =>
    cases hr : runningMax Policy.effectiveDate (repo.approvedOf policyId) with
    | none => rfl
    | some d =>
      have hid := mem_approvedOf (runningMax_isLatest hr).mem
      have hm : d ∈ repo.current := mem_current.mpr (by rw [hid, hr])
      exact absurd (decide_eq_true hid) (List.find?_eq_none.mp hf d hm)

/-- The candidates for a day, in the order of their dates. -/
theorem mem_candidates {policyId day : String} {d : Policy} :
    d ∈ (repo.versions policyId).filter (fun d => d.isApproved && d.effectiveDate ≤ day) ↔
      d ∈ repo.approvedOf policyId ∧ d.effectiveDate ≤ day := by
  unfold versions approvedOf
  rw [List.mem_filter, List.mem_insertionSort, List.mem_filter, List.mem_filter, List.mem_filter,
    Bool.and_eq_true, decide_eq_true_eq]
  constructor
  · rintro ⟨⟨hd, hid⟩, ha, hle⟩
    exact ⟨⟨⟨hd, ha⟩, hid⟩, of_decide_eq_true hle⟩
  · rintro ⟨⟨⟨hd, ha⟩, hid⟩, hle⟩
    exact ⟨⟨hd, hid⟩, ha, decide_eq_true hle⟩

/-- The version in force on a day is one of the latest that had taken effect. -/
theorem versionAsOf_some {policyId day : String} {v : Policy}
    (h : repo.versionAsOf policyId day = some v) :
    v ∈ repo.approvedOf policyId ∧ v.effectiveDate ≤ day ∧
      ∀ d ∈ repo.approvedOf policyId, d.effectiveDate ≤ day →
      d.effectiveDate ≤ v.effectiveDate := by
  have hl := getLast_isLatest (f := Policy.effectiveDate)
    ((List.pairwise_insertionSort effectiveLE _).filter _) h
  obtain ⟨hm, hle⟩ := mem_candidates.mp hl.mem
  exact ⟨hm, hle, fun d hd hday => hl.le d (mem_candidates.mpr ⟨hd, hday⟩)⟩

theorem versionAsOf_none {policyId day : String} (h : repo.versionAsOf policyId day = none) :
    ∀ d ∈ repo.approvedOf policyId, ¬ d.effectiveDate ≤ day := by
  intro d hd hle
  have hm := mem_candidates.mpr ⟨hd, hle⟩
  rw [List.getLast?_eq_none_iff.mp h] at hm
  cases hm

/-- No version of the same date comes after the one in force in the order of the files. -/
theorem versionAsOf_last {policyId day : String} {v d : Policy}
    (h : repo.versionAsOf policyId day = some v) (hle : v.effectiveDate ≤ d.effectiveDate)
    (hd : d.effectiveDate ≤ day) : ¬ [v, d] <+ repo.approvedOf policyId := by
  intro hsub
  have hnd : ((repo.versions policyId).filter
      (fun d => d.isApproved && d.effectiveDate ≤ day)).Nodup := by
    refine List.Nodup.filter _ ?_
    exact (List.perm_insertionSort effectiveLE _).nodup_iff.mpr (nodup_docs.filter _)
  refine getLast_not_before (b := d) hnd h ?_
  have happ : ∀ x ∈ [v, d], x.isApproved = true := by
    intro x hx
    exact (List.mem_filter.mp (List.mem_of_mem_filter (hsub.subset hx))).2
  have hv := (versionAsOf_some h).2.1
  have hsub' : [v, d] <+ repo.docs.filter (fun d => d.policyId = policyId) := by
    refine hsub.trans ?_
    unfold approvedOf
    exact List.filter_sublist.filter _
  have hsort := List.pair_sublist_insertionSort (r := effectiveLE) hle hsub'
  have hfil := hsort.filter (fun d => d.isApproved && d.effectiveDate ≤ day)
  rwa [List.filter_eq_self.mpr (fun x hx => ?_)] at hfil
  rw [happ x hx, Bool.true_and, decide_eq_true_eq]
  rcases List.mem_cons.mp hx with rfl | hx
  · exact hv
  · rw [List.mem_singleton.mp hx]
    exact hd

end PolicyRepository

/-! ## Current and in force -/

/-- The version served as current is the one in force on the day. -/
structure ServesInForce (rt : Runtime) (repo : PolicyRepository) (today policyId : String) :
    Prop where
  get : ∃ summary, policyGet repo policyId none = .ok (summary, repo.versionAsOf policyId today)
  list : ∀ summary ∈ (policyList repo).2, summary.policyId = policyId →
    ∃ v, repo.versionAsOf policyId today = some v ∧ summary = v.summary
  listed : ∀ v, repo.versionAsOf policyId today = some v → v.summary ∈ (policyList repo).2
  lookup : ∀ query limit summary hits, policyLookup rt repo query limit = .ok (summary, hits) →
    ∀ h ∈ hits, h.policyId = policyId →
      ∃ v, repo.versionAsOf policyId today = some v ∧ ∃ s ∈ v.sections, h = v.hit s

/-- No approved version of the policy takes effect after the day, and no two of them share
the latest date. -/
structure InForceAlready (repo : PolicyRepository) (today policyId : String) : Prop where
  effective : ∀ d ∈ repo.approvedOf policyId, d.effectiveDate ≤ today
  unique : ∀ d e, IsLatest Policy.effectiveDate (repo.approvedOf policyId) d →
    IsLatest Policy.effectiveDate (repo.approvedOf policyId) e → d = e

variable {rt} {repo : PolicyRepository} {today policyId : String}

theorem policyGet_current : ∃ summary, policyGet repo policyId none =
    .ok (summary, runningMax Policy.effectiveDate (repo.approvedOf policyId)) := by
  rw [← PolicyRepository.find_current]
  exact ⟨_, rfl⟩

/-- The two choices agree exactly on such policies. -/
theorem runningMax_eq_versionAsOf_iff :
    runningMax Policy.effectiveDate (repo.approvedOf policyId) = repo.versionAsOf policyId today ↔
      InForceAlready repo today policyId := by
  constructor
  · intro h
    cases hr : runningMax Policy.effectiveDate (repo.approvedOf policyId) with
    | none =>
      have hnil := runningMax_eq_none.mp hr
      refine ⟨fun d hd => ?_, fun d _ hd _ => ?_⟩
      · rw [hnil] at hd
        cases hd
      · have hm := hd.mem
        rw [hnil] at hm
        cases hm
    | some c =>
      have hc := runningMax_isLatest hr
      have hv : repo.versionAsOf policyId today = some c := h.symm.trans hr
      have htoday := (PolicyRepository.versionAsOf_some hv).2.1
      have hall : ∀ d ∈ repo.approvedOf policyId, d.effectiveDate ≤ today :=
        fun d hd => le_trans (hc.le d hd) htoday
      -- a second latest version comes after the first, and the one in force is the last
      have hone : ∀ d, IsLatest Policy.effectiveDate (repo.approvedOf policyId) d → d = c := by
        intro d hd
        by_contra hne
        exact PolicyRepository.versionAsOf_last hv (hd.le c hc.mem) (hall d hd.mem)
          (runningMax_before hr hd hne)
      exact ⟨hall, fun d e hd he => (hone d hd).trans (hone e he).symm⟩
  · intro h
    cases hr : runningMax Policy.effectiveDate (repo.approvedOf policyId) with
    | none =>
      cases hv : repo.versionAsOf policyId today with
      | none => rfl
      | some v =>
        have hm := (PolicyRepository.versionAsOf_some hv).1
        rw [runningMax_eq_none.mp hr] at hm
        cases hm
    | some c =>
      have hc := runningMax_isLatest hr
      cases hv : repo.versionAsOf policyId today with
      | none => exact absurd (h.effective c hc.mem) (PolicyRepository.versionAsOf_none hv c hc.mem)
      | some v =>
        obtain ⟨hm, -, hmax⟩ := PolicyRepository.versionAsOf_some hv
        have hlast : IsLatest Policy.effectiveDate (repo.approvedOf policyId) v :=
          ⟨hm, fun d hd => hmax d hd (h.effective d hd)⟩
        rw [h.unique c v hc hlast]

/-- Every search result is a section of a current version. -/
theorem mem_search {query : String} {limit : Nat} {h : PolicyHit}
    (hm : h ∈ repo.search rt query limit) :
    ∃ d ∈ repo.current, ∃ s ∈ d.sections, h = d.hit s := by
  obtain ⟨⟨n, h'⟩, hx, rfl⟩ := List.mem_map.mp hm
  have hx := (List.mem_insertionSort scoreGE).mp (List.mem_of_mem_take hx)
  obtain ⟨d, hd, hx⟩ := List.mem_flatMap.mp hx
  obtain ⟨s, hs, he⟩ := List.mem_map.mp hx
  cases he
  exact ⟨d, hd, s, List.mem_of_mem_filter hs, rfl⟩

/-- **The version served as current is the one in force today** exactly when no approved
version of the policy lies in the future and no two share the latest date. -/
theorem serves_in_force_iff (rt : Runtime) (repo : PolicyRepository) (today policyId : String) :
    ServesInForce rt repo today policyId ↔ InForceAlready repo today policyId := by
  rw [← runningMax_eq_versionAsOf_iff]
  obtain ⟨summary, hget⟩ := @policyGet_current repo policyId
  constructor
  · intro h
    obtain ⟨summary', hget'⟩ := h.get
    rw [hget] at hget'
    exact (Prod.mk.inj (Except.ok.inj hget')).2
  · intro h
    have hcur : ∀ d ∈ repo.current, d.policyId = policyId →
        repo.versionAsOf policyId today = some d := by
      intro d hd hid
      rw [← h, ← hid]
      exact PolicyRepository.mem_current.mp hd
    refine ⟨⟨summary, by rw [hget, h]⟩, fun s hs hid => ?_, fun v hv => ?_,
      fun q l su hits hl x hx hid => ?_⟩
    · obtain ⟨d, hd, rfl⟩ := List.mem_map.mp hs
      exact ⟨d, hcur d hd hid, rfl⟩
    · have hid := PolicyRepository.mem_approvedOf (PolicyRepository.versionAsOf_some hv).1
      refine List.mem_map_of_mem (PolicyRepository.mem_current.mpr ?_)
      rw [hid, h, hv]
    · unfold policyLookup at hl
      split at hl
      · cases hl
      · cases hl
        obtain ⟨d, hd, s, hs, rfl⟩ := mem_search hx
        exact ⟨d, hcur d hd hid, s, hs, rfl⟩

/-- One approved version of a gifts policy. -/
def samplePolicy (version effectiveDate : String) : Policy where
  policyId := "POL-GE"
  version := version
  effectiveDate := effectiveDate
  status := .approved
  title := "Gifts and Entertainment"
  owner := ""
  regulations := []
  controls := []
  source := "policies/POL-GE-" ++ version ++ ".md"
  sha256 := ""
  sections := [⟨"Limits", "No gift above USD 100."⟩]

/-- A version in force, and its successor approved ahead of time. -/
def sampleRepository : PolicyRepository where
  docs := [samplePolicy "1.0" "2025-01-01", samplePolicy "2.0" "2027-01-01"]
  sources := by decide

/-- **A version approved ahead of time is served before it takes effect.** -/
theorem future_version_served :
    ¬ ServesInForce Runtime.python sampleRepository "2026-06-30" "POL-GE" := by
  intro h
  obtain ⟨summary, hget⟩ := h.get
  have hpolicy : (policyGet sampleRepository "POL-GE" none).toOption.map Prod.snd =
      some (some (samplePolicy "2.0" "2027-01-01")) := by decide +kernel
  have hforce : sampleRepository.versionAsOf "POL-GE" "2026-06-30" =
      some (samplePolicy "1.0" "2025-01-01") := by
    decide +kernel
  rw [hget, hforce] at hpolicy
  have heq := Option.some.inj (Option.some.inj hpolicy)
  exact absurd (congrArg Policy.version heq) (by decide)

end ComplianceMcp
