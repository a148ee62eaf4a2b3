import ComplianceMcp.EvidenceManifest
import ComplianceMcp.Decimals

/-! # The gaps of a manifest

A manifest says what an approver must see: a shortfall when there are too few results for the
control's cadence, and a line for each result that is not a pass.  The requirement counts
calendar months from the first to the last one of the period, and rounds up what they come to
in tests; a control that is tested every `k` months is short exactly when its results stand
for fewer months than that.

Results are selected by comparing dates as texts; `parsed_lt_iff` says that this compares the
days. -/
namespace ComplianceMcp

open PyText Decimals

/-! ## Dates in order -/

/-- The day comes earlier in the calendar. -/
def Date.Before (d e : Date) : Prop :=
  d.year < e.year ∨ d.year = e.year ∧ (d.month < e.month ∨ d.month = e.month ∧ d.day < e.day)

/-- The day comes no later. -/
def Date.NoLater (d e : Date) : Prop := ¬ e.Before d

/-- A date and its text: year, month and day in digits. -/
structure Spelled (t : Text) (d : Date) : Prop where
  parts : ∃ y m n, t = y ++ '-' :: (m ++ '-' :: n) ∧ (y.length = 4 ∧ m.length = 2 ∧ n.length = 2) ∧
    (y.all Char.isDigit = true ∧ m.all Char.isDigit = true ∧ n.all Char.isDigit = true) ∧
    value y = d.year ∧ value m = d.month ∧ value n = d.day

theorem number_some {t : Text} {n : Nat} (h : number t = some n) :
    t.all Char.isDigit = true ∧ value t = n := by
  unfold number at h
  split at h
  · next hd =>
    cases h
    exact ⟨hd, rfl⟩
  · cases h

theorem spelled_of_dateParts {t : Text} {d : Date} (h : dateParts t = some d) : Spelled t d := by
  unfold dateParts at h
  split at h
  · next y₁ y₂ y₃ y₄ m₁ m₂ d₁ d₂ =>
    obtain ⟨y, hy, h⟩ := Option.bind_eq_some_iff.mp h
    obtain ⟨m, hm, h⟩ := Option.bind_eq_some_iff.mp h
    obtain ⟨n, hn, h⟩ := Option.bind_eq_some_iff.mp h
    cases h
    obtain ⟨hy, hvy⟩ := number_some hy
    obtain ⟨hm, hvm⟩ := number_some hm
    obtain ⟨hn, hvn⟩ := number_some hn
    exact ⟨_, _, _, rfl, ⟨rfl, rfl, rfl⟩, ⟨hy, hm, hn⟩, hvy, hvm, hvn⟩
  · cases h

theorem Spelled.lt_iff {t u : Text} {d e : Date} (ht : Spelled t d) (hu : Spelled u e) :
    t < u ↔ d.Before e := by
  obtain ⟨y, m, n, rfl, ⟨hy, hm, hn⟩, ⟨dy, dm, dn⟩, vy, vm, vn⟩ := ht.parts
  obtain ⟨y', m', n', rfl, ⟨hy', hm', hn'⟩, ⟨dy', dm', dn'⟩, vy', vm', vn'⟩ := hu.parts
  rw [append_lt_append_iff (hy.trans hy'.symm), cons_lt_cons_self,
    append_lt_append_iff (hm.trans hm'.symm), cons_lt_cons_self,
    value_lt_iff (hy.trans hy'.symm) dy dy', value_inj (hy.trans hy'.symm) dy dy',
    value_lt_iff (hm.trans hm'.symm) dm dm', value_inj (hm.trans hm'.symm) dm dm',
    value_lt_iff (hn.trans hn'.symm) dn dn', vy, vm, vn, vy', vm', vn']
  rfl

theorem parseIsoDate_ok {v : String} {d : Date} (h : parseIsoDate v = .ok d) :
    Spelled v.toList d ∧ v ≠ "" := by
  unfold parseIsoDate at h
  cases hp : dateParts v.toList with
  | none =>
    rw [hp] at h
    cases h
  | some d' =>
    rw [hp] at h
    dsimp only at h
    split at h
    · cases h
      refine ⟨spelled_of_dateParts hp, ?_⟩
      rintro rfl
      cases hp
    · cases h

/-- **Texts of dates sort as the days do.** -/
theorem parsed_lt_iff {v w : String} {d e : Date} (hv : parseIsoDate v = .ok d)
    (hw : parseIsoDate w = .ok e) :
    v < w ↔ d.Before e := by
  rw [String.lt_iff_toList_lt]
  exact (parseIsoDate_ok hv).1.lt_iff (parseIsoDate_ok hw).1

theorem parsed_le_iff {v w : String} {d e : Date} (hv : parseIsoDate v = .ok d)
    (hw : parseIsoDate w = .ok e) :
    v ≤ w ↔ d.NoLater e := by
  rw [← not_lt, parsed_lt_iff hw hv]
  rfl

/-! ## The requirement -/

/-- How many months one test stands for. -/
def Frequency.monthsPerTest : Frequency → Option Nat
  | .monthly => some 1
  | .quarterly => some 3
  | .annual => some 12
  | .unset => none

/-- The calendar months from the first day's to the last day's. -/
def monthsCovered (s e : Date) : Nat := 12 * e.year + e.month - (12 * s.year + s.month) + 1

theorem months_le {s e : Date} (h : s.NoLater e) : 12 * s.year + s.month ≤ 12 * e.year + e.month ∨
    e.month < 1 ∨ 12 < s.month := by
  unfold Date.NoLater Date.Before at h
  omega

theorem parseIsoDate_real {v : String} {d : Date} (h : parseIsoDate v = .ok d) : d.IsReal := by
  unfold parseIsoDate at h
  split at h
  · split at h
    · next hr =>
      cases h
      exact hr
    · cases h
  · cases h

theorem monthsInclusive_covered {start end_ : String} {s e : Date} (hs : parseIsoDate start = .ok s)
    (he : parseIsoDate end_ = .ok e) (h : s.NoLater e) :
    monthsInclusive start end_ = .ok (monthsCovered s e : Int) := by
  have hrs := parseIsoDate_real hs
  have hre := parseIsoDate_real he
  have hle : 12 * s.year + s.month ≤ 12 * e.year + e.month := by
    rcases months_le h with h | h | h
    · exact h
    · exact absurd hre.2.1 (by omega)
    · exact absurd hrs.2.2.1 (by omega)
  have hmax : max 1 (((e.year : Int) - s.year) * 12 + e.month - s.month + 1) =
      (monthsCovered s e : Int) := by
    unfold monthsCovered
    omega
  unfold monthsInclusive
  rw [hs, he]
  exact congrArg Except.ok hmax

/-- **The requirement is not met exactly if the tests stand for fewer months.** -/
theorem testsNeeded_lt_iff {f : Frequency} {k : Nat} (hk : f.monthsPerTest = some k) (n m : Nat) :
    ∃ needed : Int, testsNeeded f m = some needed ∧ ((n : Int) < needed ↔ n * k < m) := by
  cases f with
  | monthly =>
    cases hk
    exact ⟨m, rfl, by omega⟩
  | quarterly =>
    cases hk
    exact ⟨((m : Int) + 2) / 3, rfl, by omega⟩
  | annual =>
    cases hk
    exact ⟨((m : Int) + 11) / 12, rfl, by omega⟩
  | unset => cases hk

/-! ## The lines -/

/-- The line is about a shortfall. -/
def IsShortfall (f : Frequency) (results : List TestResult) (line : String) : Prop :=
  ∃ needed : Int, line = "expected at least " ++ toString needed ++ " " ++ f.value ++
    " test(s) in period, found " ++ toString results.length

/-- The lines about results that are not passes. -/
def notPassedLines (results : List TestResult) : List String :=
  (results.filter (fun r => r.result ≠ .pass)).map notPassedGap

/-- What the gaps of a period are: at most one shortfall, and then a line for each result that
is not a pass. -/
structure GapLines (f : Frequency) (k m : Nat) (results : List TestResult)
    (gaps first : List String) : Prop where
  split : gaps = first ++ notPassedLines results
  once : first.length ≤ 1
  about : ∀ line ∈ first, IsShortfall f results line
  short : first ≠ [] ↔ results.length * k < m

theorem detectGaps_lines {f : Frequency} {k : Nat} (hk : f.monthsPerTest = some k)
    {start end_ : String} {s e : Date} (hs : parseIsoDate start = .ok s)
    (he : parseIsoDate end_ = .ok e) (h : s.NoLater e) (results : List TestResult) :
    ∃ gaps first, detectGaps f results start end_ = .ok gaps ∧
      GapLines f k (monthsCovered s e) results gaps first := by
  have hf : f ≠ .unset := by
    rintro rfl
    cases hk
  obtain ⟨needed, hneeded, hlt⟩ := testsNeeded_lt_iff hk results.length (monthsCovered s e)
  have hcount : countGap f results start end_ = .ok (if (results.length : Int) < needed then
      ["expected at least " ++ toString needed ++ " " ++ f.value ++ " test(s) in period, found " ++
        toString results.length] else []) := by
    unfold countGap
    rw [if_neg hf, monthsInclusive_covered hs he h]
    simp only [bind, Except.bind, hneeded, pure, Except.pure]
  unfold detectGaps
  rw [hcount]
  refine ⟨_, _, rfl, rfl, ?_, ?_, ?_⟩
  · split
    · exact le_refl _
    · exact Nat.zero_le _
  · intro line hl
    split at hl
    · exact ⟨needed, List.mem_singleton.mp hl⟩
    · cases hl
  · rw [← hlt]
    split
    · next hn => exact iff_of_true (List.cons_ne_nil _ _) hn
    · next hn => exact iff_of_false (fun hne => hne rfl) hn

/-- Nothing is a gap if every result passed and there are enough. -/
theorem GapLines.eq_nil_iff {f : Frequency} {k m : Nat} {results : List TestResult}
    {gaps first : List String} (h : GapLines f k m results gaps first) :
    gaps = [] ↔ (∀ r ∈ results, r.result = .pass) ∧ m ≤ results.length * k := by
  have hnone : first = [] ↔ m ≤ results.length * k := by
    rw [← not_lt, ← h.short, not_not]
  have hpass : notPassedLines results = [] ↔ ∀ r ∈ results, r.result = .pass := by
    rw [notPassedLines, List.map_eq_nil_iff, List.filter_eq_nil_iff]
    refine forall₂_congr (fun r _ => ?_)
    rw [decide_eq_true_iff, not_not]
  rw [h.split, List.append_eq_nil_iff, hnone, hpass, and_comm]

/-! ## The line of a result -/

theorem rstripColon_append {x : Text} (hx : ∀ c ∈ x.getLast?, c ≠ ':' ∧ c ≠ ' ') (y : String) :
    ∃ rest, rstripColon (String.ofList x ++ y) = String.ofList x ++ rest := by
  have key : ∀ y : Text, ∃ rest,
      ((x ++ y).reverse.dropWhile (fun c => c = ':' || c = ' ')).reverse = x ++ rest := by
    intro y
    induction y using List.reverseRecOn with
    | nil =>
      rw [List.append_nil]
      refine ⟨[], ?_⟩
      rw [List.append_nil]
      cases hr : x.reverse with
      | nil => rw [← List.reverse_reverse x, hr, List.dropWhile_nil]
      | cons c t =>
        have hc := hx c (by rw [← List.head?_reverse, hr]; rfl)
        rw [List.dropWhile_cons_of_neg (by simp [hc.1, hc.2]), ← hr, List.reverse_reverse]
    | append_singleton y c ih =>
      rw [← List.append_assoc, List.reverse_append, List.reverse_singleton, List.singleton_append,
        List.dropWhile_cons]
      split
      · exact ih
      · refine ⟨y ++ [c], ?_⟩
        rw [List.reverse_cons, List.reverse_reverse, List.append_assoc]
  obtain ⟨rest, hrest⟩ := key y.toList
  refine ⟨String.ofList rest, ?_⟩
  unfold rstripColon
  rw [String.toList_append, String.toList_ofList, hrest, String.ofList_append]

theorem TestOutcome.value_ends (o : TestOutcome) (x : Text) :
    ∀ c ∈ (x ++ o.value.toList).getLast?, c ≠ ':' ∧ c ≠ ' ' := by
  have hall : ∀ o : TestOutcome, ∃ c, o.value.toList.getLast? = some c ∧ c ≠ ':' ∧ c ≠ ' ' := by
    intro o
    cases o <;> exact ⟨_, rfl, by decide, by decide⟩
  obtain ⟨c, hc, hne⟩ := hall o
  intro c' hc'
  rw [List.getLast?_append, hc] at hc'
  cases hc'
  exact hne

/-- What a line says of its result before its notes. -/
def resultNamed (r : TestResult) : String :=
  "test " ++ r.testId ++ " on " ++ r.testedOn ++ " result=" ++ r.result.value

/-- A line names the result's id, its date and how it ended. -/
theorem notPassedGap_names (r : TestResult) : ∃ notes, notPassedGap r = resultNamed r ++ notes := by
  have hend := r.result.value_ends ("test " ++ r.testId ++ " on " ++ r.testedOn ++
    " result=").toList
  obtain ⟨rest, hrest⟩ := rstripColon_append hend (": " ++ r.notes)
  refine ⟨rest, ?_⟩
  rw [← String.toList_append, String.ofList_toList, ← String.append_assoc] at hrest
  exact hrest

/-! ## The manifest -/

/-- What the gaps of a manifest say of a control's results in a period of `m` months, when a
test is due every `k`. -/
structure GapsComplete (data : Systems) (control : Control) (start end_ : String)
    (s e : Date) (k m : Nat) (manifest : EvidenceManifest) : Prop where
  /-- The results are those of the control whose dates are in the period, in order. -/
  counted : manifest.testResults = data.results control.controlId start end_
  /-- A result with a date is among them if its day is in the period. -/
  dated : ∀ t ∈ data.tests, ∀ d, parseIsoDate t.testedOn = .ok d →
    (t ∈ manifest.testResults ↔ t.controlId = control.controlId ∧ s.NoLater d ∧ d.NoLater e)
  /-- A shortfall comes first, if there is one, and then the other lines. -/
  lines : ∃ first, GapLines control.testFrequency k m manifest.testResults manifest.gaps first
  named : ∀ r ∈ manifest.testResults, ∃ notes, notPassedGap r = resultNamed r ++ notes
  empty : manifest.gaps = [] ↔ (∀ r ∈ manifest.testResults, r.result = .pass) ∧
    m ≤ manifest.testResults.length * k

/-- The gaps of the second manifest are those of the first, but for the shortfall, which may be
gone. -/
def NoGapAdded (before after_ : EvidenceManifest) : Prop :=
  after_.gaps.length ≤ before.gaps.length ∧ ∃ first first' rest, before.gaps = first ++ rest ∧
    after_.gaps = first' ++ rest ∧ (first = [] → first' = [])

section Manifest

variable {rt : Runtime} {data : Systems} {control : Control} {start end_ : String}
  {s e : Date} {k : Nat}

theorem inRange_parsed {v : String} {d : Date} (hs : parseIsoDate start = .ok s)
    (he : parseIsoDate end_ = .ok e) (hv : parseIsoDate v = .ok d) :
    inRange v start end_ = true ↔ s.NoLater d ∧ d.NoLater e := by
  have hs' := (parseIsoDate_ok hs).2
  have he' := (parseIsoDate_ok he).2
  rw [← parsed_le_iff hs hv, ← parsed_le_iff hv he]
  simp only [inRange, Bool.and_eq_true, Bool.or_eq_true, decide_eq_true_eq, hs', he', false_or]

/-- The results and the gaps of a manifest. -/
theorem computeManifest_ok {controlId : String} (hctl : data.control controlId = some control)
    (hk : control.testFrequency.monthsPerTest = some k) (hs : parseIsoDate start = .ok s)
    (he : parseIsoDate end_ = .ok e) (h : s.NoLater e) :
    ∃ manifest first, computeManifest rt data controlId start end_ = .ok (some manifest) ∧
      manifest.testResults = data.results controlId start end_ ∧
      GapLines control.testFrequency k (monthsCovered s e) manifest.testResults
        manifest.gaps first := by
  obtain ⟨gaps, first, hgaps, hlines⟩ :=
    detectGaps_lines hk hs he h (data.results controlId start end_)
  unfold computeManifest
  rw [hctl]
  dsimp only
  rw [hgaps]
  exact ⟨_, first, rfl, rfl, hlines⟩

theorem control_id {controlId : String} (hctl : data.control controlId = some control) :
    control.controlId = controlId := by
  have hfound := List.find?_some hctl
  exact of_decide_eq_true hfound

end Manifest

/-- **The gaps are complete.**  For every control that is tested every `k` months, all its results
and every period: a shortfall is listed exactly if the results stand for fewer months than the
period covers, every other result that is not a pass has its line, and a pass more adds none. -/
theorem gaps_complete (rt : Runtime) (data : Systems) (controlId : String)
    (control : Control) (k : Nat) (start end_ : String) (s e : Date)
    (hctl : data.control controlId = some control)
    (hk : control.testFrequency.monthsPerTest = some k) (hs : parseIsoDate start = .ok s)
    (he : parseIsoDate end_ = .ok e) (h : s.NoLater e) :
    ∃ manifest, computeManifest rt data controlId start end_ = .ok (some manifest) ∧
      GapsComplete data control start end_ s e k (monthsCovered s e) manifest ∧
      ∀ before r after_, data.tests = before ++ after_ → r.controlId = controlId →
      r.result = .pass →
        inRange r.testedOn start end_ = true → ∃ manifest', computeManifest rt
          { data with tests := before ++ r :: after_ } controlId start end_ = .ok (some manifest') ∧
          NoGapAdded manifest manifest' := by
  obtain ⟨manifest, first, hm, hresults, hlines⟩ :=
    @computeManifest_ok rt data control start end_ s e k
    controlId hctl hk hs he h
  have hid := control_id hctl
  refine ⟨manifest, hm, ⟨by rw [hid, hresults], ?_, ⟨first, hlines⟩, fun r _ =>
    notPassedGap_names r, hlines.eq_nil_iff⟩, ?_⟩
  · intro t ht d hd
    rw [hresults, Systems.results, List.mem_filter, Bool.and_eq_true, decide_eq_true_eq,
      inRange_parsed hs he hd, hid]
    exact and_iff_right ht
  · intro before r after_ htests hr hpass hin
    obtain ⟨manifest', first', hm', hresults', hlines'⟩ :=
      @computeManifest_ok rt { data with tests := before ++ r :: after_ } control start end_ s e k
        controlId hctl hk
        hs he h
    -- the new result is in the period, so the results grow by it
    have hselect : (r.controlId = controlId && inRange r.testedOn start end_) = true := by
      rw [hin, Bool.and_true]
      exact decide_eq_true hr
    obtain ⟨a, b, ha, hb⟩ : ∃ a b, manifest.testResults = a ++ b ∧
        manifest'.testResults = a ++ r :: b := by
      rw [hresults, hresults', Systems.results, Systems.results, htests]
      refine ⟨_, _, List.filter_append _ _, ?_⟩
      rw [List.filter_append]
      exact congrArg _ (List.filter_cons_of_pos hselect)
    -- a pass has no line of its own
    have hsame : notPassedLines manifest'.testResults = notPassedLines manifest.testResults := by
      rw [notPassedLines, notPassedLines, ha, hb, List.filter_append, List.filter_append,
        List.filter_cons_of_neg (by rw [hpass]; decide)]
    -- one result more can only make a shortfall smaller
    have hnone : first = [] → first' = [] := by
      intro hf
      by_contra hf'
      have hlt := hlines'.short.mp hf'
      have hnot : ¬ manifest.testResults.length * k < monthsCovered s e :=
        fun hlt => hlines.short.mpr hlt hf
      refine hnot (lt_of_le_of_lt (Nat.mul_le_mul_right k ?_) hlt)
      rw [ha, hb, List.length_append, List.length_append, List.length_cons]
      omega
    refine ⟨manifest', hm', ?_, first, first', notPassedLines manifest.testResults,
      hlines.split, ?_, hnone⟩
    · rw [hlines.split, hlines'.split, hsame, List.length_append, List.length_append]
      refine Nat.add_le_add_right ?_ _
      by_cases hf : first = []
      · rw [hnone hf]
        exact Nat.zero_le _
      · exact hlines'.once.trans (List.length_pos_iff.mpr hf)
    · rw [hlines'.split, hsame]

/-- One control, tested quarterly, with a failed test in the first quarter of the half-year. -/
def quarterlyControl : Control := ⟨"CTL-1", "Gift pre-clearance", "", "", .quarterly, [], [], []⟩

def failedTest : TestResult := ⟨"T-1", "CTL-1", "2026-02-10", "ana", .fail, "sample of 25"⟩

def quarterlySystems : Systems :=
  ⟨⟨[], List.nodup_nil⟩, [quarterlyControl], [failedTest], [], [], []⟩

theorem gaps_complete_sample : ∃ manifest,
    computeManifest Runtime.python quarterlySystems "CTL-1" "2026-01-01" "2026-06-30" =
      .ok (some manifest) ∧
    GapsComplete quarterlySystems quarterlyControl "2026-01-01" "2026-06-30" ⟨2026, 1, 1⟩
      ⟨2026, 6, 30⟩ 3 6 manifest ∧
    ∀ before r after_, quarterlySystems.tests = before ++ after_ → r.controlId = "CTL-1" →
    r.result = .pass →
      inRange r.testedOn "2026-01-01" "2026-06-30" = true →
      ∃ manifest', computeManifest Runtime.python
        { quarterlySystems with tests := before ++ r :: after_ } "CTL-1" "2026-01-01" "2026-06-30" =
          .ok (some manifest') ∧ NoGapAdded manifest manifest' :=
  gaps_complete Runtime.python quarterlySystems "CTL-1" quarterlyControl 3 "2026-01-01"
    "2026-06-30" ⟨2026, 1, 1⟩ ⟨2026, 6, 30⟩ (by decide) rfl (by decide +kernel) (by decide +kernel)
      (by unfold Date.NoLater Date.Before; decide)

end ComplianceMcp
