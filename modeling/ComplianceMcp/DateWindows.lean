import ComplianceMcp.ReadTools
import ComplianceMcp.RotationStamps
import ComplianceMcp.PolicyTimeline
import ComplianceMcp.SortedSelect

/-! # What a date window selects

Three tools select records by date: the attestations due within some days, the releases since a day,
and the test results and tickets of a period.  A wider window adds records at one end and changes
nothing else; the window of the next day is the window of today, one day shorter; and two adjacent
periods share no record and lose none. -/
namespace ComplianceMcp

open PyText Latest SortedSelect
open scoped List

/-! ## Day numbers -/

theorem sum_daysInMonth (y m : Nat) :
    ((List.range m).map (fun k => daysInMonth y (k + 1))).sum = daysBefore y m := by
  induction m with
  | zero => rfl
  | succ m ih =>
    rw [List.range_succ, List.map_append, List.sum_append, ih, daysBefore]
    simp

theorem Date.ordinal_eq (d : Date) :
    d.ordinal = ((daysBeforeYear d.year + daysBefore d.year (d.month - 1) +
      d.day : Nat) : Int) := by
  rw [Date.ordinal, sum_daysInMonth]

/-- A year has 365 days, or 366. -/
theorem daysBefore_twelve (y : Nat) : daysBefore y 12 = if isLeap y then 366 else 365 := by
  have hfeb : daysInMonth y 2 = if isLeap y then 29 else 28 := rfl
  have hother : daysBefore y 12 = 337 + daysInMonth y 2 := by
    simp only [daysBefore, daysInMonth]
    simp
    omega
  rw [hother, hfeb]
  split <;> rfl

theorem daysBeforeYear_succ {y : Nat} (hy : 1 ≤ y) :
    daysBeforeYear (y + 1) = daysBeforeYear y + daysBefore y 12 := by
  obtain ⟨z, rfl⟩ : ∃ z, y = z + 1 := ⟨y - 1, by omega⟩
  have hle : z / 100 ≤ z / 4 := Nat.div_le_div_left (by decide) (by decide)
  have hleap : isLeap (z + 1) = true ↔ 4 ∣ z + 1 ∧ (¬ 100 ∣ z + 1 ∨ 400 ∣ z + 1) := by
    simp [isLeap, Nat.dvd_iff_mod_eq_zero]
  show (z + 1) * 365 + (z + 1) / 4 - (z + 1) / 100 + (z + 1) / 400 = z * 365 + z / 4 - z /
    100 + z / 400 + _
  rw [daysBefore_twelve, @Nat.succ_div z 4, @Nat.succ_div z 100, @Nat.succ_div z 400]
  simp only [hleap]
  have h100 : 100 ∣ z + 1 → 4 ∣ z + 1 := fun h => Nat.dvd_trans (by decide) h
  have h400 : 400 ∣ z + 1 → 100 ∣ z + 1 := fun h => Nat.dvd_trans (by decide) h
  generalize z / 4 = a at *
  generalize z / 100 = b at *
  generalize z / 400 = c at *
  -- every fourth year is a leap year, unless it is a hundredth and not a four hundredth
  by_cases d4 : 4 ∣ z + 1
  · by_cases d100 : 100 ∣ z + 1
    · by_cases d400 : 400 ∣ z + 1
      · simp only [d4, d100, d400, if_true, or_true, and_self]
        omega
      · simp only [d4, d100, d400, if_true, if_false, not_true, or_self, and_false]
        omega
    · have d400 : ¬ 400 ∣ z + 1 := fun h => d100 (h400 h)
      simp only [d4, d100, d400, if_true, if_false, not_false_eq_true, true_or, and_self]
      omega
  · have d100 : ¬ 100 ∣ z + 1 := fun h => d4 (h100 h)
    have d400 : ¬ 400 ∣ z + 1 := fun h => d100 (h400 h)
    simp only [d4, d100, d400, if_false, false_and]
    omega

theorem daysBefore_mono (y : Nat) {m m' : Nat} (h : m ≤ m') : daysBefore y m ≤ daysBefore y m' := by
  induction h with
  | refl => exact Nat.le_refl _
  | step _ ih => exact ih.trans (Nat.le_add_right _ _)

theorem daysBeforeYear_mono {y y' : Nat} (hy : 1 ≤ y) (h : y ≤ y') :
    daysBeforeYear y ≤ daysBeforeYear y' := by
  induction h with
  | refl => exact Nat.le_refl _
  | step hle ih =>
    rw [Nat.succ_eq_add_one, daysBeforeYear_succ (hy.trans hle)]
    exact ih.trans (Nat.le_add_right _ _)

/-- **The day after has the next number.** -/
theorem Date.ordinal_next {d : Date} (h : d.IsReal) : d.next.ordinal = d.ordinal + 1 := by
  obtain ⟨hy, hm, hm', hd, hd'⟩ := h
  have hmonth : daysBefore d.year d.month = daysBefore d.year (d.month - 1) +
      daysInMonth d.year d.month := by
    obtain ⟨m, hm⟩ : ∃ m, d.month = m + 1 := ⟨d.month - 1, by omega⟩
    rw [hm]
    rfl
  rw [Date.ordinal_eq, Date.ordinal_eq]
  unfold Date.next
  split
  · dsimp only
    omega
  · split
    · show ((daysBeforeYear d.year + daysBefore d.year d.month + 1 : Nat) : Int) = _
      omega
    · have hyear := daysBeforeYear_succ hy
      have htwelve : daysBefore d.year d.month = daysBefore d.year 12 := by
        rw [show d.month = 12 by omega]
      show ((daysBeforeYear (d.year + 1) + 0 + 1 : Nat) : Int) = _
      omega

/-- The days of a month come before the next month, and those of a year before the next year. -/
theorem Date.ordinal_lt {d e : Date} (hd : d.IsReal) (he : e.IsReal) (h : d.Before e) :
    d.ordinal < e.ordinal := by
  obtain ⟨hy, hm, hm', hday, hday'⟩ := hd
  obtain ⟨hy', hn, hn', heday, heday'⟩ := he
  have hmonth : daysBefore d.year d.month = daysBefore d.year (d.month - 1) +
      daysInMonth d.year d.month := by
    obtain ⟨m, hm⟩ : ∃ m, d.month = m + 1 := ⟨d.month - 1, by omega⟩
    rw [hm]
    rfl
  rw [Date.ordinal_eq, Date.ordinal_eq]
  rcases h with hlt | ⟨heq, hlt | ⟨hmeq, hlt⟩⟩
  · have hyear := daysBeforeYear_succ hy
    have hmono := daysBeforeYear_mono (Nat.le_add_left 1 d.year) hlt
    have hin := daysBefore_mono d.year hm'
    omega
  · have hin : daysBefore d.year d.month ≤ daysBefore d.year (e.month - 1) :=
      daysBefore_mono d.year (by omega)
    rw [← heq]
    omega
  · rw [← heq, ← hmeq]
    omega

theorem Date.ordinal_le_iff {d e : Date} (hd : d.IsReal) (he : e.IsReal) :
    d.ordinal ≤ e.ordinal ↔ d.NoLater e := by
  constructor
  · intro h hb
    have := Date.ordinal_lt he hd hb
    omega
  · intro h
    by_contra hlt
    have hne : ¬ e.Before d := h
    have hcases : d.Before e ∨ d = e ∨ e.Before d := by
      obtain ⟨y, m, n⟩ := d
      obtain ⟨y', m', n'⟩ := e
      simp only [Date.Before, Date.mk.injEq]
      omega
    rcases hcases with hb | rfl | hb
    · have := Date.ordinal_lt hd he hb
      omega
    · exact hlt le_rfl
    · exact hne hb

/-! ## What is due -/

/-- The days until an attestation is due, for one that is due on a day the calendar has. -/
def daysUntil (today : Date) (a : Attestation) : Int :=
  match parseIsoDate a.due with
  | .ok d => d.ordinal - today.ordinal
  | .error _ => 0

/-- The attestation with the days that remain. -/
def dueRow (today : Date) (a : Attestation) : AttestationDue := ⟨a, daysUntil today a⟩

/-- One day later. -/
def AttestationDue.sooner (x : AttestationDue) : AttestationDue :=
  { x with daysRemaining := x.daysRemaining - 1 }

/-- What `attestations_due` says of one window, and of the windows next to it. -/
structure DueWindow (data : Systems) (today : Date) (withinDays : Int)
    (rows : List AttestationDue) : Prop where
  exact_ : rows.map AttestationDue.attestation ~
    data.attestations.filter (fun a => a.status ≠ .complete && daysUntil today a ≤ withinDays)
  days : ∀ row ∈ rows, ∃ d, parseIsoDate row.attestation.due = .ok d ∧
    row.daysRemaining = d.ordinal - today.ordinal
  ascending : rows.Pairwise (fun x y => x.daysRemaining ≤ y.daysRemaining)
  narrower : ∀ w ≤ withinDays, ∃ rows', data.due w today = .ok rows' ∧ rows' <+: rows
  tomorrow : data.due (withinDays - 1) today.next = .ok (rows.map AttestationDue.sooner)

instance : Std.Total dueLE := ⟨fun x y => le_total x.attestation.due y.attestation.due⟩

instance : IsTrans AttestationDue dueLE := ⟨fun _ _ _ h h' => le_trans (α := String) h h'⟩

section Dues

variable {data : Systems} {today : Date} {w : Int}

/-- The open attestations with the days that remain, in the order of their due dates. -/
def Systems.openRows (data : Systems) (today : Date) : List AttestationDue :=
  ((data.attestations.filter (fun a => a.status ≠ .complete)).map
    (dueRow today)).insertionSort dueLE

theorem daysLeft_eq {a : Attestation} {d : Date} (h : parseIsoDate a.due = .ok d) :
    Systems.daysLeft today a = .ok (dueRow today a) := by
  simp only [Systems.daysLeft, dueRow, daysUntil, h, bind, Except.bind, pure, Except.pure]

theorem mapM_daysLeft {l : List Attestation} (h : ∀ a ∈ l, ∃ d, parseIsoDate a.due = .ok d) :
    l.mapM (Systems.daysLeft today) = .ok (l.map (dueRow today)) := by
  induction l with
  | nil => rfl
  | cons a l ih =>
    obtain ⟨d, hd⟩ := h a List.mem_cons_self
    rw [List.mapM_cons, daysLeft_eq hd, ih (fun b hb => h b (List.mem_cons_of_mem a hb))]
    rfl

/-- With real due dates the window is a selection of the open attestations. -/
theorem due_of_real (h : DuesReal data) :
    data.due w today = .ok ((data.openRows today).filter (fun x => x.daysRemaining ≤ w)) := by
  have hopen : ∀ a ∈ data.attestations.filter (fun a => a.status ≠ .complete),
      ∃ d, parseIsoDate a.due = .ok d :=
    fun a ha => h a (List.mem_of_mem_filter ha) (of_decide_eq_true (List.mem_filter.mp ha).2)
  unfold Systems.due Systems.openRows
  rw [mapM_daysLeft hopen, filter_insertionSort]
  rfl

theorem real_of_due {rows : List AttestationDue} (h : data.due w today = .ok rows) :
    DuesReal data := by
  rw [← due_endsWell_iff data w today, h]
  exact endsWell_ok rows

theorem mem_openRows (h : DuesReal data) {x : AttestationDue} (hx : x ∈ data.openRows today) :
    ∃ d, parseIsoDate x.attestation.due = .ok d ∧ x.daysRemaining = d.ordinal - today.ordinal := by
  unfold Systems.openRows at hx
  rw [List.mem_insertionSort] at hx
  obtain ⟨a, ha, rfl⟩ := List.mem_map.mp hx
  obtain ⟨hmem, hopen⟩ := List.mem_filter.mp ha
  obtain ⟨d, hd⟩ := h a hmem (of_decide_eq_true hopen)
  refine ⟨d, hd, ?_⟩
  simp only [dueRow, daysUntil, hd]

/-- Due dates sort as texts; the days that remain sort with them. -/
theorem openRows_ascending (h : DuesReal data) :
    (data.openRows today).Pairwise (fun x y => x.daysRemaining ≤ y.daysRemaining) := by
  have hsorted : (data.openRows today).Pairwise dueLE := List.pairwise_insertionSort dueLE _
  refine hsorted.imp_of_mem (fun {x y} hx hy hxy => ?_)
  obtain ⟨d, hd, hdays⟩ := mem_openRows h hx
  obtain ⟨e, he, heays⟩ := mem_openRows h hy
  have hle : d.ordinal ≤ e.ordinal :=
    (Date.ordinal_le_iff (parseIsoDate_real hd) (parseIsoDate_real he)).mpr
    ((parsed_le_iff hd he).mp hxy)
  rw [hdays, heays]
  omega

theorem openRows_next (h : DuesReal data) (ht : today.IsReal) :
    data.openRows today.next = (data.openRows today).map AttestationDue.sooner := by
  have hrows : (data.attestations.filter (fun a => a.status ≠ .complete)).map (dueRow today.next) =
      ((data.attestations.filter (fun a => a.status ≠ .complete)).map (dueRow today)).map
        AttestationDue.sooner := by
    rw [List.map_map]
    refine List.map_congr_left (fun a ha => ?_)
    obtain ⟨hmem, hopen⟩ := List.mem_filter.mp ha
    obtain ⟨d, hd⟩ := h a hmem (of_decide_eq_true hopen)
    show dueRow today.next a = (dueRow today a).sooner
    simp only [dueRow, daysUntil, hd, AttestationDue.sooner, Date.ordinal_next ht,
      AttestationDue.mk.injEq, true_and]
    omega
  unfold Systems.openRows
  rw [hrows]
  exact (List.map_insertionSort dueLE dueLE AttestationDue.sooner _ (fun _ _ _ _ => Iff.rfl)).symm

end Dues

/-- **The windows of `attestations_due` fit together.**  A window holds the open attestations that
are due in it, each once, the most urgent first; a narrower window is its front; and tomorrow the
window that is one day shorter holds the same attestations, one day closer. -/
theorem due_window (data : Systems) (today : Date) (ht : today.IsReal) (withinDays : Int)
    (rows : List AttestationDue) (h : data.due withinDays today = .ok rows) :
    DueWindow data today withinDays rows := by
  have hreal := real_of_due h
  rw [due_of_real hreal] at h
  cases h
  have hascending := @openRows_ascending data today hreal
  constructor
  · have hperm : (data.openRows today).Perm
        ((data.attestations.filter (fun a => a.status ≠ .complete)).map (dueRow today)) :=
      List.perm_insertionSort dueLE _
    refine ((hperm.filter _).map _).trans (List.Perm.of_eq ?_)
    rw [List.filter_map, List.map_map, List.filter_filter]
    refine (List.map_congr_left (fun a _ => rfl)).trans ((List.map_id _).trans ?_)
    exact List.filter_congr (fun a _ => Bool.and_comm _ _)
  · exact fun row hrow => mem_openRows hreal (List.mem_of_mem_filter hrow)
  · exact hascending.filter _
  · intro w hw
    refine ⟨_, due_of_real hreal, ?_⟩
    have hfront := filter_le_front
      (hascending.filter (fun x => decide (x.daysRemaining ≤ withinDays))) w
    rw [List.filter_filter] at hfront
    refine Eq.mp (congrArg (· <+: _) (List.filter_congr (fun x _ => ?_))) hfront
    rw [Bool.and_eq_left_iff_imp]
    intro hx
    exact decide_eq_true ((of_decide_eq_true hx).trans hw)
  · rw [due_of_real hreal, openRows_next hreal ht, List.filter_map]
    refine congrArg Except.ok (congrArg (List.map AttestationDue.sooner)
      (List.filter_congr (fun x _ => ?_)))
    refine decide_eq_decide.mpr ?_
    show x.daysRemaining - 1 ≤ withinDays - 1 ↔ _
    omega

/-- Two attestations are open, and one of them is due in the window. -/
def dueSystems : Systems where
  policies := ⟨[], List.nodup_nil⟩
  controls := []
  tests := []
  tickets := []
  releases := []
  attestations := [⟨"AT-1", "code of ethics", "ana@firm.example", "rae@firm.example",
    "2026-03-01", .open_⟩, ⟨"AT-2", "gifts", "ana@firm.example", "rae@firm.example",
    "2026-02-10", .overdue⟩, ⟨"AT-3", "training", "rae@firm.example", "ana@firm.example",
    "2026-02-02", .complete⟩]

theorem due_window_sample : ∃ rows, (rows.map AttestationDue.daysRemaining = [9]) ∧
    DueWindow dueSystems ⟨2026, 2, 1⟩ 14 rows := by
  have hreal : DuesReal dueSystems := by
    have hall : dueSystems.attestations.all (fun a => (parseIsoDate a.due).isOk) = true := by
      decide +kernel
    intro a ha _
    have hok := List.all_eq_true.mp hall a ha
    cases hd : parseIsoDate a.due with
    | ok d => exact ⟨d, rfl⟩
    | error e =>
      rw [hd] at hok
      cases hok
  refine ⟨_, ?_, due_window dueSystems ⟨2026, 2, 1⟩ (by decide) 14 _ (due_of_real hreal)⟩
  decide +kernel

/-! ## Releases -/

/-- What `regulatory_releases` lists since a day, and what it lists since a later one. -/
structure ReleaseWindow (data : Systems) (day source : String) : Prop where
  /-- It lists what `regulatory_release_get` finds. -/
  found : ∀ r, r ∈ data.since day source ↔
    data.release r.releaseId = some r ∧ day ≤ r.published ∧ (source = "" ∨ r.source = source)
  ascending : (data.since day source).Pairwise (fun r r' => r.published ≤ r'.published)
  once : ((data.since day source).map Release.releaseId).Nodup
  later : ∀ day', day ≤ day' → data.since day' source <:+ data.since day source

instance : Std.Total publishedLE := ⟨fun r r' => le_total r.published r'.published⟩

instance : IsTrans Release publishedLE := ⟨fun _ _ _ h h' => le_trans (α := String) h h'⟩

section Values

variable {α : Type} (key : α → String) {xs : List α}

theorem dictValues_eq : dictValues key xs = (tableOf key [] xs).map Prod.snd := rfl

/-- A `dict` keeps the last value of each key. -/
theorem mem_dictValues {x : α} :
    x ∈ dictValues key xs ↔ xs.reverse.find? (fun y => key y = key x) = some x := by
  rw [dictValues_eq, List.mem_map]
  constructor
  · rintro ⟨⟨k, y⟩, hy, rfl⟩
    have hfound := (mem_tableOf key).mp hy
    have hk : key y = k := of_decide_eq_true
      (List.find?_some (p := fun z => decide (key z = k)) hfound)
    exact hk ▸ hfound
  · intro h
    exact ⟨(key x, x), (mem_tableOf key).mpr h, rfl⟩

theorem nodup_dictValues : ((dictValues key xs).map key).Nodup := by
  have hkeys : (dictValues key xs).map key = (tableOf key [] xs).map Prod.fst := by
    rw [dictValues_eq, List.map_map]
    refine List.map_congr_left (fun e he => ?_)
    have hfound := (mem_tableOf (k := e.1) (a := e.2) key).mp he
    exact of_decide_eq_true (List.find?_some (p := fun z => decide (key z = e.1)) hfound)
  rw [hkeys]
  exact nodup_keys_tableOf key xs [] List.nodup_nil

end Values

theorem mem_since {data : Systems} {day source : String} {r : Release} : r ∈ data.since day source ↔
    data.release r.releaseId = some r ∧ day ≤ r.published ∧ (source = "" ∨ r.source = source) := by
  unfold Systems.since
  rw [List.mem_insertionSort, List.mem_filter, mem_dictValues, Bool.and_eq_true, Bool.or_eq_true,
    decide_eq_true_eq, decide_eq_true_eq, decide_eq_true_eq]
  rfl

/-- **The windows of `regulatory_releases` fit together.**  Every release is listed once, as
`regulatory_release_get` finds it, by publication date, and a later day gives the back of the
list. -/
theorem release_window (data : Systems) (day source : String) : ReleaseWindow data day source := by
  have hsorted : (data.since day source).Pairwise (fun r r' => r.published ≤ r'.published) :=
    List.pairwise_insertionSort publishedLE _
  constructor
  · exact fun r => mem_since
  · exact hsorted
  · unfold Systems.since
    refine ((List.perm_insertionSort publishedLE _).map Release.releaseId).nodup_iff.mpr ?_
    exact (nodup_dictValues Release.releaseId).sublist (List.filter_sublist.map _)
  · intro day' hday
    have hback := filter_ge_back hsorted day'
    rw [Systems.since, filter_insertionSort, List.filter_filter] at hback
    refine Eq.mp (congrArg (· <:+ _) (congrArg (List.insertionSort publishedLE)
      (List.filter_congr (fun r _ => ?_)))) hback
    by_cases hr : day' ≤ r.published
    · rw [decide_eq_true hr, decide_eq_true (hday.trans hr), Bool.true_and, Bool.true_and]
    · rw [decide_eq_false hr, Bool.false_and, Bool.false_and]

/-! ## Adjacent periods -/

/-- What two adjacent periods list, against the period they make up. -/
structure PeriodsSplit (before after_ whole : EvidenceManifest) : Prop where
  tests : whole.testResults ~ before.testResults ++ after_.testResults
  tickets : whole.changeTickets ~ before.changeTickets ++ after_.changeTickets
  versions : whole.policyVersions = after_.policyVersions
  earlier : ∀ r ∈ before.policyVersions, r ∈ whole.policyVersions

/-- The dates of the control's tests and tickets are days the calendar has. -/
structure RecordsReal (data : Systems) (controlId : String) : Prop where
  tests : ∀ t ∈ data.tests, t.controlId = controlId → ∃ d, parseIsoDate t.testedOn = .ok d
  tickets : ∀ t ∈ data.tickets, controlId ∈ t.controls → ∃ d, parseIsoDate t.created = .ok d

section Split

variable {α : Type} {s mid next e : String} {ds dm de : Date}

/-- Two selections that exclude each other and together select the same. -/
theorem filter_split {p q r : α → Bool} {l : List α} (h : ∀ x ∈ l, p x = (q x || r x))
    (hne : ∀ x ∈ l, ¬ (q x = true ∧ r x = true)) : l.filter p ~ l.filter q ++ l.filter r := by
  induction l with
  | nil => exact List.Perm.refl _
  | cons a l ih =>
    have hrest := ih (fun x hx => h x (List.mem_cons_of_mem a hx))
      (fun x hx => hne x (List.mem_cons_of_mem a hx))
    have ha := h a List.mem_cons_self
    have hna := hne a List.mem_cons_self
    cases hq : q a <;> cases hr : r a
    · rw [hq, hr] at ha
      rw [List.filter_cons_of_neg (by rw [ha]; decide),
        List.filter_cons_of_neg (by rw [hq]; decide), List.filter_cons_of_neg (by rw [hr]; decide)]
      exact hrest
    · rw [hq, hr] at ha
      rw [List.filter_cons_of_pos (by rw [ha]; decide),
        List.filter_cons_of_neg (by rw [hq]; decide), List.filter_cons_of_pos hr]
      exact (hrest.cons a).trans List.perm_middle.symm
    · rw [hq, hr] at ha
      rw [List.filter_cons_of_pos (by rw [ha]; decide), List.filter_cons_of_pos hq,
        List.filter_cons_of_neg (by rw [hr]; decide)]
      exact hrest.cons a
    · exact absurd ⟨hq, hr⟩ hna

/-- A real day lies in one of two adjacent periods exactly if it lies in the whole. -/
theorem inRange_split (hs : parseIsoDate s = .ok ds) (hm : parseIsoDate mid = .ok dm)
    (hn : parseIsoDate next = .ok dm.next) (he : parseIsoDate e = .ok de) (hsm : ds.NoLater dm)
    (hme : dm.NoLater de) {day : String} {d : Date} (hd : parseIsoDate day = .ok d) :
    inRange day s e = (inRange day s mid || inRange day next e) ∧
      ¬ (inRange day s mid = true ∧ inRange day next e = true) := by
  -- by their numbers the days are integers, and the second period begins one after the first has
  -- ended
  have hwhole := inRange_parsed hs he hd
  have hbefore := inRange_parsed hs hm hd
  have hafter := inRange_parsed hn he hd
  have hrs := parseIsoDate_real hs
  have hrm := parseIsoDate_real hm
  have hre := parseIsoDate_real he
  have hrd := parseIsoDate_real hd
  rw [← Date.ordinal_le_iff hrs hrd, ← Date.ordinal_le_iff hrd hre] at hwhole
  rw [← Date.ordinal_le_iff hrs hrd, ← Date.ordinal_le_iff hrd hrm] at hbefore
  rw [← Date.ordinal_le_iff (parseIsoDate_real hn) hrd, ← Date.ordinal_le_iff hrd hre,
    Date.ordinal_next hrm] at hafter
  rw [← Date.ordinal_le_iff hrs hrm] at hsm
  rw [← Date.ordinal_le_iff hrm hre] at hme
  rw [Bool.eq_iff_iff, Bool.or_eq_true, hwhole, hbefore, hafter]
  omega

variable {data : Systems} {controlId : String}

theorem results_split (hs : parseIsoDate s = .ok ds) (hm : parseIsoDate mid = .ok dm)
    (hn : parseIsoDate next = .ok dm.next) (he : parseIsoDate e = .ok de) (hsm : ds.NoLater dm)
    (hme : dm.NoLater de) (hreal : RecordsReal data controlId) :
    data.results controlId s e ~ data.results controlId s mid ++ data.results controlId next e := by
  refine filter_split (fun t ht => ?_) (fun t ht => ?_)
  · by_cases hid : t.controlId = controlId
    · obtain ⟨d, hd⟩ := hreal.tests t ht hid
      rw [decide_eq_true hid, Bool.true_and, Bool.true_and, Bool.true_and]
      exact (inRange_split hs hm hn he hsm hme hd).1
    · rw [decide_eq_false hid]
      rfl
  · rintro ⟨hq, hr⟩
    rw [Bool.and_eq_true] at hq hr
    obtain ⟨d, hd⟩ := hreal.tests t ht (of_decide_eq_true hq.1)
    exact (inRange_split hs hm hn he hsm hme hd).2 ⟨hq.2, hr.2⟩

theorem ticketsOf_split (hc : controlId ≠ "") (hs : parseIsoDate s = .ok ds)
    (hm : parseIsoDate mid = .ok dm) (hn : parseIsoDate next = .ok dm.next)
    (he : parseIsoDate e = .ok de) (hsm : ds.NoLater dm) (hme : dm.NoLater de)
    (hreal : RecordsReal data controlId) :
    data.ticketsOf controlId s e ~ data.ticketsOf controlId s mid ++
      data.ticketsOf controlId next e := by
  have hnames : ∀ t : Ticket, (decide (controlId = "") || decide (controlId ∈ t.controls)) = true ↔
      controlId ∈ t.controls := by
    intro t
    rw [decide_eq_false hc, Bool.false_or, decide_eq_true_eq]
  refine filter_split (fun t ht => ?_) (fun t ht => ?_)
  · by_cases hid : controlId ∈ t.controls
    · obtain ⟨d, hd⟩ := hreal.tickets t ht hid
      rw [(hnames t).mpr hid, Bool.true_and, Bool.true_and, Bool.true_and]
      exact (inRange_split hs hm hn he hsm hme hd).1
    · rw [Bool.eq_false_iff.mpr (fun h => hid ((hnames t).mp h))]
      rfl
  · rintro ⟨hq, hr⟩
    rw [Bool.and_eq_true] at hq hr
    obtain ⟨d, hd⟩ := hreal.tickets t ht ((hnames t).mp hq.1)
    exact (inRange_split hs hm hn he hsm hme hd).2 ⟨hq.2, hr.2⟩

end Split

/-- **Adjacent periods split the evidence.**  If one period ends the day before the next begins,
every test result and ticket of the whole is in the manifest of exactly one of them, and the
manifest of the second cites every version the first does. -/
theorem periods_split (rt : Runtime) (data : Systems) (controlId s mid next e : String)
    (hc : controlId ≠ "") (ds dm de : Date) (hs : parseIsoDate s = .ok ds)
    (hm : parseIsoDate mid = .ok dm) (hn : parseIsoDate next = .ok dm.next)
    (he : parseIsoDate e = .ok de) (hsm : ds.NoLater dm) (hme : dm.NoLater de)
    (hreal : RecordsReal data controlId) (before after_ whole : EvidenceManifest)
    (hb : computeManifest rt data controlId s mid = .ok (some before))
    (ha : computeManifest rt data controlId next e = .ok (some after_))
    (hw : computeManifest rt data controlId s e = .ok (some whole)) :
    PeriodsSplit before after_ whole := by
  have hs' := (parseIsoDate_ok hs).2
  have hm' := (parseIsoDate_ok hm).2
  have hn' := (parseIsoDate_ok hn).2
  have he' := (parseIsoDate_ok he).2
  obtain ⟨ctl, hctl, hbefore, -⟩ := computeManifest_spec hs' hm' hb
  obtain ⟨ctl', hctl', hafter, -⟩ := computeManifest_spec hn' he' ha
  obtain ⟨ctl'', hctl'', hwhole, -⟩ := computeManifest_spec hs' he' hw
  cases hctl.symm.trans hctl'
  cases hctl.symm.trans hctl''
  constructor
  · rw [hwhole.tests, hbefore.tests, hafter.tests, ← results_eq hs' he', ← results_eq hs' hm',
      ← results_eq hn' he']
    exact results_split hs hm hn he hsm hme hreal
  · rw [hwhole.tickets, hbefore.tickets, hafter.tickets, ← ticketsOf_eq hs' he',
      ← ticketsOf_eq hs' hm', ← ticketsOf_eq hn' he']
    exact ticketsOf_split hc hs hm hn he hsm hme hreal
  · rw [hwhole.versions, hafter.versions]
  · intro r hr
    rw [hbefore.versions] at hr
    rw [hwhole.versions]
    obtain ⟨pid, hpid, hr⟩ := List.mem_flatMap.mp hr
    obtain ⟨v, hv, hvm, rfl⟩ := mem_approvedBy.mp hr
    have hle : mid ≤ e := (parsed_le_iff hm he).mpr hme
    exact List.mem_flatMap.mpr ⟨pid, hpid, mem_approvedBy.mpr ⟨v, hv, hvm.trans hle, rfl⟩⟩

instance (d e : Date) : Decidable (d.NoLater e) :=
  inferInstanceAs (Decidable (¬ (_ < _ ∨ _ = _ ∧ (_ < _ ∨ _ = _ ∧ _ < _))))

theorem periods_split_sample : ∃ before after_ whole,
    computeManifest Runtime.python quarterlySystems "CTL-1" "2026-01-01" "2026-02-28" =
      .ok (some before) ∧
    computeManifest Runtime.python quarterlySystems "CTL-1" "2026-03-01" "2026-03-31" =
      .ok (some after_) ∧
    computeManifest Runtime.python quarterlySystems "CTL-1" "2026-01-01" "2026-03-31" =
      .ok (some whole) ∧
    PeriodsSplit before after_ whole := by
  have hs : parseIsoDate "2026-01-01" = .ok ⟨2026, 1, 1⟩ := by decide +kernel
  have hm : parseIsoDate "2026-02-28" = .ok ⟨2026, 2, 28⟩ := by decide +kernel
  have hn : parseIsoDate "2026-03-01" = .ok (Date.next ⟨2026, 2, 28⟩) := by decide +kernel
  have he : parseIsoDate "2026-03-31" = .ok ⟨2026, 3, 31⟩ := by decide +kernel
  have hreal : RecordsReal quarterlySystems "CTL-1" := by
    refine ⟨fun t ht _ => ⟨⟨2026, 2, 10⟩, ?_⟩, fun t ht _ => nomatch ht⟩
    rw [List.mem_singleton.mp ht]
    decide +kernel
  have hcomputed : ∀ start end_ ds de, parseIsoDate start = .ok ds → parseIsoDate end_ = .ok de →
    ds.NoLater de →
      ∃ m, computeManifest Runtime.python quarterlySystems "CTL-1" start end_ = .ok (some m) := by
    intro start end_ ds de hstart hend hle
    obtain ⟨m, -, hm, -⟩ := @computeManifest_ok Runtime.python quarterlySystems quarterlyControl
      start end_ ds de 3 "CTL-1" (by decide) rfl hstart hend hle
    exact ⟨m, hm⟩
  obtain ⟨before, hb⟩ := hcomputed _ _ _ _ hs hm (by decide)
  obtain ⟨after_, ha⟩ := hcomputed _ _ _ _ hn he (by decide)
  obtain ⟨whole, hw⟩ := hcomputed _ _ _ _ hs he (by decide)
  exact ⟨before, after_, whole, hb, ha, hw,
    periods_split Runtime.python quarterlySystems "CTL-1" "2026-01-01"
    "2026-02-28" "2026-03-01" "2026-03-31" (by decide) _ _ _ hs hm hn he (by decide)
      (by decide) hreal _ _ _ hb ha hw⟩

end ComplianceMcp
