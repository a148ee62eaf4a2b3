import ComplianceMcp.Decimals
import ComplianceMcp.SystemsLoad
import ComplianceMcp.EvidenceIndex
import ComplianceMcp.DraftInvariant

/-! # The read tools

What a tool raises is translated into a code the model can act on; an exception that is none of
the service's own becomes `internal_error`.  The bodies of the read tools parse dates in two
places.  The arguments have been through `_validate_range` there; the due date of an attestation
has only been matched with its pattern when it was loaded. -/
namespace ComplianceMcp

open PyText PyJson Files Latest Decimals

/-! ## Errors -/

/-- The codes of a `ToolError`. -/
inductive ErrorCode where
  | accessDenied
  | rateLimited
  | invalidInput
  | draftRejected
  | notFound
  | internalError
  deriving DecidableEq

/-- The code an exception is translated into. -/
def PyError.code : PyError → ErrorCode
  | .accessDenied _ => .accessDenied
  | .rateLimited _ => .rateLimited
  | .draftRejected _ => .draftRejected
  | .invalidInput _ => .invalidInput
  | .validationError => .invalidInput
  | .notFound _ => .notFound
  | _ => .internalError

/-! ## Results -/

structure ReleaseSummary where
  releaseId : String
  source : String
  published : String
  title : String
  url : String

def Release.summary (r : Release) : ReleaseSummary :=
  ⟨r.releaseId, r.source, r.published, r.title, r.url⟩

structure AttestationDue where
  attestation : Attestation
  daysRemaining : Int

/-- What a result carries beside its summary. -/
inductive Payload where
  | sections (hits : List PolicyHit)
  | policy (doc : Option Policy)
  | policies (items : List PolicySummary)
  | controls (items : List Control)
  | results (rows : List TestResult)
  | releases (rows : List ReleaseSummary)
  | release (r : Option Release)
  | tickets (rows : List Ticket)
  | attestations (rows : List AttestationDue)
  | manifest (m : EvidenceManifest)
  | drafts (rows : List DraftSummary)
  | draft (d : Option Draft)
  | filed (draftId : String) (status : DraftStatus)

structure ToolResult where
  summary : String
  payload : Payload

/-! ## Adapters -/

/-- `{key(x): x for x in xs}.values()`. -/
def dictValues {α : Type} (key : α → String) (xs : List α) : List α :=
  (xs.foldl (fun table x => assign (key x) x table) []).map Prod.snd

variable (rt : Runtime)

/-- `needle in x.model_dump_json().lower()`. -/
def mentions (needle : String) (x : Json) : Bool :=
  contains (rt.lower (String.ofList (render canonicalStyle x))).toList needle.toList

/-- The order of `sorted(…, key=lambda r: r.published)`. -/
def publishedLE (r r' : Release) : Prop := r.published ≤ r'.published

instance : DecidableRel publishedLE :=
  fun r r' => inferInstanceAs (Decidable (r.published ≤ r'.published))

/-- The order of `sorted(out, key=lambda a: a.due)`. -/
def dueLE (a b : AttestationDue) : Prop := a.attestation.due ≤ b.attestation.due

instance : DecidableRel dueLE :=
  fun a b => inferInstanceAs (Decidable (a.attestation.due ≤ b.attestation.due))

/-- The days before a year of the proleptic Gregorian calendar. -/
def daysBeforeYear (year : Nat) : Nat :=
  let y := year - 1
  y * 365 + y / 4 - y / 100 + y / 400

/-- `d.toordinal()`. -/
def Date.ordinal (d : Date) : Int :=
  (daysBeforeYear d.year + ((List.range (d.month - 1)).map
    (fun m => daysInMonth d.year (m + 1))).sum + d.day : Nat)

/-- `d.isoformat()`. -/
def Date.isoformat (d : Date) : String :=
  String.ofList (padded 4 d.year ++ '-' :: (padded 2 d.month ++ '-' :: padded 2 d.day))

namespace Systems

variable (data : Systems)

/-- `ControlLibrary.search`. -/
def searchControls (query : String) : List Control :=
  (dictValues Control.controlId data.controls).filter (fun c => mentions rt (rt.lower query) c.json)

/-- `TicketSystem.search`. -/
def searchTickets (query controlId start end_ : String) : List Ticket :=
  data.tickets.filter (fun t => (controlId = "" || controlId ∈ t.controls) &&
    (rt.lower query = "" || mentions rt (rt.lower query) t.json) && inRange t.created start end_)

/-- `RegulatoryFeed.since`. -/
def since (day source : String) : List Release :=
  ((dictValues Release.releaseId data.releases).filter (fun r =>
    day ≤ r.published && (source = "" || r.source = source))).insertionSort publishedLE

/-- One turn of the loop of `AttestationTracker.due`. -/
def daysLeft (today : Date) (a : Attestation) : Except PyError AttestationDue := do
  let due ← parseIsoDate a.due
  return ⟨a, due.ordinal - today.ordinal⟩

/-- `AttestationTracker.due`. -/
def due (withinDays : Int) (today : Date) : Except PyError (List AttestationDue) := do
  let out ← (data.attestations.filter (fun a => a.status ≠ .complete)).mapM (daysLeft today)
  return (out.filter (fun a => a.daysRemaining ≤ withinDays)).insertionSort dueLE

end Systems

/-! ## Calls -/

/-- What the service serves reads from: the systems of record, the drafts table, one setting
and the day. -/
structure Desk where
  data : Systems
  rows : List Row
  allowClockOverride : Bool
  today : Date

/-- A call of a read tool. -/
inductive ReadCall where
  | policyLookup (query : String) (limit : Int)
  | policyGet (policyId : String) (asOf : Option String)
  | policyList
  | controlLookup (controlId query : String)
  | controlTestResults (controlId : String) (start end_ : Option String)
  | regulatoryReleases (day source : String)
  | regulatoryReleaseGet (releaseId : String)
  | ticketSearch (query controlId : String) (start end_ : Option String)
  | attestationsDue (withinDays : Int) (today : Option String)
  | evidenceBundle (controlId start end_ : String)
  | draftList (status : DraftStatus)
  | draftGet (draftId : String)

def found {α : Type} (o : Option α) : String := if o.isSome then "found" else "not found"

/-- `control_lookup`. -/
def controlLookup (data : Systems) (controlId query : String) : Except PyError ToolResult :=
  if controlId ≠ "" then
    .ok ⟨"control " ++ controlId ++ " " ++ found (data.control controlId),
      .controls (data.control controlId).toList⟩
  else if blank query.toList then .error (.invalidInput "control_id or query is required")
  else
    let hits := data.searchControls rt query
    .ok ⟨toString hits.length ++ " control(s) for '" ++ query ++ "'", .controls hits⟩

/-- `control_test_results`. -/
def controlTestResults (data : Systems) (controlId : String) (start end_ : Option String) :
    Except PyError ToolResult := do
  validateRange start end_
  let rows := data.results controlId (start.getD "") (end_.getD "")
  return ⟨toString rows.length ++ " test result(s) for " ++ controlId ++ " " ++
    start.getD "" ++ ".." ++ end_.getD "", .results rows⟩

/-- `regulatory_releases`. -/
def regulatoryReleases (data : Systems) (day source : String) : Except PyError ToolResult := do
  validateRange (some day) none
  let rows := (data.since day source).map Release.summary
  return ⟨toString rows.length ++ " release(s) since " ++ day, .releases rows⟩

/-- `ticket_search`. -/
def ticketSearch (data : Systems) (query controlId : String) (start end_ : Option String) :
    Except PyError ToolResult := do
  validateRange start end_
  let rows := data.searchTickets rt query controlId (start.getD "") (end_.getD "")
  return ⟨toString rows.length ++ " ticket(s)", .tickets rows⟩

/-- The day `attestations_due` counts from. -/
def Desk.asOf (desk : Desk) (today : Option String) : Except PyError Date :=
  if today.getD "" ≠ "" then parseIsoDate (today.getD "") else .ok desk.today

/-- `attestations_due`. -/
def attestationsDue (desk : Desk) (withinDays : Int) (today : Option String) :
    Except PyError ToolResult :=
  if withinDays < 0 ∨ 366 < withinDays then
    .error (.invalidInput "within_days must be between 0 and 366")
  else if today.getD "" ≠ "" ∧ desk.allowClockOverride = false then
    .error (.invalidInput "overriding today's date is disabled in this environment")
  else do
    validateRange today none
    let asOf ← desk.asOf today
    let rows ← desk.data.due withinDays asOf
    return ⟨toString rows.length ++ " attestation(s) due within " ++ toString withinDays ++
      " days of " ++ asOf.isoformat, .attestations rows⟩

/-- The body of the tool. -/
def runRead (desk : Desk) : ReadCall → Except PyError ToolResult
  | .policyLookup query limit => do
    let (summary, hits) ← policyLookup rt desk.data.policies query limit
    return ⟨summary, .sections hits⟩
  | .policyGet policyId asOf => do
    let (summary, doc) ← policyGet desk.data.policies policyId asOf
    return ⟨summary, .policy doc⟩
  | .policyList =>
    let (summary, items) := policyList desk.data.policies
    .ok ⟨summary, .policies items⟩
  | .controlLookup controlId query => controlLookup rt desk.data controlId query
  | .controlTestResults controlId start end_ => controlTestResults desk.data controlId start end_
  | .regulatoryReleases day source => regulatoryReleases desk.data day source
  | .regulatoryReleaseGet releaseId =>
    .ok ⟨"release " ++ releaseId ++ " " ++ found (desk.data.release releaseId),
      .release (desk.data.release releaseId)⟩
  | .ticketSearch query controlId start end_ => ticketSearch rt desk.data query controlId start end_
  | .attestationsDue withinDays today => attestationsDue desk withinDays today
  | .evidenceBundle controlId start end_ => do
    let (summary, m) ← evidenceBundle rt desk.data controlId start end_
    return ⟨summary, .manifest m⟩
  | .draftList status => do
    let rows ← listDrafts rt desk.rows status
    return ⟨toString rows.length ++ " " ++ status.value ++ " draft(s)", .drafts rows⟩
  | .draftGet draftId => do
    let draft ← getDraft rt desk.rows draftId
    return ⟨"draft " ++ draftId ++ " " ++ found draft, .draft draft⟩

/-! ## Data that loads -/

/-- A row as the store leaves it: inserted by `create`, and decided at most once. -/
inductive WrittenRow : Row → Prop where
  | created (d : Draft) (h : d.decision = none) : WrittenRow (rowOf d)
  | decided (d : Draft) (c : DecideArgs) : WrittenRow (decideRow c (rowOf d))

/-- What a service serves that has started on the data directory. -/
structure ServedDesk (dataDir : String) (dir : DataDir) extends Desk where
  loaded : loadSystems rt dataDir dir = .ok data
  written : ∀ r ∈ rows, WrittenRow r

/-- A date argument matches the pattern of `IsoDate`. -/
def OptionalDate (o : Option String) : Prop := ∀ s ∈ o, isDateText s.toList = true

/-- The arguments match the schema of the tool; only dates have a pattern. -/
def ReadCall.MatchesSchema : ReadCall → Prop
  | .policyGet _ asOf => OptionalDate asOf
  | .controlTestResults _ start end_ => OptionalDate start ∧ OptionalDate end_
  | .regulatoryReleases day _ => OptionalDate (some day)
  | .ticketSearch _ _ start end_ => OptionalDate start ∧ OptionalDate end_
  | .attestationsDue _ today => OptionalDate today
  | .evidenceBundle _ start end_ => OptionalDate (some start) ∧ OptionalDate (some end_)
  | _ => True

/-- The call ends in its result, in `invalid_input` or in `not_found`. -/
def EndsWell {α : Type} (r : Except PyError α) : Prop :=
  ∀ e, r = .error e → e.code = .invalidInput ∨ e.code = .notFound

/-- `attestations_due` gets past its own checks. -/
def ReadCall.ReadsDues (desk : Desk) : ReadCall → Prop
  | .attestationsDue withinDays today => 0 ≤ withinDays ∧ withinDays ≤ 366 ∧
      (today.getD "" ≠ "" → desk.allowClockOverride = true) ∧ validateRange today none = .ok ()
  | _ => False

/-- The attestations that are not complete are due on days the calendar has. -/
def DuesReal (data : Systems) : Prop :=
  ∀ a ∈ data.attestations, a.status ≠ .complete → ∃ d, parseIsoDate a.due = .ok d

/-! ## How calls end -/

section Ends

variable {rt}

theorem endsWell_ok {α : Type} (a : α) : EndsWell (.ok a : Except PyError α) := fun _ h => nomatch h

theorem endsWell_invalid {α : Type} (message : String) :
    EndsWell (.error (.invalidInput message) : Except PyError α) := by
  intro e h
  cases h
  exact Or.inl rfl

/-- A call ends well if its steps do. -/
theorem EndsWell.bind {α β : Type} {x : Except PyError α} {f : α → Except PyError β}
    (hx : EndsWell x) (hf : ∀ a, x = .ok a → EndsWell (f a)) : EndsWell (x >>= f) := by
  intro e h
  cases hr : x with
  | error e' =>
    rw [hr] at h
    cases h
    exact hx _ hr
  | ok a =>
    rw [hr] at h
    exact hf a hr e h

theorem validateDate_endsWell (label value : String) : EndsWell (validateDate label value) := by
  unfold validateDate
  split
  · exact endsWell_ok _
  split
  · exact endsWell_ok _
  · exact endsWell_invalid _

theorem validateRange_endsWell (start end_ : Option String) :
    EndsWell (validateRange start end_) := by
  unfold validateRange
  refine (validateDate_endsWell _ _).bind (fun _ _ => (validateDate_endsWell _ _).bind
    (fun _ _ => ?_))
  split
  · exact endsWell_invalid _
  · exact endsWell_ok _

/-- What follows a check of the dates ends well if it cannot fail. -/
theorem endsWell_validated {start end_ : Option String} {r : ToolResult} :
    EndsWell (validateRange start end_ >>= fun _ => .ok r) :=
  (validateRange_endsWell start end_).bind (fun _ _ => endsWell_ok r)

theorem policyLookup_endsWell (repo : PolicyRepository) (query : String) (limit : Int) :
    EndsWell (policyLookup rt repo query limit) := by
  unfold policyLookup
  split
  · exact endsWell_invalid _
  · exact endsWell_ok _

theorem policyGet_endsWell (repo : PolicyRepository) (policyId : String) (asOf : Option String) :
    EndsWell (policyGet repo policyId asOf) := by
  unfold policyGet
  exact (validateRange_endsWell _ _).bind (fun _ _ => endsWell_ok _)

theorem controlLookup_endsWell (data : Systems) (controlId query : String) :
    EndsWell (controlLookup rt data controlId query) := by
  unfold controlLookup
  split
  · exact endsWell_ok _
  split
  · exact endsWell_invalid _
  · exact endsWell_ok _

theorem ne_empty_of_isDateText {s : String} (h : isDateText s.toList = true) : s ≠ "" := by
  rintro rfl
  cases h

/-- The manifest of a period that `_validate_range` has let through is computed. -/
theorem evidenceBundle_endsWell (data : Systems) (controlId : String) {start end_ : String}
    (hs : isDateText start.toList = true) (he : isDateText end_.toList = true) :
    EndsWell (evidenceBundle rt data controlId start end_) := by
  unfold evidenceBundle
  refine (validateRange_endsWell _ _).bind (fun u hv => ?_)
  have hreal := (validateRange_ok_iff (ne_empty_of_isDateText hs) (ne_empty_of_isDateText he)).mp hv
  by_cases hc : data.control controlId = none
  · rw [computeManifest_unknown hc]
    intro e h
    cases h
    exact Or.inr rfl
  · obtain ⟨m, hm⟩ := @computeManifest_real rt _ _ _ _ hc hreal
    rw [hm]
    exact endsWell_ok _

/-- A decision by nobody is read back as none. -/
theorem toDraft_decided_by_nobody (d : Draft) {c : DecideArgs} (hc : c.by_ = "") :
    toDraft rt (decideRow c (rowOf d)) = .ok { d with status := c.decision, decision := none } := by
  have hdec : decisionOf (decideRow c (rowOf d)) = .ok none := by
    unfold decisionOf decideRow
    rw [hc]
    rfl
  simp only [toDraft, hdec, bind, Except.bind, pure, Except.pure]
  simp only [decideRow, rowOf, String.toList_ofList, loads_strings, tupleOf,
    DraftKind.ofValue_value, DraftStatus.ofValue_value, stringsOf_map]

/-- Every row that the store has written reads back. -/
theorem WrittenRow.reads {r : Row} (h : WrittenRow r) : ∃ d, toDraft rt r = .ok d := by
  cases h with
  | created d hd => exact ⟨d, toDraft_rowOf hd⟩
  | decided d c =>
    by_cases hc : c.by_ = ""
    · exact ⟨_, toDraft_decided_by_nobody d hc⟩
    · exact ⟨d.decided c, toDraft_decideRow d hc⟩

theorem listDrafts_reads {rows : List Row} (h : ∀ r ∈ rows, WrittenRow r) (status : DraftStatus) :
    ∃ ds, listDrafts rt rows status = .ok ds := by
  unfold listDrafts
  obtain ⟨ds, hds, -⟩ := mapM_ok (f := toDraft rt) (Q := fun _ => True)
    (l := (rows.filter (fun r => r.status = status.value)).insertionSort createdLE) (fun r hr => by
      rw [List.mem_insertionSort] at hr
      obtain ⟨d, hd⟩ := @WrittenRow.reads rt _ (h r (List.mem_of_mem_filter hr))
      exact ⟨d, hd, trivial⟩)
  rw [hds]
  exact ⟨_, rfl⟩

theorem getDraft_reads {rows : List Row} (h : ∀ r ∈ rows, WrittenRow r) (draftId : String) :
    ∃ d, getDraft rt rows draftId = .ok d := by
  unfold getDraft
  split
  · next r hr =>
    obtain ⟨d, hd⟩ := @WrittenRow.reads rt _ (h r (List.mem_of_find?_eq_some hr))
    rw [hd]
    exact ⟨_, rfl⟩
  · exact ⟨_, rfl⟩

/-! ## Dates that are due -/

/-- The only way to fail on an attestation is a day no calendar has. -/
theorem daysLeft_error {today : Date} {a : Attestation} {e : PyError}
    (h : Systems.daysLeft today a = .error e) :
    e.code = .internalError ∧ ¬ ∃ d, parseIsoDate a.due = .ok d := by
  unfold Systems.daysLeft at h
  cases hd : parseIsoDate a.due with
  | ok d =>
    rw [hd] at h
    cases h
  | error e' =>
    rw [hd] at h
    cases h
    refine ⟨?_, fun ⟨d, hd'⟩ => nomatch hd'⟩
    unfold parseIsoDate at hd
    repeat' split at hd
    all_goals cases hd
    all_goals rfl

theorem mapM_error {α β : Type} {f : α → Except PyError β} {xs : List α} {e : PyError}
    (h : xs.mapM f = .error e) : ∃ x ∈ xs, f x = .error e := by
  induction xs with
  | nil => cases h
  | cons x xs ih =>
    rw [List.mapM_cons] at h
    cases hx : f x with
    | error e' =>
      rw [hx] at h
      cases h
      exact ⟨x, List.mem_cons_self, hx⟩
    | ok y =>
      rw [hx] at h
      cases hr : xs.mapM f with
      | error e' =>
        rw [hr] at h
        cases h
        obtain ⟨z, hz, hfz⟩ := ih hr
        exact ⟨z, List.mem_cons_of_mem _ hz, hfz⟩
      | ok ys =>
        rw [hr] at h
        cases h

theorem mapM_mem {α β : Type} {f : α → Except PyError β} {xs : List α} {ys : List β}
    (h : xs.mapM f = .ok ys) : ∀ x ∈ xs, ∃ y, f x = .ok y := by
  induction xs generalizing ys with
  | nil => exact fun x hx => absurd hx List.not_mem_nil
  | cons x xs ih =>
    rw [List.mapM_cons] at h
    cases hx : f x with
    | error e =>
      rw [hx] at h
      cases h
    | ok y =>
      rw [hx] at h
      cases hr : xs.mapM f with
      | error e =>
        rw [hr] at h
        cases h
      | ok zs =>
        intro z hz
        rcases List.mem_cons.mp hz with rfl | hz
        · exact ⟨y, hx⟩
        · exact ih hr z hz

/-- The open attestations are listed if and only if all are due on real days. -/
theorem due_endsWell_iff (data : Systems) (withinDays : Int) (today : Date) :
    EndsWell (data.due withinDays today) ↔ DuesReal data := by
  unfold Systems.due
  constructor
  · intro h a ha hstatus
    cases hm : (data.attestations.filter (fun a => a.status ≠ .complete)).mapM
      (Systems.daysLeft today) with
    | error e =>
      obtain ⟨b, -, hb⟩ := mapM_error hm
      rw [hm] at h
      rcases h e rfl with hcode | hcode
      · rw [(daysLeft_error hb).1] at hcode
        cases hcode
      · rw [(daysLeft_error hb).1] at hcode
        cases hcode
    | ok out =>
      obtain ⟨y, hy⟩ := mapM_mem hm a (List.mem_filter.mpr ⟨ha, decide_eq_true hstatus⟩)
      cases hd : parseIsoDate a.due with
      | ok d => exact ⟨d, rfl⟩
      | error e =>
        unfold Systems.daysLeft at hy
        rw [hd] at hy
        cases hy
  · intro h
    refine EndsWell.bind (fun e he => ?_) (fun _ _ => endsWell_ok _)
    obtain ⟨a, ha, hfail⟩ := mapM_error he
    have hmem := List.mem_filter.mp ha
    exact absurd (h a hmem.1 (of_decide_eq_true hmem.2)) (daysLeft_error hfail).2

theorem asOf_of_validated (desk : Desk) {today : Option String}
    (h : validateRange today none = .ok ()) :
    ∃ d, desk.asOf today = .ok d := by
  unfold Desk.asOf
  by_cases ht : today.getD "" = ""
  · rw [if_neg (not_not.mpr ht)]
    exact ⟨_, rfl⟩
  · rw [if_pos ht]
    unfold validateRange at h
    cases hv : validateDate "start" (today.getD "") with
    | error e =>
      rw [hv] at h
      cases h
    | ok u => exact (validateDate_ok_iff ht).mp hv

theorem attestationsDue_endsWell_iff (desk : Desk) (withinDays : Int) (today : Option String) :
    EndsWell (attestationsDue desk withinDays today) ↔
      ((ReadCall.attestationsDue withinDays today).ReadsDues desk → DuesReal desk.data) := by
  unfold attestationsDue
  by_cases hdays : withinDays < 0 ∨ 366 < withinDays
  · rw [if_pos hdays]
    refine iff_of_true (endsWell_invalid _) (fun h => ?_)
    have := h.1
    have := h.2.1
    omega
  rw [if_neg hdays]
  by_cases hclock : today.getD "" ≠ "" ∧ desk.allowClockOverride = false
  · rw [if_pos hclock]
    refine iff_of_true (endsWell_invalid _) (fun h => ?_)
    have := h.2.2.1 hclock.1
    rw [hclock.2] at this
    cases this
  rw [if_neg hclock]
  cases hv : validateRange today none with
  | error e =>
    refine iff_of_true (fun e' he' => ?_) (fun h => ?_)
    · cases he'
      exact validateRange_endsWell today none e hv
    · exact nomatch hv.symm.trans h.2.2.2
  | ok u =>
    obtain ⟨d, hd⟩ := asOf_of_validated desk hv
    have hreads : (ReadCall.attestationsDue withinDays today).ReadsDues desk := by
      refine ⟨by omega, by omega, fun ht => ?_, hv⟩
      by_contra hno
      exact hclock ⟨ht, Bool.eq_false_of_not_eq_true hno⟩
    show EndsWell (desk.asOf today >>= fun asOf => desk.data.due withinDays asOf >>=
      fun rows => .ok _) ↔ _
    rw [hd]
    show EndsWell (desk.data.due withinDays d >>= fun rows => .ok _) ↔ _
    rw [← due_endsWell_iff desk.data withinDays d]
    constructor
    · intro h _ e he
      exact h e (by rw [he]; rfl)
    · intro h
      exact (h hreads).bind (fun _ _ => endsWell_ok _)

end Ends

/-- **Data that loads fails later only in a due date.**  For every data directory the adapters
accept, and every call of a read tool whose arguments match the schema, the call ends in its
result, in `invalid_input` or in `not_found`, if and only if it does not get to the due dates of
the attestations or all that are not complete are days the calendar has. -/
theorem reads_end_well_iff (rt : Runtime) (dataDir : String) (dir : DataDir)
    (desk : ServedDesk rt dataDir dir) (call : ReadCall) (hcall : call.MatchesSchema) :
    EndsWell (runRead rt desk.toDesk call) ↔ (call.ReadsDues desk.toDesk → DuesReal desk.data) := by
  cases call with
  | attestationsDue withinDays today =>
    exact attestationsDue_endsWell_iff desk.toDesk withinDays today
  | policyLookup query limit =>
    exact iff_of_true ((policyLookup_endsWell _ _ _).bind (fun _ _ => endsWell_ok _)) False.elim
  | policyGet policyId asOf =>
    exact iff_of_true ((policyGet_endsWell _ _ _).bind (fun _ _ => endsWell_ok _)) False.elim
  | policyList => exact iff_of_true (endsWell_ok _) False.elim
  | controlLookup controlId query => exact iff_of_true (controlLookup_endsWell _ _ _) False.elim
  | controlTestResults controlId start end_ => exact iff_of_true endsWell_validated False.elim
  | regulatoryReleases day source => exact iff_of_true endsWell_validated False.elim
  | regulatoryReleaseGet releaseId => exact iff_of_true (endsWell_ok _) False.elim
  | ticketSearch query controlId start end_ => exact iff_of_true endsWell_validated False.elim
  | evidenceBundle controlId start end_ =>
    have hbundle := @evidenceBundle_endsWell rt desk.data controlId _ _ (hcall.1 _ rfl)
      (hcall.2 _ rfl)
    exact iff_of_true (hbundle.bind (fun _ _ => endsWell_ok _)) False.elim
  | draftList status =>
    obtain ⟨ds, hds⟩ := @listDrafts_reads rt _ desk.written status
    refine iff_of_true (fun e h => ?_) False.elim
    rw [runRead, hds] at h
    cases h
  | draftGet draftId =>
    obtain ⟨d, hd⟩ := @getDraft_reads rt _ desk.written draftId
    refine iff_of_true (fun e h => ?_) False.elim
    rw [runRead, hd] at h
    cases h

/-- The fields of an attestation in its file. -/
def sampleAttestation (due : String) : Json :=
  .obj [("attestation_id", .str "AT-1"), ("type", .str "code of ethics"),
    ("owner", .str "ana@firm.example"), ("manager", .str "rae@firm.example"), ("due", .str due),
    ("status", .str "open")]

/-- A data directory with one attestation. -/
def sampleDataDir (due : String) : DataDir where
  policies := ⟨Dir.empty, fun _ h => absurd h List.not_mem_nil⟩
  controls := utf8 (dumps lineStyle (.obj [("controls", .arr []), ("test_results", .arr [])]))
  tickets := utf8 (dumps lineStyle (.obj [("tickets", .arr [])]))
  feed := Dir.empty
  attestations := utf8 (dumps lineStyle (.obj [("attestations", .arr [sampleAttestation due])]))

/-- A service that has started on it. -/
theorem sampleDesk (due : String)
    (h : (loadSystems Runtime.python "data" (sampleDataDir due)).toOption.any
    (fun data => data.attestations.any (fun a => a.due = due && a.status ≠ .complete)) = true) :
    ∃ desk : ServedDesk Runtime.python "data" (sampleDataDir due), desk.allowClockOverride = false ∧
      ∃ a ∈ desk.data.attestations, a.due = due ∧ a.status ≠ .complete := by
  obtain ⟨data, hdata, hany⟩ := (Option.any_eq_true _ _).mp h
  obtain ⟨a, ha, hdue⟩ := List.any_eq_true.mp hany
  rw [Bool.and_eq_true, decide_eq_true_eq, decide_eq_true_eq] at hdue
  have hload : loadSystems Runtime.python "data" (sampleDataDir due) = .ok data := by
    cases hl : loadSystems Runtime.python "data" (sampleDataDir due) with
    | error e =>
      rw [hl] at hdata
      cases hdata
    | ok d =>
      rw [hl] at hdata
      cases hdata
      rfl
  exact ⟨⟨⟨data, [], false, ⟨2026, 2, 1⟩⟩, hload, fun _ h => absurd h List.not_mem_nil⟩,
    rfl, a, ha, hdue⟩

theorem reads_end_well_iff_sample :
    ∃ desk : ServedDesk Runtime.python "data" (sampleDataDir "2026-02-28"),
    EndsWell (runRead Runtime.python desk.toDesk (.attestationsDue 14 none)) ↔
      ((ReadCall.attestationsDue 14 none).ReadsDues desk.toDesk → DuesReal desk.data) := by
  obtain ⟨desk, -⟩ := sampleDesk "2026-02-28" (by decide +kernel)
  exact ⟨desk, reads_end_well_iff Runtime.python "data" _ desk (.attestationsDue 14 none)
    (fun s hs => nomatch hs)⟩

/-- **An attestation due on the thirtieth of February is loaded**, and the tool that lists what
is due fails on it. -/
theorem impossible_due_date_fails :
    ∃ desk : ServedDesk Runtime.python "data" (sampleDataDir "2026-02-30"),
    ¬ EndsWell (runRead Runtime.python desk.toDesk (.attestationsDue 14 none)) := by
  obtain ⟨desk, -, a, ha, hdue, hstatus⟩ := sampleDesk "2026-02-30" (by decide +kernel)
  refine ⟨desk, fun h => ?_⟩
  have hreads : (ReadCall.attestationsDue 14 none).ReadsDues desk.toDesk :=
    ⟨by decide, by decide, fun ht => absurd rfl ht, rfl⟩
  obtain ⟨d, hd⟩ := (attestationsDue_endsWell_iff desk.toDesk 14 none).mp h hreads a ha hstatus
  rw [hdue] at hd
  have hno : (parseIsoDate "2026-02-30").isOk = false := by decide +kernel
  rw [hd] at hno
  cases hno

end ComplianceMcp
