import ComplianceMcp.PolicyStore
import ComplianceMcp.DraftChecks

/-! # Evidence manifests

A manifest lists what an examiner asks for on one control over one period: the approved
policy versions, the test results, the tickets and the gaps, under a hash of all of it.
`compute_manifest` is called by `evidence_bundle`, which has checked the period, by the check
of an index draft, and by the export, which have not. -/
namespace ComplianceMcp

open PyText PyJson Sha256

inductive Frequency where
  | monthly
  | quarterly
  | annual
  | unset
  deriving DecidableEq

def Frequency.value : Frequency → String
  | .monthly => "monthly"
  | .quarterly => "quarterly"
  | .annual => "annual"
  | .unset => ""

structure Control where
  controlId : String
  name : String
  description : String
  owner : String
  testFrequency : Frequency
  policies : List String
  regulations : List String
  evidence : List String
  deriving DecidableEq

inductive TestOutcome where
  | pass
  | fail
  | partial_
  | notTested
  deriving DecidableEq

def TestOutcome.value : TestOutcome → String
  | .pass => "pass"
  | .fail => "fail"
  | .partial_ => "partial"
  | .notTested => "not-tested"

structure TestResult where
  testId : String
  controlId : String
  testedOn : String
  tester : String
  result : TestOutcome
  notes : String
  deriving DecidableEq

inductive TicketType where
  | change
  | incident
  | task
  deriving DecidableEq

def TicketType.value : TicketType → String
  | .change => "change"
  | .incident => "incident"
  | .task => "task"

structure Ticket where
  ticketId : String
  created : String
  status : String
  type : TicketType
  title : String
  summary : String
  controls : List String
  policies : List String
  deriving DecidableEq

structure PolicyVersionRef where
  policyId : String
  version : String
  effectiveDate : String
  title : String
  source : String
  sha256 : String
  deriving DecidableEq

structure EvidenceManifest where
  control : Control
  periodStart : String
  periodEnd : String
  policyVersions : List PolicyVersionRef
  testResults : List TestResult
  changeTickets : List Ticket
  gaps : List String
  manifestSha256 : String
  deriving DecidableEq

inductive AttestationStatus where
  | open_
  | complete
  | overdue
  deriving DecidableEq

structure Attestation where
  attestationId : String
  type : String
  owner : String
  manager : String
  due : String
  status : AttestationStatus
  deriving DecidableEq

/-- The systems of record, as the service has read them. -/
structure Systems where
  policies : PolicyRepository
  controls : List Control
  tests : List TestResult
  tickets : List Ticket
  releases : List Release
  attestations : List Attestation

namespace Systems

variable (data : Systems)

/-- `ControlLibrary.get`: of several entries with one id the last. -/
def control (controlId : String) : Option Control :=
  data.controls.reverse.find? (fun c => c.controlId = controlId)

/-- `ControlLibrary.results`. -/
def results (controlId start end_ : String) : List TestResult :=
  data.tests.filter (fun t => t.controlId = controlId && inRange t.testedOn start end_)

/-- `TicketSystem.search("", control_id, start, end)`. -/
def ticketsOf (controlId start end_ : String) : List Ticket :=
  data.tickets.filter (fun t =>
    (controlId = "" || controlId ∈ t.controls) && inRange t.created start end_)

/-- `RegulatoryFeed.get`. -/
def release (releaseId : String) : Option Release :=
  data.releases.reverse.find? (fun r => r.releaseId = releaseId)

end Systems

def Policy.ref (d : Policy) : PolicyVersionRef :=
  ⟨d.policyId, d.version, d.effectiveDate, d.title, d.source, d.sha256⟩

/-! ## Gaps -/

/-- `math.ceil(months * per_month)` for the cadences that ask for tests.  The floating-point
product with 1/3 or 1/12 is exact where the quotient is whole, and rounds up as it elsewhere. -/
def testsNeeded (frequency : Frequency) (months : Int) : Option Int :=
  match frequency with
  | .monthly => some months
  | .quarterly => some ((months + 2) / 3)
  | .annual => some ((months + 11) / 12)
  | .unset => none

/-- `s.rstrip(": ")`. -/
def rstripColon (s : String) : String :=
  String.ofList (s.toList.reverse.dropWhile (fun c => c = ':' || c = ' ')).reverse

def notPassedGap (r : TestResult) : String :=
  rstripColon ("test " ++ r.testId ++ " on " ++ r.testedOn ++ " result=" ++ r.result.value ++
    ": " ++ r.notes)

/-- The gap in the number of tests, if there is one. -/
def countGap (frequency : Frequency) (results : List TestResult) (start end_ : String) :
    Except PyError (List String) :=
  if frequency = .unset then .ok []
  else do
    let months ← monthsInclusive start end_
    match testsNeeded frequency months with
    | none => return []
    | some needed =>
      return if (results.length : Int) < needed then
        ["expected at least " ++ toString needed ++ " " ++ frequency.value ++
          " test(s) in period, found " ++ toString results.length]
      else []

/-- `_detect_gaps`. -/
def detectGaps (frequency : Frequency) (results : List TestResult) (start end_ : String) :
    Except PyError (List String) := do
  let gaps ← countGap frequency results start end_
  return gaps ++ (results.filter (fun r => r.result ≠ .pass)).map notPassedGap

/-! ## The hash -/

def Control.json (c : Control) : Json :=
  .obj [("control_id", .str c.controlId), ("name", .str c.name),
    ("description", .str c.description), ("owner", .str c.owner),
    ("test_frequency", .str c.testFrequency.value), ("policies", .arr (c.policies.map .str)),
    ("regulations", .arr (c.regulations.map .str)), ("evidence", .arr (c.evidence.map .str))]

def TestResult.json (t : TestResult) : Json :=
  .obj [("test_id", .str t.testId), ("control_id", .str t.controlId),
    ("tested_on", .str t.testedOn), ("tester", .str t.tester), ("result", .str t.result.value),
    ("notes", .str t.notes)]

def Ticket.json (t : Ticket) : Json :=
  .obj [("ticket_id", .str t.ticketId), ("created", .str t.created), ("status", .str t.status),
    ("type", .str t.type.value), ("title", .str t.title), ("summary", .str t.summary),
    ("controls", .arr (t.controls.map .str)), ("policies", .arr (t.policies.map .str))]

def PolicyVersionRef.json (v : PolicyVersionRef) : Json :=
  .obj [("policy_id", .str v.policyId), ("version", .str v.version),
    ("effective_date", .str v.effectiveDate), ("title", .str v.title), ("source", .str v.source),
    ("sha256", .str v.sha256)]

/-- `unsigned.model_dump(exclude={"manifest_sha256"})`. -/
def EvidenceManifest.unsigned (m : EvidenceManifest) : Json :=
  .obj [("control", m.control.json), ("period_start", .str m.periodStart),
    ("period_end", .str m.periodEnd),
    ("policy_versions", .arr (m.policyVersions.map PolicyVersionRef.json)),
    ("test_results", .arr (m.testResults.map TestResult.json)),
    ("change_tickets", .arr (m.changeTickets.map Ticket.json)), ("gaps", .arr (m.gaps.map .str))]

variable (rt : Runtime)

/-- The hash of a manifest: SHA-256 of its canonical JSON, without itself. -/
def manifestDigest (m : EvidenceManifest) : HexDigest :=
  rt.sha256 (utf8 (dumps markerStyle m.unsigned))

/-- `compute_manifest`. -/
def computeManifest (data : Systems) (controlId start end_ : String) :
    Except PyError (Option EvidenceManifest) :=
  match data.control controlId with
  | none => .ok none
  | some control => do
    let results := data.results controlId start end_
    let gaps ← detectGaps control.testFrequency results start end_
    let m : EvidenceManifest := {
      control := control
      periodStart := start
      periodEnd := end_
      policyVersions := (control.policies.flatMap (fun pid =>
        (data.policies.versions pid).filter (fun v => v.isApproved && v.effectiveDate ≤
          end_))).map Policy.ref
      testResults := results
      changeTickets := data.ticketsOf controlId start end_
      gaps := gaps
      manifestSha256 := "" }
    return some { m with manifestSha256 := (manifestDigest rt m).text }

/-- `evidence_bundle`: the summary and the manifest. -/
def evidenceBundle (data : Systems) (controlId start end_ : String) :
    Except PyError (String × EvidenceManifest) := do
  validateRange (some start) (some end_)
  match ← computeManifest rt data controlId start end_ with
  | none => .error (.notFound ("unknown control " ++ controlId))
  | some m => return ("evidence for " ++ controlId ++ " " ++ start ++ ".." ++ end_ ++ ": " ++
      toString m.policyVersions.length ++ " policy versions, " ++ toString m.testResults.length ++
      " tests, " ++ toString m.changeTickets.length ++ " tickets, " ++
        toString m.gaps.length ++ " gap(s)", m)

end ComplianceMcp
