import ComplianceMcp.EvidenceManifest
import ComplianceMcp.PolicyFiles
import ComplianceMcp.FeedCache
import ComplianceMcp.AuditFile

/-! # Loading the systems of record

Every adapter reads its file when the service starts and checks each record against a model:
required fields, no others, and the type of each.  A date is checked by its pattern; that the
calendar has it is checked for the effective date of a policy only. -/
namespace ComplianceMcp

open PyText PyJson Files

variable (rt : Runtime)

/-! ## Fields -/

/-- `_load_json(path)`. -/
def loadJson (content : Bytes) : Except PyError Json :=
  match decodeUtf8 content with
  | none => .error .unicodeDecodeError
  | some t => loadsText rt (universal t)

/-- A record has no field beside these. -/
def onlyFields (fields : List String) : Json → Except PyError Dict
  | .obj d => if d.any (fun f => f.1 ∉ fields) then .error .validationError else .ok d
  | _ => .error .validationError

/-- A field of type `str` with a default. -/
def strFieldOr (d : Dict) (k default : String) : Except PyError String :=
  match Json.get d k with
  | none => .ok default
  | some (.str s) => .ok s
  | some _ => .error .validationError

/-- A field of type `tuple[str, ...]`, by default empty. -/
def strsField (d : Dict) (k : String) : Except PyError (List String) :=
  match Json.get d k with
  | none => .ok []
  | some (.arr xs) => stringsOf xs
  | some _ => .error .validationError

/-- A field of type `IsoDate`. -/
def dateField (d : Dict) (k : String) : Except PyError String := do
  let s ← strField d k
  if isDateText s.toList then .ok s else .error .validationError

/-- The member of a `Literal` the text stands for. -/
def literal {α : Type} (members : List (String × α)) (s : String) : Except PyError α :=
  match members.lookup s with
  | some a => .ok a
  | none => .error .validationError

/-! ## Records -/

def Frequency.members : List (String × Frequency) :=
  [Frequency.monthly, .quarterly, .annual, .unset].map (fun f => (f.value, f))

def TestOutcome.members : List (String × TestOutcome) :=
  [TestOutcome.pass, .fail, .partial_, .notTested].map (fun r => (r.value, r))

def TicketType.members : List (String × TicketType) :=
  [TicketType.change, .incident, .task].map (fun t => (t.value, t))

def AttestationStatus.members : List (String × AttestationStatus) :=
  [("open", .open_), ("complete", .complete), ("overdue", .overdue)]

/-- `Control.model_validate(raw)`. -/
def validateControl (raw : Json) : Except PyError Control := do
  let d ← onlyFields ["control_id", "name", "description", "owner", "test_frequency", "policies",
    "regulations", "evidence"] raw
  return {
    controlId := ← strField d "control_id"
    name := ← strField d "name"
    description := ← strField d "description"
    owner := ← strField d "owner"
    testFrequency := ← literal Frequency.members (← strFieldOr d "test_frequency" "")
    policies := ← strsField d "policies"
    regulations := ← strsField d "regulations"
    evidence := ← strsField d "evidence" }

/-- `TestResult.model_validate(raw)`. -/
def validateTestResult (raw : Json) : Except PyError TestResult := do
  let d ← onlyFields ["test_id", "control_id", "tested_on", "tester", "result", "notes"] raw
  return {
    testId := ← strField d "test_id"
    controlId := ← strField d "control_id"
    testedOn := ← dateField d "tested_on"
    tester := ← strField d "tester"
    result := ← literal TestOutcome.members (← strField d "result")
    notes := ← strFieldOr d "notes" "" }

/-- `Ticket.model_validate(raw)`. -/
def validateTicket (raw : Json) : Except PyError Ticket := do
  let d ← onlyFields ["ticket_id", "created", "status", "type", "title", "summary", "controls",
    "policies"] raw
  return {
    ticketId := ← strField d "ticket_id"
    created := ← dateField d "created"
    status := ← strField d "status"
    type := ← literal TicketType.members (← strField d "type")
    title := ← strField d "title"
    summary := ← strFieldOr d "summary" ""
    controls := ← strsField d "controls"
    policies := ← strsField d "policies" }

/-- `Attestation.model_validate(raw)`. -/
def validateAttestation (raw : Json) : Except PyError Attestation := do
  let d ← onlyFields ["attestation_id", "type", "owner", "manager", "due", "status"] raw
  return {
    attestationId := ← strField d "attestation_id"
    type := ← strField d "type"
    owner := ← strField d "owner"
    manager := ← strField d "manager"
    due := ← dateField d "due"
    status := ← literal AttestationStatus.members (← strField d "status") }

/-- `[Model.model_validate(raw) for raw in data[key]]`. -/
def loadItems {α : Type} (validate : Json → Except PyError α) (key : String) (data : Json) :
    Except PyError (List α) := do
  (← iterate (← getItem data key)).mapM validate

/-! ## The data directory -/

/-- `settings.data_dir`, as far as the adapters read it. -/
structure DataDir where
  policies : PolicyDir
  controls : Bytes
  tickets : Bytes
  feed : Dir Bytes
  attestations : Bytes

/-- The files of the feed, in the order of their names. -/
def DataDir.feedFiles (dir : DataDir) : List Bytes :=
  (dir.feed.sortedNames (fun n => ".json".toList.isSuffixOf n.toList)).filterMap dir.feed.read

/-- The five adapters, as `ComplianceService` constructs them. -/
def loadSystems (dataDir : String) (dir : DataDir) : Except PyError Systems := do
  let policies ← loadPolicies rt dataDir dir.policies
  let grc ← loadJson rt dir.controls
  let controls ← loadItems validateControl "controls" grc
  let tests ← loadItems validateTestResult "test_results" grc
  let tickets ← loadItems validateTicket "tickets" (← loadJson rt dir.tickets)
  let releases ← loadFeed (← dir.feedFiles.mapM (loadJson rt))
  let attestations ← loadItems validateAttestation "attestations" (← loadJson rt dir.attestations)
  return ⟨policies, controls, tests, tickets, releases, attestations⟩

end ComplianceMcp
