import ComplianceMcp.ReadTools
import ComplianceMcp.RateLimit
import ComplianceMcp.DraftFiling

/-! # Audited calls

Every public method of the service runs inside one wrapper.  It reads the version of the
directory, resolves and authorises the caller, takes a rate token, runs the body, writes a
record and translates what was raised into a `ToolError`.  The version is read before the
`try`, so what that read raises is neither recorded nor translated. -/
namespace ComplianceMcp

open PyText PyJson

/-! ## Calls and answers -/

/-- Who asked, and how we know. -/
structure CallerIdentity where
  requester : String
  fromHeader : Bool
  sessionId : String

inductive ServiceCall where
  | read (call : ReadCall)
  | draftCreate (a : DraftArgs)

inductive Answer where
  | result (r : ToolResult)
  | toolError (code : ErrorCode) (detail : String)
  | raised (e : PyError)

def ReadCall.tool : ReadCall → String
  | .policyLookup .. => "policy_lookup"
  | .policyGet .. => "policy_get"
  | .policyList => "policy_list"
  | .controlLookup .. => "control_lookup"
  | .controlTestResults .. => "control_test_results"
  | .regulatoryReleases .. => "regulatory_releases"
  | .regulatoryReleaseGet .. => "regulatory_release_get"
  | .ticketSearch .. => "ticket_search"
  | .attestationsDue .. => "attestations_due"
  | .evidenceBundle .. => "evidence_bundle"
  | .draftList .. => "draft_list"
  | .draftGet .. => "draft_get"

def ServiceCall.tool : ServiceCall → String
  | .read call => call.tool
  | .draftCreate _ => "draft_create"

/-- The group a method asks for. -/
def ServiceCall.group : ServiceCall → Option String
  | .read _ => none
  | .draftCreate _ => some ANALYST_GROUP

/-! ## What is persisted -/

/-- A `dict`, none of whose objects repeats a key. -/
abbrev ArgsDict := { d : Dict // (Json.obj d).distinctKeys = true }

/-- A field that is a text or `None`. -/
def optionalText : Option String → Json
  | none => .null
  | some s => .str s

theorem distinctKeys_optionalText (o : Option String) : (optionalText o).distinctKeys = true := by
  cases o <;> rfl

/-- `dict(kwargs)`. -/
def ReadCall.kwargs : ReadCall → Dict
  | .policyLookup query limit => [("query", .str query), ("limit", .int limit)]
  | .policyGet policyId asOf => [("policy_id", .str policyId), ("as_of", optionalText asOf)]
  | .policyList => []
  | .controlLookup controlId query => [("control_id", .str controlId), ("query", .str query)]
  | .controlTestResults controlId start end_ =>
    [("control_id", .str controlId), ("start", optionalText start), ("end", optionalText end_)]
  | .regulatoryReleases day source => [("since", .str day), ("source", .str source)]
  | .regulatoryReleaseGet releaseId => [("release_id", .str releaseId)]
  | .ticketSearch query controlId start end_ =>
    [("query", .str query), ("control_id", .str controlId), ("start", optionalText start),
      ("end", optionalText end_)]
  | .attestationsDue withinDays today =>
    [("within_days", .int withinDays), ("today", optionalText today)]
  | .evidenceBundle controlId start end_ =>
    [("control_id", .str controlId), ("start", .str start), ("end", .str end_)]
  | .draftList status => [("status", .str status.value)]
  | .draftGet draftId => [("draft_id", .str draftId)]

theorem ReadCall.kwargs_dict (call : ReadCall) : (Json.obj call.kwargs).distinctKeys = true := by
  rw [Json.distinctKeys_obj_iff]
  cases call <;> simp [kwargs, distinctKeys_optionalText]

variable (rt : Runtime)

/-- `_draft_audit_args`: everything except the body, which is hashed. -/
def draftAuditArgs (a : DraftArgs) : Dict :=
  [("kind", .str a.kind.value), ("title", .str a.title),
    ("body_sha256", .str (rt.sha256 (utf8 a.body.toList)).text),
    ("related_ids", .arr (a.relatedIds.map .str))]

theorem draftAuditArgs_dict (a : DraftArgs) :
    (Json.obj (draftAuditArgs rt a)).distinctKeys = true := by
  rw [Json.distinctKeys_obj_iff]
  simp [draftAuditArgs, Json.distinctKeys_strings]

/-- What the record of the call keeps of its arguments. -/
def ServiceCall.persisted : ServiceCall → ArgsDict
  | .read call => ⟨call.kwargs, call.kwargs_dict⟩
  | .draftCreate a => ⟨draftAuditArgs rt a, draftAuditArgs_dict rt a⟩

/-! ## The wrapper -/

/-- What calls change: the rate limiter, the drafts table and the records appended to the
audit log. -/
structure ServiceState where
  limiter : TokenBucketLimiter
  rows : List Row
  records : List Entry

/-- How an exception is recorded and answered. -/
structure Refusal where
  outcome : String
  summary : String
  code : ErrorCode
  detail : String

/-- The `except` branches of the wrapper. -/
def refusal : PyError → Refusal
  | .accessDenied message => ⟨"denied", message, .accessDenied, message⟩
  | .rateLimited message => ⟨"denied", message, .rateLimited, message⟩
  | .draftRejected message => ⟨"error", "draft_rejected: " ++ message, .draftRejected, message⟩
  | .invalidInput message => ⟨"error", "invalid_input: " ++ message, .invalidInput, message⟩
  | .validationError =>
    ⟨"error", "invalid_input: argument failed validation", .invalidInput,
      "argument failed validation"⟩
  | .notFound message => ⟨"error", "not_found: " ++ message, .notFound, message⟩
  | _ => ⟨"error", "internal_error", .internalError, "the tool failed; the error has been logged"⟩

/-- What a method brings to the wrapper: its name, the group it asks for, what is persisted of
its arguments, and its body. -/
structure Method where
  tool : String
  group : Option String
  args : ArgsDict
  body : User → List Row → Except PyError (ToolResult × List Row)

/-- `record(requester=…, outcome=…, result_summary=…)`; the append succeeds. -/
def ServiceState.record (s : ServiceState) (m : Method) (caller : CallerIdentity) (version : String)
    (requester outcome summary : String) : ServiceState :=
  { s with records := s.records ++ [{
      requester := requester
      tool := m.tool
      args := m.args.val
      outcome := outcome
      resultSummary := summary
      sessionId := caller.sessionId
      directoryVersion := version
      args_dict := m.args.property }] }

/-- An exception inside the `try` is recorded under the presented identity and answered. -/
def refuse (m : Method) (caller : CallerIdentity) (version : String) (s : ServiceState)
    (e : PyError) :
    Answer × ServiceState :=
  (.toolError (refusal e).code (refusal e).detail,
    s.record m caller version caller.requester (refusal e).outcome (refusal e).summary)

/-- `audited(…).wrapper`, on the version that was read, the users that the caller is looked up
in, and the reading of the limiter's clock. -/
def audited (m : Method) (version : Except PyError String)
    (users : Except PyError (List User)) (now : ℚ) (caller : CallerIdentity) (s : ServiceState) :
    Answer × ServiceState :=
  match version with
  | .error e => (.raised e, s)
  | .ok version =>
    match users with
    | .error e => refuse m caller version s e
    | .ok users =>
      match admitUser rt users s.limiter ⟨caller.requester, m.group, now⟩ with
      | (.error e, limiter) => refuse m caller version { s with limiter } e
      | (.ok user, limiter) =>
        match m.body user s.rows with
        | .error e => refuse m caller version { s with limiter } e
        | .ok (r, rows) => (.result r, ServiceState.record { s with limiter, rows } m caller version
            user.upn "ok" r.summary)

/-! ## The methods -/

/-- What the service was built from. -/
structure Service where
  data : Systems
  allowClockOverride : Bool
  alnum : Char → Bool

/-- What a call draws from its surroundings: the day, the id and the time of a new draft, and
whether the drafts database raises. -/
structure Surroundings where
  today : Date
  draftId : String
  created : String
  storeFails : Bool

/-- The tool reads the drafts database. -/
def ReadCall.readsDrafts : ReadCall → Bool
  | .draftList _ => true
  | .draftGet _ => true
  | _ => false

/-- The summary of `DraftCreateResult`. -/
def queuedSummary (draftId : String) (kind : DraftKind) : String :=
  "draft " ++ draftId ++ " (" ++ kind.value ++ ") queued for human review"

/-- `draft_create`, with the insert. -/
def fileDraft (svc : Service) (env : Surroundings) (a : DraftArgs) (user : User) (rows : List Row) :
    Except PyError (ToolResult × List Row) := do
  let d ← draftCreate rt svc.alnum svc.data a user.upn env.draftId env.created
  if env.storeFails ∨ d.draftId ∈ rows.map Row.draftId then .error .other
  else return (⟨queuedSummary d.draftId a.kind, .filed d.draftId d.status⟩, rows ++ [rowOf d])

/-- A read tool; it leaves the drafts as they are. -/
def readRows (svc : Service) (env : Surroundings) (call : ReadCall) (rows : List Row) :
    Except PyError (ToolResult × List Row) :=
  if env.storeFails ∧ call.readsDrafts = true then .error .other
  else (runRead rt ⟨svc.data, rows, svc.allowClockOverride, env.today⟩ call).map
    (fun r => (r, rows))

/-- The method behind a call. -/
def ServiceCall.method (svc : Service) (env : Surroundings) (call : ServiceCall) : Method where
  tool := call.tool
  group := call.group
  args := call.persisted rt
  body := fun user rows => match call with
    | .read c => readRows rt svc env c rows
    | .draftCreate a => fileDraft rt svc env a user rows

/-! ## What one call does -/

section Wrapper

variable {rt} {m : Method} {version : Except PyError String}
  {users : Except PyError (List User)} {now : ℚ} {caller : CallerIdentity} {s : ServiceState}

/-- The outcome that goes with an error code. -/
def ErrorCode.outcome : ErrorCode → String
  | .accessDenied => "denied"
  | .rateLimited => "denied"
  | _ => "error"

theorem refusal_outcome (e : PyError) : (refusal e).outcome = (refusal e).code.outcome := by
  cases e <;> rfl

theorem refusal_code (e : PyError) : (refusal e).code = e.code := by
  cases e <;> rfl

/-- **The four ways a call ends.** -/
theorem audited_cases :
    (∃ e, version = .error e ∧ audited rt m version users now caller s = (.raised e, s)) ∨
    (∃ v e, version = .ok v ∧ users = .error e ∧
      audited rt m version users now caller s = refuse m caller v s e) ∨
    (∃ v us e limiter, version = .ok v ∧ users = .ok us ∧
      admitUser rt us s.limiter ⟨caller.requester, m.group, now⟩ = (.error e, limiter) ∧
      audited rt m version users now caller s = refuse m caller v { s with limiter } e) ∨
    (∃ v us user limiter, version = .ok v ∧ users = .ok us ∧
      admitUser rt us s.limiter ⟨caller.requester, m.group, now⟩ = (.ok user, limiter) ∧
      ((∃ e, m.body user s.rows = .error e ∧
          audited rt m version users now caller s = refuse m caller v { s with limiter } e) ∨
        ∃ r rows, m.body user s.rows = .ok (r, rows) ∧ audited rt m version users now caller s =
          (.result r, ServiceState.record { s with limiter, rows } m caller v user.upn "ok"
            r.summary))) := by
  unfold audited
  cases version with
  | error e => exact Or.inl ⟨e, rfl, rfl⟩
  | ok v =>
    cases users with
    | error e => exact Or.inr (Or.inl ⟨v, e, rfl, rfl, rfl⟩)
    | ok us =>
      refine Or.inr (Or.inr ?_)
      rcases hgate : admitUser rt us s.limiter ⟨caller.requester, m.group, now⟩ with ⟨r, limiter⟩
      cases r with
      | error e => exact Or.inl ⟨v, us, e, limiter, rfl, rfl, hgate, by simp only [hgate]⟩
      | ok user =>
        refine Or.inr ⟨v, us, user, limiter, rfl, rfl, hgate, ?_⟩
        cases hbody : m.body user s.rows with
        | error e => exact Or.inl ⟨e, rfl, by simp only [hgate, hbody]⟩
        | ok r => exact Or.inr ⟨r.1, r.2, rfl, by simp only [hgate, hbody]⟩

theorem records_refuse (v : String) (e : PyError) : ∃ entry : Entry,
    (refuse m caller v s e).2.records = s.records ++ [entry] ∧
    entry.outcome = (refusal e).code.outcome ∧
      entry.requester = caller.requester :=
  ⟨_, rfl, refusal_outcome e, rfl⟩

theorem rows_of_readRows {svc : Service} {env : Surroundings} {call : ReadCall}
    {rows rows' : List Row} {r : ToolResult} (h : readRows rt svc env call rows = .ok (r, rows')) :
    rows' = rows := by
  unfold readRows at h
  split at h
  · cases h
  cases hrun : runRead rt ⟨svc.data, rows, svc.allowClockOverride, env.today⟩ call with
  | error e =>
    rw [hrun] at h
    cases h
  | ok r' =>
    rw [hrun] at h
    cases h
    rfl

/-- The call is answered, and one record goes with the answer: `ok` with a result, `denied`
with `access_denied` and `rate_limited`, `error` with every other code. -/
def AnsweredOnce (s : ServiceState) (r : Answer × ServiceState) : Prop :=
  ∃ entry : Entry, r.2.records = s.records ++ [entry] ∧ match r.1 with
    | .result _ => entry.outcome = "ok"
    | .toolError code _ => entry.outcome = code.outcome
    | .raised _ => False

theorem answeredOnce_refuse (v : String) (e : PyError) (limiter : TokenBucketLimiter) :
    AnsweredOnce s (refuse m caller v { s with limiter } e) := by
  obtain ⟨entry, hrec, hout, -⟩ := @records_refuse m caller { s with limiter } v e
  exact ⟨entry, hrec, hout⟩

/-- Once the version has been read, every call is answered and recorded. -/
theorem audited_answeredOnce_iff :
    AnsweredOnce s (audited rt m version users now caller s) ↔ ∃ v, version = .ok v := by
  obtain ⟨e, hv, h⟩ | ⟨v, e, hv, -, h⟩ | ⟨v, -, e, limiter, hv, -, -, h⟩ |
      ⟨v, -, user, limiter, hv, -, -, h⟩ :=
    @audited_cases rt m version users now caller s
  · rw [h]
    constructor
    · rintro ⟨entry, hrec, hf⟩
      exact hf.elim
    · rintro ⟨v, hv'⟩
      cases hv.symm.trans hv'
  · rw [h]
    exact iff_of_true (answeredOnce_refuse v e s.limiter) ⟨v, hv⟩
  · rw [h]
    exact iff_of_true (answeredOnce_refuse v e limiter) ⟨v, hv⟩
  · refine iff_of_true ?_ ⟨v, hv⟩
    obtain ⟨e, -, h⟩ | ⟨r, rows, -, h⟩ := h
    · rw [h]
      exact answeredOnce_refuse v e limiter
    · rw [h]
      exact ⟨_, rfl, rfl⟩

end Wrapper

/-! ## The directory at a call -/

/-- How `users.json` looks to the reload of the version and to the reload of `resolve`, and
when they happen. -/
structure DirectoryViews where
  first : FileView
  firstNow : Int
  second : FileView
  secondNow : Int

section Serve

variable (parse : Bytes → Except PyError (List User)) (ttl : Int)

/-- `self._directory.version`. -/
def readVersion (views : DirectoryViews) (dir : Directory) : Except PyError String × Directory :=
  let r := load rt parse ttl views.firstNow false views.first dir
  (r.1.map (fun _ => r.2.version), r.2)

/-- The users that `resolve` looks the caller up in. -/
def readUsers (views : DirectoryViews) (dir : Directory) : Except PyError (List User) × Directory :=
  let r := load rt parse ttl views.secondNow false views.second dir
  (r.1.map (fun _ => r.2.users), r.2)

/-- A call of a method of the service. -/
def serve (svc : Service) (env : Surroundings) (views : DirectoryViews) (now : ℚ)
    (caller : CallerIdentity) (call : ServiceCall) (dir : Directory) (s : ServiceState) :
    Answer × ServiceState :=
  let version := readVersion rt parse ttl views dir
  let users := readUsers rt parse ttl views version.2
  audited rt (call.method rt svc env) version.1 users.1 now caller s

/-- The version can be read: the file is not looked at again yet, is as old as it was, or is
there and parses. -/
def VersionReadable (views : DirectoryViews) (dir : Directory) : Prop :=
  views.firstNow - dir.checkedAt < ttl ∨ views.first.mtime = some dir.mtime ∨
    ∃ f users, views.first = .there f ∧ parse f.raw = .ok users

variable {rt parse ttl}

theorem readVersion_ok_iff {views : DirectoryViews} {dir : Directory} :
    (∃ v, (readVersion rt parse ttl views dir).1 = .ok v) ↔
    VersionReadable parse ttl views dir := by
  unfold readVersion VersionReadable load
  by_cases httl : views.firstNow - dir.checkedAt < ttl
  · refine iff_of_true ?_ (Or.inl httl)
    simp [httl, Except.map]
  simp only [httl, false_or]
  cases views.first with
  | missing => simp [FileView.mtime, Except.map]
  | unreadable mtime =>
    by_cases hm : mtime = dir.mtime
    · simp [FileView.mtime, hm, Except.map]
    · simp [FileView.mtime, hm, Except.map]
  | there f =>
    by_cases hm : f.mtime = dir.mtime
    · simp [FileView.mtime, hm, Except.map]
    · cases hp : parse f.raw with
      | error e => simp [FileView.mtime, hm, hp, Except.map]
      | ok users => simp [FileView.mtime, hm, hp, Except.map]

end Serve

/-- **A call is answered and recorded once, unless the version of the directory cannot be
read.**  For every method and its arguments, every caller, every state of the limiter, the
drafts and the data, and every way `users.json` may look to the two reloads. -/
theorem answered_once_iff (rt : Runtime) (parse : Bytes → Except PyError (List User)) (ttl : Int)
    (svc : Service) (env : Surroundings) (views : DirectoryViews) (now : ℚ)
    (caller : CallerIdentity) (call : ServiceCall) (dir : Directory) (s : ServiceState) :
    AnsweredOnce s (serve rt parse ttl svc env views now caller call dir s) ↔
      VersionReadable parse ttl views dir := by
  unfold serve
  rw [audited_answeredOnce_iff]
  exact readVersion_ok_iff

/-- A directory that was last checked at time zero. -/
def sampleDirectory : Directory := ⟨some ⟨[], []⟩, "", 1, 0⟩

def sampleService : Service := ⟨sampleSystems, false, fun _ => false⟩

def sampleSurroundings : Surroundings := ⟨⟨2026, 2, 1⟩, "D-1", "2026-02-01T09:00:00Z", false⟩

/-- A note that nothing is checked for. -/
def noteDraft : DraftArgs :=
  ⟨.controlFindingNote, "Late reconciliation", "Control CTL-1 ran late.", []⟩

/-- **A call raises and leaves no record**: `users.json` has gone since the last check. -/
theorem missing_directory_raises :
    ¬ AnsweredOnce ⟨.new 120 none, [], []⟩
      (serve Runtime.python (fun _ => .error .keyError) 60 sampleService
      sampleSurroundings ⟨.missing, 100, .missing, 100⟩ 0 ⟨"ana@firm.example", false, "s1"⟩
        (.read .policyList)
      sampleDirectory ⟨.new 120 none, [], []⟩) := by
  rintro ⟨entry, hrec, h⟩
  exact h

end ComplianceMcp
