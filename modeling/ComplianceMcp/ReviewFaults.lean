import ComplianceMcp.FilingFaults
import ComplianceMcp.ReviewCommand
import ComplianceMcp.AuditExcerpt
import ComplianceMcp.Raises

/-! # What a review command leaves behind

`approve`, `reject` and `export` act first and write their record afterwards, and of what is
raised on the way only refusals are caught and recorded.  `command_recorded_iff` says when an
invocation has its effect on record and leaves one record, on every state of the data and
whichever step fails. -/
namespace ComplianceMcp

open PyText PyJson Files Raises

/-! ## Invocations -/

/-- The arguments of `export`: the draft, who runs the command, and the path of the zip. -/
structure ExportArgs where
  draftId : String
  exporter : String
  path : String

inductive Invocation where
  | review (settings : ReviewSettings) (args : ReviewArgs) (osUser : String)
  | export_ (args : ExportArgs)

/-- The action the record names. -/
def Invocation.tool : Invocation → String
  | .review _ args _ => "draft_" ++ args.cmd.decision.value
  | .export_ _ => "evidence_export"

def Invocation.draftId : Invocation → String
  | .review _ args _ => args.draftId
  | .export_ args => args.draftId

/-- Where writing the zip raises: before there is a file, or when something of it is written. -/
inductive PackFault where
  | unwritten
  | partly

/-- What an invocation draws from its surroundings: what building its objects and the service
yields, how `users.json` and the documents look, and the step that raises. -/
structure CommandDraw where
  store : Except PyError Unit
  views : CommandViews
  audit : Except PyError Unit
  getFails : Bool
  at_ : String
  decideFault : Option DecideFault
  service : Except PyError Systems
  documents : String → Option Bytes
  excerptFails : Bool
  packFault : Option PackFault
  record : WriteDraw

/-- What invocations change.  `landed` are the entries whose records are in the chain. -/
structure CommandState where
  rows : List Row
  packs : List Pack
  world : World
  landed : List Entry

inductive CommandEnd where
  | done
  | refused
  | raised (e : PyError)

/-- How an invocation ends, what it leaves, and whether it called `write` and that raised. -/
structure CommandRun where
  ended : CommandEnd
  state : CommandState
  appendRaised : Bool

/-! ## Records -/

def decisionEntry (args : ReviewArgs) (osUser : String) (approver : User) (d : Draft)
    (version : String) : Entry where
  requester := approver.upn
  tool := "draft_" ++ args.cmd.decision.value
  args := [("draft_id", .str args.draftId), ("content_sha256", .str d.contentSha256),
    ("note", .str args.note), ("os_user", .str osUser)]
  outcome := "ok"
  resultSummary := args.draftId ++ " " ++ args.cmd.decision.value
  sessionId := ""
  directoryVersion := version
  args_dict := by
    rw [Json.distinctKeys_obj_iff]
    simp

def deniedEntry (args : ReviewArgs) (osUser message version : String) : Entry where
  requester := args.presented.shown
  tool := "draft_" ++ args.cmd.decision.value
  args := [("draft_id", .str args.draftId), ("os_user", .str osUser)]
  outcome := "denied"
  resultSummary := message
  sessionId := ""
  directoryVersion := version
  args_dict := by
    rw [Json.distinctKeys_obj_iff]
    simp

def exportEntry (args : ExportArgs) (size : Nat) (pack : Pack) (version : String) : Entry where
  requester := args.exporter
  tool := "evidence_export"
  args := [("draft_id", .str args.draftId), ("path", .str args.path),
    ("manifest_sha256", .str pack.manifest.manifestSha256)]
  outcome := "ok"
  resultSummary := args.draftId ++ " exported (" ++ toString size ++ " bytes)"
  sessionId := ""
  directoryVersion := version
  args_dict := by
    rw [Json.distinctKeys_obj_iff]
    simp

def exportDeniedEntry (args : ExportArgs) (message version : String) : Entry where
  requester := args.exporter
  tool := "evidence_export"
  args := [("draft_id", .str args.draftId)]
  outcome := "denied"
  resultSummary := message
  sessionId := ""
  directoryVersion := version
  args_dict := by
    rw [Json.distinctKeys_obj_iff]
    simp

/-! ## The commands -/

/-- `except (AccessDenied, DraftConflict)`. -/
def denial : PyError → Option String
  | .accessDenied message => some message
  | .draftConflict message => some message
  | _ => none

/-- `except ExportRefused`. -/
def exportDenial : PyError → Option String
  | .exportRefused message => some message
  | _ => none

/-- What is done before the record is written: the entry of the record, but for the version of
the directory, and the state. -/
structure Attempt where
  result : Except PyError (String → Entry)
  state : CommandState

section Commands

variable (rt : Runtime) (clock : Nat → String) (log : AuditLog)

/-- Reads the version of the directory and writes the record. -/
def closeWith (ended : CommandEnd) (version : Except PyError String) (entry : String → Entry)
    (draw : WriteDraw) (s : CommandState) : CommandRun :=
  match version with
  | .error e => ⟨.raised e, s, false⟩
  | .ok v =>
    let c : Call := ⟨entry v, draw.stamp, draw.markerStamp⟩
    let r := writeWith rt clock log c s.world draw.fault
    let s := { s with
      world := r.2
      landed := if lands rt log c s.world draw.fault then s.landed ++ [entry v] else s.landed }
    match r.1 with
    | .ok _ => ⟨ended, s, false⟩
    | .error e => ⟨.raised e, s, true⟩

/-- A refusal is caught and recorded, everything else is raised; neither the version nor the
record raises a refusal. -/
def conclude (message : PyError → Option String) (denied : String → String → Entry)
    (version : Except PyError String) (draw : WriteDraw) (a : Attempt) : CommandRun :=
  match a.result with
  | .ok entry => closeWith rt clock log .done version entry draw a.state
  | .error e =>
    match message e with
    | some m => closeWith rt clock log .refused version (denied m) draw a.state
    | none => ⟨.raised e, a.state, false⟩

variable (decode : TokenDecoder) (parse : Bytes → Except PyError (List User)) (ttl : Int)
  (packSize : Pack → Nat)

/-- `DraftStore(…)`, `Directory(…)` and `AuditLog(…)`. -/
def setUp (draw : CommandDraw) : Except PyError Directory := do
  draw.store
  let dir ← openDirectory rt parse ttl draw.views
  draw.audit
  return dir

/-- `approve` and `reject`, up to the record of the decision. -/
def reviewAttempt (settings : ReviewSettings) (args : ReviewArgs) (osUser : String)
    (draw : CommandDraw) (dir : Directory) (s : CommandState) : Attempt :=
  match examine rt decode settings args (readUsers rt parse ttl draw.views.later dir).1
      (foundDraft rt s.rows args.draftId draw.getFails) with
  | .error e => ⟨.error e, s⟩
  | .ok approver =>
    let r := decideDraft rt (args.decideArgs approver draw.at_) draw.decideFault s.rows
    ⟨r.1.map (decisionEntry args osUser approver), { s with rows := r.2 }⟩

/-- The directory when its version is read: it has been consulted if the identity is established. -/
def directoryAfter (settings : ReviewSettings) (args : ReviewArgs) (views : CommandViews)
    (dir : Directory) : Directory :=
  match approverIdentity decode settings args.presented with
  | .error _ => dir
  | .ok _ => (readUsers rt parse ttl views.later dir).2

/-- `audit_lines_for(…)`. -/
def excerptOf (draftId : String) (draw : CommandDraw) (w : World) : Except PyError (List Text) :=
  if draw.excerptFails then .error .other else auditLinesFor draftId log.path w.dir

/-- The pack of a manifest. -/
def packOf (args : ExportArgs) (draw : CommandDraw) (w : World) (draft : Draft)
    (controlId : String) :
    Option EvidenceManifest → Except PyError Pack
  | none => .error (.exportRefused ("unknown control " ++ controlId))
  | some m => do
    let lines ← excerptOf log args.draftId draw w
    buildPack rt draw.documents (lines.map String.ofList) args.exporter draft m

/-- The pack of a draft, or why there is none. -/
def packFor (args : ExportArgs) (draw : CommandDraw) (w : World) :
    Option Draft → Except PyError Pack
  | none => .error (.exportRefused ("no draft " ++ args.draftId))
  | some draft =>
    match periodFromTitle draft.title with
    | none => .error (.exportRefused "draft title does not identify a control and period")
    | some (c, s, e) => do
      let data ← draw.service
      let m ← computeManifest rt data c s e
      packOf rt log args draw w draft c m

/-- `_export`, up to the record of the export. -/
def exportAttempt (args : ExportArgs) (draw : CommandDraw) (s : CommandState) : Attempt :=
  match (foundDraft rt s.rows args.draftId draw.getFails).bind
    (packFor rt log args draw s.world) with
  | .error e => ⟨.error e, s⟩
  | .ok pack =>
    match draw.packFault with
    | some .unwritten => ⟨.error .other, s⟩
    | some .partly => ⟨.error .other, { s with packs := s.packs ++ [pack] }⟩
    | none => ⟨.ok (exportEntry args (packSize pack) pack), { s with packs := s.packs ++ [pack] }⟩

/-- `main`, for a command line that parses as one of the three. -/
def runCommand (inv : Invocation) (draw : CommandDraw) (s : CommandState) : CommandRun :=
  match setUp rt parse ttl draw with
  | .error e => ⟨.raised e, s, false⟩
  | .ok dir =>
    let s := { s with world := construct log s.world }
    match inv with
    | .review settings args osUser =>
      conclude rt clock log denial (deniedEntry args osUser)
        (readVersion rt parse ttl draw.views.later
          (directoryAfter rt decode parse ttl settings args draw.views dir)).1
        draw.record (reviewAttempt rt decode parse ttl settings args osUser draw dir s)
    | .export_ args =>
      conclude rt clock log exportDenial (exportDeniedEntry args)
        (readVersion rt parse ttl draw.views.later dir).1
        draw.record (exportAttempt rt log packSize args draw s)

end Commands

/-! ## What is promised -/

/-- A draft has another status, or a pack has been written. -/
def Affects (s t : CommandState) : Prop :=
  t.rows.map (fun r => (r.draftId, r.status)) ≠ s.rows.map (fun r => (r.draftId, r.status)) ∨
  t.packs ≠ s.packs

/-- The entry is about this action on this draft. -/
structure Concerns (inv : Invocation) (e : Entry) : Prop where
  tool : e.tool = inv.tool
  draft : Json.get e.args "draft_id" = some (.str inv.draftId)

/-- **Nothing is done off the record**: with an effect an `ok` record of the action lands, and
unless the append raises there is exactly one new record, `ok` or `denied`. -/
structure OnTheRecord (inv : Invocation) (s : CommandState) (r : CommandRun) : Prop where
  effect : Affects s r.state → ∃ e, r.state.landed = s.landed ++ [e] ∧ Concerns inv e ∧
    e.outcome = "ok"
  one : r.appendRaised = false →
    ∃ e, r.state.landed = s.landed ++ [e] ∧ Concerns inv e ∧
    (e.outcome = "ok" ∨ e.outcome = "denied")

section Conditions

variable (rt : Runtime) (log : AuditLog) (decode : TokenDecoder)
  (parse : Bytes → Except PyError (List User)) (ttl : Int) (packSize : Pack → Nat)

/-- A refusal of `approve` and `reject`. -/
def Denies (e : PyError) : Prop := (denial e).isSome = true

/-- A refusal of `export`. -/
def Refuses (e : PyError) : Prop := (exportDenial e).isSome = true

/-- The whole record of this entry gets to the file. -/
def Lands (draw : WriteDraw) (w : World) (e : Entry) : Prop :=
  lands rt log ⟨e, draw.stamp, draw.markerStamp⟩ w draw.fault = true

instance (draw : WriteDraw) (w : World) (e : Entry) : Decidable (Lands rt log draw w e) :=
  inferInstanceAs (Decidable (lands rt log ⟨e, draw.stamp, draw.markerStamp⟩ w draw.fault = true))

/-- The command passes its checks as this approver. -/
abbrev PassesChecks (settings : ReviewSettings) (args : ReviewArgs) (draw : CommandDraw)
    (dir : Directory) (rows : List Row) (approver : User) : Prop :=
  Established rt decode settings args (readUsers rt parse ttl draw.views.later dir).1
    (foundDraft rt rows args.draftId draw.getFails) approver

/-- What `approve` and `reject` need: every step that is reached has its result or refuses, the
version of the directory can be read, and a decision that commits lands its record. -/
structure ReviewKeeps (settings : ReviewSettings) (args : ReviewArgs) (osUser : String)
    (draw : CommandDraw) (dir : Directory) (s : CommandState) : Prop where
  identity : OnlyRaises Denies (approverIdentity decode settings args.presented)
  users : ∀ upn, approverIdentity decode settings args.presented = .ok upn →
    OnlyRaises Denies (readUsers rt parse ttl draw.views.later dir).1
  draft : ∀ upn us approver, approverIdentity decode settings args.presented = .ok upn →
    (readUsers rt parse ttl draw.views.later dir).1 = .ok us →
    requireApprover rt us upn = .ok approver →
    OnlyRaises Denies (foundDraft rt s.rows args.draftId draw.getFails)
  decision : ∀ approver, PassesChecks rt decode parse ttl settings args draw dir s.rows approver →
    draw.decideFault ≠ some .beforeCommit ∧
    (s.rows.countP (matchesPending (args.decideArgs approver draw.at_)) = 1 →
      draw.decideFault ≠ some .afterCommit)
  version : ∃ v, (readVersion rt parse ttl draw.views.later
    (directoryAfter rt decode parse ttl settings args draw.views dir)).1 = .ok v
  record : ∀ approver v d, PassesChecks rt decode parse ttl settings args draw dir s.rows approver →
    commits (args.decideArgs approver draw.at_) draw.decideFault s.rows = true →
    getDraft rt (decideRows (args.decideArgs approver draw.at_) s.rows) args.draftId =
      .ok (some d) →
    (readVersion rt parse ttl draw.views.later
      (directoryAfter rt decode parse ttl settings args draw.views dir)).1 = .ok v →
    Lands rt log draw.record s.world (decisionEntry args osUser approver d v)

/-- The documents can be read up to the first that does not match. -/
def DocumentsReadable (documents : String → Option Bytes) : List PolicyVersionRef → Prop
  | [] => True
  | ref :: refs => ∃ content, documents ref.source = some content ∧
      ((rt.sha256 content).text = ref.sha256 → DocumentsReadable documents refs)

/-- A draft whose title names a control and a period can be packed or is refused: the service
can be built, the manifest computed, the audit file read, and if the draft is an approved
index the documents. -/
def PackReadable (args : ExportArgs) (draw : CommandDraw) (w : World) (draft : Draft) : Prop :=
  ∀ c s e, periodFromTitle draft.title = some (c, s, e) → OnlyRaises Refuses draw.service ∧
    ∀ data, draw.service = .ok data → OnlyRaises Refuses (computeManifest rt data c s e) ∧
      ∀ m, computeManifest rt data c s e = .ok (some m) →
      OnlyRaises Refuses (excerptOf log args.draftId draw w) ∧
        ∀ lines, excerptOf log args.draftId draw w = .ok lines → draft.kind = .evidencePackIndex →
          draft.status = .approved → draft.decision.isSome = true →
          DocumentsReadable rt draw.documents m.policyVersions

/-- What `export` needs. -/
structure ExportKeeps (args : ExportArgs) (draw : CommandDraw) (dir : Directory)
    (s : CommandState) : Prop where
  draft : OnlyRaises Refuses (foundDraft rt s.rows args.draftId draw.getFails)
  pack : ∀ draft, foundDraft rt s.rows args.draftId draw.getFails = .ok (some draft) →
    PackReadable rt log args draw s.world draft
  written : ∀ found pack, foundDraft rt s.rows args.draftId draw.getFails = .ok found →
    packFor rt log args draw s.world found = .ok pack → draw.packFault = none
  version : ∃ v, (readVersion rt parse ttl draw.views.later dir).1 = .ok v
  record : ∀ found pack v, foundDraft rt s.rows args.draftId draw.getFails = .ok found →
    packFor rt log args draw s.world found = .ok pack →
    (readVersion rt parse ttl draw.views.later dir).1 = .ok v →
    Lands rt log draw.record s.world (exportEntry args (packSize pack) pack v)

/-- **When an invocation keeps what is promised**: its objects can be built, and every step it gets
to has its result or refuses, up to the record of what it has done. -/
def Keeps (inv : Invocation) (draw : CommandDraw) (s : CommandState) : Prop :=
  ∃ dir, setUp rt parse ttl draw = .ok dir ∧
    match inv with
    | .review settings args osUser =>
      ReviewKeeps rt log decode parse ttl settings args osUser draw dir
        { s with world := construct log s.world }
    | .export_ args => ExportKeeps rt log parse ttl packSize args draw dir
        { s with world := construct log s.world }

end Conditions

/-! ## The last step -/

section Conclude

variable {rt : Runtime} {clock : Nat → String} {log : AuditLog} {inv : Invocation}
  {s : CommandState} {message : PyError → Option String} {denied : String → String → Entry}
  {version : Except PyError String} {draw : WriteDraw} {t : CommandState}

/-- What writing the record leaves. -/
theorem closeWith_ok {ended : CommandEnd} {entry : String → Entry} {v : String} :
    ∃ ended' w raised, closeWith rt clock log ended (.ok v) entry draw s = ⟨ended', { s with
      world := w
      landed := if Lands rt log draw s.world (entry v) then s.landed ++ [entry v]
        else s.landed }, raised⟩ ∧
      (raised = false → Lands rt log draw s.world (entry v)) := by
  unfold closeWith Lands
  dsimp only
  cases hr : (writeWith rt clock log ⟨entry v, draw.stamp, draw.markerStamp⟩ s.world draw.fault).1
    with
  | error e => exact ⟨_, _, _, rfl, fun h => by cases h⟩
  | ok r => exact ⟨_, _, _, rfl, fun _ => lands_of_isOk (by rw [hr]; rfl)⟩

/-- What is raised leaves no record. -/
theorem not_recorded {e : PyError} (h : t.landed = s.landed) :
    ¬ OnTheRecord inv s ⟨.raised e, t, false⟩ := by
  rintro ⟨-, hone⟩
  obtain ⟨entry, hlanded, -⟩ := hone rfl
  rw [h] at hlanded
  exact absurd hlanded (by simp)

/-- An attempt that has had its effect is recorded exactly if the version can be read and
the record lands. -/
theorem recorded_done {entry : String → Entry} (hlanded : t.landed = s.landed)
    (heffect : Affects s t) (hentry : ∀ v, Concerns inv (entry v) ∧ (entry v).outcome = "ok") :
    OnTheRecord inv s (conclude rt clock log message denied version draw ⟨.ok entry, t⟩) ↔
      (∃ v, version = .ok v) ∧ ∀ v, version = .ok v → Lands rt log draw t.world (entry v) := by
  have hconclude : conclude rt clock log message denied version draw ⟨.ok entry, t⟩ =
      closeWith rt clock log .done version entry draw t := rfl
  rw [hconclude]
  cases version with
  | error e =>
    exact iff_of_false (not_recorded hlanded) (fun h => by cases h.1.choose_spec)
  | ok v =>
    obtain ⟨ended, w, raised, hclose, hraised⟩ := @closeWith_ok rt clock log t draw .done entry v
    rw [hclose]
    constructor
    · rintro ⟨heff, -⟩
      refine ⟨⟨v, rfl⟩, fun v' hv => ?_⟩
      cases hv
      by_contra hlands
      obtain ⟨e, he, -⟩ := heff heffect
      rw [if_neg hlands, hlanded] at he
      exact absurd he (by simp)
    · rintro ⟨-, hlands⟩
      have he : (if Lands rt log draw t.world (entry v) then t.landed ++ [entry v] else t.landed) =
          s.landed ++ [entry v] := by rw [if_pos (hlands v rfl), hlanded]
      exact ⟨fun _ => ⟨entry v, he, hentry v⟩,
        fun _ => ⟨entry v, he, (hentry v).1, .inl (hentry v).2⟩⟩

/-- A refusal is recorded exactly if the version can be read. -/
theorem recorded_refused {e : PyError} {m : String} (hm : message e = some m)
    (hlanded : t.landed = s.landed) (hno : ¬ Affects s t)
    (hentry : ∀ v, Concerns inv (denied m v) ∧ (denied m v).outcome = "denied") :
    OnTheRecord inv s (conclude rt clock log message denied version draw ⟨.error e, t⟩) ↔
    ∃ v, version = .ok v := by
  have hconclude : conclude rt clock log message denied version draw ⟨.error e, t⟩ =
      closeWith rt clock log .refused version (denied m) draw t := by
    unfold conclude
    dsimp only
    rw [hm]
  rw [hconclude]
  cases version with
  | error e => exact iff_of_false (not_recorded hlanded) (fun h => by cases h.choose_spec)
  | ok v =>
    obtain ⟨ended, w, raised, hclose, hraised⟩ :=
      @closeWith_ok rt clock log t draw .refused (denied m) v
    rw [hclose]
    refine iff_of_true ⟨fun h => absurd h hno, fun hr => ?_⟩ ⟨v, rfl⟩
    exact ⟨denied m v, by rw [if_pos (hraised hr), hlanded], (hentry v).1, .inr (hentry v).2⟩

/-- What is not a refusal is raised. -/
theorem not_recorded_of_raised {e : PyError} (hm : message e = none)
    (hlanded : t.landed = s.landed) :
    ¬ OnTheRecord inv s (conclude rt clock log message denied version draw ⟨.error e, t⟩) := by
  have hconclude : conclude rt clock log message denied version draw ⟨.error e, t⟩ =
      ⟨.raised e, t, false⟩ := by
    unfold conclude
    dsimp only
    rw [hm]
  rw [hconclude]
  exact not_recorded hlanded

/-- An entry that has landed is a line of the chain. -/
theorem closeWith_on_record {ended : CommandEnd} {entry : String → Entry} {v : String}
    (h : (closeWith rt clock log ended (.ok v) entry draw s).state.landed ≠ s.landed)
    (hline : EndsLine (opened log s.world))
    (hnew : s.world.dir.read (log.path.rotated (clock s.world.rotations)) = none) :
    ∃ seq prev, OnRecord log.path
      (closeWith rt clock log ended (.ok v) entry draw s).state.world.dir
      (sealed rt log.hmacKey (recordBody rt log (entry v) draw.stamp seq prev)) := by
  have hstate : (closeWith rt clock log ended (.ok v) entry draw s).state = { s with
      world := (writeWith rt clock log ⟨entry v, draw.stamp, draw.markerStamp⟩ s.world draw.fault).2
      landed := if Lands rt log draw s.world (entry v) then s.landed ++ [entry v]
        else s.landed } := by
    unfold closeWith Lands
    dsimp only
    cases (writeWith rt clock log ⟨entry v, draw.stamp, draw.markerStamp⟩ s.world draw.fault).1 with
    | error e => rfl
    | ok r => rfl
  rw [hstate] at h ⊢
  refine @lands_on_record rt clock log ⟨entry v, draw.stamp, draw.markerStamp⟩ s.world
    draw.fault ?_ hline hnew
  by_contra hno
  exact h (if_neg hno)

end Conclude

end ComplianceMcp
