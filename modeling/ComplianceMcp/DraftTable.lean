import ComplianceMcp.AuditRecord
import ComplianceMcp.Steps
import Mathlib.Logic.Function.Basic

/-! # The draft store

`DraftStore` keeps drafts in one SQLite table.  This module has the table's rows, the
drafts they are decoded to, and the store's operations as the statements they execute:
`create` is one `INSERT`, `decide` is a transaction `BEGIN IMMEDIATE`, `UPDATE`, `COMMIT` or
`ROLLBACK` and then a read of its own, and `compliance-admin purge` counts, deletes and
commits.

`Store` is the table together with any number of processes in the middle of such
operations.  A statement is atomic; between two statements of one process the others run.
Readers see the committed rows, and a process that holds the write lock works on its own
copy of them. -/
namespace ComplianceMcp

open PyJson PyText

/-! ## Drafts -/

inductive DraftKind where
  | policyMapping
  | evidencePackIndex
  | controlFindingNote
  | attestationEscalation
  deriving DecidableEq

/-- The text of a kind. -/
def DraftKind.value : DraftKind → String
  | .policyMapping => "policy_mapping"
  | .evidencePackIndex => "evidence_pack_index"
  | .controlFindingNote => "control_finding_note"
  | .attestationEscalation => "attestation_escalation"

/-- `DraftKind(s)`. -/
def DraftKind.ofValue (s : String) : Except PyError DraftKind :=
  if s = "policy_mapping" then .ok .policyMapping
  else if s = "evidence_pack_index" then .ok .evidencePackIndex
  else if s = "control_finding_note" then .ok .controlFindingNote
  else if s = "attestation_escalation" then .ok .attestationEscalation
  else .error (.valueError (s ++ " is not a valid DraftKind"))

inductive DraftStatus where
  | pending
  | approved
  | rejected
  deriving DecidableEq

/-- The text of a status. -/
def DraftStatus.value : DraftStatus → String
  | .pending => "pending"
  | .approved => "approved"
  | .rejected => "rejected"

/-- `DraftStatus(s)`. -/
def DraftStatus.ofValue (s : String) : Except PyError DraftStatus :=
  if s = "pending" then .ok .pending
  else if s = "approved" then .ok .approved
  else if s = "rejected" then .ok .rejected
  else .error (.valueError (s ++ " is not a valid DraftStatus"))

structure Decision where
  by_ : String
  note : String
  at_ : String
  deriving DecidableEq

structure Draft where
  draftId : String
  kind : DraftKind
  title : String
  body : String
  requester : String
  sessionId : String
  relatedIds : List String
  created : String
  status : DraftStatus
  contentSha256 : String
  decision : Option Decision
  deriving DecidableEq

structure DraftSummary where
  draftId : String
  kind : DraftKind
  title : String
  requester : String
  created : String
  status : DraftStatus
  decision : Option Decision
  deriving DecidableEq

/-- `DraftSummary(**{k: getattr(d, k) ...})`. -/
def Draft.summary (d : Draft) : DraftSummary where
  draftId := d.draftId
  kind := d.kind
  title := d.title
  requester := d.requester
  created := d.created
  status := d.status
  decision := d.decision

/-! ## Rows -/

/-- A row of the table; `none` is `NULL`. -/
structure Row where
  draftId : String
  kind : String
  title : String
  body : String
  requester : String
  sessionId : String
  relatedIds : String
  created : String
  status : String
  contentSha256 : String
  decisionBy : Option String
  decisionNote : Option String
  decisionAt : Option String
  deriving DecidableEq

/-- The row `create` inserts. -/
def rowOf (d : Draft) : Row where
  draftId := d.draftId
  kind := d.kind.value
  title := d.title
  body := d.body
  requester := d.requester
  sessionId := d.sessionId
  relatedIds := String.ofList (dumps markerStyle (.arr (d.relatedIds.map .str)))
  created := d.created
  status := d.status.value
  contentSha256 := d.contentSha256
  decisionBy := none
  decisionNote := none
  decisionAt := none

variable (rt : Runtime)

/-- `tuple(j)`. -/
def tupleOf : Json → Except PyError (List Json)
  | .arr xs => .ok xs
  | .str s => .ok (s.toList.map (fun c => .str (String.ofList [c])))
  | .obj fs => .ok (fs.map (fun f => .str f.1))
  | _ => .error .typeError

/-- The check of `tuple[str, ...]`. -/
def stringsOf : List Json → Except PyError (List String)
  | [] => .ok []
  | .str s :: rest => do
    let ss ← stringsOf rest
    return s :: ss
  | _ :: _ => .error .validationError

/-- `Decision(...) if row["decision_by"] else None`. -/
def decisionOf (r : Row) : Except PyError (Option Decision) :=
  match r.decisionBy with
  | none => .ok none
  | some "" => .ok none
  | some by_ =>
    match r.decisionAt with
    | some at_ => .ok (some ⟨by_, r.decisionNote.getD "", at_⟩)
    | none => .error .validationError

/-- `DraftStore._to_draft(row)`. -/
def toDraft (r : Row) : Except PyError Draft := do
  let decision ← decisionOf r
  let kind ← DraftKind.ofValue r.kind
  let related ← match rt.loads r.relatedIds.toList with
    | some j => tupleOf j
    | none => .error .jsonDecodeError
  let status ← DraftStatus.ofValue r.status
  let relatedIds ← stringsOf related
  return ⟨r.draftId, kind, r.title, r.body, r.requester, r.sessionId, relatedIds, r.created, status,
    r.contentSha256, decision⟩

/-! ## Requests -/

/-- `s.strip()`. -/
def stripped (s : String) : String := String.ofList (strip s.toList)

/-- The arguments of `create`, and the identifier and time it draws. -/
structure CreateArgs where
  kind : DraftKind
  title : String
  body : String
  requester : String
  relatedIds : List String
  sessionId : String
  draftId : String
  created : String

/-- The draft `create` builds, before it touches the database. -/
def createDraft (c : CreateArgs) : Except PyError Draft :=
  if blank c.title.toList || blank c.body.toList then
    .error (.valueError "title and body are required")
  else .ok {
    draftId := c.draftId
    kind := c.kind
    title := stripped c.title
    body := c.body
    requester := c.requester
    sessionId := c.sessionId
    relatedIds := c.relatedIds
    created := c.created
    status := .pending
    contentSha256 := (rt.sha256 (utf8 c.body.toList)).text
    decision := none }

/-- The arguments of `decide`, and the time it reads before it connects. -/
structure DecideArgs where
  draftId : String
  decision : DraftStatus
  by_ : String
  note : String
  at_ : String

/-- The columns the `UPDATE` sets. -/
def decideRow (c : DecideArgs) (r : Row) : Row :=
  { r with
    status := c.decision.value
    decisionBy := some c.by_
    decisionNote := some c.note
    decisionAt := some c.at_ }

/-- `WHERE draft_id = ? AND status = 'pending'`. -/
def matchesPending (c : DecideArgs) (r : Row) : Bool :=
  r.draftId = c.draftId && r.status = "pending"

/-- `WHERE status != 'pending' AND decision_at < ?`. -/
def purgeable (cutoff : String) (r : Row) : Bool :=
  r.status ≠ "pending" && match r.decisionAt with
    | some at_ => at_ < cutoff
    | none => false

/-- `ORDER BY created`. -/
def createdLE (r r' : Row) : Prop := r.created ≤ r'.created

instance : DecidableRel createdLE :=
  fun r r' => inferInstanceAs (Decidable (r.created ≤ r'.created))

/-- The messages of `decide`. -/
def conflictMessage (draftId : String) : String :=
  "draft " ++ draftId ++ " is not pending (missing or already decided)"

inductive Request where
  | create (c : CreateArgs)
  | decide (c : DecideArgs)
  | get (draftId : String)
  | list (status : DraftStatus)
  | purge (cutoff : String) (apply : Bool)

inductive Reply where
  | draft (d : Draft)
  | found (d : Option Draft)
  | summaries (ds : List DraftSummary)
  | purged (drafts : Nat)
  deriving DecidableEq

/-- The statement a process executes next. -/
inductive Pc where
  | insert (d : Draft)
  | beginImmediate
  | update
  | commit
  | rollback
  | select
  | count
  | delete (drafts : Nat)
  | commitPurge (drafts : Nat)

/-- An operation under way; `wrote` says that a statement of it has changed the table. -/
structure Busy where
  request : Request
  pc : Pc
  wrote : Bool

/-- An operation that has returned or raised. -/
structure Event (P : Type) where
  process : P
  request : Request
  result : Except PyError Reply
  wrote : Bool

/-- The table and the processes.  `writer` is the holder of the write lock and its copy of
the rows, `issued` the identifiers `create` has drawn. -/
structure Store (P : Type) where
  rows : List Row
  writer : Option (P × List Row)
  busy : P → Option Busy
  issued : List String
  log : List (Event P)

/-- An empty table that nobody uses. -/
def Store.empty (P : Type) : Store P := ⟨[], none, fun _ => none, [], []⟩

inductive Action (P : Type) where
  | issue (p : P) (r : Request)
  | advance (p : P)

/-- What an operation does before its first statement. -/
def start : Request → Except PyError Pc
  | .create c => (createDraft rt c).map .insert
  | .decide c =>
    if c.decision = .pending then .error (.valueError "decision must be approved or rejected")
    else .ok .beginImmediate
  | .get _ => .ok .select
  | .list _ => .ok .select
  | .purge _ _ => .ok .count

/-- The identifier a request draws. -/
def Request.newIds : Request → List String
  | .create c => [c.draftId]
  | _ => []

/-- How an operation goes on after a statement. -/
inductive Next where
  | goto (pc : Pc)
  | reply (r : Except PyError Reply)

variable {P : Type}

/-- `DraftStore.get(draft_id)`. -/
def getDraft (rows : List Row) (draftId : String) : Except PyError (Option Draft) :=
  match rows.find? (fun r => r.draftId = draftId) with
  | some r => (toDraft rt r).map some
  | none => .ok none

/-- `DraftStore.list(status)`. -/
def listDrafts (rows : List Row) (status : DraftStatus) : Except PyError (List DraftSummary) :=
  (((rows.filter (fun r => r.status = status.value)).insertionSort createdLE).mapM (toDraft rt)).map
    (List.map Draft.summary)

/-- One statement of `p`: the committed rows after it, the holder of the write lock, and how
`p` goes on.  `none` while the statement has to wait for the lock. -/
def statement (s : Store P) (p : P) :
    Request → Pc → Option (List Row × Option (P × List Row) × Next)
  -- `draft_id` is the primary key.
  | .create _, .insert d =>
    if s.writer.isNone then
      if s.rows.any (fun r => r.draftId = d.draftId) then
        some (s.rows, none, .reply (.error .other))
      else some (s.rows ++ [rowOf d], none, .reply (.ok (.draft d)))
    else none
  | .decide _, .beginImmediate =>
    if s.writer.isNone then some (s.rows, some (p, s.rows), .goto .update) else none
  -- Seen by the others only after the commit.
  | .decide c, .update =>
    s.writer.bind (fun (_, rows) =>
      let changed := rows.map (fun r => if matchesPending c r then decideRow c r else r)
      let rowcount := rows.countP (matchesPending c)
      some (s.rows, some (p, changed), .goto (if rowcount ≠ 1 then .rollback else .commit)))
  | .decide _, .commit => s.writer.map (fun (_, rows) => (rows, none, .goto .select))
  | .decide c, .rollback =>
    some (s.rows, none, .reply (.error (.draftConflict (conflictMessage c.draftId))))
  -- Read after the commit, outside the transaction: a purge may have taken the row.
  | .decide c, .select =>
    some (s.rows, s.writer, .reply (match getDraft rt s.rows c.draftId with
      | .ok (some d) => .ok (.draft d)
      | .ok none => .error .assertionError
      | .error e => .error e))
  | .get draftId, .select =>
    some (s.rows, s.writer, .reply ((getDraft rt s.rows draftId).map .found))
  | .list status, .select =>
    some (s.rows, s.writer, .reply ((listDrafts rt s.rows status).map .summaries))
  -- The count and the delete are two statements; the count is what the report gives.
  | .purge cutoff apply, .count =>
    let drafts := s.rows.countP (purgeable cutoff)
    some (s.rows, s.writer, if apply then .goto (.delete drafts) else .reply (.ok (.purged drafts)))
  | .purge cutoff _, .delete n =>
    if s.writer.isNone then
      some (s.rows, some (p, s.rows.filter (fun r => !purgeable cutoff r)), .goto (.commitPurge n))
    else none
  | .purge _ _, .commitPurge n =>
    s.writer.map (fun (_, rows) => (rows, none, .reply (.ok (.purged n))))
  | _, _ => none

variable [DecidableEq P]

/-- The store after `p` has taken on a request. -/
def Store.launch (s : Store P) (p : P) (r : Request) (pc : Pc) : Store P :=
  { s with
    busy := Function.update s.busy p (some ⟨r, pc, false⟩)
    issued := r.newIds ++ s.issued }

/-- The store after a request of `p` that has raised before its first statement. -/
def Store.refuse (s : Store P) (p : P) (r : Request) (e : PyError) : Store P :=
  { s with
    issued := r.newIds ++ s.issued
    log := ⟨p, r, .error e, false⟩ :: s.log }

/-- The store after a statement of `p` that leaves it at `pc`. -/
def Store.goto (s : Store P) (p : P) (b : Busy) (rows : List Row) (writer : Option (P × List Row))
    (pc : Pc) : Store P :=
  { s with
    rows := rows
    writer := writer
    busy := Function.update s.busy p (some ⟨b.request, pc, b.wrote || rows ≠ s.rows⟩) }

/-- The store after the last statement of `p`'s operation. -/
def Store.finish (s : Store P) (p : P) (b : Busy) (rows : List Row)
    (writer : Option (P × List Row)) (r : Except PyError Reply) : Store P :=
  { s with
    rows := rows
    writer := writer
    busy := Function.update s.busy p none
    log := ⟨p, b.request, r, b.wrote || rows ≠ s.rows⟩ :: s.log }

/-- One step of one process. -/
def draftStep (s : Store P) : Action P → Option (Store P)
  | .issue p r =>
    match s.busy p with
    | some _ => none
    | none => some (match start rt r with
      | .ok pc => s.launch p r pc
      | .error e => s.refuse p r e)
  | .advance p =>
    (s.busy p).bind (fun b => (statement rt s p b.request b.pc).map (fun
      | (rows, writer, .goto pc) => s.goto p b rows writer pc
      | (rows, writer, .reply r) => s.finish p b rows writer r))

/-! ## What is read back -/

theorem DraftKind.ofValue_value (k : DraftKind) : DraftKind.ofValue k.value = .ok k := by
  cases k <;> rfl

theorem DraftStatus.ofValue_value (st : DraftStatus) : DraftStatus.ofValue st.value = .ok st := by
  cases st <;> rfl

theorem DraftStatus.value_eq_pending {st : DraftStatus} : st.value = "pending" ↔ st = .pending := by
  cases st <;> decide

variable {rt}

theorem stringsOf_map (ss : List String) : stringsOf (ss.map .str) = .ok ss := by
  induction ss with
  | nil => rfl
  | cons s ss ih =>
    rw [List.map_cons, stringsOf, ih]
    rfl

theorem sortKeys_strings (ss : List String) :
    (Json.arr (ss.map .str)).sortKeys = .arr (ss.map .str) := by
  rw [Json.sortKeys, Json.sortKeysItems_eq_map, List.map_map]
  rfl

theorem loads_strings (ss : List String) :
    rt.loads (dumps markerStyle (.arr (ss.map .str))) = some (.arr (ss.map .str)) := by
  have := rt.loads_dumps markerStyle (.arr (ss.map .str)) [] []
    (Json.distinctKeys_strings ss) rfl rfl
  rwa [List.nil_append, List.append_nil, sortKeys_strings] at this

/-- The draft a decision makes of a filed one. -/
def Draft.decided (d : Draft) (c : DecideArgs) : Draft :=
  { d with status := c.decision, decision := some ⟨c.by_, c.note, c.at_⟩ }

/-- **Reading a row back undoes the insert.** -/
theorem toDraft_rowOf {d : Draft} (hd : d.decision = none) : toDraft rt (rowOf d) = .ok d := by
  obtain ⟨draftId, kind, title, body, requester, sessionId, relatedIds, created, status, sha,
      decision⟩ := d
  obtain rfl : decision = none := hd
  simp only [toDraft, decisionOf, rowOf, String.toList_ofList, loads_strings, tupleOf,
    DraftKind.ofValue_value, DraftStatus.ofValue_value, stringsOf_map, bind, Except.bind, pure,
    Except.pure]

/-- Reading a decided row back gives the draft with its decision. -/
theorem toDraft_decideRow (d : Draft) {c : DecideArgs} (hc : c.by_ ≠ "") :
    toDraft rt (decideRow c (rowOf d)) = .ok (d.decided c) := by
  have hdec : decisionOf (decideRow c (rowOf d)) = .ok (some ⟨c.by_, c.note, c.at_⟩) := by
    unfold decisionOf decideRow
    split
    · next h => cases h
    · next h => exact absurd (Option.some.inj h) hc
    · next h =>
      cases h
      rfl
  simp only [toDraft, hdec, bind, Except.bind, pure, Except.pure]
  simp only [decideRow, rowOf, String.toList_ofList, loads_strings, tupleOf,
    DraftKind.ofValue_value, DraftStatus.ofValue_value, stringsOf_map, Draft.decided]

end ComplianceMcp
