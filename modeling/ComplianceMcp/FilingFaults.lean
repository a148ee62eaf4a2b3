import ComplianceMcp.WriteFaults
import ComplianceMcp.ServiceCalls
import ComplianceMcp.DraftFiling

/-! # Filing a draft, step by step

The insert commits before the record of the call is written.  What raises after it is answered
with a `ToolError` all the same, and the draft stays; a record that raises is followed by a
second one. -/
namespace ComplianceMcp

open PyText PyJson Files

/-! ## The call -/

/-- What a call of `write` draws from its surroundings: the stamps of the record and of a
marker, and the step that raises. -/
structure WriteDraw where
  stamp : Stamp
  markerStamp : Stamp
  fault : Option WriteFault

/-- What a call of `draft_create` draws from its surroundings; the connection may raise when
it is closed after the insert. -/
structure FilingDraw where
  draftId : String
  created : String
  storeFails : Bool
  closeFails : Bool
  first : WriteDraw
  second : WriteDraw

/-- What calls change.  `landed` are the entries whose records are in the chain. -/
structure FilingState where
  limiter : TokenBucketLimiter
  rows : List Row
  world : World
  landed : List Entry

section Call

variable (rt : Runtime) (clock : Nat → String) (log : AuditLog) (svc : Service)

/-- `record(…)`. -/
def FilingState.write (s : FilingState) (e : Entry) (draw : WriteDraw) :
    Except PyError Unit × FilingState :=
  let r := writeWith rt clock log ⟨e, draw.stamp, draw.markerStamp⟩ s.world draw.fault
  (r.1.map (fun _ => ()), { s with
    world := r.2
    landed := if lands rt log ⟨e, draw.stamp, draw.markerStamp⟩ s.world draw.fault then
      s.landed ++ [e]
      else s.landed })

/-- The arguments of `record`. -/
def filingEntry (a : DraftArgs) (caller : CallerIdentity)
    (version requester outcome summary : String) : Entry where
  requester := requester
  tool := "draft_create"
  args := draftAuditArgs rt a
  outcome := outcome
  resultSummary := summary
  sessionId := caller.sessionId
  directoryVersion := version
  args_dict := draftAuditArgs_dict rt a

/-- An exception inside the `try` is recorded and answered; what the record raises is raised. -/
def answerError (a : DraftArgs) (caller : CallerIdentity) (version : String) (e : PyError)
    (draw : WriteDraw) (s : FilingState) : Answer × FilingState :=
  match s.write rt clock log (filingEntry rt a caller version caller.requester (refusal e).outcome
    (refusal e).summary) draw with
  | (.ok (), s) => (.toolError (refusal e).code (refusal e).detail, s)
  | (.error e', s) => (.raised e', s)

/-- `DraftStore.create`: the insert commits by itself. -/
def insertDraft (draw : FilingDraw) (d : Draft) (rows : List Row) :
    Except PyError Unit × List Row :=
  if draw.storeFails ∨ d.draftId ∈ rows.map Row.draftId then (.error .other, rows)
  else if draw.closeFails then (.error .other, rows ++ [rowOf d])
  else (.ok (), rows ++ [rowOf d])

/-- A call of `draft_create`, on the version that was read, the users that the caller is looked
up in, and the reading of the limiter's clock. -/
def fileCall (version : Except PyError String) (users : Except PyError (List User)) (now : ℚ)
    (caller : CallerIdentity) (a : DraftArgs) (draw : FilingDraw) (s : FilingState) :
    Answer × FilingState :=
  match version with
  | .error e => (.raised e, s)
  | .ok version =>
    match users with
    | .error e => answerError rt clock log a caller version e draw.first s
    | .ok users =>
      match admitUser rt users s.limiter ⟨caller.requester, some ANALYST_GROUP, now⟩ with
      | (.error e, limiter) => answerError rt clock log a caller version e draw.first
          { s with limiter }
      | (.ok user, limiter) =>
        match draftCreate rt svc.alnum svc.data a user.upn draw.draftId draw.created with
        | .error e => answerError rt clock log a caller version e draw.first { s with limiter }
        | .ok d =>
          match insertDraft draw d s.rows with
          | (.error e, rows) => answerError rt clock log a caller version e draw.first
              { s with limiter, rows }
          | (.ok (), rows) =>
            -- the record is written inside the `try`, so what it raises is recorded in its turn
            match FilingState.write rt clock log { s with limiter, rows }
                (filingEntry rt a caller version user.upn "ok" (queuedSummary d.draftId a.kind))
                  draw.first with
            | (.ok (), s) =>
              (.result ⟨queuedSummary d.draftId a.kind, .filed d.draftId d.status⟩, s)
            | (.error e, s) => answerError rt clock log a caller version e draw.second s

end Call

/-! ## What a call promises -/

/-- With a result one pending draft was added and one record, `ok`; otherwise the drafts are as
they were. -/
def FiledAtomically (s : FilingState) (r : Answer × FilingState) : Prop :=
  match r.1 with
  | .result res => (∃ row, r.2.rows = s.rows ++ [row] ∧ row.status = "pending" ∧
      res.payload = .filed row.draftId .pending) ∧
      ∃ e : Entry, r.2.landed = s.landed ++ [e] ∧ e.tool = "draft_create" ∧ e.outcome = "ok"
  | _ => r.2.rows = s.rows

section Promise

variable {rt : Runtime} {clock : Nat → String} {log : AuditLog} {svc : Service}
  {version : Except PyError String} {users : Except PyError (List User)} {now : ℚ}
  {caller : CallerIdentity} {a : DraftArgs} {draw : FilingDraw} {s : FilingState}

theorem FilingState.write_rows (e : Entry) (d : WriteDraw) :
    (s.write rt clock log e d).2.rows = s.rows := rfl

/-- A record that is written without an exception is in the chain. -/
theorem FilingState.write_ok {e : Entry} {d : WriteDraw}
    (h : (writeWith rt clock log ⟨e, d.stamp, d.markerStamp⟩ s.world d.fault).1.isOk = true) :
    ∃ w, s.write rt clock log e d = (.ok (), { s with world := w, landed := s.landed ++ [e] }) := by
  unfold FilingState.write
  simp only [lands_of_isOk h, if_true]
  cases hw : (writeWith rt clock log ⟨e, d.stamp, d.markerStamp⟩ s.world d.fault).1 with
  | error e' =>
    rw [hw] at h
    cases h
  | ok r => exact ⟨_, rfl⟩

theorem FilingState.write_error {e : Entry} {d : WriteDraw}
    (h : ¬ (writeWith rt clock log ⟨e, d.stamp, d.markerStamp⟩ s.world d.fault).1.isOk = true) :
    ∃ e', (s.write rt clock log e d).1 = .error e' := by
  unfold FilingState.write
  dsimp only
  cases hw : (writeWith rt clock log ⟨e, d.stamp, d.markerStamp⟩ s.world d.fault).1 with
  | error e' => exact ⟨e', rfl⟩
  | ok r =>
    rw [hw] at h
    exact absurd rfl h

/-- An entry that has landed is a line of the chain, whatever the call raised. -/
theorem FilingState.landed_on_record {e : Entry} {d : WriteDraw}
    (h : (s.write rt clock log e d).2.landed ≠ s.landed)
    (hline : EndsLine (opened log s.world))
    (hnew : s.world.dir.read (log.path.rotated (clock s.world.rotations)) = none) :
    ∃ seq prev, OnRecord log.path (s.write rt clock log e d).2.world.dir
      (sealed rt log.hmacKey (recordBody rt log e d.stamp seq prev)) := by
  refine @lands_on_record rt clock log ⟨e, d.stamp, d.markerStamp⟩ s.world d.fault ?_ hline hnew
  by_contra hno
  exact h (if_neg hno)

theorem answerError_rows (v : String) (e : PyError) (d : WriteDraw) :
    (answerError rt clock log a caller v e d s).2.rows = s.rows ∧
      ∀ res, (answerError rt clock log a caller v e d s).1 ≠ .result res := by
  unfold answerError
  split
  · next s' hw =>
    refine ⟨?_, fun res h => by cases h⟩
    exact (congrArg (fun r => r.2.rows) hw).symm.trans (FilingState.write_rows _ _)
  · next e' s' hw =>
    refine ⟨?_, fun res h => by cases h⟩
    exact (congrArg (fun r => r.2.rows) hw).symm.trans (FilingState.write_rows _ _)

/-- An exception is answered without a draft that was not there when it was raised. -/
theorem filed_answerError_iff {t : FilingState} (v : String) (e : PyError) (d : WriteDraw) :
    FiledAtomically s (answerError rt clock log a caller v e d t) ↔ t.rows = s.rows := by
  obtain ⟨hrows, hres⟩ := @answerError_rows rt clock log caller a t v e d
  unfold FiledAtomically
  split
  · next res h => exact absurd h (hres res)
  · rw [hrows]

/-- The call gets as far as the insert, and the insert commits. -/
structure Commits (rt : Runtime) (svc : Service) (version : Except PyError String)
    (users : Except PyError (List User)) (now : ℚ) (caller : CallerIdentity) (a : DraftArgs)
    (draw : FilingDraw) (s : FilingState) (v : String) (user : User) (d : Draft) : Prop where
  read : version = .ok v
  admitted : ∃ us, users = .ok us ∧
    (admitUser rt us s.limiter ⟨caller.requester, some ANALYST_GROUP, now⟩).1 = .ok user
  checked : draftCreate rt svc.alnum svc.data a user.upn draw.draftId draw.created = .ok d
  stored : draw.storeFails = false ∧ d.draftId ∉ s.rows.map Row.draftId

/-- The `write` call of the record of an acceptance. -/
def acceptance (rt : Runtime) (caller : CallerIdentity) (a : DraftArgs) (draw : FilingDraw)
    (v : String) (user : User) (d : Draft) : Call :=
  ⟨filingEntry rt a caller v user.upn "ok" (queuedSummary d.draftId a.kind), draw.first.stamp,
    draw.first.markerStamp⟩

/-- A call that does not get past the insert leaves the drafts as they were. -/
theorem filed_of_not_commits (h : ∀ v user d, ¬ Commits rt svc version users now caller a
    draw s v user d) :
    FiledAtomically s (fileCall rt clock log svc version users now caller a draw s) := by
  unfold fileCall
  cases version with
  | error e => exact rfl
  | ok v =>
    cases users with
    | error e => exact (filed_answerError_iff v e draw.first).mpr rfl
    | ok us =>
      dsimp only
      rcases hgate : admitUser rt us s.limiter ⟨caller.requester, some ANALYST_GROUP, now⟩
        with ⟨r, limiter⟩
      cases r with
      | error e => exact (filed_answerError_iff v e draw.first).mpr rfl
      | ok user =>
        dsimp only
        cases hd : draftCreate rt svc.alnum svc.data a user.upn draw.draftId draw.created with
        | error e => exact (filed_answerError_iff v e draw.first).mpr rfl
        | ok d =>
          by_cases hstore : draw.storeFails = true ∨ d.draftId ∈ s.rows.map Row.draftId
          · simp only [insertDraft, if_pos hstore]
            exact (filed_answerError_iff v _ draw.first).mpr rfl
          · refine absurd ⟨rfl, ⟨us, rfl, by rw [hgate]⟩, hd, ?_⟩ (h v user d)
            rw [not_or, Bool.not_eq_true] at hstore
            exact hstore

/-- Once the insert has committed, the call is atomic exactly if nothing raises any more. -/
theorem filed_of_commits {v : String} {user : User} {d : Draft}
    (h : Commits rt svc version users now caller a draw s v user d) :
    FiledAtomically s (fileCall rt clock log svc version users now caller a draw s) ↔
      draw.closeFails = false ∧
        NothingRaises rt clock log (acceptance rt caller a draw v user d) s.world
          draw.first.fault := by
  obtain ⟨rfl, ⟨us, rfl, hgate⟩, hd, hstore⟩ := h
  rcases hadm : admitUser rt us s.limiter ⟨caller.requester, some ANALYST_GROUP, now⟩
    with ⟨r, limiter⟩
  obtain rfl : r = .ok user := by rwa [hadm] at hgate
  have hstore' : ¬ (draw.storeFails = true ∨ d.draftId ∈ s.rows.map Row.draftId) := by
    rw [not_or, Bool.not_eq_true]
    exact hstore
  have hchanged : s.rows ++ [rowOf d] ≠ s.rows := by simp
  unfold fileCall
  simp only [hadm, hd, insertDraft, if_neg hstore']
  cases hclose : draw.closeFails with
  | true =>
    simp only [if_true]
    rw [filed_answerError_iff]
    exact iff_of_false hchanged (fun h => by cases h.1)
  | false =>
    simp only [Bool.false_eq_true, if_false, true_and]
    rw [← writeWith_isOk_iff]
    have hdraft := draftOf_draftCreate hd
    by_cases hok : (writeWith rt clock log (acceptance rt caller a draw v user d) s.world
        draw.first.fault).1.isOk = true
    · obtain ⟨w, hw⟩ :=
        @FilingState.write_ok rt clock log { s with limiter, rows := s.rows ++ [rowOf d] } _ _ hok
      rw [hw]
      refine iff_of_true ⟨⟨rowOf d, rfl, ?_, ?_⟩, _, rfl, rfl, rfl⟩ hok
      · exact congrArg DraftStatus.value hdraft.pending
      · show Payload.filed d.draftId d.status = Payload.filed d.draftId .pending
        rw [hdraft.pending]
    · obtain ⟨e', he⟩ :=
        @FilingState.write_error rt clock log
          { s with limiter, rows := s.rows ++ [rowOf d] } _ _ hok
      refine iff_of_false (fun h => ?_) hok
      rcases hw : FilingState.write rt clock log { s with limiter, rows := s.rows ++ [rowOf d] }
          (filingEntry rt a caller v user.upn "ok" (queuedSummary d.draftId a.kind))
            draw.first with ⟨r, t⟩
      obtain rfl : r = .error e' := by
        rw [← he]
        exact (congrArg Prod.fst hw).symm
      rw [hw, filed_answerError_iff] at h
      have hrows : t.rows = s.rows ++ [rowOf d] :=
        (congrArg (fun r => r.2.rows) hw).symm.trans (FilingState.write_rows _ _)
      exact hchanged (hrows.symm.trans h)

end Promise

/-- **A call is atomic unless something raises after the insert.**  For every caller,
directory, limiter, table and chain, every draft, and every step that may raise. -/
theorem filed_atomically_iff (rt : Runtime) (clock : Nat → String) (log : AuditLog) (svc : Service)
    (version : Except PyError String) (users : Except PyError (List User)) (now : ℚ)
    (caller : CallerIdentity) (a : DraftArgs) (draw : FilingDraw) (s : FilingState) :
    FiledAtomically s (fileCall rt clock log svc version users now caller a draw s) ↔
      ∀ v user d, Commits rt svc version users now caller a draw s v user d →
        draw.closeFails = false ∧
          NothingRaises rt clock log (acceptance rt caller a draw v user d) s.world
            draw.first.fault := by
  constructor
  · intro h v user d hc
    exact (filed_of_commits hc).mp h
  · intro h
    by_cases hc : ∃ v user d, Commits rt svc version users now caller a draw s v user d
    · obtain ⟨v, user, d, hc⟩ := hc
      exact (filed_of_commits hc).mpr (h v user d hc)
    · refine filed_of_not_commits (fun v user d hd => hc ⟨v, user, d, hd⟩)

/-! ## A record that cannot be synced -/

/-- The sync of the first record raises. -/
def unsynced : FilingDraw where
  draftId := "D-1"
  created := "2026-02-01T09:00:00Z"
  storeFails := false
  closeFails := false
  first := ⟨⟨"a", "2026-02-01T09:00:00Z"⟩, ⟨"a-m", "2026-02-01T09:00:00Z"⟩,
    some (.crash .afterAppend)⟩
  second := ⟨⟨"b", "2026-02-01T09:00:01Z"⟩, ⟨"b-m", "2026-02-01T09:00:01Z"⟩, none⟩

/-- **The agent is told that the call failed, and the draft is queued.** -/
theorem unsynced_draft_stays :
    ¬ FiledAtomically ⟨.new 120 none, [], World.empty, []⟩
      (fileCall Runtime.python sampleClock sampleLog
      sampleService (.ok "v1") (.ok [sampleCaller]) 0 ⟨"u-1", false, "s1"⟩ noteDraft unsynced
      ⟨.new 120 none, [], World.empty, []⟩) := by
  obtain ⟨d, hd⟩ : ∃ d, draftCreate Runtime.python sampleService.alnum sampleService.data noteDraft
      sampleCaller.upn unsynced.draftId unsynced.created = .ok d :=
    draftCreate_ok_iff.mpr (by decide +kernel)
  have hc : Commits Runtime.python sampleService (.ok "v1") (.ok [sampleCaller]) 0
    ⟨"u-1", false, "s1"⟩ noteDraft unsynced ⟨.new 120 none, [], World.empty,
      []⟩ "v1" sampleCaller d :=
    ⟨rfl, ⟨[sampleCaller], rfl, by decide +kernel⟩, hd, rfl, List.not_mem_nil⟩
  rw [filed_of_commits hc]
  rintro ⟨-, hquiet⟩
  cases hquiet.step

end ComplianceMcp
