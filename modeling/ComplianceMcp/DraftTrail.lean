import ComplianceMcp.ReviewFaults
import ComplianceMcp.EvidenceExport
import ComplianceMcp.FourEyes

/-! # The trail of a draft

Filings and decisions commit to the table first and are recorded afterwards, by processes that act
at the same time on one table and one log.  Between the two the process may die, the directory may
be gone, or the append may raise.  Read as a ledger, the log is still truthful: its draft records
are the records of things that were done, each once, under the hash of the body that is in the
table; and what was done without a record is what somebody has yet to record or has failed to. -/
namespace ComplianceMcp

open PyText PyJson Files Steps

/-! ## What is done and recorded -/

/-- A draft that `draft_create` has inserted, and the call it is from. -/
structure Filing where
  args : DraftArgs
  caller : CallerIdentity
  version : String
  user : User
  draft : Draft

/-- A decision that has committed. -/
structure Ruled where
  args : ReviewArgs
  osUser : String
  approver : User
  at_ : String

def Ruled.decideArgs (r : Ruled) : DecideArgs := r.args.decideArgs r.approver r.at_

/-- What leaves a trail. -/
inductive Deed where
  | filed (f : Filing)
  | ruled (r : Ruled)

/-- What a deed is about, and whether it is a decision. -/
def Deed.key : Deed → String × Bool
  | .filed f => (f.draft.draftId, false)
  | .ruled r => (r.args.draftId, true)

/-- The entry says that a draft was filed or decided. -/
def isDraftRecord (e : Entry) : Bool :=
  e.outcome = "ok" && ["draft_create", "draft_approved", "draft_rejected"].contains e.tool

/-- An entry that says no such thing. -/
abbrev OtherEntry := { e : Entry // isDraftRecord e = false }

variable (rt : Runtime)

/-- The draft is what `create` makes of the arguments. -/
structure Filing.Genuine (f : Filing) : Prop where
  drafted : DraftOf f.args f.user.upn f.draft.draftId f.draft
  content : f.draft.contentSha256 = (rt.sha256 (utf8 f.args.body.toList)).text
  undecided : f.draft.decision = none

/-- The record of an acceptance. -/
def Filing.record (f : Filing) : Entry :=
  filingEntry rt f.args f.caller f.version f.user.upn "ok"
    (queuedSummary f.draft.draftId f.args.kind)

/-- What the record of a deed says: for a decision it names the draft, the approver and the hash of
the body that was filed. -/
def RecordOf (deeds : List Deed) : Deed → Entry → Prop
  | .filed f, e => e = f.record rt
  | .ruled r, e => ∃ f d v, .filed f ∈ deeds ∧ f.draft.draftId = r.args.draftId ∧
      d.contentSha256 = f.draft.contentSha256 ∧ e = decisionEntry r.args r.osUser r.approver d v

/-- A row is a draft as it was filed, while nobody has decided it, or the draft with its
decision. -/
def RowBacked (deeds : List Deed) (row : Row) : Prop :=
  ∃ f, .filed f ∈ deeds ∧
    ((row = rowOf f.draft ∧ ∀ r, .ruled r ∈ deeds → r.args.draftId ≠ f.draft.draftId) ∨
      ∃ r, .ruled r ∈ deeds ∧ r.args.draftId = f.draft.draftId ∧
      row = decideRow r.decideArgs (rowOf f.draft))

/-! ## Processes -/

/-- What a process does next: write the record of an acceptance, decide, write the record of a
decision, or write the record of a refusal. -/
inductive Stage where
  | accepting (f : Filing)
  | passed (args : ReviewArgs) (osUser : String) (approver : User)
  | decided (r : Ruled) (d : Draft)
  | refusing (e : OtherEntry)

/-- The deed a process has yet to record, and the record but for the version of the directory. -/
def Stage.owes : Stage → Option (Deed × (String → Entry))
  | .accepting f => some (.filed f, fun _ => f.record rt)
  | .decided r d => some (.ruled r, decisionEntry r.args r.osUser r.approver d)
  | _ => none

/-- The table and the log with the processes on them.  `deeds` are the filings and decisions
that have committed; `recorded` are those whose record has landed and `dropped` those that
nobody will record. -/
structure Trail (P : Type) where
  service : FilingState
  busy : P → Option Stage
  deeds : List Deed
  recorded : List Deed
  dropped : List Deed

/-- What can happen.  `users` and `version` are what the directory yields at the time; `other` is
any other write to the log. -/
inductive TrailAction (P : Type) where
  | file (p : P) (version : Except PyError String) (users : Except PyError (List User)) (now : ℚ)
      (caller : CallerIdentity) (a : DraftArgs) (draw : FilingDraw)
  | examine (p : P) (settings : ReviewSettings) (args : ReviewArgs) (osUser : String)
      (users : Except PyError (List User)) (version : Except PyError String) (getFails : Bool)
  | decide (p : P) (at_ : String) (fault : Option DecideFault) (version : Except PyError String)
  | record (p : P) (version : Except PyError String) (draw : WriteDraw)
  | crash (p : P)
  | purge (cutoff : String)
  | other (e : OtherEntry) (draw : WriteDraw)

variable {P : Type}

namespace Trail

/-- Nothing has been filed. -/
def start (limiter : TokenBucketLimiter) (world : World) : Trail P :=
  ⟨⟨limiter, [], world, []⟩, fun _ => none, [], [], []⟩

variable (s : Trail P)

/-- What a process owes the log. -/
def owes (p : P) : Option (Deed × (String → Entry)) := (s.busy p).bind (Stage.owes rt)

/-- The records of filings and decisions in the log. -/
def draftRecords : List Entry := s.service.landed.filter isDraftRecord

/-- The process goes on with another stage, or ends. -/
def goto [DecidableEq P] (p : P) (stage : Option Stage) : Trail P :=
  { s with busy := Function.update s.busy p stage }

/-- A deed has got its record, or it will have none. -/
def settle (landed : Bool) (deed : Deed) : Trail P :=
  if landed then { s with recorded := s.recorded ++ [deed] }
  else { s with dropped := s.dropped ++ [deed] }

/-- Something was done, and `kept` says that the process goes on to its record. -/
def did (kept : Bool) (deed : Deed) : Trail P :=
  { s with deeds := s.deeds ++ [deed], dropped := if kept then s.dropped else s.dropped ++ [deed] }

end Trail

/-! ## Steps -/

theorem isDraftRecord_of_outcome {e : Entry} (h : e.outcome ≠ "ok") : isDraftRecord e = false := by
  unfold isDraftRecord
  rw [decide_eq_false h]
  rfl

theorem refusal_outcome_ne_ok (e : PyError) : (refusal e).outcome ≠ "ok" := by
  rw [refusal_outcome]
  cases (refusal e).code <;> decide

/-- The record of a call that is refused. -/
def refusedFiling (a : DraftArgs) (caller : CallerIdentity) (version : String) (e : PyError) :
    OtherEntry :=
  ⟨filingEntry rt a caller version caller.requester (refusal e).outcome (refusal e).summary,
    isDraftRecord_of_outcome (refusal_outcome_ne_ok e)⟩

/-- The record of a command that is refused. -/
def refusedReview (args : ReviewArgs) (osUser message version : String) : OtherEntry :=
  ⟨deniedEntry args osUser message version, isDraftRecord_of_outcome (by decide : "denied" ≠ "ok")⟩

/-- The stage after an exception in a command: a refusal is recorded, everything else is raised. -/
def afterError (args : ReviewArgs) (osUser : String) (version : Except PyError String)
    (e : PyError) : Option Stage :=
  match denial e, version with
  | some message, .ok v => some (.refusing (refusedReview args osUser message v))
  | _, _ => none

section Machine

variable (clock : Nat → String) (log : AuditLog) (svc : Service) (decode : TokenDecoder)

/-- `draft_create` up to its first record: the state, what the process does next, and the draft if
one was inserted. -/
def beginFiling (version : Except PyError String) (users : Except PyError (List User)) (now : ℚ)
    (caller : CallerIdentity) (a : DraftArgs) (draw : FilingDraw) (s : FilingState) :
    FilingState × Option Stage × Option Filing :=
  match version with
  | .error _ => (s, none, none)
  | .ok version =>
    match users with
    | .error e => (s, some (.refusing (refusedFiling rt a caller version e)), none)
    | .ok users =>
      match admitUser rt users s.limiter ⟨caller.requester, some ANALYST_GROUP, now⟩ with
      | (.error e, limiter) =>
        ({ s with limiter }, some (.refusing (refusedFiling rt a caller version e)), none)
      | (.ok user, limiter) =>
        match draftCreate rt svc.alnum svc.data a user.upn draw.draftId draw.created with
        | .error e =>
          ({ s with limiter }, some (.refusing (refusedFiling rt a caller version e)), none)
        | .ok d =>
          match insertDraft draw d s.rows with
          | (.error e, rows) =>
            ({ s with limiter, rows }, some (.refusing (refusedFiling rt a caller version e)),
              if rows.length = s.rows.length then none else some ⟨a, caller, version, user, d⟩)
          | (.ok (), rows) =>
            ({ s with limiter, rows }, some (.accepting ⟨a, caller, version, user, d⟩),
              some ⟨a, caller, version, user, d⟩)

/-- The rest of `draft_create`, when nobody gets in between. -/
def endFiling (draw : FilingDraw) (s : FilingState) : Option Stage → FilingState
  | some (.accepting f) =>
    match s.write rt clock log (f.record rt) draw.first with
    | (.ok (), s) => s
    | (.error e, s) =>
      (s.write rt clock log (refusedFiling rt f.args f.caller f.version e).val draw.second).2
  | some (.refusing e) => (s.write rt clock log e.val draw.first).2
  | _ => s

/-- The step function; `none` where a process is not at that point. -/
def trailStep [DecidableEq P] (s : Trail P) : TrailAction P → Option (Trail P)
  | .file p version users now caller a draw =>
    if (s.busy p).isSome then none
    else
      let r := beginFiling rt svc version users now caller a draw s.service
      let t := { s with service := r.1 }.goto p r.2.1
      some (match r.2.2 with
        | none => t
        | some f => t.did (t.owes rt p).isSome (.filed f))
  | .examine p settings args osUser users version getFails =>
    if (s.busy p).isSome then none
    else some (match examine rt decode settings args users
      (foundDraft rt s.service.rows args.draftId getFails) with
      | .error e => s.goto p (afterError args osUser version e)
      | .ok approver => s.goto p (some (.passed args osUser approver)))
  | .decide p at_ fault version =>
    match s.busy p with
    | some (.passed args osUser approver) =>
      let r : Ruled := ⟨args, osUser, approver, at_⟩
      let result := decideDraft rt r.decideArgs fault s.service.rows
      let t := { s with service := { s.service with rows := result.2 } }.goto p (match result.1 with
        | .ok d => some (.decided r d)
        | .error e => afterError args osUser version e)
      some (if commits r.decideArgs fault s.service.rows then t.did (t.owes rt p).isSome (.ruled r)
        else t)
    | _ => none
  | .record p version draw =>
    match s.busy p, version with
    | some (.accepting f), _ =>
      let w := s.service.write rt clock log (f.record rt) draw
      let landed := lands rt log ⟨f.record rt, draw.stamp, draw.markerStamp⟩
        s.service.world draw.fault
      some (({ s with service := w.2 }.settle landed (.filed f)).goto p (match w.1 with
        | .ok () => none
        | .error e => some (.refusing (refusedFiling rt f.args f.caller f.version e))))
    | some (.decided r _), .error _ => some ((s.settle false (.ruled r)).goto p none)
    | some (.decided r d), .ok v =>
      let e := decisionEntry r.args r.osUser r.approver d v
      let w := s.service.write rt clock log e draw
      let landed := lands rt log ⟨e, draw.stamp, draw.markerStamp⟩ s.service.world draw.fault
      some (({ s with service := w.2 }.settle landed (.ruled r)).goto p none)
    | some (.refusing e), _ =>
      some ({ s with service := (s.service.write rt clock log e.val draw).2 }.goto p none)
    | _, _ => none
  | .crash p => some (match s.owes rt p with
      | none => s.goto p none
      | some (deed, _) => (s.settle false deed).goto p none)
  | .purge cutoff =>
    some { s with service := { s.service with rows := keptRows cutoff s.service.rows } }
  | .other e draw => some { s with service := (s.service.write rt clock log e.val draw).2 }

end Machine

/-- A draft id is drawn once. -/
def FreshId (s : Trail P) : TrailAction P → Prop
  | .file _ _ _ _ _ _ draw => (draw.draftId, false) ∉ s.deeds.map Deed.key
  | _ => True

instance (s : Trail P) (a : TrailAction P) : Decidable (FreshId s a) :=
  match a with
  | .file _ _ _ _ _ _ draw =>
    inferInstanceAs (Decidable ((draw.draftId, false) ∉ s.deeds.map Deed.key))
  | .examine _ _ _ _ _ _ _ | .decide _ _ _ _ | .record _ _ _ | .crash _ | .purge _ | .other _ _ =>
    isTrue trivial

/-- **Table and log agree.**  Rows are filed drafts with their decisions; the draft records are, in
order, the records of the deeds that are recorded; and a deed that is neither recorded nor dropped
is one that exactly one process has yet to record. -/
structure Reconciled (s : Trail P) : Prop where
  genuine : ∀ f, .filed f ∈ s.deeds → f.Genuine rt
  once : (s.deeds.map Deed.key).Nodup
  judged : ∀ r, .ruled r ∈ s.deeds → ∃ f, .filed f ∈ s.deeds ∧ f.draft.draftId = r.args.draftId
  rows : ∀ row ∈ s.service.rows, RowBacked s.deeds row
  records : List.Forall₂ (RecordOf rt s.deeds) s.recorded s.draftRecords
  apart : (s.recorded ++ s.dropped).Nodup
  complete : ∀ deed, deed ∈ s.deeds ↔
    deed ∈ s.recorded ++ s.dropped ∨ ∃ p e, s.owes rt p = some (deed, e)
  owed : ∀ p deed e, s.owes rt p = some (deed, e) → deed ∉ s.recorded ++ s.dropped ∧
    ∀ q e', s.owes rt q = some (deed, e') → q = p

/-! ## What a step is -/

section Moves

variable {rt} {s t : Trail P} {p : P} {deed : Deed}

/-- A deed is done in a step: its row is in the table and nothing has been recorded. -/
structure Done (rt : Runtime) (s t : Trail P) (deed : Deed) : Prop where
  new : deed.key ∉ s.deeds.map Deed.key
  genuine : ∀ f, deed = .filed f → f.Genuine rt
  judged : ∀ r, deed = .ruled r → ∃ f, .filed f ∈ s.deeds ∧ f.draft.draftId = r.args.draftId
  rows : ∀ row ∈ t.service.rows, RowBacked t.deeds row
  ids : (t.service.rows.map Row.draftId).Nodup
  records : t.draftRecords = s.draftRecords
  deeds : t.deeds = s.deeds ++ [deed]
  recorded : t.recorded = s.recorded

/-- **What one step can be**, as far as table, log and debts go: nothing is done, though
rows may be purged; something is done, and its process goes on to the record or does not; or
a debt is settled. -/
inductive TrailMove (rt : Runtime) (s t : Trail P) : Prop
  | quiet (hrows : t.service.rows.Sublist s.service.rows) (hrec : t.draftRecords = s.draftRecords)
      (howes : ∀ q, t.owes rt q = s.owes rt q) (hdeeds : t.deeds = s.deeds)
      (hrecorded : t.recorded = s.recorded) (hdropped : t.dropped = s.dropped)
  | kept (p : P) (deed : Deed) (e : String → Entry) (h : Done rt s t deed)
      (hbefore : s.owes rt p = none) (hothers : ∀ q, q ≠ p → t.owes rt q = s.owes rt q)
      (hafter : t.owes rt p = some (deed, e))
      (hrecord : ∀ v, RecordOf rt t.deeds deed (e v)) (hdropped : t.dropped = s.dropped)
  | lost (deed : Deed) (h : Done rt s t deed) (howes : ∀ q, t.owes rt q = s.owes rt q)
      (hdropped : t.dropped = s.dropped ++ [deed])
  | settled (p : P) (deed : Deed) (e : String → Entry) (hbefore : s.owes rt p = some (deed, e))
      (hrows : t.service.rows = s.service.rows) (hdeeds : t.deeds = s.deeds)
      (hnone : t.owes rt p = none)
      (hothers : ∀ q, q ≠ p → t.owes rt q = s.owes rt q)
      (hafter : (∃ v, t.draftRecords = s.draftRecords ++ [e v] ∧ t.recorded = s.recorded ++ [deed] ∧
          t.dropped = s.dropped) ∨
        (t.draftRecords = s.draftRecords ∧ t.recorded = s.recorded ∧
          t.dropped = s.dropped ++ [deed]))

/-- What is carried from state to state: what is promised, and that what is owed are records. -/
structure TrailInv (rt : Runtime) (s : Trail P) : Prop extends Reconciled rt s where
  ids : (s.service.rows.map Row.draftId).Nodup
  debts : ∀ p deed e, s.owes rt p = some (deed, e) → ∀ v, RecordOf rt s.deeds deed (e v)

theorem TrailInv.start (limiter : TokenBucketLimiter) (world : World) :
    TrailInv rt (Trail.start limiter world : Trail P) where
  genuine := fun _ h => absurd h List.not_mem_nil
  once := List.nodup_nil
  judged := fun _ h => absurd h List.not_mem_nil
  rows := fun _ h => absurd h List.not_mem_nil
  records := List.Forall₂.nil
  apart := List.nodup_nil
  complete := by
    intro deed
    refine ⟨fun h => absurd h List.not_mem_nil, ?_⟩
    rintro (h | ⟨p, e, h⟩)
    · exact absurd h List.not_mem_nil
    · cases h
  owed := fun _ _ _ h => nomatch h
  ids := List.nodup_nil
  debts := fun _ _ _ h => nomatch h

/-- A record stays the record of its deed when more is done. -/
theorem RecordOf.mono {deeds more : List Deed} {e : Entry} (h : RecordOf rt deeds deed e) :
    RecordOf rt (deeds ++ more) deed e := by
  cases deed with
  | filed f => exact h
  | ruled r =>
    obtain ⟨f, d, v, hf, hr⟩ := h
    exact ⟨f, d, v, List.mem_append_left _ hf, hr⟩

theorem TrailInv.quiet (hi : TrailInv rt s) (hrows : t.service.rows.Sublist s.service.rows)
    (hrec : t.draftRecords = s.draftRecords) (howes : ∀ q, t.owes rt q = s.owes rt q)
    (hdeeds : t.deeds = s.deeds) (hrecorded : t.recorded = s.recorded)
    (hdropped : t.dropped = s.dropped) : TrailInv rt t := by
  constructor
  · constructor
    · rw [hdeeds]
      exact hi.genuine
    · rw [hdeeds]
      exact hi.once
    · rw [hdeeds]
      exact hi.judged
    · intro row hrow
      rw [hdeeds]
      exact hi.rows row (hrows.subset hrow)
    · rw [hdeeds, hrecorded, hrec]
      exact hi.records
    · rw [hrecorded, hdropped]
      exact hi.apart
    · simp only [hdeeds, hrecorded, hdropped, howes]
      exact hi.complete
    · simp only [hrecorded, hdropped, howes]
      exact hi.owed
  · exact hi.ids.sublist (hrows.map _)
  · simp only [hdeeds, howes]
    exact hi.debts

/-! ### Something is done -/

/-- A deed that is new has not been heard of. -/
theorem Done.unheard (h : Done rt s t deed) (hi : TrailInv rt s) :
    deed ∉ s.recorded ++ s.dropped ∧ ∀ q e, s.owes rt q ≠ some (deed, e) := by
  have hfresh : deed ∉ s.deeds := fun hm => h.new (List.mem_map_of_mem hm)
  exact ⟨fun hm => hfresh ((hi.complete deed).mpr (Or.inl hm)),
    fun q e hq => hfresh ((hi.complete deed).mpr (Or.inr ⟨q, e, hq⟩))⟩

theorem Done.once (h : Done rt s t deed) (hi : TrailInv rt s) : (t.deeds.map Deed.key).Nodup := by
  rw [h.deeds, List.map_append, List.map_singleton, List.nodup_append_comm, List.singleton_append,
    List.nodup_cons]
  exact ⟨h.new, hi.once⟩

theorem Done.all_genuine (h : Done rt s t deed) (hi : TrailInv rt s) :
    ∀ f, .filed f ∈ t.deeds → f.Genuine rt := by
  intro f hf
  rw [h.deeds] at hf
  rcases List.mem_append.mp hf with hf | hf
  · exact hi.genuine f hf
  · exact h.genuine f (List.mem_singleton.mp hf).symm

theorem Done.all_judged (h : Done rt s t deed) (hi : TrailInv rt s) :
    ∀ r, .ruled r ∈ t.deeds → ∃ f, .filed f ∈ t.deeds ∧ f.draft.draftId = r.args.draftId := by
  intro r hr
  have hfiled : ∃ f, .filed f ∈ s.deeds ∧ f.draft.draftId = r.args.draftId := by
    rw [h.deeds] at hr
    rcases List.mem_append.mp hr with hr | hr
    · exact hi.judged r hr
    · exact h.judged r (List.mem_singleton.mp hr).symm
  obtain ⟨f, hf, hid⟩ := hfiled
  exact ⟨f, h.deeds ▸ List.mem_append_left _ hf, hid⟩

theorem Done.all_records (h : Done rt s t deed) (hi : TrailInv rt s) :
    List.Forall₂ (RecordOf rt t.deeds) t.recorded t.draftRecords := by
  rw [h.recorded, h.records, h.deeds]
  exact hi.records.imp (fun _ _ hr => hr.mono)

/-- Its process goes on to the record. -/
theorem TrailInv.kept (hi : TrailInv rt s) (h : Done rt s t deed) {e : String → Entry}
    (hbefore : s.owes rt p = none) (hothers : ∀ q, q ≠ p → t.owes rt q = s.owes rt q)
    (hafter : t.owes rt p = some (deed, e)) (hrecord : ∀ v, RecordOf rt t.deeds deed (e v))
    (hdropped : t.dropped = s.dropped) : TrailInv rt t := by
  obtain ⟨hended, hnobody⟩ := h.unheard hi
  have howes : ∀ q d e', t.owes rt q = some (d, e') →
      (q = p ∧ d = deed ∧ e' = e) ∨ s.owes rt q = some (d, e') := by
    intro q d e' hq
    by_cases hqp : q = p
    · subst hqp
      rw [hafter, Option.some.injEq, Prod.mk.injEq] at hq
      exact Or.inl ⟨rfl, hq.1.symm, hq.2.symm⟩
    · exact Or.inr ((hothers q hqp).symm.trans hq)
  have hstill : ∀ q d e', s.owes rt q = some (d, e') → t.owes rt q = some (d, e') := by
    intro q d e' hq
    refine (hothers q ?_).trans hq
    rintro rfl
    rw [hbefore] at hq
    cases hq
  constructor
  · refine ⟨h.all_genuine hi, h.once hi, h.all_judged hi, h.rows, h.all_records hi, ?_, fun d => ?_,
      fun q d e' hq => ?_⟩
    · rw [h.recorded, hdropped]
      exact hi.apart
    · rw [h.deeds, List.mem_append, List.mem_singleton, hi.complete d, h.recorded, hdropped]
      constructor
      · rintro ((hm | ⟨q, e', hq⟩) | rfl)
        · exact Or.inl hm
        · exact Or.inr ⟨q, e', hstill q d e' hq⟩
        · exact Or.inr ⟨p, e, hafter⟩
      · rintro (hm | ⟨q, e', hq⟩)
        · exact Or.inl (Or.inl hm)
        · rcases howes q d e' hq with ⟨-, rfl, -⟩ | hq
          · exact Or.inr rfl
          · exact Or.inl (Or.inr ⟨q, e', hq⟩)
    · rw [h.recorded, hdropped]
      rcases howes q d e' hq with ⟨rfl, rfl, rfl⟩ | hq
      · refine ⟨hended, fun q' e'' hq' => ?_⟩
        rcases howes q' _ e'' hq' with ⟨rfl, -⟩ | hq'
        · rfl
        · exact absurd hq' (hnobody q' e'')
      · obtain ⟨hout, hunique⟩ := hi.owed q d e' hq
        refine ⟨hout, fun q' e'' hq' => ?_⟩
        rcases howes q' _ e'' hq' with ⟨-, rfl, -⟩ | hq'
        · exact absurd hq (hnobody q e')
        · exact hunique q' e'' hq'
  · exact h.ids
  · intro q d e' hq v
    rcases howes q d e' hq with ⟨-, rfl, rfl⟩ | hq
    · exact hrecord v
    · rw [h.deeds]
      exact (hi.debts q d e' hq v).mono

/-- Its process ends before the record. -/
theorem TrailInv.lost (hi : TrailInv rt s) (h : Done rt s t deed)
    (howes : ∀ q, t.owes rt q = s.owes rt q) (hdropped : t.dropped = s.dropped ++ [deed]) :
    TrailInv rt t := by
  obtain ⟨hended, hnobody⟩ := h.unheard hi
  have hmem : ∀ d, d ∈ t.recorded ++ t.dropped ↔ d ∈ s.recorded ++ s.dropped ∨ d = deed := by
    intro d
    rw [h.recorded, hdropped, ← List.append_assoc, List.mem_append, List.mem_singleton]
  constructor
  · refine ⟨h.all_genuine hi, h.once hi, h.all_judged hi, h.rows, h.all_records hi, ?_, fun d => ?_,
      fun q d e' hq => ?_⟩
    · rw [h.recorded, hdropped, ← List.append_assoc, List.nodup_append_comm, List.singleton_append,
        List.nodup_cons]
      exact ⟨hended, hi.apart⟩
    · simp only [howes]
      rw [h.deeds, List.mem_append, List.mem_singleton, hi.complete d, hmem]
      exact or_right_comm
    · simp only [howes] at hq ⊢
      obtain ⟨hout, hunique⟩ := hi.owed q d e' hq
      refine ⟨?_, hunique⟩
      rw [hmem]
      rintro (hm | rfl)
      · exact hout hm
      · exact hnobody q e' hq
  · exact h.ids
  · intro q d e' hq v
    rw [howes] at hq
    rw [h.deeds]
    exact (hi.debts q d e' hq v).mono

/-! ### A debt is settled -/

theorem TrailInv.settled (hi : TrailInv rt s) {e : String → Entry}
    (hbefore : s.owes rt p = some (deed, e)) (hrows : t.service.rows = s.service.rows)
    (hdeeds : t.deeds = s.deeds) (hnone : t.owes rt p = none)
    (hothers : ∀ q, q ≠ p → t.owes rt q = s.owes rt q)
    (hafter : (∃ v, t.draftRecords = s.draftRecords ++ [e v] ∧ t.recorded = s.recorded ++ [deed] ∧
        t.dropped = s.dropped) ∨
      (t.draftRecords = s.draftRecords ∧ t.recorded = s.recorded ∧
        t.dropped = s.dropped ++ [deed])) :
    TrailInv rt t := by
  obtain ⟨hout, hunique⟩ := hi.owed p deed e hbefore
  have howes : ∀ q d e', t.owes rt q = some (d, e') ↔ q ≠ p ∧ s.owes rt q = some (d, e') := by
    intro q d e'
    by_cases hqp : q = p
    · rw [hqp, hnone]
      exact iff_of_false (by simp) (fun h => h.1 rfl)
    · rw [hothers q hqp]
      exact ⟨fun h => ⟨hqp, h⟩, And.right⟩
  -- whether its record has landed or not, the deed is among the ended ones now
  have hperm : (t.recorded ++ t.dropped).Perm (deed :: (s.recorded ++ s.dropped)) := by
    rcases hafter with ⟨v, -, hr, hd⟩ | ⟨-, hr, hd⟩
    · rw [hr, hd, List.append_assoc, List.singleton_append]
      exact List.perm_middle
    · rw [hr, hd, ← List.append_assoc]
      exact List.perm_append_singleton deed _
  have hmem : ∀ d, d ∈ t.recorded ++ t.dropped ↔ d = deed ∨ d ∈ s.recorded ++ s.dropped := by
    intro d
    rw [hperm.mem_iff, List.mem_cons]
  constructor
  · refine ⟨?_, ?_, ?_, ?_, ?_, ?_, fun d => ?_, fun q d e' hq => ?_⟩
    · rw [hdeeds]
      exact hi.genuine
    · rw [hdeeds]
      exact hi.once
    · rw [hdeeds]
      exact hi.judged
    · rw [hrows, hdeeds]
      exact hi.rows
    · rw [hdeeds]
      rcases hafter with ⟨v, hrec, hr, -⟩ | ⟨hrec, hr, -⟩
      · rw [hrec, hr]
        exact List.rel_append hi.records
          (List.Forall₂.cons (hi.debts p deed e hbefore v) List.Forall₂.nil)
      · rw [hrec, hr]
        exact hi.records
    · exact hperm.nodup_iff.mpr (List.nodup_cons.mpr ⟨hout, hi.apart⟩)
    · rw [hdeeds, hi.complete d, hmem]
      constructor
      · rintro (hm | ⟨q, e', hq⟩)
        · exact Or.inl (Or.inr hm)
        · by_cases hqp : q = p
          · rw [hqp, hbefore, Option.some.injEq, Prod.mk.injEq] at hq
            exact Or.inl (Or.inl hq.1.symm)
          · exact Or.inr ⟨q, e', (howes q d e').mpr ⟨hqp, hq⟩⟩
      · rintro ((rfl | hm) | ⟨q, e', hq⟩)
        · exact Or.inr ⟨p, e, hbefore⟩
        · exact Or.inl hm
        · exact Or.inr ⟨q, e', ((howes q d e').mp hq).2⟩
    · obtain ⟨hqp, hq⟩ := (howes q d e').mp hq
      obtain ⟨hout', hunique'⟩ := hi.owed q d e' hq
      refine ⟨?_, fun q' e'' hq' => hunique' q' e'' ((howes q' d e'').mp hq').2⟩
      rw [hmem]
      rintro (rfl | hm)
      · exact hqp (hunique q e' hq)
      · exact hout' hm
  · rw [hrows]
    exact hi.ids
  · intro q d e' hq v
    rw [hdeeds]
    exact hi.debts q d e' ((howes q d e').mp hq).2 v

theorem TrailInv.move (hi : TrailInv rt s) (h : TrailMove rt s t) : TrailInv rt t := by
  cases h with
  | quiet hrows hrec howes hdeeds hrecorded hdropped =>
    exact hi.quiet hrows hrec howes hdeeds hrecorded hdropped
  | kept p deed e h hbefore hothers hafter hrecord hdropped =>
    exact hi.kept h hbefore hothers hafter hrecord hdropped
  | lost deed h howes hdropped => exact hi.lost h howes hdropped
  | settled p deed e hbefore hrows hdeeds hnone hothers hafter =>
    exact hi.settled hbefore hrows hdeeds hnone hothers hafter

end Moves

/-! ## What each part of a step does -/

section Parts

variable {rt} {clock : Nat → String} {log : AuditLog} {svc : Service} {s : FilingState}

theorem insertDraft_cases (draw : FilingDraw) (d : Draft) (rows : List Row) :
    insertDraft draw d rows = (.error .other, rows) ∨
      (d.draftId ∉ rows.map Row.draftId ∧
        (insertDraft draw d rows = (.error .other, rows ++ [rowOf d]) ∨
        insertDraft draw d rows = (.ok (), rows ++ [rowOf d]))) := by
  unfold insertDraft
  by_cases hstore : draw.storeFails = true ∨ d.draftId ∈ rows.map Row.draftId
  -- the INSERT fails, on a lost connection or an id that is taken
  · exact Or.inl (if_pos hstore)
  · refine Or.inr ⟨(not_or.mp hstore).2, ?_⟩
    rw [if_neg hstore]
    -- the row is in; an error after the COMMIT still raises
    by_cases hclose : draw.closeFails = true
    · exact Or.inl (if_pos hclose)
    · exact Or.inr (if_neg hclose)

/-- **How `draft_create` begins**: it is refused without a trace in the table, or a genuine draft is
inserted under the id that was drawn. -/
theorem beginFiling_cases (version : Except PyError String)
    (users : Except PyError (List User)) (now : ℚ) (caller : CallerIdentity) (a : DraftArgs)
    (draw : FilingDraw) :
    ∃ limiter rows stage filed, beginFiling rt svc version users now caller a draw s =
        ({ s with limiter, rows }, stage, filed) ∧
      ((filed = none ∧ rows = s.rows ∧ (stage = none ∨ ∃ e, stage = some (.refusing e))) ∨
        ∃ f, filed = some f ∧ f.Genuine rt ∧ f.draft.draftId = draw.draftId ∧
          draw.draftId ∉ s.rows.map Row.draftId ∧ rows = s.rows ++ [rowOf f.draft] ∧
          (stage = some (.accepting f) ∨ ∃ e, stage = some (.refusing e))) := by
  unfold beginFiling
  cases version with
  | error e => exact ⟨s.limiter, s.rows, none, none, rfl, Or.inl ⟨rfl, rfl, Or.inl rfl⟩⟩
  | ok v =>
    cases users with
    | error e => exact ⟨s.limiter, s.rows, _, none, rfl, Or.inl ⟨rfl, rfl, Or.inr ⟨_, rfl⟩⟩⟩
    | ok us =>
      dsimp only
      rcases admitUser rt us s.limiter ⟨caller.requester, some ANALYST_GROUP, now⟩ with ⟨r, limiter⟩
      cases r with
      | error e => exact ⟨limiter, s.rows, _, none, rfl, Or.inl ⟨rfl, rfl, Or.inr ⟨_, rfl⟩⟩⟩
      | ok user =>
        dsimp only
        cases hd : draftCreate rt svc.alnum svc.data a user.upn draw.draftId draw.created with
        | error e => exact ⟨limiter, s.rows, _, none, rfl, Or.inl ⟨rfl, rfl, Or.inr ⟨_, rfl⟩⟩⟩
        | ok d =>
          have hof := draftOf_draftCreate hd
          have hgen : Filing.Genuine rt ⟨a, caller, v, user, d⟩ := by
            have hnew := (createDraft_new (draftCreate_ok hd).2).1
            exact ⟨hof.id.symm ▸ hof, hof.body ▸ hnew.hash, hnew.decision⟩
          have hlen : (s.rows ++ [rowOf d]).length ≠ s.rows.length := by simp
          obtain hins | ⟨hid, hins | hins⟩ := insertDraft_cases draw d s.rows
          · simp only [hins, if_true]
            exact ⟨limiter, s.rows, _, none, rfl, Or.inl ⟨rfl, rfl, Or.inr ⟨_, rfl⟩⟩⟩
          · simp only [hins, if_neg hlen]
            exact ⟨limiter, _, _, _, rfl, Or.inr ⟨_, rfl, hgen, hof.id, hof.id ▸ hid, rfl,
              Or.inr ⟨_, rfl⟩⟩⟩
          · simp only [hins]
            exact ⟨limiter, _, _, _, rfl, Or.inr ⟨_, rfl, hgen, hof.id, hof.id ▸ hid,
              rfl, Or.inl rfl⟩⟩

theorem answerError_state (a : DraftArgs) (caller : CallerIdentity) (v : String) (e : PyError)
    (draw : WriteDraw) :
    (answerError rt clock log a caller v e draw s).2 =
      (s.write rt clock log (refusedFiling rt a caller v e).val draw).2 := by
  unfold answerError
  split
  · next s' hw => exact (congrArg Prod.snd hw).symm
  · next e' s' hw => exact (congrArg Prod.snd hw).symm

/-- **A filing with nobody in between is a call of `draft_create`.** -/
theorem fileCall_eq (version : Except PyError String) (users : Except PyError (List User)) (now : ℚ)
    (caller : CallerIdentity) (a : DraftArgs) (draw : FilingDraw) :
    (fileCall rt clock log svc version users now caller a draw s).2 =
      endFiling rt clock log draw (beginFiling rt svc version users now caller a draw s).1
        (beginFiling rt svc version users now caller a draw s).2.1 := by
  unfold fileCall beginFiling
  cases version with
  | error e => rfl
  | ok v =>
    cases users with
    | error e => exact answerError_state a caller v e draw.first
    | ok us =>
      dsimp only
      rcases admitUser rt us s.limiter ⟨caller.requester, some ANALYST_GROUP, now⟩ with ⟨r, limiter⟩
      cases r with
      | error e => exact answerError_state a caller v e draw.first
      | ok user =>
        dsimp only
        cases draftCreate rt svc.alnum svc.data a user.upn draw.draftId draw.created with
        | error e => exact answerError_state a caller v e draw.first
        | ok d =>
          dsimp only
          rcases insertDraft draw d s.rows with ⟨r, rows⟩
          cases r with
          | error e => exact answerError_state a caller v e draw.first
          | ok u =>
            dsimp only [endFiling, Filing.record]
            rcases FilingState.write rt clock log { s with limiter, rows }
              (filingEntry rt a caller v user.upn "ok" (queuedSummary d.draftId a.kind))
                draw.first with ⟨w, s'⟩
            cases w with
            | ok u => rfl
            | error e => exact answerError_state a caller v e draw.second

/-- A decision that is returned has committed, and is read from the rows it left. -/
theorem decideDraft_ok {c : DecideArgs} {fault : Option DecideFault} {rows : List Row} {d : Draft}
    (h : (decideDraft rt c fault rows).1 = .ok d) :
    commits c fault rows = true ∧ getDraft rt (decideRows c rows) c.draftId = .ok (some d) := by
  by_cases hb : fault = some .beforeCommit
  · rw [decideDraft_cut hb] at h
    cases h
  by_cases hcount : rows.countP (matchesPending c) = 1
  · refine ⟨commits_iff.mpr ⟨hb, hcount⟩, ?_⟩
    by_cases ha : fault = some .afterCommit
    · rw [decideDraft_late hcount ha] at h
      cases h
    · rw [decideDraft, if_neg hb, if_neg (not_not.mpr hcount), if_neg ha] at h
      cases hd : getDraft rt (decideRows c rows) c.draftId with
      | error e =>
        rw [hd] at h
        cases h
      | ok o =>
        cases o with
        | none =>
          rw [hd] at h
          cases h
        | some d' =>
          rw [hd] at h
          cases h
          rfl
  · rw [decideDraft_conflict hb hcount] at h
    cases h

theorem toDraft_content {r : Row} {d : Draft} (h : toDraft rt r = .ok d) :
    d.contentSha256 = r.contentSha256 := by
  unfold toDraft at h
  simp only [bind, Except.bind, pure, Except.pure] at h
  split at h
  · cases h
  split at h
  · cases h
  cases hl : rt.loads r.relatedIds.toList with
  | none =>
    rw [hl] at h
    cases h
  | some j =>
    rw [hl] at h
    simp only at h
    split at h
    · cases h
    split at h
    · cases h
    split at h
    · cases h
    cases h
    rfl

theorem isDraftRecord_record (f : Filing) : isDraftRecord (f.record rt) = true := by
  simp [isDraftRecord, Filing.record, filingEntry]

theorem isDraftRecord_decision (args : ReviewArgs) (osUser : String) (approver : User) (d : Draft)
    (v : String) :
    isDraftRecord (decisionEntry args osUser approver d v) = true := by
  have htool : ["draft_create", "draft_approved", "draft_rejected"].contains
      ("draft_" ++ args.cmd.decision.value) = true := by
    cases args.cmd <;> decide
  unfold isDraftRecord decisionEntry
  simp only [htool, decide_true, Bool.and_self]

end Parts

/-! ## Every step is a move -/

section Step

variable {rt} {clock : Nat → String} {log : AuditLog} {svc : Service} {decode : TokenDecoder}
  {s t : Trail P}

theorem Trail.draftRecords_write (s : Trail P) (e : Entry) (draw : WriteDraw) :
    ({ s with service := (s.service.write rt clock log e draw).2 } : Trail P).draftRecords =
      if lands rt log ⟨e, draw.stamp, draw.markerStamp⟩ s.service.world draw.fault = true ∧
        isDraftRecord e = true
      then s.draftRecords ++ [e] else s.draftRecords := by
  unfold Trail.draftRecords FilingState.write
  dsimp only
  by_cases hl : lands rt log ⟨e, draw.stamp, draw.markerStamp⟩ s.service.world draw.fault = true
  · rw [if_pos hl, List.filter_append]
    by_cases he : isDraftRecord e = true
    · rw [if_pos ⟨hl, he⟩, List.filter_cons, if_pos he, List.filter_nil]
    · rw [if_neg (fun h => he h.2), List.filter_cons, if_neg he, List.filter_nil, List.append_nil]
  · rw [if_neg hl, if_neg (fun h => hl h.1)]

theorem Trail.draftRecords_other (s : Trail P) (e : OtherEntry) (draw : WriteDraw) :
    ({ s with service := (s.service.write rt clock log e.val draw).2 } : Trail P).draftRecords =
      s.draftRecords := by
  rw [draftRecords_write, if_neg (fun hl => Bool.false_ne_true (e.property.symm.trans hl.2))]

/-- A filed draft is a row of its own. -/
theorem TrailInv.done_filed (hi : TrailInv rt s) {f : Filing} (hgen : f.Genuine rt)
    (hnew : (f.draft.draftId, false) ∉ s.deeds.map Deed.key)
    (hid : f.draft.draftId ∉ s.service.rows.map Row.draftId)
    (hrows : t.service.rows = s.service.rows ++ [rowOf f.draft])
    (hrec : t.draftRecords = s.draftRecords) (hdeeds : t.deeds = s.deeds ++ [.filed f])
    (hrecorded : t.recorded = s.recorded) : Done rt s t (.filed f) where
  new := hnew
  genuine := by
    rintro f' h
    cases h
    exact hgen
  judged := by
    rintro r h
    cases h
  rows := by
    -- a decision is of a draft that was filed before, so none is of this one
    have hnobody : ∀ r, .ruled r ∈ s.deeds → r.args.draftId ≠ f.draft.draftId := by
      intro r hr he
      obtain ⟨g, hg, hgid⟩ := hi.judged r hr
      exact hnew (List.mem_map.mpr ⟨.filed g, hg, congrArg (·, false) (hgid.trans he)⟩)
    rw [hrows, hdeeds]
    intro row hrow
    rcases List.mem_append.mp hrow with hrow | hrow
    · obtain ⟨g, hg, h⟩ := hi.rows row hrow
      refine ⟨g, List.mem_append_left _ hg, h.imp (fun h => ⟨h.1, fun r hr => ?_⟩) ?_⟩
      · rcases List.mem_append.mp hr with hr | hr
        · exact h.2 r hr
        · cases List.mem_singleton.mp hr
      · rintro ⟨r, hr, h⟩
        exact ⟨r, List.mem_append_left _ hr, h⟩
    · refine ⟨f, List.mem_append_right _ List.mem_cons_self,
        Or.inl ⟨List.mem_singleton.mp hrow, fun r hr => ?_⟩⟩
      rcases List.mem_append.mp hr with hr | hr
      · exact hnobody r hr
      · cases List.mem_singleton.mp hr
  ids := by
    rw [hrows, List.map_append, List.map_singleton, List.nodup_append_comm, List.singleton_append,
      List.nodup_cons]
    exact ⟨hid, hi.ids⟩
  records := hrec
  deeds := hdeeds
  recorded := hrecorded

/-- A decision that commits is the first of its draft. -/
theorem TrailInv.done_ruled (hi : TrailInv rt s) {r : Ruled} {fault : Option DecideFault}
    (hcommit : commits r.decideArgs fault s.service.rows = true)
    (hrows : t.service.rows = decideRows r.decideArgs s.service.rows)
    (hrec : t.draftRecords = s.draftRecords) (hdeeds : t.deeds = s.deeds ++ [.ruled r])
    (hrecorded : t.recorded = s.recorded) :
    Done rt s t (.ruled r) := by
  obtain ⟨moved, hmoved, hmatch⟩ :
      ∃ row ∈ s.service.rows, matchesPending r.decideArgs row = true := by
    have hcount := (commits_iff.mp hcommit).2
    exact List.countP_pos_iff.mp (by omega)
  obtain ⟨hid, hpending⟩ := matchesPending_iff.mp hmatch
  have hnot : ∀ row, (decideRow r.decideArgs row).status ≠ "pending" :=
    decideRow_not_pending r.args.cmd.decision_ne_pending
  -- the row is as it was filed, so nobody has decided the draft
  obtain ⟨f, hf, ⟨hrow, hnone⟩ | ⟨r', -, -, hrow⟩⟩ := hi.rows moved hmoved
  case inr =>
    exact absurd (hrow ▸ hpending) (decideRow_not_pending r'.args.cmd.decision_ne_pending _)
  have hfid : f.draft.draftId = r.args.draftId := by
    rw [hrow] at hid
    exact hid
  refine ⟨?_, fun f h => (by cases h), ?_, ?_, ?_, hrec, hdeeds, hrecorded⟩
  · intro hm
    obtain ⟨deed, hdeed, hkey⟩ := List.mem_map.mp hm
    cases deed with
    | filed g => exact absurd (congrArg Prod.snd hkey) Bool.false_ne_true
    | ruled r' =>
      have he : r'.args.draftId = r.args.draftId := congrArg Prod.fst hkey
      exact hnone r' hdeed (he.trans hfid.symm)
  · rintro r' h
    cases h
    exact ⟨f, hf, hfid⟩
  · rw [hrows, hdeeds]
    intro row' hrow'
    obtain ⟨row, hrow, hrid, ⟨hm, rfl⟩ | ⟨hm, rfl⟩⟩ := mem_decideRows hrow'
    · obtain rfl : row = moved :=
        List.inj_on_of_nodup_map hi.ids hrow hmoved ((matchesPending_iff.mp hm).1.trans hid.symm)
      exact ⟨f, List.mem_append_left _ hf,
        Or.inr ⟨r, List.mem_append_right _ List.mem_cons_self, hfid.symm, congrArg _ ‹_›⟩⟩
    · obtain ⟨g, hg, ⟨hrowg, hnoneg⟩ | ⟨r', hr', h⟩⟩ := hi.rows row' hrow
      · refine ⟨g, List.mem_append_left _ hg, Or.inl ⟨hrowg, fun r' hr' => ?_⟩⟩
        rcases List.mem_append.mp hr' with hr' | hr'
        · exact hnoneg r' hr'
        · -- a filed row of the id would have been moved
          rw [Deed.ruled.inj (List.mem_singleton.mp hr')]
          intro he
          have hstatus : (rowOf g.draft).status = "pending" :=
            congrArg DraftStatus.value (hi.genuine g hg).drafted.pending
          have hmoved' : matchesPending r.decideArgs row' = true :=
            matchesPending_iff.mpr ⟨by rw [hrowg]; exact he.symm, by rw [hrowg]; exact hstatus⟩
          rw [hm] at hmoved'
          cases hmoved'
      · exact ⟨g, List.mem_append_left _ hg, Or.inr ⟨r', List.mem_append_left _ hr', h⟩⟩
  · rw [hrows, decideRows_ids]
    exact hi.ids

/-- What is read back of a decision has the content that was filed. -/
theorem TrailInv.content (hi : TrailInv rt s) {draftId : String} {d : Draft} {r : Ruled}
    (h : getDraft rt (decideRows r.decideArgs s.service.rows) draftId = .ok (some d)) :
    ∃ f, .filed f ∈ s.deeds ∧ f.draft.draftId = draftId ∧
    d.contentSha256 = f.draft.contentSha256 := by
  obtain ⟨row', hrow', hid, hd⟩ := getDraft_row h
  obtain ⟨row, hrow, hrid, hcase⟩ := mem_decideRows hrow'
  have hcontent : row'.contentSha256 = row.contentSha256 := by
    rcases hcase with ⟨-, rfl⟩ | ⟨-, rfl⟩ <;> rfl
  obtain ⟨f, hf, hback⟩ := hi.rows row hrow
  have hfrow : row.draftId = f.draft.draftId ∧ row.contentSha256 = f.draft.contentSha256 := by
    rcases hback with ⟨rfl, -⟩ | ⟨r', -, -, rfl⟩ <;> exact ⟨rfl, rfl⟩
  refine ⟨f, hf, ?_, ?_⟩
  · rw [← hfrow.1, ← hrid, hid]
  · rw [toDraft_content hd, hcontent, hfrow.2]

variable [DecidableEq P]

theorem Trail.owes_goto_self (s : Trail P) (p : P) (stage : Option Stage) :
    (s.goto p stage).owes rt p = stage.bind (Stage.owes rt) :=
  congrArg (Option.bind · _) (Function.update_self ..)

theorem Trail.owes_goto_of_ne (s : Trail P) {p q : P} (h : q ≠ p) (stage : Option Stage) :
    (s.goto p stage).owes rt q = s.owes rt q :=
  congrArg (Option.bind · _) (Function.update_of_ne h ..)

/-- A process that owes nothing before and after is of no account. -/
theorem Trail.owes_goto_none (s : Trail P) {p : P} {stage : Option Stage} (hb : s.owes rt p = none)
    (ha : stage.bind (Stage.owes rt) = none) (q : P) :
    (s.goto p stage).owes rt q = s.owes rt q := by
  by_cases h : q = p
  · rw [h, owes_goto_self, ha, hb]
  · exact s.owes_goto_of_ne h stage

theorem owes_afterError (args : ReviewArgs) (osUser : String) (version : Except PyError String)
    (e : PyError) :
    (afterError args osUser version e).bind (Stage.owes rt) = none := by
  unfold afterError
  split <;> rfl

theorem TrailInv.move_file (hi : TrailInv rt s) {p : P} {version : Except PyError String}
    {users : Except PyError (List User)} {now : ℚ} {caller : CallerIdentity} {a : DraftArgs}
    {draw : FilingDraw} (hfresh : (draw.draftId, false) ∉ s.deeds.map Deed.key)
    (h : trailStep rt clock log svc decode s (.file p version users now caller a draw) = some t) :
    TrailMove rt s t := by
  simp only [trailStep] at h
  split at h
  · cases h
  next hfree =>
  have hbefore : s.owes rt p = none := by
    rw [Trail.owes, Option.not_isSome_iff_eq_none.mp hfree]
    rfl
  obtain ⟨limiter, rows, stage, filed, hr, hcase⟩ :=
    @beginFiling_cases rt svc s.service version users now caller a draw
  rw [hr] at h
  rcases hcase with ⟨rfl, rfl, hstage⟩ | ⟨f, rfl, hgen, hid, hnew, rfl, hstage⟩
  · cases h
    have hnothing : stage.bind (Stage.owes rt) = none := by
      rcases hstage with rfl | ⟨e, rfl⟩ <;> rfl
    exact .quiet (List.Sublist.refl _) rfl (Trail.owes_goto_none _ hbefore hnothing) rfl rfl rfl
  · cases h
    have hdone : ∀ kept, Done rt s ((Trail.goto { s with service :=
        { s.service with limiter := limiter, rows := s.service.rows ++ [rowOf f.draft] } } p
          stage).did kept
        (.filed f)) (.filed f) := by
      intro kept
      rw [← hid] at hnew hfresh
      exact hi.done_filed hgen hfresh hnew rfl rfl rfl rfl
    rw [Trail.owes_goto_self]
    rcases hstage with rfl | ⟨e, rfl⟩
    · refine .kept p (.filed f) _ (hdone true) hbefore (fun q hq => ?_) (Trail.owes_goto_self ..)
        (fun v => rfl) rfl
      exact Trail.owes_goto_of_ne _ hq _
    · exact .lost (.filed f) (hdone false) (Trail.owes_goto_none _ hbefore rfl) rfl

theorem TrailInv.move_decide (hi : TrailInv rt s) {p : P} {at_ : String}
    {fault : Option DecideFault} {version : Except PyError String}
    (h : trailStep rt clock log svc decode s (.decide p at_ fault version) = some t) :
    TrailMove rt s t := by
  simp only [trailStep] at h
  split at h
  case h_2 => cases h
  next args osUser approver hp =>
  have hbefore : s.owes rt p = none := by
    rw [Trail.owes, hp]
    rfl
  obtain ⟨r, hr⟩ : ∃ r : Ruled, r = ⟨args, osUser, approver, at_⟩ := ⟨_, rfl⟩
  rw [← hr] at h
  have hrows := @decideDraft_rows rt r.decideArgs fault s.service.rows
  cases h
  by_cases hcommit : commits r.decideArgs fault s.service.rows = true
  · rw [if_pos hcommit] at hrows ⊢
    have hdone : ∀ kept stage, Done rt s ((Trail.goto { s with service :=
        { s.service with rows := (decideDraft rt r.decideArgs fault s.service.rows).2 } } p
          stage).did kept
        (.ruled r)) (.ruled r) :=
      fun kept stage => hi.done_ruled hcommit hrows rfl rfl rfl
    rw [Trail.owes_goto_self]
    cases hd : (decideDraft rt r.decideArgs fault s.service.rows).1 with
    | error e =>
      dsimp only
      rw [owes_afterError]
      exact .lost (.ruled r) (hdone false _)
        (Trail.owes_goto_none _ hbefore (owes_afterError ..)) rfl
    | ok d =>
      refine .kept p (.ruled r) _ (hdone true _) hbefore (fun q hq => ?_) (Trail.owes_goto_self ..)
        (fun v => ?_) rfl
      · exact Trail.owes_goto_of_ne _ hq _
      · obtain ⟨f, hf, hfid, hcontent⟩ := hi.content (decideDraft_ok hd).2
        exact ⟨f, d, v, List.mem_append_left _ hf, hfid, hcontent, rfl⟩
  · rw [if_neg hcommit] at hrows ⊢
    have hsub : (decideDraft rt r.decideArgs fault s.service.rows).2.Sublist s.service.rows := by
      rw [hrows]
    cases hd : (decideDraft rt r.decideArgs fault s.service.rows).1 with
    | ok d => exact absurd (decideDraft_ok hd).1 hcommit
    | error e =>
      exact .quiet hsub rfl (Trail.owes_goto_none _ hbefore (owes_afterError ..)) rfl rfl rfl

/-- A process that has owed a deed ends, or goes on to a refusal. -/
theorem move_settle {p : P} {deed : Deed} {e : String → Entry}
    (hbefore : s.owes rt p = some (deed, e)) (v : String) (he : isDraftRecord (e v) = true)
    (draw : WriteDraw) {stage : Option Stage} (hstage : stage.bind (Stage.owes rt) = none) :
    TrailMove rt s ((({ s with service := (s.service.write rt clock log (e v) draw).2 } :
      Trail P).settle
      (lands rt log ⟨e v, draw.stamp, draw.markerStamp⟩ s.service.world draw.fault) deed).goto
        p stage) := by
  have hrec := @Trail.draftRecords_write rt P clock log s (e v) draw
  unfold Trail.settle
  by_cases hl : lands rt log ⟨e v, draw.stamp, draw.markerStamp⟩ s.service.world draw.fault = true
  · rw [if_pos ⟨hl, he⟩] at hrec
    rw [if_pos hl]
    refine .settled p deed e hbefore rfl rfl ((Trail.owes_goto_self ..).trans hstage)
      (fun q hq => ?_) (Or.inl ⟨v, hrec, rfl, rfl⟩)
    exact Trail.owes_goto_of_ne _ hq _
  · rw [if_neg (fun h => hl h.1)] at hrec
    rw [if_neg hl]
    refine .settled p deed e hbefore rfl rfl ((Trail.owes_goto_self ..).trans hstage)
      (fun q hq => ?_) (Or.inr ⟨hrec, rfl, rfl⟩)
    exact Trail.owes_goto_of_ne _ hq _

/-- A debt that nobody will pay. -/
theorem move_drop {p : P} {deed : Deed} {e : String → Entry}
    (hbefore : s.owes rt p = some (deed, e)) :
    TrailMove rt s ((s.settle false deed).goto p none) := by
  refine .settled p deed e hbefore rfl rfl (Trail.owes_goto_self ..) (fun q hq => ?_)
    (Or.inr ⟨rfl, rfl, rfl⟩)
  exact Trail.owes_goto_of_ne _ hq _

theorem move_record {p : P} {version : Except PyError String} {draw : WriteDraw}
    (h : trailStep rt clock log svc decode s (.record p version draw) = some t) :
    TrailMove rt s t := by
  simp only [trailStep] at h
  split at h
  · next f hp =>
    have hbefore : s.owes rt p = some (.filed f, fun _ => f.record rt) := by
      rw [Trail.owes, hp]
      rfl
    cases h
    refine move_settle hbefore "" (isDraftRecord_record f) draw ?_
    split <;> rfl
  · next r d _ hp =>
    have hbefore : s.owes rt p = some (.ruled r, decisionEntry r.args r.osUser r.approver d) := by
      rw [Trail.owes, hp]
      rfl
    cases h
    exact move_drop hbefore
  · next r d v hp =>
    have hbefore : s.owes rt p = some (.ruled r, decisionEntry r.args r.osUser r.approver d) := by
      rw [Trail.owes, hp]
      rfl
    cases h
    exact move_settle hbefore v (isDraftRecord_decision ..) draw rfl
  · next e hp =>
    have hbefore : s.owes rt p = none := by
      rw [Trail.owes, hp]
      rfl
    cases h
    exact .quiet (List.Sublist.refl _) (Trail.draftRecords_other s e draw)
      (Trail.owes_goto_none _ hbefore rfl) rfl rfl rfl
  · cases h

/-- **Every step is a move.** -/
theorem TrailInv.move_of_step (hi : TrailInv rt s) {act : TrailAction P} (hfresh : FreshId s act)
    (h : trailStep rt clock log svc decode s act = some t) : TrailMove rt s t := by
  cases act with
  | file p version users now caller a draw => exact hi.move_file hfresh h
  | examine p settings args osUser users version getFails =>
    simp only [trailStep] at h
    split at h
    · cases h
    next hfree =>
    have hbefore : s.owes rt p = none := by
      rw [Trail.owes, Option.not_isSome_iff_eq_none.mp hfree]
      rfl
    cases h
    split
    · exact .quiet (List.Sublist.refl _) rfl
        (Trail.owes_goto_none _ hbefore (owes_afterError ..)) rfl rfl rfl
    · exact .quiet (List.Sublist.refl _) rfl (Trail.owes_goto_none _ hbefore rfl) rfl rfl rfl
  | decide p at_ fault version => exact hi.move_decide h
  | record p version draw => exact move_record h
  | crash p =>
    cases h
    split
    · next hnone =>
        exact .quiet (List.Sublist.refl _) rfl (Trail.owes_goto_none _ hnone rfl) rfl rfl rfl
    · next deed e hsome => exact move_drop hsome
  | purge cutoff =>
    cases h
    exact .quiet List.filter_sublist rfl (fun _ => rfl) rfl rfl rfl
  | other e draw =>
    cases h
    exact .quiet (List.Sublist.refl _) (Trail.draftRecords_other s e draw)
      (fun _ => rfl) rfl rfl rfl

end Step

/-- **The log is a ledger of the table.**  In every interleaving of filings, review commands, purges
and other writes, in which processes may die and appends may raise at any point: the draft records
in the log are, in order, the records of distinct filings and decisions that committed, a decision's
with the hash of the body that was filed; every row is a filed draft with its decision; and what was
done without a record is owed by one process, or its process has died or failed. -/
theorem trail_reconciles [DecidableEq P] (rt : Runtime) (clock : Nat → String) (log : AuditLog)
    (svc : Service) (decode : TokenDecoder) (limiter : TokenBucketLimiter) (world : World)
    (acts : List (TrailAction P)) (s : Trail P)
    (hm : Meets (trailStep rt clock log svc decode) FreshId (.start limiter world) acts)
    (hr : run (trailStep rt clock log svc decode) (.start limiter world) acts = some s) :
    Reconciled rt s :=
  (hm.invariant (fun _ _ _ hi hf h => hi.move (hi.move_of_step hf h))
    (TrailInv.start limiter world) hr).toReconciled

/-! ## A note that is filed and approved -/

/-- The approver of the note. -/
def sampleReviewer : User := ⟨"U-2", "rae@firm.example", "Rae", [APPROVER_GROUP], true, .person⟩

/-- A note is filed, and approved before its filing is recorded; the record of the approval comes
first. -/
def filedAndDecided : List (TrailAction Bool) :=
  [.file true (.ok "v1") (.ok [sampleCaller]) 0 ⟨"u-1", false, "s1"⟩ noteDraft quietFiling,
    .examine false sampleOidc noteApproval "rae" (.ok [sampleReviewer]) (.ok "v1") false,
    .decide false "2026-02-02T09:00:00Z" none (.ok "v1"),
    .record false (.ok "v1") quietFiling.second,
    .record true (.ok "v1") quietFiling.first]

theorem trail_reconciles_sample : ∃ s : Trail Bool,
    run (trailStep Runtime.python sampleClock sampleKeyless sampleService
      (tokensOf sampleReviewer.upn)) (.start (.new 120 none) World.empty) filedAndDecided = some s ∧
    s.recorded.length = 2 ∧ s.service.rows.map Row.status = ["approved"] ∧
    Reconciled Runtime.python s := by
  have hrun : (checked
      (trailStep Runtime.python sampleClock sampleKeyless sampleService
        (tokensOf sampleReviewer.upn)) FreshId
      (.start (.new 120 none) World.empty) filedAndDecided).any
        (fun s => s.recorded.length = 2 && s.service.rows.map Row.status =
          ["approved"]) = true := by
    decide +kernel
  obtain ⟨s, hs, hfacts⟩ := (Option.any_eq_true _ _).mp hrun
  obtain ⟨hs, hmeets⟩ := checked_eq_some hs
  simp only [Bool.and_eq_true, decide_eq_true_eq] at hfacts
  exact ⟨s, hs, hfacts.1, hfacts.2,
    trail_reconciles Runtime.python sampleClock sampleKeyless sampleService
    (tokensOf sampleReviewer.upn) _ _ filedAndDecided s hmeets hs⟩

end ComplianceMcp
