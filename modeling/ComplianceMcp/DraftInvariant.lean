import ComplianceMcp.DraftTable

/-! # What holds of the draft store

`Safe`, `Kept` and `KeptByStep` are what the callers of the store rely on: what the
operations answer, what holds between two states of a run, and between a state and the
next one.  `Inv` is the invariant behind them.  Its part about an operation under way
(`Fits`) says what the statements executed so far have made sure of; `Fits.frame` says
when the statements of another process leave that alone. -/
namespace ComplianceMcp

open PyJson PyText

variable {rt : Runtime} {P : Type}

/-! ## What a caller can rely on -/

/-- `create` has returned the draft. -/
def Store.Created (s : Store P) (d : Draft) : Prop :=
  ∃ e ∈ s.log, e.result = .ok (.draft d) ∧ ∃ c, e.request = .create c

/-- A `decide` on the draft that has returned. -/
def Event.Succeeded (e : Event P) (draftId : String) : Prop :=
  ∃ c d, e.request = .decide c ∧ c.draftId = draftId ∧ e.result = .ok (.draft d)

/-- `get` or `decide` has returned the draft. -/
def Store.ReadBack (s : Store P) (d : Draft) : Prop :=
  ∃ e ∈ s.log, e.result = .ok (.found (some d)) ∨
    e.result = .ok (.draft d) ∧ ∃ c, e.request = .decide c

/-- The draft as it was filed. -/
def Draft.filed (d : Draft) : Draft := { d with status := .pending, decision := none }

/-- The row as it was inserted. -/
def Row.filed (r : Row) : Row :=
  { r with status := "pending", decisionBy := none, decisionNote := none, decisionAt := none }

/-- What the operations have answered. -/
structure Safe (rt : Runtime) (s : Store P) : Prop where
  /-- Two successful decisions are on different drafts. -/
  decidedOnce : s.log.Pairwise (fun e f => ∀ draftId, ¬ (e.Succeeded draftId ∧ f.Succeeded draftId))
  /-- Any other decision raises `DraftConflict` and changes no row. -/
  others : ∀ e ∈ s.log, ∀ c, e.request = .decide c → c.decision ≠ .pending →
    e.Succeeded c.draftId ∨
      e.result = .error (.draftConflict (conflictMessage c.draftId)) ∧ e.wrote = false
  /-- A draft that is read back carries a decision if and only if it is not pending. -/
  decision_iff : ∀ d, s.ReadBack d → (d.decision.isSome = true ↔ d.status ≠ .pending)
  /-- So does a summary. -/
  summary_iff : ∀ e ∈ s.log, ∀ ds, e.result = .ok (.summaries ds) →
    ∀ m ∈ ds, m.decision.isSome = true ↔ m.status ≠ .pending
  /-- What is read back is what was filed, but for the decision. -/
  filed : ∀ d d', s.Created d → s.ReadBack d' → d'.draftId = d.draftId →
    d'.filed = d ∧ (d'.status = .pending → d' = d)
  /-- The digest of a row is that of its body. -/
  hashed : ∀ r ∈ s.rows, r.contentSha256 = (rt.sha256 (utf8 r.body.toList)).text

/-- What holds between two states of one run. -/
structure Kept (s t : Store P) : Prop where
  /-- Nothing but the decision of a row changes. -/
  content : ∀ r ∈ s.rows, ∀ r' ∈ t.rows, r'.draftId = r.draftId → r'.filed = r.filed
  /-- A decided row does not change. -/
  decided : ∀ r ∈ s.rows, r.status ≠ "pending" → ∀ r' ∈ t.rows, r'.draftId = r.draftId → r' = r

/-- What holds between a state and the next one. -/
structure KeptByStep (rt : Runtime) (s t : Store P) : Prop where
  /-- A pending row is not removed. -/
  pending : ∀ r ∈ s.rows, r.status = "pending" → ∃ r' ∈ t.rows, r'.draftId = r.draftId
  /-- What `create` returns is what `get` then finds. -/
  created : ∀ d, t.Created d → ¬ s.Created d → getDraft rt t.rows d.draftId = .ok (some d)

/-! ## The assumptions on a run -/

/-- Identifiers are fresh and approvers have names. -/
def Allowed (s : Store P) : Action P → Prop
  | .issue _ (.create c) => c.draftId ∉ s.issued
  | .issue _ (.decide c) => c.by_ ≠ ""
  | _ => True

/-- A purge that commits removes no row that a `decide` has decided and not yet read back. -/
def Undisturbed (s : Store P) : Action P → Prop
  | .advance p => ∀ cutoff apply n w, s.busy p = some ⟨.purge cutoff apply, .commitPurge n, w⟩ →
      ∀ q c v, s.busy q = some ⟨.decide c, .select, v⟩ →
        ∀ r ∈ s.rows, r.draftId = c.draftId → purgeable cutoff r = false
  | .issue _ _ => True

instance (s : Store P) (a : Action P) : Decidable (Allowed s a) :=
  match a with
  | .issue _ (.create c) => inferInstanceAs (Decidable (c.draftId ∉ s.issued))
  | .issue _ (.decide c) => inferInstanceAs (Decidable (c.by_ ≠ ""))
  | .issue _ (.get _) | .issue _ (.list _) | .issue _ (.purge _ _) | .advance _ => isTrue trivial

/-- The draft a decision is about to read back. -/
def Busy.readsBack : Busy → Option String
  | ⟨.decide c, .select, _⟩ => some c.draftId
  | _ => none

/-- The cutoff of a purge that is about to commit. -/
def Busy.removes : Busy → Option String
  | ⟨.purge cutoff _, .commitPurge _, _⟩ => some cutoff
  | _ => none

theorem Busy.readsBack_eq_some {b : Busy} {id : String} (h : b.readsBack = some id) :
    ∃ c v, b = ⟨.decide c, .select, v⟩ ∧ c.draftId = id := by
  unfold Busy.readsBack at h
  split at h
  · cases h
    exact ⟨_, _, rfl, rfl⟩
  · cases h

theorem Busy.removes_eq_some {b : Busy} {cutoff : String} (h : b.removes = some cutoff) :
    ∃ apply n w, b = ⟨.purge cutoff apply, .commitPurge n, w⟩ := by
  unfold Busy.removes at h
  split at h
  · cases h
    exact ⟨_, _, _, rfl⟩
  · cases h

/-- With finitely many processes it is decided whether a purge disturbs a decision. -/
instance [Fintype P] (s : Store P) (a : Action P) : Decidable (Undisturbed s a) :=
  match a with
  | .issue _ _ => isTrue trivial
  | .advance p => decidable_of_iff
      (∀ cutoff ∈ (s.busy p).bind Busy.removes, ∀ q, ∀ id ∈ (s.busy q).bind Busy.readsBack,
        ∀ r ∈ s.rows, r.draftId = id → purgeable cutoff r = false)
      ⟨fun h cutoff apply n w hp q c v hq => h cutoff (by rw [hp]; rfl) q c.draftId
        (by rw [hq]; rfl), fun h cutoff hp q id hq => by
          obtain ⟨b, hb, hremoves⟩ := Option.bind_eq_some_iff.mp hp
          obtain ⟨b', hb', hreads⟩ := Option.bind_eq_some_iff.mp hq
          obtain ⟨apply, n, w, rfl⟩ := Busy.removes_eq_some hremoves
          obtain ⟨c, v, rfl, rfl⟩ := Busy.readsBack_eq_some hreads
          exact h cutoff apply n w hb q c v hb'⟩

/-! ## Rows and drafts -/

/-- The rows a decision leaves. -/
def decideRows (c : DecideArgs) (rows : List Row) : List Row :=
  rows.map (fun r => if matchesPending c r then decideRow c r else r)

/-- The rows a purge leaves. -/
def keptRows (cutoff : String) (rows : List Row) : List Row :=
  rows.filter (fun r => !purgeable cutoff r)

/-- A draft as `create` files it. -/
structure New (rt : Runtime) (d : Draft) : Prop where
  status : d.status = .pending
  decision : d.decision = none
  hash : d.contentSha256 = (rt.sha256 (utf8 d.body.toList)).text

/-- The row holds the draft, undecided or decided. -/
def Filed (d : Draft) (r : Row) : Prop :=
  r = rowOf d ∨ ∃ c : DecideArgs, c.decision ≠ .pending ∧ c.by_ ≠ "" ∧ r = decideRow c (rowOf d)

theorem createDraft_new {c : CreateArgs} {d : Draft} (h : createDraft rt c = .ok d) :
    New rt d ∧ d.draftId = c.draftId := by
  unfold createDraft at h
  split at h
  · cases h
  · cases h
    exact ⟨⟨rfl, rfl, rfl⟩, rfl⟩

/-- What an operation has checked once it has started. -/
theorem start_ok {r : Request} {pc : Pc} (h : start rt r = .ok pc) :
    (∃ c d, r = .create c ∧ pc = .insert d ∧ createDraft rt c = .ok d) ∨
      (∃ c, r = .decide c ∧ c.decision ≠ .pending ∧ pc = .beginImmediate) ∨
      ((∃ id, r = .get id) ∨ ∃ st, r = .list st) ∧ pc = .select ∨
      ∃ cutoff apply, r = .purge cutoff apply ∧ pc = .count := by
  cases r with
  | create c =>
    have h : (createDraft rt c).map Pc.insert = .ok pc := h
    cases hc : createDraft rt c with
    | error e =>
      rw [hc] at h
      cases h
    | ok d =>
      rw [hc] at h
      cases h
      exact Or.inl ⟨c, d, rfl, rfl, hc⟩
  | decide c =>
    simp only [start] at h
    split at h
    · cases h
    · next hc =>
      cases h
      exact Or.inr (Or.inl ⟨c, rfl, hc, rfl⟩)
  | get id =>
    cases h
    exact Or.inr (Or.inr (Or.inl ⟨Or.inl ⟨id, rfl⟩, rfl⟩))
  | list st =>
    cases h
    exact Or.inr (Or.inr (Or.inl ⟨Or.inr ⟨st, rfl⟩, rfl⟩))
  | purge cutoff apply =>
    cases h
    exact Or.inr (Or.inr (Or.inr ⟨cutoff, apply, rfl, rfl⟩))

/-- Only a malformed `create` or `decide` raises before its first statement. -/
theorem start_error {r : Request} {e : PyError} (h : start rt r = .error e) :
    (∃ c, r = .create c) ∨ ∃ c, r = .decide c ∧ c.decision = .pending := by
  cases r with
  | create c => exact Or.inl ⟨c, rfl⟩
  | decide c =>
    simp only [start] at h
    split at h
    · next hc => exact Or.inr ⟨c, rfl, hc⟩
    · cases h
  | _ => cases h

@[simp] theorem decideRow_draftId (c : DecideArgs) (r : Row) :
    (decideRow c r).draftId = r.draftId := rfl
@[simp] theorem decideRow_filed (c : DecideArgs) (r : Row) : (decideRow c r).filed = r.filed := rfl

theorem decideRows_ids (c : DecideArgs) (rows : List Row) :
    (decideRows c rows).map Row.draftId = rows.map Row.draftId := by
  rw [decideRows, List.map_map]
  refine List.map_congr_left (fun r _ => ?_)
  show (if matchesPending c r then decideRow c r else r).draftId = r.draftId
  split <;> rfl

theorem mem_decideRows {c : DecideArgs} {rows : List Row} {r' : Row} (h : r' ∈ decideRows c rows) :
    ∃ r ∈ rows, r'.draftId = r.draftId ∧
      (matchesPending c r = true ∧ r' = decideRow c r ∨ matchesPending c r = false ∧ r' = r) := by
  obtain ⟨r, hr, rfl⟩ := List.mem_map.mp h
  refine ⟨r, hr, ?_⟩
  by_cases hm : matchesPending c r = true
  · rw [if_pos hm]
    exact ⟨rfl, Or.inl ⟨hm, rfl⟩⟩
  · rw [if_neg hm]
    exact ⟨rfl, Or.inr ⟨Bool.not_eq_true _ ▸ hm, rfl⟩⟩

theorem matchesPending_iff {c : DecideArgs} {r : Row} :
    matchesPending c r = true ↔ r.draftId = c.draftId ∧ r.status = "pending" := by
  rw [matchesPending, Bool.and_eq_true, decide_eq_true_iff, decide_eq_true_iff]

theorem decideRow_not_pending {c : DecideArgs} (hc : c.decision ≠ .pending) (r : Row) :
    (decideRow c r).status ≠ "pending" :=
  fun h => hc (DraftStatus.value_eq_pending.mp h)

theorem purgeable_not_pending {cutoff : String} {r : Row} (h : purgeable cutoff r = true) :
    r.status ≠ "pending" := of_decide_eq_true (Bool.and_eq_true_iff.mp h).1

namespace Filed

variable {d : Draft} {r : Row}

theorem draftId (h : Filed d r) : r.draftId = d.draftId := by
  rcases h with rfl | ⟨c, -, -, rfl⟩ <;> rfl

theorem filed (h : Filed d r) : r.filed = (rowOf d).filed := by
  rcases h with rfl | ⟨c, -, -, rfl⟩ <;> rfl

theorem hashed (h : Filed d r) (hd : New rt d) :
    r.contentSha256 = (rt.sha256 (utf8 r.body.toList)).text := by
  rcases h with rfl | ⟨c, -, -, rfl⟩ <;> exact hd.hash

theorem of_pending (h : Filed d r) (hr : r.status = "pending") : r = rowOf d := by
  rcases h with rfl | ⟨c, hc, -, rfl⟩
  · rfl
  · exact absurd hr (decideRow_not_pending hc _)

/-- What a row of a filed draft is read back as. -/
theorem read (h : Filed d r) (hd : New rt d) : ∃ d', toDraft rt r = .ok d' ∧ d'.filed = d ∧
    (d'.decision.isSome = true ↔ d'.status ≠ .pending) ∧ (d'.status = .pending → d' = d) := by
  have hfiled : d.filed = d := by
    obtain ⟨draftId, kind, title, body, requester, sessionId, relatedIds, created, status,
        sha, dec⟩ := d
    obtain rfl : status = .pending := hd.status
    obtain rfl : dec = none := hd.decision
    rfl
  rcases h with rfl | ⟨c, hc, hby, rfl⟩
  · refine ⟨d, toDraft_rowOf hd.decision, hfiled, ?_, fun _ => rfl⟩
    rw [hd.decision, hd.status]
    decide
  · refine ⟨d.decided c, toDraft_decideRow d hby, hfiled, iff_of_true rfl hc, fun h => absurd h hc⟩

end Filed

/-! ## The invariant -/

/-- What an operation under way has made sure of. -/
def Fits (rt : Runtime) (s : Store P) (p : P) (b : Busy) : Prop :=
  match b.request, b.pc with
  | .create _, .insert d =>
    New rt d ∧ d.draftId ∈ s.issued ∧ ∀ d', s.Created d' → d'.draftId ≠ d.draftId
  | .decide c, pc => c.decision ≠ .pending ∧ c.by_ ≠ "" ∧ match pc with
    | .beginImmediate => b.wrote = false
    | .update => b.wrote = false ∧ s.writer = some (p, s.rows)
    | .commit => b.wrote = false ∧ s.writer = some (p, decideRows c s.rows) ∧
        ∃ r ∈ s.rows, matchesPending c r = true
    | .rollback => b.wrote = false ∧ ∃ rows, s.writer = some (p, rows)
    | .select => (∃ r ∈ s.rows, r.draftId = c.draftId ∧ r.status ≠ "pending") ∧
        ∀ e ∈ s.log, ¬ e.Succeeded c.draftId
    | _ => True
  | .purge cutoff _, .commitPurge _ => s.writer = some (p, keptRows cutoff s.rows)
  | _, _ => True

/-- The operation holds the write lock. -/
def Busy.locked (b : Busy) : Bool :=
  match b.request, b.pc with
  | .decide _, .update => true
  | .decide _, .commit => true
  | .decide _, .rollback => true
  | .purge _ _, .commitPurge _ => true
  | _, _ => false

/-- The identifier an operation is the only one to work on: that of the row it inserts,
or of the row it has decided and not yet read back. -/
def Busy.owns (b : Busy) : Option String :=
  match b.request, b.pc with
  | .create _, .insert d => some d.draftId
  | .decide c, .select => some c.draftId
  | _, _ => none

/-- What a logged operation has answered. -/
def Answered (s : Store P) (e : Event P) : Prop :=
  match e.request with
  | .decide c => c.decision = .pending ∧ (∃ err, e.result = .error err) ∨
      (∃ d d', s.Created d ∧ d.draftId = c.draftId ∧ e.result = .ok (.draft d') ∧ d'.filed = d ∧
        (d'.decision.isSome = true ↔ d'.status ≠ .pending) ∧ (d'.status = .pending → d' = d)) ∨
      e.result = .error (.draftConflict (conflictMessage c.draftId)) ∧ e.wrote = false
  | .get draftId => e.result = .ok (.found none) ∨
      ∃ d d', s.Created d ∧ d.draftId = draftId ∧ e.result = .ok (.found (some d')) ∧ d'.filed = d ∧
        (d'.decision.isSome = true ↔ d'.status ≠ .pending) ∧ (d'.status = .pending → d' = d)
  | .list _ => ∃ ds, e.result = .ok (.summaries ds) ∧
      ∀ m ∈ ds, m.decision.isSome = true ↔ m.status ≠ .pending
  | .create _ => (∃ err, e.result = .error err) ∨ ∃ d, e.result = .ok (.draft d)
  | .purge _ _ => ∃ n, e.result = .ok (.purged n)

/-- What every step keeps. -/
structure Inv (rt : Runtime) (s : Store P) : Prop where
  ids : (s.rows.map Row.draftId).Nodup
  rows : ∀ r ∈ s.rows, ∃ d, s.Created d ∧ Filed d r
  created : ∀ d, s.Created d → New rt d ∧ d.draftId ∈ s.issued
  unique : ∀ d d', s.Created d → s.Created d' → d'.draftId = d.draftId → d' = d
  fits : ∀ p b, s.busy p = some b → Fits rt s p b
  owners : ∀ p q b b' id, s.busy p = some b → s.busy q = some b' → b.owns = some id →
    b'.owns = some id → p = q
  settled : ∀ e ∈ s.log, ∀ id, e.Succeeded id →
    (∃ d, s.Created d ∧ d.draftId = id) ∧ ∀ r ∈ s.rows, r.draftId = id → r.status ≠ "pending"
  once : s.log.Pairwise (fun e f => ∀ id, ¬ (e.Succeeded id ∧ f.Succeeded id))
  answered : ∀ e ∈ s.log, Answered s e

theorem Store.Created.mono {s t : Store P} (h : ∀ e ∈ s.log, e ∈ t.log) {d : Draft}
    (hd : s.Created d) : t.Created d := by
  obtain ⟨e, he, hr⟩ := hd
  exact ⟨e, h e he, hr⟩

theorem Answered.mono {s t : Store P} (h : ∀ d, s.Created d → t.Created d) {e : Event P}
    (ha : Answered s e) : Answered t e := by
  unfold Answered at ha ⊢
  split
  · next c hreq =>
    rw [hreq] at ha
    rcases ha with hv | ⟨d, d', hd, hrest⟩ | hc
    · exact Or.inl hv
    · exact Or.inr (Or.inl ⟨d, d', h d hd, hrest⟩)
    · exact Or.inr (Or.inr hc)
  · next draftId hreq =>
    rw [hreq] at ha
    rcases ha with hn | ⟨d, d', hd, hrest⟩
    · exact Or.inl hn
    · exact Or.inr ⟨d, d', h d hd, hrest⟩
  · next hreq =>
    rw [hreq] at ha
    exact ha
  · next hreq =>
    rw [hreq] at ha
    exact ha
  · next hreq =>
    rw [hreq] at ha
    exact ha

/-- A process that holds the lock is its holder. -/
theorem Fits.writer {s : Store P} {p : P} {b : Busy} (h : Fits rt s p b) (hl : b.locked = true) :
    ∃ rows, s.writer = some (p, rows) := by
  obtain ⟨req, pc, w⟩ := b
  cases req with
  | decide c =>
    cases pc with
    | update => exact ⟨_, h.2.2.2⟩
    | commit => exact ⟨_, h.2.2.2.1⟩
    | rollback => exact h.2.2.2
    | _ => cases hl
  | purge cutoff apply =>
    cases pc with
    | commitPurge n => exact ⟨_, h⟩
    | _ => cases hl
  | _ => cases hl

/-- **What the others do leaves an operation as it is**, when it does not touch the lock it
holds or the row it owns. -/
theorem Fits.frame {s t : Store P} {q : P} {b : Busy} (h : Fits rt s q b)
    (hissued : ∀ id ∈ s.issued, id ∈ t.issued)
    (hcreated : ∀ d, t.Created d → s.Created d ∨ b.owns ≠ some d.draftId)
    (hlock : b.locked = true → t.rows = s.rows ∧ t.writer = s.writer)
    (hrows : ∀ r ∈ s.rows, b.owns = some r.draftId → r.status ≠ "pending" →
      ∃ r' ∈ t.rows, r'.draftId = r.draftId ∧ r'.status ≠ "pending")
    (hlog : ∀ e ∈ t.log, ∀ id, b.owns = some id → e.Succeeded id → e ∈ s.log) : Fits rt t q b := by
  obtain ⟨req, pc, w⟩ := b
  cases req with
  | create c =>
    cases pc with
    | insert d =>
      refine ⟨h.1, hissued _ h.2.1, fun d' hd' => ?_⟩
      rcases hcreated d' hd' with hd' | hne
      · exact h.2.2 d' hd'
      · exact fun he => hne (congrArg some he.symm)
    | _ => trivial
  | decide c =>
    refine ⟨h.1, h.2.1, ?_⟩
    cases pc with
    | beginImmediate => exact h.2.2
    | update =>
      obtain ⟨hr, hw⟩ := hlock rfl
      rw [hr, hw]
      exact h.2.2
    | commit =>
      obtain ⟨hr, hw⟩ := hlock rfl
      rw [hr, hw]
      exact h.2.2
    | rollback =>
      rw [(hlock rfl).2]
      exact h.2.2
    | select =>
      obtain ⟨⟨r, hr, hid, hst⟩, hnone⟩ := h.2.2
      obtain ⟨r', hr', hid', hst'⟩ := hrows r hr (congrArg some hid.symm) hst
      exact ⟨⟨r', hr', hid'.trans hid, hst'⟩, fun e he hsucc =>
        hnone e (hlog e he c.draftId rfl hsucc) hsucc⟩
    | _ => trivial
  | purge cutoff apply =>
    cases pc with
    | commitPurge n =>
      obtain ⟨hr, hw⟩ := hlock rfl
      show t.writer = some (q, keptRows cutoff t.rows)
      rw [hr, hw]
      exact h
    | _ => trivial
  | _ => trivial

theorem mapM_ok {f : Row → Except PyError Draft} {Q : Draft → Prop} {l : List Row}
    (h : ∀ r ∈ l, ∃ d, f r = .ok d ∧ Q d) : ∃ ds, l.mapM f = .ok ds ∧ ∀ d ∈ ds, Q d := by
  induction l with
  | nil => exact ⟨[], rfl, fun d hd => absurd hd List.not_mem_nil⟩
  | cons r l ih =>
    obtain ⟨d, hd, hq⟩ := h r List.mem_cons_self
    obtain ⟨ds, hds, hqs⟩ := ih (fun r hr => h r (List.mem_cons_of_mem _ hr))
    refine ⟨d :: ds, by rw [List.mapM_cons, hd, hds]; rfl, fun d' hd' => ?_⟩
    rcases List.mem_cons.mp hd' with rfl | hd'
    · exact hq
    · exact hqs d' hd'

namespace Inv

variable {s : Store P} {p q : P} {b b' : Busy}

/-- While the lock is free or held by another process, a process does not hold it. -/
theorem not_locked (hi : Inv rt s) (hq : s.busy q = some b') (hne : q ≠ p)
    (hw : s.writer = none ∨ ∃ rows, s.writer = some (p, rows)) : b'.locked = false := by
  by_contra hl
  obtain ⟨rows, hr⟩ := (hi.fits q b' hq).writer ((Bool.not_eq_false _).mp hl)
  rcases hw with hw | ⟨rows', hw⟩
  · rw [hw] at hr
    cases hr
  · rw [hw] at hr
    cases hr
    exact hne rfl

/-- The row of an identifier is the only one. -/
theorem row_unique (hi : Inv rt s) {r r' : Row} (hr : r ∈ s.rows) (hr' : r' ∈ s.rows)
    (h : r'.draftId = r.draftId) : r' = r :=
  List.inj_on_of_nodup_map hi.ids hr' hr h

/-- An identifier that is owned has been drawn, and no pending row has it. -/
theorem owned (hi : Inv rt s) (hb : s.busy p = some b) {id : String} (ho : b.owns = some id) :
    id ∈ s.issued ∧ ∀ r ∈ s.rows, r.draftId = id → r.status ≠ "pending" := by
  obtain ⟨req, pc, w⟩ := b
  cases req with
  | create c =>
    cases pc with
    | insert d =>
      obtain rfl : d.draftId = id := Option.some.inj ho
      obtain ⟨-, hissued, hnone⟩ := hi.fits p _ hb
      refine ⟨hissued, fun r hr hid => ?_⟩
      obtain ⟨d', hd', hfr⟩ := hi.rows r hr
      exact absurd (hfr.draftId.symm.trans hid) (hnone d' hd')
    | _ => cases ho
  | decide c =>
    cases pc with
    | select =>
      obtain rfl : c.draftId = id := Option.some.inj ho
      obtain ⟨-, -, ⟨r, hr, hid, hst⟩, -⟩ := hi.fits p _ hb
      obtain ⟨d, hd, hfr⟩ := hi.rows r hr
      refine ⟨?_, fun r' hr' hid' => ?_⟩
      · rw [← hid, hfr.draftId]
        exact (hi.created d hd).2
      · rw [hi.row_unique hr hr' (hid'.trans hid.symm)]
        exact hst
    | _ => cases ho
  | _ => cases ho

/-- What `get` finds. -/
theorem getDraft_eq (hi : Inv rt s) (draftId : String) :
    getDraft rt s.rows draftId = .ok none ∧ (∀ r ∈ s.rows, r.draftId ≠ draftId) ∨
      ∃ d d', s.Created d ∧ d.draftId = draftId ∧ getDraft rt s.rows draftId = .ok (some d') ∧
        d'.filed = d ∧ (d'.decision.isSome = true ↔ d'.status ≠ .pending) ∧
        (d'.status = .pending → d' = d) := by
  unfold getDraft
  cases hf : s.rows.find? (fun r => decide (r.draftId = draftId)) with
  | none =>
    refine Or.inl ⟨rfl, fun r hr hid => ?_⟩
    exact List.find?_eq_none.mp hf r hr (decide_eq_true hid)
  | some r =>
    have hid : r.draftId = draftId := by simpa using List.find?_some hf
    obtain ⟨d, hd, hfr⟩ := hi.rows r (List.mem_of_find?_eq_some hf)
    obtain ⟨d', hread, hrest⟩ := hfr.read (hi.created d hd).1
    exact Or.inr ⟨d, d', hd, hfr.draftId.symm.trans hid, by simp only [hread]; rfl, hrest⟩

theorem listDrafts_eq (hi : Inv rt s) (st : DraftStatus) : ∃ ds, listDrafts rt s.rows st = .ok ds ∧
    ∀ m ∈ ds, m.decision.isSome = true ↔ m.status ≠ .pending := by
  obtain ⟨ds, hds, hq⟩ := mapM_ok (f := toDraft rt)
    (Q := fun d => d.decision.isSome = true ↔ d.status ≠ .pending)
    (l := (s.rows.filter (fun r => r.status = st.value)).insertionSort createdLE) (fun r hr => by
      have hr := List.mem_of_mem_filter ((List.mem_insertionSort createdLE).mp hr)
      obtain ⟨d, hd, hfr⟩ := hi.rows r hr
      obtain ⟨d', hread, -, hiff, -⟩ := hfr.read (hi.created d hd).1
      exact ⟨d', hread, hiff⟩)
  refine ⟨ds.map Draft.summary, by rw [listDrafts, hds]; rfl, fun m hm => ?_⟩
  obtain ⟨d, hd, rfl⟩ := List.mem_map.mp hm
  exact hq d hd

/-- What the first step of an operation makes sure of. -/
theorem fits_start (hi : Inv rt s) {r : Request} (ha : Allowed s (.issue p r)) {pc : Pc}
    (hstart : start rt r = .ok pc) {t : Store P} (hlog : t.log = s.log)
    (hissued : t.issued = r.newIds ++ s.issued) : Fits rt t p ⟨r, pc, false⟩ := by
  have hcreated : ∀ d, t.Created d → s.Created d := by
    intro d hd
    unfold Store.Created at hd
    rwa [hlog] at hd
  rcases start_ok hstart with ⟨c, d, rfl, rfl, hd⟩ | ⟨c, rfl, hc, rfl⟩ |
    ⟨⟨id, rfl⟩ | ⟨st, rfl⟩, rfl⟩ | ⟨cutoff, apply, rfl, rfl⟩
  · obtain ⟨hnew, hid⟩ := createDraft_new hd
    refine ⟨hnew, ?_, fun d' hd' he => ?_⟩
    · rw [hissued, hid]
      exact List.mem_cons_self
    · have := (hi.created d' (hcreated d' hd')).2
      rw [he, hid] at this
      exact ha this
  · exact ⟨hc, ha, rfl⟩
  · trivial
  · trivial
  · trivial

theorem start_owns {r : Request} {pc : Pc} (hstart : start rt r = .ok pc) {id : String}
    (ho : Busy.owns ⟨r, pc, false⟩ = some id) : id ∈ r.newIds := by
  rcases start_ok hstart with ⟨c, d, rfl, rfl, hd⟩ | ⟨c, rfl, hc, rfl⟩ |
    ⟨⟨id, rfl⟩ | ⟨st, rfl⟩, rfl⟩ | ⟨cutoff, apply, rfl, rfl⟩
  · cases ho
    rw [(createDraft_new hd).2]
    exact List.mem_cons_self
  all_goals cases ho

/-- An identifier a request draws is not owned yet. -/
theorem not_owned (hi : Inv rt s) {r : Request} (ha : Allowed s (.issue p r)) {id : String}
    (hid : id ∈ r.newIds) (hq : s.busy q = some b') : b'.owns ≠ some id := by
  intro ho
  cases r with
  | create c =>
    obtain rfl : id = c.draftId := List.mem_singleton.mp hid
    exact ha (hi.owned hq ho).1
  | _ => cases hid

theorem refused (hi : Inv rt s) {r : Request} {e : PyError} (hstart : start rt r = .error e) :
    Inv rt (s.refuse p r e) := by
  have hcreated : ∀ d, (s.refuse p r e).Created d ↔ s.Created d := by
    intro d
    constructor
    · rintro ⟨e', he', hr, hc⟩
      rcases List.mem_cons.mp he' with rfl | he'
      · cases hr
      · exact ⟨e', he', hr, hc⟩
    · exact fun hd => hd.mono (fun e he => List.mem_cons_of_mem _ he)
  have hfails : ∀ id, ¬ Event.Succeeded ⟨p, r, .error e, false⟩ id := by
    rintro id ⟨c, d, -, -, h⟩
    cases h
  constructor
  case ids => exact hi.ids
  case rows =>
    intro r' hr'
    obtain ⟨d, hd, hfr⟩ := hi.rows r' hr'
    exact ⟨d, (hcreated d).mpr hd, hfr⟩
  case created =>
    intro d hd
    obtain ⟨hnew, hissued⟩ := hi.created d ((hcreated d).mp hd)
    exact ⟨hnew, List.mem_append_right _ hissued⟩
  case unique =>
    exact fun d d' hd hd' => hi.unique d d' ((hcreated d).mp hd) ((hcreated d').mp hd')
  case fits =>
    intro q b' hq
    refine (hi.fits q b' hq).frame (fun id h => List.mem_append_right _ h)
      (fun d hd => Or.inl ((hcreated d).mp hd)) (fun _ => ⟨rfl, rfl⟩)
      (fun r hr _ hst => ⟨r, hr, rfl, hst⟩) (fun e' he' id _ hs => ?_)
    rcases List.mem_cons.mp he' with rfl | he'
    · exact absurd hs (hfails id)
    · exact he'
  case owners => exact hi.owners
  case settled =>
    intro e' he' id hs
    rcases List.mem_cons.mp he' with rfl | he'
    · exact absurd hs (hfails id)
    · obtain ⟨⟨d, hd, hid⟩, hr⟩ := hi.settled e' he' id hs
      exact ⟨⟨d, (hcreated d).mpr hd, hid⟩, hr⟩
  case once => exact List.pairwise_cons.mpr ⟨fun f _ id h => hfails id h.1, hi.once⟩
  case answered =>
    intro e' he'
    rcases List.mem_cons.mp he' with rfl | he'
    · rcases start_error hstart with ⟨c, rfl⟩ | ⟨c, rfl, hc⟩
      · exact Or.inl ⟨e, rfl⟩
      · exact Or.inl ⟨hc, e, rfl⟩
    · exact (hi.answered e' he').mono (fun d => (hcreated d).mpr)

end Inv

/-! ## What the invariant gives -/

theorem Inv.empty : Inv rt (Store.empty P) where
  ids := List.nodup_nil
  rows := fun r hr => absurd hr List.not_mem_nil
  created := fun d ⟨e, he, _⟩ => absurd he List.not_mem_nil
  unique := fun d d' ⟨e, he, _⟩ => absurd he List.not_mem_nil
  fits := fun p b h => by cases h
  owners := fun p q b b' id h => by cases h
  settled := fun e he => absurd he List.not_mem_nil
  once := List.Pairwise.nil
  answered := fun e he => absurd he List.not_mem_nil

/-- Where a draft that was read back comes from. -/
theorem Inv.readBack_of {s : Store P} (hi : Inv rt s) {d' : Draft} (h : s.ReadBack d') :
    ∃ d, s.Created d ∧
    d'.filed = d ∧ (d'.decision.isSome = true ↔ d'.status ≠ .pending) ∧
    (d'.status = .pending → d' = d) := by
  obtain ⟨e, he, h⟩ := h
  have ha := hi.answered e he
  obtain ⟨q, req, result, w⟩ := e
  cases req with
  | decide c =>
    rcases ha with ⟨-, err, herr⟩ | ⟨d, d₀, hd, -, hok, hrest⟩ | ⟨herr, -⟩
    · rcases h with h | ⟨h, -⟩ <;> rw [herr] at h <;> cases h
    · rcases h with h | ⟨h, -⟩
      · rw [hok] at h
        cases h
      · rw [hok] at h
        cases h
        exact ⟨d, hd, hrest⟩
    · rcases h with h | ⟨h, -⟩ <;> rw [herr] at h <;> cases h
  | get draftId =>
    rcases h with h | ⟨-, c, hc⟩
    · rcases ha with hnone | ⟨d, d₀, hd, -, hok, hrest⟩
      · rw [hnone] at h
        cases h
      · rw [hok] at h
        cases h
        exact ⟨d, hd, hrest⟩
    · cases hc
  | list st =>
    obtain ⟨ds, hds, -⟩ := ha
    rcases h with h | ⟨h, -⟩ <;> rw [hds] at h <;> cases h
  | create c =>
    rcases h with h | ⟨-, c, hc⟩
    · rcases ha with ⟨err, herr⟩ | ⟨d, hok⟩
      · rw [herr] at h
        cases h
      · rw [hok] at h
        cases h
    · cases hc
  | purge cutoff apply =>
    obtain ⟨n, hn⟩ := ha
    rcases h with h | ⟨h, -⟩ <;> rw [hn] at h <;> cases h

theorem Inv.safe {s : Store P} (hi : Inv rt s) : Safe rt s where
  decidedOnce := hi.once
  others := fun e he c hreq hc => by
    have ha := hi.answered e he
    unfold Answered at ha
    rw [hreq] at ha
    rcases ha with ⟨hp, -⟩ | ⟨d, d', -, -, hok, -⟩ | hconflict
    · exact absurd hp hc
    · exact Or.inl ⟨c, d', hreq, rfl, hok⟩
    · exact Or.inr hconflict
  decision_iff := fun d' h => by
    obtain ⟨d, -, -, hiff, -⟩ := hi.readBack_of h
    exact hiff
  summary_iff := fun e he ds hds => by
    have ha := hi.answered e he
    obtain ⟨q, req, result, w⟩ := e
    obtain rfl : result = .ok (.summaries ds) := hds
    cases req with
    | list st =>
      obtain ⟨ds', hds', hq⟩ := ha
      cases hds'
      exact hq
    | create c =>
      rcases ha with ⟨err, h⟩ | ⟨d, h⟩ <;> cases h
    | decide c =>
      rcases ha with ⟨-, err, h⟩ | ⟨d, d', -, -, h, -⟩ | ⟨h, -⟩ <;> cases h
    | get draftId =>
      rcases ha with h | ⟨d, d', -, -, h, -⟩ <;> cases h
    | purge cutoff apply =>
      obtain ⟨n, h⟩ := ha
      cases h
  filed := fun d d' hd h hid => by
    obtain ⟨d₀, hd₀, hfiled, -, hpend⟩ := hi.readBack_of h
    have hid₀ : d₀.draftId = d.draftId := by
      rw [← hfiled]
      exact hid
    obtain rfl := hi.unique d d₀ hd hd₀ hid₀
    exact ⟨hfiled, hpend⟩
  hashed := fun r hr => by
    obtain ⟨d, hd, hfr⟩ := hi.rows r hr
    exact hfr.hashed (hi.created d hd).1

/-- What a run keeps, seen from the state `s` it has passed through. -/
structure Since (rt : Runtime) (s t : Store P) : Prop where
  inv : Inv rt t
  log : ∀ e ∈ s.log, e ∈ t.log
  decided : ∀ r ∈ s.rows, r.status ≠ "pending" → ∀ r' ∈ t.rows, r'.draftId = r.draftId → r' = r

theorem Since.refl {s : Store P} (hi : Inv rt s) : Since rt s s where
  inv := hi
  log := fun _ he => he
  decided := fun _ hr _ _ hr' hid => hi.row_unique hr hr' hid

/-- What a state of a run and a later one have in common. -/
theorem Since.kept {s t : Store P} (hs : Inv rt s) (h : Since rt s t) : Kept s t where
  content := fun r hr r' hr' hid => by
    obtain ⟨d, hd, hfr⟩ := hs.rows r hr
    obtain ⟨d', hd', hfr'⟩ := h.inv.rows r' hr'
    have hdid : d'.draftId = d.draftId := by rw [← hfr.draftId, ← hfr'.draftId, hid]
    rw [hfr.filed, hfr'.filed, h.inv.unique d d' (hd.mono h.log) hd' hdid]
  decided := h.decided

end ComplianceMcp
