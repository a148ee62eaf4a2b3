import ComplianceMcp.DraftInvariant
import Mathlib.Data.Fintype.Basic

/-! # Runs of the draft store

The promises made about drafts are about every interleaving: a draft is decided once, a
decision stays, what was filed stays, nothing pending disappears.  `Transition` lists what
one step of one process can do, and every step keeps the invariant (`Inv.step`).

One thing the code relies on can fail: `decide` reads the row back after it has committed,
and a purge can delete it in between (`purge_breaks_read_back`).  `Undisturbed` is the
condition on a step that excludes it. -/
namespace ComplianceMcp

open Steps

variable {rt : Runtime} {P : Type} [DecidableEq P]

/-! ## What a step does -/

section Fields

variable (s : Store P) (p : P) (b : Busy) (rows : List Row) (writer : Option (P × List Row))

theorem launch_busy_self (r : Request) (pc : Pc) : (s.launch p r pc).busy p = some ⟨r, pc, false⟩ :=
  Function.update_self p _ _

theorem launch_busy_of_ne {q : P} (h : q ≠ p) (r : Request) (pc : Pc) :
    (s.launch p r pc).busy q = s.busy q := Function.update_of_ne h _ _

theorem goto_busy_self (pc : Pc) : (s.goto p b rows writer pc).busy p =
    some ⟨b.request, pc, b.wrote || rows ≠ s.rows⟩ := Function.update_self p _ _

theorem goto_busy_of_ne {q : P} (h : q ≠ p) (pc : Pc) :
    (s.goto p b rows writer pc).busy q = s.busy q := Function.update_of_ne h _ _

theorem finish_busy_self (r : Except PyError Reply) : (s.finish p b rows writer r).busy p = none :=
  Function.update_self p _ _

theorem finish_busy_of_ne {q : P} (h : q ≠ p) (r : Except PyError Reply) :
    (s.finish p b rows writer r).busy q = s.busy q := Function.update_of_ne h _ _

@[simp] theorem goto_rows (pc : Pc) : (s.goto p b rows writer pc).rows = rows := rfl
@[simp] theorem goto_writer (pc : Pc) : (s.goto p b rows writer pc).writer = writer := rfl
@[simp] theorem goto_issued (pc : Pc) : (s.goto p b rows writer pc).issued = s.issued := rfl
@[simp] theorem goto_log (pc : Pc) : (s.goto p b rows writer pc).log = s.log := rfl
@[simp] theorem finish_rows (r : Except PyError Reply) : (s.finish p b rows writer r).rows = rows :=
  rfl
@[simp] theorem finish_writer (r : Except PyError Reply) :
    (s.finish p b rows writer r).writer = writer := rfl
@[simp] theorem finish_issued (r : Except PyError Reply) :
    (s.finish p b rows writer r).issued = s.issued := rfl
@[simp] theorem finish_log (r : Except PyError Reply) :
    (s.finish p b rows writer r).log = ⟨p, b.request, r, b.wrote || rows ≠ s.rows⟩ :: s.log := rfl

end Fields

/-- What one step can do.  `busy p` names the operation of the process that steps. -/
inductive Transition (rt : Runtime) (s : Store P) : Action P → Store P → Prop where
  | started (p : P) (r : Request) (pc : Pc) (hidle : s.busy p = none)
      (hstart : start rt r = .ok pc) :
      Transition rt s (.issue p r) (s.launch p r pc)
  | refused (p : P) (r : Request) (e : PyError) (hidle : s.busy p = none)
      (hstart : start rt r = .error e) :
      Transition rt s (.issue p r) (s.refuse p r e)
  | clashed (p : P) (c : CreateArgs) (d : Draft) (w : Bool)
      (hb : s.busy p = some ⟨.create c, .insert d, w⟩) (hw : s.writer = none) (r : Row)
      (hr : r ∈ s.rows) (hid : r.draftId = d.draftId) :
      Transition rt s (.advance p)
        (s.finish p ⟨.create c, .insert d, w⟩ s.rows none (.error .other))
  | inserted (p : P) (c : CreateArgs) (d : Draft) (w : Bool)
      (hb : s.busy p = some ⟨.create c, .insert d, w⟩) (hw : s.writer = none)
      (hid : ∀ r ∈ s.rows, r.draftId ≠ d.draftId) :
      Transition rt s (.advance p)
        (s.finish p ⟨.create c, .insert d, w⟩ (s.rows ++ [rowOf d]) none (.ok (.draft d)))
  | began (p : P) (c : DecideArgs) (w : Bool) (hb : s.busy p = some ⟨.decide c, .beginImmediate, w⟩)
      (hw : s.writer = none) :
      Transition rt s (.advance p)
        (s.goto p ⟨.decide c, .beginImmediate, w⟩ s.rows (some (p, s.rows)) .update)
  | updated (p : P) (c : DecideArgs) (w : Bool) (q : P) (rows : List Row)
      (hb : s.busy p = some ⟨.decide c, .update, w⟩) (hw : s.writer = some (q, rows)) :
      Transition rt s (.advance p)
        (s.goto p ⟨.decide c, .update, w⟩ s.rows (some (p, decideRows c rows))
          (if rows.countP (matchesPending c) ≠ 1 then .rollback else .commit))
  | committed (p : P) (c : DecideArgs) (w : Bool) (q : P) (rows : List Row)
      (hb : s.busy p = some ⟨.decide c, .commit, w⟩) (hw : s.writer = some (q, rows)) :
      Transition rt s (.advance p) (s.goto p ⟨.decide c, .commit, w⟩ rows none .select)
  | rolledBack (p : P) (c : DecideArgs) (w : Bool)
      (hb : s.busy p = some ⟨.decide c, .rollback, w⟩) :
      Transition rt s (.advance p) (s.finish p ⟨.decide c, .rollback, w⟩ s.rows none
        (.error (.draftConflict (conflictMessage c.draftId))))
  | readBack (p : P) (c : DecideArgs) (w : Bool) (hb : s.busy p = some ⟨.decide c, .select, w⟩) :
      Transition rt s (.advance p) (s.finish p ⟨.decide c, .select, w⟩ s.rows s.writer
        (match getDraft rt s.rows c.draftId with
          | .ok (some d) => .ok (.draft d)
          | .ok none => .error .assertionError
          | .error e => .error e))
  | got (p : P) (draftId : String) (w : Bool) (hb : s.busy p = some ⟨.get draftId, .select, w⟩) :
      Transition rt s (.advance p) (s.finish p ⟨.get draftId, .select, w⟩ s.rows s.writer
        ((getDraft rt s.rows draftId).map .found))
  | listed (p : P) (st : DraftStatus) (w : Bool) (hb : s.busy p = some ⟨.list st, .select, w⟩) :
      Transition rt s (.advance p) (s.finish p ⟨.list st, .select, w⟩ s.rows s.writer
        ((listDrafts rt s.rows st).map .summaries))
  | counted (p : P) (cutoff : String) (w : Bool)
      (hb : s.busy p = some ⟨.purge cutoff true, .count, w⟩) (n : Nat) :
      Transition rt s (.advance p)
        (s.goto p ⟨.purge cutoff true, .count, w⟩ s.rows s.writer (.delete n))
  | reported (p : P) (cutoff : String) (w : Bool)
      (hb : s.busy p = some ⟨.purge cutoff false, .count, w⟩) (n : Nat) :
      Transition rt s (.advance p)
        (s.finish p ⟨.purge cutoff false, .count, w⟩ s.rows s.writer (.ok (.purged n)))
  | deleted (p : P) (cutoff : String) (apply : Bool) (n : Nat) (w : Bool)
      (hb : s.busy p = some ⟨.purge cutoff apply, .delete n, w⟩) (hw : s.writer = none) :
      Transition rt s (.advance p) (s.goto p ⟨.purge cutoff apply, .delete n, w⟩ s.rows
        (some (p, keptRows cutoff s.rows)) (.commitPurge n))
  | purged (p : P) (cutoff : String) (apply : Bool) (n : Nat) (w : Bool) (q : P) (rows : List Row)
      (hb : s.busy p = some ⟨.purge cutoff apply, .commitPurge n, w⟩)
      (hw : s.writer = some (q, rows)) :
      Transition rt s (.advance p)
        (s.finish p ⟨.purge cutoff apply, .commitPurge n, w⟩ rows none (.ok (.purged n)))

/-- **Every step is one of the transitions.** -/
theorem transition_of_step {s t : Store P} {a : Action P} (h : draftStep rt s a = some t) :
    Transition rt s a t := by
  cases a with
  | issue p r =>
    simp only [draftStep] at h
    cases hb : s.busy p with
    | some b =>
      rw [hb] at h
      cases h
    | none =>
      rw [hb] at h
      cases hs : start rt r with
      | ok pc =>
        simp only [hs, Option.some.injEq] at h
        exact h ▸ .started p r pc hb hs
      | error e =>
        simp only [hs, Option.some.injEq] at h
        exact h ▸ .refused p r e hb hs
  | advance p =>
    obtain ⟨⟨req, pc, w⟩, hb, hmap⟩ := Option.bind_eq_some_iff.mp h
    obtain ⟨⟨rows, writer, next⟩, hst, ht⟩ := Option.map_eq_some_iff.mp hmap
    clear h hmap
    replace hst : statement rt s p req pc = some (rows, writer, next) := hst
    unfold statement at hst
    -- one case for each SQL statement, in the order of `statement`
    split at hst
    case h_1 c d =>
      split at hst
      case isFalse => cases hst
      next hw =>
      replace hw := Option.isNone_iff_eq_none.mp hw
      split at hst
      · next hany =>
        obtain ⟨r, hr, hid⟩ := List.any_eq_true.mp hany
        cases hst
        cases ht
        exact .clashed p c d w hb hw r hr (of_decide_eq_true hid)
      · next hany =>
        cases hst
        cases ht
        exact .inserted p c d w hb hw (fun r hr hid => hany (List.any_eq_true.mpr
          ⟨r, hr, decide_eq_true hid⟩))
    case h_2 c =>
      split at hst
      case isFalse => cases hst
      next hw =>
      cases hst
      cases ht
      exact .began p c w hb (Option.isNone_iff_eq_none.mp hw)
    case h_3 c =>
      obtain ⟨⟨q, held⟩, hw, hst⟩ := Option.bind_eq_some_iff.mp hst
      cases hst
      cases ht
      exact .updated p c w q held hb hw
    case h_4 c =>
      obtain ⟨⟨q, held⟩, hw, hst⟩ := Option.map_eq_some_iff.mp hst
      cases hst
      cases ht
      exact .committed p c w q _ hb hw
    case h_5 c =>
      cases hst
      cases ht
      exact .rolledBack p c w hb
    case h_6 c =>
      cases hst
      cases ht
      exact .readBack p c w hb
    case h_7 draftId =>
      cases hst
      cases ht
      exact .got p draftId w hb
    case h_8 st =>
      cases hst
      cases ht
      exact .listed p st w hb
    case h_9 cutoff apply =>
      cases apply with
      | true =>
        cases hst
        cases ht
        exact .counted p cutoff w hb _
      | false =>
        cases hst
        cases ht
        exact .reported p cutoff w hb _
    case h_10 cutoff apply n =>
      split at hst
      case isFalse => cases hst
      next hw =>
      cases hst
      cases ht
      exact .deleted p cutoff apply n w hb (Option.isNone_iff_eq_none.mp hw)
    case h_11 cutoff apply n =>
      obtain ⟨⟨q, held⟩, hw, hst⟩ := Option.map_eq_some_iff.mp hst
      cases hst
      cases ht
      exact .purged p cutoff apply n w q _ hb hw
    case h_12 => cases hst

namespace Inv

variable {s : Store P} {p q : P} {b b' : Busy}

/-- A step that does not end an operation keeps the invariant, if it keeps the rows and
the operations under way. -/
theorem goto (hi : Inv rt s) {rows : List Row} {writer : Option (P × List Row)} {pc : Pc}
    (hids : (rows.map Row.draftId).Nodup)
    (hrows : ∀ r ∈ rows, ∃ d, s.Created d ∧ Filed d r)
    (hpending : ∀ r ∈ rows, r.status = "pending" → r ∈ s.rows)
    (hfit : Fits rt (s.goto p b rows writer pc) p ⟨b.request, pc, b.wrote || rows ≠ s.rows⟩)
    (hothers : ∀ q b', q ≠ p → s.busy q = some b' → Fits rt (s.goto p b rows writer pc) q b')
    (howns : ∀ q b' id, q ≠ p → s.busy q = some b' →
      Busy.owns ⟨b.request, pc, b.wrote || rows ≠ s.rows⟩ = some id → b'.owns ≠ some id) :
    Inv rt (s.goto p b rows writer pc) where
  ids := hids
  rows := hrows
  created := hi.created
  unique := hi.unique
  fits := fun q b' hq => by
    by_cases hqp : q = p
    · subst hqp
      rw [goto_busy_self] at hq
      cases hq
      exact hfit
    · rw [goto_busy_of_ne s _ b rows writer hqp] at hq
      exact hothers q b' hqp hq
  owners := fun q q' b₁ b₂ id hq hq' ho ho' => by
    by_cases hqp : q = p
    · by_cases hqp' : q' = p
      · exact hqp.trans hqp'.symm
      · subst hqp
        rw [goto_busy_self] at hq
        rw [goto_busy_of_ne s _ b rows writer hqp'] at hq'
        cases hq
        exact absurd ho' (howns q' b₂ id hqp' hq' ho)
    · rw [goto_busy_of_ne s _ b rows writer hqp] at hq
      by_cases hqp' : q' = p
      · subst hqp'
        rw [goto_busy_self] at hq'
        cases hq'
        exact absurd ho (howns q b₁ id hqp hq ho')
      · rw [goto_busy_of_ne s _ b rows writer hqp'] at hq'
        exact hi.owners q q' b₁ b₂ id hq hq' ho ho'
  settled := fun e he id hs => by
    obtain ⟨hd, hr⟩ := hi.settled e he id hs
    exact ⟨hd, fun r hrow hid hst => hr r (hpending r hrow hst) hid hst⟩
  once := hi.once
  answered := hi.answered

theorem created_finish {rows : List Row} {writer : Option (P × List Row)} {r : Except PyError Reply}
    {d : Draft} (h : (s.finish p b rows writer r).Created d) :
    s.Created d ∨ r = .ok (.draft d) ∧ ∃ c, b.request = .create c := by
  obtain ⟨e, he, hr, hc⟩ := h
  rcases List.mem_cons.mp he with rfl | he
  · exact Or.inr ⟨hr, hc⟩
  · exact Or.inl ⟨e, he, hr, hc⟩

/-- A step that ends an operation keeps the invariant, if it keeps the rows and the
other operations, and answers as it should. -/
theorem finish (hi : Inv rt s) {rows : List Row} {writer : Option (P × List Row)}
    {r : Except PyError Reply} (hids : (rows.map Row.draftId).Nodup)
    (hrows : ∀ r' ∈ rows, ∃ d, (s.finish p b rows writer r).Created d ∧ Filed d r')
    (hpending : ∀ r' ∈ rows, r'.status = "pending" →
      r' ∈ s.rows ∨ ∀ d, s.Created d → d.draftId ≠ r'.draftId)
    (hnew : ∀ d, r = .ok (.draft d) → (∃ c, b.request = .create c) →
      New rt d ∧ d.draftId ∈ s.issued ∧ ∀ d', s.Created d' → d'.draftId ≠ d.draftId)
    (hsucc : ∀ id, Event.Succeeded ⟨p, b.request, r, b.wrote || rows ≠ s.rows⟩ id →
      (∃ d, s.Created d ∧ d.draftId = id) ∧ (∀ r' ∈ rows, r'.draftId = id → r'.status ≠ "pending") ∧
        ∀ e ∈ s.log, ¬ e.Succeeded id)
    (hothers : ∀ q b', q ≠ p → s.busy q = some b' → Fits rt (s.finish p b rows writer r) q b')
    (hanswered : Answered (s.finish p b rows writer r) ⟨p, b.request, r, b.wrote ||
      rows ≠ s.rows⟩) :
    Inv rt (s.finish p b rows writer r) := by
  have hmono : ∀ d, s.Created d → (s.finish p b rows writer r).Created d :=
    fun d hd => hd.mono (fun e he => List.mem_cons_of_mem _ he)
  have hbusy : ∀ q b', (s.finish p b rows writer r).busy q = some b' →
      q ≠ p ∧ s.busy q = some b' := by
    intro q b' hq
    by_cases hqp : q = p
    · subst hqp
      rw [finish_busy_self] at hq
      cases hq
    · rw [finish_busy_of_ne s _ b rows writer hqp] at hq
      exact ⟨hqp, hq⟩
  constructor
  case ids => exact hids
  case rows => exact hrows
  case created =>
    intro d hd
    rcases created_finish hd with hd | ⟨hr, hc⟩
    · exact hi.created d hd
    · exact ⟨(hnew d hr hc).1, (hnew d hr hc).2.1⟩
  case unique =>
    intro d d' hd hd' hid
    rcases created_finish hd with hd | ⟨hr, hc⟩ <;> rcases created_finish hd' with hd' | ⟨hr', hc'⟩
    · exact hi.unique d d' hd hd' hid
    · exact absurd hid.symm ((hnew d' hr' hc').2.2 d hd)
    · exact absurd hid ((hnew d hr hc).2.2 d' hd')
    · rw [hr] at hr'
      cases hr'
      rfl
  case fits => exact fun q b' hq => hothers q b' (hbusy q b' hq).1 (hbusy q b' hq).2
  case owners =>
    exact fun q q' b₁ b₂ id hq hq' => hi.owners q q' b₁ b₂ id (hbusy q b₁ hq).2 (hbusy q' b₂ hq').2
  case settled =>
    intro e he id hs
    rcases List.mem_cons.mp he with rfl | he
    · obtain ⟨⟨d, hd, hid⟩, hr, -⟩ := hsucc id hs
      exact ⟨⟨d, hmono d hd, hid⟩, hr⟩
    · obtain ⟨⟨d, hd, hid⟩, hr⟩ := hi.settled e he id hs
      refine ⟨⟨d, hmono d hd, hid⟩, fun r' hr' hid' hst => ?_⟩
      rcases hpending r' hr' hst with hold | hnone
      · exact hr r' hold hid' hst
      · exact hnone d hd (hid.trans hid'.symm)
  case once =>
    refine List.pairwise_cons.mpr ⟨fun f hf id hboth => ?_, hi.once⟩
    exact (hsucc id hboth.1).2.2 f hf hboth.2
  case answered =>
    intro e he
    rcases List.mem_cons.mp he with rfl | he
    · exact hanswered
    · exact (hi.answered e he).mono hmono

end Inv

/-! ## Each step keeps the invariant -/

namespace Inv

variable {s t : Store P} {p q : P} {b b' : Busy}

/-- The others do not notice a step that leaves the rows alone. -/
theorem others_goto (hi : Inv rt s) {writer : Option (P × List Row)} {pc : Pc}
    (hw : writer = s.writer ∨ s.writer = none ∨ ∃ rows, s.writer = some (p, rows)) :
    ∀ q b', q ≠ p → s.busy q = some b' → Fits rt (s.goto p b s.rows writer pc) q b' := by
  intro q b' hne hq
  refine (hi.fits q b' hq).frame (fun _ h => h) (fun d hd => Or.inl hd) (fun hl => ⟨rfl, ?_⟩)
    (fun r hr _ hst => ⟨r, hr, rfl, hst⟩) (fun e he _ _ _ => he)
  rcases hw with rfl | hw
  · rfl
  · rw [hi.not_locked hq hne hw] at hl
    cases hl

theorem others_finish (hi : Inv rt s) (hb : s.busy p = some b) {writer : Option (P × List Row)}
    {r : Except PyError Reply}
    (hw : writer = s.writer ∨ s.writer = none ∨ ∃ rows, s.writer = some (p, rows))
    (hnew : ∀ d, r = .ok (.draft d) → ¬ ∃ c, b.request = .create c)
    (hown : ∀ id, Event.Succeeded ⟨p, b.request, r, b.wrote || s.rows ≠ s.rows⟩ id →
      b.owns = some id) :
    ∀ q b', q ≠ p → s.busy q = some b' → Fits rt (s.finish p b s.rows writer r) q b' := by
  intro q b' hne hq
  refine (hi.fits q b' hq).frame (fun _ h => h) (fun d hd => Or.inl ?_) (fun hl => ⟨rfl, ?_⟩)
    (fun r hr _ hst => ⟨r, hr, rfl, hst⟩) (fun e he id ho hs => ?_)
  · rcases created_finish hd with hd | ⟨hr, hc⟩
    · exact hd
    · exact absurd hc (hnew d hr)
  · rcases hw with rfl | hw
    · rfl
    · rw [hi.not_locked hq hne hw] at hl
      cases hl
  · rcases List.mem_cons.mp he with rfl | he
    · exact absurd (hi.owners p q b b' id hb hq (hown id hs) ho).symm hne
    · exact he

/-- An operation that ends without touching the table and without a draft of its own
keeps the invariant, if it answers as it should. -/
theorem finish_reading (hi : Inv rt s) (hb : s.busy p = some b) {writer : Option (P × List Row)}
    {r : Except PyError Reply}
    (hw : writer = s.writer ∨ s.writer = none ∨ ∃ rows, s.writer = some (p, rows))
    (hr : ∀ d, r ≠ .ok (.draft d))
    (hanswered : Answered (s.finish p b s.rows writer r)
      ⟨p, b.request, r, b.wrote || s.rows ≠ s.rows⟩) :
    Inv rt (s.finish p b s.rows writer r) := by
  have hnone : ∀ id, ¬ Event.Succeeded ⟨p, b.request, r, b.wrote || s.rows ≠ s.rows⟩ id := by
    rintro id ⟨c, d, -, -, h⟩
    exact hr d h
  refine hi.finish hi.ids (fun r' hr' => ?_) (fun r' hr' _ => Or.inl hr')
    (fun d h => absurd h (hr d)) (fun id h => absurd h (hnone id))
    (hi.others_finish hb hw (fun d h => absurd h (hr d))
      (fun id h => absurd h (hnone id))) hanswered
  obtain ⟨d, hd, hfr⟩ := hi.rows r' hr'
  exact ⟨d, hd.mono (fun e he => List.mem_cons_of_mem _ he), hfr⟩

theorem started (hi : Inv rt s) {r : Request} (ha : Allowed s (.issue p r)) {pc : Pc}
    (hstart : start rt r = .ok pc) : Inv rt (s.launch p r pc) where
  ids := hi.ids
  rows := hi.rows
  created := fun d hd => ⟨(hi.created d hd).1, List.mem_append_right _ (hi.created d hd).2⟩
  unique := hi.unique
  fits := fun q b' hq => by
    by_cases hqp : q = p
    · subst hqp
      rw [launch_busy_self] at hq
      cases hq
      exact hi.fits_start ha hstart rfl rfl
    · rw [launch_busy_of_ne s _ hqp] at hq
      exact (hi.fits q b' hq).frame (fun id h => List.mem_append_right _ h) (fun d hd => Or.inl hd)
        (fun _ => ⟨rfl, rfl⟩) (fun r hr _ hst => ⟨r, hr, rfl, hst⟩) (fun e he _ _ _ => he)
  owners := fun q q' b₁ b₂ id hq hq' ho ho' => by
    by_cases hqp : q = p
    · by_cases hqp' : q' = p
      · exact hqp.trans hqp'.symm
      · subst hqp
        rw [launch_busy_self] at hq
        rw [launch_busy_of_ne s _ hqp'] at hq'
        cases hq
        exact absurd ho' (hi.not_owned ha (start_owns hstart ho) hq')
    · rw [launch_busy_of_ne s _ hqp] at hq
      by_cases hqp' : q' = p
      · subst hqp'
        rw [launch_busy_self] at hq'
        cases hq'
        exact absurd ho (hi.not_owned ha (start_owns hstart ho') hq)
      · rw [launch_busy_of_ne s _ hqp'] at hq'
        exact hi.owners q q' b₁ b₂ id hq hq' ho ho'
  settled := hi.settled
  once := hi.once
  answered := hi.answered

theorem inserted (hi : Inv rt s) {c : CreateArgs} {d : Draft} {w : Bool}
    (hb : s.busy p = some ⟨.create c, .insert d, w⟩) (hw : s.writer = none)
    (hid : ∀ r ∈ s.rows, r.draftId ≠ d.draftId) :
    Inv rt (s.finish p ⟨.create c, .insert d, w⟩ (s.rows ++ [rowOf d]) none (.ok (.draft d))) := by
  obtain ⟨hnew, hissued, hnone⟩ := hi.fits p _ hb
  have hfails : ∀ v id, ¬ Event.Succeeded ⟨p, .create c, .ok (.draft d), v⟩ id := by
    rintro v id ⟨c', d', h, -⟩
    cases h
  refine hi.finish ?_ (fun r' hr' => ?_) (fun r' hr' _ => ?_) (fun d' hd' _ => ?_)
    (fun id h => absurd h (hfails _ id)) (fun q b' hne hq => ?_) (Or.inr ⟨d, rfl⟩)
  · rw [List.map_append, List.map_singleton, List.nodup_append]
    refine ⟨hi.ids, List.nodup_singleton _, fun a ha b hb => ?_⟩
    obtain ⟨r, hr, rfl⟩ := List.mem_map.mp ha
    rw [List.mem_singleton.mp hb]
    exact hid r hr
  · rcases List.mem_append.mp hr' with hr' | hr'
    · obtain ⟨d', hd', hfr⟩ := hi.rows r' hr'
      exact ⟨d', hd'.mono (fun e he => List.mem_cons_of_mem _ he), hfr⟩
    · rw [List.mem_singleton.mp hr']
      exact ⟨d, ⟨_, List.mem_cons_self, rfl, c, rfl⟩, Or.inl rfl⟩
  · rcases List.mem_append.mp hr' with hr' | hr'
    · exact Or.inl hr'
    · rw [List.mem_singleton.mp hr']
      exact Or.inr hnone
  · cases hd'
    exact ⟨hnew, hissued, hnone⟩
  · refine (hi.fits q b' hq).frame (fun _ h => h) (fun d' hd' => ?_) (fun hl => ?_)
      (fun r hr _ hst => ⟨r, List.mem_append_left _ hr, rfl, hst⟩) (fun e he id _ hs => ?_)
    · rcases created_finish hd' with hd' | ⟨hr, -⟩
      · exact Or.inl hd'
      · cases hr
        exact Or.inr (fun ho => hne (hi.owners p q _ b' _ hb hq rfl ho).symm)
    · rw [hi.not_locked hq hne (Or.inl hw)] at hl
      cases hl
    · rcases List.mem_cons.mp he with rfl | he
      · exact absurd hs (hfails _ id)
      · exact he

theorem committed (hi : Inv rt s) {c : DecideArgs} {w : Bool}
    (hb : s.busy p = some ⟨.decide c, .commit, w⟩) {rows : List Row} {q₀ : P}
    (hw : s.writer = some (q₀, rows)) :
    Inv rt (s.goto p ⟨.decide c, .commit, w⟩ rows none .select) := by
  obtain ⟨hc, hby, -, hwriter, r, hr, hm⟩ := hi.fits p _ hb
  obtain ⟨hid, hst⟩ := matchesPending_iff.mp hm
  obtain ⟨rfl, rfl⟩ : p = q₀ ∧ decideRows c s.rows = rows := by
    rw [hw] at hwriter
    cases hwriter
    exact ⟨rfl, rfl⟩
  have hdecided : decideRow c r ∈ decideRows c s.rows :=
    List.mem_map.mpr ⟨r, hr, by rw [if_pos hm]⟩
  refine hi.goto ?_ (fun r' hr' => ?_) (fun r' hr' hst' => ?_) ⟨hc, hby, ⟨_, hdecided, hid,
    decideRow_not_pending hc r⟩, fun e he hs => (hi.settled e he _ hs).2 r hr hid hst⟩
    (fun q b' hne hq => ?_) (fun q b' id hne hq ho ho' => ?_)
  · rw [decideRows_ids]
    exact hi.ids
  · obtain ⟨r₀, hr₀, -, ⟨hm₀, rfl⟩ | ⟨-, rfl⟩⟩ := mem_decideRows hr'
    · obtain ⟨d, hd, hfr⟩ := hi.rows r₀ hr₀
      rw [hfr.of_pending (matchesPending_iff.mp hm₀).2]
      exact ⟨d, hd, Or.inr ⟨c, hc, hby, rfl⟩⟩
    · exact hi.rows _ hr₀
  · obtain ⟨r₀, hr₀, -, ⟨-, rfl⟩ | ⟨-, rfl⟩⟩ := mem_decideRows hr'
    · exact absurd hst' (decideRow_not_pending hc r₀)
    · exact hr₀
  · refine (hi.fits q b' hq).frame (fun _ h => h) (fun d hd => Or.inl hd) (fun hl => ?_)
      (fun r' hr' _ hst' => ⟨r', List.mem_map.mpr ⟨r', hr', ?_⟩, rfl, hst'⟩) (fun e he _ _ _ => he)
    · rw [hi.not_locked hq hne (Or.inr ⟨_, hwriter⟩)] at hl
      cases hl
    · rw [if_neg (fun h => hst' (matchesPending_iff.mp h).2)]
  · -- nobody else works on the row: it was pending
    cases ho
    exact (hi.owned hq ho').2 r hr hid hst

theorem readBack (hi : Inv rt s) {c : DecideArgs} {w : Bool}
    (hb : s.busy p = some ⟨.decide c, .select, w⟩) :
    Inv rt (s.finish p ⟨.decide c, .select, w⟩ s.rows s.writer
      (match getDraft rt s.rows c.draftId with
        | .ok (some d) => .ok (.draft d)
        | .ok none => .error .assertionError
        | .error e => .error e)) := by
  obtain ⟨-, -, ⟨r, hr, hid, -⟩, hnone⟩ := hi.fits p _ hb
  rcases hi.getDraft_eq c.draftId with ⟨-, habsent⟩ | ⟨d, d', hd, hdid, hg, hrest⟩
  · exact absurd hid (habsent r hr)
  rw [hg]
  have hcreate : ¬ ∃ c', Request.decide c = .create c' := by
    rintro ⟨c', h⟩
    cases h
  refine hi.finish hi.ids (fun r' hr' => ?_) (fun r' hr' _ => Or.inl hr')
    (fun _ _ h => absurd h hcreate) (fun id hs => ?_)
    (hi.others_finish hb (Or.inl rfl) (fun _ _ => hcreate) (fun id hs => ?_))
    (Or.inr (Or.inl ⟨d, d', hd.mono (fun e he => List.mem_cons_of_mem _ he), hdid, rfl, hrest⟩))
  · obtain ⟨d₀, hd₀, hfr⟩ := hi.rows r' hr'
    exact ⟨d₀, hd₀.mono (fun e he => List.mem_cons_of_mem _ he), hfr⟩
  · obtain ⟨c', d₀, hreq, rfl, -⟩ := hs
    cases hreq
    exact ⟨⟨d, hd, hdid⟩, (hi.owned hb rfl).2, hnone⟩
  · obtain ⟨c', d₀, hreq, rfl, -⟩ := hs
    cases hreq
    rfl

theorem purged (hi : Inv rt s) {cutoff : String} {apply : Bool} {n : Nat} {w : Bool}
    (hb : s.busy p = some ⟨.purge cutoff apply, .commitPurge n, w⟩)
    (hu : Undisturbed s (.advance p)) {rows : List Row} {q₀ : P} (hw : s.writer = some (q₀, rows)) :
    Inv rt (s.finish p ⟨.purge cutoff apply, .commitPurge n, w⟩ rows none (.ok (.purged n))) := by
  have hwriter : s.writer = some (p, keptRows cutoff s.rows) := hi.fits p _ hb
  obtain ⟨rfl, rfl⟩ : p = q₀ ∧ keptRows cutoff s.rows = rows := by
    rw [hw] at hwriter
    cases hwriter
    exact ⟨rfl, rfl⟩
  have hfails : ∀ v id, ¬ Event.Succeeded ⟨p, .purge cutoff apply, .ok (.purged n), v⟩ id := by
    rintro v id ⟨c', d', h, -⟩
    cases h
  refine hi.finish (hi.ids.sublist (List.filter_sublist.map _)) (fun r' hr' => ?_)
    (fun r' hr' _ => Or.inl (List.mem_of_mem_filter hr')) (fun d h => by cases h)
    (fun id h => absurd h (hfails _ id)) (fun q b' hne hq => ?_) ⟨n, rfl⟩
  · obtain ⟨d, hd, hfr⟩ := hi.rows r' (List.mem_of_mem_filter hr')
    exact ⟨d, hd.mono (fun e he => List.mem_cons_of_mem _ he), hfr⟩
  · refine (hi.fits q b' hq).frame (fun _ h => h) (fun d hd => Or.inl ?_) (fun hl => ?_)
      (fun r hr ho hst => ?_) (fun e he id _ hs => ?_)
    · rcases created_finish hd with hd | ⟨hr, -⟩
      · exact hd
      · cases hr
    · rw [hi.not_locked hq hne (Or.inr ⟨_, hwriter⟩)] at hl
      cases hl
    · -- the row is one another process has decided and not yet read back
      refine ⟨r, List.mem_filter.mpr ⟨hr, ?_⟩, rfl, hst⟩
      obtain ⟨c, v, rfl, hid⟩ : ∃ c v, b' = ⟨.decide c, .select, v⟩ ∧ r.draftId = c.draftId := by
        obtain ⟨req, pc, v⟩ := b'
        cases req with
        | create c =>
          cases pc with
          | insert d =>
            obtain ⟨d', hd', hfr⟩ := hi.rows r hr
            have hd : d.draftId = r.draftId := Option.some.inj ho
            exact absurd (hfr.draftId.symm.trans hd.symm) ((hi.fits q _ hq).2.2 d' hd')
          | _ => cases ho
        | decide c =>
          cases pc with
          | select => exact ⟨c, v, rfl, (Option.some.inj ho).symm⟩
          | _ => cases ho
        | _ => cases ho
      rw [hu cutoff apply n w hb q c v hq r hr hid]
      rfl
    · rcases List.mem_cons.mp he with rfl | he
      · exact absurd hs (hfails _ id)
      · exact he

/-- **One step keeps the invariant.** -/
theorem step (hi : Inv rt s) {a : Action P} (ha : Allowed s a) (hu : Undisturbed s a)
    (h : draftStep rt s a = some t) : Inv rt t := by
  cases transition_of_step h with
  | started p r pc hidle hstart => exact hi.started ha hstart
  | refused p r e hidle hstart => exact hi.refused hstart
  | clashed p c d w hb hw r hr hid =>
    obtain ⟨d', hd', hfr⟩ := hi.rows r hr
    exact absurd (hfr.draftId.symm.trans hid) ((hi.fits p _ hb).2.2 d' hd')
  | inserted p c d w hb hw hid => exact hi.inserted hb hw hid
  | began p c w hb hw =>
    obtain ⟨hc, hby, hquiet⟩ := hi.fits p _ hb
    refine hi.goto hi.ids hi.rows (fun r hr _ => hr) ⟨hc, hby, ?_, rfl⟩
      (hi.others_goto (Or.inr (Or.inl hw))) (fun q b' id _ _ ho => by cases ho)
    simpa using hquiet
  | updated p c w q rows hb hw =>
    obtain ⟨hc, hby, hquiet, hwriter⟩ := hi.fits p _ hb
    have hrows : rows = s.rows := by
      rw [hw] at hwriter
      exact (Prod.mk.inj (Option.some.inj hwriter)).2
    subst hrows
    have hquiet' : (w || decide (s.rows ≠ s.rows)) = false := by simpa using hquiet
    refine hi.goto hi.ids hi.rows (fun r hr _ => hr) ?_
      (hi.others_goto (Or.inr (Or.inr ⟨_, hwriter⟩)))
      (fun q b' id _ _ ho => ?_)
    · split
      · exact ⟨hc, hby, hquiet', _, rfl⟩
      · next hcount =>
        obtain ⟨r, hr, hm⟩ := List.countP_pos_iff.mp
          (Nat.lt_of_lt_of_eq Nat.zero_lt_one (not_not.mp hcount).symm)
        exact ⟨hc, hby, hquiet', rfl, r, hr, hm⟩
    · split at ho <;> cases ho
  | committed p c w q rows hb hw => exact hi.committed hb hw
  | rolledBack p c w hb =>
    obtain ⟨hc, hby, hquiet, rows, hwriter⟩ := hi.fits p _ hb
    refine hi.finish_reading hb (Or.inr (Or.inr ⟨_, hwriter⟩)) (fun d h => by cases h) ?_
    exact Or.inr (Or.inr ⟨rfl, by simpa using hquiet⟩)
  | readBack p c w hb => exact hi.readBack hb
  | got p draftId w hb =>
    rcases hi.getDraft_eq draftId with ⟨hg, -⟩ | ⟨d, d', hd, hid, hg, hrest⟩
    · rw [hg]
      exact hi.finish_reading hb (Or.inl rfl) (fun d h => by cases h) (Or.inl rfl)
    · rw [hg]
      refine hi.finish_reading hb (Or.inl rfl) (fun d h => by cases h)
        (Or.inr ⟨d, d', ?_, hid, rfl, hrest⟩)
      exact hd.mono (fun e he => List.mem_cons_of_mem _ he)
  | listed p st w hb =>
    obtain ⟨ds, hds, hq⟩ := hi.listDrafts_eq st
    rw [hds]
    exact hi.finish_reading hb (Or.inl rfl) (fun d h => by cases h) ⟨ds, rfl, hq⟩
  | counted p cutoff w hb n =>
    exact hi.goto hi.ids hi.rows (fun r hr _ => hr) trivial (hi.others_goto (Or.inl rfl))
      (fun q b' id _ _ ho => by cases ho)
  | reported p cutoff w hb n =>
    exact hi.finish_reading hb (Or.inl rfl) (fun d h => by cases h) ⟨n, rfl⟩
  | deleted p cutoff apply n w hb hw =>
    exact hi.goto hi.ids hi.rows (fun r hr _ => hr) rfl (hi.others_goto (Or.inr (Or.inl hw)))
      (fun q b' id _ _ ho => by cases ho)
  | purged p cutoff apply n w q rows hb hw => exact hi.purged hb hu hw

end Inv

/-! ## What one step does to the rows -/

theorem Transition.log_mono {s t : Store P} {a : Action P} (h : Transition rt s a t) :
    ∀ e ∈ s.log, e ∈ t.log := by
  intro e he
  cases h
  all_goals first | exact he | exact List.mem_cons_of_mem _ he

/-- A row after a step is an old one, a new one, or the decision of a pending one. -/
theorem Transition.rows {s t : Store P} {a : Action P} (hi : Inv rt s) (h : Transition rt s a t) :
    ∀ r' ∈ t.rows, r' ∈ s.rows ∨ (∀ d, s.Created d → d.draftId ≠ r'.draftId) ∨
      ∃ r ∈ s.rows, r.status = "pending" ∧ r'.draftId = r.draftId := by
  intro r' hr'
  cases h with
  | inserted p c d w hb hw hid =>
    rcases List.mem_append.mp hr' with hr' | hr'
    · exact Or.inl hr'
    · rw [List.mem_singleton.mp hr']
      exact Or.inr (Or.inl (hi.fits p _ hb).2.2)
  | committed p c w q rows hb hw =>
    obtain ⟨-, -, -, hwriter, -⟩ := hi.fits p _ hb
    rw [hw] at hwriter
    cases hwriter
    obtain ⟨r, hr, hid, ⟨hm, -⟩ | ⟨-, rfl⟩⟩ := mem_decideRows hr'
    · exact Or.inr (Or.inr ⟨r, hr, (matchesPending_iff.mp hm).2, hid⟩)
    · exact Or.inl hr
  | purged p cutoff apply n w q rows hb hw =>
    have hwriter : s.writer = some (p, keptRows cutoff s.rows) := hi.fits p _ hb
    rw [hw] at hwriter
    cases hwriter
    exact Or.inl (List.mem_of_mem_filter hr')
  | _ => exact Or.inl hr'

/-- A pending row has a row of its identifier after the step. -/
theorem Transition.pending {s t : Store P} {a : Action P} (hi : Inv rt s)
    (h : Transition rt s a t) :
    ∀ r ∈ s.rows, r.status = "pending" → ∃ r' ∈ t.rows, r'.draftId = r.draftId := by
  intro r hr hst
  cases h with
  | inserted p c d w hb hw hid => exact ⟨r, List.mem_append_left _ hr, rfl⟩
  | committed p c w q rows hb hw =>
    obtain ⟨-, -, -, hwriter, -⟩ := hi.fits p _ hb
    rw [hw] at hwriter
    cases hwriter
    refine ⟨_, List.mem_map_of_mem hr, ?_⟩
    split <;> rfl
  | purged p cutoff apply n w q rows hb hw =>
    have hwriter : s.writer = some (p, keptRows cutoff s.rows) := hi.fits p _ hb
    rw [hw] at hwriter
    cases hwriter
    refine ⟨r, List.mem_filter.mpr ⟨hr, ?_⟩, rfl⟩
    rw [Bool.not_eq_true']
    exact Bool.eq_false_iff.mpr (fun hp => purgeable_not_pending hp hst)
  | _ => exact ⟨r, hr, rfl⟩

/-- A draft that the step has created is in the table as it was returned. -/
theorem Transition.created {s t : Store P} {a : Action P} (hi : Inv rt s) (h : Transition rt s a t)
    {d : Draft} (hd : t.Created d) (hnew : ¬ s.Created d) :
    getDraft rt t.rows d.draftId = .ok (some d) := by
  cases h with
  | inserted p c d' w hb hw hid =>
    rcases Inv.created_finish hd with hd | ⟨hr, -⟩
    · exact absurd hd hnew
    · cases hr
      have hnone : s.rows.find? (fun r => decide (r.draftId = d.draftId)) = none :=
        List.find?_eq_none.mpr (fun r hr => by simpa using hid r hr)
      have hfind : (s.rows ++ [rowOf d]).find? (fun r => decide (r.draftId = d.draftId)) =
          some (rowOf d) := by
        have hself : decide ((rowOf d).draftId = d.draftId) = true := decide_eq_true rfl
        rw [List.find?_append, hnone, Option.none_or, List.find?_cons, hself]
      rw [finish_rows, getDraft, hfind]
      simp only [toDraft_rowOf (hi.fits p _ hb).1.decision]
      rfl
  | started | began | updated | committed | counted | deleted => exact absurd hd hnew
  | refused p r e =>
    obtain ⟨e', he', hr, hc⟩ := hd
    rcases List.mem_cons.mp he' with rfl | he'
    · cases hr
    · exact absurd ⟨e', he', hr, hc⟩ hnew
  | _ =>
    rcases Inv.created_finish hd with hd | ⟨hr, c, hc⟩
    · exact absurd hd hnew
    · first | (cases hc; done) | cases hr

/-! ## Runs -/

theorem Since.step {s t u : Store P} (hs : Inv rt s) (h : Since rt s t) {a : Action P}
    (ha : Allowed t a) (hu : Undisturbed t a) (hstep : draftStep rt t a = some u) :
    Since rt s u where
  inv := h.inv.step ha hu hstep
  log := fun e he => (transition_of_step hstep).log_mono e (h.log e he)
  decided := fun r hr hst r' hr' hid => by
    obtain ⟨d, hd, hfr⟩ := hs.rows r hr
    rcases (transition_of_step hstep).rows h.inv r' hr' with hold | hnew | ⟨r₀, hr₀, hst₀, hid₀⟩
    · exact h.decided r hr hst r' hold hid
    · exact absurd (hfr.draftId.symm.trans hid.symm) (hnew d (hd.mono h.log))
    · -- a decided row is not decided again
      rw [h.decided r hr hst r₀ hr₀ (hid₀.symm.trans hid)] at hst₀
      exact absurd hst₀ hst

/-- **A draft is decided once, and what was filed and decided stays.**  In every
interleaving in which no purge removes a row between its decision and the read-back:
of the decisions on a draft at most one succeeds and the others raise `DraftConflict`
and change nothing; from any state of the run to any later one no decided row and no
filed content changes; and no step removes a pending row. -/
theorem drafts_decided_once (rt : Runtime) (P : Type) [DecidableEq P] (as bs : List (Action P))
    (s t : Store P)
    (hm : Meets (draftStep rt) (fun s a => Allowed s a ∧ Undisturbed s a)
      (Store.empty P) (as ++ bs))
    (hs : run (draftStep rt) (Store.empty P) as = some s) (ht : run (draftStep rt) s bs = some t) :
    Safe rt t ∧ Kept s t ∧ ∀ a u, draftStep rt t a = some u → KeptByStep rt t u := by
  have hi : Inv rt s := hm.prefix.invariant (P := Inv rt)
    (fun s a t hi hc hstep => hi.step hc.1 hc.2 hstep) Inv.empty hs
  have hsince : Since rt s t := (hm.suffix hs).invariant (P := Since rt s)
    (fun t a u h hc hstep => Since.step hi h hc.1 hc.2 hstep) (Since.refl hi) ht
  refine ⟨hsince.inv.safe, hsince.kept hi, fun a u hstep => ?_⟩
  have htr := transition_of_step hstep
  exact ⟨htr.pending hsince.inv, fun d hd hnew => htr.created hsince.inv hd hnew⟩

/-! ## A purge between a decision and its read-back -/

/-- A finding note, filed by the agent. -/
def sampleFiling : CreateArgs where
  kind := .controlFindingNote
  title := "Late reconciliation"
  body := "Control CTL-GE-01 ran late."
  requester := "ana@firm.example"
  relatedIds := []
  sessionId := ""
  draftId := "D-20250101-00000001"
  created := "2025-01-01T00:00:00Z"

/-- Its approval. -/
def sampleApproval : DecideArgs where
  draftId := "D-20250101-00000001"
  decision := .approved
  by_ := "rae@firm.example"
  note := ""
  at_ := "2025-01-02T00:00:00Z"

/-- The processes of the samples. -/
inductive SampleProcess where
  | agent
  | reviewer
  | rival
  | admin
  deriving DecidableEq

instance : Fintype SampleProcess :=
  ⟨{.agent, .reviewer, .rival, .admin}, fun p => by cases p <;> decide⟩

/-- A reviewer approves; `compliance-admin purge --older-than-days 0 --apply` runs before
`decide` has read the row back. -/
def sampleRace : List (Action SampleProcess) :=
  [.issue .agent (.create sampleFiling), .advance .agent,
    .issue .reviewer (.decide sampleApproval), .advance .reviewer, .advance .reviewer,
    .advance .reviewer,
    .issue .admin (.purge "2025-01-02T00:00:01Z" true), .advance .admin, .advance .admin,
    .advance .admin,
    .advance .reviewer]

/-- **The read-back can fail**: the decision has been committed, and `decide` raises an
`AssertionError`. -/
theorem purge_breaks_read_back :
    ∃ s, run (draftStep Runtime.python) (Store.empty SampleProcess) sampleRace =
      some s ∧
    Meets (draftStep Runtime.python) Allowed (Store.empty SampleProcess) sampleRace ∧
    ¬ Safe Runtime.python s := by
  have hrun : (checked (draftStep Runtime.python) Allowed (Store.empty SampleProcess)
    sampleRace).isSome = true := by decide +kernel
  have hlog : (run (draftStep Runtime.python) (Store.empty SampleProcess) sampleRace).bind
      (fun s => s.log.head?) =
        some ⟨.reviewer, .decide sampleApproval, .error .assertionError, true⟩ := by rfl
  obtain ⟨s, hs, hhead⟩ := Option.bind_eq_some_iff.mp hlog
  obtain ⟨t, ht⟩ := Option.isSome_iff_exists.mp hrun
  refine ⟨s, hs, (checked_eq_some ht).2, fun hsafe => ?_⟩
  rcases hsafe.others _ (List.mem_of_head? hhead) sampleApproval rfl (by decide) with
    ⟨c, d, -, -, h⟩ | ⟨h, -⟩
  · cases h
  · cases h

/-- The other reviewer's decision on the same draft. -/
def sampleRejection : DecideArgs :=
  { sampleApproval with decision := .rejected, by_ := "rob@firm.example" }

/-- The filing and its approval; a rival has asked for a rejection meanwhile. -/
def sampleReview : List (Action SampleProcess) :=
  [.issue .agent (.create sampleFiling), .advance .agent,
    .issue .reviewer (.decide sampleApproval), .issue .rival (.decide sampleRejection),
    .advance .reviewer, .advance .reviewer, .advance .reviewer]

/-- The rival finds the draft decided, the reviewer reads the decision back, and then it is
purged. -/
def sampleAftermath : List (Action SampleProcess) :=
  [.advance .rival, .advance .reviewer, .advance .rival, .advance .rival,
    .issue .admin (.purge "2025-01-02T00:00:01Z" true), .advance .admin, .advance .admin,
    .advance .admin]

theorem drafts_decided_once_sample : ∃ s t,
    run (draftStep Runtime.python) (Store.empty SampleProcess) sampleReview = some s ∧
    run (draftStep Runtime.python) s sampleAftermath = some t ∧ t.log.length = 4 ∧ t.rows = [] ∧
    Safe Runtime.python t ∧ Kept s t ∧
      ∀ a u, draftStep Runtime.python t a = some u → KeptByStep Runtime.python t u := by
  have hrun : (checked (draftStep Runtime.python) (fun s a => Allowed s a ∧ Undisturbed s a)
      (Store.empty SampleProcess) (sampleReview ++ sampleAftermath)).any
        (fun t => t.log.length = 4 && t.rows = []) = true := by decide +kernel
  obtain ⟨t, ht, hfacts⟩ := (Option.any_eq_true _ _).mp hrun
  obtain ⟨ht, hmeets⟩ := checked_eq_some ht
  obtain ⟨s, hs, hst⟩ := run_append.mp ht
  simp only [Bool.and_eq_true, decide_eq_true_eq] at hfacts
  exact ⟨s, t, hs, hst, hfacts.1, hfacts.2,
    drafts_decided_once Runtime.python SampleProcess sampleReview
    sampleAftermath s t hmeets hs hst⟩

end ComplianceMcp
