import ComplianceMcp.DraftRuns
import ComplianceMcp.EvidenceExport
import ComplianceMcp.KeyedMerge
import ComplianceMcp.ReadTools

/-! # The lists of drafts

Reviewers work from a list of the drafts of one status.  Whatever has been filed, decided and
purged, by any number of processes and in any order, a list never fails, and the lists of the three
statuses are the table: every draft is on exactly one of them, once, oldest first, and as `get`
finds it.  This needs no assumption on the run, neither fresh identifiers nor a purge that keeps
away from decisions. -/
namespace ComplianceMcp

open PyText Steps KeyedMerge

variable {rt : Runtime} {P : Type}

/-! ## Tables that are listed completely -/

/-- The list of a status: every draft that `get` finds with the status, and nothing else. -/
structure ListOf (rt : Runtime) (rows : List Row) (st : DraftStatus) (ds : List DraftSummary) :
    Prop where
  answer : listDrafts rt rows st = .ok ds
  oldest_first : ds.Pairwise (fun a b => a.created ≤ b.created)
  once : (ds.map DraftSummary.draftId).Nodup
  mem_iff : ∀ m, m ∈ ds ↔ ∃ d, getDraft rt rows m.draftId = .ok (some d) ∧
    d.status = st ∧ d.summary = m

/-- Every status has a list, and every row is on exactly one. -/
structure ListsComplete (rt : Runtime) (rows : List Row) : Prop where
  lists : ∀ st, ∃ ds, ListOf rt rows st ds
  one_list : ∀ r ∈ rows, ∃ st ds, ListOf rt rows st ds ∧ r.draftId ∈ ds.map DraftSummary.draftId ∧
    ∀ st' ds', ListOf rt rows st' ds' → r.draftId ∈ ds'.map DraftSummary.draftId → st' = st

/-- Rows with distinct ids, each inserted by `create` and perhaps decided. -/
structure Written (rows : List Row) : Prop where
  ids : (rows.map Row.draftId).Nodup
  rows : ∀ r ∈ rows, WrittenRow r

section Reading

variable {rows : List Row} {r : Row} {d : Draft}

/-- A row as `get` returns it. -/
structure ReadAs (rt : Runtime) (r : Row) (d : Draft) : Prop where
  read : toDraft rt r = .ok d
  draftId : d.draftId = r.draftId
  created : d.created = r.created
  status : d.status.value = r.status

theorem WrittenRow.readAs (h : WrittenRow r) : ∃ d, ReadAs rt r d := by
  cases h with
  | created d hd => exact ⟨d, toDraft_rowOf hd, rfl, rfl, rfl⟩
  | decided d c =>
    by_cases hc : c.by_ = ""
    · exact ⟨_, toDraft_decided_by_nobody d hc, rfl, rfl, rfl⟩
    · exact ⟨d.decided c, toDraft_decideRow d hc, rfl, rfl, rfl⟩

/-- Rows that read back are read one by one. -/
theorem forall₂_readAs : ∀ {l : List Row}, (∀ r ∈ l, WrittenRow r) →
    ∃ ds, l.mapM (toDraft rt) = .ok ds ∧ List.Forall₂ (ReadAs rt) l ds := by
  intro l
  induction l with
  | nil => exact fun _ => ⟨[], rfl, List.Forall₂.nil⟩
  | cons r l ih =>
    intro h
    obtain ⟨d, hd⟩ := @WrittenRow.readAs rt r (h r List.mem_cons_self)
    obtain ⟨ds, hds, hall⟩ := ih (fun x hx => h x (List.mem_cons_of_mem r hx))
    exact ⟨d :: ds, by rw [List.mapM_cons, hd.read, hds]; rfl, List.Forall₂.cons hd hall⟩

/-- `get` finds a row of the table, and nothing else. -/
theorem Written.get_iff (h : Written rows) {draftId : String} :
    getDraft rt rows draftId = .ok (some d) ↔ ∃ r ∈ rows, r.draftId = draftId ∧
    toDraft rt r = .ok d := by
  constructor
  · exact getDraft_row
  · rintro ⟨r, hr, hid, hd⟩
    unfold getDraft
    rw [(find?_key_iff h.ids).mpr ⟨hr, hid⟩]
    simp only [hd, Except.map]

/-- What is read has the columns of the rows. -/
theorem columns_of_readAs {l : List Row} {ds : List Draft} (h : List.Forall₂ (ReadAs rt) l ds) :
    ds.map Draft.draftId = l.map Row.draftId ∧ ds.map Draft.created = l.map Row.created ∧
      (∀ r ∈ l, ∃ d ∈ ds, ReadAs rt r d) ∧ ∀ d ∈ ds, ∃ r ∈ l, ReadAs rt r d := by
  induction h with
  | nil => exact ⟨rfl, rfl, fun _ hr => (nomatch hr), fun _ hd => (nomatch hd)⟩
  | @cons r d l ds hrd _ ih =>
    obtain ⟨hids, hcreated, hleft, hright⟩ := ih
    refine ⟨by rw [List.map_cons, List.map_cons, hids, hrd.draftId],
      by rw [List.map_cons, List.map_cons, hcreated, hrd.created], fun x hx => ?_, fun x hx => ?_⟩
    · rcases List.mem_cons.mp hx with rfl | hx
      · exact ⟨d, List.mem_cons_self, hrd⟩
      · obtain ⟨y, hy, hxy⟩ := hleft x hx
        exact ⟨y, List.mem_cons_of_mem d hy, hxy⟩
    · rcases List.mem_cons.mp hx with rfl | hx
      · exact ⟨r, List.mem_cons_self, hrd⟩
      · obtain ⟨y, hy, hxy⟩ := hright x hx
        exact ⟨y, List.mem_cons_of_mem r hy, hxy⟩

theorem DraftStatus.value_injective : Function.Injective DraftStatus.value := by
  intro a b h
  cases a <;> cases b <;> first | rfl | (revert h; decide)

/-- **The list of a status.** -/
theorem Written.listOf (h : Written rows) (st : DraftStatus) : ∃ ds, ListOf rt rows st ds := by
  obtain ⟨l, hl⟩ : ∃ l, l = (rows.filter (fun r => r.status = st.value)).insertionSort createdLE :=
    ⟨_, rfl⟩
  have hmem : ∀ r, r ∈ l ↔ r ∈ rows ∧ r.status = st.value := by
    intro r
    rw [hl, List.mem_insertionSort, List.mem_filter, decide_eq_true_eq]
  have hsorted : l.Pairwise createdLE := by
    have : Std.Total createdLE := ⟨fun a b => String.le_total a.created b.created⟩
    have : IsTrans Row createdLE := ⟨fun _ _ _ hab hbc => String.le_trans hab hbc⟩
    rw [hl]
    exact List.pairwise_insertionSort createdLE _
  have hnodup : (l.map Row.draftId).Nodup := by
    rw [hl]
    exact ((List.perm_insertionSort createdLE _).map Row.draftId).nodup_iff.mpr
      (h.ids.sublist (List.filter_sublist.map Row.draftId))
  obtain ⟨ds, hds, hall⟩ := @forall₂_readAs rt l (fun r hr => h.rows r ((hmem r).mp hr).1)
  obtain ⟨hids, hcreated, hleft, hright⟩ := columns_of_readAs hall
  refine ⟨ds.map Draft.summary, ?_, ?_, ?_, fun m => ⟨fun hm => ?_, ?_⟩⟩
  · rw [listDrafts, ← hl, hds]
    rfl
  · have hpair : (ds.map Draft.created).Pairwise (· ≤ ·) := by
      rw [hcreated]
      exact List.pairwise_map.mpr hsorted
    exact List.pairwise_map.mpr (List.pairwise_map.mp hpair)
  · rw [List.map_map]
    exact hids ▸ hnodup
  · obtain ⟨d, hd, rfl⟩ := List.mem_map.mp hm
    obtain ⟨r, hr, hrd⟩ := hright d hd
    obtain ⟨hrows, hstatus⟩ := (hmem r).mp hr
    exact ⟨d, h.get_iff.mpr ⟨r, hrows, hrd.draftId.symm, hrd.read⟩,
      DraftStatus.value_injective (hrd.status.trans hstatus), rfl⟩
  · rintro ⟨d, hget, hstatus, rfl⟩
    obtain ⟨r, hr, -, hread⟩ := h.get_iff.mp hget
    obtain ⟨d', hd'⟩ := @WrittenRow.readAs rt r (h.rows r hr)
    obtain rfl : d' = d := Except.ok.inj (hd'.read.symm.trans hread)
    obtain ⟨x, hx, hrx⟩ := hleft r ((hmem r).mpr ⟨hr, hd'.status.symm.trans (congrArg _ hstatus)⟩)
    obtain rfl : x = d' := Except.ok.inj (hrx.read.symm.trans hd'.read)
    exact List.mem_map_of_mem hx

/-- **A table that was written is listed completely.** -/
theorem Written.listsComplete (h : Written rows) : ListsComplete rt rows where
  lists := h.listOf
  one_list := by
    intro r hr
    obtain ⟨d, hd⟩ := @WrittenRow.readAs rt r (h.rows r hr)
    have hget := h.get_iff.mpr ⟨r, hr, rfl, hd.read⟩
    obtain ⟨ds, hds⟩ := @Written.listOf rt rows h d.status
    have hid : d.summary.draftId = r.draftId := hd.draftId
    refine ⟨d.status, ds, hds, ?_, fun st' ds' hds' hmem => ?_⟩
    · rw [← hid]
      exact List.mem_map_of_mem ((hds.mem_iff d.summary).mpr ⟨d, by rw [hid]; exact hget, rfl, rfl⟩)
    · obtain ⟨m, hm, hmid⟩ := List.mem_map.mp hmem
      obtain ⟨d', hget', hstatus, -⟩ := (hds'.mem_iff m).mp hm
      rw [hmid, hget] at hget'
      cases hget'
      exact hstatus.symm

end Reading

/-! ## What every step keeps -/

section Steps

variable [DecidableEq P] {s t : Store P}

/-- The committed rows and those of the writer are written by `create` and `decide`, and what is
about to be inserted is a new draft. -/
structure WrittenStore (s : Store P) : Prop where
  rows : Written s.rows
  writer : ∀ p rows, s.writer = some (p, rows) → Written rows
  inserts : ∀ p b d, s.busy p = some b → b.pc = .insert d → d.decision = none

/-- A decision on a row that was decided before writes over it. -/
theorem WrittenRow.decide {r : Row} (h : WrittenRow r) (c : DecideArgs) :
    WrittenRow (decideRow c r) := by
  cases h with
  | created d hd => exact .decided d c
  | decided d c' => exact .decided d c

theorem Written.decide {rows : List Row} (h : Written rows) (c : DecideArgs) :
    Written (decideRows c rows) where
  ids := by
    rw [decideRows_ids]
    exact h.ids
  rows := fun r' hr' => by
    obtain ⟨r, hr, -, ⟨-, rfl⟩ | ⟨-, rfl⟩⟩ := mem_decideRows hr'
    · exact (h.rows r hr).decide c
    · exact h.rows r' hr

theorem Written.purge {rows : List Row} (h : Written rows) (cutoff : String) :
    Written (keptRows cutoff rows) where
  ids := h.ids.sublist (List.filter_sublist.map Row.draftId)
  rows := fun r hr => h.rows r (List.mem_of_mem_filter hr)

theorem Written.insert {rows : List Row} (h : Written rows) {d : Draft} (hd : d.decision = none)
    (hid : ∀ r ∈ rows, r.draftId ≠ d.draftId) : Written (rows ++ [rowOf d]) where
  ids := by
    rw [List.map_append, List.nodup_append]
    refine ⟨h.ids, List.nodup_singleton _, fun x hx y hy hxy => ?_⟩
    obtain ⟨r, hr, rfl⟩ := List.mem_map.mp hx
    exact hid r hr (hxy.trans (List.mem_singleton.mp hy))
  rows := fun r hr => by
    rcases List.mem_append.mp hr with hr | hr
    · exact h.rows r hr
    · rw [List.mem_singleton.mp hr]
      exact .created d hd

/-- A process moves on: what it is about to insert, if anything, is new. -/
theorem WrittenStore.goto (h : WrittenStore s) (p : P) (b : Busy) {rows : List Row}
    {writer : Option (P × List Row)} {pc : Pc} (hrows : Written rows)
    (hwriter : ∀ q held, writer = some (q, held) → Written held)
    (hpc : ∀ d, pc = .insert d → d.decision = none) : WrittenStore (s.goto p b rows writer pc) where
  rows := hrows
  writer := hwriter
  inserts := by
    intro q b' d hb hd
    by_cases hq : q = p
    · subst hq
      rw [goto_busy_self] at hb
      cases hb
      exact hpc d hd
    · rw [goto_busy_of_ne s p b rows writer hq] at hb
      exact h.inserts q b' d hb hd

/-- A process answers. -/
theorem WrittenStore.finish (h : WrittenStore s) (p : P) (b : Busy) {rows : List Row}
    {writer : Option (P × List Row)} (r : Except PyError Reply) (hrows : Written rows)
    (hwriter : ∀ q held, writer = some (q, held) → Written held) :
    WrittenStore (s.finish p b rows writer r) where
  rows := hrows
  writer := hwriter
  inserts := by
    intro q b' d hb hd
    by_cases hq : q = p
    · subst hq
      rw [finish_busy_self] at hb
      cases hb
    · rw [finish_busy_of_ne s p b rows writer hq] at hb
      exact h.inserts q b' d hb hd

omit [DecidableEq P] in
theorem WrittenStore.empty : WrittenStore (Store.empty P) where
  rows := ⟨List.nodup_nil, fun _ hr => (nomatch hr)⟩
  writer := fun _ _ hw => (nomatch hw)
  inserts := fun _ _ _ hb => (nomatch hb)

/-- **One step**, of whatever process. -/
theorem WrittenStore.step (h : WrittenStore s) {a : Action P} (hstep : draftStep rt s a = some t) :
    WrittenStore t := by
  have hnobody : ∀ q held, (none : Option (P × List Row)) = some (q, held) → Written held :=
    fun _ _ hw => (nomatch hw)
  cases transition_of_step hstep with
  | started p r pc hidle hstart =>
    refine ⟨h.rows, h.writer, fun q b d hb hd => ?_⟩
    by_cases hq : q = p
    · subst hq
      rw [launch_busy_self] at hb
      cases hb
      replace hd : pc = .insert d := hd
      rcases start_ok hstart with ⟨c, d', -, hpc, hcreate⟩ | ⟨c, -, -, hpc⟩ | ⟨-, hpc⟩ |
        ⟨c, b, -, hpc⟩
      · rw [hd] at hpc
        cases hpc
        exact (createDraft_new hcreate).1.decision
      · rw [hd] at hpc
        cases hpc
      · rw [hd] at hpc
        cases hpc
      · rw [hd] at hpc
        cases hpc
    · rw [launch_busy_of_ne s p hq] at hb
      exact h.inserts q b d hb hd
  | refused p r e hidle hstart => exact ⟨h.rows, h.writer, h.inserts⟩
  | clashed p c d w hb hw r hr hid => exact h.finish p _ _ h.rows hnobody
  | inserted p c d w hb hw hid =>
    exact h.finish p _ _ (h.rows.insert (h.inserts p _ d hb rfl) hid) hnobody
  | began p c w hb hw =>
    refine h.goto p _ h.rows (fun q held hq => ?_) (fun d hd => (nomatch hd))
    cases hq
    exact h.rows
  | updated p c w q rows hb hw =>
    refine h.goto p _ h.rows (fun q' held hq => ?_) (fun d hd => ?_)
    · cases hq
      exact (h.writer q rows hw).decide c
    · split at hd <;> cases hd
  | committed p c w q rows hb hw =>
    exact h.goto p _ (h.writer q rows hw) hnobody (fun d hd => (nomatch hd))
  | rolledBack p c w hb => exact h.finish p _ _ h.rows hnobody
  | readBack p c w hb => exact h.finish p _ _ h.rows h.writer
  | got p draftId w hb => exact h.finish p _ _ h.rows h.writer
  | listed p st w hb => exact h.finish p _ _ h.rows h.writer
  | counted p cutoff w hb n => exact h.goto p _ h.rows h.writer (fun d hd => (nomatch hd))
  | reported p cutoff w hb n => exact h.finish p _ _ h.rows h.writer
  | deleted p cutoff apply n w hb hw =>
    refine h.goto p _ h.rows (fun q held hq => ?_) (fun d hd => (nomatch hd))
    cases hq
    exact h.rows.purge cutoff
  | purged p cutoff apply n w q rows hb hw => exact h.finish p _ _ (h.writer q rows hw) hnobody

end Steps

/-- **Every draft is on exactly one list.**  In every state that any interleaving of creations,
decisions, reads and purges by any number of processes reaches, each status has a list, with the
drafts that `get` finds with this status, once each and oldest first; and every row of the table is
on one of them only. -/
theorem drafts_on_one_list (rt : Runtime) (P : Type) [DecidableEq P]
    (as : List (Action P)) (s : Store P) (hs : run (draftStep rt) (Store.empty P) as = some s) :
    ListsComplete rt s.rows := by
  have hinv : ∀ (as : List (Action P)) (s t : Store P), WrittenStore s →
  run (draftStep rt) s as = some t →
      WrittenStore t := by
    intro as
    induction as with
    | nil =>
      intro s t h hr
      cases hr
      exact h
    | cons a as ih =>
      intro s t h hr
      obtain ⟨u, hu, hr⟩ := run_cons.mp hr
      exact ih u t (h.step hu) hr
  exact (hinv as _ s WrittenStore.empty hs).rows.listsComplete

/-- After a filing and its approval, with a rejection on its way. -/
theorem drafts_on_one_list_sample :
    ∃ s, run (draftStep Runtime.python) (Store.empty SampleProcess) sampleReview =
      some s ∧
    ListsComplete Runtime.python s.rows :=
  ⟨_, rfl, drafts_on_one_list Runtime.python SampleProcess sampleReview _ rfl⟩

end ComplianceMcp
