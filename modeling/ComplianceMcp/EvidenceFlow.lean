import ComplianceMcp.EvidencePack

/-! # From the bundle to the pack

An analyst asks for the evidence of a control over a period, cites the hash of the manifest in an
index, an approver approves it, and the pack is exported.  Between these, others file and decide
drafts, export, edit the data, restart the server and purge.  `EvidenceExport` says what a pack
cites; here it is shown that the pack gets out: an index that cites its bundle is filed, and once
approved it can be exported for as long as the systems say the same and the draft is retained. -/
namespace ComplianceMcp

open PyText Steps

/-! ## Runs with purges -/

/-- What happens in the office, and purges of the drafts. -/
inductive FlowAction where
  | office (a : OfficeAction)
  | purge (cutoff : String)

/-- The step function. -/
def flowStep (rt : Runtime) (alnum : Char → Bool) (s : Office) : FlowAction → Option Office
  | .office a => officeStep rt alnum s a
  | .purge cutoff => some { s with rows := keptRows cutoff s.rows }

/-- Nobody decides the draft. -/
def LeavesPending (draftId : String) (a : FlowAction) : Prop :=
  ∀ c, a = .office (.decide c) → c.draftId ≠ draftId

/-- A draft that was decided at that time is retained. -/
def Retains (at_ : String) (a : FlowAction) : Prop := ∀ cutoff, a = .purge cutoff → cutoff ≤ at_

/-- The documents are those whose hashes the manifest records. -/
def DocumentsMatch (rt : Runtime) (documents : String → Option Bytes) (m : EvidenceManifest) :
    Prop :=
  ∀ v ∈ m.policyVersions, ∃ content, documents v.source = some content ∧
  (rt.sha256 content).text = v.sha256

/-- The pack of an index: what was cited, what was approved, and who had a part in it. -/
structure PackOf (pack : Pack) (m : EvidenceManifest) (body user exporter : String)
    (c : DecideArgs) : Prop where
  manifest : pack.manifest = m
  index : pack.index = body
  cover : pack.cover.manifestSha256 = m.manifestSha256
  requestedBy : pack.cover.requestedBy = user
  approval : pack.cover.draftId = c.draftId ∧ pack.cover.approvedBy = c.by_ ∧
    pack.cover.approvedAt = c.at_ ∧
    pack.cover.approvalNote = c.note
  exportedBy : pack.cover.exportedBy = exporter

/-! ## A row stays -/

section Rows

variable {rt : Runtime} {alnum : Char → Bool} {s t : Office} {draftId : String} {r : Row}

/-- The row is the one that the id finds. -/
def Finds (draftId : String) (s : Office) (r : Row) : Prop :=
  s.rows.find? (fun x => x.draftId = draftId) = some r

theorem Finds.id (h : Finds draftId s r) : r.draftId = draftId := by
  simpa using List.find?_some h

/-- A decision maps what is found. -/
theorem Finds.decided (h : Finds draftId s r) (c : DecideArgs) :
    (decideRows c s.rows).find? (fun x => x.draftId = draftId) =
      some (if matchesPending c r then decideRow c r else r) := by
  have hcomp : ((fun x : Row => decide (x.draftId = draftId)) ∘
      fun x => if matchesPending c x then decideRow c x
        else x) = fun x => decide (x.draftId = draftId) := by
    funext x
    simp only [Function.comp]
    split <;> rfl
  rw [decideRows, List.find?_map, hcomp, h]
  rfl

/-- A purge that spares the row leaves it where the id finds it. -/
theorem find_keptRows {cutoff : String} (hr : purgeable cutoff r = false) : ∀ {rows : List Row},
    rows.find? (fun x => x.draftId = draftId) = some r →
      (keptRows cutoff rows).find? (fun x => x.draftId = draftId) = some r := by
  intro rows
  induction rows with
  | nil => exact fun h => nomatch h
  | cons x rows ih =>
    intro h
    by_cases hx : x.draftId = draftId
    · rw [List.find?_cons_of_pos (by rwa [decide_eq_true_eq])] at h
      cases h
      rw [keptRows, List.filter_cons_of_pos (by rw [hr]; rfl),
        List.find?_cons_of_pos (by rwa [decide_eq_true_eq])]
    · rw [List.find?_cons_of_neg (by rwa [decide_eq_true_eq])] at h
      rw [keptRows, List.filter_cons]
      split
      · rw [List.find?_cons_of_neg (by rwa [decide_eq_true_eq])]
        exact ih h
      · exact ih h

/-- **One step leaves the row**, if it is no decision on it and no purge of it. -/
theorem Finds.step (h : Finds draftId s r) {a : FlowAction} (hstep : flowStep rt alnum s a = some t)
    (hdecide : ∀ c, a = .office (.decide c) → matchesPending c r = false)
    (hpurge : ∀ cutoff, a = .purge cutoff → purgeable cutoff r = false) : Finds draftId t r := by
  cases a with
  | purge cutoff =>
    cases hstep
    exact find_keptRows (hpurge cutoff rfl) h
  | office a =>
    cases a with
    | change data documents =>
      cases hstep
      exact h
    | restart =>
      cases hstep
      exact h
    | create a user id created =>
      obtain rfl := Option.some.inj hstep
      split
      · exact h
      split
      · exact h
      · exact (List.find?_append).trans (by rw [h]; rfl)
    | decide c =>
      obtain rfl := Option.some.inj hstep
      split
      · exact h
      · have hfound := h.decided c
        rw [hdecide c rfl] at hfound
        exact hfound
    | export_ id exporter auditLines =>
      obtain rfl := Option.some.inj hstep
      split
      · exact h
      · exact h

/-- Every action can happen. -/
theorem flowStep_total (s : Office) (a : FlowAction) : ∃ t, flowStep rt alnum s a = some t := by
  cases a with
  | purge cutoff => exact ⟨_, rfl⟩
  | office a => cases a <;> exact ⟨_, rfl⟩

/-- The row stays through a run that neither decides nor purges it. -/
theorem Finds.run {as : List FlowAction} : ∀ {s : Office}, Finds draftId s r →
    (∀ a ∈ as, ∀ c, a = .office (.decide c) → matchesPending c r = false) →
    (∀ a ∈ as, ∀ cutoff, a = .purge cutoff → purgeable cutoff r = false) →
    ∃ t, run (flowStep rt alnum) s as = some t ∧ Finds draftId t r := by
  induction as with
  | nil => exact fun h _ _ => ⟨_, rfl, h⟩
  | cons a as ih =>
    intro s h hdecide hpurge
    obtain ⟨t, ht⟩ := @flowStep_total rt alnum s a
    have h' := h.step ht (hdecide a List.mem_cons_self) (hpurge a List.mem_cons_self)
    obtain ⟨u, hu, hfinds⟩ := ih h' (fun b hb => hdecide b (List.mem_cons_of_mem a hb))
      (fun b hb => hpurge b (List.mem_cons_of_mem a hb))
    exact ⟨u, run_cons.mpr ⟨t, ht, hu⟩, hfinds⟩

end Rows

/-! ## Filing and exporting -/

section Flow

variable {rt : Runtime} {alnum : Char → Bool}

/-- An index that cites the manifest of its bundle is filed. -/
theorem cited_index_filed {data : Systems} {c st e body : String} (hc : PlainId c)
    (hst : IsoShape st) (he : IsoShape e) {summary : String} {m : EvidenceManifest}
    (hbundle : evidenceBundle rt data c st e = .ok (summary, m))
    (hcites : Standalone alnum m.manifestSha256.toList body.toList) (ids : List String)
    (user draftId created : String) :
    ∃ d, draftCreate rt alnum data (indexArgs (indexTitle c st e) body ids) user draftId
      created = .ok d := by
  obtain ⟨-, hm⟩ := (evidenceBundle_ok_iff hst.ne_empty he.ne_empty).mp ⟨summary, hbundle⟩
  have hbody : blank body.toList = false := by
    obtain ⟨hhash, before, after, hsplit, -⟩ := hcites
    cases hh : m.manifestSha256.toList with
    | nil =>
      have hlen := hhash.length
      rw [hh] at hlen
      cases hlen
    | cons x xs =>
      refine blank_false (c := x) ?_
        (isSpace_of_isHexDigit (hhash.hex x (by rw [hh]; exact List.mem_cons_self)))
      rw [hsplit, hh]
      simp
  rw [draftCreate_ok_iff, checkArgs_index indexTitle_not_blank hbody]
  exact (check_manifest (periodFromTitle_plain hc hst he) hm).1.mpr hcites

theorem policyFiles_of_match {documents : String → Option Bytes} {refs : List PolicyVersionRef}
    (h : ∀ v ∈ refs, ∃ content, documents v.source = some content ∧
      (rt.sha256 content).text = v.sha256) :
    ∃ ps, policyFiles rt documents refs = .ok ps := by
  induction refs with
  | nil => exact ⟨[], rfl⟩
  | cons v refs ih =>
    obtain ⟨content, hread, hsha⟩ := h v List.mem_cons_self
    obtain ⟨ps, hps⟩ := ih (fun w hw => h w (List.mem_cons_of_mem v hw))
    refine ⟨(v.source, content) :: ps, ?_⟩
    rw [policyFiles]
    simp only [hread, hsha, hps, ne_eq, not_true_eq_false, if_false, bind, Except.bind,
      pure, Except.pure]

/-- The pack of a decided index. -/
theorem buildPack_decided {documents : String → Option Bytes} {m : EvidenceManifest}
    (hdocs : DocumentsMatch rt documents m) {d : Draft} (hkind : d.kind = .evidencePackIndex)
    {c : DecideArgs} (hid : d.draftId = c.draftId) (hc : c.decision = .approved)
    (auditLines : List String) (exporter : String) :
    ∃ pack, buildPack rt documents auditLines exporter (d.decided c) m = .ok pack ∧
      PackOf pack m d.body d.requester exporter c := by
  obtain ⟨ps, hps⟩ := policyFiles_of_match hdocs
  have hkind' : (d.decided c).kind = .evidencePackIndex := hkind
  have hstatus : (d.decided c).status = .approved := hc
  have hdecision : (d.decided c).decision = some ⟨c.by_, c.note, c.at_⟩ := rfl
  unfold buildPack
  rw [if_neg (not_not.mpr hkind'), hdecision]
  simp only [if_neg (not_not.mpr hstatus), hps, bind, Except.bind, pure, Except.pure]
  exact ⟨_, rfl, rfl, rfl, rfl, rfl, ⟨hid, rfl, rfl, rfl⟩, rfl⟩

/-- A draft that is filed under a fresh id is found under it. -/
theorem finds_filed {s : Office} {a : DraftArgs} {user draftId created : String} {d : Draft}
    (hd : draftCreate rt alnum s.server a user draftId created = .ok d)
    (hnew : draftId ∉ s.rows.map Row.draftId) :
    ∃ t, flowStep rt alnum s (.office (.create a user draftId created)) = some t ∧
    Finds draftId t (rowOf d) := by
  refine ⟨_, rfl, ?_⟩
  simp only [hd, if_neg hnew, Finds]
  have hnone : s.rows.find? (fun x => x.draftId = draftId) = none := by
    rw [List.find?_eq_none]
    intro x hx hid
    exact hnew (of_decide_eq_true hid ▸ List.mem_map_of_mem hx)
  rw [List.find?_append, hnone, Option.none_or,
    List.find?_cons_of_pos (by rw [decide_eq_true_eq]; exact (draftOf_draftCreate hd).id)]

/-- A pending draft that is decided is found with its decision. -/
theorem finds_decided {s : Office} {d : Draft} {c : DecideArgs} (h : Finds c.draftId s (rowOf d))
    (hpending : d.status = .pending) (hc : c.decision ≠ .pending) :
    ∃ t, flowStep rt alnum s (.office (.decide c)) = some t ∧
    Finds c.draftId t (decideRow c (rowOf d)) := by
  refine ⟨_, rfl, ?_⟩
  have hstatus : (rowOf d).status = "pending" := congrArg DraftStatus.value hpending
  have hmatch : matchesPending c (rowOf d) = true := by
    rw [matchesPending, hstatus, decide_eq_true h.id]
    rfl
  have hfound := h.decided c
  rw [if_pos hmatch] at hfound
  rw [if_neg hc]
  exact hfound

/-- An approved index that is found is exported, if its manifest is what the systems say now. -/
theorem export_found {t : Office} {d : Draft} {c : DecideArgs}
    (h : Finds c.draftId t (decideRow c (rowOf d))) (hkind : d.kind = .evidencePackIndex)
    (hid : d.draftId = c.draftId) (hc : c.decision = .approved) (hby : c.by_ ≠ "")
    {control st e : String} (hp : periodFromTitle d.title = some (control, st, e))
    {m : EvidenceManifest} (hm : computeManifest rt t.disk control st e = .ok (some m))
    (hdocs : DocumentsMatch rt t.documents m) (exporter : String) (auditLines : List String) :
    ∃ pack, flowStep rt alnum t (.office (.export_ c.draftId exporter auditLines)) =
        some { t with packs := t.packs ++ [pack] } ∧
        PackOf pack m d.body d.requester exporter c := by
  obtain ⟨pack, hpack, hof⟩ := buildPack_decided hdocs hkind hid hc auditLines exporter
  have hget : getDraft rt t.rows c.draftId = .ok (some (d.decided c)) := by
    unfold Finds at h
    rw [getDraft, h]
    simp only [toDraft_decideRow d hby, Except.map]
  have htitle : periodFromTitle (d.decided c).title = some (control, st, e) := hp
  have hexport : (getDraft rt t.rows c.draftId).bind
      (exportPack rt t.disk t.documents auditLines exporter c.draftId) = .ok pack := by
    rw [hget]
    show exportPack rt t.disk t.documents auditLines exporter c.draftId (some (d.decided c)) = _
    unfold exportPack
    simp only [htitle, hm, bind, Except.bind, hpack]
  exact ⟨pack, by simp only [flowStep, officeStep, hexport], hof⟩

end Flow

/-- **What was asked for gets out.**  Take any state of the office, a control and a period for which
`evidence_bundle` hands out a manifest, and an index under the title of that period that cites its
hash. The index is filed under a fresh id.  Whatever else is done until an approval of it, short of
another decision on it, and after it, short of a purge that reaches past it: whenever the systems of
record say the same and the documents are those that were hashed, the export gives a pack of this
manifest, this index and this approval. -/
theorem asked_for_gets_out (rt : Runtime) (alnum : Char → Bool) (s : Office) (control st e : String)
    (hcontrol : PlainId control) (hst : IsoShape st) (he : IsoShape e) (summary : String)
    (m : EvidenceManifest) (hbundle : evidenceBundle rt s.server control st e = .ok (summary, m))
    (body : String) (hcites : Standalone alnum m.manifestSha256.toList body.toList)
    (ids : List String) (user draftId created : String) (hnew : draftId ∉ s.rows.map Row.draftId)
    (waiting : List FlowAction) (hwaiting : ∀ a ∈ waiting, LeavesPending draftId a) (c : DecideArgs)
    (hc : c.draftId = draftId) (happroved : c.decision = .approved) (hby : c.by_ ≠ "")
    (later : List FlowAction) (hlater : ∀ a ∈ later, Retains c.at_ a) :
    ∃ t, run (flowStep rt alnum) s
        (.office (.create (indexArgs (indexTitle control st e) body ids) user draftId created) ::
          waiting ++ .office (.decide c) :: later) = some t ∧
      (SameEvidence s.server t.disk control st e → DocumentsMatch rt t.documents m →
        ∀ exporter auditLines, ∃ pack,
          flowStep rt alnum t (.office (.export_ draftId exporter auditLines)) =
            some { t with packs := t.packs ++ [pack] } ∧ PackOf pack m body user exporter c) := by
  subst hc
  obtain ⟨d, hd⟩ := cited_index_filed hcontrol hst he hbundle hcites ids user c.draftId created
  have hof := draftOf_draftCreate hd
  obtain ⟨-, hm⟩ := (evidenceBundle_ok_iff hst.ne_empty he.ne_empty).mp ⟨summary, hbundle⟩
  obtain ⟨s₁, hs₁, hfiled⟩ := finds_filed hd hnew
  -- it stays pending until it is approved
  obtain ⟨s₂, hs₂, hwaits⟩ : ∃ s₂, run (flowStep rt alnum) s₁ waiting = some s₂ ∧
      Finds c.draftId s₂ (rowOf d) := by
    refine hfiled.run (fun a ha x hx => ?_) (fun a _ cutoff _ => ?_)
    · have hne : (rowOf d).draftId ≠ x.draftId := fun heq => hwaiting a ha x hx (heq ▸ hof.id)
      rw [matchesPending, decide_eq_false hne, Bool.false_and]
    · rw [purgeable, show (rowOf d).status = "pending" from congrArg DraftStatus.value hof.pending]
      rfl
  obtain ⟨s₃, hs₃, hdecided⟩ := finds_decided hwaits hof.pending (by rw [happroved]; decide)
  -- and once approved it is changed no more
  obtain ⟨t, ht, hstays⟩ : ∃ t, run (flowStep rt alnum) s₃ later = some t ∧
      Finds c.draftId t (decideRow c (rowOf d)) := by
    refine hdecided.run (fun a _ x _ => ?_) (fun a ha cutoff hcut => ?_)
    · rw [matchesPending, show (decideRow c (rowOf d)).status = "approved"
        from congrArg DraftStatus.value happroved]
      exact Bool.and_false _
    · rw [purgeable, show (decideRow c (rowOf d)).decisionAt = some c.at_ from rfl]
      exact (congrArg _ (decide_eq_false (not_lt.mpr (hlater a ha cutoff hcut)))).trans
        (Bool.and_false _)
  refine ⟨t, ?_, fun hsame hdocs exporter auditLines => ?_⟩
  · exact run_cons.mpr ⟨s₁, hs₁, run_append.mpr ⟨s₂, hs₂, run_cons.mpr ⟨s₃, hs₃, ht⟩⟩⟩
  · have htitle : periodFromTitle d.title = some (control, st, e) := by
      rw [hof.title, periodFromTitle_stripped]
      exact periodFromTitle_plain hcontrol hst he
    have hm' : computeManifest rt t.disk control st e = .ok (some m) := by
      rw [← computeManifest_congr hsame]
      exact hm
    have hexport := @export_found rt alnum t d c hstays hof.kind hof.id happroved hby control st e
      htitle m hm' hdocs exporter auditLines
    rwa [hof.body, hof.requester] at hexport

/-- An index of the sample is filed, passes a purge, is approved, and passes another. -/
theorem asked_for_gets_out_sample : ∃ m t,
    run (flowStep Runtime.python (fun _ => false)) sampleOffice
        (.office (.create (indexArgs (indexTitle "CTL-1" "2026-01-01" "2026-03-31")
          m.manifestSha256 [])
            "priya@example-am.com" "D-1" "2026-04-01T09:00:00Z") ::
          [.purge "2030-01-01"] ++ .office (.decide sampleIndexApproval) ::
          [.purge "2026-01-01"]) = some t ∧
      (SameEvidence sampleSystems t.disk "CTL-1" "2026-01-01" "2026-03-31" →
        DocumentsMatch Runtime.python t.documents m → ∀ exporter auditLines, ∃ pack,
          flowStep Runtime.python (fun _ => false) t
            (.office (.export_ "D-1" exporter auditLines)) =
            some { t with packs := t.packs ++ [pack] } ∧
          PackOf pack m m.manifestSha256 "priya@example-am.com" exporter sampleIndexApproval) := by
  have hreal : RealPeriod "2026-01-01" "2026-03-31" :=
    ⟨⟨⟨2026, 1, 1⟩, by decide +kernel⟩, ⟨⟨2026, 3, 31⟩, by decide +kernel⟩, by decide +kernel⟩
  have hcontrol : PlainId "CTL-1" := ⟨by decide, List.all_eq_true.mp (by decide)⟩
  obtain ⟨m, hm⟩ := @computeManifest_real Runtime.python sampleSystems "CTL-1" _ _ (by decide) hreal
  obtain ⟨summary, hbundle⟩ :=
    (evidenceBundle_ok_iff sample_start.ne_empty sample_end.ne_empty).mpr ⟨hreal, hm⟩
  obtain ⟨t, hrun, hexport⟩ :=
    asked_for_gets_out Runtime.python (fun _ => false) sampleOffice "CTL-1" _ _ hcontrol
    sample_start sample_end summary m hbundle m.manifestSha256
      (computeManifest_hash hm).standalone []
    "priya@example-am.com" "D-1" "2026-04-01T09:00:00Z" List.not_mem_nil [.purge "2030-01-01"]
    (fun a ha c hc => by rw [List.mem_singleton.mp ha] at hc; cases hc) sampleIndexApproval rfl
      rfl (by decide)
    [.purge "2026-01-01"]
    (fun a ha cutoff hcut => by rw [List.mem_singleton.mp ha] at hcut; cases hcut; decide)
  exact ⟨m, t, hrun, hexport⟩

end ComplianceMcp
