import ComplianceMcp.EvidenceIndex
import ComplianceMcp.DraftInvariant
import ComplianceMcp.Steps

/-! # Exporting evidence

A pack is built from an approved index and from a manifest computed anew at the export.
Nothing compares the hash of that manifest with the one the index cites, so the evidence in
the pack is the evidence the index was checked against only if the systems of record say the
same about the control and the period as they did when the draft was filed. -/
namespace ComplianceMcp

open PyText Steps

/-! ## Packs -/

/-- `COVER.json`. -/
structure Cover where
  draftId : String
  title : String
  controlId : String
  periodStart : String
  periodEnd : String
  manifestSha256 : String
  requestedBy : String
  approvedBy : String
  approvedAt : String
  approvalNote : String
  exportedBy : String

/-- The files of a pack. -/
structure Pack where
  index : String
  manifest : EvidenceManifest
  auditExcerpt : List String
  policies : List (String × Bytes)
  cover : Cover

/-- The policy documents a manifest references, each compared with the hash it records. -/
def policyFiles (rt : Runtime) (documents : String → Option Bytes) :
    List PolicyVersionRef → Except PyError (List (String × Bytes))
  | [] => .ok []
  | ref :: refs =>
    match documents ref.source with
    | none => .error .fileNotFoundError
    | some content =>
      if (rt.sha256 content).text ≠ ref.sha256 then
        .error (.exportRefused ("policy document " ++ ref.source ++
          " no longer matches the hash recorded in the manifest"))
      else do
        let files ← policyFiles rt documents refs
        return (ref.source, content) :: files

/-- `build_pack`. -/
def buildPack (rt : Runtime) (documents : String → Option Bytes) (auditLines : List String)
    (exporter : String) (draft : Draft) (m : EvidenceManifest) : Except PyError Pack :=
  if draft.kind ≠ .evidencePackIndex then
    .error (.exportRefused ("draft " ++ draft.draftId ++ " is a " ++ draft.kind.value ++
      ", not an evidence index"))
  else match draft.decision with
    | none => .error (.exportRefused ("draft " ++ draft.draftId ++ " is " ++ draft.status.value ++
        "; only approved indexes can be exported"))
    | some decision =>
      if draft.status ≠ .approved then
        .error (.exportRefused ("draft " ++ draft.draftId ++ " is " ++ draft.status.value ++
          "; only approved indexes can be exported"))
      else do
        let policies ← policyFiles rt documents m.policyVersions
        return {
          index := draft.body
          manifest := m
          auditExcerpt := auditLines
          policies := policies
          cover := {
            draftId := draft.draftId
            title := draft.title
            controlId := m.control.controlId
            periodStart := m.periodStart
            periodEnd := m.periodEnd
            manifestSha256 := m.manifestSha256
            requestedBy := draft.requester
            approvedBy := decision.by_
            approvedAt := decision.at_
            approvalNote := decision.note
            exportedBy := exporter } }

/-- What `_export` does before it writes the pack. -/
def exportPack (rt : Runtime) (data : Systems) (documents : String → Option Bytes)
    (auditLines : List String) (exporter : String) (draftId : String) (draft : Option Draft) :
    Except PyError Pack :=
  match draft with
  | none => .error (.exportRefused ("no draft " ++ draftId))
  | some draft =>
    match periodFromTitle draft.title with
    | none => .error (.exportRefused "draft title does not identify a control and period")
    | some (c, s, e) => do
      match ← computeManifest rt data c s e with
      | none => .error (.exportRefused ("unknown control " ++ c))
      | some m => buildPack rt documents auditLines exporter draft m

/-- The manifest of the pack is one the index cites. -/
structure CitesManifest (alnum : Char → Bool) (pack : Pack) : Prop where
  manifest : Standalone alnum pack.manifest.manifestSha256.toList pack.index.toList
  cover : pack.cover.manifestSha256 = pack.manifest.manifestSha256

/-! ## Runs -/

/-- The data directory, what the running server has read of it, the drafts, and the packs
that have left.  `filedWith` is history: what the server had read when a draft was filed. -/
structure Office where
  disk : Systems
  documents : String → Option Bytes
  server : Systems
  rows : List Row
  filedWith : String → Option Systems
  packs : List Pack

def Office.start (data : Systems) (documents : String → Option Bytes) : Office where
  disk := data
  documents := documents
  server := data
  rows := []
  filedWith := fun _ => none
  packs := []

inductive OfficeAction where
  | change (data : Systems) (documents : String → Option Bytes)
  | restart
  | create (a : DraftArgs) (user draftId created : String)
  | decide (c : DecideArgs)
  | export_ (draftId exporter : String) (auditLines : List String)

/-- The step function; what is refused changes nothing. -/
def officeStep (rt : Runtime) (alnum : Char → Bool) (s : Office) : OfficeAction → Option Office
  | .change data documents => some { s with disk := data, documents }
  | .restart => some { s with server := s.disk }
  | .create a user draftId created =>
    some (match draftCreate rt alnum s.server a user draftId created with
      | .error _ => s
      | .ok d =>
        if draftId ∈ s.rows.map Row.draftId then s
        else { s with
          rows := s.rows ++ [rowOf d]
          filedWith := Function.update s.filedWith draftId (some s.server) })
  | .decide c => some (if c.decision = .pending then s else { s with rows := decideRows c s.rows })
  | .export_ draftId exporter auditLines =>
    some (match (getDraft rt s.rows draftId).bind
        (exportPack rt s.disk s.documents auditLines exporter draftId) with
      | .error _ => s
      | .ok pack => { s with packs := s.packs ++ [pack] })

/-- The policy versions that the manifest of a control lists. -/
def Systems.versionsFor (data : Systems) (ctl : Control) (e : String) : List PolicyVersionRef :=
  (ctl.policies.flatMap (fun pid =>
    (data.policies.versions pid).filter (fun v => v.isApproved && v.effectiveDate ≤
      e))).map Policy.ref

/-- The systems of record say the same about a control and a period. -/
structure SameEvidence (data data' : Systems) (c s e : String) : Prop where
  control : data.control c = data'.control c
  policies : ∀ ctl, data.control c = some ctl → data.versionsFor ctl e = data'.versionsFor ctl e
  results : data.results c s e = data'.results c s e
  tickets : data.ticketsOf c s e = data'.ticketsOf c s e

/-- A draft is exported while the systems of record say the same about its control and period
as they did to the server when it was filed. -/
def EvidenceUnchanged (s : Office) : OfficeAction → Prop
  | .export_ draftId _ _ =>
    ∀ r ∈ s.rows, r.draftId = draftId → ∀ data, s.filedWith draftId = some data →
      ∀ c st e, periodFromTitle r.title = some (c, st, e) → SameEvidence data s.disk c st e
  | _ => True

/-! ## What is read back, and what is packed -/

section Facts

variable {rt : Runtime} {alnum : Char → Bool}

theorem computeManifest_congr {data data' : Systems} {c s e : String}
    (h : SameEvidence data data' c s e) :
    computeManifest rt data c s e = computeManifest rt data' c s e := by
  unfold computeManifest
  rw [← h.control, ← h.results, ← h.tickets]
  cases hc : data.control c with
  | none => rfl
  | some ctl =>
    have hpol := h.policies ctl hc
    unfold Systems.versionsFor at hpol
    simp only [hpol]

theorem DraftKind.value_of_ofValue {v : String} {k : DraftKind} (h : DraftKind.ofValue v = .ok k) :
    v = k.value := by
  unfold DraftKind.ofValue at h
  split at h
  · next hv =>
    cases h
    exact hv
  split at h
  · next hv =>
    cases h
    exact hv
  split at h
  · next hv =>
    cases h
    exact hv
  split at h
  · next hv =>
    cases h
    exact hv
  · cases h

/-- What a row is read back as keeps kind, title, body and requester. -/
theorem toDraft_fields {r : Row} {d : Draft} (h : toDraft rt r = .ok d) :
    r.kind = d.kind.value ∧ r.title = d.title ∧ r.body = d.body ∧ r.requester = d.requester := by
  unfold toDraft at h
  simp only [bind, Except.bind, pure, Except.pure] at h
  split at h
  · cases h
  split at h
  · cases h
  next kind hkind =>
  cases hl : rt.loads r.relatedIds.toList with
  | none =>
    rw [hl] at h
    cases h
  | some j =>
    rw [hl] at h
    simp only at h
    split at h
    · cases h
    split at h
    · cases h
    split at h
    · cases h
    cases h
    exact ⟨DraftKind.value_of_ofValue hkind, rfl, rfl, rfl⟩

theorem getDraft_row {rows : List Row} {draftId : String} {d : Draft}
    (h : getDraft rt rows draftId = .ok (some d)) :
    ∃ r ∈ rows, r.draftId = draftId ∧ toDraft rt r = .ok d := by
  unfold getDraft at h
  split at h
  · next r hf =>
    refine ⟨r, List.mem_of_find?_eq_some hf, by simpa using List.find?_some hf, ?_⟩
    cases ht : toDraft rt r with
    | error e =>
      rw [ht] at h
      cases h
    | ok d' =>
      rw [ht] at h
      cases h
      rfl
  · cases h

/-- **What a pack holds.** -/
theorem buildPack_ok {documents : String → Option Bytes} {auditLines : List String}
    {exporter : String} {draft : Draft} {m : EvidenceManifest} {pack : Pack}
    (h : buildPack rt documents auditLines exporter draft m = .ok pack) :
    draft.kind = .evidencePackIndex ∧ draft.status = .approved ∧ pack.index = draft.body ∧
      pack.manifest = m ∧ pack.cover.manifestSha256 = m.manifestSha256 := by
  unfold buildPack at h
  split at h
  · cases h
  next hk =>
  split at h
  · cases h
  split at h
  · cases h
  next hst =>
  simp only [bind, Except.bind, pure, Except.pure] at h
  split at h
  · cases h
  cases h
  exact ⟨not_not.mp hk, not_not.mp hst, rfl, rfl, rfl⟩

theorem exportPack_ok {data : Systems} {documents : String → Option Bytes}
    {auditLines : List String} {exporter draftId : String} {draft : Option Draft} {pack : Pack}
    (h : exportPack rt data documents auditLines exporter draftId draft = .ok pack) :
    ∃ d c s e m, draft = some d ∧ periodFromTitle d.title = some (c, s, e) ∧
      computeManifest rt data c s e = .ok (some m) ∧
      buildPack rt documents auditLines exporter d m = .ok pack := by
  unfold exportPack at h
  split at h
  · cases h
  next d =>
  split at h
  · cases h
  next c s e hp =>
  simp only [bind, Except.bind] at h
  split at h
  · cases h
  next o hm =>
  split at h
  · cases h
  next m => exact ⟨d, c, s, e, m, rfl, hp, hm, h⟩

end Facts

/-! ## The invariant -/

section Runs

variable {rt : Runtime} {alnum : Char → Bool}

/-- The index was checked against a manifest of the data that was read then. -/
def CheckedWith (rt : Runtime) (alnum : Char → Bool) (data : Systems) (r : Row) : Prop :=
  ∃ c s e m, periodFromTitle r.title = some (c, s, e) ∧
  computeManifest rt data c s e = .ok (some m) ∧
    Standalone alnum m.manifestSha256.toList r.body.toList

/-- Every index was checked when it was filed, and every pack cites its manifest. -/
structure Checked (rt : Runtime) (alnum : Char → Bool) (s : Office) : Prop where
  rows : ∀ r ∈ s.rows, r.kind = DraftKind.evidencePackIndex.value →
    ∃ data, s.filedWith r.draftId = some data ∧ CheckedWith rt alnum data r
  packs : ∀ pack ∈ s.packs, CitesManifest alnum pack

theorem Checked.start (data : Systems) (documents : String → Option Bytes) :
    Checked rt alnum (Office.start data documents) where
  rows := fun _ h => (nomatch h)
  packs := fun _ h => (nomatch h)

/-- What is filed as an index has been checked against what the server has read. -/
theorem checkedWith_filed {data : Systems} {a : DraftArgs}
    {user draftId created : String} {d : Draft}
    (h : draftCreate rt alnum data a user draftId created = .ok d)
    (hk : a.kind = .evidencePackIndex) :
    CheckedWith rt alnum data (rowOf d) := by
  have hd := draftOf_draftCreate h
  have hc : checkArgs rt alnum data a = .ok () := draftCreate_ok_iff.mp ⟨d, h⟩
  unfold checkArgs at hc
  split at hc
  · cases hc
  rw [hk] at hc
  obtain ⟨c, s, e, m, hp, hm, hst⟩ := check_ok hc
  rw [← periodFromTitle_stripped, ← hd.title] at hp
  rw [← hd.body] at hst
  exact ⟨c, s, e, m, hp, hm, hst⟩

theorem DraftKind.value_injective : Function.Injective DraftKind.value := by
  intro k k' h
  cases k <;> cases k' <;> first | rfl | exact absurd h (by decide)

namespace Checked

variable {s : Office}

theorem create (hs : Checked rt alnum s) {a : DraftArgs} {user draftId created : String} {d : Draft}
    (h : draftCreate rt alnum s.server a user draftId created = .ok d)
    (hnew : draftId ∉ s.rows.map Row.draftId) :
    Checked rt alnum { s with
      rows := s.rows ++ [rowOf d]
      filedWith := Function.update s.filedWith draftId (some s.server) } where
  rows := fun r hr hk => by
    have hd := draftOf_draftCreate h
    have hid : (rowOf d).draftId = draftId := hd.id
    have hkind : (rowOf d).kind = a.kind.value := congrArg DraftKind.value hd.kind
    rcases List.mem_append.mp hr with hr | hr
    · have hne : r.draftId ≠ draftId := fun heq => hnew (heq ▸ List.mem_map_of_mem hr)
      obtain ⟨data, hf, hc⟩ := hs.rows r hr hk
      exact ⟨data, (Function.update_of_ne hne _ _).trans hf, hc⟩
    · rw [List.mem_singleton.mp hr] at hk ⊢
      have ha : a.kind = .evidencePackIndex := DraftKind.value_injective (hkind.symm.trans hk)
      rw [hid]
      exact ⟨s.server, Function.update_self _ _ _, checkedWith_filed h ha⟩
  packs := hs.packs

theorem decide (hs : Checked rt alnum s) (c : DecideArgs) :
    Checked rt alnum { s with rows := decideRows c s.rows } where
  rows := fun r' hr' hk => by
    obtain ⟨r, hr, hid, ⟨-, rfl⟩ | ⟨-, rfl⟩⟩ := mem_decideRows hr'
    · exact hs.rows r hr hk
    · exact hs.rows r' hr hk
  packs := hs.packs

/-- An exported index is a row that was checked, and the manifest of the pack is the one of
the data it is exported from. -/
theorem export_ (hs : Checked rt alnum s) {draftId exporter : String} {auditLines : List String}
    {pack : Pack}
    (hu : EvidenceUnchanged s (.export_ draftId exporter auditLines))
    (h : (getDraft rt s.rows draftId).bind
      (exportPack rt s.disk s.documents auditLines exporter draftId) = .ok pack) :
    CitesManifest alnum pack := by
  cases hg : getDraft rt s.rows draftId with
  | error e =>
    rw [hg] at h
    cases h
  | ok o =>
    rw [hg] at h
    obtain ⟨d, c, st, e, m, rfl, hp, hm, hb⟩ := exportPack_ok h
    obtain ⟨r, hr, hid, hd⟩ := getDraft_row hg
    obtain ⟨hkind, htitle, hbody, -⟩ := toDraft_fields hd
    obtain ⟨hk, -, hindex, hman, hcover⟩ := buildPack_ok hb
    obtain ⟨data, hf, c', st', e', m', hp', hm', hst⟩ := hs.rows r hr (by rw [hkind, hk])
    rw [htitle, hp] at hp'
    cases hp'
    have hsame : SameEvidence data s.disk c st e :=
      hu r hr hid data (hid ▸ hf) c st e (by rw [htitle, hp])
    rw [computeManifest_congr hsame, hm] at hm'
    cases hm'
    constructor
    case manifest =>
      rw [hman, hindex, ← hbody]
      exact hst
    case cover => rw [hcover, hman]

/-- **One step.** -/
theorem step (hs : Checked rt alnum s) {a : OfficeAction} {t : Office} (hu : EvidenceUnchanged s a)
    (h : officeStep rt alnum s a = some t) : Checked rt alnum t := by
  cases a with
  | change data documents =>
    cases h
    exact ⟨hs.rows, hs.packs⟩
  | restart =>
    cases h
    exact ⟨hs.rows, hs.packs⟩
  | create a user draftId created =>
    obtain rfl := Option.some.inj h
    split
    · exact hs
    next d hd =>
    split
    · exact hs
    next hnew => exact hs.create hd hnew
  | decide c =>
    obtain rfl := Option.some.inj h
    split
    · exact hs
    · exact hs.decide c
  | export_ draftId exporter auditLines =>
    obtain rfl := Option.some.inj h
    split
    · exact hs
    next pack hpack =>
    refine ⟨hs.rows, fun pack' hp => ?_⟩
    rcases List.mem_append.mp hp with hp | hp
    · exact hs.packs pack' hp
    · rw [List.mem_singleton.mp hp]
      exact hs.export_ hu hpack

end Checked

/-- **The evidence that leaves is the evidence the index was checked against**, in every run
of filings, decisions, changes, restarts and exports in which the systems of record say at an
export what they said when the draft was filed. -/
theorem packs_cite_manifest (rt : Runtime) (alnum : Char → Bool) (data : Systems)
    (documents : String → Option Bytes) (as : List OfficeAction) (s : Office)
    (hm : Meets (officeStep rt alnum) EvidenceUnchanged (Office.start data documents) as)
    (hr : run (officeStep rt alnum) (Office.start data documents) as = some s) :
    ∀ pack ∈ s.packs, CitesManifest alnum pack := by
  have hs : Checked rt alnum s := hm.invariant
    (fun s a t hs hu h => Checked.step hs hu h) (Checked.start data documents) hr
  exact hs.packs

end Runs

/-! ## Where nothing changes, and where something does -/

/-- The hash of the manifest of `sampleSystems` for the first quarter. -/
def sampleManifestHash : String :=
  "96b5305b80a2c9fbffdc495d6389cd4196552326162bed8cf142dcefb82e0c48"

def sampleIndexDraft : DraftArgs :=
  indexArgs (indexTitle "CTL-1" "2026-01-01" "2026-03-31") sampleManifestHash []

def sampleIndexApproval : DecideArgs :=
  ⟨"D-1", .approved, "rae@firm.example", "", "2026-04-02T09:00:00Z"⟩

/-- The index is filed and approved. -/
def sampleFilingAndApproval : List OfficeAction :=
  [.create sampleIndexDraft "priya@example-am.com" "D-1" "2026-04-01T09:00:00Z",
    .decide sampleIndexApproval]

/-- The same library after the control has got an owner. -/
def sampleOwned : Systems :=
  { sampleSystems with controls := [⟨"CTL-1", "Gift pre-clearance", "", "ana", .monthly,
    [], [], []⟩] }

def sampleOffice : Office := Office.start sampleSystems (fun _ => none)

/-- **A pack can leave with another manifest than the one that was approved.** -/
theorem pack_cites_other_manifest : ∃ s,
    run (officeStep Runtime.python (fun _ => false)) sampleOffice (sampleFilingAndApproval ++
      [.change sampleOwned (fun _ => none), .export_ "D-1" "operator" []]) = some s ∧
    ∃ pack ∈ s.packs, ¬ CitesManifest (fun _ => false) pack := by
  have hpack : ((run (officeStep Runtime.python (fun _ => false)) sampleOffice
    (sampleFilingAndApproval ++ [.change sampleOwned (fun _ => none),
      .export_ "D-1" "operator" []])).bind (fun s => s.packs.head?)).any
        (fun p => p.index = sampleManifestHash && p.manifest.manifestSha256 ≠ sampleManifestHash) =
          true := by
    decide +kernel
  obtain ⟨pack, hp, hfacts⟩ := (Option.any_eq_true _ _).mp hpack
  obtain ⟨s, hs, hhead⟩ := Option.bind_eq_some_iff.mp hp
  simp only [Bool.and_eq_true, decide_eq_true_eq] at hfacts
  refine ⟨s, hs, pack, List.mem_of_head? hhead, fun hc => hfacts.2 ?_⟩
  have hst := hc.manifest
  rw [hfacts.1] at hst
  have hh : IsHash sampleManifestHash.toList :=
    ⟨by decide +kernel, List.all_eq_true.mp (by decide +kernel)⟩
  exact String.toList_inj.mp (standalone_self hh hst)

section Quiet

variable {rt : Runtime} {alnum : Char → Bool} {data : Systems} {documents : String → Option Bytes}

/-- The server has read what is in the directory, and so it had at every filing. -/
structure Quiet (s : Office) : Prop where
  server : s.server = s.disk
  filedWith : ∀ draftId data, s.filedWith draftId = some data → data = s.disk

theorem SameEvidence.refl (data : Systems) (c s e : String) : SameEvidence data data c s e :=
  ⟨rfl, fun _ _ => rfl, rfl, rfl⟩

theorem Quiet.unchanged {s : Office} (hs : Quiet s) (a : OfficeAction) : EvidenceUnchanged s a := by
  cases a with
  | export_ draftId exporter auditLines =>
    intro r hr hid data hf c st e hp
    rw [hs.filedWith draftId data hf]
    exact SameEvidence.refl s.disk c st e
  | _ => trivial

theorem Quiet.step {s t : Office} (hs : Quiet s) {a : OfficeAction}
    (ha : ∀ data documents, a ≠ .change data documents) (h : officeStep rt alnum s a = some t) :
    Quiet t := by
  cases a with
  | change data documents => exact absurd rfl (ha data documents)
  | restart =>
    cases h
    exact ⟨rfl, hs.filedWith⟩
  | create a user draftId created =>
    obtain rfl := Option.some.inj h
    split
    · exact hs
    split
    · exact hs
    refine ⟨hs.server, fun id data hf => ?_⟩
    replace hf : Function.update s.filedWith draftId (some s.server) id = some data := hf
    by_cases hid : id = draftId
    · subst hid
      rw [Function.update_self] at hf
      cases hf
      exact hs.server
    · rw [Function.update_of_ne hid] at hf
      exact hs.filedWith id data hf
  | decide c =>
    obtain rfl := Option.some.inj h
    split
    · exact hs
    · exact ⟨hs.server, hs.filedWith⟩
  | export_ draftId exporter auditLines =>
    obtain rfl := Option.some.inj h
    split
    · exact hs
    · exact ⟨hs.server, hs.filedWith⟩

/-- **Where nobody edits the data the condition holds.** -/
theorem Quiet.meets {as : List OfficeAction}
    (ha : ∀ a ∈ as, ∀ data documents, a ≠ .change data documents) {s : Office} (hs : Quiet s) :
    Meets (officeStep rt alnum) EvidenceUnchanged s as := by
  induction as generalizing s with
  | nil => trivial
  | cons a as ih =>
    exact ⟨hs.unchanged a, fun t ht => ih (fun b hb => ha b (List.mem_cons_of_mem _ hb))
      (hs.step (ha a List.mem_cons_self) ht)⟩

end Quiet

theorem packs_cite_manifest_sample : ∃ s,
    run (officeStep Runtime.python (fun _ => false)) sampleOffice
      (sampleFilingAndApproval ++ [.export_ "D-1" "operator" []]) = some s ∧
    s.packs.length = 1 ∧ ∀ pack ∈ s.packs, CitesManifest (fun _ => false) pack := by
  have hrun : (run (officeStep Runtime.python (fun _ => false)) sampleOffice
      (sampleFilingAndApproval ++ [.export_ "D-1" "operator" []])).any (fun s =>
        s.packs.length = 1) = true := by
    decide +kernel
  obtain ⟨s, hs, hlen⟩ := (Option.any_eq_true _ _).mp hrun
  have hq : Quiet sampleOffice := ⟨rfl, fun _ _ h => (nomatch h)⟩
  refine ⟨s, hs, of_decide_eq_true hlen, packs_cite_manifest Runtime.python
    (fun _ => false) sampleSystems (fun _ => none) _ s (hq.meets ?_) hs⟩
  intro a ha data documents heq
  subst heq
  simp [sampleFilingAndApproval] at ha

end ComplianceMcp
