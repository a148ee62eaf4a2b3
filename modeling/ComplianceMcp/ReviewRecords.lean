import ComplianceMcp.ReviewFaults

/-! # Commands on record

Each command is taken apart into the steps that raise: `OnlyRaises` turns what a block raises into
what its steps do.  A step that ends in anything but its result or a refusal leaves no record, and
an effect whose record does not land stays. -/
namespace ComplianceMcp

open PyText PyJson Files Raises

/-! ## `approve` and `reject` -/

section Review

variable {rt : Runtime} {clock : Nat → String} {log : AuditLog} {decode : TokenDecoder}
  {parse : Bytes → Except PyError (List User)} {ttl : Int} {settings : ReviewSettings}
  {args : ReviewArgs} {osUser : String} {draw : CommandDraw} {dir : Directory} {s : CommandState}

theorem requireApprover_denies {us : List User} {upn : String} :
    OnlyRaises Denies (requireApprover rt us upn) := by
  unfold requireApprover
  rw [onlyRaises_bind]
  constructor
  · intro e he
    obtain ⟨m, rfl⟩ := requireGroup_error he
    rfl
  · intro user _
    split
    · exact onlyRaises_ok.mpr trivial
    · exact onlyRaises_error.mpr rfl

theorem fourEyes_denies {draftId : String} {approver : User} {found : Option Draft} :
    OnlyRaises Denies (fourEyes rt draftId approver found) := by
  unfold fourEyes
  split
  · exact onlyRaises_error.mpr rfl
  · split
    · exact onlyRaises_error.mpr rfl
    · exact onlyRaises_ok.mpr trivial

/-- **The checks end or refuse exactly if every step that is reached does**: a lookup among users
and the comparison of requesters raise nothing else. -/
theorem examine_denies_iff {users : Except PyError (List User)}
    {found : Except PyError (Option Draft)} :
    OnlyRaises Denies (examine rt decode settings args users found) ↔
      OnlyRaises Denies (approverIdentity decode settings args.presented) ∧
        (∀ upn, approverIdentity decode settings args.presented = .ok upn →
          OnlyRaises Denies users) ∧
          ∀ upn us approver, approverIdentity decode settings args.presented = .ok upn →
          users = .ok us →
            requireApprover rt us upn = .ok approver → OnlyRaises Denies found := by
  unfold examine
  simp only [onlyRaises_bind, onlyRaises_pure, implies_true, and_true, requireApprover_denies,
    fourEyes_denies, true_and]
  constructor
  · rintro ⟨hid, h⟩
    exact ⟨hid, fun upn hupn => (h upn hupn).1,
      fun upn us approver hupn hus happ => (h upn hupn).2 us hus approver happ⟩
  · rintro ⟨hid, husers, hfound⟩
    exact ⟨hid, fun upn hupn =>
      ⟨husers upn hupn, fun us hus approver happ => hfound upn us approver hupn hus happ⟩⟩

/-- A decision that commits changes a status. -/
theorem decideRows_affects {c : DecideArgs} {fault : Option DecideFault}
    (hc : c.decision ≠ .pending) (h : commits c fault s.rows = true) {t : CommandState}
    (ht : t.rows = decideRows c s.rows) : Affects s t := by
  refine .inl (fun he => ?_)
  have hcount := (commits_iff.mp h).2
  obtain ⟨row, hrow, hmatch⟩ :=
    List.countP_pos_iff.mp (by omega : 0 < s.rows.countP (matchesPending c))
  rw [ht, decideRows, List.map_map, List.map_inj_left] at he
  have hsame := he row hrow
  rw [Function.comp_apply, if_pos hmatch, Prod.mk.injEq] at hsame
  exact decideRow_not_pending hc row (hsame.2.trans (matchesPending_iff.mp hmatch).2)

theorem not_affects {t : CommandState} (hrows : t.rows = s.rows) (hpacks : t.packs = s.packs) :
    ¬ Affects s t := by
  rintro (h | h)
  · exact h (by rw [hrows])
  · exact h hpacks

theorem denial_iff_denies {e : PyError} : Denies e ↔ ∃ m, denial e = some m :=
  Option.isSome_iff_exists

theorem deniedEntry_concerns (m v : String) :
    Concerns (.review settings args osUser) (deniedEntry args osUser m v) ∧
    (deniedEntry args osUser m v).outcome = "denied" := ⟨⟨rfl, rfl⟩, rfl⟩

/-- A command that does not pass its checks. -/
theorem review_refused_iff {e : PyError} {w : World} (he : examine rt decode settings args
      (readUsers rt parse ttl draw.views.later dir).1
      (foundDraft rt s.rows args.draftId draw.getFails) = .error e) :
    OnTheRecord (.review settings args osUser) s
      (conclude rt clock log denial (deniedEntry args osUser)
        (readVersion rt parse ttl draw.views.later
          (directoryAfter rt decode parse ttl settings args draw.views dir)).1
      draw.record (reviewAttempt rt decode parse ttl settings args osUser draw dir
        { s with world := w })) ↔
      ReviewKeeps rt log decode parse ttl settings args osUser draw dir { s with world := w } := by
  have hattempt : reviewAttempt rt decode parse ttl settings args osUser draw dir
    { s with world := w } =
      ⟨.error e, { s with world := w }⟩ := by
    rw [reviewAttempt, he]
  have hnobody : ∀ approver, ¬ PassesChecks rt decode parse ttl settings args draw dir s.rows
      approver := by
    intro approver hest
    rw [examine_ok_iff.mpr hest] at he
    cases he
  rw [hattempt]
  cases hm : denial e with
  | none =>
    refine iff_of_false (not_recorded_of_raised hm rfl) (fun hk => ?_)
    have hdenies := examine_denies_iff.mpr ⟨hk.identity, hk.users, hk.draft⟩ e he
    rw [Denies, hm] at hdenies
    cases hdenies
  | some m =>
    have hdenies : OnlyRaises Denies
      (examine rt decode settings args (readUsers rt parse ttl draw.views.later dir).1
        (foundDraft rt s.rows args.draftId draw.getFails)) := by
      rw [he, onlyRaises_error]
      exact denial_iff_denies.mpr ⟨m, hm⟩
    obtain ⟨hidentity, husers, hfound⟩ := examine_denies_iff.mp hdenies
    refine (@recorded_refused rt clock log _ s denial (deniedEntry args osUser) _ draw.record
      { s with world := w } e m
      hm rfl (not_affects rfl rfl) (deniedEntry_concerns m)).trans ?_
    constructor
    · exact fun hv => ⟨hidentity, husers, hfound, fun a ha => absurd ha (hnobody a), hv,
        fun a _ _ ha => absurd ha (hnobody a)⟩
    · exact fun hk => hk.version

/-- A command that passes its checks and decides. -/
theorem review_allowed_iff {approver : User} {w : World} (he : examine rt decode settings args
      (readUsers rt parse ttl draw.views.later dir).1
      (foundDraft rt s.rows args.draftId draw.getFails) = .ok approver) :
    OnTheRecord (.review settings args osUser) s
      (conclude rt clock log denial (deniedEntry args osUser)
        (readVersion rt parse ttl draw.views.later
          (directoryAfter rt decode parse ttl settings args draw.views dir)).1
      draw.record (reviewAttempt rt decode parse ttl settings args osUser draw dir
        { s with world := w })) ↔
      ReviewKeeps rt log decode parse ttl settings args osUser draw dir { s with world := w } := by
  have hest : PassesChecks rt decode parse ttl settings args draw dir s.rows approver :=
    examine_ok_iff.mp he
  -- the checks pass for one approver only
  have honly : ∀ a, PassesChecks rt decode parse ttl settings args draw dir s.rows a →
      a = approver := by
    intro a ha
    rw [examine_ok_iff.mpr ha] at he
    exact Except.ok.inj he
  have hdenies : OnlyRaises Denies
    (examine rt decode settings args (readUsers rt parse ttl draw.views.later dir).1
      (foundDraft rt s.rows args.draftId draw.getFails)) := by
    rw [he]
    exact onlyRaises_ok.mpr trivial
  obtain ⟨hidentity, husers, hfound⟩ := examine_denies_iff.mp hdenies
  have hattempt : reviewAttempt rt decode parse ttl settings args osUser draw dir
    { s with world := w } =
      ⟨(decideDraft rt (args.decideArgs approver draw.at_) draw.decideFault s.rows).1.map
        (decisionEntry args osUser approver), { s with
          world := w
          rows := (decideDraft rt (args.decideArgs approver draw.at_) draw.decideFault
            s.rows).2 }⟩ := by
    rw [reviewAttempt, he]
  rw [hattempt]
  by_cases hbefore : draw.decideFault = some .beforeCommit
  -- the statement fails before its COMMIT: nothing is decided and the error is not a denial
  · rw [decideDraft_cut hbefore]
    exact iff_of_false (not_recorded_of_raised rfl rfl)
      (fun hk => (hk.decision approver hest).1 hbefore)
  by_cases hcount : s.rows.countP (matchesPending (args.decideArgs approver draw.at_)) = 1
  swap
  -- no pending row: the decision is refused, and the refusal is recorded
  · rw [decideDraft_conflict hbefore hcount]
    refine (@recorded_refused rt clock log _ s denial (deniedEntry args osUser) _ draw.record
      { s with world := w } _ _
      rfl rfl (not_affects rfl rfl) (deniedEntry_concerns _)).trans ?_
    constructor
    · refine fun hv => ⟨hidentity, husers, hfound, fun a ha => ?_, hv, fun a _ _ ha hcommit => ?_⟩
      · obtain rfl := honly a ha
        exact ⟨hbefore, fun h => absurd h hcount⟩
      · obtain rfl := honly a ha
        exact absurd (commits_iff.mp hcommit).2 hcount
    · exact fun hk => hk.version
  by_cases hafter : draw.decideFault = some .afterCommit
  -- decided, but the error after the COMMIT skips the record
  · rw [decideDraft_late hcount hafter]
    exact iff_of_false (not_recorded_of_raised rfl rfl)
      (fun hk => (hk.decision approver hest).2 hcount hafter)
  · have hcommit : commits (args.decideArgs approver draw.at_) draw.decideFault s.rows = true :=
      commits_iff.mpr ⟨hbefore, hcount⟩
    obtain ⟨draft, hdraft, -⟩ := hest.other
    obtain ⟨d, hd⟩ := getDraft_decided (foundDraft_ok hdraft) (args.decideArgs approver draw.at_)
    have hallowed : ∀ v, Concerns (.review settings args osUser)
      (decisionEntry args osUser approver d v) ∧
        (decisionEntry args osUser approver d v).outcome = "ok" := fun v => ⟨⟨rfl, rfl⟩, rfl⟩
    have haffects : Affects s { s with
        world := w
        rows := decideRows (args.decideArgs approver draw.at_) s.rows } :=
      decideRows_affects args.cmd.decision_ne_pending hcommit rfl
    rw [decideDraft_done hbefore hcount hafter hd]
    refine (@recorded_done rt clock log _ s denial (deniedEntry args osUser) _ draw.record _ _
      (by rfl) haffects hallowed).trans ?_
    constructor
    · rintro ⟨hv, hlands⟩
      refine ⟨hidentity, husers, hfound, fun _ _ => ⟨hbefore, fun _ => hafter⟩, hv,
        fun a v d' ha _ hd' hv' => ?_⟩
      obtain rfl := honly a ha
      have hd' : getDraft rt (decideRows (args.decideArgs a draw.at_) s.rows) args.draftId =
          .ok (some d') := hd'
      cases hd.symm.trans hd'
      exact hlands v hv'
    · exact fun hk => ⟨hk.version, fun v hv => hk.record approver v d hest hcommit hd hv⟩

/-- **An approval or a rejection is on record exactly if it keeps what it needs.** -/
theorem review_recorded_iff (w : World) :
    OnTheRecord (.review settings args osUser) s
      (conclude rt clock log denial (deniedEntry args osUser)
        (readVersion rt parse ttl draw.views.later
          (directoryAfter rt decode parse ttl settings args draw.views dir)).1
      draw.record (reviewAttempt rt decode parse ttl settings args osUser draw dir
        { s with world := w })) ↔
      ReviewKeeps rt log decode parse ttl settings args osUser draw dir { s with world := w } := by
  cases he : examine rt decode settings args (readUsers rt parse ttl draw.views.later dir).1
      (foundDraft rt s.rows args.draftId draw.getFails) with
  | error e => exact review_refused_iff he
  | ok approver => exact review_allowed_iff he

end Review

/-! ## `export` -/

section Export

variable {rt : Runtime} {clock : Nat → String} {log : AuditLog}
  {parse : Bytes → Except PyError (List User)} {ttl : Int} {packSize : Pack → Nat}
  {args : ExportArgs} {draw : CommandDraw} {dir : Directory} {s : CommandState}
  {w : World}

/-- Reading the documents refuses or ends exactly if they can be read as far as they match. -/
theorem policyFiles_refuses_iff {documents : String → Option Bytes} {refs : List PolicyVersionRef} :
    OnlyRaises Refuses (policyFiles rt documents refs) ↔ DocumentsReadable rt documents refs := by
  induction refs with
  | nil => exact iff_of_true (onlyRaises_ok.mpr trivial) trivial
  | cons ref refs ih =>
    unfold policyFiles DocumentsReadable
    cases documents ref.source with
    | none =>
      refine iff_of_false (fun h => ?_) ?_
      · have hrefuses : Refuses .fileNotFoundError := onlyRaises_error.mp h
        cases hrefuses
      · rintro ⟨content, h, -⟩
        cases h
    | some content =>
      dsimp only
      by_cases hmatch : (rt.sha256 content).text = ref.sha256
      · rw [if_neg (not_not.mpr hmatch), onlyRaises_bind, ih]
        simp only [onlyRaises_pure, implies_true, and_true, Option.some.injEq, exists_eq_left']
        exact ⟨fun h _ => h, fun h => h hmatch⟩
      · rw [if_pos hmatch]
        exact iff_of_true (onlyRaises_error.mpr rfl) ⟨content, rfl, fun h => absurd h hmatch⟩

theorem buildPack_refuses_iff {documents : String → Option Bytes} {lines : List String}
    {exporter : String} {draft : Draft} {m : EvidenceManifest} :
    OnlyRaises Refuses (buildPack rt documents lines exporter draft m) ↔
      (draft.kind = .evidencePackIndex → draft.status = .approved → draft.decision.isSome = true →
        DocumentsReadable rt documents m.policyVersions) := by
  unfold buildPack
  by_cases hkind : draft.kind = .evidencePackIndex
  swap
  · rw [if_pos hkind]
    exact iff_of_true (onlyRaises_error.mpr rfl) (fun h => absurd h hkind)
  rw [if_neg (not_not.mpr hkind)]
  cases hdecision : draft.decision with
  | none => exact iff_of_true (onlyRaises_error.mpr rfl) (fun _ _ h => by cases h)
  | some decision =>
    dsimp only
    by_cases hstatus : draft.status = .approved
    · rw [if_neg (not_not.mpr hstatus), onlyRaises_bind, policyFiles_refuses_iff]
      simp only [onlyRaises_pure, implies_true, and_true]
      exact ⟨fun h _ _ _ => h, fun h => h hkind hstatus rfl⟩
    · rw [if_pos hstatus]
      exact iff_of_true (onlyRaises_error.mpr rfl) (fun _ h => absurd h hstatus)

theorem packOf_refuses_iff {draft : Draft} {controlId : String} {o : Option EvidenceManifest} :
    OnlyRaises Refuses (packOf rt log args draw w draft controlId o) ↔
      ∀ m, o = some m → OnlyRaises Refuses (excerptOf log args.draftId draw w) ∧
        ∀ lines, excerptOf log args.draftId draw w = .ok lines → draft.kind = .evidencePackIndex →
          draft.status = .approved → draft.decision.isSome = true →
          DocumentsReadable rt draw.documents m.policyVersions := by
  cases o with
  | none => exact iff_of_true (onlyRaises_error.mpr rfl) (fun m h => by cases h)
  | some m =>
    unfold packOf
    dsimp only
    rw [onlyRaises_bind]
    simp only [buildPack_refuses_iff, Option.some.injEq, forall_eq']

/-- A pack is built or refused exactly if all that is read for it can be read. -/
theorem packFor_refuses_iff {found : Option Draft} :
    OnlyRaises Refuses (packFor rt log args draw w found) ↔
      ∀ draft, found = some draft → PackReadable rt log args draw w draft := by
  cases found with
  | none => exact iff_of_true (onlyRaises_error.mpr rfl) (fun draft h => by cases h)
  | some draft =>
    simp only [Option.some.injEq, forall_eq']
    unfold packFor PackReadable
    dsimp only
    cases hp : periodFromTitle draft.title with
    | none => exact iff_of_true (onlyRaises_error.mpr rfl) (fun c st e h => by cases h)
    | some period =>
      obtain ⟨c, st, e⟩ := period
      dsimp only
      rw [onlyRaises_bind]
      simp only [onlyRaises_bind, packOf_refuses_iff, Option.some.injEq, Prod.mk.injEq]
      constructor
      · rintro ⟨hservice, h⟩ c' st' e' ⟨rfl, rfl, rfl⟩
        exact ⟨hservice, fun data hdata =>
          ⟨(h data hdata).1, fun m hm => (h data hdata).2 _ hm m rfl⟩⟩
      · intro h
        obtain ⟨hservice, h⟩ := h c st e ⟨rfl, rfl, rfl⟩
        refine ⟨hservice, fun data hdata => ⟨(h data hdata).1, fun o ho m hm => ?_⟩⟩
        subst hm
        exact (h data hdata).2 m ho

/-- Where the service is built and the audit file is read, the pack is that of `exportPack`. -/
theorem packFor_eq_exportPack {data : Systems} {lines : List Text} (hdata : draw.service = .ok data)
    (hlines : excerptOf log args.draftId draw w = .ok lines) (found : Option Draft) :
    packFor rt log args draw w found =
      exportPack rt data draw.documents (lines.map String.ofList) args.exporter
        args.draftId found := by
  cases found with
  | none => rfl
  | some draft =>
    unfold packFor exportPack
    dsimp only
    cases periodFromTitle draft.title with
    | none => rfl
    | some period =>
      obtain ⟨c, st, e⟩ := period
      dsimp only
      rw [hdata]
      simp only [bind, Except.bind]
      cases computeManifest rt data c st e with
      | error x => rfl
      | ok o =>
        cases o with
        | none => rfl
        | some m =>
          unfold packOf
          rw [hlines]
          rfl

theorem exportDenial_iff_refuses {e : PyError} : Refuses e ↔ ∃ m, exportDenial e = some m :=
  Option.isSome_iff_exists

/-- The draft is read and the pack built or refused exactly if all that is read can be. -/
theorem export_refuses_iff :
    OnlyRaises Refuses ((foundDraft rt s.rows args.draftId draw.getFails).bind
      (packFor rt log args draw w)) ↔
    OnlyRaises Refuses (foundDraft rt s.rows args.draftId draw.getFails) ∧
      ∀ draft, foundDraft rt s.rows args.draftId draw.getFails = .ok (some draft) →
        PackReadable rt log args draw w draft := by
  refine onlyRaises_bind.trans (and_congr_right (fun _ => ?_))
  simp only [packFor_refuses_iff]
  constructor
  · exact fun h draft hdraft => h (some draft) hdraft draft rfl
  · rintro h found hfound draft rfl
    exact h draft hfound

/-- **An export is on record exactly if it keeps what it needs.** -/
theorem export_recorded_iff (w : World) :
    OnTheRecord (.export_ args) s (conclude rt clock log exportDenial (exportDeniedEntry args)
      (readVersion rt parse ttl draw.views.later dir).1 draw.record
      (exportAttempt rt log packSize args draw { s with world := w })) ↔
      ExportKeeps rt log parse ttl packSize args draw dir { s with world := w } := by
  have hdenied : ∀ m v, Concerns (.export_ args) (exportDeniedEntry args m v) ∧
      (exportDeniedEntry args m v).outcome = "denied" := fun m v => ⟨⟨rfl, rfl⟩, rfl⟩
  have hsame : ¬ Affects s { s with world := w } := not_affects rfl rfl
  cases hb : (foundDraft rt s.rows args.draftId draw.getFails).bind
    (packFor rt log args draw w) with
  | error e =>
    have hattempt : exportAttempt rt log packSize args draw { s with world := w } =
        ⟨.error e, { s with world := w }⟩ := by
      rw [exportAttempt, hb]
    have hnothing : ∀ found pack, foundDraft rt s.rows args.draftId draw.getFails = .ok found →
        packFor rt log args draw w found ≠ .ok pack := by
      intro found pack hfound hpack
      rw [hfound] at hb
      cases hpack.symm.trans hb
    rw [hattempt]
    cases hm : exportDenial e with
    | none =>
      refine iff_of_false (not_recorded_of_raised hm rfl) (fun hk => ?_)
      have hrefuses := export_refuses_iff.mpr ⟨hk.draft, hk.pack⟩ e hb
      rw [Refuses, hm] at hrefuses
      cases hrefuses
    | some m =>
      have hrefuses : OnlyRaises Refuses ((foundDraft rt s.rows args.draftId draw.getFails).bind
          (packFor rt log args draw w)) := by
        rw [hb, onlyRaises_error]
        exact exportDenial_iff_refuses.mpr ⟨m, hm⟩
      obtain ⟨hdraft, hpack⟩ := export_refuses_iff.mp hrefuses
      refine (@recorded_refused rt clock log _ s exportDenial (exportDeniedEntry args) _ draw.record
        { s with world := w } e m hm rfl hsame (hdenied m)).trans ?_
      constructor
      · exact fun hv => ⟨hdraft, hpack, fun f p hf hp => absurd hp (hnothing f p hf), hv,
          fun f p _ hf hp => absurd hp (hnothing f p hf)⟩
      · exact fun hk => hk.version
  | ok pack =>
    obtain ⟨found, hfound, hpack⟩ :
      ∃ found, foundDraft rt s.rows args.draftId draw.getFails = .ok found ∧
        packFor rt log args draw w found = .ok pack := by
      cases hf : foundDraft rt s.rows args.draftId draw.getFails with
      | error e =>
        rw [hf] at hb
        cases hb
      | ok found =>
        rw [hf] at hb
        exact ⟨found, rfl, hb⟩
    have hrefuses : OnlyRaises Refuses ((foundDraft rt s.rows args.draftId draw.getFails).bind
        (packFor rt log args draw w)) := by
      rw [hb]
      exact onlyRaises_ok.mpr trivial
    obtain ⟨hdraft, hread⟩ := export_refuses_iff.mp hrefuses
    cases hfault : draw.packFault with
    | some fault =>
      refine iff_of_false ?_ (fun hk => ?_)
      -- a pack that cannot be written raises, whether or not a part of it is left
      · cases fault with
        | unwritten =>
          have hattempt : exportAttempt rt log packSize args draw { s with world := w } =
              ⟨.error .other, { s with world := w }⟩ := by
            rw [exportAttempt, hb, hfault]
          rw [hattempt]
          exact not_recorded_of_raised rfl rfl
        | partly =>
          have hattempt : exportAttempt rt log packSize args draw { s with world := w } =
              ⟨.error .other, { s with world := w, packs := s.packs ++ [pack] }⟩ := by
            rw [exportAttempt, hb, hfault]
          rw [hattempt]
          exact not_recorded_of_raised rfl rfl
      · have hnone := hk.written found pack hfound hpack
        rw [hfault] at hnone
        cases hnone
    | none =>
      have hattempt : exportAttempt rt log packSize args draw { s with world := w } =
          ⟨.ok (exportEntry args (packSize pack) pack),
            { s with world := w, packs := s.packs ++ [pack] }⟩ := by
        rw [exportAttempt, hb, hfault]
      rw [hattempt]
      have hallowed : ∀ v, Concerns (.export_ args) (exportEntry args (packSize pack) pack v) ∧
          (exportEntry args (packSize pack) pack v).outcome = "ok" := fun v => ⟨⟨rfl, rfl⟩, rfl⟩
      have haffects : Affects s { s with world := w, packs := s.packs ++ [pack] } := .inr (by simp)
      refine (@recorded_done rt clock log _ s exportDenial (exportDeniedEntry args) _ draw.record _
        _ (by rfl) haffects hallowed).trans ?_
      constructor
      · rintro ⟨hv, hlands⟩
        refine ⟨hdraft, hread, fun _ _ _ _ => hfault, hv, fun f p v hf hp hv' => ?_⟩
        cases hfound.symm.trans hf
        cases hpack.symm.trans hp
        exact hlands v hv'
      · exact fun hk => ⟨hk.version, fun v hv => hk.record found pack v hfound hpack hv⟩

end Export

/-- **When nothing is done off the record.**  For every `approve`, `reject` and `export`, every
identity mode and configuration, every directory, table, chain and draft, and whichever step raises:
a status changes or a pack is written only with an `ok` record, and an append that does not raise
leaves exactly one record, exactly if the invocation's objects can be built and every step it gets
to has its result or refuses, up to the record of what it has done. -/
theorem command_recorded_iff (rt : Runtime) (clock : Nat → String) (log : AuditLog)
    (decode : TokenDecoder) (parse : Bytes → Except PyError (List User)) (ttl : Int)
    (packSize : Pack → Nat) (inv : Invocation) (draw : CommandDraw) (s : CommandState) :
    OnTheRecord inv s (runCommand rt clock log decode parse ttl packSize inv draw s) ↔
      Keeps rt log decode parse ttl packSize inv draw s := by
  cases hset : setUp rt parse ttl draw with
  | error e =>
    have hrun : runCommand rt clock log decode parse ttl packSize inv draw s =
        ⟨.raised e, s, false⟩ := by
      unfold runCommand
      rw [hset]
    rw [hrun]
    refine iff_of_false (not_recorded rfl) ?_
    rintro ⟨dir, hdir, -⟩
    rw [hset] at hdir
    cases hdir
  | ok dir =>
    unfold runCommand Keeps
    simp only [hset, Except.ok.injEq, exists_eq_left']
    cases inv with
    | review settings args osUser => exact review_recorded_iff (construct log s.world)
    | export_ args => exact export_recorded_iff (construct log s.world)

/-! ## A disk that is full -/

/-- A note that waits for its review. -/
def waitingNote : Draft where
  draftId := "D-1"
  kind := .controlFindingNote
  title := "Late reconciliation"
  body := "Control CTL-1 ran late."
  requester := sampleCaller.upn
  sessionId := ""
  relatedIds := []
  created := "2026-02-01T09:00:00Z"
  status := .pending
  contentSha256 := ""
  decision := none

def waitingState : CommandState := ⟨[rowOf waitingNote], [], World.empty, []⟩

def devMode : ReviewSettings := ⟨.dev, ⟨"", "", "", ""⟩⟩

/-- `approve D-1 --as alex@example-am.com`. -/
def devApproval : ReviewArgs := ⟨.approve, "D-1", .asUpn otherApprover.upn, "fine"⟩

/-- In dev mode no token is looked at. -/
def noTokens : TokenDecoder := fun _ _ => .error (.pyJwtError "")

/-- Everything works but the append of the record. -/
def fullDisk : CommandDraw where
  store := .ok ()
  views := ⟨.there ⟨2, []⟩, 0, sampleViews⟩
  audit := .ok ()
  getFails := false
  at_ := "2026-02-02T09:00:00Z"
  decideFault := none
  service := .error .other
  documents := fun _ => none
  excerptFails := false
  packFault := none
  record := ⟨⟨"a", "2026-02-02T09:00:00Z"⟩, ⟨"a-m", "2026-02-02T09:00:00Z"⟩,
    some (.crash .beforeAppend)⟩

/-- What is not written does not land. -/
theorem not_lands_beforeAppend {rt : Runtime} {log : AuditLog} {stamp markerStamp : Stamp}
    {w : World} {e : Entry} :
    ¬ Lands rt log ⟨stamp, markerStamp, some (.crash .beforeAppend)⟩ w e := by
  unfold Lands lands
  cases appendRecord rt log e stamp (opened log w) with
  | error x => exact Bool.false_ne_true
  | ok r => exact Bool.false_ne_true

/-- **The draft is approved and nothing is on record**: the decision commits before its
record is written. -/
theorem approved_off_record : ¬ OnTheRecord (.review devMode devApproval "alex") waitingState
    (runCommand Runtime.python sampleClock sampleLog noTokens (fun _ => .ok [otherApprover])
      60 (fun _ => 0)
      (.review devMode devApproval "alex") fullDisk waitingState) := by
  obtain ⟨dir, hset, husers⟩ :
    ∃ dir, setUp Runtime.python (fun _ => .ok [otherApprover]) 60 fullDisk = .ok dir ∧
      (readUsers Runtime.python (fun _ => .ok [otherApprover]) 60 fullDisk.views.later dir).1 =
        .ok [otherApprover] :=
    ⟨_, rfl, rfl⟩
  have hfound : getDraft Runtime.python waitingState.rows "D-1" = .ok (some waitingNote) := by
    have hfind : waitingState.rows.find? (fun r => r.draftId = "D-1") = some (rowOf waitingNote) :=
      List.find?_cons_of_pos (by decide)
    have hread : toDraft Runtime.python (rowOf waitingNote) = .ok waitingNote := toDraft_rowOf rfl
    rw [getDraft, hfind]
    exact congrArg (Except.map some) hread
  have hest : Established Runtime.python noTokens devMode devApproval
      (readUsers Runtime.python (fun _ => .ok [otherApprover]) 60 fullDisk.views.later dir).1
      (foundDraft Runtime.python waitingState.rows "D-1" false) otherApprover :=
    ⟨⟨otherApprover.upn, [otherApprover], rfl, husers, by decide +kernel⟩, waitingNote, hfound,
      by decide +kernel⟩
  obtain ⟨d, hd⟩ := getDraft_decided hfound (devApproval.decideArgs otherApprover fullDisk.at_)
  unfold runCommand
  rw [hset]
  intro h
  have hk := (review_recorded_iff (construct sampleLog World.empty)).mp h
  obtain ⟨v, hv⟩ := hk.version
  exact not_lands_beforeAppend (hk.record otherApprover v d hest (by decide +kernel) hd hv)

end ComplianceMcp
