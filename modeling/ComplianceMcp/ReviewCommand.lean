import ComplianceMcp.ServiceCalls
import ComplianceMcp.EvidenceExport

/-! # The review command

`compliance-review approve` and `reject` are run by a person, not by the agent.  The command
establishes who is deciding, looks the account up in the approver group, reads the draft,
compares its requester with the approver and moves it out of `pending`.

In `oidc` mode the identity is the username claim of a verified token; verifying it is the
token library's, so it is a parameter.  In `dev` mode the identity is what was typed. -/
namespace ComplianceMcp

open PyText PyJson

/-! ## Settings and arguments -/

inductive ReviewIdentityMode where
  | oidc
  | dev
  deriving DecidableEq

structure OidcConfig where
  issuer : String
  audience : String
  jwksUrl : String
  usernameClaim : String

/-- The fields that must be set and are not, in capitals. -/
def OidcConfig.missing (c : OidcConfig) : List String :=
  ([("ISSUER", c.issuer), ("AUDIENCE", c.audience), ("JWKS_URL", c.jwksUrl)].filter
    (fun f => f.2 = "")).map Prod.fst

def OidcConfig.validate (c : OidcConfig) : Except PyError Unit :=
  if c.missing = [] then .ok ()
  else .error (.valueError ("OIDC review identity needs COMPLIANCE_OIDC_" ++
    String.intercalate "/" c.missing))

/-- What `approve` and `reject` read of the settings. -/
structure ReviewSettings where
  mode : ReviewIdentityMode
  oidc : OidcConfig

/-- The command line has exactly one of `--id-token` and `--as`. -/
inductive Presented where
  | idToken (token : String)
  | asUpn (upn : String)

/-- `args.id_token`; an absent one counts like an empty one. -/
def Presented.idTokenText : Presented → String
  | .idToken token => token
  | .asUpn _ => ""

/-- `args.as_upn`. -/
def Presented.asUpnText : Presented → String
  | .idToken _ => ""
  | .asUpn upn => upn

/-- `args.as_upn or "<id-token>"`. -/
def Presented.shown (p : Presented) : String :=
  if p.asUpnText = "" then "<id-token>" else p.asUpnText

inductive ReviewCmd where
  | approve
  | reject

def ReviewCmd.decision : ReviewCmd → DraftStatus
  | .approve => .approved
  | .reject => .rejected

structure ReviewArgs where
  cmd : ReviewCmd
  draftId : String
  presented : Presented
  note : String

/-! ## Who is deciding -/

/-- What the token library raises: an error of its own, or any other exception. -/
inductive TokenError where
  | pyJwtError (message : String)
  | raised (e : PyError)

/-- What verifying a token yields: its claims. -/
abbrev TokenDecoder := OidcConfig → String → Except TokenError Dict

/-- `OidcVerifier.username`. -/
def tokenUsername (decode : TokenDecoder) (config : OidcConfig) (token : String) :
    Except PyError String :=
  match decode config token with
  | .error (.pyJwtError message) => .error (.tokenInvalid ("id token rejected: " ++ message))
  | .error (.raised e) => .error e
  | .ok claims =>
    match Json.get claims config.usernameClaim with
    | some (.str username) =>
      if username = "" then .error (.tokenInvalid
        ("id token has no '" ++ config.usernameClaim ++ "' claim"))
      else .ok username
    | _ => .error (.tokenInvalid ("id token has no '" ++ config.usernameClaim ++ "' claim"))

/-- `_approver_identity`. -/
def approverIdentity (decode : TokenDecoder) (settings : ReviewSettings) (presented : Presented) :
    Except PyError String :=
  match settings.mode with
  | .oidc =>
    if presented.idTokenText = "" then
      .error (.accessDenied "this environment requires --id-token; --as is not accepted")
    else match settings.oidc.validate with
      | .error e => .error e
      | .ok () =>
        match tokenUsername decode settings.oidc presented.idTokenText with
        | .error (.tokenInvalid message) => .error (.accessDenied message)
        | r => r
  | .dev =>
    if presented.asUpnText = "" then .error (.accessDenied "dev mode expects --as <upn>")
    else .ok presented.asUpnText

/-! ## The checks -/

section Checks

variable (rt : Runtime)

/-- The draft is there, and its requester is not the approver. -/
def fourEyes (draftId : String) (approver : User) : Option Draft → Except PyError Unit
  | none => .error (.draftConflict ("no draft " ++ draftId))
  | some draft =>
    if rt.lower draft.requester = rt.lower approver.upn then
      .error (.accessDenied "four-eyes: a draft cannot be approved by its requester")
    else .ok ()

/-- `store.get(draft_id)`. -/
def foundDraft (rows : List Row) (draftId : String) (getFails : Bool) :
    Except PyError (Option Draft) :=
  if getFails then .error .other else getDraft rt rows draftId

/-- What the command does before it decides: the approver it decides as.  `users` are those
that the approver is looked up in, and `found` is what reading the draft yields. -/
def examine (decode : TokenDecoder) (settings : ReviewSettings) (args : ReviewArgs)
    (users : Except PyError (List User)) (found : Except PyError (Option Draft)) :
    Except PyError User := do
  let upn ← approverIdentity decode settings args.presented
  let us ← users
  let approver ← requireApprover rt us upn
  let draft ← found
  fourEyes rt args.draftId approver draft
  return approver

/-! ## The decision -/

/-- Where `DraftStore.decide` raises by itself: before its commit, or after it. -/
inductive DecideFault where
  | beforeCommit
  | afterCommit
  deriving DecidableEq

/-- The arguments of `decide`, and the time it reads. -/
def ReviewArgs.decideArgs (args : ReviewArgs) (approver : User) (at_ : String) : DecideArgs where
  draftId := args.draftId
  decision := args.cmd.decision
  by_ := approver.upn
  note := args.note
  at_ := at_

/-- The transaction of `decide` commits: it is not cut short, and moves exactly one row. -/
def commits (c : DecideArgs) (fault : Option DecideFault) (rows : List Row) : Bool :=
  fault ≠ some .beforeCommit && rows.countP (matchesPending c) = 1

/-- `DraftStore.decide`: one transaction, and then a read of its own. -/
def decideDraft (c : DecideArgs) (fault : Option DecideFault) (rows : List Row) :
    Except PyError Draft × List Row :=
  if fault = some .beforeCommit then (.error .other, rows)
  else if rows.countP (matchesPending c) ≠ 1 then
    (.error (.draftConflict (conflictMessage c.draftId)), rows)
  else if fault = some .afterCommit then (.error .other, decideRows c rows)
  else match getDraft rt (decideRows c rows) c.draftId with
    | .ok (some d) => (.ok d, decideRows c rows)
    | .ok none => (.error .assertionError, decideRows c rows)
    | .error e => (.error e, decideRows c rows)

/-! ## The directory of the command -/

variable (parse : Bytes → Except PyError (List User)) (ttl : Int)

/-- How `users.json` looks to the command when it builds its directory, and to the reloads
after that. -/
structure CommandViews where
  opened : FileView
  openedAt : Int
  later : DirectoryViews

/-- `Directory(…)`. -/
def openDirectory (views : CommandViews) : Except PyError Directory :=
  let r := load rt parse ttl views.openedAt true views.opened Directory.blank
  r.1.map (fun _ => r.2)

/-- The users that the approver is looked up in. -/
def consultedUsers (views : CommandViews) : Except PyError (List User) :=
  (openDirectory rt parse ttl views).bind (fun dir => (readUsers rt parse ttl views.later dir).1)

end Checks

/-! ## What each part does -/

section Parts

variable {rt : Runtime}

/-- What a command that passes the checks has established: the draft is there, under another
requester than the approver. -/
structure Established (rt : Runtime) (decode : TokenDecoder) (settings : ReviewSettings)
    (args : ReviewArgs) (users : Except PyError (List User)) (found : Except PyError (Option Draft))
    (approver : User) : Prop where
  named : ∃ upn us, approverIdentity decode settings args.presented = .ok upn ∧ users = .ok us ∧
    requireApprover rt us upn = .ok approver
  other : ∃ draft, found = .ok (some draft) ∧ rt.lower draft.requester ≠ rt.lower approver.upn

/-- **Who passes the checks** is the approver that the presented identity names. -/
theorem examine_ok_iff {decode : TokenDecoder} {settings : ReviewSettings} {args : ReviewArgs}
    {users : Except PyError (List User)} {found : Except PyError (Option Draft)} {approver : User} :
    examine rt decode settings args users found = .ok approver ↔
      Established rt decode settings args users found approver := by
  unfold examine
  constructor
  · intro h
    cases hid : approverIdentity decode settings args.presented with
    | error e =>
      rw [hid] at h
      cases h
    | ok upn =>
      rw [hid] at h
      cases users with
      | error e => cases h
      | ok us =>
        cases hreq : requireApprover rt us upn with
        | error e =>
          simp only [hreq, bind, Except.bind] at h
          cases h
        | ok user =>
          simp only [hreq, bind, Except.bind, pure, Except.pure] at h
          cases found with
          | error e => cases h
          | ok draft =>
            cases draft with
            | none => cases h
            | some draft =>
              unfold fourEyes at h
              by_cases hne : rt.lower draft.requester = rt.lower user.upn
              · simp only [if_pos hne] at h
                cases h
              · simp only [if_neg hne, Except.ok.injEq] at h
                subst h
                exact ⟨⟨upn, us, hid, rfl, hreq⟩, draft, rfl, hne⟩
  · rintro ⟨⟨upn, us, hid, rfl, hreq⟩, draft, rfl, hne⟩
    simp only [hid, hreq, bind, Except.bind, pure, Except.pure, fourEyes, if_neg hne]

/-- A draft that is found has been read. -/
theorem foundDraft_ok {rows : List Row} {draftId : String} {getFails : Bool} {o : Option Draft}
    (h : foundDraft rt rows draftId getFails = .ok o) : getDraft rt rows draftId = .ok o := by
  unfold foundDraft at h
  split at h
  · cases h
  · exact h

section Decide

variable {c : DecideArgs} {fault : Option DecideFault} {rows : List Row}

/-- A transaction that is cut short. -/
theorem decideDraft_cut (h : fault = some .beforeCommit) :
    decideDraft rt c fault rows = (.error .other, rows) := by
  rw [decideDraft, if_pos h]

/-- The draft has left `pending` in the meantime, or is not there. -/
theorem decideDraft_conflict (hb : fault ≠ some .beforeCommit)
    (hcount : rows.countP (matchesPending c) ≠ 1) :
    decideDraft rt c fault rows = (.error (.draftConflict (conflictMessage c.draftId)), rows) := by
  rw [decideDraft, if_neg hb, if_pos hcount]

/-- The decision stays when its reader raises. -/
theorem decideDraft_late (hcount : rows.countP (matchesPending c) = 1)
    (ha : fault = some .afterCommit) :
    decideDraft rt c fault rows = (.error .other, decideRows c rows) := by
  have hb : fault ≠ some .beforeCommit := by
    rw [ha]
    decide
  rw [decideDraft, if_neg hb, if_neg (not_not.mpr hcount), if_pos ha]

theorem decideDraft_done (hb : fault ≠ some .beforeCommit)
    (hcount : rows.countP (matchesPending c) = 1) (ha : fault ≠ some .afterCommit) {d : Draft}
    (hd : getDraft rt (decideRows c rows) c.draftId = .ok (some d)) :
    decideDraft rt c fault rows = (.ok d, decideRows c rows) := by
  rw [decideDraft, if_neg hb, if_neg (not_not.mpr hcount), if_neg ha, hd]

theorem commits_iff : commits c fault rows = true ↔
    fault ≠ some .beforeCommit ∧ rows.countP (matchesPending c) = 1 := by
  rw [commits, Bool.and_eq_true, decide_eq_true_iff, decide_eq_true_iff]

/-- **What `decide` leaves**: the rows of the decision if it commits, else the rows as they were. -/
theorem decideDraft_rows (c : DecideArgs) (fault : Option DecideFault) (rows : List Row) :
    (decideDraft rt c fault rows).2 = if commits c fault rows then decideRows c rows else rows := by
  by_cases hb : fault = some .beforeCommit
  · rw [decideDraft_cut hb, if_neg (fun h => (commits_iff.mp h).1 hb)]
  by_cases hcount : rows.countP (matchesPending c) = 1
  · rw [if_pos (commits_iff.mpr ⟨hb, hcount⟩), decideDraft, if_neg hb, if_neg (not_not.mpr hcount)]
    by_cases ha : fault = some .afterCommit
    · rw [if_pos ha]
    · rw [if_neg ha]
      cases getDraft rt (decideRows c rows) c.draftId with
      | error e => rfl
      | ok o => cases o <;> rfl
  · rw [decideDraft_conflict hb hcount, if_neg (fun h => hcount (commits_iff.mp h).2)]

end Decide

/-- A decided row is read back like it was before. -/
theorem toDraft_decided {r : Row} {d : Draft} (h : toDraft rt r = .ok d) (c : DecideArgs) :
    ∃ d', toDraft rt (decideRow c r) = .ok d' := by
  obtain ⟨decision, hdecision⟩ : ∃ o, decisionOf (decideRow c r) = .ok o := by
    unfold decisionOf decideRow
    split
    · exact ⟨_, rfl⟩
    · exact ⟨_, rfl⟩
    · exact ⟨_, rfl⟩
  have hstatus : DraftStatus.ofValue (decideRow c r).status = .ok c.decision :=
    DraftStatus.ofValue_value _
  have hkind : (decideRow c r).kind = r.kind := rfl
  have hrelated : (decideRow c r).relatedIds = r.relatedIds := rfl
  unfold toDraft at h ⊢
  rw [hdecision, hstatus, hkind, hrelated]
  simp only [bind, Except.bind, pure, Except.pure] at h ⊢
  cases hdec : decisionOf r with
  | error e =>
    rw [hdec] at h
    cases h
  | ok o =>
    rw [hdec] at h
    cases hk : DraftKind.ofValue r.kind with
    | error e =>
      rw [hk] at h
      cases h
    | ok kind =>
      rw [hk] at h
      cases hl : rt.loads r.relatedIds.toList with
      | none =>
        rw [hl] at h
        cases h
      | some j =>
        rw [hl] at h
        dsimp only at h ⊢
        cases ht : tupleOf j with
        | error e =>
          rw [ht] at h
          cases h
        | ok items =>
          rw [ht] at h
          dsimp only at h ⊢
          cases hs : DraftStatus.ofValue r.status with
          | error e =>
            rw [hs] at h
            cases h
          | ok status =>
            rw [hs] at h
            dsimp only at h
            cases hi : stringsOf items with
            | error e =>
              rw [hi] at h
              cases h
            | ok ids => exact ⟨_, rfl⟩

/-- What `get` finds it finds after a decision, too. -/
theorem getDraft_decided {rows : List Row} {draftId : String} {d : Draft}
    (h : getDraft rt rows draftId = .ok (some d)) (c : DecideArgs) :
    ∃ d', getDraft rt (decideRows c rows) draftId = .ok (some d') := by
  have hpred : (fun r : Row => decide (r.draftId = draftId)) ∘
      (fun r => if matchesPending c r then decideRow c r else r) = fun r =>
        decide (r.draftId = draftId) := by
    funext r
    show decide ((if matchesPending c r then decideRow c r else r).draftId = draftId) = _
    split <;> rfl
  unfold getDraft at h ⊢
  rw [decideRows, List.find?_map, hpred]
  cases hf : rows.find? (fun r => decide (r.draftId = draftId)) with
  | none =>
    rw [hf] at h
    cases h
  | some r =>
    rw [hf] at h
    dsimp only [Option.map_some] at h ⊢
    cases ht : toDraft rt r with
    | error e =>
      rw [ht] at h
      cases h
    | ok d' =>
      by_cases hm : matchesPending c r = true
      · obtain ⟨d'', hd''⟩ := toDraft_decided ht c
        rw [if_pos hm, hd'']
        exact ⟨d'', rfl⟩
      · rw [if_neg hm, ht]
        exact ⟨d', rfl⟩

theorem ReviewCmd.decision_ne_pending (cmd : ReviewCmd) : cmd.decision ≠ .pending := by
  cases cmd <;> decide

end Parts

/-! ## A sample -/

def otherApprover : User := ⟨"U-2", "alex@example-am.com", "Alex", [APPROVER_GROUP], true, .person⟩

/-- Within the time to live the file is not looked at. -/
def sampleViews : DirectoryViews := ⟨.missing, 0, .missing, 0⟩

end ComplianceMcp
