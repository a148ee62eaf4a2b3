import ComplianceMcp.FilingFaults
import ComplianceMcp.ReviewCommand
import ComplianceMcp.Steps

/-! # Four eyes

A draft keeps the UPN of the account that filed it, and a decision compares that text with the UPN
of the approver.  Accounts are the same by their object ids, and a UPN may change in between: then
the account that filed a draft decides it.  In the runs where the account that an approver's
identity names still has the UPN it filed with, nobody decides a draft of their own. -/
namespace ComplianceMcp

open PyText Steps

/-! ## Runs -/

/-- A command that has passed its checks: its arguments, the approver, and the users it looked
the approver up in. -/
structure Examined where
  args : ReviewArgs
  approver : User
  users : List User

/-- Who decided a draft, and the users that were consulted for it. -/
structure Ruling where
  approver : User
  users : List User

/-- The service and its directory, and the review commands under way.  `filer` and `ruling` are
history: the object id of the account that filed a draft, and its decision. -/
structure ReviewQueue (P : Type) where
  service : FilingState
  directory : Directory
  commands : P → Option Examined
  filer : String → Option String
  ruling : String → Option Ruling

/-- What can happen: a call of `draft_create`, a review command up to its decision, and the
decision.  Every action brings `users.json` as it looks at the time. -/
inductive ReviewAction (P : Type) where
  | file (views : DirectoryViews) (now : ℚ) (caller : CallerIdentity) (a : DraftArgs)
      (draw : FilingDraw)
  | examine (p : P) (settings : ReviewSettings) (args : ReviewArgs) (views : CommandViews)
      (getFails : Bool)
  | decide (p : P) (at_ : String) (fault : Option DecideFault)

variable {P : Type}

/-- Nothing has been filed. -/
def ReviewQueue.start (limiter : TokenBucketLimiter) (world : World) (dir : Directory) :
    ReviewQueue P where
  service := ⟨limiter, [], world, []⟩
  directory := dir
  commands := fun _ => none
  filer := fun _ => none
  ruling := fun _ => none

section Machine

variable (rt : Runtime)

/-- The object id of the account that a filing runs as. -/
def filingAccount (users : Except PyError (List User)) (caller : CallerIdentity) : Option String :=
  users.toOption.bind (fun us =>
    (requireGroup rt us caller.requester ANALYST_GROUP).toOption.map User.id)

variable (decode : TokenDecoder) (clock : Nat → String) (log : AuditLog) (svc : Service)
  (parse : Bytes → Except PyError (List User)) (ttl : Int) [DecidableEq P]

/-- The step function; a command that is refused changes nothing. -/
def reviewStep (s : ReviewQueue P) : ReviewAction P → Option (ReviewQueue P)
  | .file views now caller a draw =>
    let version := readVersion rt parse ttl views s.directory
    let users := readUsers rt parse ttl views version.2
    let r := fileCall rt clock log svc version.1 users.1 now caller a draw s.service
    some { s with
      service := r.2
      directory := users.2
      filer := if r.2.rows = s.service.rows then s.filer
        else Function.update s.filer draw.draftId (filingAccount rt users.1 caller) }
  | .examine p settings args views getFails =>
    let users := consultedUsers rt parse ttl views
    match examine rt decode settings args users (foundDraft rt s.service.rows args.draftId getFails)
      with
    | .error _ => some s
    | .ok approver => some { s with
        commands := Function.update s.commands p (some ⟨args, approver, users.toOption.getD []⟩) }
  | .decide p at_ fault =>
    match s.commands p with
    | none => none
    | some c => some { s with
        service := { s.service with
          rows := (decideDraft rt (c.args.decideArgs c.approver at_) fault s.service.rows).2 }
        commands := Function.update s.commands p none
        ruling := if commits (c.args.decideArgs c.approver at_) fault s.service.rows then
            Function.update s.ruling c.args.draftId (some ⟨c.approver, c.users⟩)
          else s.ruling }

/-! ## The claim and its condition -/

/-- The approver is an active person of the approver group among the users. -/
structure IsApprover (users : List User) (approver : User) : Prop where
  listed : approver ∈ users
  active : approver.active = true
  group : APPROVER_GROUP ∈ approver.groups
  person : approver.kind = .person

/-- **Every draft that has left `pending` was decided by an approver of the users that were
consulted, who is not the account that filed it.** -/
def FourEyes (s : ReviewQueue P) : Prop :=
  ∀ row ∈ s.service.rows, row.status ≠ "pending" →
  ∃ ruling filer, s.ruling row.draftId = some ruling ∧
    s.filer row.draftId = some filer ∧ row.decisionBy = some ruling.approver.upn ∧
    IsApprover ruling.users ruling.approver ∧ ruling.approver.id ≠ filer

/-- If the approver that the presented identity names in the users that are consulted has filed
the draft, then its UPN is still the one the draft was filed with. -/
def Recognised (s : ReviewQueue P) : ReviewAction P → Prop
  | .examine _ settings args views _ =>
    ∀ upn ∈ (approverIdentity decode settings args.presented).toOption,
      ∀ us ∈ (consultedUsers rt parse ttl views).toOption,
      ∀ u ∈ findUser rt us (requesterKey rt upn), IsApprover us u →
      ∀ row ∈ s.service.rows, row.draftId = args.draftId → row.status = "pending" →
          s.filer row.draftId = some u.id → rt.lower row.requester = rt.lower u.upn
  | _ => True

end Machine

/-! ## A filing -/

section Filing

variable {rt : Runtime} {clock : Nat → String} {log : AuditLog} {svc : Service}
  {version : Except PyError String} {users : Except PyError (List User)} {now : ℚ}
  {caller : CallerIdentity} {a : DraftArgs} {draw : FilingDraw} {s : FilingState}

/-- A call that does not get past the insert adds nothing. -/
theorem fileCall_unchanged (h : ∀ v user d, ¬ Commits rt svc version users now caller a
    draw s v user d) :
    (fileCall rt clock log svc version users now caller a draw s).2.rows = s.rows := by
  unfold fileCall
  cases version with
  | error e => rfl
  | ok v =>
    cases users with
    | error e => exact (answerError_rows v e draw.first).1
    | ok us =>
      dsimp only
      rcases hgate : admitUser rt us s.limiter ⟨caller.requester, some ANALYST_GROUP, now⟩
        with ⟨r, limiter⟩
      cases r with
      | error e => exact (answerError_rows v e draw.first).1
      | ok user =>
        dsimp only
        cases hd : draftCreate rt svc.alnum svc.data a user.upn draw.draftId draw.created with
        | error e => exact (answerError_rows v e draw.first).1
        | ok d =>
          by_cases hstore : draw.storeFails = true ∨ d.draftId ∈ s.rows.map Row.draftId
          · simp only [insertDraft, if_pos hstore]
            exact (answerError_rows v _ draw.first).1
          · rw [not_or, Bool.not_eq_true] at hstore
            exact absurd ⟨rfl, ⟨us, rfl, by rw [hgate]⟩, hd, hstore⟩ (h v user d)

/-- Once the insert has committed the draft is there, whatever raises after it. -/
theorem fileCall_added {v : String} {user : User} {d : Draft}
    (h : Commits rt svc version users now caller a draw s v user d) :
    (fileCall rt clock log svc version users now caller a draw s).2.rows = s.rows ++ [rowOf d] := by
  obtain ⟨rfl, ⟨us, rfl, hgate⟩, hd, hnew⟩ := h
  rcases hadm : admitUser rt us s.limiter ⟨caller.requester, some ANALYST_GROUP, now⟩
    with ⟨r, limiter⟩
  obtain rfl : r = .ok user := by rwa [hadm] at hgate
  have hstore : ¬ (draw.storeFails = true ∨ d.draftId ∈ s.rows.map Row.draftId) := by
    rwa [not_or, Bool.not_eq_true]
  unfold fileCall
  simp only [hadm, hd, insertDraft, if_neg hstore]
  cases draw.closeFails with
  | true =>
    simp only [if_true]
    exact (answerError_rows v _ draw.first).1
  | false =>
    simp only [Bool.false_eq_true, if_false]
    rcases hw : FilingState.write rt clock log { s with limiter, rows := s.rows ++ [rowOf d] }
        (filingEntry rt a caller v user.upn "ok" (queuedSummary d.draftId a.kind))
          draw.first with ⟨r, t⟩
    have hrows : t.rows = s.rows ++ [rowOf d] :=
      (congrArg (fun r => r.2.rows) hw).symm.trans (FilingState.write_rows _ _)
    cases r with
    | ok u => exact hrows
    | error e => exact (answerError_rows v e draw.second).1.trans hrows

/-- Who is let through is in the group. -/
theorem admitUser_group {us : List User} {l : TokenBucketLimiter} {user : User}
    (h : (admitUser rt us l ⟨caller.requester, some ANALYST_GROUP, now⟩).1 = .ok user) :
    requireGroup rt us caller.requester ANALYST_GROUP = .ok user := by
  have hgroup : ANALYST_GROUP ≠ "" := by decide
  have hauth : authorise rt us caller.requester (some ANALYST_GROUP) =
      requireGroup rt us caller.requester ANALYST_GROUP := by
    unfold authorise
    dsimp only
    rw [if_neg hgroup]
  unfold admitUser at h
  dsimp only at h
  rw [hauth] at h
  cases hg : requireGroup rt us caller.requester ANALYST_GROUP with
  | error e =>
    rw [hg] at h
    cases h
  | ok u =>
    rw [hg] at h
    dsimp only at h
    cases hc : (l.check u.upn now).1 with
    | error e =>
      rw [hc] at h
      cases h
    | ok _ =>
      rw [hc] at h
      exact h

/-- A draft is filed by the account that the filing runs as, under its UPN. -/
theorem Commits.filer {v : String} {user : User} {d : Draft}
    (h : Commits rt svc version users now caller a draw s v user d) :
    filingAccount rt users caller = some user.id ∧ DraftOf a user.upn draw.draftId d := by
  obtain ⟨us, rfl, hadmit⟩ := h.admitted
  refine ⟨?_, draftOf_draftCreate h.checked⟩
  rw [filingAccount, Except.toOption, Option.bind_some, admitUser_group hadmit]
  rfl

end Filing

/-! ## The invariant -/

section Invariant

/-- A command under way decides as an approver who has not filed the draft. -/
structure Sound (s : ReviewQueue P) (c : Examined) : Prop where
  approver : IsApprover c.users c.approver
  present : c.args.draftId ∈ s.service.rows.map Row.draftId
  other : ∀ row ∈ s.service.rows, row.draftId = c.args.draftId → row.status = "pending" →
    ∀ f, s.filer row.draftId = some f → c.approver.id ≠ f

/-- **The invariant.**  A draft has an account that filed it, and a command that has passed its
checks stays sound: rows neither vanish nor go back to `pending`, so what it found still holds
when it decides. -/
structure ReviewInv (s : ReviewQueue P) : Prop where
  ids : (s.service.rows.map Row.draftId).Nodup
  filed : ∀ row ∈ s.service.rows, ∃ f, s.filer row.draftId = some f
  decided : FourEyes s
  commands : ∀ p c, s.commands p = some c → Sound s c

theorem ReviewInv.start (limiter : TokenBucketLimiter) (world : World) (dir : Directory) :
    ReviewInv (ReviewQueue.start limiter world dir : ReviewQueue P) where
  ids := List.nodup_nil
  filed := fun _ h => absurd h List.not_mem_nil
  decided := fun _ h => absurd h List.not_mem_nil
  commands := fun _ _ h => by cases h

variable {rt : Runtime} {decode : TokenDecoder} {clock : Nat → String} {log : AuditLog}
  {svc : Service} {parse : Bytes → Except PyError (List User)} {ttl : Int} {s t : ReviewQueue P}

/-- Rows of one id are one row. -/
theorem ReviewInv.unique (hi : ReviewInv s) {r r' : Row} (hr : r ∈ s.service.rows)
    (hr' : r' ∈ s.service.rows) (h : r.draftId = r'.draftId) : r = r' :=
  List.inj_on_of_nodup_map hi.ids hr hr' h

/-- What neither touches rows nor history and adds no command keeps the invariant. -/
theorem ReviewInv.fewer (hi : ReviewInv s) (hrows : t.service.rows = s.service.rows)
    (hcommands : ∀ p c, t.commands p = some c → s.commands p = some c) (hfiler : t.filer = s.filer)
    (hruling : t.ruling = s.ruling) : ReviewInv t := by
  obtain ⟨ids, filed, decided, commands⟩ := hi
  unfold FourEyes at decided
  refine ⟨hrows ▸ ids, ?_, ?_, fun p c hc => ?_⟩
  · rwa [hrows, hfiler]
  · unfold FourEyes
    rwa [hrows, hfiler, hruling]
  · obtain ⟨happ, hpresent, hother⟩ := commands p c (hcommands p c hc)
    exact ⟨happ, hrows ▸ hpresent, by rwa [hrows, hfiler]⟩

/-- A draft that is filed is pending, and no command is about it. -/
theorem ReviewInv.filing (hi : ReviewInv s) {d : Draft} (account : String)
    (hpending : d.status = .pending) (hnew : d.draftId ∉ s.service.rows.map Row.draftId)
    (hrows : t.service.rows = s.service.rows ++ [rowOf d]) (hcommands : t.commands = s.commands)
    (hfiler : t.filer = Function.update s.filer d.draftId (some account))
    (hruling : t.ruling = s.ruling) :
    ReviewInv t := by
  have hne : ∀ row ∈ s.service.rows, row.draftId ≠ d.draftId :=
    fun row hrow he => hnew (List.mem_map.mpr ⟨row, hrow, he⟩)
  have hkept : ∀ row ∈ s.service.rows, t.filer row.draftId = s.filer row.draftId :=
    fun row hrow => by rw [hfiler, Function.update_of_ne (hne row hrow)]
  have hstatus : (rowOf d).status = "pending" := congrArg DraftStatus.value hpending
  refine ⟨?_, ?_, ?_, fun p c hc => ?_⟩
  · rw [hrows, List.map_append, List.map_singleton, List.nodup_append_comm, List.singleton_append,
      List.nodup_cons]
    exact ⟨hnew, hi.ids⟩
  · rw [hrows]
    intro row hrow
    rcases List.mem_append.mp hrow with hrow | hrow
    · rw [hkept row hrow]
      exact hi.filed row hrow
    · rw [List.mem_singleton.mp hrow, hfiler]
      exact ⟨account, Function.update_self ..⟩
  · unfold FourEyes
    rw [hrows]
    intro row hrow hdecided
    rcases List.mem_append.mp hrow with hrow | hrow
    · rw [hkept row hrow, hruling]
      exact hi.decided row hrow hdecided
    · rw [List.mem_singleton.mp hrow] at hdecided
      exact absurd hstatus hdecided
  · obtain ⟨happ, hpresent, hother⟩ := hi.commands p c (hcommands ▸ hc)
    refine ⟨happ, ?_, ?_⟩
    · rw [hrows, List.map_append]
      exact List.mem_append_left _ hpresent
    · rw [hrows]
      intro row hrow hid hpend f hf
      rcases List.mem_append.mp hrow with hrow | hrow
      · rw [hkept row hrow] at hf
        exact hother row hrow hid hpend f hf
      · rw [List.mem_singleton.mp hrow] at hid
        have hid : d.draftId = c.args.draftId := hid
        exact absurd (hid ▸ hpresent) hnew

/-- A recognised approver who passes the checks has not filed the draft. -/
theorem ReviewInv.examined (hi : ReviewInv s) {settings : ReviewSettings} {args : ReviewArgs}
    {views : CommandViews} {getFails : Bool} {p : P} {approver : User}
    (hc : Recognised rt decode parse ttl s (.examine p settings args views getFails))
    (h : examine rt decode settings args (consultedUsers rt parse ttl views)
      (foundDraft rt s.service.rows args.draftId getFails) = .ok approver) :
    Sound s ⟨args, approver, (consultedUsers rt parse ttl views).toOption.getD []⟩ := by
  obtain ⟨⟨upn, us, hupn, hus, hreq⟩, draft, hfound, hne⟩ := examine_ok_iff.mp h
  obtain ⟨hres, hgroup, hperson⟩ := requireApprover_ok hreq
  obtain ⟨hfind, hactive⟩ := resolve_ok hres
  have happ : IsApprover us approver := ⟨(findUser_mem hfind).1, hactive, hgroup, hperson⟩
  obtain ⟨row, hrow, hid, hdraft⟩ := getDraft_row (foundDraft_ok hfound)
  obtain ⟨-, -, -, hrequester⟩ := toDraft_fields hdraft
  rw [hus]
  refine ⟨happ, List.mem_map.mpr ⟨row, hrow, hid⟩, fun row' hrow' hid' hpend f hf he => hne ?_⟩
  obtain rfl := hi.unique hrow hrow' (hid.trans hid'.symm)
  subst he
  rw [← hrequester]
  exact hc upn (by rw [hupn]; rfl) us (by rw [hus]; rfl) approver hfind happ row hrow hid hpend hf

variable [DecidableEq P]

/-- The commands that are left when one of them ends. -/
theorem commands_ended {commands : P → Option Examined} {p q : P} {c : Examined}
    (h : Function.update commands p none q = some c) : commands q = some c := by
  by_cases hq : q = p
  · subst hq
    rw [Function.update_self] at h
    cases h
  · rwa [Function.update_of_ne hq] at h

/-- A decision that commits moves one draft, of which the command has found that another account
filed it. -/
theorem ReviewInv.deciding (hi : ReviewInv s) {p : P} {c : Examined} {at_ : String}
    {fault : Option DecideFault} (hp : s.commands p = some c)
    (hcommit : commits (c.args.decideArgs c.approver at_) fault s.service.rows = true)
    (hrows : t.service.rows = decideRows (c.args.decideArgs c.approver at_) s.service.rows)
    (hcommands : t.commands = Function.update s.commands p none) (hfiler : t.filer = s.filer)
    (hruling : t.ruling = Function.update s.ruling c.args.draftId (some ⟨c.approver, c.users⟩)) :
    ReviewInv t := by
  have hids : t.service.rows.map Row.draftId = s.service.rows.map Row.draftId := by
    rw [hrows, decideRows_ids]
  have hsound := hi.commands p c hp
  -- the row that is moved
  obtain ⟨moved, hmoved, hmatch⟩ : ∃ row ∈ s.service.rows,
      matchesPending (c.args.decideArgs c.approver at_) row = true := by
    have hcount := (commits_iff.mp hcommit).2
    exact List.countP_pos_iff.mp (by omega)
  obtain ⟨hmovedId, hmovedPending⟩ := matchesPending_iff.mp hmatch
  refine ⟨hids ▸ hi.ids, ?_, ?_, fun q c' hq => ?_⟩
  · rw [hrows, hfiler]
    intro row' hrow'
    obtain ⟨row, hrow, hid, -⟩ := mem_decideRows hrow'
    rw [hid]
    exact hi.filed row hrow
  · unfold FourEyes
    rw [hrows, hfiler, hruling]
    intro row' hrow' hdecided
    obtain ⟨row, hrow, hid, ⟨hm, rfl⟩ | ⟨hm, rfl⟩⟩ := mem_decideRows hrow'
    · obtain ⟨hrowId, hpending⟩ := matchesPending_iff.mp hm
      obtain ⟨f, hf⟩ := hi.filed row hrow
      refine ⟨⟨c.approver, c.users⟩, f, ?_, by rwa [hid], rfl, hsound.approver,
        hsound.other row hrow hrowId hpending f hf⟩
      rw [hid, hrowId]
      exact Function.update_self ..
    · have hne : row'.draftId ≠ c.args.draftId := by
        intro he
        obtain rfl := hi.unique hrow hmoved (he.trans hmovedId.symm)
        exact hdecided hmovedPending
      rw [Function.update_of_ne hne]
      exact hi.decided row' hrow hdecided
  · rw [hcommands] at hq
    obtain ⟨happ, hpresent, hother⟩ := hi.commands q c' (commands_ended hq)
    refine ⟨happ, hids ▸ hpresent, ?_⟩
    rw [hrows, hfiler]
    intro row' hrow' hid' hpending f hf
    obtain ⟨row, hrow, -, ⟨-, rfl⟩ | ⟨-, rfl⟩⟩ := mem_decideRows hrow'
    · exact absurd hpending (decideRow_not_pending c.args.cmd.decision_ne_pending row)
    · exact hother row' hrow hid' hpending f hf

theorem reviewStep_file {views : DirectoryViews} {now : ℚ} {caller : CallerIdentity} {a : DraftArgs}
    {draw : FilingDraw} {version : Except PyError String × Directory}
    {users : Except PyError (List User) × Directory}
    (hversion : version = readVersion rt parse ttl views s.directory)
    (husers : users = readUsers rt parse ttl views version.2) :
    reviewStep rt decode clock log svc parse ttl s (.file views now caller a draw) = some { s with
      service := (fileCall rt clock log svc version.1 users.1 now caller a draw s.service).2
      directory := users.2
      filer := if (fileCall rt clock log svc version.1 users.1 now caller a draw s.service).2.rows =
        s.service.rows
        then s.filer else Function.update s.filer draw.draftId
          (filingAccount rt users.1 caller) } := by
  subst hversion husers
  rfl

theorem reviewStep_examine {settings : ReviewSettings} {args : ReviewArgs} {views : CommandViews}
    {getFails : Bool} {p : P} {approver : User}
    (h : examine rt decode settings args (consultedUsers rt parse ttl views)
      (foundDraft rt s.service.rows args.draftId getFails) = .ok approver) :
    reviewStep rt decode clock log svc parse ttl s
      (.examine p settings args views getFails) = some { s with
      commands := Function.update s.commands p
        (some ⟨args, approver, (consultedUsers rt parse ttl views).toOption.getD []⟩) } := by
  unfold reviewStep
  dsimp only
  rw [h]

theorem reviewStep_decide {p : P} {c : Examined} (hp : s.commands p = some c) (at_ : String)
    (fault : Option DecideFault) :
    reviewStep rt decode clock log svc parse ttl s (.decide p at_ fault) = some { s with
      service := { s.service with
        rows := (decideDraft rt (c.args.decideArgs c.approver at_) fault s.service.rows).2 }
      commands := Function.update s.commands p none
      ruling := if commits (c.args.decideArgs c.approver at_) fault s.service.rows then
          Function.update s.ruling c.args.draftId (some ⟨c.approver, c.users⟩)
        else s.ruling } := by
  unfold reviewStep
  dsimp only
  rw [hp]

theorem reviewStep_inv {act : ReviewAction P} (hi : ReviewInv s)
    (hc : Recognised rt decode parse ttl s act)
    (h : reviewStep rt decode clock log svc parse ttl s act = some t) : ReviewInv t := by
  cases act with
  | file views now caller a draw =>
    obtain ⟨version, hversion⟩ : ∃ version, version = readVersion rt parse ttl views s.directory :=
      ⟨_, rfl⟩
    obtain ⟨users, husers⟩ : ∃ users, users = readUsers rt parse ttl views version.2 := ⟨_, rfl⟩
    rw [reviewStep_file hversion husers] at h
    cases h
    -- the call files a draft under its account, or leaves the table alone
    by_cases hc : ∃ v user d, Commits rt svc version.1 users.1 now caller a draw s.service v user d
    · obtain ⟨v, user, d, hcommits⟩ := hc
      have hadded := @fileCall_added rt clock log svc _ _ _ _ _ _ _ _ _ _ hcommits
      obtain ⟨haccount, hdraft⟩ := hcommits.filer
      refine hi.filing user.id hdraft.pending hcommits.stored.2 hadded rfl ?_ rfl
      have hchanged : s.service.rows ++ [rowOf d] ≠ s.service.rows := by simp
      rw [← hadded] at hchanged
      exact (if_neg hchanged).trans (by rw [haccount, hdraft.id])
    · have hsame := @fileCall_unchanged rt clock log svc _ _ _ _ _ _ _
        (fun v user d h => hc ⟨v, user, d, h⟩)
      exact hi.fewer hsame (fun _ _ h => h) (if_pos hsame) rfl
  | examine p settings args views getFails =>
    cases he : examine rt decode settings args (consultedUsers rt parse ttl views)
        (foundDraft rt s.service.rows args.draftId getFails) with
    | error e =>
      unfold reviewStep at h
      dsimp only at h
      rw [he] at h
      cases h
      exact hi
    | ok approver =>
      rw [reviewStep_examine he] at h
      cases h
      -- the approver that passes is no filer of the draft, and the UPN is still theirs
      have hsound := hi.examined hc he
      refine ⟨hi.ids, hi.filed, hi.decided, fun q c hq => ?_⟩
      by_cases hqp : q = p
      · subst hqp
        have hq : Function.update s.commands q _ q = some c := hq
        rw [Function.update_self] at hq
        cases hq
        exact ⟨hsound.approver, hsound.present, hsound.other⟩
      · have hq : Function.update s.commands p _ q = some c := hq
        rw [Function.update_of_ne hqp] at hq
        obtain ⟨happ, hpresent, hother⟩ := hi.commands q c hq
        exact ⟨happ, hpresent, hother⟩
  | decide p at_ fault =>
    cases hp : s.commands p with
    | none =>
      unfold reviewStep at h
      dsimp only at h
      rw [hp] at h
      cases h
    | some c =>
      rw [reviewStep_decide hp] at h
      cases h
      have hrows := @decideDraft_rows rt (c.args.decideArgs c.approver at_) fault s.service.rows
      -- a decision that does not commit leaves the row pending
      by_cases hcommit : commits (c.args.decideArgs c.approver at_) fault s.service.rows = true
      · rw [if_pos hcommit] at hrows
        exact hi.deciding hp hcommit hrows rfl rfl (if_pos hcommit)
      · rw [if_neg hcommit] at hrows
        exact hi.fewer hrows (fun q c' hq => commands_ended hq) rfl (if_neg hcommit)

end Invariant

/-- **Nobody decides a draft of their own while approvers are recognised.**  In every run of filings
and review commands, in either identity mode, under any spelling of an identity and with any
`users.json` at any time, in which an approver who has filed the draft still has the UPN of the
filing: every draft that has left `pending` was decided by an approver of the users that were
consulted, who has not filed it. -/
theorem four_eyes_when_recognised [DecidableEq P] (rt : Runtime) (decode : TokenDecoder)
    (clock : Nat → String) (log : AuditLog) (svc : Service)
    (parse : Bytes → Except PyError (List User)) (ttl : Int) (limiter : TokenBucketLimiter)
    (world : World) (dir : Directory) (actions : List (ReviewAction P)) (s : ReviewQueue P)
    (hm : Meets (reviewStep rt decode clock log svc parse ttl) (Recognised rt decode parse ttl)
      (.start limiter world dir) actions)
    (hr : run (reviewStep rt decode clock log svc parse ttl) (.start limiter world dir)
      actions = some s) :
    FourEyes s :=
  (hm.invariant (fun _ _ _ hi hc h => reviewStep_inv hi hc h)
    (ReviewInv.start limiter world dir) hr).decided

/-! ## A draft and its review -/

/-- A token library that takes every token for one of this user. -/
def tokensOf (upn : String) : TokenDecoder := fun _ _ => .ok [("preferred_username", .str upn)]

def sampleOidc : ReviewSettings where
  mode := .oidc
  oidc := ⟨"https://idp.example", "review", "https://idp.example/keys", "preferred_username"⟩

/-- The directory of the service, loaded and not looked at again. -/
def sampleLoaded : Directory := ⟨some ⟨[], [sampleCaller]⟩, "v1", 1, 0⟩

/-- A filing at which nothing raises. -/
def quietFiling : FilingDraw := { unsynced with first := { unsynced.first with fault := none } }

def noteApproval : ReviewArgs := ⟨.approve, "D-1", .idToken "jwt", "fine"⟩

/-- One call files a note, and one command approves it. -/
def filedAndApproved : List (ReviewAction Unit) :=
  [.file sampleViews 0 ⟨"u-1", false, "s1"⟩ noteDraft quietFiling,
    .examine () sampleOidc noteApproval ⟨.there ⟨2, []⟩, 0, sampleViews⟩ false,
    .decide () "2026-02-02T09:00:00Z" none]

/-- The step function, with the users that the command finds in `users.json`. -/
abbrev sampleReviewStep (reviewers : List User) (upn : String) :
    ReviewQueue Unit → ReviewAction Unit → Option (ReviewQueue Unit) :=
  reviewStep Runtime.python (tokensOf upn) sampleClock sampleLog sampleService
    (fun _ => .ok reviewers) 60

abbrev sampleStart : ReviewQueue Unit := .start (.new 120 none) World.empty sampleLoaded

/-- The note is filed by the sample caller. -/
theorem sample_filed (reviewers : List User) (upn : String) : ∃ s d,
    sampleReviewStep reviewers upn sampleStart
      (.file sampleViews 0 ⟨"u-1", false, "s1"⟩ noteDraft quietFiling) = some s ∧
    s.service.rows = [rowOf d] ∧ s.filer "D-1" = some sampleCaller.id ∧ New Runtime.python d ∧
    DraftOf noteDraft sampleCaller.upn "D-1" d := by
  obtain ⟨d, hd⟩ : ∃ d, draftCreate Runtime.python sampleService.alnum sampleService.data noteDraft
      sampleCaller.upn quietFiling.draftId quietFiling.created = .ok d :=
    draftCreate_ok_iff.mpr (by decide +kernel)
  obtain ⟨version, hversion⟩ : ∃ version, version =
      readVersion Runtime.python (fun _ => .ok reviewers) 60 sampleViews sampleLoaded := ⟨_, rfl⟩
  obtain ⟨users, husers⟩ : ∃ users, users =
      readUsers Runtime.python (fun _ => .ok reviewers) 60 sampleViews version.2 := ⟨_, rfl⟩
  have hread : version.1 = .ok "v1" := by rw [hversion]; rfl
  have hlooked : users.1 = .ok [sampleCaller] := by rw [husers, hversion]; rfl
  have hc : Commits Runtime.python sampleService version.1 users.1 0
    ⟨"u-1", false, "s1"⟩ noteDraft quietFiling
      sampleStart.service "v1" sampleCaller d :=
    ⟨hread, ⟨[sampleCaller], hlooked, by decide +kernel⟩, hd, rfl, List.not_mem_nil⟩
  have hadded := @fileCall_added Runtime.python sampleClock sampleLog _ _ _ _ _ _ _ _ _ _ _ hc
  obtain ⟨haccount, hdraft⟩ := hc.filer
  have hchanged : ¬ (fileCall Runtime.python sampleClock sampleLog sampleService version.1 users.1 0
      ⟨"u-1", false, "s1"⟩ noteDraft quietFiling sampleStart.service).2.rows =
        sampleStart.service.rows := by
    rw [hadded]
    exact List.cons_ne_nil _ _
  refine ⟨_, d, reviewStep_file hversion husers, hadded, ?_,
    (createDraft_new (draftCreate_ok hd).2).1, hdraft⟩
  exact (congrFun (if_neg hchanged) "D-1").trans ((Function.update_self ..).trans haccount)

/-- Whoever is an approver in the users that are consulted, under another UPN, approves the note. -/
theorem sample_approved {reviewers : List User} {upn : String} {approver : User} (hupn : upn ≠ "")
    (h : requireApprover Runtime.python reviewers upn = .ok approver)
    (hne : Runtime.python.lower sampleCaller.upn ≠ Runtime.python.lower approver.upn) :
    ∃ s, run (sampleReviewStep reviewers upn) sampleStart filedAndApproved = some s ∧
      ∃ row ∈ s.service.rows, row.status ≠ "pending" ∧
      s.ruling row.draftId = some ⟨approver, reviewers⟩ ∧
        s.filer row.draftId = some sampleCaller.id := by
  obtain ⟨s, d, hfile, hrows, hfiler, hnew, hdraft⟩ := sample_filed reviewers upn
  have hid : d.draftId = "D-1" := hdraft.id
  have hfound : foundDraft Runtime.python s.service.rows "D-1" false = .ok (some d) := by
    have hfind : [rowOf d].find? (fun r => r.draftId = "D-1") = some (rowOf d) :=
      List.find?_cons_of_pos (decide_eq_true hid)
    show getDraft Runtime.python s.service.rows "D-1" = _
    rw [hrows, getDraft, hfind]
    exact congrArg (Except.map some) (toDraft_rowOf hnew.decision)
  have hidentity : approverIdentity (tokensOf upn) sampleOidc (.idToken "jwt") = .ok upn := by
    have husername : tokenUsername (tokensOf upn) sampleOidc.oidc "jwt" = .ok upn := if_neg hupn
    have htoken : Presented.idTokenText (.idToken "jwt") ≠ "" := by decide
    have hvalid : sampleOidc.oidc.validate = .ok () := if_pos (by decide)
    have hmode : sampleOidc.mode = .oidc := rfl
    rw [approverIdentity, hmode]
    dsimp only
    rw [if_neg htoken, hvalid]
    dsimp only
    rw [show Presented.idTokenText (.idToken "jwt") = "jwt" from rfl, husername]
  have hexamine : examine Runtime.python (tokensOf upn) sampleOidc noteApproval
      (consultedUsers Runtime.python (fun _ => .ok reviewers) 60
        ⟨.there ⟨2, []⟩, 0, sampleViews⟩)
      (foundDraft Runtime.python s.service.rows "D-1" false) = .ok approver :=
    examine_ok_iff.mpr ⟨⟨upn, reviewers, hidentity, rfl, h⟩, d, hfound, by rwa [hdraft.requester]⟩
  have hmatch : matchesPending (noteApproval.decideArgs approver "2026-02-02T09:00:00Z")
      (rowOf d) = true :=
    matchesPending_iff.mpr ⟨hid, congrArg DraftStatus.value hdraft.pending⟩
  have hcommit : commits (noteApproval.decideArgs approver "2026-02-02T09:00:00Z")
      none s.service.rows = true := by
    rw [commits, hrows, List.countP_cons_of_pos hmatch]
    rfl
  have hunder : Function.update s.commands () (some ⟨noteApproval, approver, reviewers⟩) () =
      some ⟨noteApproval, approver, reviewers⟩ := Function.update_self ..
  refine ⟨_, run_cons.mpr ⟨s, hfile, run_cons.mpr ⟨_, reviewStep_examine hexamine,
    run_cons.mpr ⟨_, reviewStep_decide hunder "2026-02-02T09:00:00Z" none, rfl⟩⟩⟩,
    decideRow (noteApproval.decideArgs approver "2026-02-02T09:00:00Z") (rowOf d), ?_, ?_, ?_, ?_⟩
  · show _ ∈ (decideDraft Runtime.python _ none s.service.rows).2
    rw [decideDraft_rows, if_pos hcommit, hrows, decideRows, List.map_singleton, List.mem_singleton,
      if_pos hmatch]
  · exact decideRow_not_pending (ReviewCmd.decision_ne_pending .approve) (rowOf d)
  · have hruling := congrFun (@if_pos _ (instDecidableEqBool _ _) hcommit (String → Option Ruling)
      (Function.update s.ruling "D-1" (some ⟨approver, reviewers⟩)) s.ruling) d.draftId
    refine hruling.trans ?_
    rw [hid]
    exact Function.update_self ..
  · exact (congrArg s.filer hid).trans hfiler

/-- The account of the caller, renamed and made an approver. -/
def renamedCaller : User :=
  { sampleCaller with upn := "priya.shah@example-am.com", groups := [ANALYST_GROUP,
    APPROVER_GROUP] }

/-- **A renamed account approves its own draft**: the draft has the UPN it was filed under. -/
theorem renamed_filer_approves :
    ∃ s, run (sampleReviewStep [renamedCaller] renamedCaller.upn) sampleStart
      filedAndApproved = some s ∧
      ¬ FourEyes s := by
  obtain ⟨s, hrun, row, hrow, hdecided, hruling, hfiler⟩ :=
    @sample_approved [renamedCaller] renamedCaller.upn renamedCaller (by decide) (by decide +kernel)
      (by decide +kernel)
  refine ⟨s, hrun, fun h => ?_⟩
  obtain ⟨ruling, filer, hruling', hfiler', -, -, hother⟩ := h row hrow hdecided
  cases hruling.symm.trans hruling'
  cases hfiler.symm.trans hfiler'
  exact hother rfl

theorem four_eyes_sample :
    ∃ s, run (sampleReviewStep [otherApprover] otherApprover.upn) sampleStart
      filedAndApproved = some s ∧
      FourEyes s := by
  obtain ⟨s, hrun, -⟩ :=
    @sample_approved [otherApprover] otherApprover.upn otherApprover (by decide) (by decide +kernel)
      (by decide +kernel)
  refine ⟨s, hrun, four_eyes_when_recognised Runtime.python _ _ _ _ _ _ _ _ _
    filedAndApproved s ?_ hrun⟩
  refine ⟨trivial, fun t ht => ⟨?_, fun _ _ => ⟨trivial, fun _ _ => trivial⟩⟩⟩
  obtain ⟨s', d, hfile, hrows, hfiler, -, -⟩ := sample_filed [otherApprover] otherApprover.upn
  cases hfile.symm.trans ht
  intro upn hupn us hus u hu happ row hrow hid hpending hsame
  have hus : some [otherApprover] = some us := hus
  cases hus
  obtain rfl : u = otherApprover := List.mem_singleton.mp happ.listed
  rw [hid] at hsame
  have hsame : t.filer "D-1" = some otherApprover.id := hsame
  rw [hfiler] at hsame
  exact absurd hsame (by decide)

end ComplianceMcp
