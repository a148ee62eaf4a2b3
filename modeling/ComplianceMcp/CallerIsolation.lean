import ComplianceMcp.RateFairness
import ComplianceMcp.ServiceCalls

/-! # What callers learn of each other

All callers share one service: one limiter, one drafts table, one log.  What a caller is answered
still depends on nobody else, except through the drafts table, which is there to be shared.  The
comparison is between two runs: in the first result they agree on what one caller does and on the
drafts table at these calls, in the second a caller who files nothing is erased from the run. -/
namespace ComplianceMcp

open TokenBucket

/-! ## Runs of a service -/

/-- One call, with what it draws from its surroundings and its reading of the limiter's clock. -/
structure Issued where
  call : ServiceCall
  caller : CallerIdentity
  env : Surroundings
  now : ℚ

/-- What the call presents to the limiter. -/
def Issued.asks (i : Issued) : ToolCall := ⟨i.caller.requester, i.call.group, i.now⟩

/-- What happens to a service that is up: it is called, or something else writes to the drafts
table, a review command or a purge. -/
inductive ServiceMove where
  | call (i : Issued)
  | table (rows : List Row)

section Runs

variable (rt : Runtime) (svc : Service) (version : String) (users : List User)

/-- The service answers a call, with this snapshot of the directory. -/
def answerCall (s : ServiceState) (i : Issued) : Answer × ServiceState :=
  audited rt (i.call.method rt svc i.env) (.ok version) (.ok users) i.now i.caller s

/-- The state after a move. -/
def afterMove (s : ServiceState) : ServiceMove → ServiceState
  | .call i => (answerCall rt svc version users s i).2
  | .table rows => { s with rows }

/-- The answer to a call and what the log says about it. -/
def told (s : ServiceState) (i : Issued) : Answer × List Entry :=
  ((answerCall rt svc version users s i).1,
    (answerCall rt svc version users s i).2.records.drop s.records.length)

/-- What the calls of some callers are told in a run. -/
def allTold (whose : Issued → Bool) : ServiceState → List ServiceMove → List (Answer × List Entry)
  | _, [] => []
  | s, .call i :: moves =>
    if whose i then told rt svc version users s i :: allTold whose
      (afterMove rt svc version users s (.call i)) moves
    else allTold whose (afterMove rt svc version users s (.call i)) moves
  | s, .table rows :: moves => allTold whose { s with rows } moves

/-- The calls of some callers, each with the drafts table it meets. -/
def allMet (whose : Issued → Bool) : ServiceState → List ServiceMove → List (Issued × List Row)
  | _, [] => []
  | s, .call i :: moves =>
    if whose i then (i, s.rows) :: allMet whose (afterMove rt svc version users s (.call i)) moves
    else allMet whose (afterMove rt svc version users s (.call i)) moves
  | s, .table rows :: moves => allMet whose { s with rows } moves

/-- The caller's own calls, under any spelling of the identity. -/
def ownCalls (u : User) (i : Issued) : Bool := i.asks.names rt u

end Runs

/-! ## One call -/

/-- What a call comes to once the caller is admitted or refused. -/
structure Conclusion where
  answer : Answer
  entry : Entry
  rows : List Row

section Calls

variable (rt : Runtime) (svc : Service) (version : String)

/-- The record of a call. -/
def callEntry (i : Issued) (requester outcome summary : String) : Entry where
  requester := requester
  tool := i.call.tool
  args := (i.call.persisted rt).val
  outcome := outcome
  resultSummary := summary
  sessionId := i.caller.sessionId
  directoryVersion := version
  args_dict := (i.call.persisted rt).property

/-- A refusal leaves the table alone. -/
def concludeRefused (i : Issued) (rows : List Row) (e : PyError) : Conclusion where
  answer := .toolError (refusal e).code (refusal e).detail
  entry := callEntry rt version i i.caller.requester (refusal e).outcome (refusal e).summary
  rows := rows

/-- The admission and the drafts table decide what a call comes to. -/
def concludeCall (i : Issued) (rows : List Row) : Except PyError User → Conclusion
  | .error e => concludeRefused rt version i rows e
  | .ok user => match (i.call.method rt svc i.env).body user rows with
    | .error e => concludeRefused rt version i rows e
    | .ok (r, rows') => ⟨.result r, callEntry rt version i user.upn "ok" r.summary, rows'⟩

variable {rt svc version} {users : List User} {u v : User}

/-- **One call**: its admission, and what follows from that and the drafts table. -/
theorem answerCall_eq (s : ServiceState) (i : Issued) :
    answerCall rt svc version users s i =
      ((concludeCall rt svc version i s.rows (admitUser rt users s.limiter i.asks).1).answer,
        ⟨(admitUser rt users s.limiter i.asks).2,
          (concludeCall rt svc version i s.rows (admitUser rt users s.limiter i.asks).1).rows,
          s.records ++ [(concludeCall rt svc version i s.rows
            (admitUser rt users s.limiter i.asks).1).entry]⟩) := by
  have hasks : (⟨i.caller.requester, (i.call.method rt svc i.env).group, i.now⟩ : ToolCall) =
      i.asks := rfl
  unfold answerCall audited
  dsimp only
  rw [hasks]
  rcases admitUser rt users s.limiter i.asks with ⟨r, limiter⟩
  cases r with
  | error e => rfl
  | ok user =>
    simp only [concludeCall]
    rcases (i.call.method rt svc i.env).body user s.rows with e | ⟨r, rows⟩ <;> rfl

theorem told_eq (s : ServiceState) (i : Issued) : told rt svc version users s i =
    ((concludeCall rt svc version i s.rows (admitUser rt users s.limiter i.asks).1).answer,
      [(concludeCall rt svc version i s.rows (admitUser rt users s.limiter i.asks).1).entry]) := by
  rw [told, answerCall_eq, List.drop_left]

/-- A read tool leaves the drafts as they are. -/
theorem rows_read (s : ServiceState) {i : Issued} {c : ReadCall} (hc : i.call = .read c) :
    (answerCall rt svc version users s i).2.rows = s.rows := by
  rw [answerCall_eq]
  cases (admitUser rt users s.limiter i.asks).1 with
  | error e => rfl
  | ok user =>
    have hbody : (i.call.method rt svc i.env).body user s.rows = readRows rt svc i.env
        c s.rows := by
      rw [hc]
      rfl
    simp only [concludeCall, hbody]
    split
    · rfl
    next r rows hread =>
    exact rows_of_readRows hread

/-- What the limiters of two runs have in common for a user. -/
def SameBudget (u : User) (l l' : TokenBucketLimiter) : Prop :=
  l.rate = l'.rate ∧ l.capacity = l'.capacity ∧ l.buckets u.upn = l'.buckets u.upn

/-- A call that names the user is admitted alike with the same budget, and keeps the budgets the
same. -/
theorem SameBudget.admitted (hd : DistinctIds rt users) (hu : u ∈ users) {l l' : TokenBucketLimiter}
    {c : ToolCall} (h : SameBudget u l l') (hn : c.names rt u) :
    (admitUser rt users l c).1 = (admitUser rt users l' c).1 ∧
      SameBudget u (admitUser rt users l c).2 (admitUser rt users l' c).2 := by
  cases hauth : authorise rt users c.requester c.group with
  | error e =>
    unfold admitUser
    rw [hauth]
    exact ⟨rfl, h⟩
  | ok v =>
    have hv : Reaches rt users v c := hauth
    obtain rfl : v = u := hd.eq_of_names hv.names.1 hu hv.names.2 hn
    obtain ⟨hrate, hcap, hb⟩ := h
    have hmessage : l.limitMessage v.upn = l'.limitMessage v.upn := by
      unfold TokenBucketLimiter.limitMessage
      rw [hcap]
    rcases admit_cases hd hu l c with ⟨-, hbl, hol⟩ | ⟨hno, -⟩
    · rcases admit_cases hd hu l' c with ⟨-, hbl', hol'⟩ | ⟨hno, -⟩
      · refine ⟨?_, ?_, ?_, ?_⟩
        · rw [hol, hol', hrate, hcap, hb, hmessage]
        · rw [(admit_rates l c).1, (admit_rates l' c).1, hrate]
        · rw [(admit_rates l c).2, (admit_rates l' c).2, hcap]
        · rw [hbl, hbl', hrate, hcap, hb]
      · exact absurd hv hno
    · exact absurd hv hno

/-- Anybody else's call leaves the budget of the user alone. -/
theorem SameBudget.other (hd : DistinctIds rt users) (hu : u ∈ users) (l : TokenBucketLimiter)
    {c : ToolCall} (hn : ¬ c.names rt u) : SameBudget u (admitUser rt users l c).2 l := by
  rcases admit_cases hd hu l c with ⟨hr, -⟩ | ⟨-, hb, -⟩
  · exact absurd hr.names.2 hn
  · exact ⟨(admit_rates l c).1, (admit_rates l c).2, hb⟩

theorem SameBudget.symm {l l' : TokenBucketLimiter} (h : SameBudget u l l') : SameBudget u l' l :=
  ⟨h.1.symm, h.2.1.symm, h.2.2.symm⟩

theorem SameBudget.trans {l l' l'' : TokenBucketLimiter} (h : SameBudget u l l')
    (h' : SameBudget u l' l'') :
    SameBudget u l l'' := ⟨h.1.trans h'.1, h.2.1.trans h'.2.1, h.2.2.trans h'.2.2⟩

/-- With the same budget and the same table, the same call is told the same and does the same. -/
theorem SameBudget.told (hd : DistinctIds rt users) (hu : u ∈ users)
    {s t : ServiceState} {i : Issued} (h : SameBudget u s.limiter t.limiter)
    (hrows : s.rows = t.rows) (hn : i.asks.names rt u) :
    told rt svc version users s i = told rt svc version users t i ∧
      (answerCall rt svc version users s i).2.rows = (answerCall rt svc version users t i).2.rows ∧
      SameBudget u (answerCall rt svc version users s i).2.limiter
        (answerCall rt svc version users t i).2.limiter := by
  obtain ⟨hsame, hbudget⟩ := h.admitted hd hu hn
  rw [told_eq, told_eq, answerCall_eq, answerCall_eq, hrows, hsame]
  exact ⟨rfl, rfl, hbudget⟩

end Calls

/-! ## Two runs that agree on one caller -/

section OwnCalls

variable {rt : Runtime} {svc : Service} {version : String} {users : List User} {u : User}

theorem sameBudget_afterMove (hd : DistinctIds rt users) (hu : u ∈ users) (s : ServiceState)
    {m : ServiceMove} (hm : ∀ i, m = .call i → ¬ i.asks.names rt u) :
    SameBudget u (afterMove rt svc version users s m).limiter s.limiter := by
  cases m with
  | call i =>
    rw [afterMove, answerCall_eq]
    exact SameBudget.other hd hu s.limiter (hm i rfl)
  | table rows => exact ⟨rfl, rfl, rfl⟩

variable (rt svc version users) in
/-- A service for one caller: a limiter of its own, and at every call the drafts table it meets. -/
def ownService : TokenBucketLimiter → List (Issued × List Row) → List (Answer × List Entry)
  | _, [] => []
  | l, (i, rows) :: met => told rt svc version users ⟨l, rows, []⟩ i ::
      ownService (answerCall rt svc version users ⟨l, rows, []⟩ i).2.limiter met

/-- To one caller the shared service is a service of its own: the induction is on the moves. -/
theorem allTold_eq_ownService (hd : DistinctIds rt users) (hu : u ∈ users)
    (moves : List ServiceMove) :
    ∀ (s : ServiceState) (l : TokenBucketLimiter), SameBudget u s.limiter l →
      allTold rt svc version users (ownCalls rt u) s moves =
        ownService rt svc version users l
          (allMet rt svc version users (ownCalls rt u) s moves) := by
  induction moves with
  | nil => exact fun _ _ _ => rfl
  | cons m moves ih =>
    intro s l hl
    cases m with
    | table rows => exact ih { s with rows } l hl
    | call i =>
      rw [allTold, allMet]
      by_cases hn : i.asks.names rt u
      · have hown : ownCalls rt u i = true := decide_eq_true hn
        obtain ⟨htold, -, hbudget⟩ := hl.told (t := ⟨l, s.rows, []⟩) hd hu rfl hn
        rw [if_pos hown, if_pos hown, ownService, htold]
        exact congrArg _ (ih _ _ hbudget)
      · have hown : ¬ ownCalls rt u i = true := fun h => hn (of_decide_eq_true h)
        rw [if_neg hown, if_neg hown]
        refine ih _ l (SameBudget.trans (sameBudget_afterMove hd hu s (fun j hj => ?_)) hl)
        cases hj
        exact hn

/-- **A caller learns of the others only through the drafts table.**  In two runs in which one
caller makes the same calls and meets the same drafts table at each of them, the caller gets the
same answers, and the log says the same about these calls, whatever everybody else has asked, filed
or been refused. -/
theorem own_calls_decide (rt : Runtime) (svc : Service) (version : String) (users : List User)
    (hd : DistinctIds rt users) (u : User) (hu : u ∈ users) (s t : ServiceState)
    (hb : SameBudget u s.limiter t.limiter) (moves moves' : List ServiceMove)
    (hmet : allMet rt svc version users (ownCalls rt u) s moves =
      allMet rt svc version users (ownCalls rt u) t moves') :
    allTold rt svc version users (ownCalls rt u) s moves =
      allTold rt svc version users (ownCalls rt u) t moves' := by
  rw [allTold_eq_ownService hd hu moves s t.limiter hb, hmet]
  exact (allTold_eq_ownService hd hu moves' t t.limiter ⟨rfl, rfl, rfl⟩).symm

end OwnCalls

/-- The other user floods the service with reads. -/
def floodingCall : Issued := ⟨.read .policyList, ⟨"u-9", false, "s9"⟩, sampleSurroundings, 0⟩

def quietCall : Issued :=
  ⟨.read (.draftList .pending), ⟨" U-1 ", true, "s1"⟩, sampleSurroundings, 1⟩

theorem own_calls_decide_sample :
    allTold Runtime.python sampleService "v1" [sampleCaller, floodingUser]
      (ownCalls Runtime.python sampleCaller)
        ⟨.new 1 none, [], []⟩ [.call floodingCall, .call floodingCall, .call quietCall] =
      allTold Runtime.python sampleService "v1" [sampleCaller, floodingUser]
        (ownCalls Runtime.python sampleCaller)
        ⟨.new 1 none, [], []⟩ [.call quietCall] := by
  have hflood : ownCalls Runtime.python sampleCaller floodingCall = false := by decide +kernel
  have hquiet : ownCalls Runtime.python sampleCaller quietCall = true := by decide +kernel
  refine own_calls_decide Runtime.python sampleService "v1" [sampleCaller, floodingUser]
    (by decide) sampleCaller (by decide) _ _ ⟨rfl, rfl, rfl⟩ _ _ ?_
  simp only [allMet, hflood, hquiet, afterMove, Bool.false_eq_true, if_false, if_true]
  rw [rows_read _ rfl, rows_read _ rfl]

/-! ## A caller who files nothing -/

section Erasing

variable (rt : Runtime) (svc : Service) (version : String) (users : List User)

/-- None of the caller's calls in the run writes to the drafts table. -/
def FilesNothing (v : User) : ServiceState → List ServiceMove → Prop
  | _, [] => True
  | s, m :: moves => (∀ i, m = .call i → i.asks.names rt v →
      (afterMove rt svc version users s m).rows = s.rows) ∧
      FilesNothing v (afterMove rt svc version users s m) moves

/-- The move is no call of the caller. -/
def ServiceMove.notBy (v : User) : ServiceMove → Bool
  | .call i => !ownCalls rt v i
  | .table _ => true

/-- Everything but the caller's calls. -/
def withoutCalls (v : User) (moves : List ServiceMove) : List ServiceMove :=
  moves.filter (ServiceMove.notBy rt v)

/-- The state after all moves. -/
def afterMoves (s : ServiceState) (moves : List ServiceMove) : ServiceState :=
  moves.foldl (afterMove rt svc version users) s

/-- Two limiters that differ for one user at most. -/
def SameButFor (v : User) (l l' : TokenBucketLimiter) : Prop :=
  ∀ w ∈ users, w ≠ v → SameBudget w l l'

variable {rt svc version users} {v : User}

theorem SameButFor.admitted (hd : DistinctIds rt users) {l l' : TokenBucketLimiter} {c : ToolCall}
    (h : SameButFor users v l l') (hn : ¬ c.names rt v) :
    (admitUser rt users l c).1 = (admitUser rt users l' c).1 ∧
      SameButFor users v (admitUser rt users l c).2 (admitUser rt users l' c).2 := by
  constructor
  · cases hauth : authorise rt users c.requester c.group with
    | error e =>
      unfold admitUser
      rw [hauth]
    | ok w =>
      have hw : Reaches rt users w c := hauth
      have hne : w ≠ v := fun he => hn (he ▸ hw.names.2)
      exact ((h w hw.names.1 hne).admitted hd hw.names.1 hw.names.2).1
  · intro w hw hne
    by_cases hnw : c.names rt w
    · exact ((h w hw hne).admitted hd hw hnw).2
    · exact ((SameBudget.other hd hw l hnw).trans (h w hw hne)).trans
        (SameBudget.other hd hw l' hnw).symm

/-- What a caller asks changes nobody else's budget. -/
theorem SameButFor.own (hd : DistinctIds rt users) (hv : v ∈ users) (l : TokenBucketLimiter)
    {c : ToolCall} (hn : c.names rt v) : SameButFor users v (admitUser rt users l c).2 l := by
  intro w hw hne
  exact SameBudget.other hd hw l (fun hnw => hne (hd.eq_of_names hw hv hnw hn))

/-- The induction is on the moves; the two runs keep the same table and differ in one budget at
most. -/
theorem erased_run (hd : DistinctIds rt users) (hv : v ∈ users) (moves : List ServiceMove) :
    ∀ s t : ServiceState, s.rows = t.rows → SameButFor users v s.limiter t.limiter →
      FilesNothing rt svc version users v s moves →
      allTold rt svc version users (fun i => !ownCalls rt v i) s moves =
          allTold rt svc version users (fun i => !ownCalls rt v i) t (withoutCalls rt v moves) ∧
        (afterMoves rt svc version users s moves).rows =
          (afterMoves rt svc version users t (withoutCalls rt v moves)).rows := by
  induction moves with
  | nil => exact fun _ _ hrows _ _ => ⟨rfl, hrows⟩
  | cons m moves ih =>
    intro s t hrows hl hquiet
    cases m with
    | table rows => exact ih { s with rows } { t with rows } rfl hl hquiet.2
    | call i =>
      by_cases hn : i.asks.names rt v
      · have hown : ownCalls rt v i = true := decide_eq_true hn
        have herased : withoutCalls rt v (.call i :: moves) = withoutCalls rt v moves :=
          List.filter_cons_of_neg (by rw [ServiceMove.notBy, hown]; decide)
        rw [herased, allTold, hown]
        refine ih _ t ((hquiet.1 i rfl hn).trans hrows) ?_ hquiet.2
        intro w hw hne
        refine SameBudget.trans ?_ (hl w hw hne)
        rw [afterMove, answerCall_eq]
        exact SameButFor.own hd hv s.limiter hn w hw hne
      · have hown : ownCalls rt v i = false := decide_eq_false hn
        have hkept : withoutCalls rt v (.call i :: moves) = .call i :: withoutCalls rt v moves :=
          List.filter_cons_of_pos (by rw [ServiceMove.notBy, hown]; rfl)
        obtain ⟨hsame, hbudget⟩ := hl.admitted hd hn
        have htold : told rt svc version users s i = told rt svc version users t i := by
          rw [told_eq, told_eq, hsame, hrows]
        have hnext : (afterMove rt svc version users s (.call i)).rows =
            (afterMove rt svc version users t (.call i)).rows := by
          rw [afterMove, afterMove, answerCall_eq, answerCall_eq, hsame, hrows]
        have hlimiters : SameButFor users v (afterMove rt svc version users s (.call i)).limiter
            (afterMove rt svc version users t (.call i)).limiter := by
          rw [afterMove, afterMove, answerCall_eq, answerCall_eq]
          exact hbudget
        obtain ⟨hrest, hend⟩ := ih _ _ hnext hlimiters hquiet.2
        rw [hkept, allTold, allTold, hown, htold, hrest]
        exact ⟨rfl, hend⟩

/-- **Who files nothing can be erased.**  If no call of a caller writes to the drafts table, then
without these calls every other caller gets the same answers, the log says the same about their
calls, and the drafts table ends the same. -/
theorem quiet_caller_erasable (rt : Runtime) (svc : Service) (version : String) (users : List User)
    (hd : DistinctIds rt users) (v : User) (hv : v ∈ users) (s : ServiceState)
    (moves : List ServiceMove) (hquiet : FilesNothing rt svc version users v s moves) :
    allTold rt svc version users (fun i => !ownCalls rt v i) s moves =
        allTold rt svc version users (fun i => !ownCalls rt v i) s (withoutCalls rt v moves) ∧
      (afterMoves rt svc version users s moves).rows =
        (afterMoves rt svc version users s (withoutCalls rt v moves)).rows :=
  erased_run hd hv moves s s rfl (fun _ _ _ => ⟨rfl, rfl, rfl⟩) hquiet

end Erasing

theorem quiet_caller_erasable_sample :
    allTold Runtime.python sampleService "v1" [sampleCaller, floodingUser]
        (fun i => !ownCalls Runtime.python floodingUser i) ⟨.new 1 none, [], []⟩
        [.call floodingCall, .call quietCall] =
      allTold Runtime.python sampleService "v1" [sampleCaller, floodingUser]
        (fun i => !ownCalls Runtime.python floodingUser i) ⟨.new 1 none, [], []⟩
        [.call quietCall] := by
  have hflood : ownCalls Runtime.python floodingUser floodingCall = true := by decide +kernel
  have hquiet : ownCalls Runtime.python floodingUser quietCall = false := by decide +kernel
  have herased := (quiet_caller_erasable Runtime.python sampleService "v1"
    [sampleCaller, floodingUser] (by decide)
    floodingUser (by decide) ⟨.new 1 none, [], []⟩ [.call floodingCall, .call quietCall]
    ⟨fun i hi _ => by cases hi; exact rows_read _ rfl, fun i hi _ => by
      cases hi; exact rows_read _ rfl, trivial⟩).1
  have hwithout : withoutCalls Runtime.python floodingUser [.call floodingCall, .call quietCall] =
      [.call quietCall] := by
    simp only [withoutCalls, List.filter, ServiceMove.notBy, hflood, hquiet, Bool.not_true,
      Bool.not_false]
  rw [hwithout] at herased
  exact herased

end ComplianceMcp
