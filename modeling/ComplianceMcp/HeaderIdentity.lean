import ComplianceMcp.ServiceCalls

/-! # Identity from the gateway

In header mode the caller is who the identity header names.  The requester that the model
supplies is compared with it in strict mode and not looked at otherwise, so it decides at most
whether the call is refused.  What follows uses the user that was resolved: the group check,
the rate bucket, the record of a success and the draft. -/
namespace ComplianceMcp

open PyText

inductive IdentityMode where
  | header
  | parameter
  deriving DecidableEq

/-- The settings `_caller_identity` reads. -/
structure IdentitySettings where
  mode : IdentityMode
  identityHeader : String
  strict : Bool
  sessionHeader : String

variable (rt : Runtime)

/-- `headers.get(name, "")`, with the names of the headers in lower case. -/
def headerValue (headers : List (String × String)) (name : String) : String :=
  ((headers.map (fun h => (rt.lower h.1, h.2))).reverse.lookup name).getD ""

/-- The identity header of a request. -/
def namedInHeader (settings : IdentitySettings) (headers : List (String × String)) : String :=
  stripped (headerValue rt headers settings.identityHeader)

/-- `_caller_identity`. -/
def callerIdentity (settings : IdentitySettings) (headers : List (String × String))
    (requesterParam : String) :
    CallerIdentity :=
  let sessionId := headerValue rt headers settings.sessionHeader
  match settings.mode with
  | .header =>
    let fromHeader := namedInHeader rt settings headers
    if fromHeader = "" then ⟨"", true, sessionId⟩
    else if settings.strict = true ∧ stripped requesterParam ≠ "" ∧
        rt.lower (stripped requesterParam) ≠ rt.lower fromHeader then ⟨"", true, sessionId⟩
    else ⟨fromHeader, true, sessionId⟩
  | .parameter => ⟨requesterParam, false, sessionId⟩

/-- A request on a directory snapshot: its headers, the requester the model supplied, and the
method it calls. -/
def respond (version : String) (users : List User) (now : ℚ) (settings : IdentitySettings)
    (headers : List (String × String)) (s : ServiceState) (requesterParam : String) (m : Method) :
    Answer × ServiceState :=
  audited rt m (.ok version) (.ok users) now (callerIdentity rt settings headers requesterParam) s

/-! ## What a request may do -/

section Promises

variable (users : List User) (now : ℚ) (s : ServiceState)

/-- The request is refused with `access_denied`: no body runs, no token is taken, no draft is
stored. -/
structure RefusedAccess (run : Method → Answer × ServiceState) (m : Method) : Prop where
  answer : ∃ detail, (run m).1 = .toolError .accessDenied detail
  body : ∀ body, run { m with body } = run m
  limiter : (run m).2.limiter = s.limiter
  rows : (run m).2.rows = s.rows

/-- The request acts as the user that `identity` names: it is authorised as that user, takes a
token from the user's bucket, runs no body but the user's, is recorded under the user's UPN or
the name in the header, and a draft it stores is the user's. -/
structure ActsAs (identity : String) (u : User) (run : Method → Answer × ServiceState)
    (m : Method) : Prop where
  authorised : authorise rt users identity m.group = .ok u
  bucket : (run m).2.limiter = (s.limiter.check u.upn now).2
  body : ∀ body, body u = m.body u → run { m with body } = run m
  record : ∃ entry : Entry, (run m).2.records = s.records ++ [entry] ∧
    (entry.requester = u.upn ∨ entry.requester = identity)
  draft : ∀ row ∈ (run m).2.rows, row ∈ s.rows ∨ row.requester = u.upn

end Promises

/-! ## One request -/

section Request

variable {rt} {version : String} {users : List User} {now : ℚ} {m : Method}
  {caller : CallerIdentity} {s : ServiceState}

theorem authorise_error {requester : String} {group : Option String} {e : PyError}
    (h : authorise rt users requester group = .error e) : ∃ message, e = .accessDenied message := by
  unfold authorise at h
  split at h
  · exact resolve_error h
  split at h
  · exact resolve_error h
  · exact requireGroup_error h

theorem authorise_nobody (hlower : rt.lower "" = "") (group : Option String) :
    authorise rt users "" group =
      .error (.accessDenied "requester identity is required on every call") := by
  have hkey : requesterKey rt "" = "" := by
    rw [requesterKey, show stripped "" = "" by decide, hlower]
  have hres : resolve rt users "" =
      .error (.accessDenied "requester identity is required on every call") := by
    rw [resolve, if_pos hkey]
  unfold authorise
  split
  · exact hres
  split
  · exact hres
  · rw [requireGroup, hres]
    rfl

/-- Who is not authorised is refused before anything else happens. -/
theorem refusedAccess_of_error {e : PyError}
    (h : authorise rt users caller.requester m.group = .error e) :
    RefusedAccess s (fun m => audited rt m (.ok version) (.ok users) now caller s) m := by
  obtain ⟨message, rfl⟩ := authorise_error h
  have hrun : ∀ body, audited rt { m with body } (.ok version) (.ok users) now caller s =
      refuse m caller version s (.accessDenied message) := by
    intro body
    unfold audited admitUser
    simp only [h]
    rfl
  have hm := hrun m.body
  constructor
  case answer => exact ⟨message, congrArg Prod.fst hm⟩
  case body => exact fun body => (hrun body).trans hm.symm
  case limiter => exact congrArg (fun r => r.2.limiter) hm
  case rows => exact congrArg (fun r => r.2.rows) hm

/-- The rows that a body leaves: those that were there, and rows of its user. -/
def OwnRows (m : Method) (s : ServiceState) (u : User) : Prop :=
  ∀ r rows, m.body u s.rows = .ok (r, rows) → ∀ row ∈ rows, row ∈ s.rows ∨ row.requester = u.upn

/-- Who is authorised acts as the user that was found. -/
theorem actsAs_of_ok {u : User} (h : authorise rt users caller.requester m.group = .ok u)
    (hrows : OwnRows m s u) :
    ActsAs rt users now s caller.requester u
      (fun m => audited rt m (.ok version) (.ok users) now caller s) m := by
  have hgate : admitUser rt users s.limiter ⟨caller.requester, m.group, now⟩ =
      ((s.limiter.check u.upn now).1.map (fun _ => u), (s.limiter.check u.upn now).2) := by
    unfold admitUser
    simp only [h]
  -- it is enough to know what the run comes to, whatever other bodies would do
  have hacts : ∀ out : Answer × ServiceState,
      (∀ body, body u = m.body u →
        audited rt { m with body } (.ok version) (.ok users) now caller s = out) →
      out.2.limiter = (s.limiter.check u.upn now).2 →
      (∃ entry : Entry, out.2.records = s.records ++ [entry] ∧
        (entry.requester = u.upn ∨ entry.requester = caller.requester)) →
      (∀ row ∈ out.2.rows, row ∈ s.rows ∨ row.requester = u.upn) →
      ActsAs rt users now s caller.requester u
        (fun m => audited rt m (.ok version) (.ok users) now caller s) m := by
    intro out hrun hbucket hrecord hdraft
    have hm := hrun m.body rfl
    constructor
    case authorised => exact h
    case bucket => exact (congrArg (fun r => r.2.limiter) hm).trans hbucket
    case body => exact fun body hb => (hrun body hb).trans hm.symm
    case record =>
      obtain ⟨entry, hrec, hreq⟩ := hrecord
      exact ⟨entry, (congrArg (fun r => r.2.records) hm).trans hrec, hreq⟩
    case draft =>
      intro row hrow
      exact hdraft row ((congrArg (fun r => r.2.rows) hm) ▸ hrow)
  rcases hcheck : s.limiter.check u.upn now with ⟨taken, limiter⟩
  rw [hcheck] at hgate hacts
  have hkept : ∀ row ∈ s.rows, row ∈ s.rows ∨ row.requester = u.upn := fun row hrow => Or.inl hrow
  cases taken with
  | error e =>
    refine hacts (refuse m caller version { s with limiter } e) (fun body _ => ?_) rfl ?_ hkept
    · unfold audited
      simp only [hgate]
      rfl
    · exact ⟨_, rfl, Or.inr rfl⟩
  | ok t =>
    cases hbody : m.body u s.rows with
    | error e =>
      refine hacts (refuse m caller version { s with limiter } e) (fun body hb => ?_) rfl ?_ hkept
      · unfold audited
        simp only [hgate, Except.map, hb, hbody]
        rfl
      · exact ⟨_, rfl, Or.inr rfl⟩
    | ok r =>
      refine hacts (.result r.1, ServiceState.record { s with limiter, rows := r.2 } m
        caller version u.upn
        "ok" r.1.summary) (fun body hb => ?_) rfl ?_ (hrows r.1 r.2 hbody)
      · unfold audited
        simp only [hgate, Except.map, hb, hbody]
        rfl
      · exact ⟨_, rfl, Or.inl rfl⟩

/-- A draft that is filed is filed for the user. -/
theorem ownRows_method (svc : Service) (env : Surroundings) (call : ServiceCall) (u : User) :
    OwnRows (call.method rt svc env) s u := by
  intro r rows h row hrow
  cases call with
  | read c =>
    replace h : readRows rt svc env c s.rows = .ok (r, rows) := h
    unfold readRows at h
    split at h
    · cases h
    cases hread : runRead rt ⟨svc.data, s.rows, svc.allowClockOverride, env.today⟩ c with
    | error e =>
      rw [hread] at h
      cases h
    | ok r' =>
      rw [hread] at h
      cases h
      exact Or.inl hrow
  | draftCreate a =>
    replace h : fileDraft rt svc env a u s.rows = .ok (r, rows) := h
    unfold fileDraft at h
    cases hd : draftCreate rt svc.alnum svc.data a u.upn env.draftId env.created with
    | error e =>
      rw [hd] at h
      cases h
    | ok d =>
      rw [hd] at h
      simp only [bind, Except.bind, pure, Except.pure] at h
      split at h
      · cases h
      cases h
      rcases List.mem_append.mp hrow with hrow | hrow
      · exact Or.inl hrow
      · rw [List.mem_singleton.mp hrow]
        exact Or.inr (draftOf_draftCreate hd).requester

theorem callerIdentity_header {settings : IdentitySettings} (hmode : settings.mode = .header)
    (headers : List (String × String)) (q : String) :
    (callerIdentity rt settings headers q).requester = "" ∨
      (callerIdentity rt settings headers q).requester = namedInHeader rt settings headers := by
  unfold callerIdentity
  rw [hmode]
  dsimp only
  split
  · exact Or.inl rfl
  split
  · exact Or.inl rfl
  · exact Or.inr rfl

/-- Without a header there is no identity. -/
theorem callerIdentity_nobody {settings : IdentitySettings} (hmode : settings.mode = .header)
    {headers : List (String × String)} (h : namedInHeader rt settings headers = "") (q : String) :
    (callerIdentity rt settings headers q).requester = "" := by
  rcases callerIdentity_header hmode headers q with hq | hq
  · exact hq
  · rw [hq, h]

/-- In lenient mode the model's requester is not looked at. -/
theorem callerIdentity_lenient {settings : IdentitySettings} (hmode : settings.mode = .header)
    (hstrict : settings.strict = false) (headers : List (String × String)) (q q' : String) :
    callerIdentity rt settings headers q = callerIdentity rt settings headers q' := by
  unfold callerIdentity
  rw [hmode, hstrict]
  simp

end Request

/-! ## Two requests -/

/-- Two requests that differ in the requester the model supplied: each is refused with
`access_denied` or acts as the one user the header names; in lenient mode they are the same,
and without a header both are refused. -/
structure HeaderDecides (rt : Runtime) (version : String) (users : List User) (now : ℚ)
    (settings : IdentitySettings) (headers : List (String × String)) (s : ServiceState) (m : Method)
    (p p' : String) : Prop where
  acts : ∃ named : Option User, ∀ q ∈ [p, p'],
    RefusedAccess s (respond rt version users now settings headers s q) m ∨
      ∃ u ∈ named, ActsAs rt users now s (namedInHeader rt settings headers) u
        (respond rt version users now settings headers s q) m
  lenient : settings.strict = false → respond rt version users now settings headers s p m =
    respond rt version users now settings headers s p' m
  nobody : namedInHeader rt settings headers = "" → ∀ q ∈ [p, p'],
    RefusedAccess s (respond rt version users now settings headers s q) m

/-- **The gateway's header decides who acts.**  For every directory snapshot, every headers,
every method and its arguments, and every two requesters the model may supply. -/
theorem header_decides (rt : Runtime) (hlower : rt.lower "" = "") (version : String)
    (users : List User) (now : ℚ) (settings : IdentitySettings) (hmode : settings.mode = .header)
    (headers : List (String × String)) (s : ServiceState) (svc : Service) (env : Surroundings)
    (call : ServiceCall) (p p' : String) :
    HeaderDecides rt version users now settings headers s (call.method rt svc env) p p' := by
  have hnobody : ∀ q, (callerIdentity rt settings headers q).requester = "" →
      RefusedAccess s (respond rt version users now settings headers s q)
        (call.method rt svc env) := by
    intro q hq
    exact refusedAccess_of_error (by rw [hq]; exact authorise_nobody hlower _)
  constructor
  case acts =>
    refine ⟨(authorise rt users (namedInHeader rt settings headers)
      (call.method rt svc env).group).toOption, fun q _ => ?_⟩
    rcases @callerIdentity_header rt settings hmode headers q with hq | hq
    · exact Or.inl (hnobody q hq)
    · cases hauth : authorise rt users (namedInHeader rt settings headers)
        (call.method rt svc env).group with
      | error e => exact Or.inl (refusedAccess_of_error (by rw [hq]; exact hauth))
      | ok u =>
        refine Or.inr ⟨u, rfl, ?_⟩
        rw [← hq] at hauth ⊢
        exact actsAs_of_ok hauth (ownRows_method svc env call u)
  case lenient =>
    intro hstrict
    unfold respond
    rw [callerIdentity_lenient hmode hstrict headers p p']
  case nobody => exact fun hn q _ => hnobody q (callerIdentity_nobody hmode hn q)

/-- Header mode with the default names. -/
def sampleIdentity : IdentitySettings := ⟨.header, "x-requester", true, "x-session-id"⟩

theorem header_decides_sample : HeaderDecides Runtime.python "v1" [sampleCaller] 0 sampleIdentity
    [("X-Requester", "priya@example-am.com")] ⟨.new 120 none, [], []⟩
    ((ServiceCall.draftCreate noteDraft).method Runtime.python sampleService sampleSurroundings)
    "Priya@example-am.com" "rae@firm.example" :=
  header_decides Runtime.python rfl "v1" [sampleCaller] 0 sampleIdentity rfl _ _ sampleService
    sampleSurroundings (.draftCreate noteDraft) _ _

end ComplianceMcp
