import ComplianceMcp.HeaderIdentity
import ComplianceMcp.Utf8Lines

/-! # The edge

Every HTTP request passes a wrapper before it reaches the SDK's application: two paths are answered
there, the bearer token is compared, and GET is refused.  Behind it every tool call resolves its
caller from the headers of the request, runs on the service and is counted.  A request is a step of
one machine here, from the bytes of its headers to the drafts table, the log and the counters.

The application between the edge and the tools is the SDK's and a parameter: which tool calls a
request comes to, and the headers it hands to them. -/
namespace ComplianceMcp

open PyText

/-! ## Requests -/

/-- What the edge reads of an ASGI scope.  A path that is missing reads as `""`, and headers that
are missing as none. -/
structure Scope where
  type : String
  path : String
  method : Option String
  headers : List (Bytes × Bytes)

/-- What a tool call draws at its time: the version of the directory, the users, the limiter's
clock, and what its body draws. -/
structure CallDraw where
  version : Except PyError String
  users : Except PyError (List User)
  now : ℚ
  env : Surroundings

/-- What arrives at the endpoint; `draw i` is for the `i`-th tool call it comes to. -/
structure Received where
  scope : Scope
  body : Bytes
  draw : Nat → CallDraw

/-- The SDK's application: `ctx.headers`, and the tool calls of a request, each with the requester
that the model supplied.  It has no route but those for HTTP. -/
structure SdkApp where
  context : List (Bytes × Bytes) → List (String × String)
  calls : Scope → Bytes → List (String × ServiceCall)
  httpOnly : ∀ scope body, scope.type ≠ "http" → calls scope body = []

/-- The service, and the counter `compliance_tool_calls_total` by tool and label. -/
structure EdgeState where
  service : ServiceState
  calls : String → String → Nat

inductive EdgeAnswer where
  | health
  | metrics (calls : String → String → Nat)
  | unauthorized
  | methodNotAllowed
  | raised (e : PyError)
  | served (answers : List Answer)

/-- The answers of tools. -/
def EdgeAnswer.answers : EdgeAnswer → List Answer
  | .served answers => answers
  | _ => []

/-- `ToolError.error`. -/
def ErrorCode.value : ErrorCode → String
  | .accessDenied => "access_denied"
  | .rateLimited => "rate_limited"
  | .invalidInput => "invalid_input"
  | .draftRejected => "draft_rejected"
  | .notFound => "not_found"
  | .internalError => "internal_error"

/-- The label a call is counted under; a call that raises is not counted. -/
def Answer.label : Answer → Option String
  | .result _ => some "ok"
  | .toolError code _ => some code.value
  | .raised _ => none

/-- `TOOL_CALLS.labels(tool, …).inc()`. -/
def counted (calls : String → String → Nat) (tool : String) (answer : Answer) :
    String → String → Nat :=
  fun t l => if t = tool ∧ some l = answer.label then calls t l + 1 else calls t l

/-- `hmac.compare_digest` on two texts. -/
def compareText (a b : String) : Except PyError Bool :=
  if a.toList.all (fun c => c.toNat < 128) ∧ b.toList.all (fun c => c.toNat < 128) then .ok (a = b)
  else .error .typeError

/-- The names and values of the headers, `none` where `decode` raises. -/
def decodeHeaders (headers : List (Bytes × Bytes)) : Option (List (String × String)) :=
  headers.mapM (fun h => (decodeUtf8 h.1).bind (fun k => (decodeUtf8 h.2).map
    (fun v => (String.ofList k, String.ofList v))))

section Machine

variable (rt : Runtime) (svc : Service) (settings : IdentitySettings) (app : SdkApp)

/-- `call`, in `build_server`. -/
def callTool (headers : List (String × String)) (draw : CallDraw) (c : String × ServiceCall)
    (s : EdgeState) :
    Answer × EdgeState :=
  let r := audited rt (c.2.method rt svc draw.env) draw.version draw.users draw.now
    (callerIdentity rt settings headers c.1) s.service
  (r.1, ⟨r.2, counted s.calls c.2.tool r.1⟩)

/-- The tool calls of one request, in order, from the `i`-th on. -/
def callTools (headers : List (String × String)) (draw : Nat → CallDraw) :
    Nat → List (String × ServiceCall) → EdgeState → List Answer × EdgeState
  | _, [], s => ([], s)
  | i, c :: cs, s =>
    let r := callTool rt svc settings headers (draw i) c s
    let rest := callTools headers draw (i + 1) cs r.2
    (r.1 :: rest.1, rest.2)

/-- The application, on a request that reaches it. -/
def runApp (r : Received) (s : EdgeState) : EdgeAnswer × EdgeState :=
  let out := callTools rt svc settings (app.context r.scope.headers) r.draw 0
    (app.calls r.scope r.body) s
  (.served out.1, out.2)

/-- `_edge_middleware`. -/
def edge (token : String) (r : Received) (s : EdgeState) : EdgeAnswer × EdgeState :=
  if r.scope.type ≠ "http" then runApp rt svc settings app r s
  else if r.scope.path = "/healthz" then (.health, s)
  else if r.scope.path = "/metrics" then (.metrics s.calls, s)
  else match decodeHeaders r.scope.headers with
    | none => (.raised .unicodeDecodeError, s)
    | some headers =>
      match if token = "" then .ok true else compareText (headerValue rt headers "authorization")
        ("Bearer " ++ token) with
      | .error e => (.raised e, s)
      | .ok false => (.unauthorized, s)
      | .ok true =>
        if r.scope.method = some "GET" then (.methodNotAllowed, s)
        else runApp rt svc settings app r s

/-- The state after some requests. -/
def afterRequests (token : String) (s : EdgeState) (rs : List Received) : EdgeState :=
  rs.foldl (fun s r => (edge rt svc settings app token r s).2) s

/-- The requests, each with its answer. -/
def replies (token : String) : EdgeState → List Received → List (Received × EdgeAnswer)
  | _, [] => []
  | s, r :: rs => (r, (edge rt svc settings app token r s).1) ::
      replies token (edge rt svc settings app token r s).2 rs

/-! ## Who gets through -/

/-- The value of the last header that is named `authorization`, in any case. -/
def presentedBytes (headers : List (Bytes × Bytes)) : Option Bytes :=
  (headers.reverse.find? (fun h => (decodeUtf8 h.1).map (fun k => rt.lower (String.ofList k)) =
    some "authorization")).map Prod.snd

/-- The request bears the token: its last `authorization` header is `Bearer` and the token, byte for
byte, its headers are all UTF-8, and it is no GET and not for one of the two open paths. -/
def Bears (token : String) (scope : Scope) : Prop :=
  (scope.type = "http" ∧ scope.path ≠ "/healthz" ∧ scope.path ≠ "/metrics" ∧
    scope.method ≠ some "GET") ∧
  (∀ h ∈ scope.headers, (decodeUtf8 h.1).isSome ∧ (decodeUtf8 h.2).isSome) ∧
  token.toList.all (fun c => c.toNat < 128) ∧
  presentedBytes rt scope.headers = some (utf8 ("Bearer " ++ token).toList)

instance (token : String) (scope : Scope) : Decidable (Bears rt token scope) :=
  inferInstanceAs (Decidable (_ ∧ _))

end Machine

section Gate

variable {rt : Runtime} {svc : Service} {settings : IdentitySettings} {app : SdkApp}
  {token : String}

/-- A header that decodes, decoded. -/
def decodedHeader (h : Bytes × Bytes) : String × String :=
  (String.ofList ((decodeUtf8 h.1).getD []), String.ofList ((decodeUtf8 h.2).getD []))

theorem decodeHeaders_of_all {headers : List (Bytes × Bytes)}
    (h : ∀ x ∈ headers, (decodeUtf8 x.1).isSome ∧ (decodeUtf8 x.2).isSome) :
    decodeHeaders headers = some (headers.map decodedHeader) := by
  induction headers with
  | nil => rfl
  | cons x xs ih =>
    obtain ⟨hk, hv⟩ := h x List.mem_cons_self
    obtain ⟨k, hk⟩ := Option.isSome_iff_exists.mp hk
    obtain ⟨v, hv⟩ := Option.isSome_iff_exists.mp hv
    have hxs := ih (fun y hy => h y (List.mem_cons_of_mem x hy))
    unfold decodeHeaders at hxs ⊢
    rw [List.mapM_cons, hxs, hk, hv]
    simp [decodedHeader, hk, hv]

theorem all_of_decodeHeaders {headers : List (Bytes × Bytes)} {hs : List (String × String)}
    (h : decodeHeaders headers = some hs) :
    ∀ x ∈ headers, (decodeUtf8 x.1).isSome ∧ (decodeUtf8 x.2).isSome := by
  induction headers generalizing hs with
  | nil => exact fun x hx => absurd hx List.not_mem_nil
  | cons x xs ih =>
    unfold decodeHeaders at h
    rw [List.mapM_cons] at h
    cases hk : decodeUtf8 x.1 with
    | none =>
      rw [hk] at h
      cases h
    | some k =>
      cases hv : decodeUtf8 x.2 with
      | none =>
        rw [hk, hv] at h
        cases h
      | some v =>
        cases hrest : decodeHeaders xs with
        | none =>
          unfold decodeHeaders at hrest
          rw [hk, hv, hrest] at h
          cases h
        | some rest =>
          intro y hy
          rcases List.mem_cons.mp hy with rfl | hy
          · exact ⟨by rw [hk]; rfl, by rw [hv]; rfl⟩
          · exact ih hrest y hy

/-- Looking a name up among the decoded headers finds the value of the last header of that name. -/
theorem lookup_decoded {headers : List (Bytes × Bytes)} (name : String)
    (h : ∀ x ∈ headers, (decodeUtf8 x.1).isSome ∧ (decodeUtf8 x.2).isSome) :
    ((headers.map decodedHeader).map (fun x => (rt.lower x.1, x.2))).lookup name =
      ((headers.find? (fun x => (decodeUtf8 x.1).map (fun k => rt.lower (String.ofList k)) =
        some name)).map
        (fun x => (decodedHeader x).2)) := by
  induction headers with
  | nil => rfl
  | cons x xs ih =>
    obtain ⟨hk, -⟩ := h x List.mem_cons_self
    obtain ⟨k, hk⟩ := Option.isSome_iff_exists.mp hk
    have hname : (decodedHeader x).1 = String.ofList k := by rw [decodedHeader, hk]; rfl
    rw [List.map_cons, List.map_cons, List.lookup_cons, List.find?_cons, hk, hname, Option.map_some]
    by_cases hn : rt.lower (String.ofList k) = name
    · rw [hn]
      simp
    · rw [beq_false_of_ne (Ne.symm hn), decide_eq_false (fun he => hn (Option.some.inj he))]
      exact ih (fun y hy => h y (List.mem_cons_of_mem x hy))

/-- The bytes of the `authorization` header decide what the decoded headers say. -/
theorem headerValue_decoded {headers : List (Bytes × Bytes)} {value : String} (hvalue : value ≠ "")
    (h : ∀ x ∈ headers, (decodeUtf8 x.1).isSome ∧ (decodeUtf8 x.2).isSome) :
    headerValue rt (headers.map decodedHeader) "authorization" = value ↔
      presentedBytes rt headers = some (utf8 value.toList) := by
  have hrev : ∀ x ∈ headers.reverse, (decodeUtf8 x.1).isSome ∧ (decodeUtf8 x.2).isSome :=
    fun x hx => h x (List.mem_reverse.mp hx)
  unfold headerValue presentedBytes
  rw [← List.map_reverse, ← List.map_reverse, lookup_decoded "authorization" hrev]
  cases hfind : headers.reverse.find? (fun x =>
      (decodeUtf8 x.1).map (fun k => rt.lower (String.ofList k)) = some "authorization") with
  | none => exact iff_of_false (fun hv => hvalue hv.symm) (fun hn => nomatch hn)
  | some x =>
    obtain ⟨v, hv⟩ := Option.isSome_iff_exists.mp (hrev x (List.mem_of_find?_eq_some hfind)).2
    have hbytes := utf8_of_decodeUtf8 hv
    rw [Option.map_some, Option.getD_some, Option.map_some, decodedHeader, hv, Option.getD_some]
    constructor
    · rintro rfl
      rw [String.toList_ofList, hbytes]
    · intro hx
      have hv' := utf8_injective (hbytes.trans (Option.some.inj hx))
      rw [hv', String.ofList_toList]

theorem compareText_true {a b : String} :
    compareText a b = .ok true ↔ a = b ∧ b.toList.all (fun c => c.toNat < 128) = true := by
  unfold compareText
  split
  case isTrue h =>
    constructor
    · intro he
      exact ⟨of_decide_eq_true (Except.ok.inj he), h.2⟩
    · rintro ⟨rfl, -⟩
      rw [decide_eq_true rfl]
  case isFalse h =>
    refine iff_of_false (fun he => nomatch he) ?_
    rintro ⟨rfl, hb⟩
    exact h ⟨hb, hb⟩

theorem bearer_ne_empty (token : String) : "Bearer " ++ token ≠ "" := by
  intro h
  have hlen := congrArg String.length h
  rw [String.length_append] at hlen
  exact absurd hlen (by simp)

theorem ascii_bearer : ("Bearer " ++ token).toList.all (fun c => c.toNat < 128) =
    token.toList.all (fun c => c.toNat < 128) := by
  rw [String.toList_append, List.all_append]
  exact Bool.true_and _

/-- A request that bears the token reaches the application. -/
theorem edge_of_bears {r : Received} (hb : Bears rt token r.scope) (s : EdgeState) :
    edge rt svc settings app token r s = runApp rt svc settings app r s := by
  obtain ⟨⟨hhttp, hhealth, hmetrics, hget⟩, hdecodes, hascii, hbearer⟩ := hb
  unfold edge
  rw [if_neg (not_not_intro hhttp), if_neg hhealth, if_neg hmetrics, decodeHeaders_of_all hdecodes]
  have hcompare : compareText (headerValue rt (r.scope.headers.map decodedHeader) "authorization")
      ("Bearer " ++ token) = .ok true :=
    compareText_true.mpr ⟨(headerValue_decoded (bearer_ne_empty token) hdecodes).mpr hbearer,
      ascii_bearer.trans hascii⟩
  dsimp only
  by_cases ht : token = ""
  · rw [if_pos ht]
    exact if_neg hget
  · rw [if_neg ht, hcompare]
    exact if_neg hget

/-- Whatever does not bear the token leaves everything as it is, and no tool answers it. -/
theorem edge_of_not_bears (ht : token ≠ "") {r : Received} (hb : ¬ Bears rt token r.scope)
    (s : EdgeState) :
    (edge rt svc settings app token r s).2 = s ∧
    (edge rt svc settings app token r s).1.answers = [] := by
  by_cases hhttp : r.scope.type = "http"
  · unfold edge
    rw [if_neg (not_not_intro hhttp)]
    by_cases hhealth : r.scope.path = "/healthz"
    · rw [if_pos hhealth]
      exact ⟨rfl, rfl⟩
    by_cases hmetrics : r.scope.path = "/metrics"
    · rw [if_neg hhealth, if_pos hmetrics]
      exact ⟨rfl, rfl⟩
    rw [if_neg hhealth, if_neg hmetrics]
    cases hdecode : decodeHeaders r.scope.headers with
    | none => exact ⟨rfl, rfl⟩
    | some headers =>
      have hdecodes := all_of_decodeHeaders hdecode
      obtain rfl : r.scope.headers.map decodedHeader = headers :=
        Option.some.inj ((decodeHeaders_of_all hdecodes).symm.trans hdecode)
      dsimp only
      rw [if_neg ht]
      cases hcompare : compareText
        (headerValue rt (r.scope.headers.map decodedHeader) "authorization")
          ("Bearer " ++ token) with
      | error e => exact ⟨rfl, rfl⟩
      | ok same =>
        cases same with
        | false => exact ⟨rfl, rfl⟩
        | true =>
          dsimp only
          by_cases hget : r.scope.method = some "GET"
          · rw [if_pos hget]
            exact ⟨rfl, rfl⟩
          · obtain ⟨hvalue, hascii⟩ := compareText_true.mp hcompare
            exact absurd ⟨⟨hhttp, hhealth, hmetrics, hget⟩, hdecodes,
              ascii_bearer.symm.trans hascii,
              (headerValue_decoded (bearer_ne_empty token) hdecodes).mp hvalue⟩ hb
  · unfold edge
    rw [if_pos hhttp, runApp, app.httpOnly r.scope r.body hhttp]
    exact ⟨rfl, rfl⟩

end Gate

/-! ## What a tool call may do -/

section Calls

variable (rt : Runtime)

/-- The user that an identity names, among the users a call read. -/
def UserNamed (named : String) (users : Except PyError (List User)) (u : User) : Prop :=
  ∃ us, users = .ok us ∧ findUser rt us (requesterKey rt named) = some u ∧ u.active = true

/-- The row was filed by the user that the identity names, an analyst. -/
def FiledAs (named : String) (users : Except PyError (List User)) (row : Row) : Prop :=
  ∃ u, UserNamed rt named users u ∧ ANALYST_GROUP ∈ u.groups ∧ row.requester = u.upn

/-- The record is of the user that the identity names, or says nobody or just the identity. -/
def RecordedAs (named : String) (users : Except PyError (List User)) (entry : Entry) : Prop :=
  (entry.outcome = "ok" → ∃ u, UserNamed rt named users u ∧ entry.requester = u.upn) ∧
  (entry.outcome ≠ "ok" → entry.requester = "" ∨ entry.requester = named)

variable {rt} {svc : Service} {settings : IdentitySettings} {headers : List (String × String)}
  {draw : CallDraw} {c : String × ServiceCall} {s : EdgeState}

theorem outcome_ne_ok (code : ErrorCode) : code.outcome ≠ "ok" := by
  cases code <;> decide

theorem authorise_of_admit {us : List User} {l limiter : TokenBucketLimiter}
    {t : ToolCall} {u : User} (h : admitUser rt us l t = (.ok u, limiter)) :
    authorise rt us t.requester t.group = .ok u := by
  unfold admitUser at h
  cases hauth : authorise rt us t.requester t.group with
  | error e =>
    rw [hauth] at h
    cases h
  | ok v =>
    rw [hauth] at h
    have hfst : (l.check v.upn t.now).1.map (fun _ => v) = .ok u := congrArg Prod.fst h
    cases hcheck : (l.check v.upn t.now).1 with
    | error e =>
      rw [hcheck] at hfst
      cases hfst
    | ok _ =>
      rw [hcheck] at hfst
      cases hfst
      rfl

/-- **One tool call in header mode**: a new row is the named user's, an analyst's; a record is of
the user, or of whoever was refused. -/
theorem callTool_acts (hlower : rt.lower "" = "") (hmode : settings.mode = .header) :
    (∀ row ∈ (callTool rt svc settings headers draw c s).2.service.rows, row ∈ s.service.rows ∨
      FiledAs rt (namedInHeader rt settings headers) draw.users row) ∧
    ∃ news, (callTool rt svc settings headers draw c s).2.service.records =
      s.service.records ++ news ∧
      ∀ entry ∈ news, RecordedAs rt (namedInHeader rt settings headers) draw.users entry := by
  have hkept : ∀ row ∈ s.service.rows, row ∈ s.service.rows ∨
      FiledAs rt (namedInHeader rt settings headers) draw.users row := fun row hrow => Or.inl hrow
  have hwho := @callerIdentity_header rt settings hmode headers c.1
  -- a refusal is recorded under the identity that was presented
  have hrefused : ∀ v e limiter, (∀ row ∈ (refuse (c.2.method rt svc draw.env)
        (callerIdentity rt settings headers c.1) v { s.service with limiter } e).2.rows,
      row ∈ s.service.rows ∨ FiledAs rt (namedInHeader rt settings headers) draw.users row) ∧
      ∃ news, (refuse (c.2.method rt svc draw.env) (callerIdentity rt settings headers c.1) v
        { s.service with limiter } e).2.records = s.service.records ++ news ∧
        ∀ entry ∈ news, RecordedAs rt (namedInHeader rt settings headers) draw.users entry := by
    intro v e limiter
    obtain ⟨entry, hrec, hout, hreq⟩ := @records_refuse (c.2.method rt svc draw.env)
      (callerIdentity rt settings headers c.1) { s.service with limiter } v e
    refine ⟨hkept, [entry], hrec, fun x hx => ?_⟩
    rw [List.mem_singleton.mp hx]
    refine ⟨fun hok => absurd (hout.symm.trans hok) (outcome_ne_ok _), fun _ => ?_⟩
    rw [hreq]
    exact hwho
  rcases @audited_cases rt (c.2.method rt svc draw.env) draw.version draw.users draw.now
      (callerIdentity rt settings headers c.1) s.service with
    ⟨e, -, h⟩ | ⟨v, e, -, -, h⟩ | ⟨v, us, e, limiter, -, -, -, h⟩ |
      ⟨v, us, u, limiter, -, hus, hadmit, h⟩
  -- the version cannot be read: nothing is recorded
  · refine ⟨fun row hrow => ?_, [], ?_, fun x hx => absurd hx List.not_mem_nil⟩
    · rw [callTool, h] at hrow
      exact hkept row hrow
    · rw [callTool, h, List.append_nil]
  · rw [callTool, h]
    exact hrefused v e s.service.limiter
  · rw [callTool, h]
    exact hrefused v e limiter
  obtain ⟨e, -, h⟩ | ⟨r, rows, hbody, h⟩ := h
  · rw [callTool, h]
    exact hrefused v e limiter
  -- an admitted call runs as the user that the header names
  have hauth := authorise_of_admit hadmit
  have hnamed : UserNamed rt (namedInHeader rt settings headers) draw.users u := by
    rcases hwho with hq | hq
    · rw [hq] at hauth
      cases (authorise_nobody hlower _).symm.trans hauth
    · rw [hq] at hauth
      obtain ⟨hfind, hactive⟩ := resolve_ok (authorise_ok hauth)
      exact ⟨us, hus, hfind, hactive⟩
  rw [callTool, h]
  refine ⟨fun row hrow => ?_, _, rfl, fun x hx => ?_⟩
  · rcases ownRows_method svc draw.env c.2 u r rows hbody row hrow with hrow | hreq
    · exact Or.inl hrow
    -- only `draft_create` adds rows, and it asks for the group of analysts
    cases hc : c.2 with
    | read call =>
      have hread : readRows rt svc draw.env call s.service.rows = .ok (r, rows) := by
        rw [hc] at hbody
        exact hbody
      rw [rows_of_readRows hread] at hrow
      exact Or.inl hrow
    | draftCreate a =>
      refine Or.inr ⟨u, hnamed, ?_, hreq⟩
      rw [hc] at hauth
      exact (requireGroup_ok hauth).2
  · rw [List.mem_singleton.mp hx]
    exact ⟨fun _ => ⟨u, hnamed, rfl⟩, fun hno => absurd rfl hno⟩

/-- The tool calls of one request: the induction is on the calls, each with a draw of its own. -/
theorem callTools_acts (hlower : rt.lower "" = "") (hmode : settings.mode = .header)
    {draw : Nat → CallDraw} (cs : List (String × ServiceCall)) : ∀ (i : Nat) (s : EdgeState),
    (∀ row ∈ (callTools rt svc settings headers draw i cs s).2.service.rows, row ∈ s.service.rows ∨
      ∃ j, FiledAs rt (namedInHeader rt settings headers) (draw j).users row) ∧
    ∃ news, (callTools rt svc settings headers draw i cs s).2.service.records =
      s.service.records ++ news ∧
      ∀ entry ∈ news, ∃ j, RecordedAs rt (namedInHeader rt settings headers)
        (draw j).users entry := by
  induction cs with
  | nil =>
    exact fun i s => ⟨fun row hrow => Or.inl hrow, [], (List.append_nil _).symm,
      fun x hx => absurd hx List.not_mem_nil⟩
  | cons c cs ih =>
    intro i s
    obtain ⟨hrows, news, hnews, hrecs⟩ :=
      @callTool_acts rt svc settings headers (draw i) c s hlower hmode
    obtain ⟨hrows', news', hnews', hrecs'⟩ :=
      ih (i + 1) (callTool rt svc settings headers (draw i) c s).2
    refine ⟨fun row hrow => ?_, news ++ news', ?_, fun entry hentry => ?_⟩
    · rcases hrows' row hrow with hrow | hfiled
      · rcases hrows row hrow with hrow | hfiled
        · exact Or.inl hrow
        · exact Or.inr ⟨i, hfiled⟩
      · exact Or.inr hfiled
    · rw [← List.append_assoc, ← hnews]
      exact hnews'
    · rcases List.mem_append.mp hentry with h | h
      · exact ⟨i, hrecs entry h⟩
      · exact hrecs' entry h

end Calls

/-! ## Runs of requests -/

/-- What a run of requests owes to those that bear the token. -/
structure OnlyBearersAct (rt : Runtime) (svc : Service) (settings : IdentitySettings) (app : SdkApp)
    (token : String) (s : EdgeState) (rs : List Received) : Prop where
  erasable : afterRequests rt svc settings app token s rs =
    afterRequests rt svc settings app token s (rs.filter (fun r => Bears rt token r.scope))
  replies_kept : (replies rt svc settings app token s rs).filter
    (fun p => Bears rt token p.1.scope) =
    replies rt svc settings app token s (rs.filter (fun r => Bears rt token r.scope))
  refused : ∀ p ∈ replies rt svc settings app token s rs, ¬ Bears rt token p.1.scope →
    p.2.answers = []
  filed : settings.mode = .header →
    ∀ row ∈ (afterRequests rt svc settings app token s rs).service.rows, row ∈ s.service.rows ∨
    ∃ r ∈ rs, Bears rt token r.scope ∧
      ∃ j, FiledAs rt (namedInHeader rt settings (app.context r.scope.headers)) (r.draw j).users row
  recorded : settings.mode = .header → ∃ news,
    (afterRequests rt svc settings app token s rs).service.records = s.service.records ++ news ∧
    ∀ entry ∈ news, ∃ r ∈ rs, Bears rt token r.scope ∧
      ∃ j, RecordedAs rt (namedInHeader rt settings (app.context r.scope.headers))
        (r.draw j).users entry

section Runs

variable {rt : Runtime} {svc : Service} {settings : IdentitySettings} {app : SdkApp}
  {token : String}

theorem OnlyBearersAct.nil (s : EdgeState) : OnlyBearersAct rt svc settings app token s [] where
  erasable := rfl
  replies_kept := rfl
  refused := fun _ hp => absurd hp List.not_mem_nil
  filed := fun _ _ hrow => Or.inl hrow
  recorded := fun _ => ⟨[], (List.append_nil _).symm, fun _ hx => absurd hx List.not_mem_nil⟩

/-- A request that does not bear the token changes nothing in what holds of those after it. -/
theorem OnlyBearersAct.refuse (ht : token ≠ "") {r : Received} (hb : ¬ Bears rt token r.scope)
    {s : EdgeState} {rs : List Received} (h : OnlyBearersAct rt svc settings app token s rs) :
    OnlyBearersAct rt svc settings app token s (r :: rs) := by
  obtain ⟨hstate, hanswers⟩ := @edge_of_not_bears rt svc settings app token ht r hb s
  have hfilter : (r :: rs).filter (fun r => Bears rt token r.scope) =
      rs.filter (fun r => Bears rt token r.scope) :=
    List.filter_cons_of_neg (by rwa [decide_eq_true_eq])
  have hafter : afterRequests rt svc settings app token s (r :: rs) =
      afterRequests rt svc settings app token s rs :=
    congrArg (fun s => afterRequests rt svc settings app token s rs) hstate
  have hreplies : replies rt svc settings app token s (r :: rs) =
      (r, (edge rt svc settings app token r s).1) :: replies rt svc settings app token s rs := by
    rw [replies, hstate]
  constructor
  case erasable => rw [hafter, hfilter, h.erasable]
  case replies_kept =>
    rw [hreplies, hfilter, List.filter_cons_of_neg (by rwa [decide_eq_true_eq])]
    exact h.replies_kept
  case refused =>
    intro p hp hnot
    rw [hreplies] at hp
    rcases List.mem_cons.mp hp with rfl | hp
    · exact hanswers
    · exact h.refused p hp hnot
  case filed =>
    intro hmode row hrow
    rw [hafter] at hrow
    rcases h.filed hmode row hrow with hrow | ⟨r', hr', hfiled⟩
    · exact Or.inl hrow
    · exact Or.inr ⟨r', List.mem_cons_of_mem r hr', hfiled⟩
  case recorded =>
    intro hmode
    obtain ⟨news, hnews, hrecs⟩ := h.recorded hmode
    rw [hafter]
    refine ⟨news, hnews, fun entry hentry => ?_⟩
    obtain ⟨r', hr', hrec⟩ := hrecs entry hentry
    exact ⟨r', List.mem_cons_of_mem r hr', hrec⟩

/-- A request that bears the token acts for the user that its identity header names. -/
theorem OnlyBearersAct.serve (hlower : rt.lower "" = "") {r : Received}
    (hb : Bears rt token r.scope) {s : EdgeState} {rs : List Received}
    (h : OnlyBearersAct rt svc settings app token (edge rt svc settings app token r s).2 rs) :
    OnlyBearersAct rt svc settings app token s (r :: rs) := by
  have hfilter : (r :: rs).filter (fun r => Bears rt token r.scope) =
      r :: rs.filter (fun r => Bears rt token r.scope) :=
    List.filter_cons_of_pos (by rwa [decide_eq_true_eq])
  have hacts := fun hmode =>
    @callTools_acts rt svc settings (app.context r.scope.headers) hlower hmode r.draw
    (app.calls r.scope r.body) 0 s
  have hserved : (edge rt svc settings app token r s).2 = (callTools rt svc settings
      (app.context r.scope.headers) r.draw 0 (app.calls r.scope r.body) s).2 :=
    congrArg Prod.snd (edge_of_bears hb s)
  constructor
  case erasable =>
    rw [hfilter]
    exact h.erasable
  case replies_kept =>
    rw [hfilter, replies, List.filter_cons_of_pos (by rwa [decide_eq_true_eq]),
      h.replies_kept, replies]
  case refused =>
    intro p hp hnot
    rcases List.mem_cons.mp hp with rfl | hp
    · exact absurd hb hnot
    · exact h.refused p hp hnot
  case filed =>
    intro hmode row hrow
    rcases h.filed hmode row hrow with hrow | ⟨r', hr', hfiled⟩
    · rw [hserved] at hrow
      rcases (hacts hmode).1 row hrow with hrow | hfiled
      · exact Or.inl hrow
      · exact Or.inr ⟨r, List.mem_cons_self, hb, hfiled⟩
    · exact Or.inr ⟨r', List.mem_cons_of_mem r hr', hfiled⟩
  case recorded =>
    intro hmode
    obtain ⟨-, news, hnews, hrecs⟩ := hacts hmode
    obtain ⟨news', hnews', hrecs'⟩ := h.recorded hmode
    refine ⟨news ++ news', ?_, fun entry hentry => ?_⟩
    · rw [← List.append_assoc, ← hnews, ← hserved]
      exact hnews'
    · rcases List.mem_append.mp hentry with hentry | hentry
      · exact ⟨r, List.mem_cons_self, hb, hrecs entry hentry⟩
      · obtain ⟨r', hr', hrec⟩ := hrecs' entry hentry
        exact ⟨r', List.mem_cons_of_mem r hr', hrec⟩

end Runs

/-- **Only what bears the token acts, and only as the user its identity header names.**  With a
token set, for every application behind the edge and every run of requests: striking the requests
that do not bear the token leaves the state and the replies to the others as they are, and no tool
answers these; in header mode every draft and every `ok` record of the run is the user's that such
a request names. -/
theorem only_bearers_act (rt : Runtime) (hlower : rt.lower "" = "") (svc : Service)
    (settings : IdentitySettings) (app : SdkApp) (token : String) (ht : token ≠ "") (s : EdgeState)
    (rs : List Received) : OnlyBearersAct rt svc settings app token s rs := by
  induction rs generalizing s with
  | nil => exact OnlyBearersAct.nil s
  | cons r rs ih =>
    by_cases hb : Bears rt token r.scope
    · exact OnlyBearersAct.serve hlower hb (ih (edge rt svc settings app token r s).2)
    · exact OnlyBearersAct.refuse ht hb (ih s)

/-- A server with a token, in header mode, behind which every body is a call of `policy_list`. -/
def sampleApp : SdkApp where
  context := fun headers => (decodeHeaders headers).getD []
  calls := fun scope _ => if scope.type = "http" then [("", .read .policyList)] else []
  httpOnly := fun _ _ h => if_neg h

/-- A POST with these headers. -/
def samplePost (headers : List (String × String)) : Received where
  scope := ⟨"http", "/mcp", some "POST", headers.map (fun h => (utf8 h.1.toList, utf8 h.2.toList))⟩
  body := []
  draw := fun _ => ⟨.ok "v1", .ok [sampleCaller], 0, sampleSurroundings⟩

example : Bears Runtime.python "t" (samplePost [("Authorization", "Bearer t")]).scope ∧
    ¬ Bears Runtime.python "t"
      (samplePost [("Authorization", "Bearer t"), ("authorization", "Bearer")]).scope := by
  decide

theorem only_bearers_act_sample :
    OnlyBearersAct Runtime.python sampleService sampleIdentity sampleApp "t"
    ⟨⟨.new 120 none, [], []⟩, fun _ _ => 0⟩
    [samplePost [("Authorization", "Bearer t"), ("X-Requester", "priya@example-am.com")],
      samplePost []] :=
  only_bearers_act Runtime.python rfl sampleService sampleIdentity sampleApp "t" (by decide) _ _

/-! ## The counters and the log -/

/-- The labels of the calls that are recorded with an outcome. -/
def outcomeLabels (outcome : String) : List String :=
  if outcome = "ok" then ["ok"]
  else ([ErrorCode.accessDenied, .rateLimited, .invalidInput, .draftRejected, .notFound,
    .internalError].filter (fun code => code.outcome = outcome)).map ErrorCode.value

/-- The calls of a tool that are counted under the labels of an outcome. -/
def countedAs (calls : String → String → Nat) (tool outcome : String) : Nat :=
  ((outcomeLabels outcome).map (calls tool)).sum

/-- Every tool has as many records of each outcome as calls that are counted under its labels. -/
def Reconciles (s : EdgeState) : Prop :=
  ∀ tool, ∀ outcome ∈ ["ok", "denied", "error"], countedAs s.calls tool outcome =
    s.service.records.countP (fun entry => entry.tool = tool ∧ entry.outcome = outcome)

section Counters

variable {rt : Runtime} {svc : Service} {settings : IdentitySettings} {app : SdkApp}
  {token : String}

/-- A label goes with one outcome, once. -/
theorem count_outcomeLabels :
    ∀ recorded ∈ ["ok", "denied", "error"], ∀ label ∈ outcomeLabels recorded,
    ∀ outcome ∈ ["ok", "denied", "error"],
      (outcomeLabels outcome).count label = if recorded = outcome then 1 else 0 := by
  decide

theorem sum_counted (calls : String → String → Nat) (tool label t : String) (ls : List String) :
    (ls.map (fun l => if t = tool ∧ l = label then calls t l + 1 else calls t l)).sum =
      (ls.map (calls t)).sum + if t = tool then ls.count label else 0 := by
  induction ls with
  | nil => simp
  | cons l ls ih =>
    rw [List.map_cons, List.sum_cons, ih, List.map_cons, List.sum_cons, List.count_cons]
    by_cases ht : t = tool <;> by_cases hl : l = label <;> simp [ht, hl]
    all_goals omega

/-- One call is counted under a label of the outcome it is recorded with. -/
theorem callTool_books (headers : List (String × String)) (draw : CallDraw)
    (c : String × ServiceCall) (s : EdgeState) :
    ((callTool rt svc settings headers draw c s).2.service.records = s.service.records ∧
      (callTool rt svc settings headers draw c s).2.calls = s.calls) ∨
    ∃ entry label, (callTool rt svc settings headers draw c s).2.service.records =
      s.service.records ++ [entry] ∧
      entry.tool = c.2.tool ∧ entry.outcome ∈ ["ok", "denied", "error"] ∧
      label ∈ outcomeLabels entry.outcome ∧
      (callTool rt svc settings headers draw c s).2.calls =
        fun t l => if t = c.2.tool ∧ l = label then s.calls t l + 1 else s.calls t l := by
  have hcounted : ∀ answer : Answer, ∀ label, answer.label = some label →
    counted s.calls c.2.tool answer =
      fun t l => if t = c.2.tool ∧ l = label then s.calls t l + 1 else s.calls t l := by
    intro answer label h
    unfold counted
    rw [h]
    simp only [Option.some.injEq]
  have hrefused : ∀ v e limiter, ∃ entry label, (refuse (c.2.method rt svc draw.env)
      (callerIdentity rt settings headers c.1) v { s.service with limiter } e).2.records =
        s.service.records ++ [entry] ∧ entry.tool = c.2.tool ∧
        entry.outcome ∈ ["ok", "denied", "error"] ∧
      label ∈ outcomeLabels entry.outcome ∧
      counted s.calls c.2.tool (refuse (c.2.method rt svc draw.env)
        (callerIdentity rt settings headers c.1) v { s.service with limiter } e).1 =
        fun t l => if t = c.2.tool ∧ l = label then s.calls t l + 1 else s.calls t l := by
    intro v e limiter
    refine ⟨_, (refusal e).code.value, rfl, rfl, ?_, ?_, hcounted _ _ rfl⟩
    · show (refusal e).outcome ∈ _
      rw [refusal_outcome]
      cases (refusal e).code <;> decide
    · show _ ∈ outcomeLabels (refusal e).outcome
      rw [refusal_outcome]
      cases (refusal e).code <;> decide
  rcases @audited_cases rt (c.2.method rt svc draw.env) draw.version draw.users draw.now
      (callerIdentity rt settings headers c.1) s.service with
    ⟨e, -, h⟩ | ⟨v, e, -, -, h⟩ | ⟨v, us, e, limiter, -, -, -, h⟩ | ⟨v, us, u, limiter, -, -, -, h⟩
  · left
    rw [callTool, h]
    refine ⟨rfl, ?_⟩
    show counted s.calls c.2.tool (.raised e) = s.calls
    unfold counted
    simp [Answer.label]
  · right
    rw [callTool, h]
    exact hrefused v e s.service.limiter
  · right
    rw [callTool, h]
    exact hrefused v e limiter
  · right
    obtain ⟨e, -, h⟩ | ⟨r, rows, -, h⟩ := h
    · rw [callTool, h]
      exact hrefused v e limiter
    · rw [callTool, h]
      have hlabel : "ok" ∈ outcomeLabels "ok" := by decide
      exact ⟨_, "ok", rfl, rfl, List.mem_cons_self, hlabel, hcounted _ _ rfl⟩

theorem Reconciles.callTool {headers : List (String × String)} {draw : CallDraw}
    {c : String × ServiceCall} {s : EdgeState} (h : Reconciles s) :
    Reconciles (callTool rt svc settings headers draw c s).2 := by
  intro tool outcome ho
  rcases @callTool_books rt svc settings headers draw c s with
    ⟨hrecords, hcalls⟩ | ⟨entry, label, hrecords, htool, hentry, hlabel, hcalls⟩
  · rw [hrecords, hcalls]
    exact h tool outcome ho
  · have hstep := sum_counted s.calls c.2.tool label tool (outcomeLabels outcome)
    rw [count_outcomeLabels entry.outcome hentry label hlabel outcome ho] at hstep
    have hbefore := h tool outcome ho
    unfold countedAs at hbefore
    rw [hrecords, hcalls, countedAs, hstep, hbefore, List.countP_append,
      List.countP_singleton, htool]
    by_cases ht : tool = c.2.tool
    · rw [if_pos ht, ht]
      simp
    · rw [if_neg ht, if_neg (by simpa using fun he => absurd he.symm ht)]

theorem Reconciles.callTools {headers : List (String × String)} {draw : Nat → CallDraw}
    (cs : List (String × ServiceCall)) : ∀ (i : Nat) (s : EdgeState), Reconciles s →
      Reconciles (callTools rt svc settings headers draw i cs s).2 := by
  induction cs with
  | nil => exact fun _ _ h => h
  | cons c cs ih => exact fun i s h => ih (i + 1) _ (h.callTool)

/-- A request either reaches the application or changes nothing. -/
theorem edge_cases (token : String) (r : Received) (s : EdgeState) :
    (edge rt svc settings app token r s).2 = (runApp rt svc settings app r s).2 ∨
      (edge rt svc settings app token r s).2 = s := by
  unfold edge
  split
  · exact Or.inl rfl
  split
  · exact Or.inr rfl
  split
  · exact Or.inr rfl
  split
  · exact Or.inr rfl
  split
  · exact Or.inr rfl
  · exact Or.inr rfl
  split
  · exact Or.inr rfl
  · exact Or.inl rfl

theorem Reconciles.edge {r : Received} {s : EdgeState} (h : Reconciles s) :
    Reconciles (edge rt svc settings app token r s).2 := by
  rcases edge_cases token r s with he | he
  · rw [he]
    exact Reconciles.callTools _ 0 s h
  · rw [he]
    exact h

theorem Reconciles.afterRequests (rs : List Received) : ∀ s : EdgeState, Reconciles s →
    Reconciles (afterRequests rt svc settings app token s rs) := by
  induction rs with
  | nil => exact fun _ h => h
  | cons r rs ih => exact fun s h => ih _ h.edge

end Counters

/-- **What `/metrics` shows is what the log says.**  However the server is configured and whatever
has been requested since it started, the scrape needs no token and gives, for every tool, as many
calls under the labels of an outcome as there are records of the tool with that outcome. -/
theorem metrics_reconcile (rt : Runtime) (svc : Service) (settings : IdentitySettings)
    (app : SdkApp) (token : String) (limiter : TokenBucketLimiter) (rows : List Row)
    (rs : List Received) (r : Received) (hhttp : r.scope.type = "http")
    (hpath : r.scope.path = "/metrics") :
    ∃ calls, edge rt svc settings app token r
        (afterRequests rt svc settings app token ⟨⟨limiter, rows, []⟩, fun _ _ => 0⟩ rs) =
      (.metrics calls, afterRequests rt svc settings app token
        ⟨⟨limiter, rows, []⟩, fun _ _ => 0⟩ rs) ∧
      ∀ tool, ∀ outcome ∈ ["ok", "denied", "error"], countedAs calls tool outcome =
        (afterRequests rt svc settings app token ⟨⟨limiter, rows, []⟩, fun _ _ =>
          0⟩ rs).service.records.countP
          (fun entry => entry.tool = tool ∧ entry.outcome = outcome) := by
  have hstart : Reconciles ⟨⟨limiter, rows, []⟩, fun _ _ => 0⟩ := by
    intro tool outcome _
    rw [countedAs, List.countP_nil]
    exact List.sum_eq_zero (fun n hn => by obtain ⟨l, -, rfl⟩ := List.mem_map.mp hn; rfl)
  refine ⟨_, ?_, hstart.afterRequests rs⟩
  unfold edge
  rw [if_neg (not_not_intro hhttp), hpath, if_neg (by decide), if_pos rfl]

/-- A scrape after a call. -/
theorem metrics_reconcile_sample :
    ∃ calls, edge Runtime.python sampleService sampleIdentity sampleApp "t"
      ⟨⟨"http", "/metrics", some "GET", []⟩, [], (samplePost []).draw⟩
      (afterRequests Runtime.python sampleService sampleIdentity sampleApp "t"
        ⟨⟨.new 120 none, [], []⟩, fun _ _ => 0⟩ [samplePost [("Authorization", "Bearer t")]]) =
    (.metrics calls, afterRequests Runtime.python sampleService sampleIdentity sampleApp "t"
        ⟨⟨.new 120 none, [], []⟩, fun _ _ => 0⟩ [samplePost [("Authorization", "Bearer t")]]) ∧
    ∀ tool, ∀ outcome ∈ ["ok", "denied", "error"], countedAs calls tool outcome =
      (afterRequests Runtime.python sampleService sampleIdentity sampleApp "t"
        ⟨⟨.new 120 none, [], []⟩, fun _ _ => 0⟩
        [samplePost [("Authorization", "Bearer t")]]).service.records.countP
        (fun entry => entry.tool = tool ∧ entry.outcome = outcome) :=
  metrics_reconcile Runtime.python sampleService sampleIdentity sampleApp "t" _ [] _ _ rfl rfl

end ComplianceMcp
