import ComplianceMcp.ServiceCalls
import ComplianceMcp.DraftQuotes
import ComplianceMcp.AuditSequence

/-! # What a record says of a draft's body

The record of a `draft_create` keeps the body's hash instead of the body.  A refusal is recorded
with its message, and the message of one content rule lists every quote that could not be
verified, which is text of the body.  Two bodies that end a call the same way therefore leave
the same record but for the hash, unless they are refused for different quotes. -/
namespace ComplianceMcp

open PyText PyJson

/-! ## Content rules -/

/-- The rule a draft breaks first. -/
inductive ContentRule where
  | noTable
  | noRelease
  | notVerbatim (failing : Nat)
  | untitled
  | uncited
  | unknownControl
  | otherHash
  deriving DecidableEq

/-- The quotes that are in no release the draft names. -/
def unverified (data : Systems) (a : DraftArgs) : List Text :=
  (extracted a.body.toList).filter (fun q => !(corpus a.relatedIds data.release).any
    (fun t => contains t q))

variable (rt : Runtime)

/-- Why the content of the draft is refused, if it is. -/
def brokenRule (alnum : Char → Bool) (data : Systems) (a : DraftArgs) : Option ContentRule :=
  match a.kind with
  | .policyMapping =>
    if extracted a.body.toList = [] then some .noTable
    else if corpus a.relatedIds data.release = [] then some .noRelease
    else if unverified data a = [] then none
    else some (.notVerbatim (unverified data a).length)
  | .evidencePackIndex =>
    match periodFromTitle a.title with
    | none => some .untitled
    | some (c, s, e) =>
      if findHashes alnum false 0 a.body.toList = [] then some .uncited
      else match recomputeHash rt data c s e with
        | .error _ => none
        | .ok none => some .unknownControl
        | .ok (some actual) =>
          if (findHashes alnum false 0 a.body.toList).contains actual.toList then
            none else some .otherHash
  | _ => none

/-- The quotes as a message lists them, each cut at 80 characters. -/
def listedQuotes (missing : List Text) : String := String.intercalate "; " (missing.map abridged)

/-- What stands before the list. -/
def verbatimLead (failing : Nat) : String :=
  toString failing ++ " quote(s) are not verbatim from the related release(s): "

/-- The control and the period of a title, as a message gives them. -/
def titlePeriod (title : String) : String :=
  match periodFromTitle title with
  | none => ""
  | some (c, s, e) => c ++ " " ++ s ++ ".." ++ e

/-- The message of a rule: it takes from the draft its title and, for one rule, its quotes. -/
def ContentRule.message (title listing : String) : ContentRule → String
  | .noTable =>
    "policy_mapping draft has no obligations table with quoted text (| # | type | \"quote\" | ...)"
  | .noRelease => "related_ids must include at least one known release id so quotes can be verified"
  | .notVerbatim failing => verbatimLead failing ++ listing
  | .untitled => "evidence_pack_index title must be 'Evidence index <control_id> <start>..<end>'"
  | .uncited => "evidence_pack_index body must cite the manifest SHA-256 from evidence_bundle"
  | .unknownControl => "cannot recompute evidence for " ++ titlePeriod title
  | .otherHash =>
    "cited manifest hash does not match the evidence bundle for this control and period; re-run evidence_bundle"

theorem message_unknownControl (title listing : String) :
    ContentRule.unknownControl.message title listing =
    "cannot recompute evidence for " ++ titlePeriod title :=
  rfl

theorem titlePeriod_some {title c s e : String} (h : periodFromTitle title = some (c, s, e)) :
    titlePeriod title = c ++ " " ++ s ++ ".." ++ e := by
  simp only [titlePeriod, h]

/-! ## Endings -/

inductive Ending where
  | accepted
  | refused (code : ErrorCode) (rule : Option ContentRule)

/-- How a call for a draft ended, `none` where it raised. -/
def endingOf (rule : Option ContentRule) : Answer → Option Ending
  | .result _ => some .accepted
  | .toolError code _ => some (.refused code (if code = .draftRejected then rule else none))
  | .raised _ => none

/-! ## Records -/

/-- The fields of a record that are generated, and the two that are compared on their own. -/
def apart : List String :=
  ["id", "seq", "ts", "prev_hash", "hash", "mac", "args", "result_summary"]

/-- Two records differ at most in the hash of the body, the generated fields and the id of the
draft in the summary. -/
structure AgreeButHash (kind : DraftKind) (r r' : Dict) : Prop where
  fields : ∀ k, k ∉ apart → Json.get r k = Json.get r' k
  args : ∃ a a', Json.get r "args" = some (.obj a) ∧ Json.get r' "args" = some (.obj a') ∧
    Json.without a ["body_sha256"] = Json.without a' ["body_sha256"]
  summary : Json.get r "result_summary" = Json.get r' "result_summary" ∨ ∃ id id',
    Json.get r "result_summary" = some (.str (takeChars 2000 (queuedSummary id kind))) ∧
    Json.get r' "result_summary" = some (.str (takeChars 2000 (queuedSummary id' kind)))

/-- The quotes two bodies are refused for are listed the same way as far as the summary of a
record reaches. -/
def SameListing (failing : Nat) (missing missing' : List Text) : Prop :=
  let reach := 2000 - ("draft_rejected: " ++ verbatimLead failing).toList.length
  (listedQuotes missing).toList.take reach = (listedQuotes missing').toList.take reach

/-! ## What two records have in common -/

section Records

variable {rt}

/-- Two entries that differ at most in the body's hash and in the summary leave records that
differ at most there. -/
theorem agreeButHash_iff {log : AuditLog} {e e' : Entry} {kind : DraftKind} {a a' : DraftArgs}
    (hargs : e.args = draftAuditArgs rt a) (hargs' : e'.args = draftAuditArgs rt a')
    (hsame : a' = { a with body := a'.body }) (hreq : e.requester = e'.requester)
    (htool : e.tool = e'.tool) (hout : e.outcome = e'.outcome) (hsess : e.sessionId = e'.sessionId)
    (hver : e.directoryVersion = e'.directoryVersion) (st st' : Stamp) (n n' prev prev' : Json) :
    AgreeButHash kind (sealed rt log.hmacKey (recordBody rt log e st n prev))
        (sealed rt log.hmacKey (recordBody rt log e' st' n' prev')) ↔
      takeChars 2000 e.resultSummary = takeChars 2000 e'.resultSummary ∨ ∃ id id',
        takeChars 2000 e.resultSummary = takeChars 2000 (queuedSummary id kind) ∧
        takeChars 2000 e'.resultSummary = takeChars 2000 (queuedSummary id' kind) := by
  have hsummary : ∀ (e : Entry) (st : Stamp) (n prev : Json),
      Json.get (sealed rt log.hmacKey (recordBody rt log e st n prev)) "result_summary" =
        some (.str (takeChars 2000 e.resultSummary)) := by
    intro e st n prev
    rw [get_sealed rt _ (by decide) (by decide)]
    rfl
  have hpersisted : ∀ (e : Entry) (st : Stamp) (n prev : Json),
      Json.get (sealed rt log.hmacKey (recordBody rt log e st n prev)) "args" =
        some (.obj (redact rt e.args)) := by
    intro e st n prev
    rw [get_sealed rt _ (by decide) (by decide)]
    rfl
  constructor
  · intro h
    have hs := h.summary
    simpa only [hsummary, Option.some.injEq, Json.str.injEq] using hs
  · intro h
    constructor
    case fields =>
      intro k hk
      simp only [apart, List.mem_cons, List.not_mem_nil, or_false, not_or] at hk
      obtain ⟨hid, hseq, hts, hprev, hhash, hmac, ha, hs⟩ := hk
      rw [get_sealed rt _ hhash hmac, get_sealed rt _ hhash hmac]
      simp only [recordBody, Json.get, List.lookup_cons, beq_false_of_ne hid, beq_false_of_ne hseq,
        beq_false_of_ne hts, beq_false_of_ne hprev, beq_false_of_ne ha, beq_false_of_ne hs,
        hreq, htool, hout, hsess, hver]
    case args =>
      refine ⟨_, _, hpersisted e st n prev, hpersisted e' st' n' prev', ?_⟩
      rw [hargs, hargs', hsame]
      simp [draftAuditArgs, redact, Json.without]
    case summary => simpa only [hsummary, Option.some.injEq, Json.str.injEq] using h

theorem takeChars_eq_iff {n : Nat} {s s' : String} :
    takeChars n s = takeChars n s' ↔ s.toList.take n = s'.toList.take n := by
  unfold takeChars
  rw [String.ofList_inj]

/-- A refusal does not read like an acceptance. -/
theorem refused_ne_queued (message id : String) (kind : DraftKind) :
    takeChars 2000 ("draft_rejected: " ++ message) ≠ takeChars 2000 (queuedSummary id kind) := by
  intro h
  have h6 := congrArg (List.take 6) (takeChars_eq_iff.mp h)
  rw [List.take_take, List.take_take, queuedSummary] at h6
  simp only [String.append_assoc, String.toList_append] at h6
  simp at h6

/-- The summaries of two refusals for quotes agree exactly if the lists do, as far as they
are kept. -/
theorem summary_eq_iff {n : Nat} {missing missing' : List Text} :
    takeChars 2000 ("draft_rejected: " ++ (verbatimLead n ++ listedQuotes missing)) =
        takeChars 2000 ("draft_rejected: " ++ (verbatimLead n ++ listedQuotes missing')) ↔
      SameListing n missing missing' := by
  rw [takeChars_eq_iff, ← String.append_assoc, ← String.append_assoc, String.toList_append,
    @String.toList_append _ (listedQuotes missing'), List.take_append, List.take_append,
    List.append_cancel_left_eq]
  rfl

end Records

/-! ## Why a draft is refused -/

section Refusals

variable {rt} {alnum : Char → Bool} {data : Systems} {a : DraftArgs}

theorem recomputeHash_error {c s e : String} {x : PyError}
    (h : recomputeHash rt data c s e = .error x) :
    ∃ message, x = .valueError message := by
  unfold recomputeHash at h
  cases hm : computeManifest rt data c s e with
  | error y =>
    rw [hm] at h
    cases h
    exact computeManifest_error hm
  | ok o =>
    rw [hm] at h
    cases h

/-- **Every refusal is a content rule with its message.** -/
theorem rejected_by_rule {message : String}
    (h : checkArgs rt alnum data a = .error (.draftRejected message)) :
    ∃ rule, brokenRule rt alnum data a = some rule ∧
      message = rule.message a.title (listedQuotes (unverified data a)) := by
  unfold checkArgs at h
  split at h
  · cases h
  unfold checkDraft at h
  unfold brokenRule
  cases hk : a.kind with
  | policyMapping =>
    rw [hk] at h
    unfold checkPolicyMapping at h
    dsimp only at h ⊢
    split at h
    · next hq =>
      cases h
      exact ⟨.noTable, if_pos hq, rfl⟩
    next hq =>
    rw [if_neg (show extracted a.body.toList ≠ [] from hq)]
    split at h
    · next hc =>
      cases h
      exact ⟨.noRelease, if_pos hc, rfl⟩
    next hc =>
    rw [if_neg (show corpus a.relatedIds data.release ≠ [] from hc)]
    split at h
    · cases h
    next hm =>
    rw [if_neg (show unverified data a ≠ [] from hm)]
    cases h
    exact ⟨.notVerbatim (unverified data a).length, rfl, rfl⟩
  | evidencePackIndex =>
    rw [hk] at h
    unfold checkEvidencePackIndex at h
    dsimp only at h ⊢
    cases hp : periodFromTitle a.title with
    | none =>
      rw [hp] at h
      cases h
      exact ⟨.untitled, rfl, rfl⟩
    | some period =>
      obtain ⟨c, s, e⟩ := period
      rw [hp] at h
      dsimp only at h ⊢
      by_cases hf : findHashes alnum false 0 a.body.toList = []
      · rw [if_pos hf] at h
        cases h
        exact ⟨.uncited, if_pos hf, rfl⟩
      rw [if_neg hf] at h ⊢
      cases hr : recomputeHash rt data c s e with
      | error x =>
        obtain ⟨m, rfl⟩ := recomputeHash_error hr
        rw [hr] at h
        cases h
      | ok o =>
        rw [hr] at h
        cases o with
        | none =>
          simp only [bind, Except.bind] at h
          -- the message repeats the period of the title
          refine ⟨.unknownControl, rfl, ?_⟩
          rw [← PyError.draftRejected.inj (Except.error.inj h), message_unknownControl,
            titlePeriod_some hp]
          simp only [String.append_assoc]
        | some actual =>
          simp only [bind, Except.bind] at h
          split at h
          · cases h
          next hc =>
          cases h
          exact ⟨.otherHash, if_neg (fun hin => hc (List.contains_iff_mem.mp hin)), rfl⟩
  | controlFindingNote | attestationEscalation =>
    rw [hk] at h
    cases h

/-- What else the checks raise is the same for every body. -/
theorem checkArgs_error {e : PyError} (h : checkArgs rt alnum data a = .error e) :
    e = .invalidInput "title and body are required" ∨ (∃ message, e = .draftRejected message) ∨
      ∃ message, e = .valueError message := by
  unfold checkArgs at h
  split at h
  · cases h
    exact Or.inl rfl
  refine Or.inr ?_
  unfold checkDraft at h
  split at h
  · unfold checkPolicyMapping at h
    dsimp only at h
    repeat' split at h
    all_goals cases h
    all_goals exact Or.inl ⟨_, rfl⟩
  · unfold checkEvidencePackIndex at h
    dsimp only at h
    split at h
    · cases h
      exact Or.inl ⟨_, rfl⟩
    next c s e hp =>
    split at h
    · cases h
      exact Or.inl ⟨_, rfl⟩
    cases hr : recomputeHash rt data c s e with
    | error x =>
      obtain ⟨m, rfl⟩ := recomputeHash_error hr
      rw [hr] at h
      cases h
      exact Or.inr ⟨m, rfl⟩
    | ok o =>
      rw [hr] at h
      cases o with
      | none =>
        cases h
        exact Or.inl ⟨_, rfl⟩
      | some actual =>
        simp only [bind, Except.bind] at h
        split at h
        · cases h
        · cases h
          exact Or.inl ⟨_, rfl⟩
  · cases h

/-- A draft that is rejected has a title and a body. -/
theorem titled_of_rejected {message : String}
    (h : checkArgs rt alnum data a = .error (.draftRejected message)) :
    blank a.title.toList = false ∧ blank a.body.toList = false := by
  unfold checkArgs at h
  split at h
  · cases h
  next hb =>
  exact Bool.or_eq_false_iff.mp (eq_false_of_ne_true hb)

/-- What the draft is refused with: no title or body, a broken rule, or something internal. -/
def RefusedWith (rt : Runtime) (alnum : Char → Bool) (data : Systems) (a : DraftArgs)
    (e : PyError) : Prop :=
  e = .invalidInput "title and body are required" ∨ e.code = .internalError ∨
    ∃ rule, brokenRule rt alnum data a = some rule ∧ blank a.title.toList = false ∧
      blank a.body.toList = false ∧
      e = .draftRejected (rule.message a.title (listedQuotes (unverified data a)))

/-- The body of the method ends accepted, or with a refusal that is known from the rule that
was broken. -/
theorem fileDraft_cases {svc : Service} {env : Surroundings} {user : User} {rows : List Row} :
    (∃ r rows', fileDraft rt svc env a user rows = .ok (r, rows') ∧
      r.summary = queuedSummary env.draftId a.kind) ∨
    ∃ e, fileDraft rt svc env a user rows = .error e ∧ RefusedWith rt svc.alnum svc.data a e := by
  unfold fileDraft
  cases hd : draftCreate rt svc.alnum svc.data a user.upn env.draftId env.created with
  | error e =>
    refine Or.inr ⟨e, rfl, ?_⟩
    have hc := draftCreate_error_iff.mp hd
    obtain h | ⟨message, rfl⟩ | ⟨message, rfl⟩ := checkArgs_error hc
    · exact Or.inl h
    · obtain ⟨ht, hb⟩ := titled_of_rejected hc
      obtain ⟨rule, hrule, rfl⟩ := rejected_by_rule hc
      exact Or.inr (Or.inr ⟨rule, hrule, ht, hb, rfl⟩)
    · exact Or.inr (Or.inl rfl)
  | ok d =>
    simp only [bind, Except.bind, pure, Except.pure]
    have hid : d.draftId = env.draftId := (draftOf_draftCreate hd).id
    split
    · exact Or.inr ⟨_, rfl, Or.inr (Or.inl rfl)⟩
    · exact Or.inl ⟨_, _, rfl, by rw [hid]⟩

theorem brokenRule_notVerbatim {n : Nat} (h : brokenRule rt alnum data a = some (.notVerbatim n)) :
    a.kind = .policyMapping ∧ corpus a.relatedIds data.release ≠ [] ∧ unverified data a ≠ [] ∧
      n = (unverified data a).length := by
  unfold brokenRule at h
  split at h
  · next hk =>
    split at h
    · cases h
    split at h
    · cases h
    next hc =>
    split at h
    · cases h
    next hm =>
    cases h
    exact ⟨hk, hc, hm, rfl⟩
  · exfalso
    repeat' split at h
    all_goals cases h
  · cases h

theorem extracted_of_unverified (hm : unverified data a ≠ []) : extracted a.body.toList ≠ [] := by
  intro hq
  refine hm ?_
  rw [unverified, hq]
  rfl

theorem brokenRule_unverified (hk : a.kind = .policyMapping)
    (hc : corpus a.relatedIds data.release ≠ []) (hm : unverified data a ≠ []) :
    brokenRule rt alnum data a = some (.notVerbatim (unverified data a).length) := by
  unfold brokenRule
  rw [hk]
  dsimp only
  rw [if_neg (extracted_of_unverified hm), if_neg hc, if_neg hm]

/-- Quotes that are left over are what the draft is refused for. -/
theorem checkArgs_unverified (ht : blank a.title.toList = false) (hb : blank a.body.toList = false)
    (hk : a.kind = .policyMapping) (hc : corpus a.relatedIds data.release ≠ [])
    (hm : unverified data a ≠ []) :
    checkArgs rt alnum data a = .error (.draftRejected
      (verbatimLead (unverified data a).length ++ listedQuotes (unverified data a))) := by
  have hq := extracted_of_unverified hm
  unfold checkArgs
  rw [ht, hb, if_neg (by simp)]
  unfold checkDraft
  rw [hk]
  unfold checkPolicyMapping
  dsimp only
  rw [if_neg (show (findQuotes true 0 a.body.toList).map normalise ≠ [] from hq),
    if_neg (show (a.relatedIds.filterMap data.release).map (fun r => normalise r.text.toList) ≠ []
      from hc)]
  exact if_neg hm

end Refusals

/-! ## Two bodies -/

section Calls

variable (version : Except PyError String) (users : Except PyError (List User)) (now : ℚ)
  (caller : CallerIdentity) (svc : Service) (s : ServiceState)

/-- A call for a draft. -/
def fileAs (env : Surroundings) (a : DraftArgs) : Answer × ServiceState :=
  audited rt ((ServiceCall.draftCreate a).method rt svc env) version users now caller s

/-- The draft is refused for its quotes: the call is admitted, what is looked at before the
quotes is in order, and there are quotes that are in no release. -/
structure RefusedForQuotes (a : DraftArgs) : Prop where
  admitted : ∃ us user, users = .ok us ∧
    (admitUser rt us s.limiter ⟨caller.requester, some ANALYST_GROUP, now⟩).1 = .ok user
  titled : blank a.title.toList = false
  worded : blank a.body.toList = false
  kind : a.kind = .policyMapping
  known : corpus a.relatedIds svc.data.release ≠ []
  quotes : unverified svc.data a ≠ []

variable {rt version users now caller svc s} {a a' : DraftArgs}

theorem summary_internal {e : PyError} (h : e.code = .internalError) :
    (refusal e).summary = "internal_error" := by
  cases e <;> first | rfl | cases h

theorem message_listing {rule : ContentRule} (h : ∀ n, rule ≠ .notVerbatim n)
    (title l l' : String) :
    rule.message title l = rule.message title l' := by
  cases rule with
  | notVerbatim n => exact absurd rfl (h n)
  | noTable | noRelease | untitled | uncited | unknownControl | otherHash => rfl

/-- Refusals with the same code for the same rule read the same, unless quotes are listed. -/
theorem summary_eq_of_code {e e' : PyError} (h : RefusedWith rt svc.alnum svc.data a e)
    (h' : RefusedWith rt svc.alnum svc.data a' e') (hsame : a' = { a with body := a'.body })
    (hcode : e.code = e'.code) (hrule : e.code = .draftRejected →
      brokenRule rt svc.alnum svc.data a = brokenRule rt svc.alnum svc.data a')
    (hquotes : blank a.title.toList = false → blank a.body.toList = false →
      ∀ n, brokenRule rt svc.alnum svc.data a ≠ some (.notVerbatim n)) :
    (refusal e).summary = (refusal e').summary := by
  rcases h with rfl | hint | ⟨rule, hr, ht, hb, rfl⟩
  · rcases h' with rfl | hint' | ⟨rule', -, -, -, rfl⟩
    · rfl
    · cases hcode.trans hint'
    · cases hcode
  · rcases h' with rfl | hint' | ⟨rule', -, -, -, rfl⟩
    · cases hint.symm.trans hcode
    · rw [summary_internal hint, summary_internal hint']
    · cases hint.symm.trans hcode
  · rcases h' with rfl | hint' | ⟨rule', hr', -, -, rfl⟩
    · cases hcode
    · cases hcode.trans hint'
    · have hrr : rule = rule' := Option.some.inj (hr.symm.trans ((hrule rfl).trans hr'))
      have ht' : a'.title = a.title := by rw [hsame]
      subst hrr
      rw [ht', message_listing (fun n hn => hquotes ht hb n (hn ▸ hr)) a.title _
        (listedQuotes (unverified svc.data a'))]

theorem not_notVerbatim (hno : ¬ RefusedForQuotes rt users now caller svc s a)
    (hadm : ∃ us user, users = .ok us ∧
      (admitUser rt us s.limiter ⟨caller.requester, some ANALYST_GROUP, now⟩).1 = .ok user)
    (ht : blank a.title.toList = false) (hb : blank a.body.toList = false) (n : Nat) :
    brokenRule rt svc.alnum svc.data a ≠ some (.notVerbatim n) := by
  intro hn
  obtain ⟨hk, hc, hm, -⟩ := brokenRule_notVerbatim hn
  exact hno ⟨hadm, ht, hb, hk, hc, hm⟩

theorem fileDraft_unverified (h : RefusedForQuotes rt users now caller svc s a)
    (env : Surroundings) (user : User) (rows : List Row) :
    fileDraft rt svc env a user rows = .error (.draftRejected
      (verbatimLead (unverified svc.data a).length ++ listedQuotes (unverified svc.data a))) := by
  have hc := @checkArgs_unverified rt svc.alnum svc.data a h.titled h.worded h.kind h.known h.quotes
  unfold fileDraft
  rw [draftCreate_error_iff.mpr hc]
  rfl

theorem draftCreate_group (env : Surroundings) :
    ((ServiceCall.draftCreate a).method rt svc env).group = some ANALYST_GROUP :=
  rfl

theorem draftCreate_body (env : Surroundings) (user : User) (rows : List Row) :
    ((ServiceCall.draftCreate a).method rt svc env).body user rows =
      fileDraft rt svc env a user rows :=
  rfl

theorem code_draftRejected (message message' : String) :
    (PyError.draftRejected message).code = (PyError.draftRejected message').code :=
  rfl

/-- What a call for a draft leaves in the log, once the version has been read: the refusal of
something that was raised, or the acceptance. -/
theorem fileAs_cases {v : String} (env : Surroundings) (hv : version = .ok v) :
    (∃ e limiter, (∀ b env', fileAs rt version users now caller svc s env' b =
        refuse ((ServiceCall.draftCreate b).method rt svc env') caller v { s with limiter } e) ∧
      ¬ ∃ us user, users = .ok us ∧
        (admitUser rt us s.limiter ⟨caller.requester, some ANALYST_GROUP, now⟩).1 = .ok user) ∨
    ∃ us user limiter, users = .ok us ∧
      admitUser rt us s.limiter ⟨caller.requester, some ANALYST_GROUP, now⟩ = (.ok user, limiter) ∧
      ((∃ r rows, r.summary = queuedSummary env.draftId a.kind ∧
          fileDraft rt svc env a user s.rows = .ok (r, rows) ∧
          fileAs rt version users now caller svc s env a =
            (.result r, ServiceState.record { s with limiter, rows }
              ((ServiceCall.draftCreate a).method rt svc env) caller v user.upn "ok" r.summary)) ∨
        ∃ e, RefusedWith rt svc.alnum svc.data a e ∧ fileDraft rt svc env a user s.rows = .error e ∧
          fileAs rt version users now caller svc s env a =
            refuse ((ServiceCall.draftCreate a).method rt svc env) caller v
              { s with limiter } e) := by
  subst hv
  cases users with
  | error e =>
    refine Or.inl ⟨e, s.limiter, fun b env' => rfl, ?_⟩
    rintro ⟨us, user, h, -⟩
    cases h
  | ok us =>
    rcases hgate : admitUser rt us s.limiter ⟨caller.requester, some ANALYST_GROUP, now⟩
      with ⟨r, limiter⟩
    cases r with
    | error e =>
      refine Or.inl ⟨e, limiter, fun b env' => ?_, ?_⟩
      · unfold fileAs audited
        simp only [draftCreate_group, hgate]
      · rintro ⟨us', user, h, h'⟩
        cases h
        rw [hgate] at h'
        cases h'
    | ok user =>
      refine Or.inr ⟨us, user, limiter, rfl, hgate, ?_⟩
      rcases @fileDraft_cases rt a svc env user s.rows with ⟨r, rows, hf, hs⟩ | ⟨e, hf, he⟩
      · refine Or.inl ⟨r, rows, hs, hf, ?_⟩
        unfold fileAs audited
        simp only [draftCreate_group, hgate, draftCreate_body, hf]
      · refine Or.inr ⟨e, he, hf, ?_⟩
        unfold fileAs audited
        simp only [draftCreate_group, hgate, draftCreate_body, hf]

/-- The records of two refusals. -/
theorem agree_refusals {v : String} {limiter limiter' : TokenBucketLimiter}
    {env env' : Surroundings} {e e' : PyError} {log : AuditLog}
    (hsame : a' = { a with body := a'.body }) (hcode : e.code = e'.code) :
    ∃ r r' : Entry,
      (refuse ((ServiceCall.draftCreate a).method rt svc env) caller v
        { s with limiter } e).2.records =
        s.records ++ [r] ∧
      (refuse ((ServiceCall.draftCreate a').method rt svc env') caller v
        { s with limiter := limiter' }
        e').2.records = s.records ++ [r'] ∧
      ∀ (kind : DraftKind) (st st' : Stamp) (n n' prev prev' : Json),
        AgreeButHash kind (sealed rt log.hmacKey (recordBody rt log r st n prev))
          (sealed rt log.hmacKey (recordBody rt log r' st' n' prev')) ↔
        takeChars 2000 (refusal e).summary = takeChars 2000 (refusal e').summary ∨ ∃ id id',
          takeChars 2000 (refusal e).summary = takeChars 2000 (queuedSummary id kind) ∧
          takeChars 2000 (refusal e').summary = takeChars 2000 (queuedSummary id' kind) := by
  refine ⟨_, _, rfl, rfl, fun kind st st' n n' prev prev' => ?_⟩
  have hout : (refusal e).outcome = (refusal e').outcome := by
    rw [refusal_outcome, refusal_outcome, refusal_code, refusal_code, hcode]
  refine @agreeButHash_iff rt log _ _ kind a a' ?_ ?_ hsame ?_ ?_ ?_ ?_ ?_ st st' n n' prev prev'
  exacts [rfl, rfl, rfl, rfl, hout, rfl, rfl]

/-- A call that is refused for its quotes: how it ends, and what it leaves. -/
theorem fileAs_unverified {v : String} (hv : version = .ok v)
    (hq : RefusedForQuotes rt users now caller svc s a) :
    ∃ limiter, ∀ env, fileAs rt version users now caller svc s env a =
      refuse ((ServiceCall.draftCreate a).method rt svc env) caller v { s with limiter }
        (.draftRejected
        (verbatimLead (unverified svc.data a).length ++ listedQuotes (unverified svc.data a))) := by
  subst hv
  obtain ⟨us, user, rfl, hadm⟩ := hq.admitted
  rcases hgate : admitUser rt us s.limiter ⟨caller.requester, some ANALYST_GROUP, now⟩
    with ⟨r, limiter⟩
  obtain rfl : r = .ok user := by rwa [hgate] at hadm
  refine ⟨limiter, fun env => ?_⟩
  unfold fileAs audited
  simp only [draftCreate_group, hgate,
    show ∀ rows, ((ServiceCall.draftCreate a).method rt svc env).body user rows =
      fileDraft rt svc env a user rows from fun _ => rfl, fileDraft_unverified hq]

theorem endingOf_unverified {v : String} (hv : version = .ok v)
    (hq : RefusedForQuotes rt users now caller svc s a) (env : Surroundings) :
    endingOf (brokenRule rt svc.alnum svc.data a)
      (fileAs rt version users now caller svc s env a).1 =
      some (.refused .draftRejected (some (.notVerbatim (unverified svc.data a).length))) := by
  obtain ⟨limiter, hrun⟩ := fileAs_unverified hv hq
  rw [hrun, brokenRule_unverified hq.kind hq.known hq.quotes]
  rfl

/-- Two calls that are refused for as many quotes leave records that agree exactly if the
quotes are listed alike. -/
theorem agree_unverified {v : String} (hv : version = .ok v)
    (hsame : a' = { a with body := a'.body }) (hq : RefusedForQuotes rt users now caller svc s a)
    (hq' : RefusedForQuotes rt users now caller svc s a')
    (hn : (unverified svc.data a').length = (unverified svc.data a).length)
    (env env' : Surroundings) (log : AuditLog) :
    ∃ r r' : Entry, (fileAs rt version users now caller svc s env a).2.records = s.records ++ [r] ∧
      (fileAs rt version users now caller svc s env' a').2.records = s.records ++ [r'] ∧
      ∀ (kind : DraftKind) (st st' : Stamp) (n n' prev prev' : Json),
        AgreeButHash kind (sealed rt log.hmacKey (recordBody rt log r st n prev))
          (sealed rt log.hmacKey (recordBody rt log r' st' n' prev')) ↔
        SameListing (unverified svc.data a).length (unverified svc.data a)
          (unverified svc.data a') := by
  obtain ⟨limiter, hrun⟩ := fileAs_unverified hv hq
  obtain ⟨limiter', hrun'⟩ := fileAs_unverified hv hq'
  rw [hrun, hrun', hn]
  obtain ⟨r, r', hr, hr', hagree⟩ :=
    @agree_refusals rt caller svc s a a' v limiter limiter' env env' _ _ log hsame
      (code_draftRejected _ _)
  refine ⟨r, r', hr, hr', fun kind st st' n n' prev prev' => ?_⟩
  rw [hagree]
  simp only [refusal]
  rw [summary_eq_iff, or_iff_left]
  rintro ⟨id, id', h, -⟩
  exact refused_ne_queued _ _ _ h

end Calls

/-- **When only the hash of a body is recorded**: two bodies for which a call ends the same
way leave records that differ at most in it, unless both are refused for quotes and the quotes
are listed differently.  For every caller, directory, state of the limiter and the drafts, and
every clock and database in either call. -/
theorem body_only_hashed_iff (rt : Runtime) (version : Except PyError String)
    (users : Except PyError (List User)) (now : ℚ) (caller : CallerIdentity) (svc : Service)
    (s : ServiceState) (env env' : Surroundings) (kind : DraftKind) (title body body' : String)
    (relatedIds : List String) (log : AuditLog) (ending : Ending)
    (h : endingOf (brokenRule rt svc.alnum svc.data ⟨kind, title, body, relatedIds⟩)
      (fileAs rt version users now caller svc s env ⟨kind, title, body, relatedIds⟩).1 =
        some ending)
    (h' : endingOf (brokenRule rt svc.alnum svc.data ⟨kind, title, body', relatedIds⟩)
      (fileAs rt version users now caller svc s env' ⟨kind, title, body', relatedIds⟩).1 =
        some ending) :
    ∃ e e' : Entry,
      (fileAs rt version users now caller svc s env ⟨kind, title, body, relatedIds⟩).2.records =
        s.records ++ [e] ∧
      (fileAs rt version users now caller svc s env' ⟨kind, title, body', relatedIds⟩).2.records =
        s.records ++ [e'] ∧
      ∀ (st st' : Stamp) (n n' prev prev' : Json),
        AgreeButHash kind (sealed rt log.hmacKey (recordBody rt log e st n prev))
          (sealed rt log.hmacKey (recordBody rt log e' st' n' prev')) ↔
        (RefusedForQuotes rt users now caller svc s ⟨kind, title, body, relatedIds⟩ →
          SameListing (unverified svc.data ⟨kind, title, body, relatedIds⟩).length
            (unverified svc.data ⟨kind, title, body, relatedIds⟩)
            (unverified svc.data ⟨kind, title, body', relatedIds⟩)) := by
  -- with an unreadable version the call raises and has no ending
  have hv : ∃ v, version = .ok v := by
    cases version with
    | error e => cases h
    | ok v => exact ⟨v, rfl⟩
  obtain ⟨v, hv⟩ := hv
  generalize ha : (⟨kind, title, body, relatedIds⟩ : DraftArgs) = a at h ⊢
  generalize ha' : (⟨kind, title, body', relatedIds⟩ : DraftArgs) = a' at h' ⊢
  have hsame : a' = { a with body := a'.body } := by rw [← ha, ← ha']
  have hkind : a'.kind = a.kind := by rw [hsame]
  have hk : a.kind = kind := by rw [← ha]
  obtain ⟨e, limiter, hrun, hnot⟩ | ⟨us, user, limiter, hus, hgate, hcase⟩ :=
    @fileAs_cases rt version users now caller svc s a v env hv
  · -- the call is not admitted: both are refused alike
    rw [hrun a env, hrun a' env']
    obtain ⟨r, r', hr, hr', hagree⟩ :=
      @agree_refusals rt caller svc s a a' v limiter limiter env env' e e log hsame rfl
    refine ⟨r, r', hr, hr', fun st st' n n' prev prev' => ?_⟩
    rw [hagree]
    exact iff_of_true (Or.inl rfl) (fun hq => absurd hq.admitted hnot)
  obtain ⟨e, limiter', hrun, hnot⟩ | ⟨us', user', limiter', hus', hgate', hcase'⟩ :=
    @fileAs_cases rt version users now caller svc s a' v env' hv
  -- whether a call is admitted does not depend on the body
  · exact absurd ⟨us, user, hus, by rw [hgate]⟩ hnot
  have hadm : ∃ us user, users = .ok us ∧
      (admitUser rt us s.limiter ⟨caller.requester, some ANALYST_GROUP, now⟩).1 = .ok user :=
    ⟨us, user, hus, by rw [hgate]⟩
  obtain rfl : us = us' := Except.ok.inj (hus.symm.trans hus')
  obtain ⟨rfl, rfl⟩ : user = user' ∧ limiter = limiter' := by
    simpa using hgate.symm.trans hgate'
  obtain ⟨r, rows, hs, hf, hrun⟩ | ⟨e, he, hf, hrun⟩ := hcase
  · obtain ⟨r', rows', hs', hf', hrun'⟩ | ⟨e', he', hf', hrun'⟩ := hcase'
    · -- both are accepted
      rw [hrun, hrun']
      refine ⟨_, _, rfl, rfl, fun st st' n n' prev prev' => ?_⟩
      refine iff_of_true ?_ (fun hq => ?_)
      · refine (@agreeButHash_iff rt log _ _ kind a a' ?_ ?_ hsame ?_ ?_ ?_ ?_ ?_ st st' n n'
          prev prev').mpr ?_
        iterate 7 rfl
        exact Or.inr ⟨env.draftId, env'.draftId, by rw [hs, hk], by rw [hs', hkind, hk]⟩
      · cases hf.symm.trans (fileDraft_unverified hq env user s.rows)
    -- one accepted and one refused end differently
    · rw [hrun] at h
      rw [hrun'] at h'
      cases h.trans h'.symm
  obtain ⟨r', rows', hs', hf', hrun'⟩ | ⟨e', he', hf', hrun'⟩ := hcase'
  · rw [hrun] at h
    rw [hrun'] at h'
    cases h.trans h'.symm
  -- both are refused, with the same code and for the same rule
  rw [hrun] at h
  rw [hrun'] at h'
  have hend := h.trans h'.symm
  simp only [refuse, endingOf, Option.some.injEq, Ending.refused.injEq, refusal_code] at hend
  obtain ⟨hcode, hrule⟩ := hend
  have hrule' : e.code = .draftRejected →
      brokenRule rt svc.alnum svc.data a = brokenRule rt svc.alnum svc.data a' := by
    intro hc
    rwa [if_pos hc, if_pos (hcode ▸ hc)] at hrule
  by_cases hq : RefusedForQuotes rt users now caller svc s a
  · obtain rfl : e = .draftRejected (verbatimLead (unverified svc.data a).length ++
        listedQuotes (unverified svc.data a)) :=
      Except.error.inj (hf.symm.trans (fileDraft_unverified hq env user s.rows))
    have hbroken := (hrule' rfl).symm.trans (brokenRule_unverified hq.kind hq.known hq.quotes)
    -- the rule is the same, so the other body is refused for its quotes too
    have hq' : RefusedForQuotes rt users now caller svc s a' := by
      by_contra hno
      rcases he' with rfl | hint | ⟨rule, hr, ht, hb, rfl⟩
      · cases hcode
      · cases hcode.trans hint
      · exact not_notVerbatim hno hadm ht hb _ hbroken
    obtain ⟨-, -, -, hn⟩ := brokenRule_notVerbatim hbroken
    obtain ⟨r, r', hr, hr', hagree⟩ := agree_unverified hv hsame hq hq' hn.symm env env' log
    refine ⟨r, r', hr, hr', fun st st' n n' prev prev' => ?_⟩
    rw [hagree]
    exact ⟨fun h _ => h, fun h => h hq⟩
  · obtain ⟨r, r', hr, hr', hagree⟩ :=
      @agree_refusals rt caller svc s a a' v limiter limiter env env' e e' log hsame hcode
    rw [hrun, hrun']
    refine ⟨r, r', hr, hr', fun st st' n n' prev prev' => ?_⟩
    rw [hagree]
    refine iff_of_true (Or.inl ?_) (fun hq' => absurd hq' hq)
    exact congrArg (takeChars 2000) (summary_eq_of_code he he' hsame hcode hrule'
      (not_notVerbatim hq hadm))

/-! ## Quotes in the log -/

/-- One obligation, with the quote that is given. -/
def oneObligation (quote : String) : String :=
  "| 1 | requirement | \"" ++ quote ++ "\" | member firms |"

/-- A mapping of one release that quotes one obligation. -/
def quotingDraft (quote : String) : DraftArgs :=
  ⟨.policyMapping, "Gifts", oneObligation quote, ["FINRA-RN-26-19"]⟩

def quotingService : Service :=
  ⟨{ sampleSystems with releases := [sampleRelease] }, false, fun _ => false⟩

/-- A first call of an analyst. -/
def quotingCall (env : Surroundings) (quote : String) : Answer × ServiceState :=
  fileAs Runtime.python (.ok "v1") (.ok [sampleCaller]) 0 ⟨"u-1", false, "s1"⟩ quotingService
    ⟨.new 120 none, [], []⟩ env (quotingDraft quote)

/-- The quote is in no release. -/
abbrev Invented (quote : String) : Prop := RefusedForQuotes Runtime.python (.ok [sampleCaller]) 0
  ⟨"u-1", false, "s1"⟩ quotingService ⟨.new 120 none, [], []⟩ (quotingDraft quote)

theorem invented {quote : String} (hb : blank (oneObligation quote).toList = false)
    (hm : unverified quotingService.data (quotingDraft quote) = [quote.toList]) :
    Invented quote where
  admitted := ⟨[sampleCaller], sampleCaller, rfl, by decide +kernel⟩
  titled := show blank "Gifts".toList = false by decide
  worded := hb
  kind := rfl
  known := show corpus ["FINRA-RN-26-19"] quotingService.data.release ≠ [] by decide +kernel
  quotes := by
    rw [hm]
    exact List.cons_ne_nil _ _

theorem ending_invented {quote : String} (h : Invented quote)
    (hm : unverified quotingService.data (quotingDraft quote) = [quote.toList])
    (env : Surroundings) :
    endingOf (brokenRule Runtime.python quotingService.alnum quotingService.data
      (quotingDraft quote)) (quotingCall env quote).1 = some (.refused .draftRejected
      (some (.notVerbatim 1))) := by
  rw [quotingCall, endingOf_unverified rfl h, hm]
  rfl

theorem without_limit :
    unverified quotingService.data (quotingDraft "without limit") = ["without limit".toList] := by
  decide +kernel

theorem no_limit : unverified quotingService.data (quotingDraft "no limit") =
    ["no limit".toList] := by
  decide +kernel

theorem invented_without : Invented "without limit" := invented (by decide +kernel) without_limit

theorem invented_no_limit : Invented "no limit" := invented (by decide +kernel) no_limit

theorem body_only_hashed_iff_sample : ∃ e e' : Entry,
    (quotingCall sampleSurroundings "without limit").2.records = [] ++ [e] ∧
    (quotingCall sampleSurroundings "no limit").2.records = [] ++ [e'] ∧
    ∀ (st st' : Stamp) (n n' prev prev' : Json),
      AgreeButHash .policyMapping
        (sealed Runtime.python sampleLog.hmacKey (recordBody Runtime.python sampleLog e st n prev))
        (sealed Runtime.python sampleLog.hmacKey
          (recordBody Runtime.python sampleLog e' st' n' prev')) ↔
      (Invented "without limit" →
        SameListing (unverified quotingService.data (quotingDraft "without limit")).length
          (unverified quotingService.data (quotingDraft "without limit"))
          (unverified quotingService.data (quotingDraft "no limit"))) :=
  body_only_hashed_iff _ _ _ _ _ _ _ _ _ _ _ _ _ _ sampleLog _
    (ending_invented invented_without without_limit sampleSurroundings)
    (ending_invented invented_no_limit no_limit sampleSurroundings)

/-- **Text of the body is in the log.**  Two bodies are refused alike, for one quote each; the
records name the quotes. -/
theorem quotes_recorded :
    (∀ quote ∈ ["without limit", "no limit"],
      endingOf (brokenRule Runtime.python quotingService.alnum quotingService.data
        (quotingDraft quote)) (quotingCall sampleSurroundings quote).1 =
          some (.refused .draftRejected (some (.notVerbatim 1)))) ∧
    ∃ e e' : Entry,
      (quotingCall sampleSurroundings "without limit").2.records = [] ++ [e] ∧
      (quotingCall sampleSurroundings "no limit").2.records = [] ++ [e'] ∧
      ∀ (st st' : Stamp) (n n' prev prev' : Json), ¬ AgreeButHash .policyMapping
        (sealed Runtime.python sampleLog.hmacKey (recordBody Runtime.python sampleLog e st n prev))
        (sealed Runtime.python sampleLog.hmacKey
          (recordBody Runtime.python sampleLog e' st' n' prev')) := by
  constructor
  · intro quote hquote
    simp only [List.mem_cons, List.not_mem_nil, or_false] at hquote
    rcases hquote with rfl | rfl
    · exact ending_invented invented_without without_limit _
    · exact ending_invented invented_no_limit no_limit _
  · obtain ⟨e, e', he, he', hagree⟩ := agree_unverified rfl rfl invented_without invented_no_limit
      (by rw [without_limit, no_limit]; rfl) sampleSurroundings sampleSurroundings sampleLog
    refine ⟨e, e', he, he', fun st st' n n' prev prev' h => ?_⟩
    refine absurd ((hagree _ st st' n n' prev prev').mp h) ?_
    rw [without_limit, no_limit]
    unfold SameListing
    decide +kernel

end ComplianceMcp
