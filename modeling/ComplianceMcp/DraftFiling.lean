import ComplianceMcp.EvidenceManifest

/-! # Filing a draft

`draft_create` is the only write path of the service.  Title and body must not be blank, the
content is checked for its kind, and the draft is inserted. -/
namespace ComplianceMcp

open PyText

/-- The arguments of `draft_create`. -/
structure DraftArgs where
  kind : DraftKind
  title : String
  body : String
  relatedIds : List String

variable (rt : Runtime) (alnum : Char → Bool) (data : Systems)

/-- `recompute_hash`. -/
def recomputeHash (controlId start end_ : String) : Except PyError (Option String) := do
  let m ← computeManifest rt data controlId start end_
  return m.map EvidenceManifest.manifestSha256

/-- What `draft_create` checks before it inserts anything. -/
def checkArgs (a : DraftArgs) : Except PyError Unit :=
  if blank a.title.toList || blank a.body.toList then
    .error (.invalidInput "title and body are required")
  else checkDraft alnum a.kind a.title a.body.toList a.relatedIds data.release
    (recomputeHash rt data)

/-- The draft that `draft_create` inserts for the user. -/
def draftCreate (a : DraftArgs) (user draftId created : String) : Except PyError Draft := do
  checkArgs rt alnum data a
  createDraft rt ⟨a.kind, a.title, a.body, user, a.relatedIds, "", draftId, created⟩

variable {rt alnum data} {a : DraftArgs} {user draftId created : String}

/-- A draft that is filed has passed its checks, and is what `create` builds from the arguments. -/
theorem draftCreate_ok {d : Draft} (h : draftCreate rt alnum data a user draftId created = .ok d) :
    checkArgs rt alnum data a = .ok () ∧
      createDraft rt ⟨a.kind, a.title, a.body, user, a.relatedIds, "", draftId,
        created⟩ = .ok d := by
  unfold draftCreate at h
  cases hc : checkArgs rt alnum data a with
  | error e =>
    rw [hc] at h
    cases h
  | ok u =>
    rw [hc] at h
    exact ⟨rfl, h⟩

/-- The draft of a call: pending, with what the call brought. -/
structure DraftOf (a : DraftArgs) (user draftId : String) (d : Draft) : Prop where
  id : d.draftId = draftId
  kind : d.kind = a.kind
  title : d.title = stripped a.title
  body : d.body = a.body
  requester : d.requester = user
  pending : d.status = .pending

theorem draftOf_draftCreate {d : Draft}
    (h : draftCreate rt alnum data a user draftId created = .ok d) :
    DraftOf a user draftId d := by
  have hd := (draftCreate_ok h).2
  unfold createDraft at hd
  split at hd
  · cases hd
  · cases hd
    exact ⟨rfl, rfl, rfl, rfl, rfl, rfl⟩

/-- A draft that passes its checks is filed. -/
theorem draftCreate_of_checkArgs (h : checkArgs rt alnum data a = .ok ()) :
    ∃ d, draftCreate rt alnum data a user draftId created = .ok d := by
  unfold draftCreate
  rw [h]
  unfold checkArgs at h
  split at h
  · cases h
  next hb =>
  unfold createDraft
  rw [if_neg hb]
  exact ⟨_, rfl⟩

theorem draftCreate_error {e : PyError} (h : checkArgs rt alnum data a = .error e) :
    draftCreate rt alnum data a user draftId created = .error e := by
  unfold draftCreate
  rw [h]
  rfl

/-- **A draft is filed exactly when it passes its checks.** -/
theorem draftCreate_ok_iff : (∃ d, draftCreate rt alnum data a user draftId created = .ok d) ↔
    checkArgs rt alnum data a = .ok () := by
  constructor
  · rintro ⟨d, hd⟩
    cases hc : checkArgs rt alnum data a with
    | ok u => rfl
    | error e =>
      rw [draftCreate_error hc] at hd
      cases hd
  · exact draftCreate_of_checkArgs

/-- A refusal is the refusal of the checks. -/
theorem draftCreate_error_iff {e : PyError} :
    draftCreate rt alnum data a user draftId created = .error e ↔
    checkArgs rt alnum data a = .error e := by
  constructor
  · intro h
    cases hc : checkArgs rt alnum data a with
    | ok u =>
      obtain ⟨d, hd⟩ := draftCreate_of_checkArgs hc
      rw [hd] at h
      cases h
    | error e' =>
      rw [draftCreate_error hc] at h
      cases h
      rfl
  · exact draftCreate_error

end ComplianceMcp
