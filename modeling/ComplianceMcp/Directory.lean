import ComplianceMcp.DraftTable

/-! # The user directory

`Directory` holds a snapshot of `users.json`: who may talk to the agent and in which groups
they are.  A user is found by object id or UPN, ignoring case and surrounding blanks;
`resolve`, `require_group` and `require_approver` are functions of the snapshot.
`load` is `_load` on a file that does not change meanwhile: at most every `ttl_seconds` the
file is looked at, and parsed again when its modification time has changed.  Parsing is
a parameter, since the `User` model is validated by a library. -/
namespace ComplianceMcp

open PyText

/-! ## Users -/

inductive UserKind where
  | person
  | service
  deriving DecidableEq

structure User where
  id : String
  upn : String
  name : String
  groups : List String
  active : Bool
  kind : UserKind
  deriving DecidableEq

def ANALYST_GROUP : String := "compliance-analysts"

def APPROVER_GROUP : String := "compliance-approvers"

variable (rt : Runtime)

/-- The assignments to `index`, in order: a user is filed under its object id and its UPN. -/
def indexPairs (users : List User) : List (String × User) :=
  users.flatMap (fun u => [(rt.lower u.id, u), (rt.lower u.upn, u)])

/-- `self._users.get(key)`: the last assignment to the key. -/
def findUser (users : List User) (key : String) : Option User :=
  (indexPairs rt users).reverse.lookup key

/-- `(requester or "").strip().lower()`. -/
def requesterKey (requester : String) : String := rt.lower (stripped requester)

/-- `Directory.resolve` on the users of a snapshot. -/
def resolve (users : List User) (requester : String) : Except PyError User :=
  if requesterKey rt requester = "" then
    .error (.accessDenied "requester identity is required on every call")
  else match findUser rt users (requesterKey rt requester) with
    | none => .error (.accessDenied ("requester '" ++ requester ++ "' is not in the allowlist"))
    | some user =>
      if user.active then .ok user
      else .error (.accessDenied ("requester '" ++ requester ++ "' is inactive"))

/-- `Directory.require_group`. -/
def requireGroup (users : List User) (requester group : String) : Except PyError User := do
  let user ← resolve rt users requester
  if group ∈ user.groups then .ok user
  else .error (.accessDenied ("requester '" ++ user.upn ++ "' is not a member of '" ++
    group ++ "'"))

/-- `Directory.require_approver`. -/
def requireApprover (users : List User) (requester : String) : Except PyError User := do
  let user ← requireGroup rt users requester APPROVER_GROUP
  if user.kind = .person then .ok user
  else .error (.accessDenied ("'" ++ user.upn ++ "' is a service account and cannot approve"))

/-! ## The snapshot in force -/

/-- The content of `users.json` and the users it was parsed to. -/
structure Snapshot where
  raw : Bytes
  users : List User
  deriving DecidableEq

/-- The fields of a `Directory`; before the first load there is no snapshot. -/
structure Directory where
  snapshot : Option Snapshot
  version : String
  mtime : Int
  checkedAt : Int
  deriving DecidableEq

/-- What `__init__` assigns before it loads. -/
def Directory.blank : Directory := ⟨none, "", 0, 0⟩

/-- The users `self._users` was built from. -/
def Directory.users (d : Directory) : List User := (d.snapshot.map Snapshot.users).getD []

/-- The file at one moment. -/
structure UsersFile where
  mtime : Int
  raw : Bytes
  deriving DecidableEq

/-- `hashlib.sha256(raw).hexdigest()[:16]`. -/
def versionOf (raw : Bytes) : String := takeChars 16 (rt.sha256 raw).text

/-- How the file looks to one `_load`: missing, there but not readable, or readable. -/
inductive FileView where
  | missing
  | unreadable (mtime : Int)
  | there (f : UsersFile)
  deriving DecidableEq

def FileView.mtime : FileView → Option Int
  | .missing => none
  | .unreadable m => some m
  | .there f => some f.mtime

/-- `Directory._load(force=force)` at the time `now`.  `parse` is
`[User.model_validate(u) for u in json.loads(raw)["users"]]`. -/
def load (parse : Bytes → Except PyError (List User)) (ttl now : Int) (force : Bool)
    (view : FileView) (d : Directory) : Except PyError Unit × Directory :=
  if !force && now - d.checkedAt < ttl then (.ok (), d)
  else
    let d := { d with checkedAt := now }
    match view.mtime with
    | none => (.error .fileNotFoundError, d)
    | some mtime =>
      if !force && mtime = d.mtime then (.ok (), d)
      else match view with
        | .there f =>
          match parse f.raw with
          | .ok users => (.ok (), ⟨some ⟨f.raw, users⟩, versionOf rt f.raw, f.mtime, now⟩)
          | .error e => (.error e, d)
        | _ => (.error .other, d)

/-! ## Facts about a snapshot -/

variable {rt}

theorem findUser_mem {users : List User} {key : String} {u : User}
    (h : findUser rt users key = some u) :
    u ∈ users ∧ (key = rt.lower u.id ∨ key = rt.lower u.upn) := by
  obtain ⟨l₁, l₂, hl, -⟩ := List.lookup_eq_some_iff.mp h
  have hm : (key, u) ∈ indexPairs rt users := by
    rw [← List.mem_reverse, hl]
    exact List.mem_append_right _ List.mem_cons_self
  obtain ⟨v, hv, hp⟩ := List.mem_flatMap.mp hm
  simp only [List.mem_cons, Prod.mk.injEq, List.not_mem_nil, or_false] at hp
  rcases hp with ⟨hk, rfl⟩ | ⟨hk, rfl⟩
  · exact ⟨hv, Or.inl hk⟩
  · exact ⟨hv, Or.inr hk⟩

/-- Who is resolved is an active user of the snapshot, filed under the key. -/
theorem resolve_ok {users : List User} {requester : String} {u : User}
    (h : resolve rt users requester = .ok u) :
    findUser rt users (requesterKey rt requester) = some u ∧ u.active = true := by
  unfold resolve at h
  split at h
  · cases h
  split at h
  · cases h
  next user hf =>
  split at h
  · next ha =>
    cases h
    exact ⟨hf, ha⟩
  · cases h

theorem requireGroup_ok {users : List User} {requester group : String} {u : User}
    (h : requireGroup rt users requester group = .ok u) :
    resolve rt users requester = .ok u ∧ group ∈ u.groups := by
  unfold requireGroup at h
  cases hr : resolve rt users requester with
  | error e =>
    rw [hr] at h
    cases h
  | ok user =>
    simp only [hr, bind, Except.bind] at h
    split at h
    · next hg =>
      cases h
      exact ⟨rfl, hg⟩
    · cases h

/-- An approver is an active person in the approver group. -/
theorem requireApprover_ok {users : List User} {requester : String} {u : User}
    (h : requireApprover rt users requester = .ok u) :
    resolve rt users requester = .ok u ∧ APPROVER_GROUP ∈ u.groups ∧ u.kind = .person := by
  unfold requireApprover at h
  cases hr : requireGroup rt users requester APPROVER_GROUP with
  | error e =>
    rw [hr] at h
    cases h
  | ok user =>
    simp only [hr, bind, Except.bind] at h
    split at h
    · next hk =>
      cases h
      obtain ⟨hres, hg⟩ := requireGroup_ok hr
      exact ⟨hres, hg, hk⟩
    · cases h

/-- Every refusal of a snapshot is an `AccessDenied`. -/
theorem resolve_error {users : List User} {requester : String} {e : PyError}
    (h : resolve rt users requester = .error e) : ∃ message, e = .accessDenied message := by
  unfold resolve at h
  split at h
  · exact ⟨_, (Except.error.inj h).symm⟩
  split at h
  · exact ⟨_, (Except.error.inj h).symm⟩
  split at h
  · cases h
  · exact ⟨_, (Except.error.inj h).symm⟩

theorem requireGroup_error {users : List User} {requester group : String} {e : PyError}
    (h : requireGroup rt users requester group = .error e) :
    ∃ message, e = .accessDenied message := by
  unfold requireGroup at h
  cases hr : resolve rt users requester with
  | error e' =>
    rw [hr] at h
    cases h
    exact resolve_error hr
  | ok user =>
    simp only [hr, bind, Except.bind] at h
    split at h
    · cases h
    · exact ⟨_, (Except.error.inj h).symm⟩

end ComplianceMcp
