import ComplianceMcp.Directory
import Mathlib.Logic.Function.Basic

/-! # Directories in use

Any number of processes each hold a `Directory` of the same `users.json`, any number of
threads call them, and the file is replaced at any moment.  A call is a list of
operations, each of them a `_load` and then a read: a tool call reads the version and
resolves the caller, a review command resolves the approver and reads the version.

`_load` is taken apart into the steps other threads can come between: reading the clock,
the unlocked comparison with the time of the last check, taking the lock and noting the
time, the `stat`, the read, and the two assignments.  `FileHistory.last` and
`DirState.confirmed` are history: the last time the file had a content, and whether the
latest check of the file has confirmed or replaced the snapshot. -/
namespace ComplianceMcp

open PyText

variable {P T : Type} [DecidableEq P] [DecidableEq T]

/-! ## Calls -/

inductive DirOp where
  | construct
  | version
  | resolve (requester : String)
  | requireGroup (requester group : String)
  | requireApprover (requester : String)
  deriving DecidableEq

/-- The identity an operation resolves. -/
def DirOp.requester : DirOp → Option String
  | .resolve q => some q
  | .requireGroup q _ => some q
  | .requireApprover q => some q
  | _ => none

/-- What an operation answers on the users of a snapshot. -/
def DirOp.answer (rt : Runtime) (users : List User) : DirOp → Option (Except PyError User)
  | .resolve q => some (ComplianceMcp.resolve rt users q)
  | .requireGroup q group => some (ComplianceMcp.requireGroup rt users q group)
  | .requireApprover q => some (ComplianceMcp.requireApprover rt users q)
  | _ => none

/-- Where a thread is in the current operation; `now` is what it read off the clock. -/
inductive LoadPc where
  | begin
  | check (now : Int)
  | acquire (now : Int)
  | stat (now : Int)
  | read (now mtime : Int)
  | assignUsers (now mtime : Int) (snap : Snapshot)
  | assignVersion (now mtime : Int) (snap : Snapshot)
  | use (now : Int)

/-- The thread is about to compare the clock with the time of the last check. -/
def LoadPc.checking : LoadPc → Option Int
  | .check n => some n
  | _ => none

/-- The users the thread is about to assign. -/
def LoadPc.assigning : LoadPc → Option Snapshot
  | .assignUsers _ _ snap => some snap
  | _ => none

/-- The load is over and the thread is about to read. -/
def LoadPc.reads : LoadPc → Bool
  | .use _ => true
  | _ => false

/-- The steps taken with the lock held. -/
def LoadPc.holds : LoadPc → Bool
  | .stat _ => true
  | .read _ _ => true
  | .assignUsers _ _ _ => true
  | .assignVersion _ _ _ => true
  | _ => false

/-- A call in progress: the operations to come, and what it has read so far. -/
structure DirCall (P : Type) where
  proc : P
  op : DirOp
  rest : List DirOp
  pc : LoadPc
  versions : List String
  consulted : List Snapshot

/-- What is written about a finished call: the versions it read and the snapshots whose
users it consulted. -/
structure DirRecord where
  versions : List String
  consulted : List Snapshot

/-- What an operation answered: the time it read, the snapshot it consulted, and the last
time the file had that content, as of the answer. -/
structure DirAnswer where
  now : Int
  op : DirOp
  snapshot : Snapshot
  seen : Option Int
  user : User
  deriving DecidableEq

/-- The file, the modification times there have been, and when it last had a content. -/
structure FileHistory where
  clock : Int
  file : Option UsersFile
  mtimes : List Int
  last : Bytes → Option Int

structure DirState (P T : Type) where
  env : FileHistory
  dir : P → Directory
  holder : P → Option T
  confirmed : P → Bool
  call : T → Option (DirCall P)
  answers : List DirAnswer
  records : List DirRecord

/-- No process has constructed its directory yet. -/
def DirState.start (clock : Int) : DirState P T where
  env := ⟨clock, none, [], fun _ => none⟩
  dir := fun _ => Directory.blank
  holder := fun _ => none
  confirmed := fun _ => false
  call := fun _ => none
  answers := []
  records := []

/-- What happens next: time passes, the file is replaced or removed, a thread starts a
call, a thread takes its next step, or its `stat` or read fails. -/
inductive DirAction (P T : Type) where
  | tick (by_ : Nat)
  | replace (f : Option UsersFile)
  | start (t : T) (p : P) (op : DirOp) (rest : List DirOp)
  | step (t : T)
  | fail (t : T)

/-- The thread whose step the action is. -/
def DirAction.stepper : DirAction P T → Option T
  | .step t => some t
  | _ => none

namespace FileHistory

/-- Time passes, and the file keeps its content meanwhile. -/
def tick (e : FileHistory) (n : Nat) : FileHistory :=
  let clock := e.clock + n
  match e.file with
  | none => { e with clock }
  | some f => { e with clock, last := Function.update e.last f.raw (some clock) }

/-- The file is removed. -/
def remove (e : FileHistory) : FileHistory := { e with file := none }

/-- The file is replaced. -/
def replace (e : FileHistory) (f : UsersFile) : FileHistory :=
  { e with
    file := some f
    mtimes := f.mtime :: e.mtimes
    last := Function.update e.last f.raw (some e.clock) }

end FileHistory

namespace DirState

/-- The thread goes on to `pc`. -/
def goto (s : DirState P T) (t : T) (c : DirCall P) (pc : LoadPc) : DirState P T :=
  { s with call := Function.update s.call t (some { c with pc }) }

/-- A field of the directory is assigned. -/
def setDir (s : DirState P T) (p : P) (d : Directory) : DirState P T :=
  { s with dir := Function.update s.dir p d }

/-- The thread takes the lock; the snapshot is not confirmed until the check is done. -/
def lock (s : DirState P T) (p : P) (t : T) : DirState P T :=
  { s with
    holder := Function.update s.holder p (some t)
    confirmed := Function.update s.confirmed p false }

/-- A user has been returned. -/
def answered (s : DirState P T) (a : DirAnswer) : DirState P T :=
  { s with answers := s.answers ++ [a] }

/-- The lock is released, and the check that held it was successful or not. -/
def release (s : DirState P T) (p : P) (confirmed : Bool) : DirState P T :=
  { s with
    holder := Function.update s.holder p none
    confirmed := Function.update s.confirmed p confirmed }

/-- The call is over and what it has read is recorded. -/
def finish (s : DirState P T) (t : T) (c : DirCall P) : DirState P T :=
  { s with
    call := Function.update s.call t none
    records := s.records ++ [⟨c.versions, c.consulted⟩] }

/-- The load raises: the lock is released and the call ends. -/
def abort (s : DirState P T) (t : T) (c : DirCall P) : DirState P T :=
  (s.release c.proc false).finish t c

/-- The operation has its result; the call goes on with the next one or ends. -/
def advance (s : DirState P T) (t : T) (c : DirCall P) : DirState P T :=
  match c.rest with
  | [] => s.finish t c
  | op :: rest =>
    { s with call := Function.update s.call t (some { c with op, rest, pc := .begin }) }

omit [DecidableEq P] in
@[simp] theorem goto_call (s : DirState P T) (t : T) (c : DirCall P) (pc : LoadPc) :
    (s.goto t c pc).call t = some { c with pc } := Function.update_self ..

omit [DecidableEq P] in
@[simp] theorem goto_dir (s : DirState P T) (t : T) (c : DirCall P) (pc : LoadPc) :
    (s.goto t c pc).dir = s.dir := rfl

omit [DecidableEq P] in
@[simp] theorem finish_call (s : DirState P T) (t : T) (c : DirCall P) :
    (s.finish t c).call t = none := Function.update_self ..

omit [DecidableEq T] in
@[simp] theorem release_dir (s : DirState P T) (p : P) (b : Bool) : (s.release p b).dir = s.dir :=
  rfl

omit [DecidableEq T] in
@[simp] theorem setDir_dir (s : DirState P T) (p : P) (d : Directory) :
    (s.setDir p d).dir p = d := Function.update_self ..

/-- The read after the load: the version, or the user of the requester. -/
def useOf (rt : Runtime) (s : DirState P T) (t : T) (c : DirCall P) (now : Int) : DirState P T :=
  let d := s.dir c.proc
  match c.op.requester with
  | none => match c.op with
    | .version => s.advance t { c with versions := d.version :: c.versions }
    | _ => s.advance t c
  | some q =>
    if requesterKey rt q = "" then s.advance t c
    else match d.snapshot with
      | none => s.advance t c
      | some snap =>
        let c := { c with consulted := snap :: c.consulted }
        match c.op.answer rt snap.users with
        | some (.ok user) =>
          (s.answered ⟨now, c.op, snap, s.env.last snap.raw, user⟩).advance t c
        | _ => s.advance t c

end DirState

/-- One step of `_load`, or of the read after it, by a thread. -/
def threadStep (rt : Runtime) (parse : Bytes → Except PyError (List User)) (ttl : Int)
    (s : DirState P T) (t : T) (c : DirCall P) : Option (DirState P T) :=
  let d := s.dir c.proc
  let force : Bool := c.op = .construct
  match c.pc with
  | .begin => some (s.goto t c (.check s.env.clock))
  | .check now => some (s.goto t c (if !force && now - d.checkedAt < ttl then .use now
      else .acquire now))
  -- `_checked_at` is assigned before the look, so a look that fails counts as done.
  | .acquire now =>
    if (s.holder c.proc).isSome then none
    else some (((s.lock c.proc t).setDir c.proc { d with checkedAt := now }).goto t c (.stat now))
  | .stat now =>
    match s.env.file with
    | none => some (s.abort t c)
    | some f =>
      some (if !force && f.mtime = d.mtime then (s.release c.proc true).goto t c (.use now)
        else s.goto t c (.read now f.mtime))
  -- The file may have been replaced since the `stat`; the time kept is the one of the `stat`.
  | .read now mtime =>
    match s.env.file with
    | none => some (s.abort t c)
    | some f => match parse f.raw with
      | .ok users => some (s.goto t c (.assignUsers now mtime ⟨f.raw, users⟩))
      | .error _ => some (s.abort t c)
  -- `users` and `version` are two assignments, and a reader holds no lock.
  | .assignUsers now mtime snap =>
    some ((s.setDir c.proc { d with snapshot := some snap }).goto t c
      (.assignVersion now mtime snap))
  | .assignVersion now mtime snap =>
    let d := { d with version := versionOf rt snap.raw, mtime := mtime }
    some (((s.setDir c.proc d).release c.proc true).goto t c (.use now))
  | .use now => some (s.useOf rt t c now)

/-- The step function.  Each content of the file has a modification time of its own. -/
def dirStep (rt : Runtime) (parse : Bytes → Except PyError (List User)) (ttl : Int)
    (s : DirState P T) : DirAction P T → Option (DirState P T)
  | .tick n => some { s with env := s.env.tick n }
  | .replace none => some { s with env := s.env.remove }
  | .replace (some f) =>
    if f.mtime ∈ s.env.mtimes then none else some { s with env := s.env.replace f }
  | .start t p op rest =>
    match s.call t with
    | none => some { s with call := Function.update s.call t (some ⟨p, op, rest, .begin, [], []⟩) }
    | some _ => none
  | .step t => (s.call t).bind (threadStep rt parse ttl s t)
  | .fail t => (s.call t).bind (fun c => match c.pc with
    | .stat _ => some (s.abort t c)
    | .read _ _ => some (s.abort t c)
    | _ => none)

/-! ## What a step can do -/

section Transitions

variable (rt : Runtime) (parse : Bytes → Except PyError (List User)) (ttl : Int)

/-- The steps of a load that change nothing but the place of the thread. -/
inductive Moves (s : DirState P T) (c : DirCall P) : LoadPc → Prop where
  | begin (hpc : c.pc = .begin) : Moves s c (.check s.env.clock)
  | cached (now : Int) (hpc : c.pc = .check now) (hop : c.op ≠ .construct)
      (ht : now - (s.dir c.proc).checkedAt < ttl) : Moves s c (.use now)
  | due (now : Int) (hpc : c.pc = .check now) : Moves s c (.acquire now)
  | changed (now : Int) (f : UsersFile) (hpc : c.pc = .stat now) (hf : s.env.file = some f) :
      Moves s c (.read now f.mtime)
  | loaded (now mtime : Int) (f : UsersFile) (users : List User) (hpc : c.pc = .read now mtime)
      (hf : s.env.file = some f) (hp : parse f.raw = .ok users) :
      Moves s c (.assignUsers now mtime ⟨f.raw, users⟩)

/-- Everything a step can do to the state. -/
inductive DirTransition (s : DirState P T) : DirAction P T → DirState P T → Prop where
  | tick (n : Nat) : DirTransition s (.tick n) { s with env := s.env.tick n }
  | remove : DirTransition s (.replace none) { s with env := s.env.remove }
  | replace (f : UsersFile) (hnew : f.mtime ∉ s.env.mtimes) :
      DirTransition s (.replace (some f)) { s with env := s.env.replace f }
  | start (t : T) (p : P) (op : DirOp) (rest : List DirOp) (hc : s.call t = none) :
      DirTransition s (.start t p op rest)
        { s with call := Function.update s.call t (some ⟨p, op, rest, .begin, [], []⟩) }
  | move (t : T) (c : DirCall P) (pc : LoadPc) (hc : s.call t = some c)
      (hm : Moves parse ttl s c pc) : DirTransition s (.step t) (s.goto t c pc)
  | acquire (t : T) (c : DirCall P) (now : Int) (hc : s.call t = some c) (hpc : c.pc = .acquire now)
      (hfree : s.holder c.proc = none) :
      DirTransition s (.step t)
        (((s.lock c.proc t).setDir c.proc { s.dir c.proc with checkedAt := now }).goto t
          c (.stat now))
  | confirm (t : T) (c : DirCall P) (now : Int) (f : UsersFile) (hc : s.call t = some c)
      (hpc : c.pc = .stat now) (hf : s.env.file = some f) (hop : c.op ≠ .construct)
      (hm : f.mtime = (s.dir c.proc).mtime) :
      DirTransition s (.step t) ((s.release c.proc true).goto t c (.use now))
  | abort (t : T) (c : DirCall P) (a : DirAction P T) (ha : a = .step t ∨ a = .fail t)
      (hc : s.call t = some c) (hpc : (∃ now, c.pc = .stat now) ∨
        ∃ now mtime, c.pc = .read now mtime) :
      DirTransition s a (s.abort t c)
  | assignUsers (t : T) (c : DirCall P) (now mtime : Int) (snap : Snapshot) (hc : s.call t = some c)
      (hpc : c.pc = .assignUsers now mtime snap) :
      DirTransition s (.step t)
        ((s.setDir c.proc { s.dir c.proc with snapshot := some snap }).goto t c
          (.assignVersion now mtime snap))
  | assignVersion (t : T) (c : DirCall P) (now mtime : Int) (snap : Snapshot)
      (hc : s.call t = some c) (hpc : c.pc = .assignVersion now mtime snap) :
      DirTransition s (.step t)
        (((s.setDir c.proc { s.dir c.proc with
          version := versionOf rt snap.raw, mtime := mtime }).release
          c.proc true).goto t c (.use now))
  | use (t : T) (c : DirCall P) (now : Int) (hc : s.call t = some c) (hpc : c.pc = .use now) :
      DirTransition s (.step t) (s.useOf rt t c now)

variable {rt parse ttl}

/-- **What the read after a load does to the state.** -/
inductive Used (rt : Runtime) (s : DirState P T) (t : T) (c : DirCall P) (now : Int) :
    DirState P T → Prop where
  | version (hop : c.op = .version) :
      Used rt s t c now (s.advance t { c with versions := (s.dir c.proc).version :: c.versions })
  | nothing : Used rt s t c now (s.advance t c)
  | refused (snap : Snapshot) (hs : (s.dir c.proc).snapshot = some snap) :
      Used rt s t c now (s.advance t { c with consulted := snap :: c.consulted })
  | answered (snap : Snapshot) (user : User) (hs : (s.dir c.proc).snapshot = some snap)
      (ha : c.op.answer rt snap.users = some (.ok user)) :
      Used rt s t c now ((s.answered ⟨now, c.op, snap, s.env.last snap.raw, user⟩).advance t
        { c with consulted := snap :: c.consulted })

omit [DecidableEq P] in
theorem useOf_cases (s : DirState P T) (t : T) (c : DirCall P) (now : Int) :
    Used rt s t c now (s.useOf rt t c now) := by
  unfold DirState.useOf
  simp only
  split
  · split
    · next hop => exact .version hop
    · exact .nothing
  split
  · exact .nothing
  split
  · exact .nothing
  next snap hs =>
  split
  · next user ha => exact .answered snap user hs ha
  · exact .refused snap hs

omit [DecidableEq P] in
/-- After an operation the call is over or is about to begin the next one. -/
theorem advance_call (s : DirState P T) (t : T) (c : DirCall P) :
    (s.advance t c).call t = none ∨
      ∃ op rest, (s.advance t c).call t = some { c with op := op, rest := rest, pc := .begin } := by
  unfold DirState.advance
  split
  · exact Or.inl (Function.update_self ..)
  · exact Or.inr ⟨_, _, Function.update_self ..⟩

theorem threadStep_cases {s s' : DirState P T} {t : T} {c : DirCall P} (hc : s.call t = some c)
    (h : threadStep rt parse ttl s t c = some s') : DirTransition rt parse ttl s (.step t) s' := by
  unfold threadStep at h
  simp only at h
  split at h
  case h_1 hpc =>
    cases h
    exact .move t c _ hc (.begin hpc)
  case h_2 now hpc =>
    cases h
    split
    · next hif =>
      obtain ⟨hop, ht⟩ := Bool.and_eq_true_iff.mp hif
      exact .move t c _ hc (.cached now hpc (by simpa using hop) (of_decide_eq_true ht))
    · exact .move t c _ hc (.due now hpc)
  case h_3 now hpc =>
    split at h
    · cases h
    next hfree =>
    cases h
    exact .acquire t c now hc hpc (Option.not_isSome_iff_eq_none.mp hfree)
  case h_4 now hpc =>
    split at h
    · cases h
      exact .abort t c _ (Or.inl rfl) hc (Or.inl ⟨now, hpc⟩)
    next f hf =>
    cases h
    split
    · next hif =>
      obtain ⟨hop, hm⟩ := Bool.and_eq_true_iff.mp hif
      exact .confirm t c now f hc hpc hf (by simpa using hop) (of_decide_eq_true hm)
    · exact .move t c _ hc (.changed now f hpc hf)
  case h_5 now mtime hpc =>
    split at h
    · cases h
      exact .abort t c _ (Or.inl rfl) hc (Or.inr ⟨now, mtime, hpc⟩)
    next f hf =>
    split at h
    · next users hp =>
      cases h
      exact .move t c _ hc (.loaded now mtime f users hpc hf hp)
    · cases h
      exact .abort t c _ (Or.inl rfl) hc (Or.inr ⟨now, mtime, hpc⟩)
  case h_6 now mtime snap hpc =>
    cases h
    exact .assignUsers t c now mtime snap hc hpc
  case h_7 now mtime snap hpc =>
    cases h
    exact .assignVersion t c now mtime snap hc hpc
  case h_8 now hpc =>
    cases h
    exact .use t c now hc hpc

/-- **The inversion of the step function.** -/
theorem dirStep_cases {s s' : DirState P T} {a : DirAction P T}
    (h : dirStep rt parse ttl s a = some s') : DirTransition rt parse ttl s a s' := by
  unfold dirStep at h
  split at h
  case h_1 n =>
    cases h
    exact .tick n
  case h_2 =>
    cases h
    exact .remove
  case h_3 f =>
    split at h
    · cases h
    next hnew =>
    cases h
    exact .replace f hnew
  case h_4 t p op rest =>
    split at h
    · next hc =>
      cases h
      exact .start t p op rest hc
    · cases h
  case h_5 t =>
    obtain ⟨c, hc, h⟩ := Option.bind_eq_some_iff.mp h
    exact threadStep_cases hc h
  case h_6 t =>
    obtain ⟨c, hc, h⟩ := Option.bind_eq_some_iff.mp h
    split at h
    · next now hpc =>
      cases h
      exact .abort t c _ (Or.inr rfl) hc (Or.inl ⟨now, hpc⟩)
    · next now mtime hpc =>
      cases h
      exact .abort t c _ (Or.inr rfl) hc (Or.inr ⟨now, mtime, hpc⟩)
    · cases h

end Transitions

/-! ## A sample directory -/

/-- An analyst, before and after the deactivation. -/
def sampleUser (active : Bool) : User where
  id := "0001"
  upn := "priya@example-am.com"
  name := "Priya"
  groups := [ANALYST_GROUP]
  active := active
  kind := .person

/-- `users.json` with that user alone. -/
def sampleUsersText (active : Bool) : Bytes :=
  utf8
    (("\x7b\"users\": [\x7b\"id\": \"0001\", \"upn\": \"priya@example-am.com\", " ++
      "\"name\": \"Priya\", \"groups\": [\"compliance-analysts\"], \"active\": " ++
      (if active then "true" else "false") ++ "\x7d]\x7d").toList)

/-- Parsing, on the two contents of the file the sample runs know. -/
def sampleParse (raw : Bytes) : Except PyError (List User) :=
  if raw = sampleUsersText true then .ok [sampleUser true]
  else if raw = sampleUsersText false then .ok [sampleUser false]
  else .error .jsonDecodeError

/-- The process constructs its directory from the file with the active user. -/
def sampleStartup : List (DirAction Unit Unit) :=
  [.replace (some ⟨1, sampleUsersText true⟩), .start () () .construct []] ++
    List.replicate 8 (.step ())

end ComplianceMcp
