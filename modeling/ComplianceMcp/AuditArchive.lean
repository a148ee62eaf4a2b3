import ComplianceMcp.AuditAnchor
import ComplianceMcp.AuditExclusive
import ComplianceMcp.SpoolOrder

/-! # What the archive gets

A record is appended to the chain under the locks and enqueued for the sink after they are
released.  The server's instance has a forwarder; the instances of the review and the admin
command line have none, and `_rotate` writes its marker past the forwarder.  The machine of
this module joins the shared log and the spool: a call that leaves the lock owes its payloads
to the spool and returns when they are published.

`Forwards` is the condition under which the sink gets the chain: every record comes from an
instance that forwards, no file is rotated, and the records get their names in the spool in
the order of their numbers. -/
namespace ComplianceMcp

open PyJson PyText Files HashChain

/-! ## Payloads -/

section Payloads

variable (rt : Runtime)

/-- The field of a payload as the sink reads it. -/
def payloadField (payload : Bytes) (k : String) : Option Json :=
  match loadsBytes rt payload with
  | .ok (.obj d) => Json.get d k
  | _ => none

/-- The payload is not an anchor. -/
def isRecordPayload (payload : Bytes) : Bool :=
  payloadField rt payload "type" ≠ some (.str "anchor")

end Payloads

/-! ## The machine -/

/-- The log, the spool, and the payloads that each writer has still to enqueue. -/
structure Archive (I P : Type) where
  log : Shared I P
  spool : Spool P
  outbox : P → List Bytes

/-- Nothing is written, nothing is spooled. -/
def Archive.empty (I P : Type) : Archive I P := ⟨Shared.empty I P, Spool.empty P, fun _ => []⟩

inductive ArchiveAction (I P : Type) where
  | write (a : WriteAction I P)
  | enqueue (p : P) (draw : String)
  | writeTmp (p : P) (bytes : Nat)
  | publish (p : P)
  | startLoop (p : P)
  | startFlush (p : P)
  | stop (p : P)
  | send (p : P) (answer : SinkAnswer)
  | unlink (name : String)

variable {I P : Type}

section Machine

variable [DecidableEq I] [DecidableEq P]

/-- What the writers owe after the step: a call that releases the lock of its instance owes
the payloads of its record. -/
def Archive.owing (rt : Runtime) (logs : I → AuditLog) (s : Archive I P) :
    WriteAction I P → P → List Bytes
  | .advance p => match s.log.busy p with
    | some ⟨i, _, .leaving body⟩ => Function.update s.outbox p (forwarded rt (logs i) body)
    | _ => s.outbox
  | _ => s.outbox

/-- A call returns when its payloads are in the spool. -/
def Archive.ready (s : Archive I P) : WriteAction I P → Bool
  | .advance p => match s.log.busy p with
    | some ⟨_, _, .forwarding _⟩ => (s.outbox p).isEmpty && (s.spool.enqueues p).isNone
    | _ => true
  | _ => true

/-- A step of the spool. -/
def Archive.spoolStep (s : Archive I P) (a : SpoolAction P) : Option (Archive I P) :=
  (ComplianceMcp.spoolStep s.spool a).map (fun spool => { s with spool })

/-- The step function. -/
def archiveStep (rt : Runtime) (clock : Nat → String) (path : ChainPath) (logs : I → AuditLog)
    (s : Archive I P) : ArchiveAction I P → Option (Archive I P)
  | .write a =>
    if s.ready a then
      (sharedStep rt clock logs s.log a).map
      (fun log => { s with log, outbox := s.owing rt logs a })
    else none
  | .enqueue p draw => match s.outbox p with
    | [] => none
    | payload :: rest => (ComplianceMcp.spoolStep s.spool (.enqueue p draw payload)).map
        (fun spool => { s with spool, outbox := Function.update s.outbox p rest })
  | .writeTmp p bytes => s.spoolStep (.writeTmp p bytes)
  | .publish p => s.spoolStep (.publish p)
  | .startLoop p => s.spoolStep (.startLoop p)
  | .startFlush p => s.spoolStep (.startFlush p)
  | .stop p => s.spoolStep (.stop p)
  | .send p answer => s.spoolStep (.advance p answer)
  | .unlink name =>
    if path.isRotated name && (s.log.disk.dir.read name).isSome then
      some { s with log := { s.log with
        disk := { s.log.disk with dir := s.log.disk.dir.remove name } } }
    else none

end Machine

/-! ## The condition and the claim -/

section Conditions

variable (rt : Runtime) (path : ChainPath) (logs : I → AuditLog)

/-- A name is drawn once. -/
def FreshDraw (s : Archive I P) : ArchiveAction I P → Prop
  | .enqueue p draw => FreshName s.spool (.enqueue p draw [])
  | _ => True

/-- A record is appended through an instance that forwards, and the file is not rotated
after it. -/
def Archives (log : AuditLog) : WritePc → Prop
  | .appending _ _ _ => log.forwards = true
  | .comparing _ size => (size : Int) < log.rotateBytes
  | _ => True

/-- The payload is the next record in the order of the numbers. -/
def NextRecord (s : Spool P) : SpoolAction P → Prop
  | .publish p => ∀ e, s.enqueues p = some e → isRecordPayload rt e.payload = true →
      payloadField rt e.payload "seq" =
        some (.int ((recordsIn (isRecordPayload rt) s.published).length + 1))
  | _ => True

/-- Every record is forwarded, and gets its name in the order of the chain. -/
def Forwards (s : Archive I P) : ArchiveAction I P → Prop
  | .write (.advance p) => ∀ j, s.log.busy p = some j → Archives (logs j.inst) j.pc
  | .publish p => InOrder (isRecordPayload rt) s.spool (.publish p) ∧
      NextRecord rt s.spool (.publish p)
  | _ => True

/-- With finitely many processes the conditions can be checked. -/
instance [Fintype P] (s : Archive I P) (a : ArchiveAction I P) : Decidable (FreshDraw s a) :=
  match a with
  | .enqueue p draw => inferInstanceAs (Decidable (FreshName s.spool (.enqueue p draw [])))
  | .write _ | .writeTmp _ _ | .publish _ | .startLoop _ | .startFlush _ | .stop _ | .send _ _
  | .unlink _ =>
    isTrue trivial

instance (log : AuditLog) (pc : WritePc) : Decidable (Archives log pc) :=
  match pc with
  | .appending _ _ _ => instDecidableEqBool log.forwards true
  | .comparing _ size => Int.decLt (size : Int) log.rotateBytes
  | .entering | .opening | .locking _ | .reading _ | .unlocking _ _ _ | .readingHead _
  | .renaming _ _
  | .recreating _ _ _ | .overwriting _ _ _ | .leaving _ | .forwarding _ => isTrue trivial

instance (s : Spool P) (p : P) : Decidable (NextRecord rt s (.publish p)) :=
  decidable_of_iff (∀ e ∈ s.enqueues p, isRecordPayload rt e.payload = true →
    payloadField rt e.payload "seq" =
      some (.int ((recordsIn (isRecordPayload rt) s.published).length + 1))) Iff.rfl

instance (s : Archive I P) (a : ArchiveAction I P) : Decidable (Forwards rt logs s a) :=
  match a with
  | .write (.advance p) =>
    decidable_of_iff (∀ j ∈ s.log.busy p, Archives (logs j.inst) j.pc) Iff.rfl
  | .publish p => inferInstanceAs (Decidable (InOrder (isRecordPayload rt) s.spool (.publish p) ∧
      NextRecord rt s.spool (.publish p)))
  | .write (.construct _) | .write (.issue _ _ _) | .enqueue _ _ | .writeTmp _ _ | .startLoop _
  | .startFlush _ | .stop _ | .send _ _ | .unlink _ => isTrue trivial

/-- The payloads the sink has taken, anchors removed and repeats left out. -/
def delivered (posts : List Post) : List Bytes :=
  (((posts.filter (fun post => post.answer.taken)).map Post.payload).filter
    (isRecordPayload rt)).eraseDups

/-- With the spool empty and every call returned, the sink has the records of the chain in
chain order, each naming the one before it. -/
def ArchiveWhole (s : Archive I P) : Prop :=
  s.spool.dir.sortedNames isSpooled = [] → s.log.Idle →
    ∃ ds, chainRecords rt path s.log.disk.files = some (ds.map .obj) ∧
      (delivered rt s.spool.posts).map (loadsBytes rt) = ds.map (fun d => .ok (.obj d)) ∧
      HashChain.Linked chainLinks genesis ds

end Conditions

end ComplianceMcp
