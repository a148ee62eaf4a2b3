import ComplianceMcp.AuditShared
import Mathlib.Data.Fintype.Basic
import Mathlib.Data.List.Perm.Basic

/-! # When a shared log stays whole

The `flock` keeps two appends to one inode apart, and nothing else.  A rotation runs without
it: a record that is appended after the rotation has read the head makes the marker name the
wrong predecessor, a record that is appended to the new file before the marker overwrites it
is gone, and a writer that has opened the file before it was renamed goes on appending to
the old one.

`Exclusive` is the condition on a step under which none of this happens: a writer reads the
tail, appends, or reads the head for a rotation only while no other writer is between the
head and the marker of a rotation, and its inode still has the active name.  In a run of such
steps the files represent a sound ledger in every state between rotations. -/
namespace ComplianceMcp

open PyJson PyText Files HashChain Steps

variable {I P : Type}

/-! ## The condition -/

namespace Shared

variable (s : Shared I P)

/-- The record that the writer has appended and not yet returned. -/
def writtenBy (p : P) : Option Dict := (s.busy p).bind (fun j => j.pc.written)

/-- The writer has read the head for a marker it has not yet written. -/
def rotatingBy (p : P) : Bool := (s.busy p).any (fun j => j.pc.rotating)

/-- The writer has renamed the file and not yet written the marker. -/
def renamedBy (p : P) : Bool := (s.busy p).any (fun j => j.pc.renamed)

/-- No other writer is in the middle of a rotation. -/
def Alone (p : P) : Prop := ∀ q, q ≠ p → s.rotatingBy q = false

/-- Nobody has renamed the file without having written the marker. -/
def Settled : Prop := ∀ q, s.renamedBy q = false

/-- Every call has returned or raised. -/
def Idle : Prop := ∀ p, s.busy p = none

end Shared

section Conditions

variable (clock : Nat → String) (path : ChainPath) (s : Shared I P)

/-- The chain is touched only while no other writer is in the middle of a rotation, and
through the inode that has the active name. -/
def Touches (p : P) : WritePc → Prop
  | .reading ino => s.disk.dir.read path.active = some ino ∧ s.Alone p
  | .appending ino _ _ => s.disk.dir.read path.active = some ino ∧ s.Alone p
  | .readingHead _ => s.Alone p
  | _ => True

/-- `Touches` for the writer that makes the step. -/
def Exclusive : WriteAction I P → Prop
  | .advance p => ∀ j, s.busy p = some j → Touches path s p j.pc
  | _ => True

/-- The next name of a rotated file comes after those there are. -/
def NameAfter : Prop :=
  ∀ n, path.isRotated n = true → (s.disk.dir.read n).isSome = true →
  n < path.rotated (clock s.rotations)

/-- A rotation draws a name after those of all rotated files. -/
def NamesAscend : WriteAction I P → Prop
  | .advance p => ∀ j, s.busy p = some j → j.pc.renames = true → NameAfter clock path s
  | _ => True

/-- With finitely many writers the conditions can be checked. -/
instance [Fintype P] [DecidableEq P] (p : P) : Decidable (s.Alone p) :=
  inferInstanceAs (Decidable (∀ q, q ≠ p → s.rotatingBy q = false))

instance [Fintype P] [DecidableEq P] (p : P) (pc : WritePc) : Decidable (Touches path s p pc) := by
  cases pc <;> unfold Touches <;> infer_instance

instance [Fintype P] [DecidableEq P] (a : WriteAction I P) : Decidable (Exclusive path s a) :=
  match a with
  | .advance p => decidable_of_iff (∀ j ∈ s.busy p, Touches path s p j.pc) Iff.rfl
  | .construct _ | .issue _ _ _ => isTrue trivial

instance : Decidable (NameAfter clock path s) :=
  decidable_of_iff (∀ n ∈ s.disk.dir.sortedNames path.isRotated, n < path.rotated
    (clock s.rotations)) (forall_congr' (fun _ => by rw [Dir.mem_sortedNames, and_imp]))

instance (a : WriteAction I P) : Decidable (NamesAscend clock path s a) :=
  match a with
  | .advance p => decidable_of_iff (∀ j ∈ s.busy p, j.pc.renames = true →
      NameAfter clock path s) Iff.rfl
  | .construct _ | .issue _ _ _ => isTrue trivial

end Conditions

/-- What a step does to the records: an append adds one, and only a rotation starts a new
file. -/
def WritePc.Grows (pc : WritePc) (l l' : Ledger) : Prop :=
  match pc with
  | .appending _ body _ => l' = l.append (Json.sortedFields body)
  | .renaming _ _ => True
  | .overwriting _ _ _ => True
  | _ => l' = l

/-- `Grows` for the writer that makes the step. -/
def Grows (s : Shared I P) (l l' : Ledger) : WriteAction I P → Prop
  | .advance p => ∀ j, s.busy p = some j → j.pc.Grows l l'
  | _ => l' = l

/-! ## The invariant -/

/-- The marker that is due continues the file archived last, and names its head. -/
def Continuing (l : Ledger) (h : Json) (rotated : String) : Prop :=
  ∃ prev ds rest, h = .str prev ∧ l.active = [] ∧ l.archived = rest ++ [(rotated, ds)] ∧
    HashChain.head chainLinks genesis l.records = some (.str prev)

section Invariant

variable (rt : Runtime) (path : ChainPath) (key : String) (logs : I → AuditLog)

/-- What a writer relies on.  A record that is about to be appended fits the file unless the
file has been renamed since. -/
def WriterFits (s : Shared I P) (l : Ledger) (p : P) (j : Job I) : Prop :=
  match j.pc with
  | .locking ino => ino < s.disk.next
  | .reading ino => ino < s.disk.next ∧ s.locked ino = some p
  | .appending ino body bytes => ino < s.disk.next ∧ s.locked ino = some p ∧
      (s.disk.dir.read path.active = some ino → s.Settled ∧
        appendRecord rt (logs j.inst) j.call.entry j.call.stamp (s.disk.content ino) =
          .ok (body, bytes))
  | .unlocking ino _ _ => s.locked ino = some p
  | .renaming _ h => ∃ prev, h = .str prev ∧ l.active ≠ [] ∧
      HashChain.head chainLinks genesis l.records = some (.str prev)
  | .recreating _ h rotated => Continuing l h rotated
  | .overwriting _ h rotated => Continuing l h rotated
  | _ => True

/-- The files hold the ledger; `pending` are the records appended and not yet returned. -/
structure SharedInv (s : Shared I P) (l : Ledger) (pending : List (P × Dict)) : Prop where
  sane : s.disk.Sane
  represents : Represents rt path s.disk.files l
  accepted : Accepted rt key l.records
  continues : l.Continues
  started : s.Settled → l.active = [] → l.archived = []
  fits : ∀ p j, s.busy p = some j → WriterFits rt path logs s l p j
  rotators : ∀ p q, s.rotatingBy p = true → s.rotatingBy q = true → p = q
  records : (dropMarkers none (l.named path.active)).Perm
    ((s.returned ++ pending.map Prod.snd).map Json.sortedFields)
  pending_nodup : pending.Nodup
  mem_pending : ∀ p b, (p, b) ∈ pending ↔ s.writtenBy p = some b
  bodies : ∀ b ∈ s.returned ++ pending.map Prod.snd, ∃ b₀, IsBody b₀ ∧ b = sealed rt key b₀

theorem SharedInv.empty : SharedInv rt path key logs (Shared.empty I P) ⟨[], []⟩ [] where
  sane := Disk.Sane.empty
  represents := (Consistent.empty rt (fun _ => "") path key).represents
  accepted := ⟨trivial, fun _ hd => absurd hd List.not_mem_nil⟩
  continues := fun _ hd => by cases hd
  started := fun _ _ => rfl
  fits := fun _ _ h => (nomatch h)
  rotators := fun _ _ h => (nomatch h)
  records := List.Perm.refl _
  pending_nodup := List.nodup_nil
  mem_pending := fun p b => ⟨fun h => (nomatch h), fun h => (nomatch h)⟩
  bodies := fun _ h => (nomatch h)

end Invariant

/-! ## Steps that leave the ledger as it is -/

section Moves

variable {rt : Runtime} {path : ChainPath} {key : String} {logs : I → AuditLog}
variable {s t : Shared I P} {l : Ledger} {pending : List (P × Dict)} {p q : P} {j : Job I}

theorem WritePc.rotating_of_renamed {pc : WritePc} (h : pc.renamed = true) :
    pc.rotating = true := by
  cases pc <;> first | rfl | cases h

theorem Shared.rotatingBy_of_renamedBy (h : s.renamedBy p = true) : s.rotatingBy p = true := by
  unfold renamedBy at h
  unfold rotatingBy
  cases hb : s.busy p with
  | none =>
    rw [hb] at h
    cases h
  | some j =>
    rw [hb] at h
    exact WritePc.rotating_of_renamed h

theorem SharedInv.alone (hi : SharedInv rt path key logs s l pending) (h : s.rotatingBy p = true) :
    s.Alone p := by
  intro q hq
  by_contra hr
  exact hq (hi.rotators q p (Bool.not_eq_false _ ▸ hr) h)

/-- A writer with nothing to rely on but the chain. -/
theorem WriterFits.congr (h : WriterFits rt path logs s l q j) (hnext : s.disk.next ≤ t.disk.next)
    (hlock : ∀ ino, s.locked ino = some q → t.locked ino = some q)
    (hready : ∀ ino body bytes, j.pc = .appending ino body bytes → ino < s.disk.next →
      s.locked ino = some q → t.disk.dir.read path.active = some ino →
      s.disk.dir.read path.active = some ino ∧
        (s.Settled → t.Settled ∧ t.disk.content ino = s.disk.content ino)) :
    WriterFits rt path logs t l q j := by
  unfold WriterFits at h ⊢
  split at h
  next ino hpc => exact Nat.lt_of_lt_of_le h hnext
  next ino hpc => exact ⟨Nat.lt_of_lt_of_le h.1 hnext, hlock ino h.2⟩
  next ino body bytes hpc =>
    obtain ⟨hlt, hl, hr⟩ := h
    refine ⟨Nat.lt_of_lt_of_le hlt hnext, hlock ino hl, fun ha => ?_⟩
    obtain ⟨hact, hkeep⟩ := hready ino body bytes hpc hlt hl ha
    obtain ⟨hs, happ⟩ := hr hact
    obtain ⟨ht, hcont⟩ := hkeep hs
    exact ⟨ht, hcont ▸ happ⟩
  next ino body size hpc => exact hlock ino h
  next body h' hpc => exact h
  next body h' rotated hpc => exact h
  next body h' rotated hpc => exact h
  next => trivial

/-- A writer outside a rotation does not depend on the ledger. -/
theorem WriterFits.any_ledger (h : WriterFits rt path logs s l q j) (hr : j.pc.rotating = false)
    (l' : Ledger) :
    WriterFits rt path logs s l' q j := by
  obtain ⟨i, c, pc⟩ := j
  cases pc <;> first | exact h | cases hr

/-- **A writer moves and the disk stays.**  What the others rely on stays, and so does what
the writer has written and renamed. -/
theorem SharedInv.move (hi : SharedInv rt path key logs s l pending) (hdisk : t.disk = s.disk)
    (hbusy : ∀ q, q ≠ p → t.busy q = s.busy q) (hret : t.returned = s.returned)
    (hlock : ∀ q ino, q ≠ p → s.locked ino = some q → t.locked ino = some q)
    (hw : t.writtenBy p = s.writtenBy p) (hren : t.renamedBy p = s.renamedBy p)
    (hrot : t.rotatingBy p = true → s.Alone p)
    (hfit : ∀ j, t.busy p = some j → (t.Settled ↔ s.Settled) → WriterFits rt path logs t l p j) :
    SharedInv rt path key logs t l pending := by
  have hren' : ∀ q, t.renamedBy q = s.renamedBy q := by
    intro q
    by_cases hq : q = p
    · rw [hq, hren]
    · rw [Shared.renamedBy, hbusy q hq]
      rfl
  have hset : t.Settled ↔ s.Settled := forall_congr' (fun q => by rw [hren'])
  have hrot' : ∀ q, q ≠ p → t.rotatingBy q = s.rotatingBy q := by
    intro q hq
    rw [Shared.rotatingBy, hbusy q hq]
    rfl
  have halone : t.rotatingBy p = true → ∀ q, t.rotatingBy q = true → q = p := by
    intro hp q hq
    by_contra hne
    rw [hrot' q hne, hrot hp q hne] at hq
    cases hq
  constructor
  case sane => rw [hdisk]; exact hi.sane
  case represents => rw [hdisk]; exact hi.represents
  case accepted => exact hi.accepted
  case continues => exact hi.continues
  case started => exact fun h => hi.started (hset.mp h)
  case fits =>
    intro q j hj
    by_cases hq : q = p
    · subst hq
      exact hfit j hj hset
    · rw [hbusy q hq] at hj
      refine (hi.fits q j hj).congr (by rw [hdisk]) (fun ino => hlock q ino hq)
        (fun ino body bytes _ _ _ ha => ?_)
      rw [hdisk] at ha ⊢
      exact ⟨ha, fun h => ⟨hset.mpr h, rfl⟩⟩
  case rotators =>
    intro q q' hq hq'
    by_cases hqp : t.rotatingBy p = true
    · exact (halone hqp q hq).trans (halone hqp q' hq').symm
    · have hne : q ≠ p := fun h => hqp (h ▸ hq)
      have hne' : q' ≠ p := fun h => hqp (h ▸ hq')
      rw [hrot' q hne] at hq
      rw [hrot' q' hne'] at hq'
      exact hi.rotators q q' hq hq'
  case records => rw [hret]; exact hi.records
  case pending_nodup => exact hi.pending_nodup
  case mem_pending =>
    intro q b
    rw [hi.mem_pending]
    by_cases hq : q = p
    · rw [hq, hw]
    · rw [Shared.writtenBy, Shared.writtenBy, hbusy q hq]
  case bodies => rw [hret]; exact hi.bodies

/-- **The active file is created where there is none.** -/
theorem SharedInv.touch (hi : SharedInv rt path key logs s l pending) :
    SharedInv rt path key logs { s with disk := s.disk.touch path.active } l pending where
  sane := hi.sane.touch path.active
  represents := hi.represents.setActive (fun n => Disk.read_files_touch hi.sane path.active n)
    hi.represents.active
  accepted := hi.accepted
  continues := hi.continues
  started := hi.started
  fits := fun q j hj => by
    refine (hi.fits q j hj).congr (t := { s with disk := s.disk.touch path.active })
      (Disk.next_le_touch _ _) (fun _ h => h) (fun ino body bytes _ hlt _ ha => ?_)
    refine ⟨?_, fun h => ⟨h, Disk.content_touch hlt⟩⟩
    by_contra hne
    exact Disk.read_touch_ne hlt hne ha
  rotators := hi.rotators
  records := hi.records
  pending_nodup := hi.pending_nodup
  mem_pending := hi.mem_pending
  bodies := hi.bodies

/-- A record has been appended, so the chain is not empty. -/
theorem SharedInv.active_ne_nil (hi : SharedInv rt path key logs s l pending)
    (hs : s.Settled) {b : Dict} (hw : s.writtenBy p = some b) : l.active ≠ [] := by
  intro hnil
  have hmem := (hi.mem_pending p b).mpr hw
  have hp := hi.records
  rw [Ledger.named, hi.started hs hnil, hnil] at hp
  have hnone : s.returned ++ pending.map Prod.snd = [] := List.map_eq_nil_iff.mp hp.symm.eq_nil
  rw [(List.append_eq_nil_iff.mp hnone).2 |> List.map_eq_nil_iff.mp] at hmem
  cases hmem

theorem SharedInv.sound (hi : SharedInv rt path key logs s l pending) (hs : s.Settled) :
    Ledger.Sound rt key l := ⟨hi.accepted, hi.continues, hi.started hs⟩

/-- With nobody in a rotation nobody has renamed the file. -/
theorem Shared.Alone.settled (h : s.Alone p) (hp : s.renamedBy p = false) : s.Settled := by
  intro q
  by_cases hq : q = p
  · rw [hq, hp]
  · by_contra hr
    have := Shared.rotatingBy_of_renamedBy (Bool.not_eq_false _ ▸ hr)
    rw [h q hq] at this
    cases this

end Moves

/-! ## Steps that change it -/

section Changes

variable [DecidableEq P] {rt : Runtime} {clock : Nat → String} {path : ChainPath} {key : String}
variable {logs : I → AuditLog} {s t : Shared I P} {l : Ledger} {pending : List (P × Dict)}
  {p q : P} {j : Job I}

theorem Shared.busy_goto_self (s : Shared I P) (p : P) (j : Job I) (disk : Disk) (pc : WritePc) :
    (s.goto p j disk pc).busy p = some { j with pc } := Function.update_self _ _ _

theorem Shared.busy_goto_of_ne (s : Shared I P) {p q : P} (h : q ≠ p) (j : Job I) (disk : Disk)
    (pc : WritePc) :
    (s.goto p j disk pc).busy q = s.busy q := Function.update_of_ne h _ _

/-- The profile of a writer that has moved. -/
theorem Shared.writtenBy_goto (s : Shared I P) (p : P) (j : Job I) (disk : Disk) (pc : WritePc) :
    (s.goto p j disk pc).writtenBy p = pc.written := by
  rw [writtenBy, busy_goto_self]
  rfl

theorem Shared.renamedBy_goto (s : Shared I P) (p : P) (j : Job I) (disk : Disk) (pc : WritePc) :
    (s.goto p j disk pc).renamedBy p = pc.renamed := by
  rw [renamedBy, busy_goto_self]
  rfl

theorem Shared.rotatingBy_goto (s : Shared I P) (p : P) (j : Job I) (disk : Disk) (pc : WritePc) :
    (s.goto p j disk pc).rotatingBy p = pc.rotating := by
  rw [rotatingBy, busy_goto_self]
  rfl

omit [DecidableEq P] in
theorem Shared.writtenBy_of (hb : s.busy p = some j) : s.writtenBy p = j.pc.written := by
  rw [writtenBy, hb]
  rfl

omit [DecidableEq P] in
theorem Shared.renamedBy_of (hb : s.busy p = some j) : s.renamedBy p = j.pc.renamed := by
  rw [renamedBy, hb]
  rfl

omit [DecidableEq P] in
theorem Shared.rotatingBy_of (hb : s.busy p = some j) : s.rotatingBy p = j.pc.rotating := by
  rw [rotatingBy, hb]
  rfl

omit [DecidableEq P] in
/-- Two writers do not hold the lock of one inode. -/
theorem lock_ne {ino : Nat} (hp : s.locked ino = some p) (hq : s.locked ino = some q) : q = p :=
  Option.some.inj (hq.symm.trans hp)

omit [DecidableEq P] in
/-- What is about to be appended to the active file is the next record of the chain. -/
theorem SharedInv.ready (hi : SharedInv rt path key logs s l pending)
    (hlogs : ∀ i, (logs i).path = path ∧ (logs i).hmacKey = key) {ino : Nat} {body : Dict}
    {bytes : Bytes} (hb : s.busy p = some j) (hpc : j.pc = .appending ino body bytes)
    (hact : s.disk.dir.read path.active = some ino) :
    ∃ prev, HashChain.head chainLinks genesis l.active = some (.str prev) ∧
      body = sealed rt key (recordBody rt (logs j.inst) j.call.entry j.call.stamp
        (.int (lastSeq l.active + 1)) (.str prev)) ∧
      bytes = utf8 (dumps lineStyle (.obj body) ++ ['\n']) := by
  have hfit := hi.fits p j hb
  unfold WriterFits at hfit
  rw [hpc] at hfit
  obtain ⟨-, -, hready⟩ := hfit
  obtain ⟨-, happ⟩ := hready hact
  have hholds := hi.represents.active
  rw [Disk.read_files, hact, Option.map_some, Option.getD_some] at hholds
  obtain ⟨prev, hprev, happ'⟩ :=
    appendRecord_of_holds hholds hi.continues (logs j.inst) j.call.entry j.call.stamp
  rw [happ, (hlogs j.inst).2] at happ'
  obtain ⟨hbody, hbytes⟩ := Prod.mk.inj (Except.ok.inj happ')
  exact ⟨prev, hprev, hbody, hbody ▸ hbytes⟩

/-- **The append.**  Nobody is in a rotation, and the inode is the active one. -/
theorem SharedInv.append (hi : SharedInv rt path key logs s l pending)
    (hlogs : ∀ i, (logs i).path = path ∧ (logs i).hmacKey = key) {ino : Nat} {body : Dict}
    {bytes : Bytes} (hb : s.busy p = some j) (hpc : j.pc = .appending ino body bytes)
    (hact : s.disk.dir.read path.active = some ino) (halone : s.Alone p) :
    SharedInv rt path key logs (s.goto p j (s.disk.store ino (s.disk.content ino ++ bytes))
      (.unlocking ino body (s.disk.content ino ++ bytes).length)) (l.append
      (Json.sortedFields body)) ((p, body) :: pending) := by
  obtain ⟨prev, hprev, hbodyEq, hbytesEq⟩ := hi.ready hlogs hb hpc hact
  have hfit := hi.fits p j hb
  unfold WriterFits at hfit
  rw [hpc] at hfit
  obtain ⟨-, hlock, hready⟩ := hfit
  obtain ⟨hset, -⟩ := hready hact
  have hkey : (logs j.inst).hmacKey = key := (hlogs j.inst).2
  have hholds := hi.represents.active
  rw [Disk.read_files, hact, Option.map_some, Option.getD_some] at hholds
  obtain ⟨b₀, hb₀⟩ : ∃ b₀, b₀ = recordBody rt (logs j.inst) j.call.entry j.call.stamp
    (.int (lastSeq l.active + 1)) (.str prev) := ⟨_, rfl⟩
  rw [← hb₀] at hbodyEq
  have hbody : IsBody b₀ := hb₀ ▸ recordBody_isBody rt _ _ _ rfl rfl
  have hst : Stored rt key prev (stored rt key b₀) := by
    rw [hb₀, ← hkey]
    exact stored_record rt _ _ _ _ _
  have hstored : Json.sortedFields body = stored rt key b₀ := by rw [hbodyEq, stored]
  have hsound := hi.sound hset
  have hnext := hsound.append (hsound.head_active ▸ hprev) hst
  rw [hstored]
  have hidle : s.writtenBy p = none := by rw [Shared.writtenBy_of hb, hpc]; rfl
  obtain ⟨t, ht⟩ : ∃ t, t = s.goto p j (s.disk.store ino (s.disk.content ino ++ bytes))
    (.unlocking ino body (s.disk.content ino ++ bytes).length) := ⟨_, rfl⟩
  have hself : t.busy p = some { j with
      pc := .unlocking ino body (s.disk.content ino ++ bytes).length } :=
    ht ▸ Shared.busy_goto_self s p j _ _
  have hother : ∀ q, q ≠ p → t.busy q = s.busy q :=
    fun q hq => ht ▸ Shared.busy_goto_of_ne s hq j _ _
  have hdisk : t.disk = s.disk.store ino (s.disk.content ino ++ bytes) := ht ▸ rfl
  have hquiet : ∀ q, t.rotatingBy q = false := by
    intro q
    by_cases hq : q = p
    · rw [hq, Shared.rotatingBy_of hself]
      rfl
    · rw [Shared.rotatingBy, hother q hq]
      exact halone q hq
  -- only a writer in a rotation can have renamed the file
  have htset : t.Settled := by
    intro q
    by_contra h
    have := Shared.rotatingBy_of_renamedBy (Bool.not_eq_false _ ▸ h)
    rw [hquiet q] at this
    cases this
  rw [← ht]
  constructor
  case sane => exact hdisk ▸ hi.sane.store ino _
  case represents =>
    rw [hdisk]
    refine hi.represents.setActive (fun n => Disk.read_files_store hi.sane hact _ n) ?_
    rw [hbytesEq, hbodyEq]
    exact appended_holds hholds lineStyle key hbody
  case accepted => exact hnext.accepted
  case continues => exact hnext.continues
  case started => exact fun _ => hnext.started
  case fits =>
    intro q j' hj'
    by_cases hq : q = p
    · subst hq
      rw [hself] at hj'
      cases hj'
      rw [ht]
      exact hlock
    · rw [hother q hq] at hj'
      have hnr : j'.pc.rotating = false := (Shared.rotatingBy_of hj').symm.trans (halone q hq)
      -- another writer that has read the file holds the lock of another inode
      refine ((hi.fits q j' hj').any_ledger hnr _).congr (by rw [hdisk]; exact Nat.le_refl _)
        (fun _ h => by rw [ht]; exact h) (fun ino' body' bytes' _ _ hl' ha => ?_)
      have hne : ino' ≠ ino := fun h => hq (lock_ne hlock (h ▸ hl'))
      rw [hdisk] at ha ⊢
      exact ⟨ha, fun _ => ⟨htset, Function.update_of_ne hne _ _⟩⟩
  case rotators =>
    intro q q' hq
    rw [hquiet q] at hq
    cases hq
  case records =>
    rw [dropMarkers_ledger_append (hi.started hset), ht]
    refine (hi.records.append_right [stored rt key b₀]).trans ?_
    rw [hbodyEq]
    show (List.map _ _ ++ _).Perm (List.map _ (s.returned ++ _ :: List.map Prod.snd pending))
    simp only [List.map_append, List.map_cons, List.append_assoc]
    exact List.Perm.append_left _ List.perm_append_comm
  case pending_nodup =>
    refine List.nodup_cons.mpr ⟨fun h => ?_, hi.pending_nodup⟩
    rw [hi.mem_pending, hidle] at h
    cases h
  case mem_pending =>
    intro q b
    rw [List.mem_cons, hi.mem_pending]
    by_cases hq : q = p
    · rw [hq, Shared.writtenBy_of hself, hidle]
      constructor
      · rintro (h | h)
        · exact congrArg some (Prod.mk.inj h).2.symm
        · cases h
      · intro h
        exact Or.inl (Prod.ext rfl (Option.some.inj h).symm)
    · rw [Shared.writtenBy, Shared.writtenBy, hother q hq]
      exact ⟨fun h => h.resolve_left (fun he => hq (Prod.mk.inj he).1), Or.inr⟩
  case bodies =>
    intro b hm
    rw [ht] at hm
    rcases List.mem_append.mp hm with hm | hm
    · exact hi.bodies b (List.mem_append_left _ hm)
    · rcases List.mem_cons.mp hm with rfl | hm
      · exact ⟨b₀, hbody, hbodyEq⟩
      · exact hi.bodies b (List.mem_append_right _ hm)

theorem unmarked_nil (file : Option String) : unmarked file [] = [] := by
  cases file <;> rfl

/-- **The rename.**  The writer alone is in a rotation, and draws a name after all others. -/
theorem SharedInv.rename (hi : SharedInv rt path key logs s l pending) {body : Dict}
    {h : Json} {disk : Disk} {name : String} (hb : s.busy p = some j)
    (hpc : j.pc = .renaming body h) (hname : path.isRotated name = true)
    (hlt : ∀ n, path.isRotated n = true → (s.disk.dir.read n).isSome = true → n < name)
    (hr : s.disk.rename path.active name = some disk) :
    ∃ l', SharedInv rt path key logs (s.tick.goto p j disk (.recreating body h name))
      l' pending := by
  have hfit := hi.fits p j hb
  unfold WriterFits at hfit
  rw [hpc] at hfit
  obtain ⟨prev, rfl, hne, hhead⟩ := hfit
  have halone : s.Alone p := hi.alone (by rw [Shared.rotatingBy_of hb, hpc]; rfl)
  have hne' : name ≠ path.active := by
    rintro rfl
    rw [isRotated_active] at hname
    cases hname
  -- the record that fills the active file is still in it
  obtain ⟨ino, hino⟩ : ∃ ino, s.disk.dir.read path.active = some ino := by
    cases hread : s.disk.dir.read path.active with
    | some ino => exact ⟨ino, rfl⟩
    | none =>
      have ha := hi.represents.active
      rw [Disk.read_files, hread, Option.map_none, Option.getD_none] at ha
      exact absurd ha.no_records hne
  obtain ⟨d', hd', hnext, hcontent, hread⟩ := @Disk.rename_some s.disk _ name _ hino
  rw [hr] at hd'
  cases hd'
  obtain ⟨t, ht⟩ : ∃ t, t = s.tick.goto p j disk (.recreating body (.str prev) name) := ⟨_, rfl⟩
  have hself : t.busy p = some { j with pc := .recreating body (.str prev) name } :=
    ht ▸ Shared.busy_goto_self _ p j _ _
  have hother : ∀ q, q ≠ p → t.busy q = s.busy q :=
    fun q hq => ht ▸ Shared.busy_goto_of_ne _ hq j _ _
  have hdisk : t.disk = disk := ht ▸ rfl
  have hactive : t.disk.dir.read path.active = none := by
    rw [hdisk, hread, if_neg hne'.symm, if_pos rfl]
  have hrecords : Ledger.records ⟨l.archived ++ [(name, l.active)], []⟩ = l.records := by
    simp [Ledger.records, Ledger.files]
  refine ⟨⟨l.archived ++ [(name, l.active)], []⟩, ?_⟩
  rw [← ht]
  constructor
  case sane => exact hdisk ▸ hi.sane.rename hino hnext hread
  case represents =>
    have hfile : s.disk.files.read path.active = some (s.disk.content ino) := by
      rw [Disk.read_files, hino, Option.map_some]
    refine hi.represents.archive hfile hname (fun n hn => ?_) (fun n => ?_)
    · have hm := (hi.represents.rotated n).mpr hn
      refine hlt n hm.1 ?_
      have hsome := hm.2
      rw [Disk.read_files, Option.isSome_map] at hsome
      exact hsome
    · rw [hdisk, Disk.read_files, hread, hcontent, Disk.read_files]
      by_cases hn : n = path.active
      · rw [hn, if_neg hne'.symm, if_pos rfl, if_pos rfl, Option.map_none]
      · rw [if_neg hn, if_neg hn]
        split
        · rfl
        · rfl
  case accepted => rw [hrecords]; exact hi.accepted
  case continues => exact fun _ hd => by cases hd
  case started =>
    intro hset
    have := hset p
    rw [Shared.renamedBy_of hself] at this
    cases this
  case fits =>
    intro q j' hj'
    by_cases hq : q = p
    · subst hq
      rw [hself] at hj'
      cases hj'
      exact ⟨prev, l.active, l.archived, rfl, rfl, rfl, by rw [hrecords]; exact hhead⟩
    · rw [hother q hq] at hj'
      have hnr : j'.pc.rotating = false := (Shared.rotatingBy_of hj').symm.trans (halone q hq)
      refine ((hi.fits q j' hj').any_ledger hnr _).congr (by rw [hdisk, hnext])
        (fun _ h => by rw [ht]; exact h) (fun ino' body' bytes' _ _ _ ha => ?_)
      rw [hactive] at ha
      cases ha
  case rotators =>
    have honly : ∀ q, t.rotatingBy q = true → q = p := by
      intro q hq
      by_contra hqp
      rw [Shared.rotatingBy, hother q hqp] at hq
      exact Bool.false_ne_true ((halone q hqp).symm.trans hq)
    exact fun q q' hq hq' => (honly q hq).trans (honly q' hq').symm
  case records =>
    -- the new file is empty, and no marker goes with the move
    have hdrop : dropMarkers none (Ledger.named ⟨l.archived ++ [(name, l.active)],
      []⟩ path.active) = dropMarkers none (l.named path.active) := by
      simp only [Ledger.named, dropMarkers_append, dropMarkers, unmarked_nil, List.append_nil]
    rw [hdrop, ht]
    exact hi.records
  case pending_nodup => exact hi.pending_nodup
  case mem_pending =>
    intro q b
    rw [hi.mem_pending]
    by_cases hq : q = p
    · rw [hq, Shared.writtenBy_of hself, Shared.writtenBy_of hb, hpc]
      rfl
    · rw [Shared.writtenBy, Shared.writtenBy, hother q hq]
  case bodies => exact ht ▸ hi.bodies

/-- **The marker.**  It is the only record of the new file and names the head of the old one. -/
theorem SharedInv.overwrite (hi : SharedInv rt path key logs s l pending)
    (hlogs : ∀ i, (logs i).path = path ∧ (logs i).hmacKey = key) {body : Dict} {h : Json}
    {name : String} (hb : s.busy p = some j) (hpc : j.pc = .overwriting body h name) :
    ∃ l', SharedInv rt path key logs (s.goto p j (s.disk.overwrite path.active
      (markerBytes rt (logs j.inst) j.call.markerStamp name h)) (.leaving body)) l' pending := by
  have hfit := hi.fits p j hb
  unfold WriterFits at hfit
  rw [hpc] at hfit
  obtain ⟨prev, ds, rest, rfl, hnil, harch, hhead⟩ := hfit
  obtain ⟨-, hkey⟩ := hlogs j.inst
  have halone : s.Alone p := hi.alone (by rw [Shared.rotatingBy_of hb, hpc]; rfl)
  -- the writer has moved the file, so what others have read is not owed to the new one
  have hunsettled : ¬ s.Settled := by
    intro hset
    have := hset p
    rw [Shared.renamedBy_of hb, hpc] at this
    cases this
  obtain ⟨m, hm⟩ : ∃ m, m = writtenMarker rt (logs j.inst) j.call name prev := ⟨_, rfl⟩
  have hstored : Stored rt key prev m := by
    rw [hm, ← hkey]
    exact stored_marker rt _ _ _ _
  obtain ⟨bytes, hbytes⟩ : ∃ bytes, bytes = markerBytes rt (logs j.inst) j.call.markerStamp name
      (.str prev) :=
    ⟨_, rfl⟩
  rw [← hbytes]
  obtain ⟨t, ht⟩ : ∃ t, t = s.goto p j (s.disk.overwrite path.active bytes) (.leaving body) :=
    ⟨_, rfl⟩
  have hself : t.busy p = some { j with pc := .leaving body } :=
    ht ▸ Shared.busy_goto_self s p j _ _
  have hother : ∀ q, q ≠ p → t.busy q = s.busy q :=
    fun q hq => ht ▸ Shared.busy_goto_of_ne s hq j _ _
  have hdisk : t.disk = s.disk.overwrite path.active bytes := ht ▸ rfl
  obtain ⟨hdir, hnext⟩ := Disk.dir_overwrite s.disk path.active bytes
  have hrecords : Ledger.records ⟨l.archived, [m]⟩ = l.records ++ [m] := by
    rw [Ledger.records, Ledger.files, Ledger.records, Ledger.files, hnil]
    simp
  refine ⟨⟨l.archived, [m]⟩, ?_⟩
  rw [← ht]
  constructor
  case sane => exact hdisk ▸ hi.sane.overwrite _ _
  case represents =>
    rw [hdisk]
    refine hi.represents.setActive
      (fun n => Disk.read_files_overwrite hi.sane path.active bytes n) ?_
    have hbody : IsBody (markerBody (logs j.inst) j.call.markerStamp name (.str prev)) :=
      markerBody_isBody _ _ _ rfl
    rw [hbytes, hm]
    exact appended_holds holds_nil markerStyle (logs j.inst).hmacKey hbody
  case accepted =>
    rw [hrecords]
    exact hi.accepted.concat hhead hstored
  case continues =>
    intro d hd
    cases hd
    exact hstored.numbered
  case started =>
    intro _ hnil
    cases hnil
  case fits =>
    intro q j' hj'
    by_cases hq : q = p
    · subst hq
      rw [hself] at hj'
      cases hj'
      trivial
    · rw [hother q hq] at hj'
      have hnr : j'.pc.rotating = false := (Shared.rotatingBy_of hj').symm.trans (halone q hq)
      refine ((hi.fits q j' hj').any_ledger hnr _).congr
        (by rw [hdisk, hnext]; exact Disk.next_le_touch _ _)
        (fun _ h => by rw [ht]; exact h) (fun ino' body' bytes' _ hlt _ ha => ?_)
      refine ⟨?_, fun hset => absurd hset hunsettled⟩
      by_contra hne
      rw [hdisk, hdir] at ha
      exact Disk.read_touch_ne hlt hne ha
  case rotators =>
    have hnone : ∀ q, t.rotatingBy q = false := by
      intro q
      by_cases hq : q = p
      · rw [hq, Shared.rotatingBy_of hself]
        rfl
      · rw [Shared.rotatingBy, hother q hq]
        exact halone q hq
    intro q q' hq
    rw [hnone q] at hq
    cases hq
  case records =>
    have hdrop : dropMarkers none (Ledger.named ⟨l.archived, [m]⟩ path.active) =
        dropMarkers none (l.named path.active) := by
      -- the one record of the new file is the marker of the one before it
      have hmark : unmarked (some name) [m] = [] := by
        simp only [unmarked, hm, isMarker_writtenMarker, if_true]
      simp only [Ledger.named, dropMarkers_append, dropMarkers, List.append_nil, harch,
        List.getLast?_concat, Option.map_some, Option.some_or, hmark, hnil, unmarked_nil]
    rw [hdrop, ht]
    exact hi.records
  case pending_nodup => exact hi.pending_nodup
  case mem_pending =>
    intro q b
    rw [hi.mem_pending]
    by_cases hq : q = p
    · rw [hq, Shared.writtenBy_of hself, Shared.writtenBy_of hb, hpc]
      rfl
    · rw [Shared.writtenBy, Shared.writtenBy, hother q hq]
  case bodies => exact ht ▸ hi.bodies

/-- **A call returns its record.** -/
theorem SharedInv.finish (hi : SharedInv rt path key logs s l pending) {body : Dict}
    (hb : s.busy p = some j) (hpc : j.pc = .forwarding body) :
    ∃ pending', SharedInv rt path key logs (s.finish p body) l pending' := by
  have hidle : (s.finish p body).busy p = none := Function.update_self _ _ _
  have hother : ∀ q, q ≠ p → (s.finish p body).busy q = s.busy q :=
    fun q hq => Function.update_of_ne hq _ _
  have hmem : (p, body) ∈ pending :=
    (hi.mem_pending p body).mpr (by rw [Shared.writtenBy_of hb, hpc]; rfl)
  have hperm : pending.Perm ((p, body) :: pending.erase (p, body)) := List.perm_cons_erase hmem
  have hren : ∀ q, (s.finish p body).renamedBy q = s.renamedBy q := by
    intro q
    by_cases hq : q = p
    · rw [hq, Shared.renamedBy_of hb, hpc, Shared.renamedBy, hidle]
      rfl
    · rw [Shared.renamedBy, hother q hq]
      rfl
  have hset : (s.finish p body).Settled ↔ s.Settled := forall_congr' (fun q => by rw [hren])
  -- the record passes from the pending ones to the returned ones
  have hreturned : (s.returned ++ pending.map Prod.snd).Perm
      ((s.finish p body).returned ++ (pending.erase (p, body)).map Prod.snd) := by
    show List.Perm _ (s.returned ++ [body] ++ _)
    rw [List.append_assoc]
    exact (hperm.map Prod.snd).append_left _
  refine ⟨pending.erase (p, body), ?_⟩
  constructor
  case sane => exact hi.sane
  case represents => exact hi.represents
  case accepted => exact hi.accepted
  case continues => exact hi.continues
  case started => exact fun h => hi.started (hset.mp h)
  case fits =>
    intro q j' hj'
    by_cases hq : q = p
    · rw [hq, hidle] at hj'
      cases hj'
    · rw [hother q hq] at hj'
      exact (hi.fits q j' hj').congr (t := s.finish p body) (Nat.le_refl _) (fun _ h => h)
        (fun ino body bytes _ _ _ ha => ⟨ha, fun h => ⟨hset.mpr h, rfl⟩⟩)
  case rotators =>
    intro q q' hq hq'
    have hrot : ∀ q, (s.finish p body).rotatingBy q = true → s.rotatingBy q = true := by
      intro q hq
      by_cases hqp : q = p
      · rw [hqp, Shared.rotatingBy, hidle] at hq
        cases hq
      · rw [Shared.rotatingBy, hother q hqp] at hq
        exact hq
    exact hi.rotators q q' (hrot q hq) (hrot q' hq')
  case records => exact hi.records.trans (hreturned.map _)
  case pending_nodup => exact hi.pending_nodup.erase _
  case mem_pending =>
    intro q b
    rw [hi.pending_nodup.mem_erase_iff, hi.mem_pending]
    by_cases hq : q = p
    · rw [hq, Shared.writtenBy_of hb, hpc, Shared.writtenBy, hidle]
      constructor
      · rintro ⟨hne, hw⟩
        have hbody : body = b := Option.some.inj hw
        exact absurd (congrArg (Prod.mk p) hbody.symm) hne
      · intro h
        cases h
    · rw [Shared.writtenBy, Shared.writtenBy, hother q hq]
      exact ⟨fun h => h.2, fun h => ⟨fun he => hq (Prod.mk.inj he).1, h⟩⟩
  case bodies => exact fun b hm => hi.bodies b (hreturned.symm.subset hm)

end Changes

/-! ## One step -/

section Step

variable [DecidableEq I] [DecidableEq P] {rt : Runtime} {clock : Nat → String} {path : ChainPath}
variable {key : String} {logs : I → AuditLog} {s t : Shared I P} {l : Ledger}
  {pending : List (P × Dict)}
variable {p : P} {j : Job I}

omit [DecidableEq I] in
/-- A writer goes on without touching the disk. -/
theorem SharedInv.goto (hi : SharedInv rt path key logs s l pending) {r : Shared I P}
    (hbusy : r.busy = s.busy) (hret : r.returned = s.returned)
    (hlock : ∀ q ino, q ≠ p → s.locked ino = some q → r.locked ino = some q)
    (hb : s.busy p = some j) {pc : WritePc} (hw : pc.written = j.pc.written)
    (hren : pc.renamed = j.pc.renamed) (hrot : pc.rotating = true → s.Alone p)
    (hfit : ((r.goto p j s.disk pc).Settled ↔ s.Settled) →
      WriterFits rt path logs (r.goto p j s.disk pc) l p { j with pc }) :
    SharedInv rt path key logs (r.goto p j s.disk pc) l pending := by
  refine hi.move (t := r.goto p j s.disk pc) (p := p) rfl (fun q hq => ?_) hret hlock ?_
    ?_ (fun h => ?_) (fun j' hj' hset => ?_)
  · rw [Shared.busy_goto_of_ne r hq, hbusy]
  · rw [Shared.writtenBy_goto, Shared.writtenBy_of hb, hw]
  · rw [Shared.renamedBy_goto, Shared.renamedBy_of hb, hren]
  · rw [Shared.rotatingBy_goto] at h
    exact hrot h
  · rw [Shared.busy_goto_self] at hj'
    cases hj'
    exact hfit hset

/-- **One step of a writer.** -/
theorem SharedInv.advance (hi : SharedInv rt path key logs s l pending)
    (hlogs : ∀ i, (logs i).path = path ∧ (logs i).hmacKey = key)
    (hc : Exclusive path s (.advance p)) (hn : NamesAscend clock path s (.advance p))
    (hb : s.busy p = some j) (h : Advance rt clock (logs j.inst) s p j t) :
    ∃ l' pending', SharedInv rt path key logs t l' pending' ∧ j.pc.Grows l l' := by
  have hfit := hi.fits p j hb
  have hexcl := hc j hb
  have hpath : (logs j.inst).path = path := (hlogs j.inst).1
  have hown : ∀ q ino, q ≠ p → s.locked ino = some q → s.locked ino = some q := fun _ _ _ h => h
  unfold WriterFits at hfit
  cases h with
  | entered hpc =>
    exact ⟨l, pending, hi.goto (r := s.setHolder j.inst (some p)) rfl rfl hown hb
      (by rw [hpc]; rfl) (by rw [hpc]; rfl) (fun h => (nomatch h)) (fun _ => trivial), by
        rw [hpc]; exact rfl⟩
  | opened ino hpc hr =>
    rw [hpath] at hr ⊢
    refine ⟨l, pending, hi.touch.goto (r := { s with disk := s.disk.touch path.active })
      rfl rfl hown hb
      (by rw [hpc]; rfl) (by rw [hpc]; rfl) (fun h => (nomatch h)) (fun _ => ?_), by
        rw [hpc]; exact rfl⟩
    exact (hi.sane.touch path.active).fresh _ _ hr
  | locked ino hpc hl =>
    rw [hpc] at hfit
    refine ⟨l, pending, hi.goto (r := s.setLock ino (some p)) rfl rfl (fun q ino' hq hq' => ?_) hb
      (by rw [hpc]; rfl) (by rw [hpc]; rfl) (fun h => (nomatch h))
      (fun _ => ⟨hfit, Function.update_self _ _ _⟩), by rw [hpc]; exact rfl⟩
    have hne : ino' ≠ ino := by
      rintro rfl
      rw [hl] at hq'
      cases hq'
    exact (Function.update_of_ne hne _ _).trans hq'
  | readFailed ino e hpc he =>
    -- the file is sound and the inode the active one, so the tail can be read
    rw [hpc] at hexcl
    obtain ⟨hact, halone⟩ := hexcl
    have hset : s.Settled := halone.settled (by rw [Shared.renamedBy_of hb, hpc]; rfl)
    have hholds := hi.represents.active
    rw [Disk.read_files, hact, Option.map_some, Option.getD_some] at hholds
    obtain ⟨prev, -, happ⟩ :=
      appendRecord_of_holds hholds hi.continues (logs j.inst) j.call.entry j.call.stamp
    rw [he] at happ
    cases happ
  | read ino body bytes hpc he =>
    rw [hpc] at hfit hexcl
    obtain ⟨-, halone⟩ := hexcl
    have hset : s.Settled := halone.settled (by rw [Shared.renamedBy_of hb, hpc]; rfl)
    exact ⟨l, pending, hi.goto rfl rfl hown hb (by rw [hpc]; rfl) (by rw [hpc]; rfl)
      (fun h => (nomatch h)) (fun hiff => ⟨hfit.1, hfit.2, fun _ => ⟨hiff.mpr hset, he⟩⟩), by
        rw [hpc]; exact rfl⟩
  | appended ino body bytes hpc =>
    rw [hpc] at hexcl
    obtain ⟨hact, halone⟩ := hexcl
    exact ⟨_, _, hi.append hlogs hb hpc hact halone, by rw [hpc]; exact rfl⟩
  | unlocked ino body size hpc =>
    rw [hpc] at hfit
    refine ⟨l, pending, hi.goto (r := s.setLock ino none) rfl rfl (fun q ino' hq hq' => ?_) hb
      (by rw [hpc]; rfl) (by rw [hpc]; rfl) (fun h => (nomatch h)) (fun _ => trivial), by
        rw [hpc]; exact rfl⟩
    have hne : ino' ≠ ino := fun h => hq (lock_ne hfit (h ▸ hq'))
    exact (Function.update_of_ne hne _ _).trans hq'
  | compared body size hpc =>
    refine ⟨l, pending, ?_, by rw [hpc]; exact rfl⟩
    split
    · exact hi.goto rfl rfl hown hb (by rw [hpc]; rfl) (by rw [hpc]; rfl) (fun h => (nomatch h))
        (fun _ => trivial)
    · exact hi.goto rfl rfl hown hb (by rw [hpc]; rfl) (by rw [hpc]; rfl) (fun h => (nomatch h))
        (fun _ => trivial)
  | headFailed body e hpc he =>
    rw [hpc] at hexcl
    have hset : s.Settled := Shared.Alone.settled hexcl (by rw [Shared.renamedBy_of hb, hpc]; rfl)
    -- the record just written is in the active file, so its head is the hash of a record
    have hne := hi.active_ne_nil hset (b := body) (p := p)
      (by rw [Shared.writtenBy_of hb, hpc]; rfl)
    have ha := hi.represents.active
    rw [hpath] at he
    cases hread : s.disk.files.read path.active with
    | none =>
      rw [hread, Option.getD_none] at ha
      exact absurd ha.no_records hne
    | some content =>
      rw [hread, Option.getD_some] at ha
      obtain ⟨prev, -, hhead⟩ := head_of_holds ha hi.continues
      rw [he content hread] at hhead
      cases hhead
  | headRead body content h hpc hr hh =>
    rw [hpc] at hexcl
    have hset : s.Settled := Shared.Alone.settled hexcl (by rw [Shared.renamedBy_of hb, hpc]; rfl)
    have hne := hi.active_ne_nil hset (b := body) (p := p)
      (by rw [Shared.writtenBy_of hb, hpc]; rfl)
    have ha := hi.represents.active
    rw [hpath] at hr
    rw [hr, Option.getD_some] at ha
    obtain ⟨prev, hprev, hhead⟩ := head_of_holds ha hi.continues
    rw [hh] at hhead
    cases hhead
    exact ⟨l, pending, hi.goto rfl rfl hown hb (by rw [hpc]; rfl) (by rw [hpc]; rfl)
      (fun _ => hexcl) (fun _ => ⟨prev, rfl, hne, (hi.sound hset).head_active ▸ hprev⟩), by
        rw [hpc]; exact rfl⟩
  | renameFailed body h hpc hr =>
    rw [hpc] at hfit
    -- the rename fails only if the active file is gone
    obtain ⟨prev, -, hne, -⟩ := hfit
    rw [hpath] at hr
    cases hread : s.disk.dir.read path.active with
    | none =>
      have ha := hi.represents.active
      rw [Disk.read_files, hread, Option.map_none, Option.getD_none] at ha
      exact absurd ha.no_records hne
    | some ino =>
      obtain ⟨d', hd', -⟩ := @Disk.rename_some s.disk _ (path.rotated (clock s.rotations)) _ hread
      rw [hr] at hd'
      cases hd'
  | renamed body h disk hpc hr =>
    rw [hpath] at hr ⊢
    obtain ⟨l', hl'⟩ := hi.rename hb hpc (isRotated_rotated path _) (hn j hb (by rw [hpc]; rfl)) hr
    exact ⟨l', pending, hl', by rw [hpc]; trivial⟩
  | recreated body h name hpc =>
    rw [hpc] at hfit
    rw [hpath]
    refine ⟨l, pending, hi.touch.goto (r := { s with disk := s.disk.touch path.active })
      rfl rfl hown hb
      (by rw [hpc]; rfl) (by rw [hpc]; rfl) (fun _ => ?_) (fun _ => hfit), by rw [hpc]; exact rfl⟩
    exact hi.alone (by rw [Shared.rotatingBy_of hb, hpc]; rfl)
  | overwritten body h name hpc =>
    rw [hpath]
    obtain ⟨l', hl'⟩ := hi.overwrite hlogs hb hpc
    exact ⟨l', pending, hl', by rw [hpc]; trivial⟩
  | left body hpc =>
    exact ⟨l, pending, hi.goto (r := s.setHolder j.inst none) rfl rfl hown hb
      (by rw [hpc]; rfl) (by rw [hpc]; rfl) (fun h => (nomatch h)) (fun _ => trivial), by
        rw [hpc]; exact rfl⟩
  | returned body hpc =>
    obtain ⟨pending', hp⟩ := hi.finish hb hpc
    exact ⟨l, pending', hp, by rw [hpc]; exact rfl⟩

/-- **One step.** -/
theorem SharedInv.step (hi : SharedInv rt path key logs s l pending)
    (hlogs : ∀ i, (logs i).path = path ∧ (logs i).hmacKey = key) {a : WriteAction I P}
    (hc : Exclusive path s a) (hn : NamesAscend clock path s a)
    (h : sharedStep rt clock logs s a = some t) :
    ∃ l' pending', SharedInv rt path key logs t l' pending' ∧ Grows s l l' a := by
  cases a with
  | construct i =>
    cases h
    rw [(hlogs i).1]
    exact ⟨l, pending, hi.touch, rfl⟩
  | issue p i c =>
    simp only [sharedStep] at h
    split at h
    case isFalse => cases h
    next hidle =>
    cases h
    have hb : s.busy p = none := Option.isNone_iff_eq_none.mp hidle
    refine ⟨l, pending, hi.move (p := p) rfl (fun q hq => Shared.busy_goto_of_ne s hq _ _ _) rfl
      (fun _ _ _ h => h) ?_ ?_ (fun h => ?_) (fun j' hj' _ => ?_), rfl⟩
    · rw [Shared.writtenBy_goto, Shared.writtenBy, hb]
      rfl
    · rw [Shared.renamedBy_goto, Shared.renamedBy, hb]
      rfl
    · rw [Shared.rotatingBy_goto] at h
      cases h
    · rw [Shared.busy_goto_self] at hj'
      cases hj'
      trivial
  | advance p =>
    obtain ⟨j, hb, hadv⟩ := Option.bind_eq_some_iff.mp h
    obtain ⟨l', pending', hi', hgrows⟩ := hi.advance hlogs hc hn hb (advance_of_step hadv)
    refine ⟨l', pending', hi', fun k hk => ?_⟩
    rw [hb] at hk
    cases hk
    exact hgrows

/-- The files verify, and without the markers they hold the records that were returned, each
as often as it was returned. -/
def WholeLog (rt : Runtime) (path : ChainPath) (key : String) (s : Shared I P) : Prop :=
  (∃ r, verify rt path s.disk.files key = .ok r ∧ r.ok = true) ∧
  ∃ gs, chainGroups rt path s.disk.files = some gs ∧
    ((dropMarkers none gs).map AuditRecord.ofBody).Perm
      (s.returned.map (fun b => (AuditRecord.ofBody b).sortKeys))

omit [DecidableEq I] [DecidableEq P] in
theorem SharedInv.whole (hi : SharedInv rt path key logs s l pending) (hidle : s.Idle) :
    WholeLog rt path key s := by
  have hset : s.Settled := by
    intro q
    rw [Shared.renamedBy, hidle q]
    rfl
  have hnone : pending = [] := by
    refine List.eq_nil_iff_forall_not_mem.mpr (fun x hx => ?_)
    have := (hi.mem_pending x.1 x.2).mp hx
    rw [Shared.writtenBy, hidle x.1] at this
    cases this
  obtain ⟨r, hr, hok, -⟩ := verify_of_sound hi.represents (hi.sound hset)
  obtain ⟨gs, hgs, hdrop⟩ := hi.represents.dropMarkers_chainGroups
  refine ⟨⟨r, hr, hok⟩, gs, hgs, ?_⟩
  have hrec := hi.records
  have hbodies := hi.bodies
  rw [hnone, List.map_nil, List.append_nil] at hrec hbodies
  rw [hdrop]
  refine (hrec.map AuditRecord.ofBody).trans (List.Perm.of_eq ?_)
  rw [List.map_map]
  refine List.map_congr_left (fun b hb => ?_)
  obtain ⟨b₀, hb₀, rfl⟩ := hbodies b hb
  exact ofBody_stored key hb₀

/-- **A shared log stays whole** in every interleaving of the steps of any number of writers
through any number of instances in which no writer touches the chain during a rotation of
another, or through an inode that has lost the active name. -/
theorem shared_log_whole (rt : Runtime) (clock : Nat → String) (path : ChainPath)
    (key : String) (I P : Type) [DecidableEq I] [DecidableEq P] (logs : I → AuditLog)
    (hlogs : ∀ i, (logs i).path = path ∧ (logs i).hmacKey = key) (as : List (WriteAction I P))
    (s : Shared I P) (hm : Meets (sharedStep rt clock logs) (fun s a => NamesAscend clock path s a ∧
      Exclusive path s a)
      (Shared.empty I P) as)
    (hr : run (sharedStep rt clock logs) (Shared.empty I P) as = some s) (hidle : s.Idle) :
    WholeLog rt path key s := by
  have hinv : ∃ l pending, SharedInv rt path key logs s l pending := hm.invariant
    (P := fun s => ∃ l pending, SharedInv rt path key logs s l pending)
    (fun s a t hi hc h => by
      obtain ⟨l, pending, hi⟩ := hi
      obtain ⟨l', pending', hi', -⟩ := hi.step hlogs hc.2 hc.1 h
      exact ⟨l', pending', hi'⟩)
    ⟨_, _, SharedInv.empty rt path key logs⟩ hr
  obtain ⟨l, pending, hi⟩ := hinv
  exact hi.whole hidle

end Step

/-! ## A record that is overwritten -/

/-- The server rotates after every record, the review command line hardly ever. -/
def sampleLogs : Bool → AuditLog
  | true => ⟨sampleLog.path, "", "", 0, false, 100⟩
  | false => ⟨sampleLog.path, "", "", 50000000, false, 100⟩

/-- `n` steps of one writer. -/
def steps (p : Bool) (n : Nat) : List (WriteAction Bool Bool) := List.replicate n (.advance p)

/-- The server has renamed the file and recreated it; before it overwrites it with the marker,
the review command line writes a record to it. -/
def sampleOverlap : List (WriteAction Bool Bool) :=
  .issue true true (sampleBrief "a") :: steps true 10 ++
    .issue false false (sampleBrief "b") :: steps false 9 ++ steps true 3

/-- The server writes a record and rotates; then the review command line writes one to the new
file. -/
def sampleTurns : List (WriteAction Bool Bool) :=
  .issue true true (sampleBrief "a") :: steps true 13 ++
    .issue false false (sampleBrief "b") :: steps false 9

/-- With finitely many writers it is decided whether a state is idle. -/
def isIdle (s : Shared Bool Bool) : Bool := (s.busy true).isNone && (s.busy false).isNone

theorem idle_of_isIdle {s : Shared Bool Bool} (h : isIdle s = true) : s.Idle := by
  obtain ⟨ht, hf⟩ := Bool.and_eq_true_iff.mp h
  intro p
  cases p
  · exact Option.isNone_iff_eq_none.mp hf
  · exact Option.isNone_iff_eq_none.mp ht

/-- **A record that `write` has returned is gone**: the server's marker has replaced it. -/
theorem marker_overwrites_record : ∃ s,
    run (sharedStep Runtime.python sampleClock sampleLogs) (Shared.empty Bool Bool)
      sampleOverlap = some s ∧
    Meets (sharedStep Runtime.python sampleClock sampleLogs)
      (NamesAscend sampleClock sampleLog.path) (Shared.empty Bool Bool) sampleOverlap ∧
    s.Idle ∧ ¬ WholeLog Runtime.python sampleLog.path "" s := by
  have hrun : (checked (sharedStep Runtime.python sampleClock sampleLogs)
    (NamesAscend sampleClock sampleLog.path)
      (Shared.empty Bool Bool) sampleOverlap).any (fun s => isIdle s && s.returned.length = 2 &&
        (chainGroups Runtime.python sampleLog.path s.disk.files).any
        (fun gs => (dropMarkers none gs).length = 1)) =
        true := by decide +kernel
  obtain ⟨s, hs, hfacts⟩ := (Option.any_eq_true _ _).mp hrun
  obtain ⟨hs, hmeets⟩ := checked_eq_some hs
  simp only [Bool.and_eq_true, decide_eq_true_eq] at hfacts
  obtain ⟨⟨hidle, hreturned⟩, hgroups⟩ := hfacts
  refine ⟨s, hs, hmeets, idle_of_isIdle hidle, ?_⟩
  rintro ⟨-, gs, hgs, hperm⟩
  rw [hgs] at hgroups
  have hlen := hperm.length_eq
  rw [List.length_map, List.length_map, hreturned] at hlen
  have hone : (dropMarkers none gs).length = 1 := of_decide_eq_true hgroups
  rw [hone] at hlen
  cases hlen

theorem shared_log_whole_sample : ∃ s,
    run (sharedStep Runtime.python sampleClock sampleLogs) (Shared.empty Bool Bool)
      sampleTurns = some s ∧
    s.returned.length = 2 ∧ (chainFiles sampleLog.path s.disk.files).length = 2 ∧
    WholeLog Runtime.python sampleLog.path "" s := by
  have hrun : (checked (sharedStep Runtime.python sampleClock sampleLogs)
      (fun s a => NamesAscend sampleClock sampleLog.path s a ∧ Exclusive sampleLog.path s a)
      (Shared.empty Bool Bool) sampleTurns).any (fun s => isIdle s && (s.returned.length = 2 &&
        (chainFiles sampleLog.path s.disk.files).length = 2)) = true := by decide +kernel
  obtain ⟨s, hs, hfacts⟩ := (Option.any_eq_true _ _).mp hrun
  obtain ⟨hs, hmeets⟩ := checked_eq_some hs
  simp only [Bool.and_eq_true, decide_eq_true_eq] at hfacts
  exact ⟨s, hs, hfacts.2.1, hfacts.2.2, shared_log_whole Runtime.python sampleClock sampleLog.path
    "" Bool Bool sampleLogs (fun i => by cases i <;> exact ⟨rfl, rfl⟩) sampleTurns s hmeets hs
      (idle_of_isIdle hfacts.1)⟩

end ComplianceMcp
