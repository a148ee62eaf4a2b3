import ComplianceMcp.AuditSequence
import ComplianceMcp.Steps
import Mathlib.Logic.Function.Basic

/-! # Writers that share a log

The server, the review command line and the admin command line each have an `AuditLog`
instance of their own on one path, and the server's is used by many threads.  `write` is not
one step: it opens the active path, takes the `flock` of the inode it has opened, reads the
tail, appends, releases the lock, and compares the size with its bound; `_rotate` runs after
the lock is released and reads the head, renames the file, recreates it and overwrites it
with the marker.  Between two of these steps of one writer the others make theirs.

The directory maps names to inodes here, since a writer keeps the inode it has opened when
the name goes to another one. -/
namespace ComplianceMcp

open PyJson PyText Files

/-! ## Inodes -/

/-- The directory of the log, what the inodes hold, and the first inode not in use. -/
structure Disk where
  dir : Dir Nat
  content : Nat → Bytes
  next : Nat

namespace Disk

/-- No file. -/
def empty : Disk := ⟨Dir.empty, fun _ => [], 0⟩

variable (d : Disk)

/-- The files by name. -/
def files : Dir Bytes := d.dir.map d.content

/-- `touch(exist_ok=True)`; opening a file to append creates it in the same way. -/
def touch (name : String) : Disk :=
  match d.dir.read name with
  | some _ => d
  | none => ⟨d.dir.write name d.next, Function.update d.content d.next [], d.next + 1⟩

/-- The inode has new content. -/
def store (ino : Nat) (b : Bytes) : Disk := { d with content := Function.update d.content ino b }

/-- `os.replace(a, b)`. -/
def rename (a b : String) : Option Disk := (d.dir.rename a b).map (fun dir => { d with dir })

/-- `write_text`: the file is created or truncated, and written. -/
def overwrite (name : String) (b : Bytes) : Disk :=
  match (d.touch name).dir.read name with
  | some ino => (d.touch name).store ino b
  | none => d

end Disk

/-! ## Writers -/

/-- What a `write` does next.  From `appending` on the record is built, from `unlocking` on
it is in a file. -/
inductive WritePc where
  | entering
  | opening
  | locking (ino : Nat)
  | reading (ino : Nat)
  | appending (ino : Nat) (body : Dict) (bytes : Bytes)
  | unlocking (ino : Nat) (body : Dict) (size : Nat)
  | comparing (body : Dict) (size : Nat)
  | readingHead (body : Dict)
  | renaming (body : Dict) (head : Json)
  | recreating (body : Dict) (head : Json) (rotated : String)
  | overwriting (body : Dict) (head : Json) (rotated : String)
  | leaving (body : Dict)
  | forwarding (body : Dict)

namespace WritePc

/-- The inode whose lock the writer holds. -/
def locks : WritePc → Option Nat
  | .reading ino => some ino
  | .appending ino _ _ => some ino
  | .unlocking ino _ _ => some ino
  | _ => none

/-- The record the writer has appended. -/
def written : WritePc → Option Dict
  | .unlocking _ body _ => some body
  | .comparing body _ => some body
  | .readingHead body => some body
  | .renaming body _ => some body
  | .recreating body _ _ => some body
  | .overwriting body _ _ => some body
  | .leaving body => some body
  | .forwarding body => some body
  | _ => none

/-- The writer has read the head for a marker and not yet written the marker. -/
def rotating : WritePc → Bool
  | .renaming _ _ => true
  | .recreating _ _ _ => true
  | .overwriting _ _ _ => true
  | _ => false

/-- The writer has renamed the active file and not yet written the marker. -/
def renamed : WritePc → Bool
  | .recreating _ _ _ => true
  | .overwriting _ _ _ => true
  | _ => false

/-- The writer renames the active file next. -/
def renames : WritePc → Bool
  | .renaming _ _ => true
  | _ => false

end WritePc

/-- A `write` under way, through the instance `inst`. -/
structure Job (I : Type) where
  inst : I
  call : Call
  pc : WritePc

/-- What the writers share.  `I` are the instances, `P` the threads that use them;
`locked` are the `flock`s, `holder` the instances' own locks, `returned` the records that
calls of `write` have returned. -/
structure Shared (I P : Type) where
  disk : Disk
  locked : Nat → Option P
  holder : I → Option P
  busy : P → Option (Job I)
  rotations : Nat
  returned : List Dict
  raised : List PyError

/-- Nothing has been written, and nobody writes. -/
def Shared.empty (I P : Type) : Shared I P :=
  ⟨Disk.empty, fun _ => none, fun _ => none, fun _ => none, 0, [], []⟩

inductive WriteAction (I P : Type) where
  | construct (i : I)
  | issue (p : P) (i : I) (c : Call)
  | advance (p : P)

variable {I P : Type} [DecidableEq I] [DecidableEq P]

namespace Shared

variable (s : Shared I P) (p : P)

/-- The writer goes on, and leaves the disk so. -/
def goto (j : Job I) (disk : Disk) (pc : WritePc) : Shared I P :=
  { s with disk := disk, busy := Function.update s.busy p (some { j with pc }) }

/-- The call raises; the locks it holds are released on the way. -/
def fail (j : Job I) (e : PyError) : Shared I P :=
  { s with
    locked := match j.pc.locks with
      | some ino => Function.update s.locked ino none
      | none => s.locked
    holder := Function.update s.holder j.inst none
    busy := Function.update s.busy p none
    raised := s.raised ++ [e] }

/-- The call returns its record. -/
def finish (body : Dict) : Shared I P :=
  { s with busy := Function.update s.busy p none, returned := s.returned ++ [body] }

/-- The lock of the instance. -/
def setHolder (i : I) (o : Option P) : Shared I P :=
  { s with holder := Function.update s.holder i o }

/-- The lock of the inode. -/
def setLock (ino : Nat) (o : Option P) : Shared I P :=
  { s with locked := Function.update s.locked ino o }

/-- One more rotation has drawn its name. -/
def tick : Shared I P := { s with rotations := s.rotations + 1 }

end Shared

/-- The next step of the writer `p`, `none` while it waits for a lock. -/
def advanceWrite (rt : Runtime) (clock : Nat → String) (log : AuditLog) (s : Shared I P)
    (p : P) (j : Job I) :
    Option (Shared I P) :=
  match j.pc with
  | .entering =>
    if (s.holder j.inst).isNone then some ((s.setHolder j.inst (some p)).goto p j s.disk .opening)
    else none
  | .opening =>
    let disk := s.disk.touch log.path.active
    (disk.dir.read log.path.active).map (fun ino => s.goto p j disk (.locking ino))
  | .locking ino =>
    if (s.locked ino).isNone then some ((s.setLock ino (some p)).goto p j s.disk (.reading ino))
    else none
  | .reading ino =>
    match appendRecord rt log j.call.entry j.call.stamp (s.disk.content ino) with
    | .error e => some (s.fail p j e)
    | .ok (body, bytes) => some (s.goto p j s.disk (.appending ino body bytes))
  | .appending ino body bytes =>
    let content := s.disk.content ino ++ bytes
    some (s.goto p j (s.disk.store ino content) (.unlocking ino body content.length))
  -- The unlock stands in the `finally`; the thread lock is kept to the end of the rotation.
  | .unlocking ino body size => some ((s.setLock ino none).goto p j s.disk (.comparing body size))
  | .comparing body size =>
    some (s.goto p j s.disk (if log.rotateBytes ≤ size then .readingHead body else .leaving body))
  -- `_rotate` opens the file again, without `flock`: another process may write in between.
  | .readingHead body =>
    match s.disk.files.read log.path.active with
    | none => some (s.fail p j .fileNotFoundError)
    | some content => match head rt content with
      | .error e => some (s.fail p j e)
      | .ok h => some (s.goto p j s.disk (.renaming body h))
  | .renaming body h =>
    let rotated := log.path.rotated (clock s.rotations)
    match s.disk.rename log.path.active rotated with
    | none => some (s.fail p j .fileNotFoundError)
    | some disk => some (s.tick.goto p j disk (.recreating body h rotated))
  -- `touch` leaves alone a file that another writer has created since the rename,
  | .recreating body h rotated =>
    some (s.goto p j (s.disk.touch log.path.active) (.overwriting body h rotated))
  -- and `write_text` replaces whatever that writer has put there.
  | .overwriting body h rotated =>
    some (s.goto p j (s.disk.overwrite log.path.active
      (markerBytes rt log j.call.markerStamp rotated h))
      (.leaving body))
  | .leaving body => some ((s.setHolder j.inst none).goto p j s.disk (.forwarding body))
  | .forwarding body => some (s.finish p body)

/-- The step function; `logs` are the parameters of the instances. -/
def sharedStep (rt : Runtime) (clock : Nat → String) (logs : I → AuditLog) (s : Shared I P) :
    WriteAction I P → Option (Shared I P)
  | .construct i => some { s with disk := s.disk.touch (logs i).path.active }
  | .issue p i c =>
    if (s.busy p).isNone then some (s.goto p ⟨i, c, .entering⟩ s.disk .entering) else none
  | .advance p => (s.busy p).bind (fun j => advanceWrite rt clock (logs j.inst) s p j)

/-! ## What the disk shows -/

namespace Disk

variable {d : Disk}

/-- Every inode has one name, and the ones to come are not in use. -/
structure Sane (d : Disk) : Prop where
  fresh : ∀ n ino, d.dir.read n = some ino → ino < d.next
  one_name : ∀ n m ino, d.dir.read n = some ino → d.dir.read m = some ino → n = m

theorem Sane.empty : Sane Disk.empty where
  fresh := fun _ _ h => (nomatch h)
  one_name := fun _ _ _ h => (nomatch h)

theorem read_files (d : Disk) (n : String) : d.files.read n = (d.dir.read n).map d.content :=
  Dir.read_map _ _ _

theorem touch_of_some {name : String} {ino : Nat} (h : d.dir.read name = some ino) :
    d.touch name = d := by
  unfold touch
  rw [h]

theorem touch_of_none {name : String} (h : d.dir.read name = none) :
    d.touch name = ⟨d.dir.write name d.next, Function.update d.content d.next [], d.next + 1⟩ := by
  unfold touch
  rw [h]

theorem next_le_touch (d : Disk) (name : String) : d.next ≤ (d.touch name).next := by
  unfold touch
  split
  · exact Nat.le_refl _
  · exact Nat.le_succ _

theorem Sane.touch (h : Sane d) (name : String) : Sane (d.touch name) := by
  cases hr : d.dir.read name with
  | some ino =>
    rw [touch_of_some hr]
    exact h
  | none =>
    rw [touch_of_none hr]
    constructor
    case fresh =>
      intro n ino hn
      replace hn : (d.dir.write name d.next).read n = some ino := hn
      rw [Dir.read_write] at hn
      split at hn
      · cases hn
        exact Nat.lt_succ_self _
      · exact Nat.lt_succ_of_lt (h.fresh n ino hn)
    case one_name =>
      intro n m ino hn hm
      replace hn : (d.dir.write name d.next).read n = some ino := hn
      replace hm : (d.dir.write name d.next).read m = some ino := hm
      rw [Dir.read_write] at hn hm
      split at hn <;> split at hm
      · next hn' hm' => rw [hn', hm']
      · cases hn
        exact absurd (h.fresh m _ hm) (Nat.lt_irrefl _)
      · cases hm
        exact absurd (h.fresh n _ hn) (Nat.lt_irrefl _)
      · exact h.one_name n m ino hn hm

/-- Creating a file where there is none changes no content. -/
theorem read_files_touch (h : Sane d) (name m : String) : (d.touch name).files.read m =
    if m = name then some ((d.files.read name).getD []) else d.files.read m := by
  cases hr : d.dir.read name with
  | some ino =>
    rw [touch_of_some hr]
    split
    · next hm => rw [hm, read_files, hr, Option.map_some, Option.getD_some]
    · rfl
  | none =>
    rw [touch_of_none hr, read_files, read_files, hr]
    show ((d.dir.write name d.next).read m).map _ = _
    rw [Dir.read_write]
    split
    · exact congrArg some (Function.update_self _ _ _)
    · rw [read_files]
      cases hm : d.dir.read m with
      | none => rfl
      | some ino =>
        have hne : ino ≠ d.next := Nat.ne_of_lt (h.fresh m ino hm)
        exact congrArg some (Function.update_of_ne hne _ _)

/-- An inode that did not have the name before does not get it by a touch. -/
theorem read_touch_ne {name : String} {ino : Nat} (hlt : ino < d.next)
    (h : d.dir.read name ≠ some ino) :
    (d.touch name).dir.read name ≠ some ino := by
  cases hr : d.dir.read name with
  | some k =>
    rw [touch_of_some hr]
    exact h
  | none =>
    rw [touch_of_none hr]
    show (d.dir.write name d.next).read name ≠ some ino
    rw [Dir.read_write_self]
    exact fun he => Nat.lt_irrefl _ (Option.some.inj he ▸ hlt)

theorem content_touch {name : String} {ino : Nat} (hlt : ino < d.next) :
    (d.touch name).content ino = d.content ino := by
  cases hr : d.dir.read name with
  | some k => rw [touch_of_some hr]
  | none =>
    rw [touch_of_none hr]
    exact Function.update_of_ne (Nat.ne_of_lt hlt) _ _

theorem exists_touch (d : Disk) (name : String) :
    ∃ ino, (d.touch name).dir.read name = some ino := by
  cases hr : d.dir.read name with
  | some ino => exact ⟨ino, by rw [touch_of_some hr, hr]⟩
  | none => exact ⟨d.next, by rw [touch_of_none hr]; exact Dir.read_write_self _ _ _⟩

theorem Sane.store (h : Sane d) (ino : Nat) (b : Bytes) : Sane (d.store ino b) :=
  ⟨h.fresh, h.one_name⟩

/-- Writing to the inode of a name changes the file of that name and no other. -/
theorem read_files_store (h : Sane d) {name : String} {ino : Nat} (hr : d.dir.read name = some ino)
    (b : Bytes) (m : String) :
    (d.store ino b).files.read m = if m = name then some b else d.files.read m := by
  rw [read_files]
  show (d.dir.read m).map (Function.update d.content ino b) = _
  split
  · next hm => rw [hm, hr, Option.map_some, Function.update_self]
  · next hm =>
    rw [read_files]
    cases hk : d.dir.read m with
    | none => rfl
    | some k =>
      have hne : k ≠ ino := fun he => hm (h.one_name m name ino (he ▸ hk) hr)
      rw [Option.map_some, Option.map_some, Function.update_of_ne hne]

theorem read_files_overwrite (h : Sane d) (name : String) (b : Bytes) (m : String) :
    (d.overwrite name b).files.read m = if m = name then some b else d.files.read m := by
  obtain ⟨ino, hino⟩ := exists_touch d name
  unfold overwrite
  rw [hino]
  show ((d.touch name).store ino b).files.read m = _
  rw [read_files_store (h.touch name) hino]
  split
  · rfl
  · next hm => rw [read_files_touch h, if_neg hm]

theorem Sane.overwrite (h : Sane d) (name : String) (b : Bytes) : Sane (d.overwrite name b) := by
  obtain ⟨ino, hino⟩ := exists_touch d name
  unfold Disk.overwrite
  rw [hino]
  exact (h.touch name).store ino b

theorem dir_overwrite (d : Disk) (name : String) (b : Bytes) :
    (d.overwrite name b).dir = (d.touch name).dir ∧
    (d.overwrite name b).next = (d.touch name).next := by
  obtain ⟨ino, hino⟩ := exists_touch d name
  unfold overwrite
  rw [hino]
  exact ⟨rfl, rfl⟩

theorem rename_some {a b : String} {ino : Nat} (h : d.dir.read a = some ino) :
    ∃ d', d.rename a b = some d' ∧ d'.next = d.next ∧ d'.content = d.content ∧
      ∀ m, d'.dir.read m = if m = b then some ino else if m = a then none else d.dir.read m := by
  cases hr : d.dir.rename a b with
  | none =>
    rw [Dir.rename_eq_none.mp hr] at h
    cases h
  | some dir =>
    refine ⟨{ d with dir }, by rw [rename, hr]; rfl, rfl, rfl, fun m => ?_⟩
    rw [← h]
    exact Dir.read_rename hr m

theorem Sane.rename (h : Sane d) {a b : String} {ino : Nat}
    (ha : d.dir.read a = some ino) {d' : Disk} (hnext : d'.next = d.next)
    (hr : ∀ m, d'.dir.read m = if m = b then some ino else if m = a then none else d.dir.read m) :
    Sane d' := by
  have hold : ∀ m k, m ≠ b → d'.dir.read m = some k → d.dir.read m = some k ∧ k ≠ ino := by
    intro m k hm hk
    rw [hr, if_neg hm] at hk
    split at hk
    · cases hk
    · next hma => exact ⟨hk, fun he => hma (h.one_name m a ino (he ▸ hk) ha)⟩
  have hnew : ∀ k, d'.dir.read b = some k → k = ino := by
    intro k hk
    rw [hr, if_pos rfl] at hk
    exact (Option.some.inj hk).symm
  constructor
  case fresh =>
    intro n k hn
    rw [hnext]
    by_cases hnb : n = b
    · rw [hnew k (hnb ▸ hn)]
      exact h.fresh a ino ha
    · exact h.fresh n k (hold n k hnb hn).1
  case one_name =>
    intro n m k hn hm
    by_cases hnb : n = b <;> by_cases hmb : m = b
    · rw [hnb, hmb]
    · exact absurd (hnew k (hnb ▸ hn)) (hold m k hmb hm).2
    · exact absurd (hnew k (hmb ▸ hm)) (hold n k hnb hn).2
    · exact h.one_name n m k (hold n k hnb hn).1 (hold m k hmb hm).1

end Disk

/-! ## What a step of a writer does -/

/-- The steps of a writer. -/
inductive Advance (rt : Runtime) (clock : Nat → String) (log : AuditLog) (s : Shared I P)
    (p : P) (j : Job I) :
    Shared I P → Prop where
  | entered (hpc : j.pc = .entering) :
      Advance rt clock log s p j ((s.setHolder j.inst (some p)).goto p j s.disk .opening)
  | opened (ino : Nat) (hpc : j.pc = .opening)
      (hr : (s.disk.touch log.path.active).dir.read log.path.active = some ino) :
      Advance rt clock log s p j (s.goto p j (s.disk.touch log.path.active) (.locking ino))
  | locked (ino : Nat) (hpc : j.pc = .locking ino) (hl : s.locked ino = none) :
      Advance rt clock log s p j ((s.setLock ino (some p)).goto p j s.disk (.reading ino))
  | readFailed (ino : Nat) (e : PyError) (hpc : j.pc = .reading ino)
      (h : appendRecord rt log j.call.entry j.call.stamp (s.disk.content ino) = .error e) :
      Advance rt clock log s p j (s.fail p j e)
  | read (ino : Nat) (body : Dict) (bytes : Bytes) (hpc : j.pc = .reading ino)
      (h : appendRecord rt log j.call.entry j.call.stamp (s.disk.content ino) = .ok (body, bytes)) :
      Advance rt clock log s p j (s.goto p j s.disk (.appending ino body bytes))
  | appended (ino : Nat) (body : Dict) (bytes : Bytes) (hpc : j.pc = .appending ino body bytes) :
      Advance rt clock log s p j (s.goto p j (s.disk.store ino (s.disk.content ino ++ bytes))
        (.unlocking ino body (s.disk.content ino ++ bytes).length))
  | unlocked (ino : Nat) (body : Dict) (size : Nat) (hpc : j.pc = .unlocking ino body size) :
      Advance rt clock log s p j ((s.setLock ino none).goto p j s.disk (.comparing body size))
  | compared (body : Dict) (size : Nat) (hpc : j.pc = .comparing body size) :
      Advance rt clock log s p j
        (s.goto p j s.disk (if log.rotateBytes ≤ size then .readingHead body else .leaving body))
  | headFailed (body : Dict) (e : PyError) (hpc : j.pc = .readingHead body)
      (h : ∀ content, s.disk.files.read log.path.active = some content →
        head rt content = .error e) :
      Advance rt clock log s p j (s.fail p j e)
  | headRead (body : Dict) (content : Bytes) (h : Json) (hpc : j.pc = .readingHead body)
      (hr : s.disk.files.read log.path.active = some content) (hh : head rt content = .ok h) :
      Advance rt clock log s p j (s.goto p j s.disk (.renaming body h))
  | renameFailed (body : Dict) (h : Json) (hpc : j.pc = .renaming body h)
      (hr : s.disk.rename log.path.active (log.path.rotated (clock s.rotations)) = none) :
      Advance rt clock log s p j (s.fail p j .fileNotFoundError)
  | renamed (body : Dict) (h : Json) (disk : Disk) (hpc : j.pc = .renaming body h)
      (hr : s.disk.rename log.path.active (log.path.rotated (clock s.rotations)) = some disk) :
      Advance rt clock log s p j
        (s.tick.goto p j disk (.recreating body h (log.path.rotated (clock s.rotations))))
  | recreated (body : Dict) (h : Json) (rotated : String)
      (hpc : j.pc = .recreating body h rotated) :
      Advance rt clock log s p j (s.goto p j (s.disk.touch log.path.active)
        (.overwriting body h rotated))
  | overwritten (body : Dict) (h : Json) (rotated : String)
      (hpc : j.pc = .overwriting body h rotated) :
      Advance rt clock log s p j (s.goto p j
        (s.disk.overwrite log.path.active (markerBytes rt log j.call.markerStamp rotated h))
        (.leaving body))
  | left (body : Dict) (hpc : j.pc = .leaving body) :
      Advance rt clock log s p j ((s.setHolder j.inst none).goto p j s.disk (.forwarding body))
  | returned (body : Dict) (hpc : j.pc = .forwarding body) :
      Advance rt clock log s p j (s.finish p body)

theorem advance_of_step {rt : Runtime} {clock : Nat → String} {log : AuditLog}
    {s t : Shared I P} {p : P} {j : Job I} (h : advanceWrite rt clock log s p j = some t) :
    Advance rt clock log s p j t := by
  -- one case for each step of `write` and `_rotate`, in the order of the source
  unfold advanceWrite at h
  split at h
  next hpc =>
    split at h
    · cases h
      exact .entered hpc
    · cases h
  next hpc =>
    obtain ⟨ino, hr, rfl⟩ := Option.map_eq_some_iff.mp h
    exact .opened ino hpc hr
  next ino hpc =>
    split at h
    · next hl =>
      cases h
      exact .locked ino hpc (Option.isNone_iff_eq_none.mp hl)
    · cases h
  next ino hpc =>
    split at h
    · next e he =>
      cases h
      exact .readFailed ino e hpc he
    · next body bytes he =>
      cases h
      exact .read ino body bytes hpc he
  next ino body bytes hpc =>
    cases h
    exact .appended ino body bytes hpc
  next ino body size hpc =>
    cases h
    exact .unlocked ino body size hpc
  next body size hpc =>
    cases h
    exact .compared body size hpc
  next body hpc =>
    split at h
    · next hr =>
      cases h
      refine .headFailed body _ hpc (fun content hc => ?_)
      rw [hr] at hc
      cases hc
    next content hr =>
    split at h
    · next e he =>
      cases h
      refine .headFailed body e hpc (fun content' hc => ?_)
      rw [hr] at hc
      cases hc
      exact he
    · next j' hh =>
      cases h
      exact .headRead body content j' hpc hr hh
  next body j' hpc =>
    dsimp only at h
    split at h
    · next hr =>
      cases h
      exact .renameFailed body j' hpc hr
    · next disk hr =>
      cases h
      exact .renamed body j' disk hpc hr
  next body j' rotated hpc =>
    cases h
    exact .recreated body j' rotated hpc
  next body j' rotated hpc =>
    cases h
    exact .overwritten body j' rotated hpc
  next body hpc =>
    cases h
    exact .left body hpc
  next body hpc =>
    cases h
    exact .returned body hpc

end ComplianceMcp
