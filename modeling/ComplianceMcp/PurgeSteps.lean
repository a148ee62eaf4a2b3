import ComplianceMcp.AuditPurge
import ComplianceMcp.AuditCrash

/-! # The steps of a purge

`purge --apply` counts and deletes the decided drafts, lists the files of the chain, looks at
the age of each, unlinks the old ones and writes its record last.  Each of these is a step of
its own: between two of them other processes may do anything to the drafts and the files, and
any of them may raise. -/
namespace ComplianceMcp

open PyJson PyText Files Steps

/-! ## The machine -/

/-- What the purge does next.  `old` are the files past retention that have been found, `rest`
those still to be looked at or unlinked. -/
inductive PurgePc where
  | starting
  | counting
  | deleting (drafts : Nat)
  | globbing (drafts : Nat)
  | probing (drafts : Nat) (rotated : List String)
  | dating (drafts : Nat) (old rest : List String)
  | unlinking (drafts : Nat) (old rest : List String)
  | opening (drafts : Nat) (old : List String)
  | appending (drafts : Nat) (old : List String)
  | rotating
  | ended (e : Option PyError)

/-- A run of the purge, with what it has removed so far. -/
structure PurgeRun where
  host : Host
  cutoff : Int
  pc : PurgePc
  removedRows : List Row
  removedFiles : List String

/-- The purge takes its next step, or the step raises after the part of it that the point
names, or other processes act. -/
inductive PurgeAction where
  | next
  | stop (pt : CrashPoint)
  | others (h : Host)

/-- The purge has just been started. -/
def PurgeRun.start (h : Host) : PurgeRun := ⟨h, 0, .starting, [], []⟩

/-- The run has removed nothing. -/
def PurgeRun.Untouched (s : PurgeRun) : Prop := s.removedRows = [] ∧ s.removedFiles = []

def PurgeRun.dir (s : PurgeRun) : Dir Bytes := s.host.world.dir

def PurgeRun.setWorld (s : PurgeRun) (w : World) (pc : PurgePc) : PurgeRun :=
  { s with host := { s.host with world := w }, pc := pc }

section Machine

variable (rt : Runtime) (clock : Nat → String) (strftime : Int → String) (p : ChainPath)
  (key : String) (c : PurgeCall)

/-- The `write` call of the run. -/
def PurgeRun.call (s : PurgeRun) (drafts : Nat) (old : List String) : Call :=
  ⟨purgeEntry c.olderThanDays (strftime s.cutoff) drafts old, c.stamp, c.markerStamp⟩

/-- The part of `write` under the lock. -/
def PurgeRun.append (s : PurgeRun) (drafts : Nat) (old : List String) : PurgeRun :=
  let opened := s.dir.touch p.active []
  let content := (opened.read p.active).getD []
  match appendRecord rt (adminLog p key) (s.call strftime c drafts old).entry c.stamp content with
  | .error e => s.setWorld { s.host.world with dir := opened } (.ended (some e))
  | .ok (_, bytes) =>
    s.setWorld { s.host.world with dir := opened.write p.active (content ++ bytes) }
      (if (adminLog p key).rotateBytes ≤ (content ++ bytes).length then .rotating else .ended none)

/-- The name the active file is rotated to; it holds the time in nanoseconds. -/
def PurgeRun.target (s : PurgeRun) : String := p.rotated (clock s.host.world.rotations)

def purgeNext (s : PurgeRun) : Option PurgeRun :=
  match s.pc with
  | .starting =>
    match cutoffTime c.now c.olderThanDays with
    | .error e => some { s with pc := .ended (some e) }
    | .ok cutoff => some { s with cutoff := cutoff, pc := .counting }
  | .counting =>
    some { s with pc := .deleting (s.host.rows.countP (purgeable (strftime s.cutoff))) }
  -- The `with` commits here, before any file is looked at.
  | .deleting drafts => some { s with
      host := { s.host with rows := s.host.rows.filter (fun r => !purgeable (strftime s.cutoff) r) }
      removedRows := s.host.rows.filter (purgeable (strftime s.cutoff))
      pc := .globbing drafts }
  | .globbing drafts => some { s with
      pc := .probing drafts ((s.dir.sortedNames p.isRotated).filter (fun n => n ≠ p.active)) }
  -- `chain_files(..)[:-1]` drops the active file, or the newest rotated one when there is none.
  | .probing drafts rotated => some { s with
      pc := .dating drafts [] (rotated ++ if (s.dir.read p.active).isSome then [p.active]
        else []).dropLast }
  | .dating drafts old [] => some { s with pc := .unlinking drafts old old }
  | .dating drafts old (n :: rest) =>
    if (s.dir.read n).isSome then
      some { s with
        pc := .dating drafts (if s.host.mtime n < s.cutoff then old ++ [n] else old) rest }
    else some { s with pc := .ended (some .fileNotFoundError) }
  | .unlinking drafts old [] => some { s with pc := .opening drafts old }
  -- Chosen by an earlier listing: the file may be gone by now.
  | .unlinking drafts old (n :: rest) =>
    if (s.dir.read n).isSome then
      some { s.setWorld { s.host.world with
        dir := s.dir.remove n } (.unlinking drafts old rest) with
        removedFiles := s.removedFiles ++ [n] }
    else some { s with pc := .ended (some .fileNotFoundError) }
  -- The log is built after the files are gone, and the record names all of `old`.
  | .opening drafts old =>
    some (s.setWorld (construct (adminLog p key) s.host.world) (.appending drafts old))
  | .appending drafts old => some (s.append rt strftime p key c drafts old)
  | .rotating =>
    match rotate rt clock (adminLog p key) c.markerStamp s.host.world with
    | .error e => some { s with pc := .ended (some e) }
    | .ok w => some (s.setWorld w (.ended none))
  | .ended _ => none

/-- The step raises.  The delete is rolled back, and an unlink that raises removes nothing;
the record and the marker may be on disk in part or whole. -/
def purgeStop (s : PurgeRun) (pt : CrashPoint) : Option PurgeRun :=
  match s.pc with
  | .ended _ => none
  | .appending drafts old =>
    (match pt with
      | .beforeAppend => some s.host.world
      | .inAppend k => crash rt clock (adminLog p key) (s.call strftime c drafts old)
          s.host.world (.inAppend k)
      | .afterAppend => crash rt clock (adminLog p key) (s.call strftime c drafts old)
          s.host.world .afterAppend
      | _ => none).map (fun w => s.setWorld w (.ended (some .other)))
  | .rotating =>
    (match pt with
      | .afterAppend => some s.host.world
      | pt => crashRotate rt clock (adminLog p key) c.markerStamp s.host.world pt).map
        (fun w => s.setWorld w (.ended (some .other)))
  | _ => some { s with pc := .ended (some .other) }

/-- One action. -/
def purgeStep (s : PurgeRun) : PurgeAction → Option PurgeRun
  | .next => purgeNext rt clock strftime p key c s
  | .stop pt => purgeStop rt clock strftime p key c s pt
  | .others h => match s.pc with
    | .ended _ => none
    | _ => some { s with host := h }

/-! ## What a run promises -/

/-- The record is a line of its own in a file of the chain. -/
def OnRecord (d : Dir Bytes) (r : Dict) : Prop :=
  ∃ n ∈ chainFiles p d, ∃ pre post, EndsLine pre ∧
    d.read n = some (pre ++ utf8 (dumps lineStyle (.obj r) ++ ['\n']) ++ post)

/-- A record of the chain names the files and counts as many drafts. -/
def Accounts (d : Dir Bytes) (drafts : Nat) (files : List String) : Prop :=
  ∃ r args, OnRecord p d r ∧ Json.get r "tool" = some (.str "retention_purge") ∧
    Json.get r "args" = some (.obj args) ∧ Json.get args "files" = some (.arr (files.map .str)) ∧
    Json.get r "result_summary" = some (.str (takeChars 2000
      ("purged " ++ purgeCounts drafts files.length c.olderThanDays " draft(s)")))

/-- What the run removed is in the chain. -/
def PurgeRun.Accounted (s : PurgeRun) : Prop :=
  s.Untouched ∨ Accounts p c s.dir s.removedRows.length s.removedFiles

/-- No pending draft and only rotated files were removed. -/
structure PurgeRun.Spares (s : PurgeRun) : Prop where
  rows : ∀ r ∈ s.removedRows, r.status ≠ "pending"
  files : ∀ n ∈ s.removedFiles, p.isRotated n = true ∧ n ≠ p.active

/-! ## What goes wrong -/

/-- The record can be appended, and becomes a line of its own. -/
def PurgeRun.Appendable (s : PurgeRun) (drafts : Nat) (old : List String) : Prop :=
  EndsLine ((s.dir.read p.active).getD []) ∧
    (appendRecord rt (adminLog p key) (s.call strftime c drafts old).entry c.stamp
      ((s.dir.read p.active).getD [])).isOk = true

/-- Nothing is lost from the files of a chain: they are appended to, and the active one is
renamed. -/
structure KeepsChain (d d' : Dir Bytes) : Prop where
  rotated : ∀ n b, p.isRotated n = true → d.read n = some b → ∃ more, d'.read n = some (b ++ more)
  active : ∀ b, d.read p.active = some b →
    ∃ n more, (n = p.active ∨ p.isRotated n = true) ∧ d'.read n = some (b ++ more)

/-- The step does not raise once something has been removed and before the record is written, the
file is not rotated onto one that is there, other processes do not change how many drafts are past
retention between the count and the delete, and they lose nothing of the chain once the record is
written. -/
def PurgeSafe (s : PurgeRun) (a : PurgeAction) : Prop :=
  match a, s.pc with
  | .next, .dating _ _ (n :: _) => s.Untouched ∨ (s.dir.read n).isSome = true
  | .next, .unlinking _ _ (n :: _) => s.Untouched ∨ (s.dir.read n).isSome = true
  | .next, .appending drafts old => s.Untouched ∨ s.Appendable rt strftime p key c drafts old
  | .next, .rotating => s.Untouched ∨ s.dir.read (s.target clock p) = none
  | .next, _ => True
  | .stop pt, .appending drafts old =>
    s.Untouched ∨ pt = .afterAppend ∧ s.Appendable rt strftime p key c drafts old
  | .stop _, .rotating => s.Untouched ∨ s.dir.read (s.target clock p) = none
  | .stop _, _ => s.Untouched
  | .others h, .deleting _ =>
    h.rows.countP (purgeable (strftime s.cutoff)) = s.host.rows.countP
      (purgeable (strftime s.cutoff))
  | .others h, .rotating => KeepsChain p s.dir h.world.dir
  | .others _, _ => True

end Machine

/-! ## Files of the chain -/

section Chain

variable {p : ChainPath} {d d' : Dir Bytes}

theorem mem_chainFiles {n : String} :
    n ∈ chainFiles p d ↔ (n = p.active ∨ p.isRotated n = true) ∧ (d.read n).isSome = true := by
  rw [chainFiles, List.mem_append, List.mem_filter, Dir.mem_sortedNames, decide_eq_true_eq]
  constructor
  · rintro (⟨⟨hr, hs⟩, -⟩ | h)
    · exact ⟨Or.inr hr, hs⟩
    · split at h
      · next hs =>
        obtain rfl := List.mem_singleton.mp h
        exact ⟨Or.inl rfl, hs⟩
      · cases h
  · rintro ⟨rfl | hr, hs⟩
    · exact Or.inr (by rw [if_pos hs]; exact List.mem_singleton_self _)
    · refine Or.inl ⟨⟨hr, hs⟩, ?_⟩
      rintro rfl
      rw [isRotated_active] at hr
      cases hr

/-- A record stays in a chain that loses nothing. -/
theorem OnRecord.keeps {r : Dict} (h : OnRecord p d r) (hk : KeepsChain p d d') :
    OnRecord p d' r := by
  obtain ⟨n, hn, pre, post, hpre, hread⟩ := h
  obtain ⟨m, more, hm, hread'⟩ : ∃ m more, (m = p.active ∨ p.isRotated m = true) ∧ d'.read m =
      some (pre ++ utf8 (dumps lineStyle (.obj r) ++ ['\n']) ++ post ++ more) := by
    rcases (mem_chainFiles.mp hn).1 with rfl | hr
    · exact hk.active _ hread
    · obtain ⟨more, hm⟩ := hk.rotated n _ hr hread
      exact ⟨n, more, Or.inr hr, hm⟩
  refine ⟨m, mem_chainFiles.mpr ⟨hm, by rw [hread']; rfl⟩, pre, post ++ more, hpre, ?_⟩
  rw [hread', List.append_assoc _ post more]

/-- What is appended at the end of a line is on record. -/
theorem onRecord_append {r : Dict} {content : Bytes} (h : EndsLine content) :
    OnRecord p (d.write p.active (content ++ utf8 (dumps lineStyle (.obj r) ++ ['\n']))) r := by
  refine ⟨p.active, mem_chainFiles.mpr ⟨Or.inl rfl, ?_⟩, content, [], h, ?_⟩
  · rw [Dir.read_write_self]
    rfl
  · rw [Dir.read_write_self, List.append_nil]

theorem KeepsChain.refl (d : Dir Bytes) : KeepsChain p d d where
  rotated := fun _ b _ hb => ⟨[], by rw [hb, List.append_nil]⟩
  active := fun b hb => ⟨p.active, [], Or.inl rfl, by rw [hb, List.append_nil]⟩

/-- Renaming the active file to a new name loses nothing, whatever is then active. -/
theorem KeepsChain.rename {target : String} {e : Dir Bytes} (h : d.rename p.active target = some e)
    (htarget : p.isRotated target = true) (hnew : d.read target = none)
    (hsame : ∀ n, n ≠ p.active → d'.read n = e.read n) : KeepsChain p d d' := by
  have hrot : ∀ n, p.isRotated n = true → n ≠ p.active := by
    rintro n hn rfl
    rw [isRotated_active] at hn
    cases hn
  constructor
  case rotated =>
    intro n b hn hb
    refine ⟨[], ?_⟩
    have hne : n ≠ target := by
      rintro rfl
      rw [hnew] at hb
      cases hb
    rw [hsame n (hrot n hn), Dir.read_rename h, if_neg hne, if_neg (hrot n hn), hb, List.append_nil]
  case active =>
    intro b hb
    refine ⟨target, [], Or.inr htarget, ?_⟩
    rw [hsame target (hrot target htarget), Dir.read_rename h, if_pos rfl, hb, List.append_nil]

end Chain

/-! ## The rotation -/

section Rotation

variable {rt : Runtime} {clock : Nat → String} {log : AuditLog} {m : Stamp} {w w' : World}

theorem rotate_keeps (h : rotate rt clock log m w = .ok w')
    (hnew : w.dir.read (log.path.rotated (clock w.rotations)) = none) :
    KeepsChain log.path w.dir w'.dir := by
  unfold rotate at h
  cases hread : w.dir.read log.path.active with
  | none =>
    rw [hread] at h
    cases h
  | some content =>
    rw [hread] at h
    simp only [bind, Except.bind] at h
    split at h
    · cases h
    split at h
    · cases h
    next dir hren =>
    cases h
    refine KeepsChain.rename hren (isRotated_rotated _ _) hnew (fun n hn => ?_)
    rw [Dir.read_write_of_ne _ _ hn, Dir.read_touch, if_neg hn]

theorem crashRotate_keeps {pt : CrashPoint} (h : crashRotate rt clock log m w pt = some w')
    (hnew : w.dir.read (log.path.rotated (clock w.rotations)) = none) :
    KeepsChain log.path w.dir w'.dir := by
  unfold crashRotate at h
  split at h
  · cases h
  split at h
  · cases h
  dsimp only at h
  split at h
  · cases h
  next dir hren =>
  have hkeeps : ∀ d' : Dir Bytes, (∀ n, n ≠ log.path.active → d'.read n = dir.read n) →
      KeepsChain log.path w.dir d' :=
    fun d' hsame => KeepsChain.rename hren (isRotated_rotated _ _) hnew hsame
  cases pt with
  | renamed =>
    cases h
    exact hkeeps _ (fun n _ => rfl)
  | recreated =>
    cases h
    exact hkeeps _ (fun n hn => by rw [Dir.read_touch, if_neg hn])
  | inMarker k =>
    dsimp only at h
    split at h
    · cases h
      exact hkeeps _ (fun n hn => by rw [Dir.read_write_of_ne _ _ hn, Dir.read_touch, if_neg hn])
    · cases h
  | afterMarker =>
    cases h
    exact hkeeps _ (fun n hn => by rw [Dir.read_write_of_ne _ _ hn, Dir.read_touch, if_neg hn])
  | beforeAppend | inAppend _ | afterAppend => cases h

end Rotation

end ComplianceMcp
