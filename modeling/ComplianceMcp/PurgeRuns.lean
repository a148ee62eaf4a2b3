import ComplianceMcp.WriteFaults
import ComplianceMcp.DraftInvariant

/-! # Runs of the purge

No run of the purge removes a pending draft or the active file.  What a run removed is
accounted for if the record is reached and counts what was deleted: `PurgeSafe` says of each
step what that takes.  A run that nothing disturbs is one call of `purge`, and its steps are
safe. -/
namespace ComplianceMcp

open PyJson PyText Files Steps

/-! ## What is never removed -/

section Spares

variable {rt : Runtime} {clock : Nat → String} {strftime : Int → String} {p : ChainPath}
  {key : String} {c : PurgeCall} {s t : PurgeRun}

/-- The files the run has listed and may still unlink. -/
def PurgePc.listed : PurgePc → List String
  | .probing _ rotated => rotated
  | .dating _ old rest => old ++ rest
  | .unlinking _ old rest => old ++ rest
  | _ => []

/-- Only rotated files are listed, and only drafts past retention and rotated files removed. -/
structure SparesInv (p : ChainPath) (s : PurgeRun) : Prop where
  listed : ∀ n ∈ s.pc.listed, p.isRotated n = true
  rows : ∀ r ∈ s.removedRows, r.status ≠ "pending"
  files : ∀ n ∈ s.removedFiles, p.isRotated n = true

theorem SparesInv.start (h : Host) : SparesInv p (.start h) where
  listed := fun _ hn => absurd hn List.not_mem_nil
  rows := fun _ hr => absurd hr List.not_mem_nil
  files := fun _ hn => absurd hn List.not_mem_nil

/-- A step that removes nothing and lists nothing new. -/
theorem SparesInv.frame (h : SparesInv p s) (hpc : ∀ n ∈ t.pc.listed, n ∈ s.pc.listed)
    (hrows : t.removedRows = s.removedRows) (hfiles : t.removedFiles = s.removedFiles) :
    SparesInv p t where
  listed := fun n hn => h.listed n (hpc n hn)
  rows := by
    rw [hrows]
    exact h.rows
  files := by
    rw [hfiles]
    exact h.files

/-- A step after which nothing is listed. -/
theorem SparesInv.quiet (h : SparesInv p s) (hpc : t.pc.listed = [])
    (hrows : t.removedRows = s.removedRows) (hfiles : t.removedFiles = s.removedFiles) :
    SparesInv p t :=
  h.frame (fun n hn => by rw [hpc] at hn; cases hn) hrows hfiles

theorem SparesInv.next (h : SparesInv p s) (hs : purgeNext rt clock strftime p key c s = some t) :
    SparesInv p t := by
  unfold purgeNext at hs
  cases hpc : s.pc with
  | starting =>
    rw [hpc] at hs
    dsimp only at hs
    split at hs <;> cases hs <;> exact h.quiet rfl rfl rfl
  | counting =>
    rw [hpc] at hs
    cases hs
    exact h.quiet rfl rfl rfl
  | deleting drafts =>
    rw [hpc] at hs
    cases hs
    constructor
    case listed => exact fun n hn => absurd hn List.not_mem_nil
    -- what DELETE takes satisfies its WHERE, which leaves pending rows out
    case rows => exact fun r hr => purgeable_not_pending (List.mem_filter.mp hr).2
    case files => exact h.files
  | globbing drafts =>
    rw [hpc] at hs
    cases hs
    constructor
    case listed => exact fun n hn => (Dir.mem_sortedNames.mp (List.mem_filter.mp hn).1).1
    case rows => exact h.rows
    case files => exact h.files
  | probing drafts rotated =>
    rw [hpc] at hs
    cases hs
    refine h.frame (fun n hn => ?_) rfl rfl
    rw [hpc]
    -- only the active file can have been added, and the last file is left out
    replace hn : n ∈ (rotated ++ if (s.dir.read p.active).isSome then [p.active]
        else []).dropLast := hn
    split at hn
    · rwa [List.dropLast_concat] at hn
    · rw [List.append_nil] at hn
      exact List.mem_of_mem_dropLast hn
  | dating drafts old rest =>
    rw [hpc] at hs
    cases rest with
    | nil =>
      cases hs
      refine h.frame (fun n hn => ?_) rfl rfl
      rw [hpc]
      -- the files to unlink are the ones found old
      replace hn : n ∈ old ++ old := hn
      show n ∈ old ++ []
      simpa using hn
    | cons n rest =>
      dsimp only at hs
      split at hs
      · cases hs
        refine h.frame (fun m hm => ?_) rfl rfl
        rw [hpc]
        replace hm : m ∈ (if s.host.mtime n < s.cutoff then old ++ [n] else old) ++ rest := hm
        show m ∈ old ++ n :: rest
        split at hm
        · simpa using hm
        · rcases List.mem_append.mp hm with hm | hm
          · exact List.mem_append_left _ hm
          · exact List.mem_append_right _ (List.mem_cons_of_mem _ hm)
      · cases hs
        exact h.quiet rfl rfl rfl
  | unlinking drafts old rest =>
    rw [hpc] at hs
    cases rest with
    | nil =>
      cases hs
      exact h.quiet rfl rfl rfl
    | cons n rest =>
      dsimp only at hs
      split at hs
      · cases hs
        have hlisted : ∀ m ∈ old ++ n :: rest, p.isRotated m = true := by
          intro m hm
          refine h.listed m ?_
          rw [hpc]
          exact hm
        constructor
        case listed =>
          intro m hm
          replace hm : m ∈ old ++ rest := hm
          refine hlisted m ?_
          rcases List.mem_append.mp hm with hm | hm
          · exact List.mem_append_left _ hm
          · exact List.mem_append_right _ (List.mem_cons_of_mem _ hm)
        case rows => exact h.rows
        case files =>
          intro m hm
          rcases List.mem_append.mp hm with hm | hm
          · exact h.files m hm
          · rw [List.mem_singleton.mp hm]
            exact hlisted n (List.mem_append_right _ List.mem_cons_self)
      · cases hs
        exact h.quiet rfl rfl rfl
  | opening drafts old =>
    rw [hpc] at hs
    cases hs
    exact h.quiet rfl rfl rfl
  | appending drafts old =>
    rw [hpc] at hs
    cases hs
    unfold PurgeRun.append
    dsimp only
    split
    · exact h.quiet rfl rfl rfl
    · refine h.quiet ?_ rfl rfl
      show PurgePc.listed (if _ then _ else _) = []
      split <;> rfl
  | rotating =>
    rw [hpc] at hs
    dsimp only at hs
    split at hs <;> cases hs <;> exact h.quiet rfl rfl rfl
  | ended e =>
    rw [hpc] at hs
    cases hs

/-- What raises removes nothing and ends the run. -/
theorem purgeStop_ends {pt : CrashPoint} (hs : purgeStop rt clock strftime p key c s pt = some t) :
    (∃ e, t.pc = .ended e) ∧ t.removedRows = s.removedRows ∧ t.removedFiles = s.removedFiles := by
  unfold purgeStop at hs
  cases hpc : s.pc with
  | ended e =>
    rw [hpc] at hs
    cases hs
  | appending drafts old =>
    rw [hpc] at hs
    obtain ⟨w, -, rfl⟩ := Option.map_eq_some_iff.mp hs
    exact ⟨⟨_, rfl⟩, rfl, rfl⟩
  | rotating =>
    rw [hpc] at hs
    obtain ⟨w, -, rfl⟩ := Option.map_eq_some_iff.mp hs
    exact ⟨⟨_, rfl⟩, rfl, rfl⟩
  | starting | counting | deleting _ | globbing _ | probing _ _ | dating _ _ _ | unlinking _ _ _
  | opening _ _ =>
    rw [hpc] at hs
    cases hs
    exact ⟨⟨_, rfl⟩, rfl, rfl⟩

theorem SparesInv.step {a : PurgeAction} (h : SparesInv p s)
    (hs : purgeStep rt clock strftime p key c s a = some t) : SparesInv p t := by
  cases a with
  | next => exact h.next hs
  | stop pt =>
    obtain ⟨⟨e, he⟩, hrows, hfiles⟩ := purgeStop_ends hs
    exact h.quiet (by rw [he]; rfl) hrows hfiles
  | others host =>
    unfold purgeStep at hs
    dsimp only at hs
    split at hs
    · cases hs
    · cases hs
      exact h.frame (fun n hn => hn) rfl rfl

/-- **No run removes a pending draft or the active file.** -/
theorem purge_spares {h : Host} {as : List PurgeAction}
    (hr : run (purgeStep rt clock strftime p key c) (.start h) as = some s) : s.Spares p := by
  have hinv : SparesInv p s := run_invariant (fun s a t hs ht => hs.step ht) (SparesInv.start h) hr
  constructor
  case rows => exact hinv.rows
  case files =>
    intro n hn
    refine ⟨hinv.files n hn, ?_⟩
    rintro rfl
    have hactive := hinv.files _ hn
    rw [isRotated_active] at hactive
    cases hactive

end Spares

/-! ## What is accounted for -/

section Accounts

variable {rt : Runtime} {clock : Nat → String} {strftime : Int → String} {p : ChainPath}
  {key : String} {c : PurgeCall} {s t : PurgeRun}

theorem Accounts.keeps {d d' : Dir Bytes} {drafts : Nat} {files : List String}
    (h : Accounts p c d drafts files) (hk : KeepsChain p d d') : Accounts p c d' drafts files := by
  obtain ⟨r, args, hr, hrest⟩ := h
  exact ⟨r, args, hr.keeps hk, hrest⟩

/-- The record of a purge that has been appended accounts for what it says. -/
theorem accounts_append (hlower : rt.lower "files" = "files") {d : Dir Bytes} {drafts : Nat}
    {old : List String} {content bytes : Bytes} {body : Dict} (hline : EndsLine content)
    (happ : appendRecord rt (adminLog p key) (s.call strftime c drafts old).entry c.stamp content =
      .ok (body, bytes)) :
    Accounts p c (d.write p.active (content ++ bytes)) drafts old := by
  obtain ⟨tail, prevHash, seq, -, -, -, rfl, rfl⟩ := appendRecord_ok happ
  have hget : ∀ k, k ≠ "hash" → k ≠ "mac" →
      Json.get (sealed rt (adminLog p key).hmacKey
        (recordBody rt (adminLog p key) (s.call strftime c drafts old).entry c.stamp seq
          prevHash)) k =
      Json.get (recordBody rt (adminLog p key) (s.call strftime c drafts old).entry c.stamp seq
        prevHash) k :=
    fun k h h' => get_sealed rt _ h h'
  refine ⟨_, redact rt (s.call strftime c drafts old).entry.args, onRecord_append hline,
    ?_, ?_, ?_, ?_⟩
  · rw [hget _ (by decide) (by decide)]
    rfl
  · rw [hget _ (by decide) (by decide)]
    rfl
  · show Json.get (redact rt ([("older_than_days", .int c.olderThanDays),
      ("cutoff", .str (strftime s.cutoff))] ++
      [("files", .arr (old.map .str))])) "files" = _
    rw [redact, List.map_append, get_append, get_eq_none (by simp), Option.none_or,
      List.map_singleton, hlower, if_neg (by decide)]
    rfl
  · rw [hget _ (by decide) (by decide)]
    rfl

/-- What the steps of a run that is safe so far have established. -/
def CountInv (strftime : Int → String) (p : ChainPath) (c : PurgeCall) (s : PurgeRun) : Prop :=
  match s.pc with
  | .starting | .counting => s.Untouched
  | .deleting drafts => s.Untouched ∧ drafts = s.host.rows.countP (purgeable (strftime s.cutoff))
  | .globbing drafts | .probing drafts _ | .dating drafts _ _ =>
    s.removedRows.length = drafts ∧ s.removedFiles = []
  | .unlinking drafts old rest => s.removedRows.length = drafts ∧ s.removedFiles ++ rest = old
  | .opening drafts old | .appending drafts old =>
    s.removedRows.length = drafts ∧ s.removedFiles = old
  | .rotating | .ended _ => s.Accounted p c

/-- After the append it is enough that the run is accounted for. -/
theorem CountInv.of_accounted (hpc : t.pc = .rotating ∨ ∃ e, t.pc = .ended e)
    (h : t.Accounted p c) :
    CountInv strftime p c t := by
  unfold CountInv
  rcases hpc with hpc | ⟨e, hpc⟩
  · rw [hpc]
    exact h
  · rw [hpc]
    exact h

/-- Opening the file does not change its content. -/
theorem content_opened (d : Dir Bytes) :
    ((d.touch p.active []).read p.active).getD [] = (d.read p.active).getD [] := by
  rw [Dir.read_touch, if_pos rfl, Option.getD_some]

/-- What the append does: nothing to the chain, or it puts the record into the active file. -/
theorem PurgeRun.append_cases (drafts : Nat) (old : List String) :
    ((s.append rt strftime p key c drafts old).pc = .rotating ∨
        ∃ e, (s.append rt strftime p key c drafts old).pc = .ended e) ∧
      (s.append rt strftime p key c drafts old).removedRows = s.removedRows ∧
      (s.append rt strftime p key c drafts old).removedFiles = s.removedFiles ∧
      ∀ body bytes, appendRecord rt (adminLog p key) (s.call strftime c drafts old).entry c.stamp
          ((s.dir.read p.active).getD []) = .ok (body, bytes) →
        (s.append rt strftime p key c drafts old).dir =
          (s.dir.touch p.active []).write p.active ((s.dir.read p.active).getD [] ++ bytes) := by
  unfold PurgeRun.append
  simp only [content_opened]
  cases happ : appendRecord rt (adminLog p key) (s.call strftime c drafts old).entry c.stamp
      ((s.dir.read p.active).getD []) with
  | error e => exact ⟨Or.inr ⟨_, rfl⟩, rfl, rfl, fun body bytes h => by cases h⟩
  | ok r =>
    refine ⟨?_, rfl, rfl, fun body bytes h => by cases h; rfl⟩
    dsimp only [PurgeRun.setWorld]
    split
    · exact Or.inl rfl
    · exact Or.inr ⟨_, rfl⟩

theorem untouched_congr (h : s.Untouched) (hrows : t.removedRows = s.removedRows)
    (hfiles : t.removedFiles = s.removedFiles) : t.Untouched :=
  ⟨hrows.trans h.1, hfiles.trans h.2⟩

/-- A record that has been put into the active file, on a line of its own, accounts for the run. -/
theorem accounted_append (hlower : rt.lower "files" = "files") {drafts : Nat} {old : List String}
    (h : s.removedRows.length = drafts ∧ s.removedFiles = old)
    (hlines : s.Appendable rt strftime p key c drafts old)
    (hrows : t.removedRows = s.removedRows) (hfiles : t.removedFiles = s.removedFiles)
    (hdir : ∀ body bytes, appendRecord rt (adminLog p key)
      (s.call strftime c drafts old).entry c.stamp
        ((s.dir.read p.active).getD []) = .ok (body, bytes) →
      t.dir = (s.dir.touch p.active []).write p.active ((s.dir.read p.active).getD [] ++ bytes)) :
    t.Accounted p c := by
  obtain ⟨hline, hok⟩ := hlines
  cases happ : appendRecord rt (adminLog p key) (s.call strftime c drafts old).entry c.stamp
      ((s.dir.read p.active).getD []) with
  | error e =>
    rw [happ] at hok
    cases hok
  | ok r =>
    refine Or.inr ?_
    rw [hdir r.1 r.2 happ, hrows, hfiles, h.1, h.2]
    exact accounts_append hlower hline happ

theorem CountInv.next (hlower : rt.lower "files" = "files") (h : CountInv strftime p c s)
    (hsafe : PurgeSafe rt clock strftime p key c s .next)
    (hs : purgeNext rt clock strftime p key c s = some t) :
    CountInv strftime p c t := by
  unfold purgeNext at hs
  unfold CountInv at h
  unfold PurgeSafe at hsafe
  cases hpc : s.pc with
  | starting =>
    rw [hpc] at hs h
    dsimp only at hs
    split at hs
    · cases hs
      exact Or.inl h
    · cases hs
      exact h
  | counting =>
    rw [hpc] at hs h
    cases hs
    exact ⟨h, rfl⟩
  | deleting drafts =>
    rw [hpc] at hs h
    cases hs
    obtain ⟨h, hcount⟩ := h
    refine ⟨?_, h.2⟩
    -- the rows removed are those that were counted
    rw [hcount, List.countP_eq_length_filter]
  | globbing drafts =>
    rw [hpc] at hs h
    cases hs
    exact h
  | probing drafts rotated =>
    rw [hpc] at hs h
    cases hs
    exact h
  | dating drafts old rest =>
    rw [hpc] at hs h hsafe
    cases rest with
    | nil =>
      cases hs
      obtain ⟨hrows, hfiles⟩ := h
      refine ⟨hrows, ?_⟩
      show s.removedFiles ++ old = old
      rw [hfiles, List.nil_append]
    | cons n rest =>
      dsimp only at hs
      split at hs
      · cases hs
        exact h
      · next hgone =>
        cases hs
        -- a file that has vanished ends the run, which is safe while nothing is removed
        exact Or.inl (hsafe.resolve_right hgone)
  | unlinking drafts old rest =>
    rw [hpc] at hs h hsafe
    cases rest with
    | nil =>
      cases hs
      obtain ⟨hrows, hfiles⟩ := h
      rw [List.append_nil] at hfiles
      exact ⟨hrows, hfiles⟩
    | cons n rest =>
      dsimp only at hs
      split at hs
      · cases hs
        obtain ⟨hrows, hfiles⟩ := h
        refine ⟨hrows, ?_⟩
        -- unlinked so far and still to unlink are what was found old
        show s.removedFiles ++ [n] ++ rest = old
        rw [← hfiles, List.append_assoc]
        rfl
      · next hgone =>
        cases hs
        exact Or.inl (hsafe.resolve_right hgone)
  | opening drafts old =>
    rw [hpc] at hs h
    cases hs
    exact h
  | appending drafts old =>
    rw [hpc] at hs h hsafe
    cases hs
    obtain ⟨hends, hrows, hfiles, hdir⟩ := @PurgeRun.append_cases rt strftime p key c s drafts old
    refine CountInv.of_accounted hends ?_
    rcases hsafe with hsafe | hsafe
    · exact Or.inl (untouched_congr hsafe hrows hfiles)
    · exact accounted_append hlower h hsafe hrows hfiles hdir
  | rotating =>
    rw [hpc] at hs h hsafe
    dsimp only at hs
    split at hs
    · cases hs
      exact h
    · next w hrotate =>
      cases hs
      rcases hsafe with hsafe | hnew
      · exact Or.inl hsafe
      rcases h with h | h
      · exact Or.inl h
      · exact Or.inr (h.keeps (rotate_keeps hrotate hnew))
  | ended e =>
    rw [hpc] at hs
    cases hs

theorem CountInv.stop (hlower : rt.lower "files" = "files") {pt : CrashPoint}
    (h : CountInv strftime p c s) (hsafe : PurgeSafe rt clock strftime p key c s (.stop pt))
    (hs : purgeStop rt clock strftime p key c s pt = some t) : CountInv strftime p c t := by
  obtain ⟨hends, hrows, hfiles⟩ := purgeStop_ends hs
  refine CountInv.of_accounted (Or.inr hends) ?_
  unfold purgeStop at hs
  unfold CountInv at h
  unfold PurgeSafe at hsafe
  cases hpc : s.pc with
  | ended e =>
    rw [hpc] at hs
    cases hs
  | appending drafts old =>
    rw [hpc] at hs h hsafe
    rcases hsafe with hsafe | ⟨rfl, hsafe⟩
    · exact Or.inl (untouched_congr hsafe hrows hfiles)
    refine accounted_append hlower h hsafe hrows hfiles (fun body bytes happ => ?_)
    obtain ⟨w, hw, rfl⟩ := Option.map_eq_some_iff.mp hs
    replace happ : appendRecord rt (adminLog p key) (s.call strftime c drafts old).entry
        (s.call strftime c drafts old).stamp
        (((s.host.world.dir.touch (adminLog p key).path.active []).read
          (adminLog p key).path.active).getD []) = .ok (body, bytes) := by
      rw [content_opened]
      exact happ
    unfold crash at hw
    simp only [happ] at hw
    cases hw
    show (s.host.world.dir.touch p.active []).write p.active _ = _
    rw [content_opened]
    rfl
  | rotating =>
    rw [hpc] at hs h hsafe
    obtain ⟨w, hw, rfl⟩ := Option.map_eq_some_iff.mp hs
    rcases hsafe with hsafe | hnew
    · exact Or.inl hsafe
    rcases h with h | h
    · exact Or.inl h
    refine Or.inr (h.keeps ?_)
    split at hw
    · cases hw
      exact KeepsChain.refl _
    · exact crashRotate_keeps hw hnew
  | starting | counting | deleting _ | globbing _ | probing _ _ | dating _ _ _ | unlinking _ _ _
  | opening _ _ =>
    rw [hpc] at hsafe
    exact Or.inl (untouched_congr hsafe hrows hfiles)

theorem CountInv.step (hlower : rt.lower "files" = "files") {a : PurgeAction}
    (h : CountInv strftime p c s) (hsafe : PurgeSafe rt clock strftime p key c s a)
    (hs : purgeStep rt clock strftime p key c s a = some t) :
    CountInv strftime p c t := by
  cases a with
  | next => exact h.next hlower hsafe hs
  | stop pt => exact h.stop hlower hsafe hs
  | others host =>
    unfold purgeStep at hs
    unfold CountInv at h
    unfold PurgeSafe at hsafe
    cases hpc : s.pc with
    | ended e =>
      rw [hpc] at hs
      cases hs
    | deleting drafts =>
      rw [hpc] at hs h hsafe
      cases hs
      exact ⟨h.1, h.2.trans hsafe.symm⟩
    | rotating =>
      rw [hpc] at hs h hsafe
      cases hs
      rcases h with h | h
      · exact Or.inl h
      · exact Or.inr (h.keeps hsafe)
    | starting | counting | globbing _ | probing _ _ | dating _ _ _ | unlinking _ _ _ | opening _ _
    | appending _ _ =>
      rw [hpc] at hs h
      cases hs
      exact h

end Accounts

/-! ## A run that nothing disturbs -/

section Undisturbed

variable (rt : Runtime) (clock : Nat → String) (strftime : Int → String) (p : ChainPath)
  (key : String) (c : PurgeCall)

/-- The purge gets from one state to the other by its own steps, all of them safe. -/
def GoesTo (s t : PurgeRun) : Prop :=
  ∃ as, run (purgeStep rt clock strftime p key c) s as = some t ∧
    Meets (purgeStep rt clock strftime p key c) (PurgeSafe rt clock strftime p key c) s as ∧
    ∀ a ∈ as, a = .next

variable {rt clock strftime p key c} {s t u : PurgeRun}

theorem GoesTo.refl (s : PurgeRun) : GoesTo rt clock strftime p key c s s :=
  ⟨[], rfl, trivial, fun _ h => absurd h List.not_mem_nil⟩

theorem GoesTo.step (hsafe : PurgeSafe rt clock strftime p key c s .next)
    (hs : purgeNext rt clock strftime p key c s = some u)
    (h : GoesTo rt clock strftime p key c u t) :
    GoesTo rt clock strftime p key c s t := by
  obtain ⟨as, hr, hm, hall⟩ := h
  refine ⟨.next :: as, run_cons.mpr ⟨u, hs, hr⟩, Meets.cons hsafe hs hm, fun a ha => ?_⟩
  rcases List.mem_cons.mp ha with rfl | ha
  · rfl
  · exact hall a ha

theorem GoesTo.trans (h : GoesTo rt clock strftime p key c s u)
    (h' : GoesTo rt clock strftime p key c u t) :
    GoesTo rt clock strftime p key c s t := by
  obtain ⟨as, hr, hm, hall⟩ := h
  obtain ⟨bs, hr', hm', hall'⟩ := h'
  refine ⟨as ++ bs, run_append.mpr ⟨u, hr, hr'⟩, hm.append hr hm', fun a ha => ?_⟩
  rcases List.mem_append.mp ha with ha | ha
  · exact hall a ha
  · exact hall' a ha

/-- The files are looked at one by one. -/
theorem goesTo_dated {drafts : Nat} {old rest : List String} (hpc : s.pc = .dating drafts old rest)
    (hthere : ∀ n ∈ rest, (s.dir.read n).isSome = true) :
    GoesTo rt clock strftime p key c s { s with
      pc := .unlinking drafts (old ++ rest.filter (fun n => s.host.mtime n < s.cutoff))
        (old ++ rest.filter (fun n => s.host.mtime n < s.cutoff)) } := by
  induction rest generalizing s old with
  | nil =>
    rw [List.filter_nil, List.append_nil]
    refine GoesTo.step ?_ ?_ (GoesTo.refl _)
    · unfold PurgeSafe
      rw [hpc]
      trivial
    · unfold purgeNext
      rw [hpc]
  | cons n rest ih =>
    have hn : (s.dir.read n).isSome = true := hthere n List.mem_cons_self
    have hfilter : old ++ (n :: rest).filter (fun n => s.host.mtime n < s.cutoff) =
        (if s.host.mtime n < s.cutoff then old ++ [n] else old) ++
          rest.filter (fun n => s.host.mtime n < s.cutoff) := by
      by_cases hold : s.host.mtime n < s.cutoff
      · rw [if_pos hold, List.append_assoc, List.singleton_append, List.filter_cons,
          if_pos (decide_eq_true hold)]
      · rw [if_neg hold, List.filter_cons, if_neg (by simpa using hold)]
    rw [hfilter]
    refine GoesTo.step
      (u := { s with
        pc := .dating drafts (if s.host.mtime n < s.cutoff then old ++ [n]
          else old) rest }) ?_ ?_ ?_
    · unfold PurgeSafe
      rw [hpc]
      exact Or.inr hn
    · unfold purgeNext
      rw [hpc]
      dsimp only
      rw [if_pos hn]
    · exact ih rfl (fun m hm => hthere m (List.mem_cons_of_mem _ hm))

/-- The files are unlinked one by one. -/
theorem goesTo_unlinked {drafts : Nat} {old rest : List String}
    (hpc : s.pc = .unlinking drafts old rest) (hthere : ∀ n ∈ rest, (s.dir.read n).isSome = true)
    (hnd : rest.Nodup) :
    GoesTo rt clock strftime p key c s
      { s.setWorld { s.host.world with dir := unlinkAll s.dir rest } (.opening drafts old) with
        removedFiles := s.removedFiles ++ rest } := by
  induction rest generalizing s with
  | nil =>
    rw [List.append_nil]
    refine GoesTo.step ?_ ?_ (GoesTo.refl _)
    · unfold PurgeSafe
      rw [hpc]
      trivial
    · unfold purgeNext
      rw [hpc]
      rfl
  | cons n rest ih =>
    have hn : (s.dir.read n).isSome = true := hthere n List.mem_cons_self
    rw [List.nodup_cons] at hnd
    have hthere' : ∀ m ∈ rest, ((s.dir.remove n).read m).isSome = true := by
      intro m hm
      have hne : m ≠ n := fun h => hnd.1 (h ▸ hm)
      rw [Dir.read_remove, if_neg hne]
      exact hthere m (List.mem_cons_of_mem _ hm)
    rw [List.append_cons s.removedFiles n rest]
    refine GoesTo.step
      (u := { s.setWorld { s.host.world with
        dir := s.dir.remove n } (.unlinking drafts old rest) with
        removedFiles := s.removedFiles ++ [n] }) ?_ ?_ ?_
    · unfold PurgeSafe
      rw [hpc]
      exact Or.inr hn
    · unfold purgeNext
      rw [hpc]
      dsimp only
      rw [if_pos hn]
    · exact @ih { s.setWorld { s.host.world with
        dir := s.dir.remove n } (.unlinking drafts old rest) with
        removedFiles := s.removedFiles ++ [n] } rfl hthere' hnd.2

/-- The files listed before the last one are rotated files, in order. -/
theorem dropLast_chainFiles (d : Dir Bytes) :
    (chainFiles p d).dropLast.Sublist (d.sortedNames p.isRotated) := by
  unfold chainFiles
  split
  · rw [List.dropLast_concat]
    exact List.filter_sublist
  · rw [List.append_nil]
    exact (List.dropLast_sublist _).trans List.filter_sublist

/-- The record is written, and the file rotated if it has grown. -/
theorem goesTo_written {drafts : Nat} {old : List String} (hpc : s.pc = .appending drafts old)
    (hlines : s.Appendable rt strftime p key c drafts old)
    (hnew : s.dir.read (s.target clock p) = none) :
    ∃ t e, GoesTo rt clock strftime p key c s t ∧ t.pc = .ended e ∧
      t.host = { s.host with
        world := (write rt clock (adminLog p key) (s.call strftime c drafts old) s.host.world).2 } ∧
      t.removedRows = s.removedRows ∧ t.removedFiles = s.removedFiles ∧
      (e = none ↔ (write rt clock (adminLog p key) (s.call strftime c drafts old)
        s.host.world).1.isOk = true) := by
  have hsafe : PurgeSafe rt clock strftime p key c s .next := by
    unfold PurgeSafe
    rw [hpc]
    exact Or.inr hlines
  have hnext : purgeNext rt clock strftime p key c s =
      some (s.append rt strftime p key c drafts old) := by
    unfold purgeNext
    rw [hpc]
  obtain ⟨e, happ, -⟩ | ⟨body, bytes, happ, hcase⟩ :=
    @write_cases rt clock (adminLog p key) (s.call strftime c drafts old) s.host.world
  · have hok : (appendRecord rt (adminLog p key) (s.call strftime c drafts old).entry c.stamp
        (opened (adminLog p key) s.host.world)).isOk = true := hlines.2
    rw [show (s.call strftime c drafts old).stamp = c.stamp from rfl] at happ
    rw [happ] at hok
    cases hok
  obtain ⟨w, hw⟩ : ∃ w, w = extended (adminLog p key) s.host.world bytes := ⟨_, rfl⟩
  have happend : s.append rt strftime p key c drafts old = s.setWorld w
      (if (adminLog p key).rotateBytes ≤ (opened (adminLog p key) s.host.world ++ bytes).length
        then .rotating
        else .ended none) := by
    have hcontent : ((s.dir.touch p.active []).read p.active).getD [] = opened
        (adminLog p key) s.host.world :=
      content_opened s.dir
    have happ' : appendRecord rt (adminLog p key) (s.call strftime c drafts old).entry c.stamp
        (opened (adminLog p key) s.host.world) = .ok (body, bytes) := happ
    unfold PurgeRun.append
    simp only [hcontent, happ']
    rw [hw]
    rfl
  unfold turned at hcase
  rw [← hw] at hcase
  by_cases hsize : (adminLog p key).rotateBytes ≤
    (opened (adminLog p key) s.host.world ++ bytes).length
  · rw [if_pos hsize] at happend
    rw [if_pos hsize] at hcase
    have hfree : PurgeSafe rt clock strftime p key c (s.setWorld w .rotating) .next := by
      have hne : p.rotated (clock s.host.world.rotations) ≠ p.active := rotated_ne_active p _
      refine Or.inr ?_
      rw [hw]
      show ((s.dir.touch p.active []).write p.active _).read
        (p.rotated (clock s.host.world.rotations)) = none
      rw [Dir.read_write_of_ne _ _ hne, Dir.read_touch, if_neg hne]
      exact hnew
    obtain ⟨e, hrot, hwrite⟩ | ⟨w', hrot, hwrite⟩ := hcase
    · have hrot' : rotate rt clock (adminLog p key) c.markerStamp w = .error e := hrot
      have hnext' : purgeNext rt clock strftime p key c (s.setWorld w .rotating) =
          some (s.setWorld w (.ended (some e))) := by
        simp only [purgeNext, PurgeRun.setWorld, hrot']
      refine ⟨s.setWorld w (.ended (some e)), some e,
        GoesTo.step hsafe (hnext.trans (congrArg some happend))
        (GoesTo.step hfree hnext' (GoesTo.refl _)), rfl, by rw [hwrite]; rfl, rfl, rfl, ?_⟩
      rw [hwrite]
      exact iff_of_false (fun h => by cases h) (fun h => by cases h)
    · have hrot' : rotate rt clock (adminLog p key) c.markerStamp w = .ok w' := hrot
      have hnext' : purgeNext rt clock strftime p key c (s.setWorld w .rotating) =
          some (s.setWorld w' (.ended none)) := by
        simp only [purgeNext, PurgeRun.setWorld, hrot']
      refine ⟨s.setWorld w' (.ended none), none,
        GoesTo.step hsafe (hnext.trans (congrArg some happend))
        (GoesTo.step hfree hnext' (GoesTo.refl _)), rfl, by rw [hwrite]; rfl, rfl, rfl, ?_⟩
      rw [hwrite]
      exact iff_of_true rfl rfl
  · rw [if_neg hsize] at happend
    rw [if_neg hsize] at hcase
    obtain ⟨e, hrot, -⟩ | ⟨w', hrot, hwrite⟩ := hcase
    · cases hrot
    obtain rfl := Except.ok.inj hrot
    have hgo := GoesTo.step hsafe hnext (GoesTo.refl _)
    rw [happend] at hgo
    refine ⟨s.setWorld w (.ended none), none, hgo, rfl, ?_, rfl, rfl, ?_⟩
    · rw [hwrite]
      rfl
    · rw [hwrite]
      exact iff_of_true rfl rfl

/-- **A purge that nothing disturbs is one call of it**: its steps are safe, and they leave
what `purge` does. -/
theorem purge_undisturbed {h : Host} {cutoff : Int} (happly : c.apply = true)
    (hcut : cutoffTime c.now c.olderThanDays = .ok cutoff)
    (hline : EndsLine ((h.world.dir.read p.active).getD []))
    (hhead : ∀ e : Entry,
      (appendRecord rt (adminLog p key) e c.stamp ((h.world.dir.read p.active).getD [])).isOk =
        true)
    (hnew : h.world.dir.read (p.rotated (clock h.world.rotations)) = none) :
    ∃ t e, GoesTo rt clock strftime p key c (.start h) t ∧ t.pc = .ended e ∧
      t.host = (purge rt clock strftime p key c h).2 ∧
      (e = none ↔ (purge rt clock strftime p key c h).1.isOk = true) ∧
      t.removedRows = h.rows.filter (purgeable (strftime cutoff)) ∧
      t.removedFiles = expired p h.mtime cutoff h.world.dir := by
  obtain ⟨drafts, hdrafts⟩ : ∃ n, n = h.rows.countP (purgeable (strftime cutoff)) := ⟨_, rfl⟩
  obtain ⟨old, hold⟩ : ∃ ns, ns = expired p h.mtime cutoff h.world.dir := ⟨_, rfl⟩
  have hlisted := dropLast_chainFiles (p := p) h.world.dir
  have hthere : ∀ n ∈ (chainFiles p h.world.dir).dropLast, (h.world.dir.read n).isSome = true :=
    fun n hn => (Dir.mem_sortedNames.mp (hlisted.subset hn)).2
  have hsub : old.Sublist (chainFiles p h.world.dir).dropLast := hold ▸ List.filter_sublist
  -- no file is listed twice, so each unlink finds its file
  have hnd : old.Nodup :=
    ((Dir.sortedNames_pairwise h.world.dir p.isRotated).imp (fun hlt => ne_of_lt hlt)).sublist
    (hsub.trans hlisted)
  have hactive : p.active ∉ old := by
    intro hm
    have hr := (Dir.mem_sortedNames.mp ((hsub.trans hlisted).subset hm)).1
    rw [isRotated_active] at hr
    cases hr
  have hkept : (unlinkAll h.world.dir old).read p.active = h.world.dir.read p.active := by
    rw [read_unlinkAll, if_neg hactive]
  -- up to the record the steps are those of the command, one after the other
  obtain ⟨s, hs⟩ : ∃ s : PurgeRun, s = ⟨⟨h.rows.filter (fun r => !purgeable (strftime cutoff) r),
      construct (adminLog p key) { h.world with dir := unlinkAll h.world.dir old },
      h.mtime⟩, cutoff, .appending drafts old, h.rows.filter (purgeable (strftime cutoff)),
      old⟩ := ⟨_, rfl⟩
  have hsteps : GoesTo rt clock strftime p key c (.start h) s := by
    obtain ⟨rows, hrows⟩ : ∃ rows, rows = h.rows.filter (fun r => !purgeable (strftime cutoff) r) :=
      ⟨_, rfl⟩
    obtain ⟨gone, hgone⟩ : ∃ gone, gone = h.rows.filter (purgeable (strftime cutoff)) := ⟨_, rfl⟩
    refine GoesTo.step (u := ⟨h, cutoff, .counting, [], []⟩) trivial ?_ ?_
    · simp only [purgeNext, PurgeRun.start, hcut]
    refine GoesTo.step (u := ⟨h, cutoff, .deleting drafts, [], []⟩) trivial
      (by rw [hdrafts]; rfl) ?_
    refine GoesTo.step (u := ⟨{ h with rows }, cutoff, .globbing drafts, gone, []⟩) trivial
      (by rw [hrows, hgone]; rfl) ?_
    refine GoesTo.step (u := ⟨{ h with rows }, cutoff,
      .probing drafts ((h.world.dir.sortedNames p.isRotated).filter
      (fun n => n ≠ p.active)), gone, []⟩) trivial rfl ?_
    refine GoesTo.step (u := ⟨{ h with rows }, cutoff,
      .dating drafts [] (chainFiles p h.world.dir).dropLast, gone, []⟩) trivial rfl ?_
    refine (goesTo_dated rfl hthere).trans ?_
    rw [List.nil_append]
    refine (@goesTo_unlinked rt clock strftime p key c _ drafts old old ?_ ?_ hnd).trans ?_
    · rw [hold]
      rfl
    · exact fun n hn => hthere n (hsub.subset hn)
    refine GoesTo.step (u := s) trivial ?_ (GoesTo.refl _)
    rw [hs, hrows, hgone]
    rfl
  have hcontent : (s.dir.read p.active).getD [] = (h.world.dir.read p.active).getD [] := by
    rw [hs]
    show (((unlinkAll h.world.dir old).touch p.active []).read p.active).getD [] = _
    rw [content_opened, hkept]
  have hlines : s.Appendable rt strftime p key c drafts old := by
    unfold PurgeRun.Appendable
    rw [hcontent]
    exact ⟨hline, hhead _⟩
  -- nobody has taken the name a rotation would give
  have hfree : s.dir.read (s.target clock p) = none := by
    have hne := rotated_ne_active p (clock h.world.rotations)
    rw [hs]
    show ((unlinkAll h.world.dir old).touch p.active []).read
      (p.rotated (clock h.world.rotations)) = none
    rw [Dir.read_touch, if_neg hne, read_unlinkAll, hnew, ite_self]
  obtain ⟨t, e, hgo, hpc, hhost, hrows, hfiles, hok⟩ := goesTo_written (by rw [hs]) hlines hfree
  have hpurge : (purge rt clock strftime p key c h).2 = { s.host with
        world := (write rt clock (adminLog p key) (s.call strftime c drafts old) s.host.world).2 } ∧
      (purge rt clock strftime p key c h).1.isOk =
        (write rt clock (adminLog p key) (s.call strftime c drafts old) s.host.world).1.isOk := by
    unfold purge
    simp only [hcut, happly, if_true, ← hdrafts, ← hold]
    subst hs
    dsimp only [PurgeRun.call]
    cases hw : write rt clock (adminLog p key)
      ⟨purgeEntry c.olderThanDays (strftime cutoff) drafts old, c.stamp, c.markerStamp⟩
        (construct (adminLog p key) { h.world with dir := unlinkAll h.world.dir old }) with
    | mk r world => cases r <;> exact ⟨rfl, rfl⟩
  refine ⟨t, e, hsteps.trans hgo, hpc, hhost.trans hpurge.1.symm, ?_, by rw [hrows, hs],
    by rw [hfiles, hs, hold]⟩
  rw [hok, hpurge.2]

end Undisturbed

/-! ## Every run -/

theorem CountInv.start {strftime : Int → String} {p : ChainPath} {c : PurgeCall} (h : Host) :
    CountInv strftime p c (.start h) :=
  ⟨rfl, rfl⟩

/-- **What a purge removes is accounted for** in every run whose steps are all safe; and no run
at all removes a pending draft or the active file.  For every state of the drafts and the
files, every order of the steps and of what other processes do, and every step that raises. -/
theorem removals_accounted (rt : Runtime) (hlower : rt.lower "files" = "files")
    (clock : Nat → String) (strftime : Int → String) (p : ChainPath) (key : String) (c : PurgeCall)
    (h : Host) {as : List PurgeAction} {s : PurgeRun}
    (hr : run (purgeStep rt clock strftime p key c) (.start h) as = some s) :
    s.Spares p ∧ (Meets (purgeStep rt clock strftime p key c) (PurgeSafe rt clock strftime p key c)
      (.start h) as →
      ∀ e, s.pc = .ended e → s.Accounted p c) := by
  refine ⟨purge_spares hr, fun hm e he => ?_⟩
  have hinv : CountInv strftime p c s :=
    hm.invariant (fun s a t hs hsafe ht => CountInv.step hlower hs hsafe ht) (CountInv.start h) hr
  unfold CountInv at hinv
  rw [he] at hinv
  exact hinv

/-! ## Two purges at once -/

/-- A draft that was decided long ago, and one that is pending. -/
def agedRows : List Row :=
  [⟨"D-1", "control_finding_note", "old", "b", "ana@firm.example", "", "[]", "2009-12-01T00:00:00Z",
    "rejected", "", some "rae@firm.example", some "", some "2010-01-01T00:00:00Z"⟩,
    ⟨"D-2", "control_finding_note", "new", "b", "ana@firm.example", "", "[]",
      "2025-01-01T00:00:00Z", "pending", "", none, none, none⟩]

/-- The active file and an old rotated one, without records. -/
def agedHost : Host where
  rows := agedRows
  world := ⟨(Dir.empty.write "audit.1.jsonl" []).write "audit.jsonl" [], 0, []⟩
  mtime := fun n => if n = "audit.1.jsonl" then 0 else 864000000000

/-- What is left when another purge has unlinked the rotated file. -/
def purgedHost : Host :=
  { agedHost with rows := agedRows.drop 1, world := ⟨Dir.empty.write "audit.jsonl" [], 0, []⟩ }

/-- The purge has deleted the old draft and is about to look at the age of the rotated file. -/
def agedRun : PurgeRun :=
  ⟨{ agedHost with rows := agedRows.drop 1 }, 86400000000, .dating 1 [] ["audit.1.jsonl"],
    agedRows.take 1, []⟩

/-- Meanwhile the server has written a record and the other draft has been rejected. -/
def busyHost : Host where
  rows := (agedRows.drop 1).map
    (fun r => { r with status := "rejected", decisionAt := some "2009-12-31T00:00:00Z" })
  world := ⟨(Dir.empty.write "audit.1.jsonl" []).write "audit.jsonl"
    (utf8 "\x7b\"seq\": 1, \"hash\": \"h\"\x7d\n".toList), 0, []⟩
  mtime := agedHost.mtime

theorem goesTo_agedRun : GoesTo Runtime.python purgeClock (fun _ => "2024-01-01T00:00:00Z")
    sampleLog.path "k"
    samplePurge (.start agedHost) agedRun := by
  refine GoesTo.step (u := ⟨agedHost, 86400000000, .counting, [], []⟩) trivial rfl ?_
  refine GoesTo.step (u := ⟨agedHost, 86400000000, .deleting 1, [], []⟩) trivial rfl ?_
  refine GoesTo.step (u := { agedRun with pc := .globbing 1 }) trivial rfl ?_
  refine GoesTo.step (u := { agedRun with pc := .probing 1 ["audit.1.jsonl"] }) trivial rfl ?_
  exact GoesTo.step trivial rfl (GoesTo.refl _)

/-- The record goes after the server's, and counts what this purge has removed. -/
theorem removals_accounted_sample : ∃ s : PurgeRun, s.removedRows = agedRows.take 1 ∧
    s.removedFiles = ["audit.1.jsonl"] ∧ s.host.rows = busyHost.rows ∧
    s.Spares sampleLog.path ∧ s.Accounted sampleLog.path samplePurge := by
  obtain ⟨as, hr, hm, -⟩ := goesTo_agedRun
  obtain ⟨s, hs⟩ : ∃ s, s = { agedRun with host := busyHost } := ⟨_, rfl⟩
  have hothers : purgeStep Runtime.python purgeClock (fun _ => "2024-01-01T00:00:00Z")
    sampleLog.path "k" samplePurge agedRun (.others busyHost) = some s := by rw [hs]; rfl
  -- the file is dated and unlinked, and the log opened
  obtain ⟨u, hu⟩ : ∃ u : PurgeRun,
    u = ⟨⟨busyHost.rows, ⟨busyHost.world.dir.remove "audit.1.jsonl", 0, []⟩,
    busyHost.mtime⟩, 86400000000, .appending 1 ["audit.1.jsonl"], agedRows.take 1,
    ["audit.1.jsonl"]⟩ := ⟨_, rfl⟩
  have hopened : GoesTo Runtime.python purgeClock (fun _ => "2024-01-01T00:00:00Z") sampleLog.path
    "k" samplePurge s u := by
    rw [hs, hu]
    refine (goesTo_dated rfl (by decide)).trans
      ((goesTo_unlinked rfl (by decide) (by decide)).trans ?_)
    exact GoesTo.step trivial rfl (GoesTo.refl _)
  have hlines : u.Appendable Runtime.python (fun _ => "2024-01-01T00:00:00Z") sampleLog.path
    "k" samplePurge 1 ["audit.1.jsonl"] := by
    rw [hu]
    exact ⟨Or.inr ⟨utf8 "\x7b\"seq\": 1, \"hash\": \"h\"\x7d".toList, by decide +kernel⟩,
      by decide +kernel⟩
  obtain ⟨t, e, hwritten, he, hhost, hrows, hfiles, -⟩ :=
    @goesTo_written Runtime.python purgeClock (fun _ => "2024-01-01T00:00:00Z") sampleLog.path "k"
      samplePurge u 1 ["audit.1.jsonl"] (by rw [hu]) hlines (by rw [hu]; decide +kernel)
  obtain ⟨bs, hr', hm', -⟩ := hopened.trans hwritten
  have hrun := run_append.mpr ⟨agedRun, hr, run_cons.mpr ⟨s, hothers, hr'⟩⟩
  have h := removals_accounted Runtime.python rfl purgeClock (fun _ => "2024-01-01T00:00:00Z")
    sampleLog.path "k" samplePurge agedHost hrun
  exact ⟨t, by rw [hrows, hu], by rw [hfiles, hu], by rw [hhost, hu], h.1,
    h.2 (hm.append hr (Meets.cons trivial hothers hm')) e he⟩

/-- **A draft is gone and no record says so**: another purge unlinks the file between the
look at its age and the unlink of this one. -/
theorem removal_unrecorded : ∃ s : PurgeRun,
    run (purgeStep Runtime.python purgeClock (fun _ => "2024-01-01T00:00:00Z") sampleLog.path
      "k" samplePurge)
      (.start agedHost) [.next, .next, .next, .next, .next, .next, .next, .others purgedHost,
        .next] = some s ∧
    s.pc = .ended (some .fileNotFoundError) ∧ s.removedRows = agedRows.take 1 ∧
    ¬ s.Accounted sampleLog.path samplePurge := by
  refine ⟨⟨purgedHost, 86400000000, .ended (some .fileNotFoundError), agedRows.take 1, []⟩,
    rfl, rfl, rfl, ?_⟩
  rintro (h | ⟨r, args, ⟨n, -, pre, post, -, hread⟩, -⟩)
  · cases h.1
  · -- the only file there is has no line
    replace hread : (Dir.empty.write "audit.jsonl" ([] : Bytes)).read n = _ := hread
    rw [Dir.read_write] at hread
    split at hread
    · have hnil := Option.some.inj hread
      simp [utf8_append, utf8_newline] at hnil
    · cases hread

end ComplianceMcp
