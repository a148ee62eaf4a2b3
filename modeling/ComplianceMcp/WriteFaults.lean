import ComplianceMcp.PurgeSteps

/-! # A write that raises

`AuditLog.write` has steps after its record is on disk: the sync, the rotation, and the
payloads it enqueues.  `writeWith` is a call of it that one of its steps may cut short;
`lands` says whether the whole record is in the file by then, which is not whether the call
returns. -/
namespace ComplianceMcp

open PyJson PyText Files

/-- Where a call of `write` raises: at a point of the append or of the rotation, or when it
enqueues the payload with the given number. -/
inductive WriteFault where
  | crash (pt : CrashPoint)
  | enqueue (n : Nat)

variable (rt : Runtime) (clock : Nat → String) (log : AuditLog) (c : Call) (w : World)

/-- A call of `write`, with the step that raises, if there is one and the call takes it. -/
def writeWith : Option WriteFault → Except PyError AuditRecord × World
  | none => write rt clock log c w
  | some (.crash pt) =>
    match crash rt clock log c w pt with
    | some w' => (.error .other, w')
    | none => write rt clock log c w
  | some (.enqueue n) =>
    match write rt clock log c w with
    | (.ok r, w') =>
      if w.spool.length + n < w'.spool.length then
        (.error .other, { w' with spool := w'.spool.take (w.spool.length + n) })
      else (.ok r, w')
    | (.error e, w') => (.error e, w')

/-- What the active file holds when it has been opened. -/
def opened : Bytes := (w.dir.read log.path.active).getD []

/-- The chain once the bytes have been appended. -/
def extended (bytes : Bytes) : World :=
  { w with dir := (w.dir.touch log.path.active []).write log.path.active (opened log w ++ bytes) }

/-- The rotation, when the file has grown to it. -/
def turned (bytes : Bytes) : Except PyError World :=
  if log.rotateBytes ≤ (opened log w ++ bytes).length then
    rotate rt clock log c.markerStamp (extended log w bytes)
  else .ok (extended log w bytes)

/-- The whole record gets to the file. -/
def lands (fault : Option WriteFault) : Bool :=
  match appendRecord rt log c.entry c.stamp (opened log w), fault with
  | .error _, _ => false
  | .ok _, some (.crash .beforeAppend) => false
  | .ok (_, bytes), some (.crash (.inAppend k)) => decide (¬ (0 < k ∧ k < bytes.length))
  | .ok _, _ => true

/-- Nothing raises: the tail can be read, the file can be rotated when it has grown, and no
step that the call takes is cut short. -/
structure NothingRaises (fault : Option WriteFault) : Prop where
  append : (appendRecord rt log c.entry c.stamp (opened log w)).isOk = true
  turn : ∀ body bytes, appendRecord rt log c.entry c.stamp (opened log w) = .ok (body, bytes) →
    (turned rt clock log c w bytes).isOk = true
  step : match fault with
    | none => True
    | some (.crash pt) => crash rt clock log c w pt = none
    | some (.enqueue n) => ∀ body bytes, appendRecord rt log c.entry c.stamp (opened log w) =
        .ok (body, bytes) →
        (forwarded rt log body).length ≤ n

section Lemmas

variable {rt clock log c w}

theorem opened_eq : ((w.dir.touch log.path.active []).read log.path.active).getD [] =
    opened log w := by
  rw [Dir.read_touch, if_pos rfl, Option.getD_some]
  rfl

/-- **What a call of `write` does**: the tail cannot be read, or the record is appended and
then the rotation raises or everything is done. -/
theorem write_cases :
    (∃ e, appendRecord rt log c.entry c.stamp (opened log w) = .error e ∧
      write rt clock log c w = (.error e, { w with dir := w.dir.touch log.path.active [] })) ∨
    ∃ body bytes, appendRecord rt log c.entry c.stamp (opened log w) = .ok (body, bytes) ∧
      ((∃ e, turned rt clock log c w bytes = .error e ∧
          write rt clock log c w = (.error e, extended log w bytes)) ∨
        ∃ w', turned rt clock log c w bytes = .ok w' ∧
          write rt clock log c w = (.ok (AuditRecord.ofBody body), forward rt log body w')) := by
  cases happ : appendRecord rt log c.entry c.stamp (opened log w) with
  | error e =>
    refine Or.inl ⟨e, rfl, ?_⟩
    unfold write
    simp only [opened_eq, happ]
  | ok r =>
    obtain ⟨body, bytes⟩ := r
    refine Or.inr ⟨body, bytes, rfl, ?_⟩
    cases hturn : turned rt clock log c w bytes with
    | error e =>
      refine Or.inl ⟨e, rfl, ?_⟩
      unfold turned extended at hturn
      unfold write extended
      simp only [opened_eq, happ, hturn]
    | ok w' =>
      refine Or.inr ⟨w', rfl, ?_⟩
      unfold turned extended at hturn
      unfold write
      simp only [opened_eq, happ, hturn]

theorem rotate_spool {m : Stamp} {v v' : World} (h : rotate rt clock log m v = .ok v') :
    v'.spool = v.spool := by
  unfold rotate at h
  split at h
  · cases h
  simp only [bind, Except.bind] at h
  split at h
  · cases h
  split at h
  · cases h
  cases h
  rfl

theorem turned_spool {bytes : Bytes} {w' : World} (h : turned rt clock log c w bytes = .ok w') :
    w'.spool = w.spool := by
  unfold turned at h
  split at h
  · have hspool := rotate_spool h
    exact hspool
  · cases h
    rfl

theorem write_isOk_iff : (write rt clock log c w).1.isOk = true ↔
    (appendRecord rt log c.entry c.stamp (opened log w)).isOk = true ∧
      ∀ body bytes, appendRecord rt log c.entry c.stamp (opened log w) = .ok (body, bytes) →
        (turned rt clock log c w bytes).isOk = true := by
  obtain ⟨e, happ, hw⟩ | ⟨body, bytes, happ, h⟩ := @write_cases rt clock log c w
  · rw [hw, happ]
    exact iff_of_false Bool.false_ne_true (fun h => Bool.false_ne_true h.1)
  · obtain ⟨e, hturn, hw⟩ | ⟨w', hturn, hw⟩ := h
    · rw [hw, happ]
      refine iff_of_false Bool.false_ne_true (fun h => ?_)
      have hok := h.2 body bytes rfl
      rw [hturn] at hok
      cases hok
    · rw [hw, happ]
      refine iff_of_true rfl ⟨rfl, fun body' bytes' h => ?_⟩
      cases h
      rw [hturn]
      rfl

/-- **When a call returns.** -/
theorem writeWith_isOk_iff (fault : Option WriteFault) :
    (writeWith rt clock log c w fault).1.isOk = true ↔ NothingRaises rt clock log c w fault := by
  cases fault with
  | none =>
    refine write_isOk_iff.trans ⟨fun h => ⟨h.1, h.2, trivial⟩, fun h => ⟨h.append, h.turn⟩⟩
  | some f =>
    cases f with
    | crash pt =>
      unfold writeWith
      dsimp only
      cases hc : crash rt clock log c w pt with
      | none => exact write_isOk_iff.trans ⟨fun h => ⟨h.1, h.2, hc⟩, fun h => ⟨h.append, h.turn⟩⟩
      | some w' =>
        refine iff_of_false Bool.false_ne_true (fun h => ?_)
        have hnone : crash rt clock log c w pt = none := h.step
        rw [hc] at hnone
        cases hnone
    | enqueue n =>
      unfold writeWith
      dsimp only
      obtain ⟨e, happ, hw⟩ | ⟨body, bytes, happ, h⟩ := @write_cases rt clock log c w
      · rw [hw]
        refine iff_of_false Bool.false_ne_true (fun h => ?_)
        have hok := h.append
        rw [happ] at hok
        cases hok
      obtain ⟨e, hturn, hw⟩ | ⟨w', hturn, hw⟩ := h
      · rw [hw]
        refine iff_of_false Bool.false_ne_true (fun h => ?_)
        have hok := h.turn body bytes happ
        rw [hturn] at hok
        cases hok
      · rw [hw]
        dsimp only
        rw [forward_spool, turned_spool hturn, List.length_append]
        split
        · next hlt =>
          refine iff_of_false Bool.false_ne_true (fun h => ?_)
          have hle := h.step body bytes happ
          omega
        · next hle =>
          refine iff_of_true rfl ⟨by rw [happ]; rfl, fun body' bytes' h => ?_,
            fun body' bytes' h => ?_⟩
          · rw [happ] at h
            cases h
            rw [hturn]
            rfl
          · rw [happ] at h
            cases h
            omega

/-- A call that returns has put its record into the file. -/
theorem lands_of_isOk {fault : Option WriteFault}
    (h : (writeWith rt clock log c w fault).1.isOk = true) :
    lands rt log c w fault = true := by
  have hquiet := (writeWith_isOk_iff fault).mp h
  unfold lands
  cases happ : appendRecord rt log c.entry c.stamp (opened log w) with
  | error e =>
    have hok := hquiet.append
    rw [happ] at hok
    cases hok
  | ok r =>
    obtain ⟨body, bytes⟩ := r
    cases fault with
    | none => rfl
    | some f =>
      cases f with
      | enqueue n => rfl
      | crash pt =>
        have hnone : crash rt clock log c w pt = none := hquiet.step
        unfold crash at hnone
        simp only [opened_eq, happ] at hnone
        cases pt with
        | beforeAppend => cases hnone
        | inAppend k =>
          dsimp only at hnone ⊢
          split at hnone
          · cases hnone
          · next hk => exact decide_eq_true hk
        | afterAppend | renamed | recreated | inMarker _ | afterMarker => rfl

theorem extended_fresh {bytes : Bytes}
    (hnew : w.dir.read (log.path.rotated (clock w.rotations)) = none) :
    (extended log w bytes).dir.read (log.path.rotated (clock w.rotations)) = none := by
  have hne := rotated_ne_active log.path (clock w.rotations)
  show ((w.dir.touch log.path.active []).write log.path.active _).read _ = none
  rw [Dir.read_write_of_ne _ _ hne, Dir.read_touch, if_neg hne, hnew]

/-- What is on record once the bytes are appended stays there. -/
theorem turned_keeps {bytes : Bytes} {w' : World} (h : turned rt clock log c w bytes = .ok w')
    (hnew : w.dir.read (log.path.rotated (clock w.rotations)) = none) :
    KeepsChain log.path (extended log w bytes).dir w'.dir := by
  unfold turned at h
  split at h
  · exact rotate_keeps h (extended_fresh hnew)
  · cases h
    exact KeepsChain.refl _

theorem write_keeps {body : Dict} {bytes : Bytes}
    (happ : appendRecord rt log c.entry c.stamp (opened log w) = .ok (body, bytes))
    (hnew : w.dir.read (log.path.rotated (clock w.rotations)) = none) :
    KeepsChain log.path (extended log w bytes).dir (write rt clock log c w).2.dir := by
  obtain ⟨e, happ', -⟩ | ⟨body', bytes', happ', h⟩ := @write_cases rt clock log c w
  · rw [happ] at happ'
    cases happ'
  · rw [happ] at happ'
    cases happ'
    obtain ⟨e, -, hw⟩ | ⟨w', hturn, hw⟩ := h
    · rw [hw]
      exact KeepsChain.refl _
    · rw [hw, forward_dir]
      exact turned_keeps hturn hnew

/-- **A record that lands is a line of the chain**, also where the call raises. -/
theorem lands_on_record {fault : Option WriteFault} (h : lands rt log c w fault = true)
    (hline : EndsLine (opened log w))
    (hnew : w.dir.read (log.path.rotated (clock w.rotations)) = none) :
    ∃ seq prev, OnRecord log.path (writeWith rt clock log c w fault).2.dir
      (sealed rt log.hmacKey (recordBody rt log c.entry c.stamp seq prev)) := by
  cases happ : appendRecord rt log c.entry c.stamp (opened log w) with
  | error e =>
    unfold lands at h
    rw [happ] at h
    cases h
  | ok r =>
    obtain ⟨body, bytes⟩ := r
    obtain ⟨tail, prev, seq, -, -, -, rfl, hbytes⟩ := appendRecord_ok happ
    have hrec : OnRecord log.path (extended log w bytes).dir
        (sealed rt log.hmacKey (recordBody rt log c.entry c.stamp seq prev)) := by
      rw [hbytes]
      exact onRecord_append hline
    refine ⟨seq, prev, hrec.keeps ?_⟩
    have hwrite := @write_keeps rt clock log c w _ _ happ hnew
    cases fault with
    | none => exact hwrite
    | some f =>
      cases f with
      | enqueue n =>
        unfold writeWith
        dsimp only
        split
        · next r w' hw =>
          rw [hw] at hwrite
          split <;> exact hwrite
        · next e w' hw =>
          rw [hw] at hwrite
          exact hwrite
      | crash pt =>
        unfold writeWith
        dsimp only
        cases hc : crash rt clock log c w pt with
        | none => exact hwrite
        | some w' =>
          unfold crash at hc
          simp only [opened_eq, happ] at hc
          unfold lands at h
          rw [happ] at h
          cases pt with
          | beforeAppend => cases h
          | inAppend k =>
            dsimp only at hc h
            rw [if_neg (of_decide_eq_true h)] at hc
            cases hc
          | afterAppend =>
            cases hc
            exact KeepsChain.refl _
          | renamed | recreated | inMarker _ | afterMarker =>
            dsimp only at hc
            split at hc
            · exact crashRotate_keeps hc (extended_fresh hnew)
            · cases hc

end Lemmas

end ComplianceMcp
