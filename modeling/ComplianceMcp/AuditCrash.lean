import ComplianceMcp.AuditSequence

/-! # Crashes of the writer

A process can stop anywhere in `AuditLog.write`: with any part of the record's bytes in
the active file, or between two steps of `_rotate`, with any part of the marker's bytes
in the new file.  `crash` is the directory each of these points leaves.  The records
that survive a crash are those whose line is terminated (`completePart`); `Recovers`
says that the next `write` succeeds, names the last of them and leaves a chain that
`verify` accepts and that holds them followed by what was written after the restart.

The log recovers exactly from the points at which the file on disk ends with a whole
record and the active file holds one (`recovers_iff`).  A torn line stays in the file:
`_tail_record` stops at it, or the next record is glued to it.  And while the active file
is missing or empty, the next record starts a second chain at `GENESIS`. -/
namespace ComplianceMcp

open PyJson PyText Files HashChain

variable (rt : Runtime)

/-! ## Crash points -/

/-- Where a `write` call stops. -/
inductive CrashPoint where
  /-- Nothing has reached the file. -/
  | beforeAppend
  /-- The first `k` bytes of the record have reached the file, and not all of them. -/
  | inAppend (k : Nat)
  /-- The record is in the file, and a rotation has not renamed it. -/
  | afterAppend
  /-- The file has been renamed. -/
  | renamed
  /-- The new file has been created. -/
  | recreated
  /-- The first `k` bytes of the marker have reached the new file, and not all of them. -/
  | inMarker (k : Nat)
  /-- The marker is in the new file. -/
  | afterMarker
  deriving DecidableEq

/-- The point leaves every file with whole records and the active one with a record. -/
def CrashPoint.clean : CrashPoint → Bool
  | .beforeAppend | .afterAppend | .afterMarker => true
  | .inAppend _ | .renamed | .recreated | .inMarker _ => false

/-- The part of `_rotate` a crash lets happen, `none` where the call does not get there. -/
def crashRotate (clock : Nat → String) (log : AuditLog) (s : Stamp) (w : World) (pt : CrashPoint) :
    Option World :=
  match w.dir.read log.path.active with
  | none => none
  | some content =>
    match head rt content with
    | .error _ => none
    | .ok head =>
      let rotated := log.path.rotated (clock w.rotations)
      match w.dir.rename log.path.active rotated with
      | none => none
      | some dir =>
        let bytes := markerBytes rt log s rotated head
        let stop := fun dir => some { w with dir := dir, rotations := w.rotations + 1 }
        match pt with
        | .renamed => stop dir
        | .recreated => stop (dir.touch log.path.active [])
        | .inMarker k =>
          if 0 < k ∧ k < bytes.length then
            stop ((dir.touch log.path.active []).write log.path.active (bytes.take k))
          else none
        | .afterMarker => stop ((dir.touch log.path.active []).write log.path.active bytes)
        | _ => none

/-- What a `write` call leaves when it stops at the point, `none` where the call does not
get there. -/
def crash (clock : Nat → String) (log : AuditLog) (c : Call) (w : World) (pt : CrashPoint) :
    Option World :=
  let opened := w.dir.touch log.path.active []
  let content := (opened.read log.path.active).getD []
  match appendRecord rt log c.entry c.stamp content with
  | .error _ => none
  | .ok (_, bytes) =>
    match pt with
    | .beforeAppend => some { w with dir := opened }
    | .inAppend k =>
      if 0 < k ∧ k < bytes.length then
        some { w with dir := opened.write log.path.active (content ++ bytes.take k) }
      else none
    | .afterAppend => some { w with dir := opened.write log.path.active (content ++ bytes) }
    | pt =>
      if log.rotateBytes ≤ (content ++ bytes).length then
        crashRotate rt clock log c.markerStamp
          { w with dir := opened.write log.path.active (content ++ bytes) } pt
      else none

/-! ## Recovery -/

/-- The bytes up to the last line feed. -/
def completePart (b : Bytes) : Bytes := (b.reverse.dropWhile (fun x => x ≠ lf)).reverse

/-- The records whose lines are terminated, as they are on disk. -/
def completeRecords (p : ChainPath) (d : Dir Bytes) : Option (List Json) :=
  chainRecords rt p (d.map completePart)

/-- After a restart, the call `c` through `log` succeeds and names the last complete
record, and the chain verifies and holds the complete records, the new one and at most a
rotation marker. -/
def Recovers (clock : Nat → String) (log : AuditLog) (c : Call) (w : World) : Prop :=
  ∃ (rs : List Dict) (rec : AuditRecord) (w' : World) (d : Dict) (new : List Dict),
    completeRecords rt log.path w.dir = some (rs.map .obj) ∧
    write rt clock log c (construct log w) = (.ok rec, w') ∧
    HashChain.head chainLinks genesis rs = some rec.prevHash ∧
    (∃ r, verify rt log.path w'.dir log.hmacKey = .ok r ∧ r.ok = true) ∧
    chainRecords rt log.path w'.dir = some ((rs ++ d :: new).map .obj) ∧
    (new = [] ∨ ∃ file m, new = [m] ∧ isMarker file m = true) ∧
    AuditRecord.ofBody d = rec.sortKeys

variable {rt}

/-! ## What is complete on disk -/

theorem completePart_of_endsLine {b : Bytes} (h : EndsLine b) : completePart b = b := by
  rcases h with rfl | ⟨x, rfl⟩
  · rfl
  · rw [completePart, List.reverse_append, List.reverse_singleton, List.singleton_append,
      List.dropWhile_cons_of_neg (by decide), List.reverse_cons, List.reverse_reverse]

theorem Represents.complete {p : ChainPath} {d : Dir Bytes} {l : Ledger} (h : Represents rt p d l) :
    Represents rt p (d.map completePart) l where
  sorted := h.sorted
  rotated := fun n => by
    rw [Dir.read_map, Option.isSome_map]
    exact h.rotated n
  archived := fun f hf => by
    obtain ⟨b, hb, hh⟩ := h.archived f hf
    refine ⟨b, ?_, hh⟩
    rw [Dir.read_map, hb, Option.map_some, completePart_of_endsLine hh.endsLine]
  active := by
    have ha := h.active
    rw [Dir.read_map]
    cases hr : d.read p.active with
    | none => exact (hr ▸ ha : Holds rt (Option.getD none []) l.active)
    | some b =>
      rw [hr, Option.getD_some] at ha
      rw [Option.map_some, Option.getD_some, completePart_of_endsLine ha.endsLine]
      exact ha

/-- In a directory of whole records every record is complete. -/
theorem Represents.completeRecords {p : ChainPath} {d : Dir Bytes} {l : Ledger}
    (h : Represents rt p d l) :
    ComplianceMcp.completeRecords rt p d = some (l.records.map .obj) :=
  h.complete.chainRecords

/-! ## From a sound ledger the log goes on -/

theorem field_of_get {d : Dict} {k : String} {v : Json} (h : Json.get d k = some v) :
    field d k = v := by
  rw [field, h, Option.getD_some]

theorem prevHash_writtenBody (log : AuditLog) (c : Call) (n : Int) (prev : String) :
    (AuditRecord.ofBody (sealed rt log.hmacKey (writtenBody rt log c n prev))).prevHash =
      .str prev := by
  refine field_of_get ?_
  rw [get_sealed rt _ (by decide) (by decide)]
  rfl

/-- **A log that represents a sound ledger recovers**, whatever call comes next. -/
theorem recovers_of_sound {clock : Nat → String} {log : AuditLog} {w : World} {l : Ledger}
    (h : Represents rt log.path w.dir l) (hs : Ledger.Sound rt log.hmacKey l)
    (hlt : ∀ n ∈ l.archived.map Prod.fst, n < log.path.rotated (clock w.rotations)) (c : Call) :
    Recovers rt clock log c w := by
  have htouch : Represents rt log.path (construct log w).dir l := h.touch
  obtain ⟨n, prev, -, size, w', -, hp, -, -, hwrite, -, hres⟩ :=
    write_represents htouch hs.continues hlt c
  rw [hs.head_active] at hp
  have hb : IsBody (writtenBody rt log c n prev) := recordBody_isBody rt log _ _ rfl rfl
  have hst : Stored rt log.hmacKey prev (writtenRecord rt log c n prev) :=
    stored_record rt log _ _ n prev
  have hs' := hs.append hp hst
  have hend : ∃ new, chainRecords rt log.path w'.dir =
        some ((l.records ++ writtenRecord rt log c n prev :: new).map .obj) ∧
      (new = [] ∨ ∃ file m, new = [m] ∧ isMarker file m = true) ∧
      ∃ r, verify rt log.path w'.dir log.hmacKey = .ok r ∧ r.ok = true := by
    rcases hres with ⟨-, -, hrep⟩ | ⟨-, -, prev', hp', hrep⟩
    · refine ⟨[], ?_, Or.inl rfl, ?_⟩
      · rw [hrep.chainRecords, Ledger.records_append]
      · obtain ⟨r, hr, hok, -⟩ := verify_of_sound hrep hs'
        exact ⟨r, hr, hok⟩
    · refine ⟨[writtenMarker rt log c (log.path.rotated (clock w.rotations)) prev'], ?_,
        Or.inr ⟨_, _, rfl, isMarker_writtenMarker log c _ prev'⟩, ?_⟩
      · rw [hrep.chainRecords, Ledger.records_rotate, Ledger.records_append, List.append_assoc]
        rfl
      · rw [head_append_active] at hp'
        obtain ⟨r, hr, hok, -⟩ := verify_of_sound hrep (hs'.rotate hp' (stored_marker rt log _ _ _))
        exact ⟨r, hr, hok⟩
  obtain ⟨new, hnew, hmarker, hok⟩ := hend
  refine ⟨l.records, _, w', _, new, h.completeRecords, hwrite, ?_, hok, hnew, hmarker, ?_⟩
  · rw [prevHash_writtenBody]
    exact hp
  · exact ofBody_stored _ hb

/-! ## A torn line stays -/

/-- The active file ends in a part of a line. -/
def Torn (rt : Runtime) (p : ChainPath) (d : Dir Bytes) : Prop :=
  ∃ (pre : Bytes) (ds : List Dict) (st : Style) (b : Dict) (k : Nat), Holds rt pre ds ∧
    (Json.obj b).distinctKeys = true ∧ 0 < k ∧ k < (utf8 (dumps st (.obj b) ++ ['\n'])).length ∧
    d.read p.active = some (pre ++ (utf8 (dumps st (.obj b) ++ ['\n'])).take k)

theorem utf8_dumps_obj (st : Style) (b : Dict) : ∃ u, utf8 (dumps st (.obj b)) = 0x7b :: u := by
  obtain ⟨t, ht⟩ := dumps_obj_eq_cons st b
  exact ⟨utf8 t, by rw [ht]; rfl⟩

/-- `_tail_record` on a torn file raises, or finds the line whole but for its line feed. -/
theorem tailRecord_torn {pre : Bytes} {ds : List Dict} (hpre : Holds rt pre ds) (st : Style)
    (b : Dict) {k : Nat} (h0 : 0 < k) (hk : k < (utf8 (dumps st (.obj b) ++ ['\n'])).length) :
    (∃ err, tailRecord rt (pre ++ (utf8 (dumps st (.obj b) ++ ['\n'])).take k) = .error err) ∨
      (utf8 (dumps st (.obj b) ++ ['\n'])).take k = utf8 (dumps st (.obj b)) := by
  obtain ⟨u, hu⟩ := utf8_dumps_obj st b
  rw [utf8_append, utf8_newline, List.length_append, List.length_singleton] at hk
  rw [utf8_append, List.take_append_of_le_length (Nat.le_of_lt_succ hk)]
  have hlf : lf ∉ (utf8 (dumps st (.obj b))).take k := fun hm =>
    lf_not_mem_utf8 ((allPrintable_dumps st _).not_mem (by decide)) (List.mem_of_mem_take hm)
  have hblank : blankBytes ((utf8 (dumps st (.obj b))).take k) = false := by
    obtain ⟨n, rfl⟩ := Nat.exists_eq_succ_of_ne_zero (Nat.pos_iff_ne_zero.mp h0)
    rw [hu, List.take_succ_cons]
    exact blankBytes_false List.mem_cons_self (by decide)
  have htail := tailRecord_last rt hpre.endsLine hlf hblank (Or.inl rfl)
  rw [List.append_nil] at htail
  rw [htail, loadsBytes]
  cases hd : decodeUtf8 ((utf8 (dumps st (.obj b))).take k) with
  | none => exact Or.inl ⟨_, rfl⟩
  | some t =>
    -- what decodes is a part of the line, and a proper part is no JSON
    obtain ⟨s, hs⟩ := decodeUtf8_prefix (List.take_prefix k _) hd
    by_cases hnil : s = []
    · subst hnil
      rw [List.append_nil] at hs
      exact Or.inr ((utf8_of_decodeUtf8 hd).symm.trans (by rw [hs]))
    · refine Or.inl ⟨.jsonDecodeError, ?_⟩
      simp only [loadsText, rt.loads_truncated st b t s hs.symm hnil]
      rfl

theorem mapM_none_of_last {f : Text → Option Json} {xs : List Text} {x : Text} (h : f x = none) :
    (xs ++ [x]).mapM f = none := by
  rw [List.mapM_append, List.mapM_cons, h]
  cases xs.mapM f <;> rfl

/-- The next record is glued to an unterminated one, and the line of both is no JSON. -/
theorem glued {pre : Bytes} {ds : List Dict} (hpre : Holds rt pre ds) (st st' : Style)
    {b : Dict} (hb : (Json.obj b).distinctKeys = true) (b' : Dict) :
    fileRecords rt (pre ++ utf8 (dumps st (.obj b)) ++ utf8 (dumps st' (.obj b') ++ ['\n'])) =
      none ∧
      ∀ j, head rt (pre ++ utf8 (dumps st (.obj b)) ++ utf8 (dumps st' (.obj b') ++ ['\n'])) ≠
        .ok j := by
  obtain ⟨ls, hls, hrec⟩ := hpre
  obtain ⟨t', ht'⟩ := dumps_obj_eq_cons st' b'
  have hline := recorded_dumps rt st hb
  have hloads : ∀ w : Text, rt.loads (dumps st (.obj b) ++ dumps st' (.obj b') ++ w) = none := by
    intro w
    rw [ht', List.append_assoc, List.cons_append]
    exact rt.loads_extra _ _ '{' _ hline.loads (by decide)
  have hcontent : pre ++ utf8 (dumps st (.obj b)) ++ utf8 (dumps st' (.obj b') ++ ['\n']) =
      fileOf (ls ++ [dumps st (.obj b) ++ dumps st' (.obj b')]) := by
    rw [fileOf_append, fileOf_singleton, ← hls, utf8_append, utf8_append, utf8_newline,
      List.append_assoc, List.append_assoc]
  have hblank : ∀ w, blank (dumps st (.obj b) ++ dumps st' (.obj b') ++ w) = false := fun w => by
    rw [List.append_assoc]
    exact hline.not_blank _
  have hprint : AllPrintable (dumps st (.obj b) ++ dumps st' (.obj b')) :=
    (allPrintable_dumps st _).append (allPrintable_dumps st' _)
  rw [hcontent]
  constructor
  · rw [fileRecords_fileOf, List.map_append, List.map_singleton, List.filter_append,
      List.filter_cons_of_pos (by rw [hblank]; rfl), List.filter_nil]
    · exact mapM_none_of_last (hloads ['\n'])
    · intro l hl
      rcases List.mem_append.mp hl with hl | hl
      · exact Recorded.printable_of_forall₂ hrec l hl
      · rw [List.mem_singleton.mp hl]
        exact hprint
  · intro j
    obtain ⟨u, hu⟩ := utf8_dumps_obj st b
    have hbytes : blankBytes (utf8 (dumps st (.obj b) ++ dumps st' (.obj b'))) = false := by
      rw [utf8_append, hu, List.cons_append]
      exact blankBytes_false List.mem_cons_self (by decide)
    have hnone : rt.loads (dumps st (.obj b) ++ dumps st' (.obj b')) = none := by
      have := hloads []
      rwa [List.append_nil] at this
    rw [fileOf_append, fileOf_singleton, head, tailRecord_last rt (fileOf_ends ls)
      (lf_not_mem_utf8 (hprint.not_mem (by decide))) hbytes (Or.inr rfl),
      loadsBytes_utf8, loadsText, hnone]
    exact fun h => by cases h

/-- **A log with a torn line does not recover**, whatever call comes next. -/
theorem not_recovers_of_torn {clock : Nat → String} {log : AuditLog} {w : World}
    (h : Torn rt log.path w.dir) (c : Call) : ¬ Recovers rt clock log c w := by
  obtain ⟨pre, ds, st, b, k, hpre, hb, h0, hk, hread⟩ := h
  rintro ⟨rs, rec, w', d, new, -, hwrite, -, -, hrecs, -, -⟩
  have hread' : (construct log w).dir.read log.path.active =
      some (pre ++ (utf8 (dumps st (.obj b) ++ ['\n'])).take k) := by
    show (w.dir.touch log.path.active []).read log.path.active = _
    rw [Dir.read_touch, if_pos rfl, hread, Option.getD_some]
  obtain ⟨content, body, bytes, hc, happ, -, hafter⟩ := write_ok hwrite
  rw [hread', Option.getD_some] at hc
  obtain ⟨tail, prevHash, seq, htail, -, -, -, rfl⟩ := appendRecord_ok happ
  rcases tailRecord_torn hpre st b h0 hk with ⟨err, herr⟩ | hwhole
  · rw [hc, herr] at htail
    cases htail
  · obtain ⟨hnone, hhead⟩ := glued hpre st lineStyle hb body
    rw [hc, hwhole] at hafter
    rcases hafter with hread' | ⟨j, hj⟩
    · exact fileRecords_of_chainRecords hrecs hread' hnone
    · exact hhead j hj

/-! ## An empty active file forgets the chain -/

/-- **With archived records and no record in the active file the log does not recover**:
the next record names `GENESIS`, and no archived record has that digest. -/
theorem not_recovers_of_forgotten {clock : Nat → String} {log : AuditLog} {w : World} {l : Ledger}
    (h : Represents rt log.path w.dir l) (hnil : l.active = []) (hne : l.records ≠ [])
    (hgen : ∀ d ∈ l.records, Json.get d "hash" ≠ some (.str GENESIS)) (c : Call) :
    ¬ Recovers rt clock log c w := by
  rintro ⟨rs, rec, w', d, new, hrs, hwrite, hhead, -⟩
  have hdirs := h.completeRecords.symm.trans hrs
  obtain rfl : l.records = rs := obj_map_injective (Option.some.inj hdirs)
  have htouch : Represents rt log.path (construct log w).dir l := h.touch
  have ha := htouch.active
  rw [hnil] at ha
  obtain ⟨content, body, bytes, hc, happ, hrec, -⟩ := write_ok hwrite
  rw [ha.eq_nil] at hc
  obtain ⟨tail, prevHash, seq, htail, hprev, -, hbody, -⟩ := appendRecord_ok happ
  subst hc hbody
  cases htail
  cases hprev
  obtain ⟨d', hd', he⟩ := head_mem (c := chainLinks) (g := genesis) hne
  refine hgen d' hd' ?_
  rw [show Json.get d' "hash" = chainLinks.hash d' from rfl, ← he, hhead, hrec]
  refine congrArg some (field_of_get ?_)
  rw [get_sealed rt _ (by decide) (by decide)]
  rfl

/-! ## What each crash point leaves -/

/-- What a call that stops can leave: a log as a run of whole calls leaves it, a torn
line, or archived records and none in the active file. -/
inductive Left (rt : Runtime) (clock : Nat → String) (p : ChainPath) (key : String) (k : Nat)
    (w : World) : Bool → Prop where
  | whole (l : Ledger) (h : Consistent rt clock p key w l) (hw : w.rotations < k) :
      Left rt clock p key k w true
  | torn (h : Torn rt p w.dir) : Left rt clock p key k w false
  | forgotten (l : Ledger) (h : Represents rt p w.dir l) (hnil : l.active = [])
      (hne : l.records ≠ []) : Left rt clock p key k w false

section Leaves

variable {clock : Nat → String} {log : AuditLog} {k : Nat}

theorem crashRotate_leaves (hclock : Ascending clock log.path k) {s : Stamp} {w w' : World}
    {l : Ledger} (h : Consistent rt clock log.path log.hmacKey w l) (hne : l.active ≠ [])
    (hw : w.rotations + 1 < k) {pt : CrashPoint}
    (hc : crashRotate rt clock log s w pt = some w') :
    Left rt clock log.path log.hmacKey k w' pt.clean := by
  obtain ⟨content, prev, dir, hread, hp, hhead, hren, hrep⟩ :=
    rotate_renames h.represents h.sound.continues hne (h.names_lt hclock (Nat.lt_of_succ_lt hw))
  rw [h.sound.head_active] at hp
  have hb : IsBody (markerBody log s (log.path.rotated (clock w.rotations)) (.str prev)) :=
    markerBody_isBody log s _ rfl
  have hrecs : Ledger.records
      ⟨l.archived ++ [(log.path.rotated (clock w.rotations), l.active)], []⟩ ≠ [] := by
    simp [Ledger.records, Ledger.files, hne]
  simp only [crashRotate, hread, hhead, hren] at hc
  cases pt with
  | renamed =>
    cases hc
    exact .forgotten _ hrep rfl hrecs
  | recreated =>
    cases hc
    exact .forgotten _ hrep.touch rfl hrecs
  | inMarker j =>
    simp only at hc
    split at hc
    case isFalse => cases hc
    next hj =>
    cases hc
    exact .torn ⟨[], [], markerStyle, _, j, holds_nil, sealed_dict rt _ hb, hj.1, hj.2,
      Dir.read_write_self _ _ _⟩
  | afterMarker =>
    cases hc
    have hm : Stored rt log.hmacKey prev _ :=
      stored_marker rt log s (log.path.rotated (clock w.rotations)) prev
    exact .whole _ ⟨hrep.touch.setActive (fun n => Dir.read_write _ _ _ n)
      (appended_holds holds_nil markerStyle log.hmacKey hb), h.sound.rotate hp hm,
      h.names_rotate _⟩ hw
  | _ => cases hc

/-- **Every crash point leaves one of three things**, and which one the point decides. -/
theorem crash_leaves (hclock : Ascending clock log.path k) {c : Call} {w w' : World} {l : Ledger}
    (h : Consistent rt clock log.path log.hmacKey w l) (hw : w.rotations + 1 < k) {pt : CrashPoint}
    (hc : crash rt clock log c w pt = some w') :
    Left rt clock log.path log.hmacKey k w' pt.clean := by
  have hopen : Consistent rt clock log.path log.hmacKey (construct log w) l := h.construct rfl
  have ha := hopen.represents.active
  obtain ⟨prev, hp, happ⟩ := appendRecord_of_holds ha h.sound.continues log c.entry c.stamp
  rw [h.sound.head_active] at hp
  have hb : IsBody (writtenBody rt log c (lastSeq l.active + 1) prev) :=
    recordBody_isBody rt log _ _ rfl rfl
  have hst : Stored rt log.hmacKey prev _ :=
    stored_record rt log c.entry c.stamp (lastSeq l.active + 1) prev
  have happended : ∀ dir, dir = (construct log w).dir.write log.path.active
      (((construct log w).dir.read log.path.active).getD [] ++
        utf8 (dumps lineStyle (.obj (sealed rt log.hmacKey
          (writtenBody rt log c (lastSeq l.active + 1) prev))) ++ ['\n'])) →
      Consistent rt clock log.path log.hmacKey { w with dir := dir }
        (l.append (writtenRecord rt log c (lastSeq l.active + 1) prev)) := by
    rintro dir rfl
    exact ⟨hopen.represents.setActive (fun n => Dir.read_write _ _ _ n)
      (appended_holds ha lineStyle log.hmacKey hb), h.sound.append hp hst, h.names⟩
  simp only [crash] at hc
  rw [show w.dir.touch log.path.active [] = (construct log w).dir from rfl, happ] at hc
  cases pt with
  | beforeAppend =>
    cases hc
    exact .whole l hopen (Nat.lt_of_succ_lt hw)
  | inAppend j =>
    simp only at hc
    split at hc
    case isFalse => cases hc
    next hj =>
    cases hc
    exact .torn ⟨_, l.active, lineStyle, _, j, ha, sealed_dict rt _ hb, hj.1, hj.2,
      Dir.read_write_self _ _ _⟩
  | afterAppend =>
    cases hc
    exact .whole _ (happended _ rfl) (Nat.lt_of_succ_lt hw)
  | _ =>
    simp only at hc
    split at hc
    case isFalse => cases hc
    exact crashRotate_leaves hclock (happended _ rfl)
      (List.append_ne_nil_of_right_ne_nil _ (List.cons_ne_nil _ _)) hw hc

end Leaves

/-- Whether the log recovers is decided by what was left. -/
theorem Left.recovers {clock : Nat → String} {log : AuditLog} {k : Nat} {w : World} {b : Bool}
    (h : Left rt clock log.path log.hmacKey k w b) (hclock : Ascending clock log.path k)
    (hgen : ∀ (rs : List Dict), completeRecords rt log.path w.dir = some (rs.map .obj) →
      ∀ d ∈ rs, Json.get d "hash" ≠ some (.str GENESIS)) (c : Call) :
    Recovers rt clock log c w ↔ b = true := by
  cases h with
  | whole l h hw =>
    exact iff_of_true (recovers_of_sound h.represents h.sound (h.names_lt hclock hw) c) rfl
  | torn h => exact iff_of_false (not_recovers_of_torn h c) Bool.false_ne_true
  | forgotten l h hnil hne =>
    exact iff_of_false
      (not_recovers_of_forgotten h hnil hne (hgen _ h.completeRecords) c) Bool.false_ne_true

/-- The sample's first call, stopped after one byte. -/
theorem sample_torn : crash Runtime.python sampleClock sampleLog (sampleCall "a") World.empty
    (.inAppend 1) = some ⟨(Dir.empty.touch "audit.jsonl" []).write "audit.jsonl"
      [0x7b], 0, []⟩ := by
  obtain ⟨prev, -, happ⟩ := appendRecord_of_holds
    (holds_nil : Holds Runtime.python [] []) (fun _ hd => by cases hd) sampleLog
    (sampleCall "a").entry (sampleCall "a").stamp
  obtain ⟨u, hu⟩ := utf8_dumps_obj lineStyle (sealed Runtime.python sampleLog.hmacKey
    (recordBody Runtime.python sampleLog (sampleCall "a").entry (sampleCall "a").stamp
      (.int (lastSeq [] + 1)) (.str prev)))
  rw [utf8_append, hu, utf8_newline, List.cons_append] at happ
  have hread : ((Dir.empty.touch sampleLog.path.active ([] : Bytes)).read
      sampleLog.path.active).getD [] = [] := by decide
  simp only [crash, World.empty, hread, happ, List.length_cons, List.length_append, List.nil_append]
  rw [if_pos ⟨by decide, by simp⟩]
  rfl

/-- A first record that is cut after one byte stops the log: the next call raises. -/
theorem torn_log_stops : ∃ w, crash Runtime.python sampleClock sampleLog
    (sampleCall "a") World.empty
      (.inAppend 1) = some w ∧
    (write Runtime.python sampleClock sampleLog (sampleCall "b") (construct sampleLog w)).1 =
      .error .jsonDecodeError ∧
    ¬ Recovers Runtime.python sampleClock sampleLog (sampleCall "b") w := by
  have herr : (write Runtime.python sampleClock sampleLog (sampleCall "b") (construct sampleLog
      ⟨(Dir.empty.touch "audit.jsonl" []).write "audit.jsonl" [0x7b], 0, []⟩)).1 =
        .error .jsonDecodeError := by rfl
  refine ⟨_, sample_torn, herr, ?_⟩
  rintro ⟨rs, rec, w', d, new, -, hwrite, -⟩
  rw [hwrite] at herr
  cases herr

/-- **A crashed log recovers exactly from the clean points.**  After any sequential run,
let a call through any instance stop at any point it reaches.  The next call, through any
instance, succeeds, names the last complete record and leaves a chain that verifies and
holds the complete records and the new ones, if and only if the point is clean. -/
theorem recovers_iff (rt : Runtime) (clock : Nat → String) (p : ChainPath) (key : String)
    (ops : List LogOp) (hops : ∀ op ∈ ops, op.log.path = p ∧ op.log.hmacKey = key)
    (log log' : AuditLog) (hlog : log.path = p ∧ log.hmacKey = key)
    (hlog' : log'.path = p ∧ log'.hmacKey = key) (hclock : Ascending clock p (ops.length + 2))
    (c c' : Call) (outcomes : List (Except PyError AuditRecord)) (w w' : World)
    (hrun : runOps rt clock ops World.empty = (outcomes, w)) (pt : CrashPoint)
    (hcrash : crash rt clock log c w pt = some w')
    (hgen : ∀ rs : List Dict, completeRecords rt p w'.dir = some (rs.map .obj) →
      ∀ d ∈ rs, Json.get d "hash" ≠ some (.str GENESIS)) :
    Recovers rt clock log' c' w' ↔ pt.clean = true := by
  obtain ⟨bs, v, l, -, hrun', h, hle, -, -⟩ :=
    runOps_consistent (k := ops.length + 2) hclock hops (Consistent.empty rt clock p key)
      (Nat.le_of_lt (by rw [show World.empty.rotations = 0 from rfl]; omega))
  obtain rfl : v = w := congrArg Prod.snd (hrun'.symm.trans hrun)
  obtain ⟨rfl, rfl⟩ := hlog
  obtain ⟨hp, hk⟩ := hlog'
  have hw : v.rotations + 1 < ops.length + 2 := by
    rw [show World.empty.rotations = 0 from rfl] at hle
    omega
  have hleft := crash_leaves hclock h hw hcrash
  rw [← hp, ← hk] at hleft
  rw [← hp] at hclock hgen
  exact hleft.recovers hclock hgen c'

/-- A clock for three rotations. -/
def sampleStamps : Nat → String
  | 0 => "20250101T000000.000000001Z"
  | 1 => "20250101T000000.000000002Z"
  | _ => "20250101T000000.000000003Z"

theorem ascending_sampleStamps : Ascending sampleStamps sampleLog.path 3 := by
  intro i j hij hj
  obtain ⟨rfl, rfl⟩ | ⟨rfl, rfl⟩ | ⟨rfl, rfl⟩ : i = 0 ∧ j = 1 ∨ i = 0 ∧ j = 2 ∨ i = 1 ∧
      j = 2 := by omega
  all_goals decide

/-- An instance that keeps no key and forwards nothing. -/
def sampleKeyless : AuditLog :=
  { sampleLog with hmacKey := "", rotateBytes := 50000000, forwards := false }

/-- One call. -/
def samplePast : List LogOp := [.write sampleKeyless (sampleBrief "a")]

/-- It leaves one record. -/
def samplePrior : World := (runOps Runtime.python sampleStamps samplePast World.empty).2

theorem samplePast_run : runOps Runtime.python sampleStamps samplePast World.empty =
    ((runOps Runtime.python sampleStamps samplePast World.empty).1, samplePrior) := by
  rw [samplePrior]

/-- Whether every complete record has another digest than the one a chain starts from. -/
def noGenesis (rs : List Json) : Bool := rs.all (fun
  | .obj d => Json.get d "hash" ≠ some (.str GENESIS)
  | _ => true)

/-- After one call, the next one is stopped with its record in the file. -/
theorem recovers_iff_sample : ∃ w, crash Runtime.python sampleStamps sampleKeyless (sampleBrief "b")
      samplePrior .afterAppend = some w ∧
    (completeRecords Runtime.python sampleLog.path w.dir).map List.length = some 2 ∧
    (Recovers Runtime.python sampleStamps sampleKeyless (sampleBrief "c") w ↔
      CrashPoint.afterAppend.clean = true) := by
  have hcrash : (crash Runtime.python sampleStamps sampleKeyless (sampleBrief "b") samplePrior
    .afterAppend).any (fun w => (completeRecords Runtime.python sampleLog.path w.dir).any
        (fun rs => rs.length = 2 && noGenesis rs)) = true := by decide +kernel
  obtain ⟨w, hw, hrecords⟩ := (Option.any_eq_true _ _).mp hcrash
  obtain ⟨rs, hrs, hfacts⟩ := (Option.any_eq_true _ _).mp hrecords
  obtain ⟨hlength, hgenesis⟩ := Bool.and_eq_true_iff.mp hfacts
  refine ⟨w, hw, by rw [hrs, Option.map_some, of_decide_eq_true hlength], ?_⟩
  refine recovers_iff Runtime.python sampleStamps sampleLog.path "" samplePast ?_
    sampleKeyless sampleKeyless ⟨rfl, rfl⟩ ⟨rfl, rfl⟩ ascending_sampleStamps (sampleBrief "b")
      (sampleBrief "c")
    _ samplePrior w samplePast_run _ hw (fun ds hds d hd => ?_)
  · exact fun op hop => by rw [List.mem_singleton.mp hop]; exact ⟨rfl, rfl⟩
  · obtain rfl : rs = ds.map .obj := Option.some.inj (hrs.symm.trans hds)
    exact of_decide_eq_true (List.all_eq_true.mp hgenesis _ (List.mem_map_of_mem hd))

end ComplianceMcp
