import ComplianceMcp.AuditWrite

/-! # Sequential runs of the writer

Any number of `AuditLog` instances share one path and key, and their calls are executed
one after another from an empty directory.  The invariant (`Consistent`) is that the
directory represents a sound ledger whose archived files are named by the clock, in
order; one call preserves it (`write_consistent`), and it gives the three facts a
reader of the log relies on: `verify` accepts, its count is the number of writes and
rotations, and without the rotation markers the files hold what was written. -/
namespace ComplianceMcp

open PyJson PyText Files HashChain

variable (rt : Runtime)

/-! ## One call on a represented ledger -/

/-- The body of the record a call writes, once its number and predecessor are known. -/
def writtenBody (log : AuditLog) (c : Call) (n : Int) (prev : String) : Dict :=
  recordBody rt log c.entry c.stamp (.int n) (.str prev)

/-- The record a call writes, as it reads back. -/
abbrev writtenRecord (log : AuditLog) (c : Call) (n : Int) (prev : String) : Dict :=
  stored rt log.hmacKey (writtenBody rt log c n prev)

/-- The marker the call leaves if it rotates the file. -/
abbrev writtenMarker (log : AuditLog) (c : Call) (name prev : String) : Dict :=
  stored rt log.hmacKey (markerBody log c.markerStamp name (.str prev))

variable {rt}

/-- **`write` refines the ledger.**  A call appends its record and, if the file has
reached its bound, rotates.  The record and the marker name the head of the active file. -/
theorem write_represents {f : Form rt} {clock : Nat → String} {log : AuditLog}
    {w : World} {l : Ledger} (h : RepresentsAs f log.path w.dir l) (hl : l.Continues)
    (hlt : ∀ n ∈ l.archived.map Prod.fst, n < log.path.rotated (clock w.rotations)) (c : Call) :
    ∃ n prev bytes size w', n = lastSeq l.active + 1 ∧
      HashChain.head chainLinks genesis l.active = some (.str prev) ∧
      appendRecord rt log c.entry c.stamp ((w.dir.read log.path.active).getD []) =
        .ok (sealed rt log.hmacKey (writtenBody rt log c n prev), bytes) ∧
      size = ((w.dir.read log.path.active).getD [] ++ bytes).length ∧
      write rt clock log c w =
        (.ok (AuditRecord.ofBody (sealed rt log.hmacKey (writtenBody rt log c n prev))), w') ∧
      w'.spool = w.spool ++ forwarded rt log (sealed rt log.hmacKey (writtenBody rt log c n prev)) ∧
      ((¬ log.rotateBytes ≤ (size : Nat) ∧ w'.rotations = w.rotations ∧
          RepresentsAs f log.path w'.dir (l.append (writtenRecord rt log c n prev))) ∨
        (log.rotateBytes ≤ (size : Nat) ∧ w'.rotations = w.rotations + 1 ∧ ∃ prev',
          HashChain.head chainLinks genesis (l.active ++ [writtenRecord rt log c n prev]) =
            some (.str prev') ∧
          RepresentsAs f log.path w'.dir ((l.append (writtenRecord rt log c n prev)).rotate
            (log.path.rotated (clock w.rotations))
            (writtenMarker rt log c (log.path.rotated (clock w.rotations)) prev')))) := by
  have htouch := h.touch
  have ha := htouch.active
  obtain ⟨content, hread⟩ : ∃ content, content = (w.dir.read log.path.active).getD [] := ⟨_, rfl⟩
  have hc : content = ((w.dir.touch log.path.active []).read log.path.active).getD [] := by
    rw [Dir.read_touch, if_pos rfl, Option.getD_some, hread]
  rw [← hc] at ha
  -- the tail of what was written before gives seq and link of the record
  obtain ⟨prev, hp, happ⟩ := appendRecord_of_holds ha hl log c.entry c.stamp
  obtain ⟨n, hn⟩ : ∃ n, n = lastSeq l.active + 1 := ⟨_, rfl⟩
  rw [← hn] at happ
  have hb : IsBody (writtenBody rt log c n prev) := recordBody_isBody rt log _ _ rfl rfl
  have hst : Stored rt log.hmacKey prev (writtenRecord rt log c n prev) :=
    stored_record rt log _ _ n prev
  obtain ⟨bytes, hbytes⟩ : ∃ bytes, bytes =
    utf8 (dumps lineStyle (.obj (sealed rt log.hmacKey (writtenBody rt log c n prev))) ++ ['\n']) :=
    ⟨_, rfl⟩
  have hholds : Holds rt (content ++ bytes) (l.active ++ [writtenRecord rt log c n prev]) := by
    rw [hbytes]
    exact appended_holds ha lineStyle log.hmacKey hb
  replace happ : appendRecord rt log c.entry c.stamp content =
      .ok (sealed rt log.hmacKey (writtenBody rt log c n prev), bytes) := by
    rw [hbytes]
    exact happ
  -- the world after the append, before any rotation
  obtain ⟨w₁, hw₁⟩ : ∃ w₁ : World, w₁ = { w with
    dir := (w.dir.touch log.path.active []).write log.path.active (content ++ bytes) } := ⟨_, rfl⟩
  have hdir : RepresentsAs f log.path w₁.dir (l.append (writtenRecord rt log c n prev)) := by
    rw [hw₁]
    exact htouch.setActive (fun m => Dir.read_write _ _ _ m) hholds
  have hrot : w₁.rotations = w.rotations := by rw [hw₁]
  have hspool : w₁.spool = w.spool := by rw [hw₁]
  rw [← hread]
  -- with the record the file reaches the bound, or stays below it
  by_cases hsize : log.rotateBytes ≤ (content ++ bytes).length
  · obtain ⟨prev', w₂, hp', hok, hr, hs, hrep⟩ := rotate_represents (s := c.markerStamp) hdir
      (Ledger.Continues.append hst.numbered)
      (fun hnil => List.append_ne_nil_of_right_ne_nil _ (List.cons_ne_nil _ _) hnil)
      (by rw [hrot]; exact hlt)
    rw [hrot] at hr hrep
    refine ⟨n, prev, bytes, _, _, hn, hp, happ, rfl,
      write_of_parts hc happ hw₁ (by rw [if_pos hsize, hok]), ?_, Or.inr ⟨hsize, ?_⟩⟩
    · rw [forward_spool, hs, hspool]
    · rw [forward_dir, forward_rotations]
      exact ⟨hr, prev', hp', hrep⟩
  · refine ⟨n, prev, bytes, _, _, hn, hp, happ, rfl,
      write_of_parts hc happ hw₁ (by rw [if_neg hsize]), ?_, Or.inl ⟨hsize, ?_⟩⟩
    · rw [forward_spool, hspool]
    · rw [forward_dir, forward_rotations]
      exact ⟨hrot, hdir⟩

/-- The head of an active file with records is the head of the chain. -/
theorem head_append_active (l : Ledger) (d : Dict) :
    HashChain.head chainLinks genesis (l.active ++ [d]) =
      HashChain.head chainLinks genesis (l.append d).records := by
  rw [Ledger.records_append, head_concat, head_concat]

/-! ## Dropping the rotation markers -/

/-- The record says that it continues the file. -/
def isMarker (file : String) (d : Dict) : Bool :=
  Json.get d "tool" = some (.str "audit_rotate") &&
    Json.get d "args" = some (.obj [("continues", .str file)])

/-- The records of a file after the file `prev`, less the marker that continues it. -/
def unmarked (prev : Option String) (ds : List Dict) : List Dict :=
  match prev, ds with
  | some file, d :: rest => if isMarker file d then rest else d :: rest
  | _, ds => ds

/-- The records of the named files in order, less the marker that a file starts with
when it continues the file before it. -/
def dropMarkers : Option String → List (String × List Dict) → List Dict
  | _, [] => []
  | prev, (name, ds) :: rest => unmarked prev ds ++ dropMarkers (some name) rest

/-- The record of a parsed line. -/
def dictOf : Json → Dict
  | .obj d => d
  | _ => []

/-- What `chain_files` lists, with the records in each file. -/
def chainGroups (rt : Runtime) (p : ChainPath) (d : Dir Bytes) :
    Option (List (String × List Dict)) :=
  (groupsOf rt d (chainFiles p d)).map (fun gs => (chainFiles p d).zip (gs.map (List.map dictOf)))

/-- The ledger's files by name, the active file last. -/
def Ledger.named (l : Ledger) (active : String) : List (String × List Dict) :=
  l.archived ++ [(active, l.active)]

theorem dropMarkers_append (prev : Option String) (gs hs : List (String × List Dict)) :
    dropMarkers prev (gs ++ hs) =
      dropMarkers prev gs ++ dropMarkers ((gs.getLast?.map Prod.fst).or prev) hs := by
  induction gs generalizing prev with
  | nil => rfl
  | cons g gs ih =>
    obtain ⟨name, ds⟩ := g
    rw [List.cons_append, dropMarkers, dropMarkers, ih, List.append_assoc]
    cases gs with
    | nil => rfl
    | cons g' gs =>
      rw [List.getLast?_cons_cons, List.getLast?_cons]
      rfl

theorem unmarked_append {prev : Option String} {ds : List Dict} (h : prev = none ∨ ds ≠ [])
    (d : Dict) : unmarked prev (ds ++ [d]) = unmarked prev ds ++ [d] := by
  unfold unmarked
  cases prev with
  | none => rfl
  | some file =>
    cases ds with
    | nil => exact absurd rfl (h.resolve_left (Option.some_ne_none file))
    | cons e es =>
      simp only [List.cons_append]
      split <;> rfl

theorem dropMarkers_ledger_append {l : Ledger} (h : l.active = [] → l.archived = []) (d : Dict)
    (active : String) :
    dropMarkers none ((l.append d).named active) = dropMarkers none (l.named active) ++ [d] := by
  have hne : ((l.archived.getLast?.map Prod.fst).or none) = none ∨ l.active ≠ [] := by
    by_cases hnil : l.active = []
    · exact Or.inl (by rw [h hnil]; rfl)
    · exact Or.inr hnil
  simp only [Ledger.named, Ledger.append, dropMarkers_append, dropMarkers, List.append_nil,
    unmarked_append hne, List.append_assoc]

theorem dropMarkers_ledger_rotate (l : Ledger) {name : String} {m : Dict}
    (hm : isMarker name m = true) (active : String) :
    dropMarkers none ((l.rotate name m).named active) = dropMarkers none (l.named active) := by
  have hdrop : unmarked (some name) [m] = [] := by
    simp only [unmarked, hm, if_true]
  simp only [Ledger.named, Ledger.rotate, dropMarkers_append, dropMarkers, List.append_nil,
    List.getLast?_concat, Option.map_some, Option.some_or, hdrop]

theorem isMarker_writtenMarker (log : AuditLog) (c : Call) (name prev : String) :
    isMarker name (writtenMarker rt log c name prev) = true := by
  have hb : IsBody (markerBody log c.markerStamp name (.str prev)) :=
    markerBody_isBody log c.markerStamp name rfl
  have htool : Json.get (writtenMarker rt log c name prev) "tool" = some (.str "audit_rotate") := by
    rw [get_parsed rt _ hb, get_sealed rt _ (by decide) (by decide)]
    rfl
  have hargs : Json.get (writtenMarker rt log c name prev) "args" =
      some (.obj [("continues", .str name)]) := by
    rw [get_parsed rt _ hb, get_sealed rt _ (by decide) (by decide)]
    rfl
  rw [isMarker, htool, hargs, decide_eq_true rfl, decide_eq_true rfl]
  rfl

theorem map_dictOf (fs : List (List Dict)) :
    (fs.map (List.map .obj)).map (List.map dictOf) = fs := by
  have hone : (fun ds : List Dict => (ds.map Json.obj).map dictOf) = id := by
    funext ds
    rw [List.map_map]
    exact List.map_id ds
  rw [List.map_map]
  exact (congrArg (fs.map ·) hone).trans (List.map_id fs)

theorem Represents.chainGroups {p : ChainPath} {d : Dir Bytes} {l : Ledger}
    (h : Represents rt p d l) (hex : (d.read p.active).isSome = true) :
    chainGroups rt p d = some (l.named p.active) := by
  rw [ComplianceMcp.chainGroups, h.groups, h.chainFiles_eq, if_pos hex, if_pos hex, Option.map_some,
    map_dictOf, Ledger.files, Ledger.named, List.zip_append (by simp), List.zip_map']
  simp

/-! ## Runs -/

/-- What a program does with one `AuditLog`: create it, or write through it. -/
inductive LogOp where
  | construct (log : AuditLog)
  | write (log : AuditLog) (call : Call)

/-- The instance an operation goes through. -/
def LogOp.log : LogOp → AuditLog
  | .construct log => log
  | .write log _ => log

/-- The operations one after another, with the outcome of every `write`. -/
def runOps (rt : Runtime) (clock : Nat → String) :
    List LogOp → World → List (Except PyError AuditRecord) × World
  | [], w => ([], w)
  | .construct log :: ops, w => runOps rt clock ops (construct log w)
  | .write log c :: ops, w =>
    let (r, w) := write rt clock log c w
    let (rs, w) := runOps rt clock ops w
    (r :: rs, w)

/-- The world represents a sound ledger, and the clock has named its archived files. -/
structure Consistent (rt : Runtime) (clock : Nat → String) (p : ChainPath)
    (key : String) (w : World) (l : Ledger) : Prop where
  represents : Represents rt p w.dir l
  sound : Ledger.Sound rt key l
  names : l.archived.map Prod.fst = (List.range w.rotations).map (fun i => p.rotated (clock i))

theorem Consistent.empty (rt : Runtime) (clock : Nat → String) (p : ChainPath) (key : String) :
    Consistent rt clock p key World.empty ⟨[], []⟩ where
  represents := {
    sorted := List.Pairwise.nil
    rotated := fun _ => iff_of_false (fun h => Bool.false_ne_true h.2) List.not_mem_nil
    archived := fun _ hf => absurd hf List.not_mem_nil
    active := holds_nil }
  sound := Ledger.Sound.empty rt key
  names := rfl

section Step

variable {clock : Nat → String} {p : ChainPath} {key : String}

theorem Consistent.construct {w : World} {l : Ledger} (h : Consistent rt clock p key w l)
    {log : AuditLog} (hp : log.path = p) :
    Consistent rt clock p key (construct log w) l where
  represents := by
    rw [ComplianceMcp.construct, hp]
    exact h.represents.touch
  sound := h.sound
  names := h.names

/-- The first `k` names the clock gives sort in the order they are given in. -/
def Ascending (clock : Nat → String) (p : ChainPath) (k : Nat) : Prop :=
  ∀ i j, i < j → j < k → p.rotated (clock i) < p.rotated (clock j)

theorem Consistent.names_lt {k : Nat} (hclock : Ascending clock p k) {w : World} {l : Ledger}
    (h : Consistent rt clock p key w l) (hw : w.rotations < k) :
    ∀ n ∈ l.archived.map Prod.fst, n < p.rotated (clock w.rotations) := by
  intro n hn
  rw [h.names] at hn
  obtain ⟨i, hi, rfl⟩ := List.mem_map.mp hn
  exact hclock _ _ (List.mem_range.mp hi) hw

/-- A rotation gives the archived file the next name of the clock. -/
theorem Consistent.names_rotate {w : World} {l : Ledger} (h : Consistent rt clock p key w l)
    (ds : List Dict) :
    (l.archived ++ [(p.rotated (clock w.rotations), ds)]).map Prod.fst =
      (List.range (w.rotations + 1)).map (fun i => p.rotated (clock i)) := by
  rw [List.map_append, h.names, List.range_succ, List.map_append]
  rfl

/-- **One call keeps the log consistent**, adds one record to what was written, and
counts a rotation exactly when it adds a marker. -/
theorem write_consistent {k : Nat} (hclock : Ascending clock p k) {log : AuditLog} {w : World}
    {l : Ledger} (h : Consistent rt clock p key w l) (hw : w.rotations < k) (hp : log.path = p)
    (hk : log.hmacKey = key) (c : Call) :
    ∃ n prev w' l', write rt clock log c w =
        (.ok (AuditRecord.ofBody (sealed rt key (writtenBody rt log c n prev))), w') ∧
      Consistent rt clock p key w' l' ∧ w'.rotations ≤ w.rotations + 1 ∧
      l'.records.length + w.rotations = l.records.length + 1 + w'.rotations ∧
      dropMarkers none (l'.named p.active) = dropMarkers none (l.named p.active) ++
        [writtenRecord rt log c n prev] := by
  subst hp hk
  obtain ⟨n, prev, -, size, w', -, hhead, -, -, hwrite, -, hres⟩ :=
    write_represents h.represents h.sound.continues (h.names_lt hclock hw) c
  rw [h.sound.head_active] at hhead
  have hst : Stored rt log.hmacKey prev (writtenRecord rt log c n prev) :=
    stored_record rt log _ _ n prev
  have hsound := h.sound.append hhead hst
  have hdrop := dropMarkers_ledger_append h.sound.started (writtenRecord rt log c n prev)
    log.path.active
  rcases hres with ⟨-, hr, hrep⟩ | ⟨-, hr, prev', hhead', hrep⟩
  · refine ⟨n, prev, w', _, hwrite, ⟨hrep, hsound, by rw [hr]; exact h.names⟩, ?_, ?_, hdrop⟩
    · exact hr ▸ Nat.le_succ _
    rw [Ledger.records_append, List.length_append, hr]
    rfl
  · rw [head_append_active] at hhead'
    refine ⟨n, prev, w', _, hwrite, ⟨hrep, hsound.rotate hhead' (stored_marker rt log _ _ _), ?_⟩,
      le_of_eq hr, ?_, ?_⟩
    · rw [hr]
      exact h.names_rotate _
    · rw [Ledger.records_rotate, Ledger.records_append, List.length_append, List.length_append, hr]
      exact Nat.add_right_comm _ _ _
    · rw [dropMarkers_ledger_rotate _ (isMarker_writtenMarker log c _ prev'), hdrop]

/-- **A run keeps the log consistent.**  The bodies `bs` are those the calls built; the
outcomes are their records, and the files hold them. -/
theorem runOps_consistent {k : Nat} (hclock : Ascending clock p k) {ops : List LogOp}
    (hops : ∀ op ∈ ops, op.log.path = p ∧ op.log.hmacKey = key) {w : World} {l : Ledger}
    (h : Consistent rt clock p key w l) (hw : w.rotations + ops.length ≤ k) :
    ∃ (bs : List Dict) (w' : World) (l' : Ledger), (∀ b ∈ bs, IsBody b) ∧
      runOps rt clock ops w = (bs.map (fun b => .ok (AuditRecord.ofBody (sealed rt key b))), w') ∧
      Consistent rt clock p key w' l' ∧ w'.rotations ≤ w.rotations + ops.length ∧
      l'.records.length + w.rotations = l.records.length + bs.length + w'.rotations ∧
      dropMarkers none (l'.named p.active) =
        dropMarkers none (l.named p.active) ++ bs.map (stored rt key) := by
  induction ops generalizing w l with
  | nil =>
    exact ⟨[], w, l, fun _ hb => absurd hb List.not_mem_nil, rfl, h, Nat.le_refl _, rfl,
      (List.append_nil _).symm⟩
  | cons op ops ih =>
    have hop := hops op List.mem_cons_self
    have hops' : ∀ op ∈ ops, op.log.path = p ∧ op.log.hmacKey = key :=
      fun o ho => hops o (List.mem_cons_of_mem _ ho)
    rw [List.length_cons] at hw
    cases op with
    | construct log =>
      obtain ⟨bs, w', l', hbs, hrun, h', hle', hlen, hdrop⟩ :=
        ih hops' (h.construct hop.1) (by omega : w.rotations + ops.length ≤ k)
      exact ⟨bs, w', l', hbs, hrun, h', Nat.le_succ_of_le hle', hlen, hdrop⟩
    | write log c =>
      obtain ⟨hp, hk⟩ : log.path = p ∧ log.hmacKey = key := hop
      obtain ⟨n, prev, w₁, l₁, hwrite, h₁, hle, hlen₁, hdrop₁⟩ :=
        write_consistent hclock h (by omega) hp hk c
      obtain ⟨bs, w', l', hbs, hrun, h', hle', hlen, hdrop⟩ := ih hops' h₁ (by omega)
      refine ⟨writtenBody rt log c n prev :: bs, w', l', ?_, ?_, h', ?_, ?_, ?_⟩
      · intro b hb
        rcases List.mem_cons.mp hb with rfl | hb
        · exact recordBody_isBody rt log _ _ rfl rfl
        · exact hbs b hb
      · simp only [runOps, hwrite, hrun, List.map_cons]
      · rw [List.length_cons]
        omega
      · rw [List.length_cons]
        omega
      · cases hk
        rw [hdrop, hdrop₁, List.append_assoc]
        rfl

end Step

/-! ## What a run leaves behind -/

theorem field_stored (key : String) {b : Dict} (hb : IsBody b) (k : String) :
    field (stored rt key b) k = (field (sealed rt key b) k).sortKeys := by
  rw [field, field, get_parsed rt key hb]
  cases Json.get (sealed rt key b) k <;> rfl

/-- The record in the file is the record that was returned. -/
theorem ofBody_stored (key : String) {b : Dict} (hb : IsBody b) :
    AuditRecord.ofBody (stored rt key b) = (AuditRecord.ofBody (sealed rt key b)).sortKeys := by
  simp only [AuditRecord.ofBody, AuditRecord.sortKeys, field_stored key hb]

/-- The listing of a represented directory drops its markers as the ledger does, with
or without an active file. -/
theorem Represents.dropMarkers_chainGroups {p : ChainPath} {d : Dir Bytes} {l : Ledger}
    (h : Represents rt p d l) :
    ∃ gs, ComplianceMcp.chainGroups rt p d = some gs ∧
      dropMarkers none gs = dropMarkers none (l.named p.active) := by
  cases hr : d.read p.active with
  | some b => exact ⟨_, h.chainGroups (by rw [hr]; rfl), rfl⟩
  | none =>
    have ha := h.active
    rw [hr, Option.getD_none] at ha
    refine ⟨l.archived, ?_, ?_⟩
    · rw [ComplianceMcp.chainGroups, h.groups, h.chainFiles_eq, hr, Option.map_some, map_dictOf]
      simp [List.zip_map']
    · simp [Ledger.named, dropMarkers_append, dropMarkers, unmarked, ha.no_records]

/-- **A sequential log verifies and holds what was written.**  After any sequence of
operations through any number of instances, each with its own `rotate_bytes`, `verify`
accepts, counts the writes and the rotations, and the files less their rotation
markers hold the records the calls returned, in order. -/
theorem sequential_log_verifies (rt : Runtime) (clock : Nat → String) (p : ChainPath) (key : String)
    (ops : List LogOp) (hops : ∀ op ∈ ops, op.log.path = p ∧ op.log.hmacKey = key)
    (hclock : Ascending clock p ops.length) :
    ∃ (recs : List AuditRecord) (w : World) (gs : List (String × List Dict)),
      runOps rt clock ops World.empty = (recs.map .ok, w) ∧
      (∃ r, verify rt p w.dir key = .ok r ∧ r.ok = true ∧
        r.records = recs.length + w.rotations) ∧
      chainGroups rt p w.dir = some gs ∧
      (dropMarkers none gs).map AuditRecord.ofBody = recs.map AuditRecord.sortKeys := by
  obtain ⟨bs, w, l, hbs, hrun, h, -, hlen, hdrop⟩ :=
    runOps_consistent hclock hops (Consistent.empty rt clock p key)
      (Nat.le_of_eq (Nat.zero_add _))
  obtain ⟨r, hr, hok, hcount⟩ := verify_of_sound h.represents h.sound
  obtain ⟨gs, hgs, hgdrop⟩ := h.represents.dropMarkers_chainGroups
  refine ⟨bs.map (fun b => AuditRecord.ofBody (sealed rt key b)), w, gs, ?_,
    ⟨r, hr, hok, ?_⟩, hgs, ?_⟩
  · rw [hrun, List.map_map]
    rfl
  · rw [hcount, List.length_map]
    exact hlen.trans (by rw [show (Ledger.records ⟨[], []⟩).length = 0 from rfl, Nat.zero_add])
  · rw [hgdrop, hdrop, List.map_append, List.map_map, List.map_map]
    refine List.map_congr_left (fun b hb => ?_)
    exact ofBody_stored key (hbs b hb)

/-- A server instance that rotates after every record. -/
def sampleLog : AuditLog where
  path := ⟨"audit", ".jsonl"⟩
  agentId := "compliance-agent"
  hmacKey := "k"
  rotateBytes := 0
  forwards := true
  anchorEvery := 100

/-- A tool call with a secret argument. -/
def sampleCall (id : String) : Call where
  entry := {
    requester := "ana@firm.example"
    tool := "policy_lookup"
    args := [("query", .str "gifts"), ("api_key", .str "s3cret")]
    outcome := "ok"
    resultSummary := "1 section(s) for 'gifts'"
    sessionId := "s1"
    directoryVersion := "v1"
    args_dict := by decide }
  stamp := ⟨id, "2025-01-01T00:00:00Z"⟩
  markerStamp := ⟨id ++ "-m", "2025-01-01T00:00:00Z"⟩

/-- A call without arguments. -/
def sampleBrief (id : String) : Call where
  entry := ⟨"", "", [], "ok", "", "", "", rfl⟩
  stamp := ⟨id, ""⟩
  markerStamp := ⟨"m", ""⟩

/-- The times of the sample's rotations. -/
def sampleClock : Nat → String
  | 0 => "20250101T000000.000000001Z"
  | _ => "20250101T000000.000000002Z"

theorem ascending_sampleClock : Ascending sampleClock sampleLog.path 2 := by
  intro i j hij hj
  obtain rfl : i = 0 := by omega
  obtain rfl : j = 1 := by omega
  decide

/-- The body of the sample's record. -/
def sampleBody : Dict := writtenBody Runtime.python sampleLog (sampleCall "a") 1 GENESIS

theorem sampleBody_isBody : IsBody sampleBody := recordBody_isBody _ _ _ _ rfl rfl

/-- The digest of the sample's record. -/
def sampleHash : String := "26539bd984ee929502bec93fa8fc5bf6b1afc360782ca80ce4c3aa33f28a72cd"

theorem digest_sampleBody : digest Runtime.python sampleBody = sampleHash := by decide +kernel

theorem sequential_log_verifies_sample :
    ∃ (recs : List AuditRecord) (w : World) (gs : List (String × List Dict)),
      runOps Runtime.python sampleClock
          [.write sampleLog (sampleCall "a"),
            .write { sampleLog with rotateBytes := 50000000 } (sampleCall "b")] World.empty =
        (recs.map .ok, w) ∧
      (∃ r, verify Runtime.python sampleLog.path w.dir "k" = .ok r ∧ r.ok = true ∧
        r.records = recs.length + w.rotations) ∧
      chainGroups Runtime.python sampleLog.path w.dir = some gs ∧
      (dropMarkers none gs).map AuditRecord.ofBody = recs.map AuditRecord.sortKeys := by
  refine sequential_log_verifies Runtime.python _ sampleLog.path "k" _ ?_ ascending_sampleClock
  simp only [List.forall_mem_cons]
  exact ⟨⟨rfl, rfl⟩, ⟨rfl, rfl⟩, fun _ h => absurd h List.not_mem_nil⟩

end ComplianceMcp
