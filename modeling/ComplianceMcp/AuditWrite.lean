import ComplianceMcp.AuditVerify

/-! # The writer

`AuditLog.write` appends one record to the active file and rotates the file once it
has reached `rotate_bytes`.  The part under the file lock is `appendRecord`, a function
of the content of the file; `rotate` works on the directory.

A `Ledger` says what a chain is for: the records of each rotated file and of the active
one.  `Represents` relates a directory to a ledger, and every operation of the writer
is an operation of the ledger: `write` appends a record and may then start a new file
with a marker. -/
namespace ComplianceMcp

open PyJson PyText Files HashChain

variable (rt : Runtime)

/-! ## `AuditLog.write` -/

/-- What the writers share: the directory of the chain, the number of rotations there
have been, and the payloads spooled for the external sink. -/
structure World where
  dir : Dir Bytes
  rotations : Nat
  spool : List Bytes

/-- Nothing has been written yet. -/
def World.empty : World := ⟨Dir.empty, 0, []⟩

/-- `AuditLog.__init__`. -/
def construct (log : AuditLog) (w : World) : World :=
  { w with dir := w.dir.touch log.path.active [] }

/-- The part of `write` under the lock, on the content of the opened file: the sealed
body and the bytes appended for it. -/
def appendRecord (log : AuditLog) (e : Entry) (s : Stamp) (content : Bytes) :
    Except PyError (Dict × Bytes) := do
  let tail ← tailRecord rt content
  let prevHash ← hashOrGenesis tail
  let seq ← nextSeq rt tail
  let body := sealed rt log.hmacKey (recordBody rt log e s seq prevHash)
  return (body, utf8 (dumps lineStyle (.obj body) ++ ['\n']))

/-- The sealed rotation marker. -/
def marker (log : AuditLog) (s : Stamp) (rotated : String) (head : Json) : Dict :=
  sealed rt log.hmacKey (markerBody log s rotated head)

/-- The bytes `_rotate` writes into the new active file. -/
def markerBytes (log : AuditLog) (s : Stamp) (rotated : String) (head : Json) : Bytes :=
  utf8 (dumps markerStyle (.obj (marker rt log s rotated head)) ++ ['\n'])

/-- `AuditLog._rotate()`.  Only reading the head and the rename can raise, and both
leave the directory as it was; `clock` names the files rotated to. -/
def rotate (clock : Nat → String) (log : AuditLog) (s : Stamp) (w : World) : Except PyError World :=
  match w.dir.read log.path.active with
  | none => .error .fileNotFoundError
  | some content => do
    let head ← head rt content
    let rotated := log.path.rotated (clock w.rotations)
    match w.dir.rename log.path.active rotated with
    | none => .error .fileNotFoundError
    | some dir => .ok { w with
        dir := (dir.touch log.path.active []).write log.path.active
          (markerBytes rt log s rotated head)
        rotations := w.rotations + 1 }

/-- `seq % self._anchor_every == 0`. -/
def anchorDue (log : AuditLog) : Json → Bool
  | .int n => n % (max 1 log.anchorEvery : Nat) = 0
  | .float x => rt.floatDivisible x (max 1 log.anchorEvery)
  | _ => false

/-- What `write` hands to the forwarder. -/
def forward (log : AuditLog) (body : Dict) (w : World) : World :=
  if log.forwards then
    let seq := field body "seq"
    let anchor : Dict := [("type", .str "anchor"), ("ts", field body "ts"),
      ("agent_id", .str log.agentId), ("seq", seq), ("head", field body "hash")]
    { w with spool := w.spool ++ [canonical body] ++
        if anchorDue rt log seq then [canonical anchor] else [] }
  else w

/-- The payloads `write` enqueues for a body: the record and, when one is due, an anchor. -/
def forwarded (log : AuditLog) (body : Dict) : List Bytes :=
  if log.forwards then
    canonical body :: if anchorDue rt log (field body "seq") then
      [canonical [("type", .str "anchor"), ("ts", field body "ts"), ("agent_id", .str log.agentId),
        ("seq", field body "seq"), ("head", field body "hash")]] else []
  else []

/-- One `write` call: its arguments and what it draws from its surroundings. -/
structure Call where
  entry : Entry
  stamp : Stamp
  markerStamp : Stamp

/-- `AuditLog.write(...)`.  Opening the file in mode `a+b` creates it. -/
def write (clock : Nat → String) (log : AuditLog) (c : Call) (w : World) :
    Except PyError AuditRecord × World :=
  let opened := w.dir.touch log.path.active []
  let content := (opened.read log.path.active).getD []
  match appendRecord rt log c.entry c.stamp content with
  | .error err => (.error err, { w with dir := opened })
  | .ok (body, bytes) =>
    let size := (content ++ bytes).length
    let w := { w with dir := opened.write log.path.active (content ++ bytes) }
    match if log.rotateBytes ≤ size then rotate rt clock log c.markerStamp w else .ok w with
    | .error err => (.error err, w)
    | .ok w => (.ok (AuditRecord.ofBody body), forward rt log body w)

/-! ## The ledger -/

/-- The records of a chain, file by file, oldest first; `active` is the last file. -/
structure Ledger where
  archived : List (String × List Dict)
  active : List Dict

namespace Ledger

/-- The records of the files. -/
def files (l : Ledger) : List (List Dict) := l.archived.map Prod.snd ++ [l.active]

/-- All records, in order. -/
def records (l : Ledger) : List Dict := l.files.flatten

/-- A record is appended to the active file. -/
def append (l : Ledger) (d : Dict) : Ledger := { l with active := l.active ++ [d] }

/-- The active file is archived; the new one starts with a marker. -/
def rotate (l : Ledger) (name : String) (m : Dict) : Ledger where
  archived := l.archived ++ [(name, l.active)]
  active := [m]

@[simp] theorem records_append (l : Ledger) (d : Dict) :
    (l.append d).records = l.records ++ [d] := by
  simp [records, files, append]

@[simp] theorem records_rotate (l : Ledger) (name : String) (m : Dict) :
    (l.rotate name m).records = l.records ++ [m] := by
  simp [records, files, rotate]

end Ledger

/-- What is asked of an archived file: the writer's own files have the form, and the
records of a file that has it read back. -/
structure Form where
  Has : Bytes → List Dict → Prop
  of_holds : ∀ {b ds}, Holds rt b ds → Has b ds
  reads : ∀ {b ds}, Has b ds → fileRecords rt b = some (ds.map .obj)

/-- The writer's own lines. -/
def Form.lines : Form rt := ⟨Holds rt, id, fileRecords_of_holds⟩

/-- Whatever the verifier can read. -/
def Form.readable : Form rt :=
  ⟨fun b ds => fileRecords rt b = some (ds.map .obj), fileRecords_of_holds, id⟩

variable {rt}

/-- The directory holds the ledger's records in the ledger's files, and no other file of
the chain.  Archived files have the form `f`; the active one is the writer's own lines. -/
structure RepresentsAs (f : Form rt) (p : ChainPath) (d : Dir Bytes) (l : Ledger) : Prop where
  sorted : (l.archived.map Prod.fst).Pairwise (· < ·)
  rotated : ∀ n, p.isRotated n = true ∧ (d.read n).isSome = true ↔ n ∈ l.archived.map Prod.fst
  archived : ∀ g ∈ l.archived, ∃ b, d.read g.1 = some b ∧ f.Has b g.2
  active : Holds rt ((d.read p.active).getD []) l.active

/-- The directory holds the ledger as the writer itself leaves it. -/
abbrev Represents (rt : Runtime) : ChainPath → Dir Bytes → Ledger → Prop :=
  RepresentsAs (Form.lines rt)

namespace RepresentsAs

variable {f : Form rt} {p : ChainPath} {d : Dir Bytes} {l : Ledger}

theorem chainFiles_eq (h : RepresentsAs f p d l) :
    chainFiles p d = l.archived.map Prod.fst ++ if (d.read p.active).isSome then
      [p.active] else [] :=
  ComplianceMcp.chainFiles_eq h.sorted h.rotated

theorem groupsOf_archived {gs : List (String × List Dict)}
    (h : ∀ g ∈ gs, ∃ b, d.read g.1 = some b ∧ f.Has b g.2) (rest : List String) :
    groupsOf rt d (gs.map Prod.fst ++ rest) =
      (groupsOf rt d rest).map ((gs.map (fun g => g.2.map .obj)) ++ ·) := by
  induction gs with
  | nil => exact Option.map_id'.symm
  | cons g gs ih =>
    obtain ⟨b, hb, hg⟩ := h g List.mem_cons_self
    rw [List.map_cons, List.cons_append, groupsOf, hb, Option.bind_some, f.reads hg,
      Option.bind_some, ih (fun g hg => h g (List.mem_cons_of_mem _ hg)), Option.map_map]
    rfl

/-- The files of a chain, read one by one, are the ledger's; an active file that does
not exist counts for none. -/
theorem groups (h : RepresentsAs f p d l) :
    groupsOf rt d (chainFiles p d) = some ((if (d.read p.active).isSome then l.files
      else l.archived.map Prod.snd).map (List.map .obj)) := by
  rw [h.chainFiles_eq, groupsOf_archived h.archived]
  have ha := h.active
  cases hr : d.read p.active with
  | none => simp [groupsOf, List.map_map, Function.comp_def]
  | some b =>
    rw [hr, Option.getD_some] at ha
    simp [groupsOf, hr, fileRecords_of_holds ha, Ledger.files, List.map_map, Function.comp_def]

/-- **The records of the chain are the ledger's.** -/
theorem chainRecords (h : RepresentsAs f p d l) :
    chainRecords rt p d = some (l.records.map .obj) := by
  rw [ComplianceMcp.chainRecords, recordsOf, h.groups, Option.map_some]
  have ha := h.active
  cases hr : d.read p.active with
  | some b =>
    rw [Option.isSome_some, if_pos rfl, Ledger.records, List.map_flatten]
  | none =>
    rw [hr, Option.getD_none] at ha
    have hnil : l.active = [] := ha.no_records
    rw [Option.isSome_none, Ledger.records, Ledger.files, hnil, List.map_flatten]
    simp

theorem isRotated_of_mem (h : RepresentsAs f p d l) {n : String}
    (hn : n ∈ l.archived.map Prod.fst) : p.isRotated n = true :=
  ((h.rotated n).mpr hn).1

theorem ne_active_of_mem (h : RepresentsAs f p d l) {n : String}
    (hn : n ∈ l.archived.map Prod.fst) : n ≠ p.active := by
  rintro rfl
  have := h.isRotated_of_mem hn
  rw [isRotated_active] at this
  cases this

/-- Replacing the content of the active file replaces the active records. -/
theorem setActive (h : RepresentsAs f p d l) {d' : Dir Bytes} {b : Bytes} {ds : List Dict}
    (hread : ∀ n, d'.read n = if n = p.active then some b else d.read n) (hb : Holds rt b ds) :
    RepresentsAs f p d' { l with active := ds } where
  sorted := h.sorted
  rotated := fun n => by
    by_cases hn : n = p.active
    · subst hn
      rw [isRotated_active]
      refine iff_of_false (fun hf => Bool.false_ne_true hf.1) (fun hm => ?_)
      exact h.ne_active_of_mem hm rfl
    · rw [hread, if_neg hn]
      exact h.rotated n
  archived := fun g hg => by
    have hne := h.ne_active_of_mem (List.mem_map_of_mem hg)
    rw [hread, if_neg hne]
    exact h.archived g hg
  active := by
    rw [hread, if_pos rfl]
    exact hb

/-- Renaming the active file to a name after all others archives its records. -/
theorem archive (h : RepresentsAs f p d l) {d' : Dir Bytes} {name : String} {b : Bytes}
    (hb : d.read p.active = some b) (hname : p.isRotated name = true)
    (hlt : ∀ n ∈ l.archived.map Prod.fst, n < name)
    (hread : ∀ n, d'.read n =
      if n = p.active then none else if n = name then some b else d.read n) :
    RepresentsAs f p d' ⟨l.archived ++ [(name, l.active)], []⟩ where
  sorted := by
    rw [List.map_append, List.pairwise_append]
    refine ⟨h.sorted, List.pairwise_singleton _ _, fun n hn k hk => ?_⟩
    rw [List.mem_singleton.mp hk]
    exact hlt n hn
  rotated := fun n => by
    rw [List.map_append, List.mem_append, hread]
    by_cases hn : n = p.active
    · subst hn
      rw [isRotated_active]
      refine iff_of_false (fun hf => Bool.false_ne_true hf.1) ?_
      rintro (hm | hm)
      · exact h.ne_active_of_mem hm rfl
      · have he : p.active = name := List.mem_singleton.mp hm
        rw [← he, isRotated_active] at hname
        cases hname
    · rw [if_neg hn]
      by_cases hnn : n = name
      · subst hnn
        rw [if_pos rfl]
        exact iff_of_true ⟨hname, rfl⟩ (Or.inr List.mem_cons_self)
      · rw [if_neg hnn, h.rotated n, or_iff_left]
        exact fun hm => hnn (List.mem_singleton.mp hm)
  archived := fun g hg => by
    rcases List.mem_append.mp hg with hg | hg
    · have hm : g.1 ∈ l.archived.map Prod.fst := List.mem_map_of_mem hg
      rw [hread, if_neg (h.ne_active_of_mem hm), if_neg (ne_of_lt (hlt _ hm))]
      exact h.archived g hg
    · rw [List.mem_singleton.mp hg]
      have hne : name ≠ p.active := by
        rintro rfl
        rw [isRotated_active] at hname
        cases hname
      have ha := h.active
      rw [hb, Option.getD_some] at ha
      exact ⟨b, by rw [hread, if_neg hne, if_pos rfl], f.of_holds ha⟩
  active := by
    rw [hread, if_pos rfl]
    exact holds_nil

/-- A directory without its active file represents the archived records. -/
theorem removeActive (h : RepresentsAs f p d l) :
    RepresentsAs f p (d.remove p.active) { l with active := [] } where
  sorted := h.sorted
  rotated := fun n => by
    rw [Dir.read_remove]
    split
    · next hn =>
      subst hn
      exact iff_of_false (fun hf => Bool.false_ne_true hf.2) (fun hm => h.ne_active_of_mem hm rfl)
    · exact h.rotated n
  archived := fun g hg => by
    rw [Dir.read_remove, if_neg (h.ne_active_of_mem (List.mem_map_of_mem hg))]
    exact h.archived g hg
  active := by
    rw [Dir.read_remove, if_pos rfl]
    exact holds_nil

/-- Creating the active file where there is none changes no record. -/
theorem touch (h : RepresentsAs f p d l) : RepresentsAs f p (d.touch p.active []) l := by
  refine h.setActive (b := (d.read p.active).getD []) (fun n => ?_) h.active
  rw [Dir.read_touch]

end RepresentsAs

/-! ## Reading the head and appending -/

/-- What the writer expects of the last record of a file: a digest and a number. -/
structure Numbered (d : Dict) : Prop where
  hash : ∃ h, Json.get d "hash" = some (.str h)
  seq : ∃ n, Json.get d "seq" = some (.int n)

theorem truthy_obj {d : Dict} {k : String} {v : Json} (h : Json.get d k = some v) :
    truthy (.obj d) = true := by
  cases d with
  | nil => cases h
  | cons f d => rfl

theorem hashOrGenesis_last {ds : List Dict} (h : ∀ d ∈ ds.getLast?, Numbered d) :
    ∃ prev, HashChain.head chainLinks genesis ds = some (.str prev) ∧
      hashOrGenesis (ds.getLast?.map .obj) = .ok (.str prev) := by
  rcases List.eq_nil_or_concat ds with rfl | ⟨ds, d, rfl⟩
  · exact ⟨GENESIS, rfl, rfl⟩
  · rw [List.concat_eq_append] at h ⊢
    rw [List.getLast?_concat] at h ⊢
    obtain ⟨prev, hprev⟩ := (h d rfl).hash
    refine ⟨prev, (head_concat _ _ _).trans hprev, ?_⟩
    simp only [Option.map_some, hashOrGenesis, truthy_obj hprev, if_true, getItem, hprev]

/-- The number of the last record, 0 where there is none. -/
def lastSeq (ds : List Dict) : Int :=
  match ds.getLast?.bind (Json.get · "seq") with
  | some (.int n) => n
  | _ => 0

theorem nextSeq_last {ds : List Dict} (h : ∀ d ∈ ds.getLast?, Numbered d) :
    nextSeq rt (ds.getLast?.map .obj) = .ok (.int (lastSeq ds + 1)) := by
  unfold lastSeq
  cases hd : ds.getLast? with
  | none => rfl
  | some d =>
    obtain ⟨n, hn⟩ := (h d hd).seq
    simp only [Option.map_some, nextSeq, truthy_obj hn, if_true, hn, Option.getD_some, addOne,
      Option.bind_some]

/-- `head()` of a file of whole records names the last one. -/
theorem head_of_holds {content : Bytes} {ds : List Dict} (h : Holds rt content ds)
    (hl : ∀ d ∈ ds.getLast?, Numbered d) :
    ∃ prev, HashChain.head chainLinks genesis ds = some (.str prev) ∧
      head rt content = .ok (.str prev) := by
  obtain ⟨prev, hp, hh⟩ := hashOrGenesis_last hl
  refine ⟨prev, hp, ?_⟩
  rw [head, tailRecord_of_holds h]
  exact hh

/-- **The locked part of `write`.**  On a file of whole records it builds a body that
names the last one and appends the body's line. -/
theorem appendRecord_of_holds {content : Bytes} {ds : List Dict} (h : Holds rt content ds)
    (hl : ∀ d ∈ ds.getLast?, Numbered d) (log : AuditLog) (e : Entry) (s : Stamp) :
    ∃ prev, HashChain.head chainLinks genesis ds = some (.str prev) ∧
      appendRecord rt log e s content =
        .ok (sealed rt log.hmacKey (recordBody rt log e s (.int (lastSeq ds + 1)) (.str prev)),
          utf8 (dumps lineStyle (.obj (sealed rt log.hmacKey
            (recordBody rt log e s (.int (lastSeq ds + 1)) (.str prev)))) ++ ['\n'])) := by
  obtain ⟨prev, hp, hh⟩ := hashOrGenesis_last hl
  refine ⟨prev, hp, ?_⟩
  rw [appendRecord, tailRecord_of_holds h]
  simp only [bind, Except.bind, hh, nextSeq_last hl]
  rfl

/-- A record as the writer stores it: it names `prev`, carries its digest and MAC, and
is numbered. -/
structure Stored (rt : Runtime) (key prev : String) (d : Dict) : Prop where
  prev_hash : Json.get d "prev_hash" = some (.str prev)
  genuine : Genuine rt key d
  numbered : Numbered d

theorem stored_record (rt : Runtime) (log : AuditLog) (e : Entry) (s : Stamp) (n : Int)
    (prev : String) :
    Stored rt log.hmacKey prev
      (stored rt log.hmacKey (recordBody rt log e s (.int n) (.str prev))) := by
  have hb : IsBody (recordBody rt log e s (.int n) (.str prev)) :=
    recordBody_isBody rt log e s rfl rfl
  refine ⟨?_, genuine_parsed rt _ hb, ⟨_, get_parsed_hash rt _ hb⟩, n, ?_⟩
  · rw [get_parsed rt _ hb, get_sealed rt _ (by decide) (by decide)]
    rfl
  · rw [get_parsed rt _ hb, get_sealed rt _ (by decide) (by decide)]
    rfl

theorem stored_marker (rt : Runtime) (log : AuditLog) (s : Stamp) (rotated prev : String) :
    Stored rt log.hmacKey prev
      (stored rt log.hmacKey (markerBody log s rotated (.str prev))) := by
  have hb : IsBody (markerBody log s rotated (.str prev)) := markerBody_isBody log s rotated rfl
  refine ⟨?_, genuine_parsed rt _ hb, ⟨_, get_parsed_hash rt _ hb⟩, 0, ?_⟩
  · rw [get_parsed rt _ hb, get_sealed rt _ (by decide) (by decide)]
    rfl
  · rw [get_parsed rt _ hb, get_sealed rt _ (by decide) (by decide)]
    rfl

/-! ## Sound ledgers -/

/-- A stored record that names the head extends an accepted chain. -/
theorem Accepted.concat {key : String} {ds : List Dict} (h : Accepted rt key ds) {d : Dict}
    {prev : String} (hp : HashChain.head chainLinks genesis ds = some (.str prev))
    (hd : Stored rt key prev d) : Accepted rt key (ds ++ [d]) where
  linked := linked_concat.mpr ⟨h.linked, hd.prev_hash.trans hp.symm⟩
  genuine := fun e he => by
    rcases List.mem_append.mp he with he | he
    · exact h.genuine e he
    · rw [List.mem_singleton.mp he]
      exact hd.genuine

/-- The writer can continue the active file: if it holds records, the last one is
numbered. -/
def Ledger.Continues (l : Ledger) : Prop := ∀ d ∈ l.active.getLast?, Numbered d

theorem Ledger.Continues.append {l : Ledger} {d : Dict} (hd : Numbered d) :
    (l.append d).Continues := by
  intro e he
  have he' : (l.active ++ [d]).getLast? = some e := he
  rw [List.getLast?_concat] at he'
  cases he'
  exact hd

theorem Ledger.Continues.rotate {l : Ledger} {name : String} {m : Dict} (hm : Numbered m) :
    (l.rotate name m).Continues := by
  intro e he
  cases he
  exact hm

/-- The records of the ledger pass every check of `verify`, and the active file starts
with a record once there are archived ones. -/
structure Ledger.Sound (rt : Runtime) (key : String) (l : Ledger) : Prop where
  accepted : Accepted rt key l.records
  continues : l.Continues
  started : l.active = [] → l.archived = []

/-- A file with records alone shows the head of the chain that ends in it. -/
theorem head_suffix {es ds : List Dict} (h : ds = [] → es = []) :
    HashChain.head chainLinks genesis ds = HashChain.head chainLinks genesis (es ++ ds) := by
  rcases List.eq_nil_or_concat ds with hnil | ⟨ds, d, rfl⟩
  · rw [h hnil, hnil]
    rfl
  · rw [List.concat_eq_append, ← List.append_assoc, head_concat, head_concat]

namespace Ledger.Sound

variable {key : String} {l : Ledger}

theorem empty (rt : Runtime) (key : String) : Ledger.Sound rt key ⟨[], []⟩ where
  accepted := ⟨trivial, fun _ hd => absurd hd List.not_mem_nil⟩
  continues := fun _ hd => by cases hd
  started := fun _ => rfl

/-- The active file alone shows the head of the chain. -/
theorem head_active (h : Ledger.Sound rt key l) :
    HashChain.head chainLinks genesis l.active = HashChain.head chainLinks genesis l.records := by
  have hrecs : l.records = (l.archived.map Prod.snd).flatten ++ l.active := by
    rw [Ledger.records, Ledger.files, List.flatten_append, List.flatten_singleton]
  rw [hrecs]
  refine head_suffix (fun hnil => ?_)
  rw [h.started hnil]
  rfl

theorem append (h : Ledger.Sound rt key l) {d : Dict} {prev : String}
    (hp : HashChain.head chainLinks genesis l.records = some (.str prev))
    (hd : Stored rt key prev d) : Ledger.Sound rt key (l.append d) where
  accepted := by
    rw [Ledger.records_append]
    exact h.accepted.concat hp hd
  continues := Ledger.Continues.append hd.numbered
  started := fun hnil => absurd hnil (List.append_ne_nil_of_right_ne_nil _ (List.cons_ne_nil _ _))

theorem rotate (h : Ledger.Sound rt key l) {m : Dict} {prev name : String}
    (hp : HashChain.head chainLinks genesis l.records = some (.str prev))
    (hm : Stored rt key prev m) : Ledger.Sound rt key (l.rotate name m) where
  accepted := by
    rw [Ledger.records_rotate]
    exact h.accepted.concat hp hm
  continues := Ledger.Continues.rotate hm.numbered
  started := fun hnil => absurd hnil (List.cons_ne_nil _ _)

end Ledger.Sound

/-- **`verify` on a directory that represents a sound ledger** answers `ok` and counts
the ledger's records. -/
theorem verify_of_sound {f : Form rt} {p : ChainPath} {d : Dir Bytes} {key : String} {l : Ledger}
    (h : RepresentsAs f p d l) (hs : Ledger.Sound rt key l) :
    ∃ r, verify rt p d key = .ok r ∧ r.ok = true ∧ r.records = l.records.length :=
  verify_of_accepted h.chainRecords hs.accepted

/-! ## One call -/

theorem appended_holds {content : Bytes} {ds : List Dict} (h : Holds rt content ds) (st : Style)
    (key : String) {b : Dict} (hb : IsBody b) :
    Holds rt (content ++ utf8 (dumps st (.obj (sealed rt key b)) ++ ['\n']))
      (ds ++ [stored rt key b]) :=
  h.append (recorded_dumps rt st (sealed_dict rt key hb))

/-- What `_rotate` does up to the marker: it reads the head of the chain and renames the
file. -/
theorem rotate_renames {f : Form rt} {clock : Nat → String} {log : AuditLog}
    {w : World} {l : Ledger} (h : RepresentsAs f log.path w.dir l) (hl : l.Continues)
    (hne : l.active ≠ []) (hlt : ∀ n ∈ l.archived.map Prod.fst, n < log.path.rotated
      (clock w.rotations)) :
    ∃ content prev dir, w.dir.read log.path.active = some content ∧
      HashChain.head chainLinks genesis l.active = some (.str prev) ∧
      head rt content = .ok (.str prev) ∧
      w.dir.rename log.path.active (log.path.rotated (clock w.rotations)) = some dir ∧
      RepresentsAs f log.path dir
        ⟨l.archived ++ [(log.path.rotated (clock w.rotations), l.active)], []⟩ := by
  have ha := h.active
  obtain ⟨content, hc⟩ : ∃ content, w.dir.read log.path.active = some content := by
    cases hr : w.dir.read log.path.active with
    | some content => exact ⟨content, rfl⟩
    | none =>
      rw [hr, Option.getD_none] at ha
      exact absurd ha.no_records hne
  rw [hc, Option.getD_some] at ha
  obtain ⟨prev, hp, hhead⟩ := head_of_holds ha hl
  cases hren : w.dir.rename log.path.active (log.path.rotated (clock w.rotations)) with
  | none =>
    rw [Dir.rename_eq_none.mp hren] at hc
    cases hc
  | some dir =>
    refine ⟨content, prev, dir, hc, hp, hhead, rfl,
      h.archive hc (isRotated_rotated _ _) hlt (fun n => ?_)⟩
    rw [Dir.read_rename hren, hc]
    by_cases hn : n = log.path.active
    · rw [if_pos hn, hn, if_neg (rotated_ne_active _ _).symm, if_pos rfl]
    · rw [if_neg hn, if_neg hn]

/-- **`_rotate` refines the rotation of the ledger.** -/
theorem rotate_represents {f : Form rt} {clock : Nat → String} {log : AuditLog} {s : Stamp}
    {w : World} {l : Ledger} (h : RepresentsAs f log.path w.dir l) (hl : l.Continues)
    (hne : l.active ≠ []) (hlt : ∀ n ∈ l.archived.map Prod.fst, n < log.path.rotated
      (clock w.rotations)) :
    ∃ prev w', HashChain.head chainLinks genesis l.active = some (.str prev) ∧
      rotate rt clock log s w = .ok w' ∧ w'.rotations = w.rotations + 1 ∧ w'.spool = w.spool ∧
      RepresentsAs f log.path w'.dir (l.rotate (log.path.rotated (clock w.rotations))
        (stored rt log.hmacKey
          (markerBody log s (log.path.rotated (clock w.rotations)) (.str prev)))) := by
  obtain ⟨content, prev, dir, hc, hp, hhead, hren, hrep⟩ := rotate_renames h hl hne hlt
  have hb : IsBody (markerBody log s (log.path.rotated (clock w.rotations)) (.str prev)) :=
    markerBody_isBody log s _ rfl
  let bytes := markerBytes rt log s (log.path.rotated (clock w.rotations)) (.str prev)
  refine ⟨prev, { w with
    dir := (dir.touch log.path.active []).write log.path.active bytes
    rotations := w.rotations + 1 }, hp, ?_, rfl, rfl, ?_⟩
  · simp only [ComplianceMcp.rotate, hc, hhead, bind, Except.bind, hren]
    rfl
  · exact hrep.touch.setActive (fun n => Dir.read_write _ _ _ n)
      (appended_holds holds_nil markerStyle log.hmacKey hb)

/-! ## What a call that returns has done -/

@[simp] theorem forward_dir (log : AuditLog) (body : Dict) (w : World) :
    (forward rt log body w).dir = w.dir := by
  unfold forward
  split <;> rfl

@[simp] theorem forward_rotations (log : AuditLog) (body : Dict) (w : World) :
    (forward rt log body w).rotations = w.rotations := by
  unfold forward
  split <;> rfl

theorem forward_spool (log : AuditLog) (body : Dict) (w : World) :
    (forward rt log body w).spool = w.spool ++ forwarded rt log body := by
  unfold forward forwarded
  split
  · exact List.append_assoc _ _ _
  · exact (List.append_nil _).symm

/-- `write` from its two parts. -/
theorem write_of_parts {clock : Nat → String} {log : AuditLog} {c : Call} {w w₁ w₂ : World}
    {body : Dict} {bytes content : Bytes}
    (hc : content = ((w.dir.touch log.path.active []).read log.path.active).getD [])
    (happ : appendRecord rt log c.entry c.stamp content = .ok (body, bytes))
    (hw₁ : w₁ = { w with
      dir := (w.dir.touch log.path.active []).write log.path.active (content ++ bytes) })
    (hrot : (if log.rotateBytes ≤ (content ++ bytes).length then
      rotate rt clock log c.markerStamp w₁
      else .ok w₁) = .ok w₂) :
    write rt clock log c w = (.ok (AuditRecord.ofBody body), forward rt log body w₂) := by
  subst hc hw₁
  simp only [write, happ, hrot]

theorem appendRecord_ok {log : AuditLog} {e : Entry} {s : Stamp} {content : Bytes} {body : Dict}
    {bytes : Bytes} (h : appendRecord rt log e s content = .ok (body, bytes)) :
    ∃ tail prevHash seq, tailRecord rt content = .ok tail ∧ hashOrGenesis tail = .ok prevHash ∧
      nextSeq rt tail = .ok seq ∧
      body = sealed rt log.hmacKey (recordBody rt log e s seq prevHash) ∧
      bytes = utf8 (dumps lineStyle (.obj body) ++ ['\n']) := by
  rw [appendRecord] at h
  cases ht : tailRecord rt content with
  | error err => rw [ht] at h; cases h
  | ok tail =>
    cases hp : hashOrGenesis tail with
    | error err => simp only [ht, bind, Except.bind, hp] at h; cases h
    | ok prevHash =>
      cases hs : nextSeq rt tail with
      | error err => simp only [ht, bind, Except.bind, hp, hs] at h; cases h
      | ok seq =>
        simp only [ht, bind, Except.bind, hp, hs] at h
        obtain ⟨rfl, rfl⟩ := Prod.mk.inj (Except.ok.inj h)
        exact ⟨tail, prevHash, seq, rfl, hp, hs, rfl, rfl⟩

/-- A `write` that returns has appended its record, and has read the head of the file if
the file has reached its bound. -/
theorem write_ok {clock : Nat → String} {log : AuditLog} {c : Call} {w w' : World}
    {rec : AuditRecord} (h : write rt clock log c w = (.ok rec, w')) :
    ∃ content body bytes, content = (w.dir.read log.path.active).getD [] ∧
      appendRecord rt log c.entry c.stamp content = .ok (body, bytes) ∧
      rec = AuditRecord.ofBody body ∧
      (w'.dir.read log.path.active = some (content ++ bytes) ∨
        ∃ j, head rt (content ++ bytes) = .ok j) := by
  have hopened : ((w.dir.touch log.path.active []).read log.path.active).getD [] =
      (w.dir.read log.path.active).getD [] := by
    rw [Dir.read_touch, if_pos rfl, Option.getD_some]
  simp only [write, hopened] at h
  split at h
  · cases h
  next body bytes happ =>
  refine ⟨_, body, bytes, rfl, happ, ?_⟩
  split at h
  · cases h
  next w₂ hrot =>
  obtain ⟨hrec, rfl⟩ := Prod.mk.inj h
  refine ⟨(Except.ok.inj hrec).symm, ?_⟩
  split at hrot
  · right
    simp only [rotate, Dir.read_write_self] at hrot
    cases hh : head rt ((w.dir.read log.path.active).getD [] ++ bytes) with
    | error err => simp only [hh, bind, Except.bind] at hrot; cases hrot
    | ok j => exact ⟨j, rfl⟩
  · left
    cases hrot
    rw [forward_dir, Dir.read_write_self]

end ComplianceMcp
