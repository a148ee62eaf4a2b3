import ComplianceMcp.AuditAppend
import ComplianceMcp.AuditTamper
import ComplianceMcp.DraftTable

/-! # Retention purge

`compliance-admin purge --apply` deletes the decided drafts and the rotated audit files past
retention, and then writes a record of its own through a new `AuditLog`.  Only whole files
are deleted, oldest first, so what stays is a suffix of the chain; but `verify` starts
every walk at `GENESIS`, and the first record that stays names the last one that was
deleted.  Besides, the record of the purge goes into an active file that `verify` accepts, but that
`AuditLog` need not have written.  `purge_verifies_iff` says when the chain still verifies. -/
namespace ComplianceMcp

open PyJson PyText Files HashChain

/-! ## `admin_cli.main` -/

/-- The microseconds from 0001-01-01 to the end of 9999-12-31. -/
def datetimeEnd : Int := 3652059 * 86400000000

/-- `datetime.now(UTC) - timedelta(days=days)`, in microseconds since 0001-01-01;
`OverflowError` outside the range of `datetime`. -/
def cutoffTime (now days : Int) : Except PyError Int :=
  let cutoff := now - days * 86400000000
  if 0 ≤ cutoff ∧ cutoff < datetimeEnd then .ok cutoff else .error .other

/-- One `compliance-admin purge` invocation and what it draws from its surroundings. -/
structure PurgeCall where
  now : Int
  olderThanDays : Int
  apply : Bool
  stamp : Stamp
  markerStamp : Stamp

/-- What the command works on: the drafts table, the files of the chain and their
modification times. -/
structure Host where
  rows : List Row
  world : World
  mtime : String → Int

/-- `AuditLog(settings.audit_log, "compliance-admin", hmac_key=...)`. -/
def adminLog (p : ChainPath) (key : String) : AuditLog where
  path := p
  agentId := "compliance-admin"
  hmacKey := key
  rotateBytes := 50000000
  forwards := false
  anchorEvery := 100

/-- `[p for p in chain_files(settings.audit_log)[:-1] if mtime(p) < cutoff]`. -/
def expired (p : ChainPath) (mtime : String → Int) (cutoff : Int) (d : Dir Bytes) : List String :=
  (chainFiles p d).dropLast.filter (fun n => mtime n < cutoff)

/-- `path.unlink()` for each of the files. -/
def unlinkAll (d : Dir Bytes) (ns : List String) : Dir Bytes := ns.foldl Dir.remove d

/-- The text of both messages of a purge. -/
def purgeCounts (drafts files : Nat) (days : Int) (what : String) : String :=
  toString drafts ++ what ++ " and " ++ toString files ++ " rotated audit file(s) older than "
    ++ toString days ++ " days"

/-- The `write` call that records a purge. -/
def purgeEntry (days : Int) (cutoffIso : String) (drafts : Nat) (files : List String) : Entry where
  requester := "operator"
  tool := "retention_purge"
  args := [("older_than_days", .int days), ("cutoff", .str cutoffIso),
    ("files", .arr (files.map .str))]
  outcome := "ok"
  resultSummary := "purged " ++ purgeCounts drafts files.length days " draft(s)"
  sessionId := ""
  directoryVersion := ""
  args_dict := by
    refine Json.distinctKeys_obj_iff.mpr ⟨by simp, ?_⟩
    simp only [List.forall_mem_cons, Json.distinctKeys_int, Json.distinctKeys_str,
      Json.distinctKeys_strings, true_and]
    exact fun f hf => absurd hf List.not_mem_nil

/-- The line the command prints. -/
def purgeMessage (mode : String) (days : Int) (cutoffIso : String) (drafts files : Nat) : String :=
  mode ++ " " ++ purgeCounts drafts files days " decided draft(s)" ++ " (cutoff " ++
    cutoffIso ++ ")"

/-- `compliance-admin purge`, with `strftime` for the cutoff as the table has it. -/
def purge (rt : Runtime) (clock : Nat → String) (strftime : Int → String) (p : ChainPath)
    (key : String) (c : PurgeCall) (h : Host) : Except PyError String × Host :=
  match cutoffTime c.now c.olderThanDays with
  | .error err => (.error err, h)
  | .ok cutoff =>
    let cutoffIso := strftime cutoff
    let drafts := h.rows.countP (purgeable cutoffIso)
    let rotated := expired p h.mtime cutoff h.world.dir
    if c.apply then
      let log := adminLog p key
      let rows := h.rows.filter (fun r => !purgeable cutoffIso r)
      let world := construct log { h.world with dir := unlinkAll h.world.dir rotated }
      let call := ⟨purgeEntry c.olderThanDays cutoffIso drafts rotated, c.stamp, c.markerStamp⟩
      match write rt clock log call world with
      | (.error err, world) => (.error err, { h with rows, world })
      | (.ok _, world) =>
        (.ok (purgeMessage "purged" c.olderThanDays cutoffIso drafts rotated.length),
          { h with rows, world })
    else (.ok (purgeMessage "would purge" c.olderThanDays cutoffIso drafts rotated.length), h)

/-! ## What a purge promises -/

/-- The files of the chain that a purge leaves. -/
def staying (p : ChainPath) (mtime : String → Int) (cutoff : Int) (d : Dir Bytes) : List String :=
  (chainFiles p d).filter (fun n => n ∉ expired p mtime cutoff d)

/-- After a purge the chain verifies.  It consists of the records of the files that
stayed, which are a suffix of the chain before it, the record of the purge, and at most
the marker of a rotation. -/
def PurgeSound (rt : Runtime) (clock : Nat → String) (strftime : Int → String) (p : ChainPath)
    (key : String) (c : PurgeCall) (cutoff : Int) (h : Host) : Prop :=
  ∃ (message : String) (h' : Host) (old kept : List Dict) (d : Dict) (new : List Dict),
    purge rt clock strftime p key c h = (.ok message, h') ∧
    chainRecords rt p h.world.dir = some (old.map .obj) ∧
    recordsOf rt h.world.dir (staying p h.mtime cutoff h.world.dir) = some (kept.map .obj) ∧
    kept <:+ old ∧
    chainRecords rt p h'.world.dir = some ((kept ++ d :: new).map .obj) ∧
    Json.get d "tool" = some (.str "retention_purge") ∧
    (new = [] ∨ ∃ file m, new = [m] ∧ isMarker file m = true) ∧
    ∃ r, verify rt p h'.world.dir key = .ok r ∧ r.ok = true

/-! ## When it holds -/

/-- None of the files holds a record. -/
def NoRecords (rt : Runtime) (d : Dir Bytes) (ns : List String) : Prop :=
  ∀ n ∈ ns, ∀ b, d.read n = some b → fileRecords rt b = some []

/-- The digest that the record after these has to name. -/
def headOf (ds : List Dict) : Json := (ds.getLast?.bind (Json.get · "hash")).getD (.str GENESIS)

/-- The content of the active file. -/
def activeContent (p : ChainPath) (d : Dir Bytes) : Bytes := (d.read p.active).getD []

/-- The `write` call of a purge. -/
def purgeWrite (strftime : Int → String) (p : ChainPath) (c : PurgeCall) (cutoff : Int)
    (h : Host) : Call :=
  ⟨purgeEntry c.olderThanDays (strftime cutoff) (h.rows.countP (purgeable (strftime cutoff)))
    (expired p h.mtime cutoff h.world.dir), c.stamp, c.markerStamp⟩

/-- With the record of the purge the active file reaches the size at which it is rotated. -/
def Fills (rt : Runtime) (strftime : Int → String) (p : ChainPath) (key : String) (c : PurgeCall)
    (cutoff : Int) (h : Host) : Prop :=
  ∃ body bytes, appendRecord rt (adminLog p key) (purgeWrite strftime p c cutoff h).entry c.stamp
      (activeContent p h.world.dir) = .ok (body, bytes) ∧
    (adminLog p key).rotateBytes ≤ (activeContent p h.world.dir ++ bytes).length

/-- The purge deletes no record, or leaves none; and the active file can be continued: its
head is that of the records that stay, the record it is read from can be counted on, and no
line is left open. -/
structure Survives (rt : Runtime) (strftime : Int → String) (p : ChainPath) (key : String)
    (c : PurgeCall) (cutoff : Int) (h : Host) : Prop where
  whole : NoRecords rt h.world.dir (expired p h.mtime cutoff h.world.dir) ∨
    NoRecords rt h.world.dir (staying p h.mtime cutoff h.world.dir)
  head : ∃ kept, recordsOf rt h.world.dir (staying p h.mtime cutoff h.world.dir) =
    some (kept.map .obj) ∧
    head rt (activeContent p h.world.dir) = .ok (headOf kept)
  counts : ∃ tail n, tailRecord rt (activeContent p h.world.dir) = .ok tail ∧
    nextSeq rt tail = .ok n
  finished : Finished isLineEnd (activeContent p h.world.dir)
  rotation : Fills rt strftime p key c cutoff h → Finished isLineFeed (activeContent p h.world.dir)

variable {rt : Runtime}

/-! ## The rotated files of a chain -/

/-- The rotated files of a chain can be read, and hold these records. -/
structure RotatedFiles (rt : Runtime) (p : ChainPath) (d : Dir Bytes)
    (gs : List (String × List Dict)) : Prop where
  sorted : (gs.map Prod.fst).Pairwise (· < ·)
  rotated : ∀ n, p.isRotated n = true ∧ (d.read n).isSome = true ↔ n ∈ gs.map Prod.fst
  reads : ∀ g ∈ gs, ∃ b, d.read g.1 = some b ∧ fileRecords rt b = some (g.2.map .obj)

/-- The records of these files. -/
def rotatedRecords (gs : List (String × List Dict)) : List Dict := (gs.map Prod.snd).flatten

theorem rotatedRecords_append (gs hs : List (String × List Dict)) :
    rotatedRecords (gs ++ hs) = rotatedRecords gs ++ rotatedRecords hs := by
  rw [rotatedRecords, List.map_append, List.flatten_append]
  rfl

/-- Files with these records are read record by record. -/
theorem recordsOf_append {d : Dir Bytes} {gs : List (String × List Dict)}
    (h : ∀ g ∈ gs, ∃ b, d.read g.1 = some b ∧ fileRecords rt b = some (g.2.map .obj))
    (ms : List String) :
    recordsOf rt d (gs.map Prod.fst ++ ms) = (recordsOf rt d ms).map
      ((rotatedRecords gs).map .obj ++ ·) := by
  rw [recordsOf, RepresentsAs.groupsOf_archived (f := Form.readable rt) h, recordsOf,
    Option.map_map, Option.map_map]
  refine congrArg (Option.map · _) (funext fun js => ?_)
  simp [rotatedRecords, List.map_flatten, Function.comp_def]

namespace RotatedFiles

variable {p : ChainPath} {d : Dir Bytes} {gs : List (String × List Dict)}

theorem chainFiles_eq (h : RotatedFiles rt p d gs) :
    chainFiles p d = gs.map Prod.fst ++ if (d.read p.active).isSome then [p.active] else [] :=
  ComplianceMcp.chainFiles_eq h.sorted h.rotated

theorem ne_active (h : RotatedFiles rt p d gs) {n : String} (hn : n ∈ gs.map Prod.fst) :
    n ≠ p.active := by
  rintro rfl
  have hr := ((h.rotated p.active).mpr hn).1
  rw [isRotated_active] at hr
  cases hr

/-- Nothing but the active file changes. -/
theorem congr (h : RotatedFiles rt p d gs) {d' : Dir Bytes}
    (hread : ∀ n, n ≠ p.active → d'.read n = d.read n) : RotatedFiles rt p d' gs where
  sorted := h.sorted
  rotated := fun n => by
    by_cases hn : n = p.active
    · subst hn
      rw [isRotated_active]
      exact iff_of_false (fun hf => Bool.false_ne_true hf.1) (fun hm => h.ne_active hm rfl)
    · rw [hread n hn]
      exact h.rotated n
  reads := fun g hg => by
    rw [hread _ (h.ne_active (List.mem_map_of_mem hg))]
    exact h.reads g hg

/-- The records of the chain are those of the rotated files and then those of the active one. -/
theorem chainRecords (h : RotatedFiles rt p d gs) {b : Bytes} (hb : d.read p.active = some b) :
    chainRecords rt p d = (fileRecords rt b).map ((rotatedRecords gs).map .obj ++ ·) := by
  rw [ComplianceMcp.chainRecords, h.chainFiles_eq, hb, Option.isSome_some, if_pos rfl,
    recordsOf_append h.reads]
  cases hr : fileRecords rt b with
  | none => simp [recordsOf, groupsOf, hb, hr]
  | some js => simp [recordsOf, groupsOf, hb, hr]

/-- A file is archived under a name after all others. -/
theorem archive (h : RotatedFiles rt p d gs) {d' : Dir Bytes} {name : String} {b : Bytes}
    {ds : List Dict} (hname : p.isRotated name = true) (hlt : ∀ n ∈ gs.map Prod.fst, n < name)
    (hb : d'.read name = some b) (hread : fileRecords rt b = some (ds.map .obj))
    (hother : ∀ n, n ≠ p.active → n ≠ name → d'.read n = d.read n) :
    RotatedFiles rt p d' (gs ++ [(name, ds)]) where
  sorted := by
    rw [List.map_append, List.pairwise_append]
    refine ⟨h.sorted, List.pairwise_singleton _ _, fun n hn k hk => ?_⟩
    rw [List.mem_singleton.mp hk]
    exact hlt n hn
  rotated := fun n => by
    rw [List.map_append, List.mem_append, List.map_singleton, List.mem_singleton]
    by_cases hn : n = name
    · rw [hn, hb]
      exact iff_of_true ⟨hname, rfl⟩ (.inr rfl)
    · rw [or_iff_left hn]
      by_cases ha : n = p.active
      · subst ha
        rw [isRotated_active]
        exact iff_of_false (fun hf => Bool.false_ne_true hf.1) (fun hm => h.ne_active hm rfl)
      · rw [hother n ha hn]
        exact h.rotated n
  reads := fun g hg => by
    rcases List.mem_append.mp hg with hg | hg
    · have hm : g.1 ∈ gs.map Prod.fst := List.mem_map_of_mem hg
      rw [hother _ (h.ne_active hm) (ne_of_lt (hlt _ hm))]
      exact h.reads g hg
    · rw [List.mem_singleton.mp hg]
      exact ⟨b, hb, hread⟩

end RotatedFiles

/-- The files of a readable chain and the records in each. -/
theorem files_of_recordsOf {d : Dir Bytes} {ns ms : List String} {ds : List Dict}
    (h : recordsOf rt d (ns ++ ms) = some (ds.map .obj)) :
    ∃ (fs : List (String × List Dict)) (es : List Dict), fs.map Prod.fst = ns ∧
      (∀ g ∈ fs, ∃ b, d.read g.1 = some b ∧ fileRecords rt b = some (g.2.map .obj)) ∧
      recordsOf rt d ms = some (es.map .obj) ∧ ds = rotatedRecords fs ++ es := by
  induction ns generalizing ds with
  | nil => exact ⟨[], ds, rfl, fun g hg => absurd hg List.not_mem_nil, h, rfl⟩
  | cons n ns ih =>
    obtain ⟨b, ds₁, ds₂, hb, rfl, h₁, h₂⟩ := recordsOf_cons.mp h
    obtain ⟨fs, es, hfs, hread, hes, rfl⟩ := ih h₂
    refine ⟨(n, ds₁) :: fs, es, by rw [List.map_cons, hfs], fun g hg => ?_, hes, ?_⟩
    · rcases List.mem_cons.mp hg with rfl | hg
      · exact ⟨b, hb, h₁⟩
      · exact hread g hg
    · exact (List.append_assoc ..).symm

/-- **A readable chain is its rotated files and its active one.** -/
theorem files_of_chainRecords {p : ChainPath} {d : Dir Bytes} {old : List Dict}
    (h : chainRecords rt p d = some (old.map .obj)) : ∃ gs ds, RotatedFiles rt p d gs ∧
      fileRecords rt (activeContent p d) = some (ds.map .obj) ∧ old = rotatedRecords gs ++ ds := by
  obtain ⟨gs, es, hfs, hread, hes, hold⟩ := files_of_recordsOf h
  have hmem : ∀ n, p.isRotated n = true ∧ (d.read n).isSome = true ↔ n ∈ gs.map Prod.fst := by
    intro n
    rw [hfs, List.mem_filter, Dir.mem_sortedNames, decide_eq_true_eq]
    refine ⟨fun hn => ⟨hn, ?_⟩, fun hn => hn.1⟩
    rintro rfl
    rw [isRotated_active] at hn
    exact Bool.false_ne_true hn.1
  refine ⟨gs, es, ⟨?_, hmem, hread⟩, ?_, hold⟩
  · rw [hfs]
    exact (Dir.sortedNames_pairwise d _).sublist List.filter_sublist
  · unfold activeContent
    cases hr : d.read p.active with
    | none =>
      rw [hr, Option.isSome_none, if_neg Bool.false_ne_true] at hes
      obtain rfl : es = [] := List.map_eq_nil_iff.mp (Option.some.inj hes).symm
      rfl
    | some b =>
      rw [hr, Option.isSome_some, if_pos rfl] at hes
      obtain ⟨b', ds₁, ds₂, hb, rfl, h₁, h₂⟩ := recordsOf_cons.mp hes
      obtain rfl : ds₂ = [] := List.map_eq_nil_iff.mp (Option.some.inj h₂).symm
      rw [hr] at hb
      obtain rfl := Option.some.inj hb
      rw [List.append_nil]
      exact h₁

/-! ## Deleting the oldest files -/

theorem read_unlinkAll (d : Dir Bytes) (ns : List String) (m : String) :
    (unlinkAll d ns).read m = if m ∈ ns then none else d.read m := by
  induction ns generalizing d with
  | nil => rfl
  | cons n ns ih =>
    show (unlinkAll (d.remove n) ns).read m = _
    rw [ih, Dir.read_remove]
    by_cases hm : m ∈ ns
    · rw [if_pos hm, if_pos (List.mem_cons_of_mem _ hm)]
    · by_cases hn : m = n
      · rw [if_neg hm, if_pos hn, if_pos (hn ▸ List.mem_cons_self)]
      · rw [if_neg hm, if_neg hn, if_neg (fun h => (List.mem_cons.mp h).elim hn hm)]

/-- A filter whose verdict, once `false`, stays `false` keeps a prefix. -/
theorem filter_eq_take {α : Type*} {q : α → Bool} {xs : List α}
    (h : xs.Pairwise (fun a b => q b = true → q a = true)) :
    ∃ k, xs.filter q = xs.take k := by
  induction xs with
  | nil => exact ⟨0, rfl⟩
  | cons x xs ih =>
    rw [List.pairwise_cons] at h
    by_cases hx : q x = true
    · obtain ⟨k, hk⟩ := ih h.2
      exact ⟨k + 1, by rw [List.filter_cons_of_pos hx, hk, List.take_succ_cons]⟩
    · refine ⟨0, List.filter_eq_nil_iff.mpr (fun y hy hqy => ?_)⟩
      rcases List.mem_cons.mp hy with rfl | hy
      · exact hx hqy
      · exact hx (h.1 y hy hqy)

section Oldest

variable {p : ChainPath} {d : Dir Bytes} {gs : List (String × List Dict)}

/-- With modification times in chain order the expired files are the oldest ones. -/
theorem expired_eq_take (h : RotatedFiles rt p d gs) {mtime : String → Int} (cutoff : Int)
    (hm : (chainFiles p d).dropLast.Pairwise (fun a b => mtime a ≤ mtime b)) :
    ∃ k, expired p mtime cutoff d = (gs.map Prod.fst).take k := by
  obtain ⟨k, hk⟩ : ∃ k, (chainFiles p d).dropLast = (gs.map Prod.fst).take k := by
    rw [h.chainFiles_eq]
    cases (d.read p.active).isSome with
    | true =>
      refine ⟨(gs.map Prod.fst).length, ?_⟩
      rw [if_pos rfl, List.dropLast_concat, List.take_length]
    | false =>
      refine ⟨(gs.map Prod.fst).length - 1, ?_⟩
      rw [if_neg Bool.false_ne_true, List.append_nil, List.dropLast_eq_take]
  have hpair := hm.imp
    (S := fun a b => decide (mtime b < cutoff) = true → decide (mtime a < cutoff) = true)
    (fun hab hb => decide_eq_true (lt_of_le_of_lt hab (of_decide_eq_true hb)))
  obtain ⟨j, hj⟩ := filter_eq_take hpair
  refine ⟨min j k, ?_⟩
  rw [expired, hj, hk, List.take_take]

/-- The names of the oldest files are none of the others'. -/
theorem RotatedFiles.not_mem_take (h : RotatedFiles rt p d gs) {k : Nat} {n : String}
    (hn : n ∈ (gs.drop k).map Prod.fst) : n ∉ (gs.map Prod.fst).take k := by
  have hnd : ((gs.map Prod.fst).take k ++ (gs.map Prod.fst).drop k).Nodup := by
    rw [List.take_append_drop]
    exact h.sorted.imp (fun hlt => ne_of_lt hlt)
  rw [List.map_drop] at hn
  exact fun hn' => (List.nodup_append.mp hnd).2.2 n hn' n hn rfl

theorem RotatedFiles.unlinkOldest (h : RotatedFiles rt p d gs) (k : Nat) :
    RotatedFiles rt p (unlinkAll d ((gs.map Prod.fst).take k)) (gs.drop k) where
  sorted := by
    rw [List.map_drop]
    exact h.sorted.sublist (List.drop_sublist _ _)
  rotated := fun n => by
    rw [read_unlinkAll]
    by_cases hn : n ∈ (gs.map Prod.fst).take k
    · rw [if_pos hn]
      exact iff_of_false (fun hf => Bool.false_ne_true hf.2) (fun hm => h.not_mem_take hm hn)
    · rw [if_neg hn, h.rotated n, List.map_drop]
      constructor
      · intro hm
        rw [← List.take_append_drop k (gs.map Prod.fst)] at hm
        exact (List.mem_append.mp hm).resolve_left hn
      · exact fun hm => List.mem_of_mem_drop hm
  reads := fun g hg => by
    rw [read_unlinkAll, if_neg (h.not_mem_take (List.mem_map_of_mem hg))]
    exact h.reads g (List.mem_of_mem_drop hg)

/-- The files that stay are all but the oldest. -/
theorem staying_eq (h : RotatedFiles rt p d gs) {mtime : String → Int} {cutoff : Int} {k : Nat}
    (hexp : expired p mtime cutoff d = (gs.map Prod.fst).take k) :
    staying p mtime cutoff d =
      (gs.drop k).map Prod.fst ++ if (d.read p.active).isSome then [p.active] else [] := by
  have hactive : p.active ∉ (gs.map Prod.fst).take k := fun hm =>
    h.ne_active (List.mem_of_mem_take hm) rfl
  have hnames : (gs.map Prod.fst).filter (fun n => n ∉ (gs.map Prod.fst).take k) =
      (gs.drop k).map Prod.fst := by
    conv_lhs => rw [← List.take_append_drop k (gs.map Prod.fst), List.filter_append]
    rw [List.take_append_drop, List.filter_eq_nil_iff.mpr (fun n hn => by simpa using hn),
      List.nil_append, ← List.map_drop, List.filter_eq_self.mpr]
    exact fun n hn => decide_eq_true (h.not_mem_take hn)
  rw [staying, hexp, h.chainFiles_eq, List.filter_append, hnames]
  refine congrArg (_ ++ ·) (List.filter_eq_self.mpr fun n hn => decide_eq_true ?_)
  split at hn
  · rwa [List.mem_singleton.mp hn]
  · exact absurd hn List.not_mem_nil

/-- The records of the files that stay. -/
theorem recordsOf_staying (h : RotatedFiles rt p d gs) {mtime : String → Int}
    {cutoff : Int} {k : Nat} (hexp : expired p mtime cutoff d = (gs.map Prod.fst).take k)
    {ds : List Dict} (hds : fileRecords rt (activeContent p d) = some (ds.map .obj)) :
    recordsOf rt d (staying p mtime cutoff d) =
      some ((rotatedRecords (gs.drop k) ++ ds).map .obj) := by
  rw [staying_eq h hexp, recordsOf_append (fun g hg => h.reads g (List.mem_of_mem_drop hg))]
  unfold activeContent at hds
  cases hr : d.read p.active with
  | none =>
    rw [hr] at hds
    obtain rfl : ds = [] := List.map_eq_nil_iff.mp (Option.some.inj hds).symm
    simp [recordsOf, groupsOf]
  | some b =>
    rw [hr, Option.getD_some] at hds
    simp [recordsOf, groupsOf, hr, hds]

theorem noRecords_iff (h : ∀ g ∈ gs, ∃ b, d.read g.1 = some b ∧
    fileRecords rt b = some (g.2.map .obj)) :
    NoRecords rt d (gs.map Prod.fst) ↔ rotatedRecords gs = [] := by
  rw [rotatedRecords, List.flatten_eq_nil_iff]
  constructor
  · intro hn ds hds
    obtain ⟨g, hg, rfl⟩ := List.mem_map.mp hds
    obtain ⟨b, hb, hr⟩ := h g hg
    have hnone := hn g.1 (List.mem_map_of_mem hg) b hb
    rw [hr] at hnone
    exact List.map_eq_nil_iff.mp (Option.some.inj hnone)
  · rintro hn n hm b hb
    obtain ⟨g, hg, rfl⟩ := List.mem_map.mp hm
    obtain ⟨b', hb', hr⟩ := h g hg
    rw [hb] at hb'
    cases hb'
    rw [hr, hn g.2 (List.mem_map_of_mem hg)]
    rfl

/-- No file that stays holds a record, if none is among the records that stay. -/
theorem noRecords_staying_iff (h : RotatedFiles rt p d gs) {mtime : String → Int}
    {cutoff : Int} {k : Nat} (hexp : expired p mtime cutoff d = (gs.map Prod.fst).take k)
    {ds : List Dict} (hds : fileRecords rt (activeContent p d) = some (ds.map .obj)) :
    NoRecords rt d (staying p mtime cutoff d) ↔ rotatedRecords (gs.drop k) ++ ds = [] := by
  have hrotated := noRecords_iff
    (fun g hg => h.reads g (List.mem_of_mem_drop hg) : ∀ g ∈ gs.drop k, _)
  rw [staying_eq h hexp, List.append_eq_nil_iff, ← hrotated]
  unfold activeContent at hds
  cases hr : d.read p.active with
  | none =>
    rw [hr] at hds
    obtain rfl : ds = [] := List.map_eq_nil_iff.mp (Option.some.inj hds).symm
    simp [NoRecords]
  | some b =>
    rw [hr, Option.getD_some] at hds
    simp only [NoRecords, Option.isSome_some, if_true, List.mem_append, List.mem_singleton, or_imp,
      forall_and, forall_eq, hr, Option.some.injEq, forall_eq', hds, List.map_eq_nil_iff]

end Oldest

/-! ## The record of the purge -/

/-- Records that are genuine show their head. -/
theorem head_eq_headOf {key : String} {ds : List Dict} (hg : ∀ e ∈ ds, Genuine rt key e) :
    HashChain.head chainLinks genesis ds = some (headOf ds) ∧ ∃ g, headOf ds = .str g := by
  rcases List.eq_nil_or_concat' ds with rfl | ⟨before, d, rfl⟩
  · exact ⟨rfl, GENESIS, rfl⟩
  · have hhash := (hg d (List.mem_append_right _ (List.mem_singleton_self d))).hash
    have hlast : headOf (before ++ [d]) = .str (digest rt (bodyOf d)) := by
      rw [headOf, List.getLast?_concat, Option.bind_some, hhash]
      rfl
    rw [head_concat, hlast]
    exact ⟨hhash, _, rfl⟩

/-- A genuine record after genuine ones is accepted exactly when they are linked and it
names their head. -/
theorem accepted_concat_iff {key : String} {ds : List Dict} {d : Dict}
    (hg : ∀ e ∈ ds, Genuine rt key e) (hd : Genuine rt key d) : Accepted rt key (ds ++ [d]) ↔
      Linked chainLinks genesis ds ∧ Json.get d "prev_hash" = some (headOf ds) := by
  have hlinks : Linked chainLinks genesis (ds ++ [d]) ↔
      Linked chainLinks genesis ds ∧ Json.get d "prev_hash" = some (headOf ds) := by
    rw [linked_concat, (head_eq_headOf hg).1]
    rfl
  rw [← hlinks]
  refine ⟨fun h => h.linked, fun h => ⟨h, fun e he => ?_⟩⟩
  rcases List.mem_append.mp he with he | he
  · exact hg e he
  · rwa [List.mem_singleton.mp he]

/-- **When what stays is linked.**  Exactly when no record was deleted, or none stays. -/
theorem survivors_linked_iff {key : String} {oldest kept : List Dict}
    (ha : Accepted rt key (oldest ++ kept))
    (hgen : ∀ d ∈ oldest ++ kept, Json.get d "hash" ≠ some (.str GENESIS)) :
    Linked chainLinks genesis kept ↔ oldest = [] ∨ kept = [] := by
  obtain ⟨-, hkept⟩ := linked_append.mp ha.linked
  cases kept with
  | nil => exact iff_of_true trivial (.inr rfl)
  | cons r rs =>
    rw [or_iff_left (List.cons_ne_nil _ _)]
    constructor
    · intro hl
      -- the first survivor names `GENESIS` and the last deleted record at once
      exact head_eq_start (fun r hr => hgen r (List.mem_append_left _ hr)) (hkept.1.symm.trans hl.1)
    · rintro rfl
      exact hkept

/-- A record as `write` builds it, whatever its number and the digest it names. -/
structure PurgeRecord (rt : Runtime) (key : String) (prev : Json) (d : Dict) : Prop where
  prev_hash : Json.get d "prev_hash" = some prev.sortKeys
  genuine : Genuine rt key d
  hash : ∃ g, Json.get d "hash" = some (.str g)

/-- What `_tail_record` returns has each key once. -/
theorem distinctKeys_tail {content : Bytes} {j : Json} (h : tailRecord rt content = .ok (some j)) :
    j.distinctKeys = true := by
  unfold tailRecord at h
  dsimp only at h
  split at h
  · cases h
  · split at h
    · next l _ =>
      cases hl : loadsBytes rt l with
      | error e =>
        rw [hl] at h
        cases h
      | ok k =>
        rw [hl] at h
        obtain rfl := Option.some.inj (Except.ok.inj h)
        unfold loadsBytes loadsText at hl
        split at hl
        · split at hl
          · next hload =>
            obtain rfl := Except.ok.inj hl
            exact rt.loads_distinctKeys _ _ hload
          · cases hl
        · cases hl
    · cases h

theorem distinctKeys_hashOrGenesis {tail : Option Json} {prev : Json}
    (ht : ∀ j ∈ tail, j.distinctKeys = true) (h : hashOrGenesis tail = .ok prev) :
    prev.distinctKeys = true := by
  unfold hashOrGenesis at h
  split at h
  · next j =>
    split at h
    · unfold getItem at h
      split at h
      · next d =>
        split at h
        · next v hv =>
          obtain rfl := Except.ok.inj h
          obtain ⟨-, hall⟩ := Json.distinctKeys_obj_iff.mp (ht _ rfl)
          obtain ⟨before, after, rfl, -⟩ := List.lookup_eq_some_iff.mp hv
          exact hall _ (List.mem_append_right _ List.mem_cons_self)
        · cases h
      · cases h
    · obtain rfl := Except.ok.inj h
      rfl
  · obtain rfl := Except.ok.inj h
    rfl

theorem distinctKeys_nextSeq {tail : Option Json} {n : Json} (h : nextSeq rt tail = .ok n) :
    n.distinctKeys = true := by
  have hone : ∀ j, addOne rt j = .ok n → n.distinctKeys = true := by
    intro j hj
    cases j with
    | int i | bool b | float x =>
      obtain rfl := Except.ok.inj hj
      rfl
    | null | str s | arr xs | obj d => cases hj
  unfold nextSeq at h
  split at h
  · split at h
    · split at h
      · exact hone _ h
      · cases h
    · obtain rfl := Except.ok.inj h
      rfl
  · obtain rfl := Except.ok.inj h
    rfl

/-- **What `write` appends** is the line of a genuine record that names what `head` reads. -/
theorem written_of_appendRecord {log : AuditLog} {e : Entry} {s : Stamp}
    {content : Bytes} {body : Dict} {bytes : Bytes}
    (h : appendRecord rt log e s content = .ok (body, bytes)) :
    ∃ l d tail prev n, bytes = utf8 (l ++ ['\n']) ∧ Recorded rt l d ∧
    PurgeRecord rt log.hmacKey prev d ∧
      Json.get d "tool" = some (.str e.tool) ∧ tailRecord rt content = .ok tail ∧
      head rt content = .ok prev ∧ nextSeq rt tail = .ok n := by
  obtain ⟨tail, prev, n, ht, hp, hn, rfl, rfl⟩ := appendRecord_ok h
  have hdistinct : ∀ j ∈ tail, j.distinctKeys = true := by
    rintro j hj
    rw [Option.mem_def] at hj
    rw [hj] at ht
    exact distinctKeys_tail ht
  have hb : IsBody (recordBody rt log e s n prev) :=
    recordBody_isBody rt log e s (distinctKeys_nextSeq hn) (distinctKeys_hashOrGenesis hdistinct hp)
  refine ⟨_, _, tail, prev, n, rfl, recorded_dumps rt lineStyle (sealed_dict rt log.hmacKey hb),
    ⟨?_, genuine_parsed rt _ hb, _, get_parsed_hash rt _ hb⟩, ?_, ht, ?_, hn⟩
  · exact (get_parsed rt _ hb "prev_hash").trans
      (by rw [get_sealed rt _ (by decide) (by decide)]; rfl)
  · exact (get_parsed rt _ hb "tool").trans
      (by rw [get_sealed rt _ (by decide) (by decide)]; rfl)
  · rw [head, ht]
    exact hp

/-! ## What a purge leaves -/

/-- The world the record of the purge is written to. -/
def purgeWorld (p : ChainPath) (key : String) (cutoff : Int) (h : Host) : World :=
  construct (adminLog p key)
    { h.world with dir := unlinkAll h.world.dir (expired p h.mtime cutoff h.world.dir) }

section Purge

variable {clock : Nat → String} {strftime : Int → String} {p : ChainPath} {key : String}
  {c : PurgeCall} {cutoff : Int} {h : Host}

/-- An applied purge returns exactly if its `write` does, and leaves what that leaves. -/
theorem purge_ok {rec : AuditRecord} {w : World} (happly : c.apply = true)
    (hcut : cutoffTime c.now c.olderThanDays = .ok cutoff)
    (hw : write rt clock (adminLog p key) (purgeWrite strftime p c cutoff h)
      (purgeWorld p key cutoff h) =
      (.ok rec, w)) : ∃ message h', purge rt clock strftime p key c h = (.ok message, h') ∧
      h'.world = w := by
  refine ⟨purgeMessage "purged" c.olderThanDays (strftime cutoff)
      (h.rows.countP (purgeable (strftime cutoff))) (expired p h.mtime cutoff h.world.dir).length,
    ⟨h.rows.filter (fun r => !purgeable (strftime cutoff) r), w, h.mtime⟩, ?_, rfl⟩
  unfold purgeWorld purgeWrite at hw
  simp only [purge, hcut, happly, if_true, hw]

theorem purge_error {err : PyError} (happly : c.apply = true)
    (hcut : cutoffTime c.now c.olderThanDays = .ok cutoff)
    (hw : (write rt clock (adminLog p key) (purgeWrite strftime p c cutoff h)
      (purgeWorld p key cutoff h)).1 = .error err) : (purge rt clock strftime p key c h).1 =
        .error err := by
  obtain ⟨w, hw'⟩ : ∃ w, write rt clock (adminLog p key) (purgeWrite strftime p c cutoff h)
      (purgeWorld p key cutoff h) = (.error err, w) := ⟨_, Prod.ext hw rfl⟩
  unfold purgeWorld purgeWrite at hw'
  simp only [purge, hcut, happly, if_true, hw']

/-- A purge that raises is not sound. -/
theorem not_purgeSound_of_error {err : PyError}
    (he : (purge rt clock strftime p key c h).1 = .error err) :
    ¬ PurgeSound rt clock strftime p key c cutoff h := by
  rintro ⟨message, h', old, kept, d, new, hpurge, -⟩
  rw [hpurge] at he
  cases he

/-- The chain after a sound purge can be read, and is accepted. -/
theorem PurgeSound.accepted {message : String} {h' : Host}
    (hs : PurgeSound rt clock strftime p key c cutoff h)
    (hpurge : purge rt clock strftime p key c h = (.ok message, h')) :
    ∃ ds, chainRecords rt p h'.world.dir = some (ds.map .obj) ∧ Accepted rt key ds := by
  obtain ⟨message', h'', -, -, -, -, hpurge', -, -, -, -, -, -, hok⟩ := hs
  obtain ⟨-, rfl⟩ := Prod.mk.inj (hpurge.symm.trans hpurge')
  exact verify_ok_iff.mp hok

variable {gs : List (String × List Dict)} {ds : List Dict} {k : Nat}

/-- What is known of the chain before the purge: its files are read, and the expired ones are the
oldest. -/
structure PurgeStart (rt : Runtime) (p : ChainPath) (cutoff : Int) (h : Host)
    (gs : List (String × List Dict)) (ds : List Dict) (k : Nat) : Prop where
  files : RotatedFiles rt p h.world.dir gs
  active : fileRecords rt (activeContent p h.world.dir) = some (ds.map .obj)
  expired : expired p h.mtime cutoff h.world.dir = (gs.map Prod.fst).take k

theorem PurgeStart.records (hb : PurgeStart rt p cutoff h gs ds k) :
    chainRecords rt p h.world.dir = some ((rotatedRecords gs ++ ds).map .obj) := by
  have ha := hb.active
  unfold activeContent at ha
  rw [ComplianceMcp.chainRecords, hb.files.chainFiles_eq, recordsOf_append hb.files.reads]
  cases hr : h.world.dir.read p.active with
  | none =>
    rw [hr] at ha
    obtain rfl : ds = [] := List.map_eq_nil_iff.mp (Option.some.inj ha).symm
    simp [recordsOf, groupsOf]
  | some b =>
    rw [hr, Option.getD_some] at ha
    simp [recordsOf, groupsOf, hr, ha]

/-- The purge leaves the active file. -/
theorem PurgeStart.content (hb : PurgeStart rt p cutoff h gs ds k) :
    activeContent p h.world.dir = ((purgeWorld p key cutoff h).dir.read p.active).getD [] := by
  have hactive : p.active ∉ (gs.map Prod.fst).take k := fun hm =>
    hb.files.ne_active (List.mem_of_mem_take hm) rfl
  show _ = (((unlinkAll h.world.dir _).touch p.active []).read p.active).getD []
  rw [Dir.read_touch, if_pos rfl, Option.getD_some, hb.expired, read_unlinkAll, if_neg hactive]
  rfl

/-- The rotated files that the purge leaves. -/
theorem PurgeStart.left (hb : PurgeStart rt p cutoff h gs ds k) :
    RotatedFiles rt p (purgeWorld p key cutoff h).dir (gs.drop k) := by
  have hleft := hb.files.unlinkOldest k
  rw [← hb.expired] at hleft
  refine hleft.congr fun n hn => ?_
  show ((unlinkAll h.world.dir _).touch p.active []).read n = _
  rw [Dir.read_touch, if_neg hn]

/-- A chain of what stays and the record of the purge, with or without a marker, makes a sound
purge. -/
theorem purgeSound_of_chain (hb : PurgeStart rt p cutoff h gs ds k) {message : String} {h' : Host}
    (hpurge : purge rt clock strftime p key c h = (.ok message, h')) {d : Dict} {new : List Dict}
    (hrecs : chainRecords rt p h'.world.dir =
      some ((rotatedRecords (gs.drop k) ++ ds ++ d :: new).map .obj))
    (htool : Json.get d "tool" = some (.str "retention_purge"))
    (hnew : new = [] ∨ ∃ file m, new = [m] ∧ isMarker file m = true) :
    PurgeSound rt clock strftime p key c cutoff h ↔
      Accepted rt key (rotatedRecords (gs.drop k) ++ ds ++ d :: new) := by
  constructor
  · intro hs
    obtain ⟨zs, hzs, ha⟩ := hs.accepted hpurge
    rwa [obj_map_injective (Option.some.inj (hrecs.symm.trans hzs))]
  · intro ha
    refine ⟨message, h', _, _, d, new, hpurge, hb.records,
      recordsOf_staying hb.files hb.expired hb.active, ?_, hrecs, htool, hnew,
      verify_ok_iff.mpr ⟨_, hrecs, ha⟩⟩
    rw [← List.take_append_drop k gs, rotatedRecords_append, List.append_assoc]
    simp only [List.take_append_drop]
    exact List.suffix_append _ _

/-- The record of the purge is accepted after what stays exactly if that is linked and `head` finds
its head in the active file. -/
theorem accepted_record_iff (ha : Accepted rt key (rotatedRecords gs ++ ds))
    (hgen : ∀ d ∈ rotatedRecords gs ++ ds, Json.get d "hash" ≠ some (.str GENESIS))
    {prev : Json} {d : Dict} (hd : PurgeRecord rt key prev d) :
    Accepted rt key (rotatedRecords (gs.drop k) ++ ds ++ [d]) ↔
      (rotatedRecords (gs.take k) = [] ∨ rotatedRecords (gs.drop k) ++ ds = []) ∧
        prev = headOf (rotatedRecords (gs.drop k) ++ ds) := by
  have hsplit : rotatedRecords gs ++ ds = rotatedRecords (gs.take k) ++
      (rotatedRecords (gs.drop k) ++ ds) := by
    rw [← List.append_assoc, ← rotatedRecords_append, List.take_append_drop]
  rw [hsplit] at ha hgen
  have hg : ∀ e ∈ rotatedRecords (gs.drop k) ++ ds, Genuine rt key e :=
    fun e he => ha.genuine e (List.mem_append_right _ he)
  obtain ⟨-, g, hhead⟩ := head_eq_headOf hg
  rw [accepted_concat_iff hg hd.genuine, survivors_linked_iff ha hgen, hd.prev_hash, hhead,
    Option.some.injEq]
  refine and_congr_right fun _ => ?_
  cases prev with
  | str s => exact Iff.rfl
  | _ => exact iff_of_false (fun h => by cases h) (fun h => by cases h)

/-- A marker that names the last record changes nothing. -/
theorem accepted_marker_iff {zs : List Dict} {d m : Dict} {g : String}
    (hd : Json.get d "hash" = some (.str g)) (hm : Stored rt key g m) :
    Accepted rt key (zs ++ d :: [m]) ↔ Accepted rt key (zs ++ [d]) := by
  rw [List.append_cons]
  refine ⟨fun ha => ⟨(linked_append.mp ha.linked).1, fun e he =>
    ha.genuine e (List.mem_append_left _ he)⟩, fun ha => ha.concat ?_ hm⟩
  rw [head_concat]
  exact hd

theorem Finished.of_lineFeed {content : Bytes} (hf : Finished isLineFeed content) :
    Finished isLineEnd content := by
  obtain ⟨t, ht, hw⟩ := hf
  have hends : ∀ c, isLineFeed c = true → isLineEnd c = true := fun c hc => by
    rw [isLineEnd, Bool.or_eq_true]
    exact .inl hc
  exact ⟨t, ht, List.all_eq_true.mpr fun x hx =>
    List.all_eq_true.mp hw x (afterLast_subset hends t hx)⟩

/-- Where the file is not rotated, the record of the purge has to be read back as a line of its
own. -/
theorem purgeSound_below (hb : PurgeStart rt p cutoff h gs ds k) (happly : c.apply = true)
    (hcut : cutoffTime c.now c.olderThanDays = .ok cutoff) {body d : Dict} {l : Text}
    (happ : appendRecord rt (adminLog p key) (purgeWrite strftime p c cutoff h).entry c.stamp
      (activeContent p h.world.dir) = .ok (body, utf8 (l ++ ['\n'])))
    (hl : Recorded rt l d) (htool : Json.get d "tool" = some (.str "retention_purge"))
    (hsize : ¬ (adminLog p key).rotateBytes ≤
      (activeContent p h.world.dir ++ utf8 (l ++ ['\n'])).length) :
    PurgeSound rt clock strftime p key c cutoff h ↔
      Accepted rt key (rotatedRecords (gs.drop k) ++ ds ++ [d]) ∧
        Finished isLineEnd (activeContent p h.world.dir) := by
  obtain ⟨hverify, hraise⟩ := fileRecords_append hl hb.active
  obtain ⟨w, hwrite, hread⟩ := @write_below _ _ clock _ _ _ _ _ hb.content happ hsize
  obtain ⟨message, h', hpurge, rfl⟩ := purge_ok happly hcut hwrite
  have hchain := (hb.left.congr fun n hn => (hread n).trans (if_neg hn)).chainRecords
    ((hread p.active).trans (if_pos rfl))
  by_cases hf : Finished isLineEnd (activeContent p h.world.dir)
  · rw [hverify hf, Option.map_some, ← List.map_append, ← List.append_assoc] at hchain
    rw [purgeSound_of_chain hb hpurge hchain htool (.inl rfl), and_iff_left hf]
  · rw [hraise hf] at hchain
    refine iff_of_false (fun hs => ?_) fun hc => hf hc.2
    obtain ⟨zs, hzs, -⟩ := hs.accepted hpurge
    rw [hchain] at hzs
    cases hzs

/-- Where the file is rotated, `_rotate` has to find the record of the purge in it, to name it in
the marker. -/
theorem purgeSound_rotated (hb : PurgeStart rt p cutoff h gs ds k)
    (hlt : ∀ n ∈ gs.map Prod.fst, n < p.rotated (clock h.world.rotations)) (happly : c.apply = true)
    (hcut : cutoffTime c.now c.olderThanDays = .ok cutoff) {body d : Dict} {l : Text} {prev : Json}
    {tail : Option Json}
    (happ : appendRecord rt (adminLog p key) (purgeWrite strftime p c cutoff h).entry c.stamp
      (activeContent p h.world.dir) = .ok (body, utf8 (l ++ ['\n'])))
    (hl : Recorded rt l d) (hd : PurgeRecord rt key prev d)
    (htool : Json.get d "tool" = some (.str "retention_purge"))
    (ht : tailRecord rt (activeContent p h.world.dir) = .ok tail)
    (hsize : (adminLog p key).rotateBytes ≤
      (activeContent p h.world.dir ++ utf8 (l ++ ['\n'])).length) :
    PurgeSound rt clock strftime p key c cutoff h ↔
      Accepted rt key (rotatedRecords (gs.drop k) ++ ds ++ [d]) ∧
        Finished isLineFeed (activeContent p h.world.dir) := by
  obtain ⟨hfound, hlost⟩ := tailRecord_append hl hb.active
  by_cases hf : Finished isLineFeed (activeContent p h.world.dir)
  · obtain ⟨g, hg⟩ := hd.hash
    have hhead : head rt (activeContent p h.world.dir ++ utf8 (l ++ ['\n'])) = .ok (.str g) := by
      rw [head, hfound hf]
      simp only [bind, Except.bind, hashOrGenesis, truthy_obj hg, if_true, getItem, hg]
    obtain ⟨w, hwrite, hread⟩ := @write_rotates _ _ clock _ _ _ _ _ hb.content happ hsize _ hhead
    obtain ⟨message, h', hpurge, rfl⟩ := purge_ok happly hcut hwrite
    obtain ⟨m, hmark⟩ : ∃ m, m = writtenMarker rt (adminLog p key)
      (purgeWrite strftime p c cutoff h) (p.rotated (clock h.world.rotations)) g := ⟨_, rfl⟩
    have hm : Stored rt key g m := by
      rw [hmark]
      exact stored_marker rt (adminLog p key) c.markerStamp (p.rotated (clock h.world.rotations)) g
    have hne := rotated_ne_active p (clock h.world.rotations)
    have hverify := (fileRecords_append hl hb.active).1 hf.of_lineFeed
    have hfiles := hb.left.archive (isRotated_rotated p _)
      (fun n hn => hlt n (List.map_subset _ (List.drop_subset _ _) hn))
      ((hread _).trans ((if_neg hne).trans (if_pos rfl))) hverify
      (fun n ha hn => (hread n).trans ((if_neg ha).trans (if_neg hn)))
    have hchain := hfiles.chainRecords ((hread p.active).trans (if_pos rfl))
    have hmarker : fileRecords rt (markerBytes rt (adminLog p key) c.markerStamp
        (p.rotated (clock h.world.rotations)) (.str g)) = some [.obj m] := by
      rw [hmark]
      exact fileRecords_of_holds
        (appended_holds holds_nil markerStyle key (markerBody_isBody _ _ _ rfl))
    have hrecords : chainRecords rt p h'.world.dir =
        some ((rotatedRecords (gs.drop k) ++ ds ++ d :: [m]).map .obj) := by
      refine hchain.trans ((congrArg (Option.map _) hmarker).trans ?_)
      rw [rotatedRecords_append]
      simp [rotatedRecords]
    have hismarker : isMarker (p.rotated (clock h.world.rotations)) m = true := by
      rw [hmark]
      exact isMarker_writtenMarker _ _ _ _
    rw [purgeSound_of_chain hb hpurge hrecords htool (.inr ⟨_, m, rfl, hismarker⟩),
      accepted_marker_iff hg hm, and_iff_left hf]
  · obtain ⟨e, he⟩ := hlost hf tail ht
    have hhead : head rt (activeContent p h.world.dir ++ utf8 (l ++ ['\n'])) = .error e := by
      rw [head, he]
      rfl
    exact iff_of_false (not_purgeSound_of_error (purge_error happly hcut
      (write_not_rotated hb.content happ hsize hhead))) fun hc => hf hc.2

/-- **When a purge is sound**, on a chain whose files are known. -/
theorem purgeSound_iff (hb : PurgeStart rt p cutoff h gs ds k)
    (ha : Accepted rt key (rotatedRecords gs ++ ds))
    (hgen : ∀ d ∈ rotatedRecords gs ++ ds, Json.get d "hash" ≠ some (.str GENESIS))
    (hlt : ∀ n ∈ gs.map Prod.fst, n < p.rotated (clock h.world.rotations)) (happly : c.apply = true)
    (hcut : cutoffTime c.now c.olderThanDays = .ok cutoff) :
    PurgeSound rt clock strftime p key c cutoff h ↔
      (rotatedRecords (gs.take k) = [] ∨ rotatedRecords (gs.drop k) ++ ds = []) ∧
        head rt (activeContent p h.world.dir) = .ok (headOf (rotatedRecords (gs.drop k) ++ ds)) ∧
        (∃ tail n, tailRecord rt (activeContent p h.world.dir) = .ok tail ∧
          nextSeq rt tail = .ok n) ∧
        Finished isLineEnd (activeContent p h.world.dir) ∧
        (Fills rt strftime p key c cutoff h →
          Finished isLineFeed (activeContent p h.world.dir)) := by
  cases happ : appendRecord rt (adminLog p key) (purgeWrite strftime p c cutoff h).entry c.stamp
      (activeContent p h.world.dir) with
  | error err =>
    refine iff_of_false (not_purgeSound_of_error
      (purge_error happly hcut (write_error hb.content happ))) ?_
    rintro ⟨-, hh, ⟨tail, n, ht, hn⟩, -⟩
    rw [head, ht] at hh
    have hh' : hashOrGenesis tail = .ok _ := hh
    simp only [appendRecord, ht, bind, Except.bind, hh', hn] at happ
    cases happ
  | ok appended =>
    obtain ⟨body, bytes⟩ := appended
    obtain ⟨l, d, tail, prev, n, rfl, hl, hd, htool, ht, hh, hn⟩ := written_of_appendRecord happ
    have hrecord := accepted_record_iff (k := k) ha hgen hd
    have hnames : head rt (activeContent p h.world.dir) =
      .ok (headOf (rotatedRecords (gs.drop k) ++ ds)) ↔
        prev = headOf (rotatedRecords (gs.drop k) ++ ds) := by
      rw [hh, Except.ok.injEq]
    have hfills : Fills rt strftime p key c cutoff h ↔ (adminLog p key).rotateBytes ≤
        (activeContent p h.world.dir ++ utf8 (l ++ ['\n'])).length := by
      constructor
      · rintro ⟨body', bytes', happ', hsize⟩
        rw [happ] at happ'
        cases happ'
        exact hsize
      · exact fun hsize => ⟨_, _, happ, hsize⟩
    have hcounts : ∃ tail n, tailRecord rt (activeContent p h.world.dir) = .ok tail ∧
        nextSeq rt tail = .ok n := ⟨tail, n, ht, hn⟩
    rw [hnames, hfills, and_iff_right hcounts, ← and_assoc, ← hrecord]
    by_cases hsize : (adminLog p key).rotateBytes ≤
        (activeContent p h.world.dir ++ utf8 (l ++ ['\n'])).length
    · rw [purgeSound_rotated hb hlt happly hcut happ hl hd htool ht hsize]
      exact and_congr_right fun _ => ⟨fun hf => ⟨hf.of_lineFeed, fun _ => hf⟩, fun hf => hf.2 hsize⟩
    · rw [purgeSound_below hb happly hcut happ hl htool hsize]
      exact and_congr_right fun _ => ⟨fun hf => ⟨hf, fun hfull => absurd hfull hsize⟩, And.left⟩

/-- A file of the writer's own lines leaves none open. -/
theorem Holds.finished {content : Bytes} {es : List Dict} (he : Holds rt content es) :
    Finished isLineFeed content := by
  obtain ⟨ls, rfl, -⟩ := he
  refine ⟨unlines ls, decodeUtf8_utf8 _, ?_⟩
  rcases List.eq_nil_or_concat' ls with rfl | ⟨before, l, rfl⟩
  · rfl
  · rw [afterLast, unlines_append, unlines_cons, unlines_nil, List.reverse_append,
      List.reverse_append, List.reverse_singleton, List.append_assoc, List.singleton_append,
      List.takeWhile_cons_of_neg (by decide)]
    rfl

/-- **When a purge is sound on a log that only `AuditLog` wrote.**  With records in the active file,
exactly when no record is deleted; without, exactly when none stays. -/
theorem purgeSound_iff_of_holds (hb : PurgeStart rt p cutoff h gs ds k)
    (ha : Accepted rt key (rotatedRecords gs ++ ds))
    (hgen : ∀ d ∈ rotatedRecords gs ++ ds, Json.get d "hash" ≠ some (.str GENESIS))
    (hlt : ∀ n ∈ gs.map Prod.fst, n < p.rotated (clock h.world.rotations)) (happly : c.apply = true)
    (hcut : cutoffTime c.now c.olderThanDays = .ok cutoff)
    (hds : Holds rt (activeContent p h.world.dir) ds) (hlast : ∀ d ∈ ds.getLast?, Numbered d) :
    PurgeSound rt clock strftime p key c cutoff h ↔
      if ds = [] then rotatedRecords (gs.drop k) = [] else rotatedRecords (gs.take k) = [] := by
  obtain ⟨prev, hprev, hhead⟩ := head_of_holds hds hlast
  have hcounts : ∃ tail n, tailRecord rt (activeContent p h.world.dir) = .ok tail ∧
      nextSeq rt tail = .ok n := ⟨_, _, tailRecord_of_holds hds, nextSeq_last hlast⟩
  have hsub : ∀ e ∈ rotatedRecords (gs.drop k) ++ ds, e ∈ rotatedRecords gs ++ ds := by
    intro e he
    rw [← List.take_append_drop k gs, rotatedRecords_append, List.append_assoc]
    exact List.mem_append_right _ (by simpa using he)
  have hkept := (head_eq_headOf (fun e he => ha.genuine e (hsub e he))).1
  have hended : Finished isLineEnd (activeContent p h.world.dir) ∧
      (Fills rt strftime p key c cutoff h → Finished isLineFeed (activeContent p h.world.dir)) :=
    ⟨hds.finished.of_lineFeed, fun _ => hds.finished⟩
  rw [purgeSound_iff hb ha hgen hlt happly hcut, hhead, Except.ok.injEq, and_iff_right hcounts,
    and_iff_left hended]
  split
  · next hnil =>
    subst hnil
    rw [List.append_nil] at hkept hsub ⊢
    obtain rfl : GENESIS = prev := Json.str.inj (Option.some.inj hprev)
    constructor
    · rintro ⟨-, hh⟩
      exact head_eq_start (fun r hr => hgen r (hsub r hr)) (hkept.trans (congrArg some hh.symm))
    · intro hnone
      rw [hnone]
      exact ⟨.inr rfl, rfl⟩
  · next hne =>
    have hsuffix := @head_suffix (rotatedRecords (gs.drop k)) ds (fun h => absurd h hne)
    rw [or_iff_left (List.append_ne_nil_of_right_ne_nil _ hne), and_iff_left
      (Option.some.inj (hprev.symm.trans (hsuffix.trans hkept)))]

end Purge

/-- **When the chain survives a purge.**  Take any chain that `verify` accepts, the modification
times of whose rotated files do not decrease.  After `purge --apply` it verifies, and is what stayed
and the record of the purge, exactly when no deleted file held a record or no file that stays does,
and the active file can be continued: `head` finds the head of what stays in it, at a record that
can be counted on, and no line is left open. -/
theorem purge_verifies_iff (rt : Runtime) (clock : Nat → String) (strftime : Int → String)
    (p : ChainPath) (key : String) (c : PurgeCall) (cutoff : Int) (h : Host)
    (hok : ∃ r, verify rt p h.world.dir key = .ok r ∧ r.ok = true)
    (hmtime : (chainFiles p h.world.dir).dropLast.Pairwise (fun a b => h.mtime a ≤ h.mtime b))
    (hclock : ∀ n ∈ chainFiles p h.world.dir, n ≠ p.active →
      n < p.rotated (clock h.world.rotations))
    (hgen : ∀ d, Appears rt p h.world.dir d → Json.get d "hash" ≠ some (.str GENESIS))
    (happly : c.apply = true) (hcut : cutoffTime c.now c.olderThanDays = .ok cutoff) :
    PurgeSound rt clock strftime p key c cutoff h ↔ Survives rt strftime p key c cutoff h := by
  obtain ⟨old, hold, ha⟩ := verify_ok_iff.mp hok
  obtain ⟨gs, ds, hfiles, hds, rfl⟩ := files_of_chainRecords hold
  obtain ⟨k, hexp⟩ := expired_eq_take hfiles cutoff hmtime
  have hlt : ∀ n ∈ gs.map Prod.fst, n < p.rotated (clock h.world.rotations) := by
    intro n hn
    refine hclock n ?_ (hfiles.ne_active hn)
    rw [hfiles.chainFiles_eq]
    exact List.mem_append_left _ hn
  have hdeleted : NoRecords rt h.world.dir (expired p h.mtime cutoff h.world.dir) ↔
      rotatedRecords (gs.take k) = [] := by
    rw [hexp, ← List.map_take]
    exact noRecords_iff fun g hg => hfiles.reads g (List.mem_of_mem_take hg)
  have hstay := noRecords_staying_iff hfiles hexp hds
  have hkept := recordsOf_staying hfiles hexp hds
  rw [purgeSound_iff ⟨hfiles, hds, hexp⟩ ha (fun d hd => hgen d (appears_of_mem hold hd))
    hlt happly hcut, ← hdeleted, ← hstay]
  constructor
  · rintro ⟨hwhole, hhead, hcounts, hfinished, hrotation⟩
    exact ⟨hwhole, ⟨_, hkept, hhead⟩, hcounts, hfinished, hrotation⟩
  · rintro ⟨hwhole, ⟨kept, hk, hhead⟩, hcounts, hfinished, hrotation⟩
    obtain rfl := obj_map_injective (Option.some.inj (hk.symm.trans hkept))
    exact ⟨hwhole, hhead, hcounts, hfinished, hrotation⟩

/-! ## A purge that deletes the first file -/

/-- A purge of everything older than nine days. -/
def samplePurge : PurgeCall where
  now := 864000000000
  olderThanDays := 9
  apply := true
  stamp := ⟨"p", "2025-03-01T00:00:00Z"⟩
  markerStamp := ⟨"p-m", "2025-03-01T00:00:00Z"⟩

theorem samplePurge_cutoff :
    cutoffTime samplePurge.now samplePurge.olderThanDays = .ok 86400000000 := by
  decide

/-- The rotated file was last written at the given time, the active one just now. -/
def sampleMtime (rotatedAt : Int) (n : String) : Int :=
  if n = sampleLog.path.active then 864000000000 else rotatedAt

/-- What the sample's run leaves. -/
def sampleWorld : World := (runOps Runtime.python sampleClock sampleOps World.empty).2

/-- The sample's two files with the given time for the rotated one. -/
def sampleHost (rotatedAt : Int) : Host := ⟨[], sampleWorld, sampleMtime rotatedAt⟩

/-- The clock at the time of the purge. -/
def purgeClock : Nat → String := fun _ => "20250101T000000.000000002Z"

theorem sampleWorld_represents :
    Represents Runtime.python sampleLog.path sampleWorld.dir sampleLedger := by
  obtain ⟨outcomes, w, hrun, hw⟩ := sample_run
  have hworld : sampleWorld = w := by rw [sampleWorld, hrun]
  rwa [hworld]

theorem sample_chainFiles : chainFiles sampleLog.path sampleWorld.dir =
    ["audit.20250101T000000.000000001Z.jsonl", sampleLog.path.active] := by
  have ha := sampleWorld_represents.active
  rw [sampleWorld_represents.chainFiles_eq]
  cases hr : sampleWorld.dir.read sampleLog.path.active with
  | some b => rfl
  | none =>
    rw [hr] at ha
    exact absurd ha.no_records (List.cons_ne_nil _ _)

theorem sampleLedger_accepted : Accepted Runtime.python "k" sampleLedger.records := by
  have hst : Stored Runtime.python "k" GENESIS (stored Runtime.python "k" sampleBody) :=
    stored_record Runtime.python sampleLog (sampleCall "a").entry (sampleCall "a").stamp 1 GENESIS
  have hmark : Stored Runtime.python "k" sampleHash (stored Runtime.python "k" sampleMarkerBody) :=
    stored_marker Runtime.python sampleLog (sampleCall "a").markerStamp
      "audit.20250101T000000.000000001Z.jsonl" sampleHash
  have hfirst : Accepted Runtime.python "k" [stored Runtime.python "k" sampleBody] :=
    ((Ledger.Sound.empty Runtime.python "k").append rfl hst).accepted
  refine hfirst.concat ?_ hmark
  exact (get_parsed_hash _ _ sampleBody_isBody).trans
    (congrArg (fun s => some (Json.str s)) digest_sampleBody)

theorem sampleLedger_continues : sampleLedger.Continues := by
  have hmark := stored_marker Runtime.python sampleLog (sampleCall "a").markerStamp
    "audit.20250101T000000.000000001Z.jsonl" sampleHash
  intro d hd
  cases hd
  exact hmark.numbered

theorem sample_not_genesis (d : Dict)
    (hd : Appears Runtime.python sampleLog.path sampleWorld.dir d) :
    Json.get d "hash" ≠ some (.str GENESIS) := by
  have hw := sampleWorld_represents
  have hg := sampleLedger_accepted.genuine d (hw.appears_iff.mp hd)
  intro h
  rw [hg.hash] at h
  exact (sample_unforgeable hw).not_genesis d hd (Json.str.inj (Option.some.inj h))

theorem sample_before {rotatedAt : Int} {k : Nat}
    (hexp : expired sampleLog.path (sampleMtime rotatedAt)
    86400000000 sampleWorld.dir = (sampleLedger.archived.map Prod.fst).take k) :
    PurgeStart Runtime.python sampleLog.path 86400000000 (sampleHost rotatedAt)
      sampleLedger.archived
      sampleLedger.active k where
  files := ⟨sampleWorld_represents.sorted, sampleWorld_represents.rotated, fun g hg => by
    obtain ⟨b, hb, hh⟩ := sampleWorld_represents.archived g hg
    exact ⟨b, hb, fileRecords_of_holds hh⟩⟩
  active := fileRecords_of_holds sampleWorld_represents.active
  expired := hexp

theorem sample_late : expired sampleLog.path (sampleMtime 0) 86400000000 sampleWorld.dir =
    (sampleLedger.archived.map Prod.fst).take 1 := by
  rw [expired, sample_chainFiles]
  rfl

theorem sample_early : expired sampleLog.path (sampleMtime 864000000000) 86400000000
    sampleWorld.dir =
    (sampleLedger.archived.map Prod.fst).take 0 := by
  rw [expired, sample_chainFiles]
  rfl

/-- The early purge deletes nothing and writes its record after the marker. -/
theorem sample_survives :
    Survives Runtime.python (fun _ => "1970-01-02T00:00:00Z") sampleLog.path "k"
    samplePurge 86400000000 (sampleHost 864000000000) := by
  have hactive : Holds Runtime.python (activeContent sampleLog.path sampleWorld.dir)
      sampleLedger.active :=
    sampleWorld_represents.active
  obtain ⟨prev, hprev, hhead⟩ := head_of_holds hactive sampleLedger_continues
  have hb := sample_before sample_early
  constructor
  case whole =>
    refine .inl fun n hn => ?_
    have hnone : n ∈ ([] : List String) := by
      rwa [show expired sampleLog.path (sampleHost 864000000000).mtime 86400000000
        (sampleHost 864000000000).world.dir = [] from sample_early] at hn
    cases hnone
  case head =>
    refine ⟨_, recordsOf_staying hb.files hb.expired hb.active, hhead.trans (congrArg Except.ok ?_)⟩
    rw [show sampleLedger.active = [] ++ [stored Runtime.python "k" sampleMarkerBody] from rfl,
      head_concat] at hprev
    rw [show sampleLedger.active = [stored Runtime.python "k" sampleMarkerBody] from rfl, headOf,
      List.getLast?_concat]
    exact (congrArg (Option.getD · _) hprev).symm
  case counts => exact ⟨_, _, tailRecord_of_holds hactive, nextSeq_last sampleLedger_continues⟩
  case finished => exact hactive.finished.of_lineFeed
  case rotation => exact fun _ => hactive.finished

theorem sample_mtimes (rotatedAt : Int) : (chainFiles sampleLog.path
    (sampleHost rotatedAt).world.dir).dropLast.Pairwise
      (fun a b => (sampleHost rotatedAt).mtime a ≤ (sampleHost rotatedAt).mtime b) := by
  show (chainFiles sampleLog.path sampleWorld.dir).dropLast.Pairwise _
  rw [sample_chainFiles]
  exact List.pairwise_singleton _ _

theorem sample_names (rotatedAt : Int) :
    ∀ n ∈ chainFiles sampleLog.path (sampleHost rotatedAt).world.dir, n ≠ sampleLog.path.active →
      n < sampleLog.path.rotated (purgeClock (sampleHost rotatedAt).world.rotations) := by
  show ∀ n ∈ chainFiles sampleLog.path sampleWorld.dir, n ≠ sampleLog.path.active →
    n < sampleLog.path.rotated "20250101T000000.000000002Z"
  rw [sample_chainFiles]
  decide

/-- A purge that comes early deletes nothing and leaves a chain that verifies; a late one does
not. -/
theorem purge_verifies_iff_sample :
    PurgeSound Runtime.python purgeClock (fun _ => "1970-01-02T00:00:00Z") sampleLog.path
      "k" samplePurge
      86400000000 (sampleHost 864000000000) ∧
    ¬ PurgeSound Runtime.python purgeClock (fun _ => "1970-01-02T00:00:00Z") sampleLog.path
      "k" samplePurge
      86400000000 (sampleHost 0) := by
  have hok : ∃ r, verify Runtime.python sampleLog.path sampleWorld.dir "k" = .ok r ∧ r.ok = true :=
    (verify_ok_iff_accepted sampleWorld_represents.chainRecords).mpr sampleLedger_accepted
  have hearly := purge_verifies_iff Runtime.python purgeClock (fun _ => "1970-01-02T00:00:00Z")
    sampleLog.path "k" samplePurge 86400000000 (sampleHost 864000000000) hok (sample_mtimes _)
    (sample_names _) sample_not_genesis rfl samplePurge_cutoff
  have hlate := purge_verifies_iff Runtime.python purgeClock (fun _ => "1970-01-02T00:00:00Z")
    sampleLog.path "k" samplePurge 86400000000 (sampleHost 0) hok (sample_mtimes _)
    (sample_names _) sample_not_genesis rfl samplePurge_cutoff
  refine ⟨hearly.mpr sample_survives, fun hs => ?_⟩
  have hb := sample_before sample_late
  rcases (hlate.mp hs).whole with hnone | hnone
  · rw [hb.expired, ← List.map_take,
      noRecords_iff (fun g hg => hb.files.reads g (List.mem_of_mem_take hg))]
      at hnone
    cases hnone
  · rw [noRecords_staying_iff hb.files hb.expired hb.active] at hnone
    cases hnone

/-- **A purge that deletes a file with records breaks the chain.**  The chain of two files
verifies; the first is older than the cutoff, the purge deletes it and returns, and the
survivors name a record that is gone. -/
theorem purge_breaks_chain :
    (∃ r, verify Runtime.python sampleLog.path sampleWorld.dir "k" = .ok r ∧ r.ok = true) ∧
    ¬ PurgeSound Runtime.python purgeClock (fun _ => "1970-01-02T00:00:00Z") sampleLog.path
      "k" samplePurge
      86400000000 (sampleHost 0) := by
  refine ⟨(verify_ok_iff_accepted sampleWorld_represents.chainRecords).mpr sampleLedger_accepted,
    fun hs => ?_⟩
  have hlt : ∀ n ∈ sampleLedger.archived.map Prod.fst,
      n < sampleLog.path.rotated (purgeClock (sampleHost 0).world.rotations) := by
    intro n hn
    rw [List.mem_singleton.mp hn]
    show _ < sampleLog.path.rotated "20250101T000000.000000002Z"
    decide
  have hcond := (purgeSound_iff_of_holds (sample_before sample_late) sampleLedger_accepted
    (fun d hd => sample_not_genesis d (sampleWorld_represents.appears_iff.mpr hd)) hlt rfl
    samplePurge_cutoff sampleWorld_represents.active sampleLedger_continues).mp hs
  have hne : sampleLedger.active ≠ [] := List.cons_ne_nil _ _
  rw [if_neg hne] at hcond
  cases hcond

end ComplianceMcp
