import ComplianceMcp.AuditSequence
import ComplianceMcp.Steps

/-! # Anchors

Every `anchor_every` records `write` forwards the head of the chain to the external sink,
so that the archive can tell when the tail of the local file was cut off.  When an anchor
is due is decided by the number of the record, which `write` reads off the tail of the
active file.  As long as the file is not rotated the numbers are consecutive and one in
`anchor_every` is anchored (`anchors_unrotated`).  A rotation puts a marker with number 0
at the tail: the count starts again, and the marker itself is never forwarded. -/
namespace ComplianceMcp

open PyJson PyText Files HashChain Steps

/-! ## What the sink sees -/

/-- The sink reads the payload as an anchor of the digest. -/
def IsAnchor (rt : Runtime) (h : Json) (payload : Bytes) : Prop :=
  ∃ d, loadsBytes rt payload = .ok (.obj d) ∧ Json.get d "type" = some (.str "anchor") ∧
    Json.get d "head" = some h

/-- The sink reads the payload as the record with the digest. -/
def IsRecord (rt : Runtime) (h : Json) (payload : Bytes) : Prop :=
  ∃ d, loadsBytes rt payload = .ok (.obj d) ∧ Json.get d "type" = none ∧
    Json.get d "hash" = some h

/-- In the order of enqueueing, the record with the digest is followed by its anchor. -/
def Anchored (rt : Runtime) (spool : List Bytes) (h : Json) : Prop :=
  ∃ r a, [r, a] <:+: spool ∧ IsRecord rt h r ∧ IsAnchor rt h a

/-- The writes of one instance so far: the world, and the records they returned. -/
structure Session where
  world : World
  returned : List AuditRecord

/-- Nothing has been written yet. -/
def Session.start : Session := ⟨World.empty, []⟩

/-- One more write; there is no step where it raises. -/
def writeStep (rt : Runtime) (clock : Nat → String) (log : AuditLog) (s : Session) (c : Call) :
    Option Session :=
  match write rt clock log c s.world with
  | (.ok rec, w) => some ⟨w, s.returned ++ [rec]⟩
  | (.error _, _) => none

/-- The file stays below its bound, so the write does not rotate it. -/
def BelowBound (rt : Runtime) (log : AuditLog) (s : Session) (c : Call) : Prop :=
  ∀ body bytes, appendRecord rt log c.entry c.stamp ((s.world.dir.read log.path.active).getD []) =
      .ok (body, bytes) →
    ((((s.world.dir.read log.path.active).getD []) ++ bytes).length : Int) < log.rotateBytes

instance (rt : Runtime) (log : AuditLog) (s : Session) (c : Call) :
    Decidable (BelowBound rt log s c) :=
  match happ : appendRecord rt log c.entry c.stamp ((s.world.dir.read log.path.active).getD []) with
  | .error _ => isTrue (fun _ _ h => by rw [happ] at h; cases h)
  | .ok (_, bytes) =>
    decidable_of_iff ((((s.world.dir.read log.path.active).getD [] ++ bytes).length : Int) <
      log.rotateBytes) ⟨fun hlt _ _ h => by
        rw [happ] at h; cases h; exact hlt, fun hall => hall _ _ happ⟩

/-- Among any `n` consecutive writes one is followed by the anchor of its digest. -/
def Cadence (rt : Runtime) (n : Nat) (s : Session) : Prop :=
  ∀ i, i + n ≤ s.returned.length →
    ∃ (j : Nat) (rec : AuditRecord), i ≤ j ∧ j < i + n ∧ s.returned[j]? = some rec ∧
      Anchored rt s.world.spool rec.hash

/-- Fewer than `n` records at the end of the chain are not covered by an anchor. -/
def Covered (rt : Runtime) (p : ChainPath) (n : Nat) (s : Session) : Prop :=
  ∃ pre post : List Dict, chainRecords rt p s.world.dir = some ((pre ++ post).map .obj) ∧
    post.length < n ∧ ∀ d ∈ pre.getLast?, ∃ h, Json.get d "hash" = some h ∧
      Anchored rt s.world.spool h

variable {rt : Runtime}

theorem Anchored.mono {xs ys zs : List Bytes} {h : Json} (ha : Anchored rt ys h) :
    Anchored rt (xs ++ ys ++ zs) h := by
  obtain ⟨r, a, hi, hr⟩ := ha
  exact ⟨r, a, hi.trans (List.infix_append xs ys zs), hr⟩

/-! ## The payloads of a record -/

theorem loadsBytes_canonical {d : Dict} (hd : (Json.obj d).distinctKeys = true) :
    loadsBytes rt (canonical d) = .ok (.obj (Json.sortedFields d)) := by
  rw [canonical, loadsBytes_utf8, loadsText, (recorded_dumps rt canonicalStyle hd).loads]

/-- A field of a `dict` reads back from its canonical text. -/
theorem get_canonical {d : Dict} (hd : (Json.obj d).distinctKeys = true) (k : String) :
    Json.get (Json.sortedFields d) k = (Json.get d k).map Json.sortKeys :=
  Json.get_sortedFields (Json.distinctKeys_obj_iff.mp hd).1 k

section Payloads

variable (log : AuditLog) (c : Call) (n : Int) (prev : String)

/-- The digest of the record a call writes. -/
def writtenHash (rt : Runtime) : Json := .str (digest rt (writtenBody rt log c n prev))

theorem writtenBody_isBody : IsBody (writtenBody rt log c n prev) :=
  recordBody_isBody rt log _ _ rfl rfl

theorem hash_written :
    field (sealed rt log.hmacKey (writtenBody rt log c n prev)) "hash" =
      writtenHash log c n prev rt := by
  rw [field, get_sealed_hash rt _ (writtenBody_isBody log c n prev)]
  rfl

theorem seq_written :
    field (sealed rt log.hmacKey (writtenBody rt log c n prev)) "seq" = .int n := by
  rw [field, get_sealed rt _ (by decide) (by decide)]
  rfl

theorem isRecord_written :
    IsRecord rt (writtenHash log c n prev rt)
      (canonical (sealed rt log.hmacKey (writtenBody rt log c n prev))) := by
  have hb := @writtenBody_isBody rt log c n prev
  have hd := sealed_dict rt log.hmacKey hb
  refine ⟨_, loadsBytes_canonical hd, ?_, ?_⟩
  · rw [get_canonical hd, get_sealed rt _ (by decide) (by decide)]
    rfl
  · rw [get_canonical hd, get_sealed_hash rt _ hb]
    exact congrArg some (Json.sortKeys_str _)

/-- The anchor of a record whose number is `n`. -/
def anchorDict (rt : Runtime) : Dict :=
  [("type", .str "anchor"), ("ts", .str c.stamp.ts), ("agent_id", .str log.agentId),
    ("seq", .int n), ("head", writtenHash log c n prev rt)]

theorem isAnchor_written :
    IsAnchor rt (writtenHash log c n prev rt) (canonical (anchorDict log c n prev rt)) := by
  have hd : (Json.obj (anchorDict log c n prev rt)).distinctKeys = true := by
    refine Json.distinctKeys_obj_iff.mpr ⟨by simp [anchorDict], ?_⟩
    simp only [anchorDict, writtenHash, List.forall_mem_cons, Json.distinctKeys_str,
      Json.distinctKeys_int, true_and]
    exact fun f hf => absurd hf List.not_mem_nil
  refine ⟨_, loadsBytes_canonical hd, ?_, ?_⟩
  · rw [get_canonical hd]
    rfl
  · rw [get_canonical hd]
    exact congrArg some (Json.sortKeys_str _)

/-- A record is forwarded, and with it an anchor when its number is a multiple of
`anchor_every`. -/
theorem forwarded_written (hf : log.forwards = true) :
    forwarded rt log (sealed rt log.hmacKey (writtenBody rt log c n prev)) =
      canonical (sealed rt log.hmacKey (writtenBody rt log c n prev)) ::
        if n % (max 1 log.anchorEvery : Nat) = 0 then [canonical (anchorDict log c n prev rt)]
        else [] := by
  have hts : field (sealed rt log.hmacKey (writtenBody rt log c n prev)) "ts" =
      .str c.stamp.ts := by
    rw [field, get_sealed rt _ (by decide) (by decide)]
    rfl
  rw [forwarded, if_pos hf, hts, seq_written, hash_written]
  simp only [anchorDue, decide_eq_true_eq]
  rfl

end Payloads

/-! ## Without a rotation the numbers are consecutive -/

/-- What a session without rotations has done: record number `j` is the `j`-th, it is
enqueued, and it is followed by its anchor when `n` divides its number. -/
structure Numbering (rt : Runtime) (log : AuditLog) (n : Nat) (s : Session) (ds : List Dict) :
    Prop where
  represents : Represents rt log.path s.world.dir ⟨[], ds⟩
  continues : Ledger.Continues ⟨[], ds⟩
  count : lastSeq ds = ds.length
  length : s.returned.length = ds.length
  hash : ∀ (j : Nat) (rec : AuditRecord) (d : Dict), s.returned[j]? = some rec → ds[j]? = some d →
    Json.get d "hash" = some rec.hash
  anchored : ∀ (j : Nat) (rec : AuditRecord), s.returned[j]? = some rec → n ∣ j + 1 →
    Anchored rt s.world.spool rec.hash

theorem lastSeq_concat {ds : List Dict} {d : Dict} {n : Int}
    (h : Json.get d "seq" = some (.int n)) :
    lastSeq (ds ++ [d]) = n := by
  rw [lastSeq, List.getLast?_concat, Option.bind_some, h]

theorem seq_stored (log : AuditLog) (c : Call) (n : Int) (prev : String) :
    Json.get (writtenRecord rt log c n prev) "seq" = some (.int n) := by
  rw [get_parsed rt _ (writtenBody_isBody log c n prev), get_sealed rt _ (by decide) (by decide)]
  rfl

theorem hash_stored (log : AuditLog) (c : Call) (n : Int) (prev : String) :
    Json.get (writtenRecord rt log c n prev) "hash" =
      some (AuditRecord.ofBody (sealed rt log.hmacKey (writtenBody rt log c n prev))).hash := by
  rw [get_parsed_hash rt _ (writtenBody_isBody log c n prev)]
  exact congrArg some (hash_written log c n prev).symm

theorem Numbering.start (rt : Runtime) (log : AuditLog) (n : Nat) :
    Numbering rt log n Session.start [] where
  represents := (Consistent.empty rt (fun _ => "") log.path log.hmacKey).represents
  continues := fun _ hd => by cases hd
  count := rfl
  length := rfl
  hash := fun _ _ _ h => by cases h
  anchored := fun _ _ h => by cases h

/-- A member of a list with one more element is an old one or the new one. -/
theorem getElem?_concat_cases {α : Type*} {xs : List α} {x y : α} {j : Nat}
    (h : (xs ++ [x])[j]? = some y) : xs[j]? = some y ∨ j = xs.length ∧ y = x := by
  by_cases hj : j < xs.length
  · rw [List.getElem?_append_left hj] at h
    exact Or.inl h
  · rw [List.getElem?_append_right (Nat.le_of_not_lt hj)] at h
    obtain ⟨hlen, hx⟩ := List.getElem?_eq_some_iff.mp h
    rw [List.length_singleton] at hlen
    exact Or.inr ⟨by omega, by rw [← hx, List.getElem_singleton]⟩

/-- **One write without a rotation keeps the numbering.** -/
theorem Numbering.write {clock : Nat → String} {log : AuditLog} {s : Session} {ds : List Dict}
    (h : Numbering rt log (max 1 log.anchorEvery) s ds) (hf : log.forwards = true) {c : Call}
    (hfit : BelowBound rt log s c) :
    ∃ s' d, writeStep rt clock log s c = some s' ∧
      Numbering rt log (max 1 log.anchorEvery) s' (ds ++ [d]) := by
  obtain ⟨n, prev, bytes, size, w', hn, -, happ, hsize, hwrite, hspool, hres⟩ :=
    @write_represents rt _ clock _ _ _ h.represents h.continues
      (fun _ hm => absurd hm List.not_mem_nil) c
  have hlt := hfit _ _ happ
  rw [← hsize] at hlt
  obtain ⟨-, -, hrep⟩ := hres.resolve_right (fun hr => absurd hr.1 (Int.not_le.mpr hlt))
  have hn' : n = ((ds.length + 1 : Nat) : Int) := by
    rw [hn]
    exact congrArg (· + 1) h.count
  refine ⟨⟨w', _⟩, writtenRecord rt log c n prev, by rw [writeStep, hwrite], ?_⟩
  refine ⟨hrep, Ledger.Continues.append (l := ⟨[], ds⟩)
      (stored_record rt log c.entry c.stamp n prev).numbered,
    ?_, ?_, fun j rec d hj hd => ?_, fun j rec hj hdvd => ?_⟩
  · rw [lastSeq_concat (seq_stored log c n prev), hn', List.length_append, List.length_singleton]
  · rw [List.length_append, List.length_append, h.length]
    rfl
  · rcases getElem?_concat_cases hj with hj' | ⟨hj', rfl⟩
    · rcases getElem?_concat_cases hd with hd' | ⟨hd', -⟩
      · exact h.hash j rec d hj' hd'
      · obtain ⟨hlen, -⟩ := List.getElem?_eq_some_iff.mp hj'
        rw [h.length] at hlen
        omega
    · rcases getElem?_concat_cases hd with hd' | ⟨-, rfl⟩
      · obtain ⟨hlen, -⟩ := List.getElem?_eq_some_iff.mp hd'
        rw [← h.length] at hlen
        omega
      · exact hash_stored log c n prev
  · rw [hspool]
    rcases getElem?_concat_cases hj with hj' | ⟨hj', rfl⟩
    · exact @Anchored.mono _ [] _ _ _ (h.anchored j rec hj' hdvd)
    · have hdue : n % (max 1 log.anchorEvery : Nat) = 0 := by
        rw [hn', ← h.length, ← hj']
        exact Int.emod_eq_zero_of_dvd (Int.natCast_dvd_natCast.mpr hdvd)
      rw [forwarded_written log c n prev hf, if_pos hdue]
      refine ⟨_, _, List.suffix_append _ _ |>.isInfix, ?_, ?_⟩
      · have := @isRecord_written rt log c n prev
        rwa [← hash_written] at this
      · have := @isAnchor_written rt log c n prev
        rwa [← hash_written] at this

/-- Numbered records are anchored in their cadence. -/
theorem Numbering.cadence {log : AuditLog} {n : Nat} {s : Session} {ds : List Dict}
    (h : Numbering rt log n s ds) (hn : 0 < n) : Cadence rt n s := by
  intro i hi
  -- the multiple of `n` among the numbers `i + 1 .. i + n`
  obtain ⟨q, hq⟩ : ∃ q, q = (i + n) / n := ⟨_, rfl⟩
  have hle : n * q ≤ i + n := by rw [hq]; exact Nat.mul_div_le _ _
  have hlt : i < n * q := by
    have := Nat.lt_mul_div_succ (i + n) hn
    rw [← hq, Nat.mul_add, Nat.mul_one] at this
    omega
  obtain ⟨rec, hrec⟩ : ∃ rec, s.returned[n * q - 1]? = some rec :=
    ⟨_, List.getElem?_eq_getElem (by omega)⟩
  refine ⟨n * q - 1, rec, by omega, by omega, hrec, h.anchored _ _ hrec ?_⟩
  rw [Nat.sub_add_cancel (by omega)]
  exact Nat.dvd_mul_right n q

/-- The last anchor covers all but the remainder. -/
theorem Numbering.covered {log : AuditLog} {n : Nat} {s : Session} {ds : List Dict}
    (h : Numbering rt log n s ds) (hn : 0 < n) : Covered rt log.path n s := by
  obtain ⟨m, hm⟩ : ∃ m, m = n * (ds.length / n) := ⟨_, rfl⟩
  have hle : m ≤ ds.length := by rw [hm]; exact Nat.mul_div_le _ _
  refine ⟨ds.take m, ds.drop m, ?_, ?_, fun d hd => ?_⟩
  · rw [List.take_append_drop, h.represents.chainRecords]
    simp [Ledger.records, Ledger.files]
  · rw [List.length_drop, hm]
    have := Nat.mod_add_div ds.length n
    have := Nat.mod_lt ds.length hn
    omega
  · rw [Option.mem_def, List.getLast?_eq_getElem?, List.length_take, Nat.min_eq_left hle,
      List.getElem?_take] at hd
    split at hd
    case isFalse => cases hd
    next hlt =>
    obtain ⟨rec, hrec⟩ : ∃ rec, s.returned[m - 1]? = some rec :=
      ⟨_, List.getElem?_eq_getElem (by rw [h.length]; omega)⟩
    refine ⟨_, h.hash _ _ _ hrec hd, h.anchored _ _ hrec ?_⟩
    rw [Nat.sub_add_cancel (by omega), hm]
    exact Nat.dvd_mul_right n _

/-- **Anchors keep their cadence as long as the file is not rotated.**  Every run of writes
through one forwarding instance, none of which takes the file to its bound, returns, and
in the state it reaches any `anchor_every` consecutive writes contain an anchored one, and
fewer than `anchor_every` records at the end of the chain are not covered. -/
theorem anchors_unrotated (rt : Runtime) (clock : Nat → String) (log : AuditLog)
    (hf : log.forwards = true) (hn : 1 ≤ log.anchorEvery) (cs : List Call)
    (hm : Meets (writeStep rt clock log) (BelowBound rt log) Session.start cs) :
    ∃ s, run (writeStep rt clock log) Session.start cs = some s ∧
      Cadence rt log.anchorEvery s ∧ Covered rt log.path log.anchorEvery s := by
  have hrun : ∀ (cs : List Call) (s : Session) (ds : List Dict),
      Numbering rt log (max 1 log.anchorEvery) s ds →
      Meets (writeStep rt clock log) (BelowBound rt log) s cs →
      ∃ s' ds', run (writeStep rt clock log) s cs = some s' ∧
        Numbering rt log (max 1 log.anchorEvery) s' ds' := by
    intro cs
    induction cs with
    | nil => exact fun s ds h _ => ⟨s, ds, rfl, h⟩
    | cons c cs ih =>
      intro s ds h hm
      obtain ⟨s₁, d, hs₁, h₁⟩ := h.write hf hm.1
      obtain ⟨s', ds', hs', h'⟩ := ih s₁ _ h₁ (hm.2 s₁ hs₁)
      exact ⟨s', ds', run_cons.mpr ⟨s₁, hs₁, hs'⟩, h'⟩
  obtain ⟨s, ds, hs, h⟩ := hrun cs _ _ (Numbering.start rt log _) hm
  rw [Nat.max_eq_right hn] at h
  exact ⟨s, hs, h.cadence hn, h.covered hn⟩

/-- An instance that forwards an anchor with every second record and keeps no key. -/
def sampleForwarding : AuditLog :=
  { sampleLog with hmacKey := "", rotateBytes := 50000000, anchorEvery := 2 }

/-- Four writes: the second and the fourth are anchored. -/
theorem anchors_unrotated_sample : ∃ s,
    run (writeStep Runtime.python sampleClock sampleForwarding) Session.start
      (["a", "b", "c", "d"].map sampleCall) = some s ∧
    s.returned.length = 4 ∧ s.world.spool.length = 6 ∧
    Cadence Runtime.python 2 s ∧ Covered Runtime.python sampleForwarding.path 2 s := by
  have hrun : (checked (writeStep Runtime.python sampleClock sampleForwarding)
      (BelowBound Runtime.python sampleForwarding) Session.start
      (["a", "b", "c", "d"].map sampleCall)).any
        (fun s => s.returned.length = 4 && s.world.spool.length = 6) = true := by decide +kernel
  obtain ⟨s, hs, hfacts⟩ := (Option.any_eq_true _ _).mp hrun
  obtain ⟨hs, hmeets⟩ := checked_eq_some hs
  simp only [Bool.and_eq_true, decide_eq_true_eq] at hfacts
  obtain ⟨t, ht, hcadence, hcovered⟩ :=
    anchors_unrotated Runtime.python sampleClock sampleForwarding rfl (by decide) _ hmeets
  obtain rfl : s = t := Option.some.inj (hs.symm.trans ht)
  exact ⟨s, hs, hfacts.1, hfacts.2, hcadence, hcovered⟩

/-! ## A rotation starts the count again -/

theorem IsRecord.not_isAnchor {h h' : Json} {payload : Bytes} (hr : IsRecord rt h payload) :
    ¬ IsAnchor rt h' payload := by
  obtain ⟨d, hd, hty, -⟩ := hr
  rintro ⟨d', hd', hty', -⟩
  rw [hd] at hd'
  cases hd'
  rw [hty] at hty'
  cases hty'

theorem not_anchored {spool : List Bytes} (h : ∀ p ∈ spool, ∃ k, IsRecord rt k p) (k : Json) :
    ¬ Anchored rt spool k := by
  rintro ⟨r, a, hi, -, ha⟩
  obtain ⟨k', hk'⟩ := h a (hi.subset (List.mem_cons_of_mem _ List.mem_cons_self))
  exact hk'.not_isAnchor ha

/-- A forwarding instance that anchors every second record and rotates after each. -/
def sampleAnchorLog : AuditLog := { sampleLog with anchorEvery := 2 }

/-- A write that finds at most a marker in the file has number 1, so no anchor is due, and
it leaves at most a marker. -/
theorem sample_write {s : Session} {l : Ledger}
    (hr : ∀ p ∈ s.world.spool, ∃ k, IsRecord Runtime.python k p)
    (h : Represents Runtime.python sampleAnchorLog.path s.world.dir l) (hc : l.Continues)
    (hseq : lastSeq l.active = 0)
    (hlt : ∀ n ∈ l.archived.map Prod.fst, n < sampleAnchorLog.path.rotated
      (sampleClock s.world.rotations))
    (c : Call) :
    ∃ s' l', writeStep Runtime.python sampleClock sampleAnchorLog s c = some s' ∧
      (∀ p ∈ s'.world.spool, ∃ k, IsRecord Runtime.python k p) ∧
      Represents Runtime.python sampleAnchorLog.path s'.world.dir l' ∧ l'.Continues ∧
      lastSeq l'.active = 0 ∧ s'.returned.length = s.returned.length + 1 ∧
      s'.world.rotations = s.world.rotations + 1 ∧ l'.records.length = l.records.length + 2 ∧
      l'.archived.map Prod.fst = l.archived.map Prod.fst ++
        [sampleAnchorLog.path.rotated (sampleClock s.world.rotations)] := by
  obtain ⟨n, prev, bytes, size, w', hn, -, -, -, hwrite, hspool, hres⟩ :=
    write_represents h hc hlt c
  rw [hseq] at hn
  subst hn
  rcases hres with ⟨hno, -, -⟩ | ⟨-, hrot, prev', -, hrep⟩
  · exact absurd (Int.natCast_nonneg size) hno
  have hmark := stored_marker Runtime.python sampleAnchorLog c.markerStamp
    (sampleAnchorLog.path.rotated (sampleClock s.world.rotations)) prev'
  refine ⟨⟨w', _⟩, _, by rw [writeStep, hwrite], ?_, hrep, Ledger.Continues.rotate hmark.numbered,
    ?_, by rw [List.length_append]; rfl, hrot, by simp, by simp [Ledger.rotate, Ledger.append]⟩
  · rw [hspool, forwarded_written _ _ _ _ rfl]
    intro p hp
    rcases List.mem_append.mp hp with hp | hp
    · exact hr p hp
    · rw [if_neg (by decide), List.mem_singleton] at hp
      rw [hp]
      exact ⟨_, isRecord_written _ _ _ _⟩
  · refine @lastSeq_concat [] _ _ ?_
    rw [get_parsed _ _ (markerBody_isBody _ _ _ rfl), get_sealed _ _ (by decide) (by decide)]
    rfl

/-- **With rotations the anchors stop.**  Two writes of number 1, each rotated away: no
payload is an anchor, and none of the four records of the chain is covered. -/
theorem rotation_stops_anchors : ∃ s,
    run (writeStep Runtime.python sampleClock sampleAnchorLog) Session.start
      [sampleCall "a", sampleCall "b"] = some s ∧
    ¬ Cadence Runtime.python sampleAnchorLog.anchorEvery s ∧
    ¬ Covered Runtime.python sampleAnchorLog.path sampleAnchorLog.anchorEvery s := by
  have hempty := Numbering.start Runtime.python sampleAnchorLog 2
  obtain ⟨s₁, l₁, hs₁, hr₁, h₁, hc₁, hseq₁, hlen₁, hrot₁, hrec₁, hnames₁⟩ :=
    sample_write (s := Session.start) (fun _ hp => absurd hp List.not_mem_nil) hempty.represents
      hempty.continues rfl (fun _ hm => absurd hm List.not_mem_nil) (sampleCall "a")
  have hlt : ∀ n ∈ l₁.archived.map Prod.fst,
      n < sampleAnchorLog.path.rotated (sampleClock s₁.world.rotations) := by
    intro n hn
    rw [hnames₁, hrot₁] at *
    rw [List.mem_singleton.mp hn]
    exact ascending_sampleClock 0 1 (by decide) (by decide)
  obtain ⟨s, l, hs, hr, h, -, -, hlen, -, hrec, -⟩ :=
    sample_write hr₁ h₁ hc₁ hseq₁ hlt (sampleCall "b")
  refine ⟨s, run_cons.mpr ⟨s₁, hs₁, run_cons.mpr ⟨s, hs, rfl⟩⟩, fun hcad => ?_, fun hcov => ?_⟩
  · obtain ⟨j, rec, -, -, -, ha⟩ := hcad 0 (by rw [hlen, hlen₁]; decide)
    exact not_anchored hr _ ha
  · obtain ⟨pre, post, hall, hpost, hpre⟩ := hcov
    rw [h.chainRecords] at hall
    have hlength : l.records.length = (pre ++ post).length := by
      simpa using congrArg List.length (Option.some.inj hall)
    rcases List.eq_nil_or_concat pre with rfl | ⟨pre, d, rfl⟩
    · rw [hrec, hrec₁, List.nil_append] at hlength
      rw [← hlength] at hpost
      exact absurd hpost (by decide)
    · obtain ⟨k, -, hk⟩ := hpre d (by rw [List.concat_eq_append, List.getLast?_concat]; rfl)
      exact not_anchored hr k hk

end ComplianceMcp
