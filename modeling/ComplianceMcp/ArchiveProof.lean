import ComplianceMcp.AuditAnchor
import ComplianceMcp.AuditHead

/-! # What the archive can prove

Anchors are forwarded so that the archive can prove that no tail was cut off the local file.  What
it holds are payloads: records, and the heads of some.  An auditor who has the local files and a
part of these payloads can check that every digest they attest occurs in a chain that `verify`
accepts.  The check passes exactly on the chains that begin with the history that was written, up to
every attested record: nothing before the last of them can be cut, changed or inserted, and what
comes after it is not covered.  This holds across rotations and for any number of instances. -/
namespace ComplianceMcp

open PyJson PyText Files HashChain

/-- The payload is the record with the digest, or an anchor of it. -/
def Attests (rt : Runtime) (h : Json) (payload : Bytes) : Prop :=
  IsRecord rt h payload ∨ IsAnchor rt h payload

/-- Something the archive keeps attests the digest. -/
def AttestedBy (rt : Runtime) (kept : List Bytes) (h : Json) : Prop :=
  ∃ payload ∈ kept, Attests rt h payload

/-- Every digest that is attested is the `hash` of one of these records. -/
def AllFound (rt : Runtime) (kept : List Bytes) (ds : List Dict) : Prop :=
  ∀ h, AttestedBy rt kept h → ∃ d ∈ ds, Json.get d "hash" = some h

/-- Every instance forwards. -/
def AllForward (ops : List LogOp) : Prop := ∀ op ∈ ops, op.log.forwards = true

/-- What the kept payloads prove of the records `ws` of an accepted chain, when `rs` are those that
were written: they are of the history; all are found in the chain if and only if it begins with the
history up to each of them; and if everything was forwarded and kept, all of the history but a
rotation marker at its end is there. -/
structure ArchiveProves (rt : Runtime) (ops : List LogOp) (spool kept : List Bytes)
    (rs ws : List Dict) : Prop where
  genuine : AllFound rt kept rs
  detects : AllFound rt kept ws ↔ ∀ pre d post h, rs = pre ++ d :: post →
    Json.get d "hash" = some h →
    AttestedBy rt kept h → (pre ++ [d]).map sortedBody <+: ws.map sortedBody
  whole : AllForward ops → spool ⊆ kept → AllFound rt kept ws → ∃ pre post, rs = pre ++ post ∧
    pre.map sortedBody <+: ws.map sortedBody ∧ post.length ≤ 1 ∧
    ∀ m ∈ post, Json.get m "tool" = some (.str "audit_rotate")

variable {rt : Runtime}

theorem AttestedBy.mono {xs ys : List Bytes} (hxs : xs ⊆ ys) {h : Json} (ha : AttestedBy rt xs h) :
    AttestedBy rt ys h := by
  obtain ⟨payload, hmem, hatt⟩ := ha
  exact ⟨payload, hxs hmem, hatt⟩

/-! ## What one write attests -/

section Payloads

variable {log : AuditLog} {c : Call} {n : Int} {prev : String} {h h' : Json} {payload : Bytes}

theorem IsRecord.unique (hr : IsRecord rt h payload) (hr' : IsRecord rt h' payload) : h = h' := by
  obtain ⟨d, hd, -, hh⟩ := hr
  obtain ⟨d', hd', -, hh'⟩ := hr'
  obtain rfl : d = d' := Json.obj.inj (Except.ok.inj (hd.symm.trans hd'))
  exact Option.some.inj (hh.symm.trans hh')

theorem IsAnchor.unique (ha : IsAnchor rt h payload) (ha' : IsAnchor rt h' payload) : h = h' := by
  obtain ⟨d, hd, -, hh⟩ := ha
  obtain ⟨d', hd', -, hh'⟩ := ha'
  obtain rfl : d = d' := Json.obj.inj (Except.ok.inj (hd.symm.trans hd'))
  exact Option.some.inj (hh.symm.trans hh')

/-- A payload attests one digest. -/
theorem Attests.unique (ha : Attests rt h payload) (ha' : Attests rt h' payload) : h = h' := by
  rcases ha with hr | ha <;> rcases ha' with hr' | ha'
  · exact hr.unique hr'
  · exact absurd ha' hr.not_isAnchor
  · exact absurd ha hr'.not_isAnchor
  · exact ha.unique ha'

theorem hash_writtenRecord :
    Json.get (writtenRecord rt log c n prev) "hash" = some (writtenHash log c n prev rt) :=
  (hash_stored log c n prev).trans (congrArg some (hash_written log c n prev))

/-- Whatever a write forwards attests its record. -/
theorem attested_forwarded
    (ha : AttestedBy rt (forwarded rt log (sealed rt log.hmacKey (writtenBody rt log c n prev)))
      h) :
    h = writtenHash log c n prev rt := by
  obtain ⟨payload, hmem, hatt⟩ := ha
  by_cases hf : log.forwards = true
  · rw [forwarded_written log c n prev hf] at hmem
    rcases List.mem_cons.mp hmem with rfl | hanchor
    · exact hatt.unique (Or.inl (isRecord_written log c n prev))
    · split at hanchor
      · rw [List.mem_singleton.mp hanchor] at hatt
        exact hatt.unique (Or.inr (isAnchor_written log c n prev))
      · exact absurd hanchor List.not_mem_nil
  · rw [forwarded, if_neg hf] at hmem
    exact absurd hmem List.not_mem_nil

theorem forwarded_attests (hf : log.forwards = true) :
    AttestedBy rt (forwarded rt log (sealed rt log.hmacKey (writtenBody rt log c n prev)))
      (writtenHash log c n prev rt) := by
  rw [forwarded_written log c n prev hf]
  exact ⟨_, List.mem_cons_self, Or.inl (isRecord_written log c n prev)⟩

end Payloads

/-! ## Runs -/

/-- The last record is attested, or it is the marker after one that is. -/
def EndAttested (rt : Runtime) (spool : List Bytes) (rs : List Dict) : Prop :=
  rs = [] ∨ ∃ pre d post h, rs = pre ++ d :: post ∧ Json.get d "hash" = some h ∧
  AttestedBy rt spool h ∧
    post.length ≤ 1 ∧ ∀ m ∈ post, Json.get m "tool" = some (.str "audit_rotate")

/-- What a run keeps: the spool attests the ledger, and its end when everything is forwarded. -/
structure Evidenced (rt : Runtime) (all : Prop) (w : World) (l : Ledger) : Prop where
  found : AllFound rt w.spool l.records
  ended : all → EndAttested rt w.spool l.records

section Runs

variable {clock : Nat → String} {p : ChainPath} {key : String} {all : Prop}

theorem Evidenced.empty : Evidenced rt all World.empty ⟨[], []⟩ where
  found := fun _ ha => by
    obtain ⟨payload, hmem, -⟩ := ha
    exact absurd hmem List.not_mem_nil
  ended := fun _ => Or.inl rfl

/-- A write adds one record that its payloads attest, and at most a marker after it. -/
theorem Evidenced.grow {w w' : World} {l l' : Ledger} (h : Evidenced rt all w l)
    {log : AuditLog} {c : Call} {n : Int} {prev : String} (hf : all → log.forwards = true)
    {post : List Dict} (hspool : w'.spool = w.spool ++ forwarded rt log
      (sealed rt log.hmacKey (writtenBody rt log c n prev)))
    (hrecords : l'.records = l.records ++ writtenRecord rt log c n prev :: post)
    (hlen : post.length ≤ 1) (hmarks : ∀ m ∈ post, Json.get m "tool" = some (.str "audit_rotate")) :
    Evidenced rt all w' l' where
  found := by
    rintro x ⟨payload, hmem, hatt⟩
    rw [hspool] at hmem
    rw [hrecords]
    rcases List.mem_append.mp hmem with hmem | hmem
    · obtain ⟨d, hd, hx⟩ := h.found x ⟨payload, hmem, hatt⟩
      exact ⟨d, List.mem_append_left _ hd, hx⟩
    · obtain rfl := attested_forwarded ⟨payload, hmem, hatt⟩
      exact ⟨_, List.mem_append_right _ List.mem_cons_self, hash_writtenRecord⟩
  ended := by
    intro hall
    refine Or.inr ⟨l.records, _, post, _, hrecords, hash_writtenRecord, ?_, hlen, hmarks⟩
    rw [hspool]
    exact (forwarded_attests (hf hall)).mono (List.subset_append_right _ _)

/-- **One call keeps what the spool attests.** -/
theorem Evidenced.write {k : Nat} (hclock : Ascending clock p k) {log : AuditLog}
    {w : World} {l : Ledger} (hc : Consistent rt clock p key w l) (h : Evidenced rt all w l)
    (hw : w.rotations < k) (hp : log.path = p) (hk : log.hmacKey = key)
    (hf : all → log.forwards = true) (c : Call) :
    ∃ rec w' l', write rt clock log c w = (.ok rec, w') ∧ Consistent rt clock p key w' l' ∧
      w'.rotations ≤ w.rotations + 1 ∧ Evidenced rt all w' l' := by
  subst hp hk
  obtain ⟨n, prev, -, size, w', -, hhead, -, -, hwrite, hspool, hres⟩ :=
    write_represents hc.represents hc.sound.continues (hc.names_lt hclock hw) c
  rw [hc.sound.head_active] at hhead
  have hsound := hc.sound.append hhead (stored_record rt log c.entry c.stamp n prev)
  rcases hres with ⟨-, hr, hrep⟩ | ⟨-, hr, prev', hhead', hrep⟩
  · refine ⟨_, w', _, hwrite, ⟨hrep, hsound, by rw [hr]; exact hc.names⟩, hr ▸ Nat.le_succ _,
      h.grow hf hspool (Ledger.records_append _ _) (Nat.zero_le _)
        (fun m hm => absurd hm List.not_mem_nil)⟩
  · rw [head_append_active] at hhead'
    have hmarker : Json.get (writtenMarker rt log c (log.path.rotated (clock w.rotations))
      prev') "tool" = some (.str "audit_rotate") := by
      rw [get_parsed rt _ (markerBody_isBody log c.markerStamp _ rfl),
        get_sealed rt _ (by decide) (by decide)]
      rfl
    have hrecords : ((l.append (writtenRecord rt log c n prev)).rotate
      (log.path.rotated (clock w.rotations))
        (writtenMarker rt log c (log.path.rotated (clock w.rotations)) prev')).records =
        l.records ++ writtenRecord rt log c n prev ::
          [writtenMarker rt log c (log.path.rotated (clock w.rotations)) prev'] := by
      rw [Ledger.records_rotate, Ledger.records_append, List.append_assoc]
      rfl
    refine ⟨_, w', _, hwrite, ⟨hrep, hsound.rotate hhead' (stored_marker rt log _ _ _),
      ?_⟩, le_of_eq hr, h.grow hf hspool hrecords (Nat.le_refl 1) ?_⟩
    · rw [hr]
      exact hc.names_rotate _
    · intro m hm
      rw [List.mem_singleton.mp hm]
      exact hmarker

/-- A run keeps what the spool attests. -/
theorem Evidenced.run {k : Nat} (hclock : Ascending clock p k) (ops : List LogOp) :
    ∀ (w : World) (l : Ledger), (∀ op ∈ ops, op.log.path = p ∧ op.log.hmacKey = key) →
      (all → AllForward ops) → Consistent rt clock p key w l → Evidenced rt all w l →
      w.rotations + ops.length ≤ k →
      ∃ l', Consistent rt clock p key (runOps rt clock ops w).2 l' ∧
        Evidenced rt all (runOps rt clock ops w).2 l' := by
  induction ops with
  | nil => exact fun w l _ _ hc h _ => ⟨l, hc, h⟩
  | cons op ops ih =>
    intro w l hops hf hc h hw
    rw [List.length_cons] at hw
    have hops' : ∀ op ∈ ops, op.log.path = p ∧ op.log.hmacKey = key :=
      fun o ho => hops o (List.mem_cons_of_mem _ ho)
    have hf' : all → AllForward ops := fun hall o ho => hf hall o (List.mem_cons_of_mem _ ho)
    have hop := hops op List.mem_cons_self
    cases op with
    | construct log =>
      exact ih _ l hops' hf' (hc.construct hop.1) ⟨h.found, h.ended⟩
        (by omega : w.rotations + ops.length ≤ k)
    | write log c =>
      obtain ⟨hp, hk⟩ : log.path = p ∧ log.hmacKey = key := hop
      obtain ⟨rec, w₁, l₁, hwrite, hc₁, hle, h₁⟩ :=
        Evidenced.write hclock hc h (by omega) hp hk (fun hall => hf hall _ List.mem_cons_self) c
      have hrun : (runOps rt clock (.write log c :: ops) w).2 = (runOps rt clock ops w₁).2 := by
        simp only [runOps, hwrite]
      rw [hrun]
      exact ih w₁ l₁ hops' hf' hc₁ h₁ (by omega)

end Runs

/-! ## The check -/

/-- Records of the same body have the same digest. -/
theorem hash_of_sortedBody {k₁ k₂ : String} {a b : Dict} (ha : Genuine rt k₁ a)
    (hb : Genuine rt k₂ b) (h : sortedBody a = sortedBody b) :
    Json.get a "hash" = Json.get b "hash" := by
  have hdigest : digest rt (bodyOf a) = digest rt (bodyOf b) := by
    rw [← digest_sortedBody, h, digest_sortedBody]
  rw [ha.hash, hb.hash]
  exact congrArg (fun s => some (Json.str s)) hdigest

/-- All attested digests are found exactly in the chains that begin with the history up to each. -/
theorem allFound_iff {p q : ChainPath} {d e : Dir Bytes} {rs ws : List Dict} {k₁ k₂ : String}
    {acc₁ acc₂ : String × Nat} {kept : List Bytes} (hc : CollisionFree rt p d q e)
    (hr : ∀ r ∈ rs, Appears rt p d r) (hw : ∀ w ∈ ws, Appears rt q e w)
    (h₁ : Walk rt k₁ (GENESIS, 0) rs acc₁) (h₂ : Walk rt k₂ (GENESIS, 0) ws acc₂)
    (hgenuine : AllFound rt kept rs) :
    AllFound rt kept ws ↔ ∀ pre x post h, rs = pre ++ x :: post → Json.get x "hash" = some h →
      AttestedBy rt kept h → (pre ++ [x]).map sortedBody <+: ws.map sortedBody := by
  constructor
  · rintro hfound pre x post h rfl hx hatt
    obtain ⟨y, hy, hyh⟩ := hfound h hatt
    obtain ⟨pre', post', rfl⟩ := List.append_of_mem hy
    -- the two chains up to this digest end in one head
    obtain ⟨s, rfl⟩ : ∃ s, h = .str s :=
      ⟨_, Option.some.inj (hx.symm.trans
        (h₁.genuine x (List.mem_append_right _ List.mem_cons_self)).hash)⟩
    obtain ⟨n, hup⟩ := h₁.upTo hx
    obtain ⟨n', hup'⟩ := h₂.upTo hyh
    have hsub : ∀ {a b : List Dict} {z z' : Dict}, z' ∈ a ++ [z] → z' ∈ a ++ z :: b := by
      intro a b z z' hz
      rcases List.mem_append.mp hz with hz | hz
      · exact List.mem_append_left _ hz
      · rw [List.mem_singleton.mp hz]
        exact List.mem_append_right _ List.mem_cons_self
    rw [bodies_eq_of_walks hc (fun r hm => hr r (hsub hm))
      (fun w hm => hw w (hsub hm)) hup hup' rfl]
    exact ⟨post'.map sortedBody, by rw [← List.map_append, List.append_assoc]; rfl⟩
  · intro hbegins h hatt
    obtain ⟨x, hx, hxh⟩ := hgenuine h hatt
    obtain ⟨pre, post, rfl⟩ := List.append_of_mem hx
    have hmem : sortedBody x ∈ ws.map sortedBody :=
      (hbegins pre x post h rfl hxh hatt).subset
        (List.mem_map_of_mem (List.mem_append_right _ (List.mem_singleton_self x)))
    obtain ⟨y, hy, hbody⟩ := List.mem_map.mp hmem
    exact ⟨y, hy, (hash_of_sortedBody (h₂.genuine y hy) (h₁.genuine x hx) hbody).trans hxh⟩

/-- **What the archive can prove.**  After any run of writes through any number of instances, with
rotations, and for any part of the forwarded payloads: in whatever files have taken the place of the
log, if `verify` accepts them, the attested digests are all found exactly if the history up to every
attested record is at the front of the chain. -/
theorem archive_proves (rt : Runtime) (clock : Nat → String) (p : ChainPath) (key : String)
    (ops : List LogOp) (hops : ∀ op ∈ ops, op.log.path = p ∧ op.log.hmacKey = key)
    (hclock : Ascending clock p ops.length) (kept : List Bytes)
    (hkept : kept ⊆ (runOps rt clock ops World.empty).2.spool) (q : ChainPath) (e : Dir Bytes)
    (k : String) (r : VerifyResult) (hv : verify rt q e k = .ok r) (hok : r.ok = true)
    (hc : CollisionFree rt p (runOps rt clock ops World.empty).2.dir q e) :
    ∃ rs ws, chainRecords rt p (runOps rt clock ops World.empty).2.dir = some (rs.map .obj) ∧
      chainRecords rt q e = some (ws.map .obj) ∧
      ArchiveProves rt ops (runOps rt clock ops World.empty).2.spool kept rs ws := by
  obtain ⟨l, hcons, hatt⟩ := Evidenced.run hclock ops World.empty ⟨[], []⟩ hops id
    (Consistent.empty rt clock p key) Evidenced.empty (Nat.le_of_eq (Nat.zero_add _))
  obtain ⟨ws, acc, hws, hwalk, -⟩ := verify_eq_ok_iff.mp ⟨hv, hok⟩
  obtain ⟨acc', hwalk'⟩ := Walk.of_accepted hcons.sound.accepted
  have hrs := hcons.represents.chainRecords
  have hgenuine : AllFound rt kept l.records := fun h ha => hatt.found h (ha.mono hkept)
  have hdetects := allFound_iff hc (fun r hm => appears_of_mem hrs hm)
    (fun w hm => appears_of_mem hws hm) hwalk' hwalk hgenuine
  refine ⟨l.records, ws, hrs, hws, hgenuine, hdetects, fun hall hspool hfound => ?_⟩
  rcases hatt.ended hall with hnil | ⟨pre, d, post, h, hsplit, hd, ha, hlen, hmarks⟩
  · exact ⟨[], [], hnil, List.nil_prefix, Nat.zero_le _, fun m hm => absurd hm List.not_mem_nil⟩
  · refine ⟨pre ++ [d], post, by rw [hsplit, List.append_assoc]; rfl, ?_, hlen, hmarks⟩
    exact hdetects.mp hfound pre d post h hsplit hd (ha.mono hspool)

/-- The sample's chain and its records in one file do not collide. -/
theorem sample_collisionFree {d : Dir Bytes}
    (hw : Represents Runtime.python sampleLog.path d sampleLedger) :
    CollisionFree Runtime.python sampleLog.path d sampleLog.path sampleOneFile := by
  have hone := sampleOneFile_represents
  have hu := sample_unforgeable hw
  have hmem : ∀ a, Appears Runtime.python sampleLog.path d a ∨
      Appears Runtime.python sampleLog.path sampleOneFile a → a ∈ sampleRecords :=
    fun a ha => ha.elim hw.appears_iff.mp hone.appears_iff.mp
  constructor
  case injective =>
    exact fun a b ha hb hab => hu.injective a b (Or.inl (hw.appears_iff.mpr (hmem a ha)))
      (Or.inl (hw.appears_iff.mpr (hmem b hb))) hab
  case not_genesis => exact fun a ha => hu.not_genesis a (hw.appears_iff.mpr (hmem a ha))

theorem archive_proves_sample : ∃ r rs ws,
    verify Runtime.python sampleLog.path sampleOneFile "" = .ok r ∧
    chainRecords Runtime.python sampleLog.path
      (runOps Runtime.python sampleClock sampleOps World.empty).2.dir =
      some (rs.map .obj) ∧
    chainRecords Runtime.python sampleLog.path sampleOneFile = some (ws.map .obj) ∧
    ArchiveProves Runtime.python sampleOps
      (runOps Runtime.python sampleClock sampleOps World.empty).2.spool
      (runOps Runtime.python sampleClock sampleOps World.empty).2.spool rs ws := by
  have hacc := sampleRecords_accepted
  have hkeyless : Accepted Runtime.python "" sampleRecords :=
    ⟨hacc.linked, fun d hd => ⟨(hacc.genuine d hd).hash, fun hk => absurd rfl hk⟩⟩
  obtain ⟨r, hv, hok⟩ := verify_ok_iff.mpr ⟨_, sampleOneFile_represents.chainRecords, hkeyless⟩
  obtain ⟨outcomes, w, hrun, hw⟩ := sample_run
  have hdir : (runOps Runtime.python sampleClock sampleOps World.empty).2.dir = w.dir := by
    rw [hrun]
  obtain ⟨rs, ws, hrs, hws, hproves⟩ :=
    archive_proves Runtime.python sampleClock sampleLog.path "k" sampleOps
    (fun op hop => by rw [List.mem_singleton.mp hop]; exact ⟨rfl, rfl⟩)
    (fun i j hij hj => ascending_sampleClock i j hij (Nat.lt_succ_of_lt hj)) _ (List.Subset.refl _)
    sampleLog.path sampleOneFile "" r hv hok (by rw [hdir]; exact sample_collisionFree hw)
  exact ⟨r, rs, ws, hv, hrs, hws, hproves⟩

end ComplianceMcp
