import ComplianceMcp.AuditArchive

/-! # The archive gets the chain

In a run whose steps meet `Forwards` nothing is rotated, so the numbers of the records are
their places in the chain.  A record that is appended stays with its writer until it is
published, and it is published when all records before it are: the records in the spool are
the first ones of the chain at every moment.  The order of delivery is the order of the
spool, and what a writer has returned is published; so with nobody at work and the spool empty
the sink has the chain. -/
namespace ComplianceMcp

open PyJson PyText Files HashChain Steps FirstOccurrence

variable {I P : Type}

/-! ## Numbered records -/

/-- The records are numbered from 1. -/
def Counted (ds : List Dict) : Prop :=
  ∀ (i : Nat) d, ds[i]? = some d → Json.get d "seq" = some (.int (i + 1))

namespace Counted

variable {ds : List Dict}

theorem nil : Counted [] := fun _ _ h => (nomatch h)

theorem lastSeq (h : Counted ds) : lastSeq ds = ds.length := by
  rcases List.eq_nil_or_concat ds with rfl | ⟨ds, d, rfl⟩
  · rfl
  · rw [List.concat_eq_append] at h ⊢
    have hd : (ds ++ [d])[ds.length]? = some d := List.getElem?_concat_length
    rw [lastSeq_concat (h ds.length d hd), List.length_append, List.length_singleton]
    rfl

theorem concat (h : Counted ds) {d : Dict} (hd : Json.get d "seq" = some (.int (ds.length + 1))) :
    Counted (ds ++ [d]) := by
  intro i e he
  rcases getElem?_concat_cases he with hold | ⟨rfl, rfl⟩
  · exact h i e hold
  · exact hd

/-- A record has one place. -/
theorem index_eq (h : Counted ds) {i j : Nat} {d : Dict} (hi : ds[i]? = some d)
    (hj : ds[j]? = some d) : i = j := by
  have hseq := (h i d hi).symm.trans (h j d hj)
  have hint : ((i : Int) + 1) = j + 1 := Json.int.inj (Option.some.inj hseq)
  omega

end Counted

/-! ## The payloads of a record -/

section Payloads

variable {rt : Runtime} {key : String} {b : Dict} {log : AuditLog}

theorem loadsBytes_sealed (hb : IsBody b) :
    loadsBytes rt (canonical (sealed rt key b)) =
      .ok (.obj (Json.sortedFields (sealed rt key b))) :=
  loadsBytes_canonical (sealed_dict rt key hb)

theorem payloadField_of_loads {payload : Bytes} {d : Dict}
    (h : loadsBytes rt payload = .ok (.obj d)) (k : String) :
    payloadField rt payload k = Json.get d k := by
  rw [payloadField, h]

/-- A record has no type. -/
theorem isRecordPayload_sealed (hb : IsBody b) (ht : Json.get b "type" = none) :
    isRecordPayload rt (canonical (sealed rt key b)) = true := by
  have hnone : Json.get (Json.sortedFields (sealed rt key b)) "type" = none := by
    rw [get_canonical (sealed_dict rt key hb), get_sealed rt _ (by decide) (by decide), ht]
    rfl
  rw [isRecordPayload, payloadField_of_loads (loadsBytes_sealed hb), hnone]
  rfl

/-- Besides a record only its anchor is forwarded. -/
theorem eq_or_anchor_of_forwarded {body : Dict}
    (hd : (Json.obj body).distinctKeys = true) {x : Bytes} (hx : x ∈ forwarded rt log body) :
    x = canonical body ∨ isRecordPayload rt x = false := by
  have hfield : ∀ k, (field body k).distinctKeys = true := by
    intro k
    rw [field]
    cases hk : Json.get body k with
    | none => rfl
    | some v =>
      exact (Json.distinctKeys_obj_iff.mp hd).2 (k, v)
        ((Json.get_eq_some_iff (Json.distinctKeys_obj_iff.mp hd).1).mp hk)
  rw [forwarded] at hx
  split at hx
  case isFalse => cases hx
  rcases List.mem_cons.mp hx with rfl | hx
  · exact Or.inl rfl
  split at hx
  case isFalse => cases hx
  right
  have hanchor : (Json.obj [("type", .str "anchor"), ("ts", field body "ts"),
    ("agent_id", .str log.agentId), ("seq", field body "seq"),
    ("head", field body "hash")]).distinctKeys = true := by
    refine Json.distinctKeys_obj_iff.mpr ⟨by simp, ?_⟩
    simp only [List.forall_mem_cons, hfield, Json.distinctKeys_str, true_and]
    exact fun f hf => absurd hf List.not_mem_nil
  rw [List.mem_singleton.mp hx, isRecordPayload,
    payloadField_of_loads (loadsBytes_canonical hanchor), get_canonical hanchor]
  rfl

end Payloads

/-! ## The invariant -/

/-- The inode the writer has opened and not yet let go. -/
def WritePc.inode : WritePc → Option Nat
  | .locking ino => some ino
  | .reading ino => some ino
  | .appending ino _ _ => some ino
  | _ => none

/-- The writer is about to rotate the file, or in the middle of it. -/
def WritePc.turns : WritePc → Bool
  | .readingHead _ => true
  | pc => pc.rotating

section Invariant

variable (rt : Runtime) (path : ChainPath) (key : String) (logs : I → AuditLog)

/-- The writer owes the payload to the spool. -/
def Archive.Owes (s : Archive I P) (p : P) (payload : Bytes) : Prop :=
  payload ∈ s.outbox p ∨ ∃ e, s.spool.enqueues p = some e ∧ e.payload = payload

/-- The payload has its name in the spool. -/
def Spool.Published (s : Spool P) (payload : Bytes) : Prop := payload ∈ s.published.map Prod.snd

/-- A writer works on the active file and rotates nothing; its record is for the sink, and once
it has left the lock it owes the record or has published it. -/
structure JobFits (s : Archive I P) (p : P) (j : Job I) : Prop where
  calm : j.pc.turns = false
  active : ∀ ino, j.pc.inode = some ino → s.log.disk.dir.read path.active = some ino
  forwards : ∀ b, j.pc.written = some b → (logs j.inst).forwards = true ∧
    isRecordPayload rt (canonical b) = true
  owes : ∀ b, j.pc = .forwarding b → s.spool.Published (canonical b) ∨ s.Owes p (canonical b)

/-- The records in the spool and the sink are the first ones of the chain. -/
def Chained (s : Spool P) (ds : List Dict) : Prop :=
  (recordsIn (isRecordPayload rt) s.published).map (fun g => loadsBytes rt g.2) <+:
    ds.map (fun d => .ok (.obj d))

/-- The invariant of the machine. -/
structure ArchiveInv (s : Archive I P) (l : Ledger) (pending : List (P × Dict)) : Prop where
  log : SharedInv rt path key logs s.log l pending
  spool : SpoolInv s.spool
  order : OrderInv (isRecordPayload rt) s.spool
  archived : l.archived = []
  counted : Counted l.active
  chained : Chained rt s.spool l.active
  jobs : ∀ p j, s.log.busy p = some j → JobFits rt path logs s p j
  owed : ∀ p x, s.Owes p x → ∃ j b, s.log.busy p = some j ∧ j.pc = .forwarding b ∧
    x ∈ forwarded rt (logs j.inst) b
  returned : ∀ b ∈ s.log.returned, s.spool.Published (canonical b) ∧
    isRecordPayload rt (canonical b) = true

theorem ArchiveInv.empty : ArchiveInv rt path key logs (Archive.empty I P) ⟨[], []⟩ [] where
  log := SharedInv.empty rt path key logs
  spool := SpoolInv.empty
  order := OrderInv.empty _
  archived := rfl
  counted := Counted.nil
  chained := List.prefix_refl _
  jobs := fun _ _ h => (nomatch h)
  owed := fun _ _ h => by
    rcases h with hout | ⟨e, he, -⟩
    · cases hout
    · cases he
  returned := fun _ h => (nomatch h)

end Invariant

section Facts

variable {rt : Runtime} {clock : Nat → String} {path : ChainPath} {key : String}
  {logs : I → AuditLog}
variable {s t : Archive I P} {l l' : Ledger} {pending pending' : List (P × Dict)}
  {p : P} {j : Job I}

/-! ## What the chain says of the spool -/

theorem dropMarkers_of_unrotated (h : l.archived = []) (name : String) :
    dropMarkers none (l.named name) = l.active := by
  rw [Ledger.named, h]
  exact List.append_nil _

/-- A record that is in the chain. -/
theorem ArchiveInv.mem_active (hi : ArchiveInv rt path key logs s l pending) {b : Dict}
    (hb : b ∈ s.log.returned ++ pending.map Prod.snd) :
    Json.sortedFields b ∈ l.active ∧
    loadsBytes rt (canonical b) = .ok (.obj (Json.sortedFields b)) := by
  have hperm := hi.log.records
  rw [dropMarkers_of_unrotated hi.archived] at hperm
  refine ⟨hperm.symm.subset (List.mem_map_of_mem hb), ?_⟩
  obtain ⟨b₀, hb₀, rfl⟩ := hi.log.bodies b hb
  exact loadsBytes_sealed hb₀

theorem Chained.getElem {spool : Spool P} {ds : List Dict} (h : Chained rt spool ds) {i : Nat}
    {g : String × Bytes} (hg : (recordsIn (isRecordPayload rt) spool.published)[i]? = some g) :
    ∃ d, ds[i]? = some d ∧ loadsBytes rt g.2 = .ok (.obj d) := by
  have hmap : ((recordsIn (isRecordPayload rt) spool.published).map
    (fun g => loadsBytes rt g.2))[i]? =
      some (loadsBytes rt g.2) := by
    rw [List.getElem?_map, hg]
    rfl
  obtain ⟨rest, hrest⟩ := h
  have hds : (ds.map (fun d => (.ok (.obj d) : Except PyError Json)))[i]? =
      some (loadsBytes rt g.2) := by
    rw [← hrest, List.getElem?_append_left (List.getElem?_eq_some_iff.mp hmap).1]
    exact hmap
  rw [List.getElem?_map] at hds
  obtain ⟨d, hd, hload⟩ := Option.map_eq_some_iff.mp hds
  exact ⟨d, hd, hload.symm⟩

/-- Two records in the spool have different payloads. -/
theorem Chained.payload_injective {spool : Spool P} {ds : List Dict} (h : Chained rt spool ds)
    (hc : Counted ds) {f g : String × Bytes}
    (hf : f ∈ recordsIn (isRecordPayload rt) spool.published)
    (hg : g ∈ recordsIn (isRecordPayload rt) spool.published) (heq : f.2 = g.2) : f = g := by
  obtain ⟨i, hi⟩ := List.getElem?_of_mem hf
  obtain ⟨k, hk⟩ := List.getElem?_of_mem hg
  obtain ⟨d, hd, hload⟩ := h.getElem hi
  obtain ⟨e, he, hload'⟩ := h.getElem hk
  rw [heq, hload'] at hload
  cases hload
  have hik : i = k := hc.index_eq hd he
  rw [hik, hk] at hi
  exact (Option.some.inj hi).symm

/-- What the sink has is an initial part of the records in the spool. -/
theorem ArchiveInv.delivered_eq (hi : ArchiveInv rt path key logs s l pending) :
    delivered rt s.spool.posts =
      (recordsIn (isRecordPayload rt) s.spool.received).eraseDups.map Prod.snd := by
  have hmem : ∀ g ∈ recordsIn (isRecordPayload rt) s.spool.received,
      g ∈ recordsIn (isRecordPayload rt) s.spool.published := by
    intro g hg
    obtain ⟨hrec, hkind⟩ := mem_recordsIn.mp hg
    obtain ⟨post, hpost, rfl⟩ := List.mem_map.mp hrec
    exact mem_recordsIn.mpr ⟨hi.spool.whole post (List.mem_filter.mp hpost).1, hkind⟩
  rw [← eraseDups_map (fun f hf g hg => hi.chained.payload_injective hi.counted
    (hmem f hf) (hmem g hg)), recordsIn, Spool.received, delivered, List.filter_map,
    List.filter_map, List.map_map]
  rfl

/-- Nobody rotates, and all writers are at the active file. -/
theorem ArchiveInv.exclusive (hi : ArchiveInv rt path key logs s l pending) (a : WriteAction I P) :
    Exclusive path s.log a ∧ NamesAscend clock path s.log a := by
  cases a with
  | construct i => exact ⟨trivial, trivial⟩
  | issue p i c => exact ⟨trivial, trivial⟩
  | advance p =>
    have halone : s.log.Alone p := by
      intro q _
      rw [Shared.rotatingBy]
      cases hq : s.log.busy q with
      | none => rfl
      | some k =>
        have hcalm := (hi.jobs q k hq).calm
        obtain ⟨i, c, pc⟩ := k
        cases pc <;> first | rfl | cases hcalm
    refine ⟨fun j hj => ?_, fun j hj hrenames => ?_⟩
    · have hactive := (hi.jobs p j hj).active
      obtain ⟨i, c, pc⟩ := j
      cases pc with
      | reading ino => exact ⟨hactive ino rfl, halone⟩
      | appending ino body bytes => exact ⟨hactive ino rfl, halone⟩
      | readingHead body => exact halone
      | _ => trivial
    · have hcalm := (hi.jobs p j hj).calm
      obtain ⟨i, c, pc⟩ := j
      cases pc <;> first | (cases hrenames; done) | cases hcalm

/-! ## What a step leaves behind -/

/-- At most one record more, with the next number. -/
def Grown (l l' : Ledger) : Prop :=
  l' = l ∨ ∃ d, l' = l.append d ∧ Json.get d "seq" = some (.int (lastSeq l.active + 1))

/-- **A step of a writer**, by what it leaves behind. -/
theorem ArchiveInv.write (hi : ArchiveInv rt path key logs s l pending) {log : Shared I P}
    {outbox : P → List Bytes} (hlog : SharedInv rt path key logs log l' pending')
    (hgrown : Grown l l') (hbusy : ∀ q, q ≠ p → log.busy q = s.log.busy q)
    (hactive : ∀ ino, s.log.disk.dir.read path.active = some ino →
      log.disk.dir.read path.active = some ino)
    (hout : ∀ q, q ≠ p → outbox q = s.outbox q)
    (hjob : ∀ j, log.busy p = some j → JobFits rt path logs ⟨log, s.spool, outbox⟩ p j)
    (howed : ∀ x, Archive.Owes ⟨log, s.spool, outbox⟩ p x →
      ∃ j b, log.busy p = some j ∧ j.pc = .forwarding b ∧ x ∈ forwarded rt (logs j.inst) b)
    (hret : ∀ b ∈ log.returned, b ∈ s.log.returned ∨
      s.spool.Published (canonical b) ∧ isRecordPayload rt (canonical b) = true) :
    ArchiveInv rt path key logs ⟨log, s.spool, outbox⟩ l' pending' := by
  have howes : ∀ q, q ≠ p → ∀ x, Archive.Owes ⟨log, s.spool, outbox⟩ q x ↔ s.Owes q x := by
    intro q hq x
    rw [Archive.Owes, Archive.Owes]
    show x ∈ outbox q ∨ _ ↔ _
    rw [hout q hq]
  have hl' : l'.archived = [] ∧ Counted l'.active ∧ l.active <+: l'.active := by
    rcases hgrown with rfl | ⟨d, rfl, hd⟩
    · exact ⟨hi.archived, hi.counted, List.prefix_refl _⟩
    · rw [hi.counted.lastSeq] at hd
      exact ⟨hi.archived, hi.counted.concat hd, List.prefix_append _ _⟩
  obtain ⟨harchived, hcounted, hgrow⟩ := hl'
  constructor
  case log => exact hlog
  case spool => exact hi.spool
  case order => exact hi.order
  case archived => exact harchived
  case counted => exact hcounted
  case chained => exact hi.chained.trans (hgrow.map _)
  case jobs =>
    intro q j hj
    by_cases hq : q = p
    · subst hq
      exact hjob j hj
    · have hold := hi.jobs q j (hbusy q hq ▸ hj)
      refine ⟨hold.calm, fun ino hino => hactive ino (hold.active ino hino), hold.forwards,
        fun b hb => ?_⟩
      exact (hold.owes b hb).imp id (howes q hq _).mpr
  case owed =>
    intro q x hx
    by_cases hq : q = p
    · subst hq
      exact howed x hx
    · obtain ⟨j, b, hj, hpc⟩ := hi.owed q x ((howes q hq x).mp hx)
      exact ⟨j, b, (hbusy q hq).trans hj, hpc⟩
  case returned =>
    intro b hb
    rcases hret b hb with hold | hnew
    · exact hi.returned b hold
    · exact hnew

/-- A writer that is not at its payloads owes nothing. -/
theorem ArchiveInv.no_debt (hi : ArchiveInv rt path key logs s l pending)
    (hpc : ∀ j, s.log.busy p = some j → ∀ b, j.pc ≠ .forwarding b) (x : Bytes) : ¬ s.Owes p x := by
  intro hx
  obtain ⟨j, b, hj, hpc', -⟩ := hi.owed p x hx
  exact hpc j hj b hpc'

/-- A step of a writer that is not at its payloads, before it or after it. -/
theorem ArchiveInv.quiet (hi : ArchiveInv rt path key logs s l pending) {log : Shared I P}
    (hlog : SharedInv rt path key logs log l' pending') (hgrown : Grown l l')
    (hbusy : ∀ q, q ≠ p → log.busy q = s.log.busy q)
    (hactive : ∀ ino, s.log.disk.dir.read path.active = some ino →
      log.disk.dir.read path.active = some ino)
    (hpc : ∀ j, s.log.busy p = some j → ∀ b, j.pc ≠ .forwarding b)
    (hret : log.returned = s.log.returned) (hjob : ∀ j, log.busy p = some j → j.pc.turns = false ∧
      (∀ b, j.pc ≠ .forwarding b) ∧
      (∀ ino, j.pc.inode = some ino → log.disk.dir.read path.active = some ino) ∧
      ∀ b, j.pc.written = some b → (logs j.inst).forwards = true ∧
      isRecordPayload rt (canonical b) = true) :
    ArchiveInv rt path key logs ⟨log, s.spool, s.outbox⟩ l' pending' := by
  refine hi.write (p := p) hlog hgrown hbusy hactive (fun _ _ => rfl) (fun j hj => ?_)
    (fun x hx => ?_) (fun b hb => Or.inl (hret ▸ hb))
  · obtain ⟨hcalm, hnot, hino, hfwd⟩ := hjob j hj
    exact ⟨hcalm, hino, hfwd, fun b hb => absurd hb (hnot b)⟩
  · exact absurd hx (hi.no_debt hpc x)

/-- **A step of the spool**, by what it leaves behind: a payload that was owed is owed still or
published. -/
theorem ArchiveInv.spooled (hi : ArchiveInv rt path key logs s l pending) {spool : Spool P}
    {outbox : P → List Bytes} (hspool : SpoolInv spool)
    (horder : OrderInv (isRecordPayload rt) spool) (hchained : Chained rt spool l.active)
    (hpub : ∀ g ∈ s.spool.published, g ∈ spool.published)
    (hless : ∀ q x, Archive.Owes ⟨s.log, spool, outbox⟩ q x → s.Owes q x)
    (hkept : ∀ q x, s.Owes q x → Archive.Owes ⟨s.log, spool, outbox⟩ q x ∨ spool.Published x) :
    ArchiveInv rt path key logs ⟨s.log, spool, outbox⟩ l pending := by
  have hmono : ∀ x, s.spool.Published x → spool.Published x := by
    intro x hx
    obtain ⟨g, hg, rfl⟩ := List.mem_map.mp hx
    exact List.mem_map_of_mem (hpub g hg)
  constructor
  case log => exact hi.log
  case spool => exact hspool
  case order => exact horder
  case archived => exact hi.archived
  case counted => exact hi.counted
  case chained => exact hchained
  case jobs =>
    intro q j hj
    have hold := hi.jobs q j hj
    refine ⟨hold.calm, hold.active, hold.forwards, fun b hb => ?_⟩
    rcases hold.owes b hb with hdone | howes
    · exact Or.inl (hmono _ hdone)
    · exact (hkept q _ howes).symm
  case owed => exact fun q x hx => hi.owed q x (hless q x hx)
  case returned => exact fun b hb => ⟨hmono _ (hi.returned b hb).1, (hi.returned b hb).2⟩

/-- The spool changes, and what is on its way and published stays. -/
theorem ArchiveInv.same_payloads (hi : ArchiveInv rt path key logs s l pending) {spool : Spool P}
    (hspool : SpoolInv spool) (horder : OrderInv (isRecordPayload rt) spool)
    (hpub : spool.published = s.spool.published)
    (henq : ∀ q, (spool.enqueues q).map Enqueue.payload = (s.spool.enqueues q).map
      Enqueue.payload) :
    ArchiveInv rt path key logs ⟨s.log, spool, s.outbox⟩ l pending := by
  have howes : ∀ q x, Archive.Owes ⟨s.log, spool, s.outbox⟩ q x ↔ s.Owes q x := by
    intro q x
    unfold Archive.Owes
    rw [← Option.map_eq_some_iff, ← Option.map_eq_some_iff]
    show _ ∨ (spool.enqueues q).map Enqueue.payload = some x ↔ _
    rw [henq q]
  have hchained : Chained rt spool l.active := by
    rw [Chained, hpub]
    exact hi.chained
  exact hi.spooled hspool horder hchained (fun g hg => hpub ▸ hg) (fun q x hx => (howes q x).mp hx)
    (fun q x hx => Or.inl ((howes q x).mpr hx))

/-! ## Between calls -/

/-- Between calls all records of the chain are in the spool or the sink. -/
theorem ArchiveInv.length_eq (hi : ArchiveInv rt path key logs s l pending) (hidle : s.log.Idle) :
    (recordsIn (isRecordPayload rt) s.spool.published).length = l.active.length := by
  have hpending : pending = [] := by
    refine List.eq_nil_iff_forall_not_mem.mpr (fun x hx => ?_)
    have hw := (hi.log.mem_pending x.1 x.2).mp hx
    rw [Shared.writtenBy, hidle x.1] at hw
    cases hw
  have hle := hi.chained.length_le
  rw [List.length_map, List.length_map] at hle
  refine Nat.le_antisymm hle (Nat.le_of_not_lt (fun hlt => ?_))
  obtain ⟨d, hd⟩ : ∃ d, l.active[(recordsIn (isRecordPayload rt) s.spool.published).length]? =
      some d :=
    ⟨_, List.getElem?_eq_getElem hlt⟩
  have hperm := hi.log.records
  rw [dropMarkers_of_unrotated hi.archived, hpending, List.map_nil, List.append_nil] at hperm
  obtain ⟨b, hb, rfl⟩ := List.mem_map.mp (hperm.subset (List.mem_of_getElem? hd))
  obtain ⟨-, hload⟩ := hi.mem_active (List.mem_append_left _ hb)
  obtain ⟨hpub, hrecord⟩ := hi.returned b hb
  obtain ⟨g, hg, hpayload⟩ := List.mem_map.mp hpub
  obtain ⟨i, hget⟩ := List.getElem?_of_mem (mem_recordsIn.mpr ⟨hg, hpayload ▸ hrecord⟩)
  obtain ⟨e, he, hload'⟩ := hi.chained.getElem hget
  rw [hpayload, hload] at hload'
  cases hload'
  have hsame := hi.counted.index_eq he hd
  have hbound := (List.getElem?_eq_some_iff.mp hget).1
  omega

theorem ArchiveInv.whole (hi : ArchiveInv rt path key logs s l pending) :
    ArchiveWhole rt path s := by
  intro hempty hidle
  refine ⟨l.active, ?_, ?_, ?_⟩
  · rw [hi.log.represents.chainRecords, Ledger.records, Ledger.files, hi.archived]
    simp
  · have hall := hi.order.all_delivered hi.spool hempty
    rw [hi.delivered_eq, hall, List.map_map]
    exact hi.chained.eq_of_length (by rw [List.length_map, List.length_map, hi.length_eq hidle])
  · have hlinked := hi.log.accepted.linked
    rw [Ledger.records, Ledger.files, hi.archived] at hlinked
    simpa using hlinked

end Facts

section Run

variable {rt : Runtime} {clock : Nat → String} {path : ChainPath} {key : String}
  {logs : I → AuditLog}
variable [DecidableEq P] {s t : Archive I P} {l l' : Ledger} {pending pending' : List (P × Dict)}
  {p : P} {j : Job I}

/-! ## Steps of the writers -/

/-- A writer goes on, and is not at its payloads. -/
theorem ArchiveInv.goto (hi : ArchiveInv rt path key logs s l pending) (hb : s.log.busy p = some j)
    (hpc : ∀ b, j.pc ≠ .forwarding b) {r : Shared I P} (hbusy : r.busy = s.log.busy)
    (hret : r.returned = s.log.returned) {disk : Disk} {pc : WritePc}
    (hlog : SharedInv rt path key logs (r.goto p j disk pc) l' pending') (hgrown : Grown l l')
    (hactive : ∀ ino, s.log.disk.dir.read path.active = some ino →
      disk.dir.read path.active = some ino)
    (hcalm : pc.turns = false) (hnot : ∀ b, pc ≠ .forwarding b)
    (hino : ∀ ino, pc.inode = some ino → disk.dir.read path.active = some ino)
    (hfwd : ∀ b, pc.written = some b →
      (logs j.inst).forwards = true ∧ isRecordPayload rt (canonical b) = true) :
    ArchiveInv rt path key logs ⟨r.goto p j disk pc, s.spool, s.outbox⟩ l' pending' := by
  refine hi.quiet (p := p) hlog hgrown (fun q hq => ?_) hactive (fun j' hj' => ?_) hret
    (fun j' hj' => ?_)
  · rw [Shared.busy_goto_of_ne r hq, hbusy]
  · rw [hb] at hj'
    cases hj'
    exact hpc
  · rw [Shared.busy_goto_self] at hj'
    cases hj'
    exact ⟨hcalm, hnot, hino, hfwd⟩

/-- The call returns: everything it owes is in the spool. -/
theorem ArchiveInv.finish (hi : ArchiveInv rt path key logs s l pending)
    (hb : s.log.busy p = some j) {body : Dict} (hpc : j.pc = .forwarding body)
    (hout : s.outbox p = []) (henq : s.spool.enqueues p = none)
    (hlog : SharedInv rt path key logs (s.log.finish p body) l pending') :
    ArchiveInv rt path key logs ⟨s.log.finish p body, s.spool, s.outbox⟩ l pending' := by
  have hold := hi.jobs p j hb
  have hdone : ∀ x, ¬ s.Owes p x := by
    rintro x (hx | ⟨e, he, -⟩)
    · rw [hout] at hx
      cases hx
    · rw [henq] at he
      cases he
  have hidle : (s.log.finish p body).busy p = none := Function.update_self _ _ _
  refine hi.write (p := p) hlog (Or.inl rfl) (fun q hq => Function.update_of_ne hq _ _)
    (fun _ h => h) (fun _ _ => rfl) (fun j' hj' => ?_) (fun x hx => absurd hx (hdone x))
    (fun b hb' => ?_)
  · rw [hidle] at hj'
    cases hj'
  · rcases List.mem_append.mp hb' with hret | hnew
    · exact Or.inl hret
    · rw [List.mem_singleton.mp hnew]
      exact Or.inr ⟨(hold.owes body hpc).resolve_right (hdone _),
        (hold.forwards body (by rw [hpc]; rfl)).2⟩

variable [DecidableEq I]

/-- The writer releases the lock of its instance and owes its payloads. -/
theorem ArchiveInv.leave (hi : ArchiveInv rt path key logs s l pending)
    (hb : s.log.busy p = some j) {body : Dict} (hpc : j.pc = .leaving body)
    (hlog : SharedInv rt path key logs ((s.log.setHolder j.inst none).goto p j s.log.disk
      (.forwarding body)) l pending') :
    ArchiveInv rt path key logs ⟨(s.log.setHolder j.inst none).goto p j s.log.disk
      (.forwarding body), s.spool, Function.update s.outbox p (forwarded rt (logs j.inst) body)⟩ l
        pending' := by
  obtain ⟨hforwards, hrecord⟩ := (hi.jobs p j hb).forwards body (by rw [hpc]; rfl)
  have hself : ((s.log.setHolder j.inst none).goto p j s.log.disk (.forwarding body)).busy p =
      some { j with pc := .forwarding body } := Shared.busy_goto_self _ p j _ _
  have hfresh : ∀ e, s.spool.enqueues p ≠ some e := by
    intro e he
    obtain ⟨j', b, hj', hpc', -⟩ := hi.owed p e.payload (Or.inr ⟨e, he, rfl⟩)
    rw [hb] at hj'
    cases hj'
    rw [hpc] at hpc'
    cases hpc'
  refine hi.write (p := p) hlog (Or.inl rfl) (fun q hq => Shared.busy_goto_of_ne _ hq j _ _)
    (fun _ h => h) (fun q hq => Function.update_of_ne hq _ _) (fun j' hj' => ?_) (fun x hx => ?_)
    (fun b hb => Or.inl hb)
  · rw [hself] at hj'
    cases hj'
    refine ⟨rfl, fun _ h => (nomatch h), fun b hw => ?_, fun b hw => Or.inr (Or.inl ?_)⟩
    · cases hw
      exact ⟨hforwards, hrecord⟩
    · cases hw
      show canonical body ∈ Function.update s.outbox p _ p
      rw [Function.update_self, forwarded, if_pos hforwards]
      exact List.mem_cons_self
  · refine ⟨_, body, hself, rfl, ?_⟩
    rcases hx with hout | ⟨e, he, -⟩
    · replace hout : x ∈ Function.update s.outbox p (forwarded rt (logs j.inst) body) p := hout
      rw [Function.update_self] at hout
      exact hout
    · exact absurd he (hfresh e)

/-- **One step of a writer.** -/
theorem ArchiveInv.advance (hi : ArchiveInv rt path key logs s l pending)
    (hlogs : ∀ i, (logs i).path = path ∧ (logs i).hmacKey = key) (hb : s.log.busy p = some j)
    (hc : Archives (logs j.inst) j.pc) (hready : s.ready (.advance p) = true) {log : Shared I P}
    (hlog : SharedInv rt path key logs log l' pending') (hgrows : j.pc.Grows l l')
    (h : Advance rt clock (logs j.inst) s.log p j log) :
    ArchiveInv rt path key logs ⟨log, s.spool, s.owing rt logs (.advance p)⟩ l' pending' := by
  have hold := hi.jobs p j hb
  have hpath : (logs j.inst).path = path := (hlogs j.inst).1
  have hcalm := hold.calm
  -- only the writer that leaves its critical section comes to owe payloads
  have howing : (∀ b, j.pc ≠ .leaving b) → s.owing rt logs (.advance p) = s.outbox := by
    intro hn
    obtain ⟨i, c, pc⟩ := j
    rw [Archive.owing, hb]
    cases pc <;> first | rfl | exact absurd rfl (hn _)
  have hstay : ∀ ino, s.log.disk.dir.read path.active = some ino →
      s.log.disk.dir.read path.active = some ino :=
    fun _ h => h
  cases h with
  | entered hpc =>
    rw [hpc] at hgrows
    rw [howing (by rw [hpc]; exact fun _ h => nomatch h)]
    exact hi.goto (r := s.log.setHolder j.inst (some p)) hb
      (by rw [hpc]; exact fun _ h => nomatch h) rfl rfl hlog (Or.inl hgrows) hstay rfl
      (fun _ h => nomatch h) (fun _ h => nomatch h) (fun _ h => nomatch h)
  | opened ino hpc hr =>
    rw [hpc] at hgrows
    rw [howing (by rw [hpc]; exact fun _ h => nomatch h)]
    rw [hpath] at hr hlog ⊢
    refine hi.goto hb (by rw [hpc]; exact fun _ h => nomatch h) rfl rfl hlog (Or.inl hgrows)
      (fun k hk => ?_) rfl (fun _ h => nomatch h) (fun k hk => ?_) (fun _ h => nomatch h)
    · rw [Disk.touch_of_some hk]
      exact hk
    · cases hk
      exact hr
  | locked ino hpc hl =>
    have hino := hold.active ino (by rw [hpc]; rfl)
    rw [hpc] at hgrows
    rw [howing (by rw [hpc]; exact fun _ h => nomatch h)]
    refine hi.goto (r := s.log.setLock ino (some p)) hb (by rw [hpc]; exact fun _ h => nomatch h)
      rfl rfl hlog (Or.inl hgrows) hstay rfl
      (fun _ h => nomatch h) (fun k hk => ?_) (fun _ h => nomatch h)
    cases hk
    exact hino
  | readFailed ino e hpc he =>
    rw [hpc] at hgrows
    rw [howing (by rw [hpc]; exact fun _ h => nomatch h)]
    have hidle : (s.log.fail p j e).busy p = none := Function.update_self _ _ _
    refine hi.quiet (p := p) hlog (Or.inl hgrows) (fun q hq => Function.update_of_ne hq _ _) hstay
      (fun j' hj' => ?_) rfl (fun j' hj' => ?_)
    · rw [hb] at hj'
      cases hj'
      rw [hpc]
      exact fun _ h => nomatch h
    · rw [hidle] at hj'
      cases hj'
  | read ino body bytes hpc he =>
    have hino := hold.active ino (by rw [hpc]; rfl)
    rw [hpc] at hgrows
    rw [howing (by rw [hpc]; exact fun _ h => nomatch h)]
    refine hi.goto hb (by rw [hpc]; exact fun _ h => nomatch h) rfl rfl hlog
      (Or.inl hgrows) hstay rfl (fun _ h => nomatch h) (fun k hk => ?_) (fun _ h => nomatch h)
    cases hk
    exact hino
  | appended ino body bytes hpc =>
    have hino := hold.active ino (by rw [hpc]; rfl)
    obtain ⟨prev, -, hbody, -⟩ := hi.log.ready hlogs hb hpc hino
    -- the record is the next of the chain, and a record payload, not an anchor
    have hseq : Json.get (Json.sortedFields body) "seq" = some (.int (lastSeq l.active + 1)) := by
      rw [hbody, get_canonical (sealed_dict rt key (recordBody_isBody rt _ _ _ rfl rfl)),
        get_sealed rt _ (by decide) (by decide)]
      exact congrArg some (Json.sortKeys_int _)
    have hrecord : isRecordPayload rt (canonical body) = true := by
      rw [hbody]
      exact isRecordPayload_sealed (recordBody_isBody rt _ _ _ rfl rfl) rfl
    rw [hpc] at hgrows hc
    rw [howing (by rw [hpc]; exact fun _ h => nomatch h)]
    refine hi.goto hb (by rw [hpc]; exact fun _ h => nomatch h) rfl rfl hlog
      (Or.inr ⟨_, hgrows, hseq⟩) hstay rfl
      (fun _ h => nomatch h) (fun _ h => nomatch h) (fun b hw => ?_)
    cases hw
    exact ⟨hc, hrecord⟩
  | unlocked ino body size hpc =>
    have hfwd := hold.forwards body (by rw [hpc]; rfl)
    rw [hpc] at hgrows
    rw [howing (by rw [hpc]; exact fun _ h => nomatch h)]
    refine hi.goto (r := s.log.setLock ino none) hb (by rw [hpc]; exact fun _ h => nomatch h) rfl
      rfl hlog (Or.inl hgrows) hstay rfl
      (fun _ h => nomatch h) (fun _ h => nomatch h) (fun b hw => ?_)
    cases hw
    exact hfwd
  | compared body size hpc =>
    have hfwd := hold.forwards body (by rw [hpc]; rfl)
    rw [hpc] at hgrows hc
    rw [howing (by rw [hpc]; exact fun _ h => nomatch h)]
    -- the file stays below the size of a rotation
    rw [if_neg (not_le.mpr hc)] at hlog ⊢
    refine hi.goto hb (by rw [hpc]; exact fun _ h => nomatch h) rfl rfl hlog
      (Or.inl hgrows) hstay rfl (fun _ h => nomatch h) (fun _ h => nomatch h) (fun b hw => ?_)
    cases hw
    exact hfwd
  | left body hpc =>
    rw [hpc] at hgrows
    cases hgrows
    have howing' : s.owing rt logs (.advance p) = Function.update s.outbox p
        (forwarded rt (logs j.inst) body) := by
      obtain ⟨i, c, pc⟩ := j
      cases hpc
      rw [Archive.owing, hb]
    rw [howing']
    exact hi.leave hb hpc hlog
  | returned body hpc =>
    rw [hpc] at hgrows
    cases hgrows
    rw [howing (by rw [hpc]; exact fun _ h => nomatch h)]
    -- a call returns once all its payloads are in the spool
    obtain ⟨hout, henq⟩ : s.outbox p = [] ∧ s.spool.enqueues p = none := by
      obtain ⟨i, c, pc⟩ := j
      cases hpc
      rw [Archive.ready, hb, Bool.and_eq_true, List.isEmpty_iff,
        Option.isNone_iff_eq_none] at hready
      exact hready
    exact hi.finish hb hpc hout henq hlog
  -- the steps of a rotation are not reached
  | headFailed body e hpc _ => rw [hpc] at hcalm; cases hcalm
  | headRead body content h hpc _ _ => rw [hpc] at hcalm; cases hcalm
  | renameFailed body h hpc _ => rw [hpc] at hcalm; cases hcalm
  | renamed body h disk hpc _ => rw [hpc] at hcalm; cases hcalm
  | recreated body h rotated hpc => rw [hpc] at hcalm; cases hcalm
  | overwritten body h rotated hpc => rw [hpc] at hcalm; cases hcalm

end Run

/-! ## Steps of the spool -/

section SpoolSteps

variable [DecidableEq P] {rt : Runtime} {clock : Nat → String} {path : ChainPath} {key : String}
  {logs : I → AuditLog}
variable {s t : Archive I P} {l : Ledger} {pending : List (P × Dict)} {p : P}

/-- A payload is taken from what a writer owes, and is on its way. -/
theorem ArchiveInv.enqueue (hi : ArchiveInv rt path key logs s l pending) {draw : String}
    {payload : Bytes} {rest : List Bytes} (hout : s.outbox p = payload :: rest)
    (hidle : s.spool.enqueues p = none)
    (hspool : SpoolInv (s.spool.create p ⟨draw ++ ".json", payload, 0⟩)) :
    ArchiveInv rt path key logs ⟨s.log, s.spool.create p ⟨draw ++ ".json", payload, 0⟩,
      Function.update s.outbox p rest⟩ l pending := by
  have howes : ∀ q x, Archive.Owes ⟨s.log, s.spool.create p ⟨draw ++ ".json", payload, 0⟩,
      Function.update s.outbox p rest⟩ q x ↔ s.Owes q x := by
    intro q x
    unfold Archive.Owes
    show x ∈ Function.update s.outbox p rest q ∨
      (∃ e, Function.update s.spool.enqueues p _ q = some e ∧ _) ↔ _
    by_cases hq : q = p
    · subst hq
      rw [Function.update_self, Function.update_self, hout, List.mem_cons, hidle]
      constructor
      · rintro (hx | ⟨e, he, rfl⟩)
        · exact Or.inl (Or.inr hx)
        · cases he
          exact Or.inl (Or.inl rfl)
      · rintro ((rfl | hx) | ⟨e, he, -⟩)
        · exact Or.inr ⟨_, rfl, rfl⟩
        · exact Or.inl hx
        · cases he
    · rw [Function.update_of_ne hq, Function.update_of_ne hq]
  exact hi.spooled hspool (hi.order.congr rfl rfl rfl) hi.chained (fun _ h => h)
    (fun q x hx => (howes q x).mp hx) (fun q x hx => Or.inl ((howes q x).mpr hx))

/-- **A payload gets its name.**  If it is a record, it is the first one of the chain that has
none. -/
theorem ArchiveInv.publish (hi : ArchiveInv rt path key logs s l pending) {e : Enqueue}
    {dir : Dir Bytes} (he : s.spool.enqueues p = some e)
    (hnext : isRecordPayload rt e.payload = true →
      payloadField rt e.payload "seq" =
        some (.int ((recordsIn (isRecordPayload rt) s.spool.published).length + 1)))
    (hspool : SpoolInv (s.spool.settle p e dir))
    (horder : OrderInv (isRecordPayload rt) (s.spool.settle p e dir)) :
    ArchiveInv rt path key logs ⟨s.log, s.spool.settle p e dir, s.outbox⟩ l pending := by
  have hpublished : (s.spool.settle p e dir).published = s.spool.published ++
      [(e.name, e.payload)] := rfl
  refine hi.spooled hspool horder ?_ (fun g hg => List.mem_append_left _ hg) (fun q x hx => ?_)
    (fun q x hx => ?_)
  · rw [Chained, hpublished, recordsIn_concat]
    by_cases hrec : isRecordPayload rt e.payload = true
    case neg =>
      rw [if_neg hrec, List.append_nil]
      exact hi.chained
    rw [if_pos hrec, List.map_append, List.map_singleton]
    -- the payload is the canonical text of a record that is in the chain already
    obtain ⟨j, b, hj, hpc, hmem⟩ := hi.owed p e.payload (Or.inr ⟨e, he, rfl⟩)
    have hpending : b ∈ s.log.returned ++ pending.map Prod.snd := by
      refine List.mem_append_right _ (List.mem_map.mpr ⟨(p, b), ?_, rfl⟩)
      exact (hi.log.mem_pending p b).mpr (by rw [Shared.writtenBy_of hj, hpc]; rfl)
    obtain ⟨b₀, hb₀, hbody⟩ := hi.log.bodies b hpending
    obtain ⟨hactive, hload⟩ := hi.mem_active hpending
    have hkind : e.payload = canonical b ∨ isRecordPayload rt e.payload = false :=
      eq_or_anchor_of_forwarded (hbody ▸ sealed_dict rt key hb₀) hmem
    have hpayload : e.payload = canonical b :=
      hkind.resolve_right (fun h => Bool.false_ne_true (h.symm.trans hrec))
    obtain ⟨i, hget⟩ := List.getElem?_of_mem hactive
    have hseq := hnext hrec
    rw [hpayload, payloadField_of_loads hload, hi.counted i _ hget] at hseq
    have hplace : i = (recordsIn (isRecordPayload rt) s.spool.published).length := by
      have hint := Json.int.inj (Option.some.inj hseq)
      omega
    rw [hpayload, hload]
    refine prefix_append_singleton hi.chained ?_
    rw [List.length_map, ← hplace, List.getElem?_map, hget]
    rfl
  · rcases hx with hout | ⟨f, hf, hfx⟩
    · exact Or.inl hout
    · replace hf : Function.update s.spool.enqueues p none q = some f := hf
      by_cases hq : q = p
      · subst hq
        rw [Function.update_self] at hf
        cases hf
      · rw [Function.update_of_ne hq] at hf
        exact Or.inr ⟨f, hf, hfx⟩
  · rcases hx with hout | ⟨f, hf, hfx⟩
    · exact Or.inl (Or.inl hout)
    · by_cases hq : q = p
      · subst hq
        rw [he] at hf
        cases hf
        right
        rw [Spool.Published, hpublished, List.map_append]
        exact List.mem_append_right _ (by rw [List.map_singleton, hfx]; exact List.mem_cons_self)
      · exact Or.inl (Or.inr ⟨f, (Function.update_of_ne hq _ _).trans hf, hfx⟩)

/-- **One step of the spool.** -/
theorem ArchiveInv.spool_step (hi : ArchiveInv rt path key logs s l pending) {a : SpoolAction P}
    (hnot : ∀ q draw payload, a ≠ .enqueue q draw payload)
    (hc : InOrder (isRecordPayload rt) s.spool a ∧ NextRecord rt s.spool a)
    (h : s.spoolStep a = some t) :
    ArchiveInv rt path key logs t l pending := by
  obtain ⟨spool, hstep, rfl⟩ := Option.map_eq_some_iff.mp h
  have hfresh : FreshName s.spool a := by
    cases a with
    | enqueue q draw payload => exact absurd rfl (hnot q draw payload)
    | _ => trivial
  have hspool := hi.spool.step hfresh hstep
  have horder := hi.order.step hi.spool hc.1 hstep
  cases spoolTransition_of_step hstep with
  | created q draw payload hn => exact absurd rfl (hnot q draw payload)
  | grown q bytes e he =>
    refine hi.same_payloads hspool horder rfl (fun r => ?_)
    show (Function.update s.spool.enqueues q _ r).map _ = _
    by_cases hr : r = q
    · rw [hr, Function.update_self, he]
      rfl
    · rw [Function.update_of_ne hr]
  | settled q e dir he hw hd => exact hi.publish he (hc.2 e he) hspool horder
  | started q hn => exact hi.same_payloads hspool horder rfl (fun _ => rfl)
  | flushes q hn => exact hi.same_payloads hspool horder rfl (fun _ => rfl)
  | stops q => exact hi.same_payloads hspool horder rfl (fun _ => rfl)
  | sends q answer pc dir posts pc' hpc hs =>
    exact hi.same_payloads hspool horder rfl (fun _ => rfl)

end SpoolSteps

/-! ## Runs -/

section Runs

variable [DecidableEq I] [DecidableEq P] {rt : Runtime} {clock : Nat → String} {path : ChainPath}
  {key : String} {logs : I → AuditLog}
variable {s t : Archive I P} {l : Ledger} {pending : List (P × Dict)}

/-- **One step.** -/
theorem ArchiveInv.step (hi : ArchiveInv rt path key logs s l pending)
    (hlogs : ∀ i, (logs i).path = path ∧ (logs i).hmacKey = key) {a : ArchiveAction I P}
    (hf : FreshDraw s a) (hc : Forwards rt logs s a)
    (h : archiveStep rt clock path logs s a = some t) :
    ∃ l' pending', ArchiveInv rt path key logs t l' pending' := by
  cases a with
  | write a =>
    simp only [archiveStep] at h
    split at h
    case isFalse => cases h
    next hready =>
    obtain ⟨log, hstep, rfl⟩ := Option.map_eq_some_iff.mp h
    have hexclusive : Exclusive path s.log a ∧ NamesAscend clock path s.log a := hi.exclusive a
    obtain ⟨l', pending', hlog, hgrows⟩ := hi.log.step hlogs hexclusive.1 hexclusive.2 hstep
    refine ⟨l', pending', ?_⟩
    cases a with
    | construct i =>
      cases hgrows
      cases hstep
      have hactive : ∀ ino, s.log.disk.dir.read path.active = some ino →
          (s.log.disk.touch (logs i).path.active).dir.read path.active = some ino := by
        intro ino hino
        rw [(hlogs i).1, Disk.touch_of_some hino]
        exact hino
      refine ⟨hlog, hi.spool, hi.order, hi.archived, hi.counted, hi.chained, fun q j hj => ?_,
        hi.owed, hi.returned⟩
      have hold := hi.jobs q j hj
      exact ⟨hold.calm, fun ino hino => hactive ino (hold.active ino hino),
        hold.forwards, hold.owes⟩
    | issue p i c =>
      cases hgrows
      simp only [sharedStep] at hstep
      split at hstep
      case isFalse => cases hstep
      next hidle =>
      cases hstep
      refine hi.quiet (p := p) hlog (Or.inl rfl) (fun q hq => Shared.busy_goto_of_ne _ hq _ _ _)
        (fun _ h => h) (fun j hj => ?_) rfl (fun j hj => ?_)
      · rw [hj] at hidle
        cases hidle
      · rw [Shared.busy_goto_self] at hj
        cases hj
        refine ⟨rfl, ?_, ?_, ?_⟩ <;> rintro _ ⟨⟩
    | advance p =>
      obtain ⟨j, hb, hadvance⟩ := Option.bind_eq_some_iff.mp hstep
      exact hi.advance hlogs hb (hc j hb) hready hlog (hgrows j hb) (advance_of_step hadvance)
  | enqueue p draw =>
    simp only [archiveStep] at h
    split at h
    case h_1 => cases h
    next payload rest hout =>
    obtain ⟨spool, hstep, rfl⟩ := Option.map_eq_some_iff.mp h
    have hfresh : FreshName s.spool (.enqueue p draw payload) := hf
    have hspool := hi.spool.step hfresh hstep
    cases spoolTransition_of_step hstep with
    | created _ _ _ hidle => exact ⟨l, pending, hi.enqueue hout hidle hspool⟩
  | writeTmp p bytes =>
    exact ⟨l, pending, hi.spool_step (a := .writeTmp p bytes) (by rintro _ _ _ ⟨⟩)
      ⟨trivial, trivial⟩ h⟩
  | publish p => exact ⟨l, pending, hi.spool_step (a := .publish p) (by rintro _ _ _ ⟨⟩) hc h⟩
  | startLoop p =>
    exact ⟨l, pending, hi.spool_step (a := .startLoop p) (by rintro _ _ _ ⟨⟩) ⟨trivial, trivial⟩ h⟩
  | startFlush p =>
    exact ⟨l, pending, hi.spool_step (a := .startFlush p) (by rintro _ _ _ ⟨⟩) ⟨trivial, trivial⟩ h⟩
  | stop p =>
    exact ⟨l, pending, hi.spool_step (a := .stop p) (by rintro _ _ _ ⟨⟩) ⟨trivial, trivial⟩ h⟩
  | send p answer =>
    exact ⟨l, pending, hi.spool_step (a := .advance p answer) (by rintro _ _ _ ⟨⟩)
      ⟨trivial, trivial⟩ h⟩
  | unlink name =>
    simp only [archiveStep] at h
    split at h
    case isFalse => cases h
    next hname =>
    -- without a rotation there is no rotated file
    obtain ⟨hrotated, hsome⟩ := Bool.and_eq_true_iff.mp hname
    have hmem := (hi.log.represents.rotated name).mp ⟨hrotated, by
      rw [Disk.read_files, Option.isSome_map]
      exact hsome⟩
    rw [hi.archived] at hmem
    cases hmem

/-- **The archive gets the chain** in every interleaving of calls, purges and senders, and for
all answers of the sink, as long as every record is forwarded, nothing is rotated, and the
records get their names in chain order. -/
theorem archive_gets_chain (rt : Runtime) (clock : Nat → String) (path : ChainPath)
    (key : String) (I P : Type) [DecidableEq I] [DecidableEq P] (logs : I → AuditLog)
    (hlogs : ∀ i, (logs i).path = path ∧ (logs i).hmacKey = key) (as : List (ArchiveAction I P))
    (s : Archive I P)
    (hm : Meets (archiveStep rt clock path logs) (fun s a => FreshDraw s a ∧ Forwards rt logs s a)
      (Archive.empty I P) as)
    (hr : run (archiveStep rt clock path logs) (Archive.empty I P) as = some s) :
    ArchiveWhole rt path s := by
  have hinv : ∃ l pending, ArchiveInv rt path key logs s l pending := hm.invariant
    (P := fun s => ∃ l pending, ArchiveInv rt path key logs s l pending)
    (fun s a t hi hc h => by
      obtain ⟨l, pending, hi⟩ := hi
      exact hi.step hlogs hc.1 hc.2 h)
    ⟨_, _, ArchiveInv.empty rt path key logs⟩ hr
  obtain ⟨l, pending, hi⟩ := hinv
  exact hi.whole

end Runs

/-! ## A decision that is not archived -/

/-- The server forwards, the review command line does not. -/
def sampleForwarders : Bool → AuditLog
  | true => ⟨sampleLog.path, "", "", 50000000, true, 100⟩
  | false => ⟨sampleLog.path, "", "", 50000000, false, 100⟩

/-- One call of a thread through the instance, up to the point where it owes its payloads. -/
def sampleWrite (p i : Bool) (id : String) : List (ArchiveAction Bool Bool) :=
  .write (.issue p i (sampleBrief id)) :: List.replicate 8 (.write (.advance p))

/-- The thread spools the record it owes. -/
def sampleSpooling (p : Bool) (draw : String) : List (ArchiveAction Bool Bool) :=
  [.enqueue p draw, .writeTmp p 1000, .publish p, .write (.advance p)]

/-- The review command line records a decision. -/
def sampleReviewRecord : List (ArchiveAction Bool Bool) :=
  sampleWrite true false "a" ++ [.write (.advance true)]

/-- Two threads of the server append before either spools its record; the sink refuses the first
request and then takes both records. -/
def sampleDelivery : List (ArchiveAction Bool Bool) :=
  sampleWrite true true "a" ++ sampleWrite false true "b" ++
    sampleSpooling true "01750000000000000000-a" ++
    sampleSpooling false "01750000000000000001-b" ++ .startLoop true ::
      List.replicate 5 (.send true (.status 503)) ++ List.replicate 12 (.send true (.status 200))

/-- **A record that the archive never gets**: the spool is empty, and the sink has nothing. -/
theorem decision_not_archived : ∃ s,
    run (archiveStep Runtime.python sampleClock sampleLog.path sampleForwarders)
      (Archive.empty Bool Bool)
      sampleReviewRecord = some s ∧
    Meets (archiveStep Runtime.python sampleClock sampleLog.path sampleForwarders) FreshDraw
      (Archive.empty Bool Bool) sampleReviewRecord ∧
    ¬ ArchiveWhole Runtime.python sampleLog.path s := by
  have hrun : (checked (archiveStep Runtime.python sampleClock sampleLog.path sampleForwarders)
    FreshDraw (Archive.empty Bool Bool) sampleReviewRecord).any (fun s => isIdle s.log &&
        (s.spool.dir.sortedNames isSpooled).isEmpty &&
        (delivered Runtime.python s.spool.posts).isEmpty &&
        (chainRecords Runtime.python sampleLog.path s.log.disk.files).any
        (fun gs => gs.length = 1)) = true := by
    decide +kernel
  obtain ⟨s, hs, hfacts⟩ := (Option.any_eq_true _ _).mp hrun
  obtain ⟨hs, hmeets⟩ := checked_eq_some hs
  simp only [Bool.and_eq_true, List.isEmpty_iff] at hfacts
  obtain ⟨⟨⟨hidle, hempty⟩, hnone⟩, hchain⟩ := hfacts
  refine ⟨s, hs, hmeets, fun hwhole => ?_⟩
  obtain ⟨ds, hds, hdelivered, -⟩ := hwhole hempty (idle_of_isIdle hidle)
  rw [hds, Option.any_some, decide_eq_true_eq, List.length_map] at hchain
  have hlen := congrArg List.length hdelivered
  rw [hnone, List.map_nil, List.length_nil, List.length_map, hchain] at hlen
  cases hlen

theorem archive_gets_chain_sample : ∃ s,
    run (archiveStep Runtime.python sampleClock sampleLog.path sampleForwarders)
      (Archive.empty Bool Bool)
      sampleDelivery = some s ∧
    s.spool.posts.length = 3 ∧ (delivered Runtime.python s.spool.posts).length = 2 ∧
    s.spool.dir.sortedNames isSpooled = [] ∧ ArchiveWhole Runtime.python sampleLog.path s := by
  have hrun : (checked (archiveStep Runtime.python sampleClock sampleLog.path sampleForwarders)
      (fun s a => FreshDraw s a ∧ Forwards Runtime.python sampleForwarders s a)
      (Archive.empty Bool Bool) sampleDelivery).any (fun s =>
      (s.spool.dir.sortedNames isSpooled).isEmpty &&
        (s.spool.posts.length = 3 && (delivered Runtime.python s.spool.posts).length =
          2)) = true := by
    decide +kernel
  obtain ⟨s, hs, hfacts⟩ := (Option.any_eq_true _ _).mp hrun
  obtain ⟨hs, hmeets⟩ := checked_eq_some hs
  simp only [Bool.and_eq_true, List.isEmpty_iff, decide_eq_true_eq] at hfacts
  exact ⟨s, hs, hfacts.2.1, hfacts.2.2, hfacts.1,
    archive_gets_chain Runtime.python sampleClock sampleLog.path "" Bool Bool
    sampleForwarders (fun i => by cases i <;> exact ⟨rfl, rfl⟩) sampleDelivery s hmeets hs⟩

end ComplianceMcp
