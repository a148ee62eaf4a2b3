import ComplianceMcp.AuditSequence

/-! # What tampering `verify` can miss

An attacker without the key replaces every chain file by contents of its choice: edits,
deletions, reorderings, splices, copies of genuine records.  `Unforgeable` states what
cryptography gives, for the records that occur in the two directories and no others:
the digest does not collide on their bodies and is never `GENESIS`, and a record with a
valid MAC carries a digest the writer has MACed.  Under it a chain that `verify` accepts
is a prefix of the chain that was written (`accepted_is_prefix`). -/
namespace ComplianceMcp

open PyJson PyText Files HashChain

variable (rt : Runtime)

/-- The part of a record its digest is taken over. -/
def bodyOf (d : Dict) : Dict := Json.without d ["hash", "mac"]

/-- The record is in a line of the chain. -/
def Appears (p : ChainPath) (d : Dir Bytes) (rec : Dict) : Prop :=
  ∃ js, chainRecords rt p d = some js ∧ Json.obj rec ∈ js

/-- What the digest and the MAC promise about the records of a written chain and of the
chain an attacker left in its place. -/
structure Unforgeable (key : String) (p : ChainPath) (written tampered : Dir Bytes) : Prop where
  /-- Bodies with the same digest are the same `dict`. -/
  injective : ∀ a b, Appears rt p written a ∨ Appears rt p tampered a →
    Appears rt p written b ∨ Appears rt p tampered b →
    digest rt (bodyOf a) = digest rt (bodyOf b) →
    Json.sortedFields (bodyOf a) = Json.sortedFields (bodyOf b)
  /-- No body has the digest a chain starts from. -/
  not_genesis : ∀ a, Appears rt p written a → digest rt (bodyOf a) ≠ GENESIS
  /-- The attacker has valid MACs for digests the writer has MACed, and for no others. -/
  macs : ∀ b h, Appears rt p tampered b → Json.get b "hash" = some (.str h) →
    Json.get b "mac" = some (.str (mac rt key h)) →
    ∃ a, Appears rt p written a ∧ Json.get a "hash" = some (.str h)

variable {rt}

/-! ## Parsed records -/

theorem fileRecords_distinctKeys {content : Bytes} {js : List Json}
    (h : fileRecords rt content = some js) : ∀ j ∈ js, j.distinctKeys = true := by
  obtain ⟨ls, -, hm⟩ := Option.bind_eq_some_iff.mp h
  clear h
  generalize ls.filter (fun l => !blank l) = ts at hm
  induction ts generalizing js with
  | nil =>
    cases hm
    exact fun j hj => absurd hj List.not_mem_nil
  | cons t ts ih =>
    rw [List.mapM_cons] at hm
    obtain ⟨k, hk, hm⟩ := Option.bind_eq_some_iff.mp hm
    obtain ⟨ks, hks, hm⟩ := Option.bind_eq_some_iff.mp hm
    cases hm
    intro j hj
    rcases List.mem_cons.mp hj with rfl | hj
    · exact rt.loads_distinctKeys t j hk
    · exact ih hks j hj

theorem chainRecords_distinctKeys {p : ChainPath} {d : Dir Bytes} {js : List Json}
    (h : chainRecords rt p d = some js) : ∀ j ∈ js, j.distinctKeys = true := by
  rw [chainRecords] at h
  generalize chainFiles p d = names at h
  obtain ⟨gs, hg, rfl⟩ := Option.map_eq_some_iff.mp h
  clear h
  induction names generalizing gs with
  | nil =>
    cases hg
    exact fun j hj => absurd hj List.not_mem_nil
  | cons name names ih =>
    obtain ⟨content, -, hg⟩ := Option.bind_eq_some_iff.mp hg
    obtain ⟨js, hjs, hg⟩ := Option.bind_eq_some_iff.mp hg
    obtain ⟨gs, hgs, rfl⟩ := Option.map_eq_some_iff.mp hg
    intro j hj
    rw [List.flatten_cons] at hj
    rcases List.mem_append.mp hj with hj | hj
    · exact fileRecords_distinctKeys hjs j hj
    · exact ih gs hgs j hj

theorem Appears.nodup {p : ChainPath} {d : Dir Bytes} {rec : Dict} (h : Appears rt p d rec) :
    (rec.map Prod.fst).Nodup := by
  obtain ⟨js, hjs, hm⟩ := h
  exact (Json.distinctKeys_obj_iff.mp (chainRecords_distinctKeys hjs _ hm)).1

theorem appears_of_mem {p : ChainPath} {d : Dir Bytes} {ds : List Dict}
    (h : chainRecords rt p d = some (ds.map .obj)) {rec : Dict} (hm : rec ∈ ds) :
    Appears rt p d rec :=
  ⟨_, h, List.mem_map_of_mem hm⟩

theorem RepresentsAs.appears_iff {f : Form rt} {p : ChainPath} {d : Dir Bytes} {l : Ledger}
    (h : RepresentsAs f p d l) {rec : Dict} : Appears rt p d rec ↔ rec ∈ l.records := by
  constructor
  · rintro ⟨js, hjs, hm⟩
    rw [h.chainRecords] at hjs
    cases hjs
    obtain ⟨r, hr, he⟩ := List.mem_map.mp hm
    rw [← Json.obj.inj he]
    exact hr
  · exact appears_of_mem h.chainRecords

/-- A keyed genuine record is determined by its body: digest and MAC are functions of it. -/
theorem Genuine.ext {key : String} (hk : key ≠ "") {a b : Dict} (ha : Genuine rt key a)
    (hb : Genuine rt key b) (hna : (a.map Prod.fst).Nodup) (hnb : (b.map Prod.fst).Nodup)
    (h : Json.sortedFields (bodyOf a) = Json.sortedFields (bodyOf b)) :
    Json.sortedFields a = Json.sortedFields b := by
  have hd : digest rt (bodyOf a) = digest rt (bodyOf b) := digest_congr rt h
  refine Json.sortedFields_ext hna hnb (fun k => ?_)
  by_cases hmem : k ∈ ["hash", "mac"]
  · rcases List.mem_cons.mp hmem with rfl | hmem
    · rw [ha.hash, hb.hash]
      exact congrArg (fun s => Option.map Json.sortKeys (some (Json.str s))) hd
    · rw [List.mem_singleton.mp hmem, ha.mac hk, hb.mac hk]
      exact congrArg (fun s => Option.map Json.sortKeys
        (some (Json.str (ComplianceMcp.mac rt key s)))) hd
  · have hwa : ((bodyOf a).map Prod.fst).Nodup := hna.sublist (List.filter_sublist.map Prod.fst)
    have hwb : ((bodyOf b).map Prod.fst).Nodup := hnb.sublist (List.filter_sublist.map Prod.fst)
    rw [← Json.get_without hna hmem, ← Json.get_without hnb hmem]
    show (Json.get (bodyOf a) k).map Json.sortKeys = (Json.get (bodyOf b) k).map Json.sortKeys
    rw [← Json.get_sortedFields hwa, ← Json.get_sortedFields hwb, h]

/-- One call through an instance that rotates after every record. -/
def sampleOps : List LogOp := [.write sampleLog (sampleCall "a")]

/-- The body of the sample's marker. -/
def sampleMarkerBody : Dict :=
  markerBody sampleLog (sampleCall "a").markerStamp "audit.20250101T000000.000000001Z.jsonl"
    (.str sampleHash)

theorem digest_sampleMarkerBody : digest Runtime.python sampleMarkerBody =
    "326d8fc4275bcd99c9947cf0849a0596b05b7a1b435ad1cd699864afaee431a0" := by decide +kernel

/-- The ledger of the sample: one archived record, and the marker in the active file. -/
def sampleLedger : Ledger :=
  ⟨[("audit.20250101T000000.000000001Z.jsonl", [stored Runtime.python "k" sampleBody])],
    [stored Runtime.python "k" sampleMarkerBody]⟩

theorem sample_run : ∃ outcomes w,
    runOps Runtime.python sampleClock sampleOps World.empty = (outcomes, w) ∧
      Represents Runtime.python sampleLog.path w.dir sampleLedger := by
  have hempty := Consistent.empty Runtime.python sampleClock sampleLog.path "k"
  obtain ⟨n, prev, -, size, w, hn, hp, -, -, hwrite, -, hres⟩ :=
    @write_represents Runtime.python _ sampleClock
    sampleLog _ _ hempty.represents hempty.sound.continues
    (fun _ hm => absurd hm List.not_mem_nil) (sampleCall "a")
  obtain rfl : GENESIS = prev := Json.str.inj (Option.some.inj hp)
  subst hn
  refine ⟨_, w, by rw [sampleOps, runOps, hwrite]; rfl, ?_⟩
  rcases hres with ⟨hsize, -, -⟩ | ⟨-, -, prev', hp', hrep⟩
  · exact absurd (Int.natCast_nonneg size) hsize
  · have hhash : HashChain.head chainLinks genesis
        [writtenRecord Runtime.python sampleLog (sampleCall "a") 1 GENESIS] =
          some (.str (digest Runtime.python sampleBody)) :=
      get_parsed_hash Runtime.python "k" (recordBody_isBody _ _ _ _ rfl rfl)
    rw [digest_sampleBody] at hhash
    obtain rfl : sampleHash = prev' := Json.str.inj (Option.some.inj (hhash.symm.trans hp'))
    exact hrep

theorem sample_unforgeable {d : Dir Bytes}
    (hw : Represents Runtime.python sampleLog.path d sampleLedger) :
    Unforgeable Runtime.python "k" sampleLog.path d (d.remove sampleLog.path.active) := by
  have hmark : IsBody sampleMarkerBody := markerBody_isBody _ _ _ rfl
  have hd₁ : digest Runtime.python (bodyOf (stored Runtime.python "k" sampleBody)) =
      sampleHash := (digest_parsed _ _ sampleBody_isBody).trans digest_sampleBody
  have hd₂ : digest Runtime.python (bodyOf (stored Runtime.python "k" sampleMarkerBody)) = _ :=
    (digest_parsed _ _ hmark).trans digest_sampleMarkerBody
  have hmem : ∀ a, Appears Runtime.python sampleLog.path d a →
      a = stored Runtime.python "k" sampleBody ∨
      a = stored Runtime.python "k" sampleMarkerBody := by
    intro a ha
    simpa [sampleLedger, Ledger.records, Ledger.files] using hw.appears_iff.mp ha
  have hcut : ∀ a, Appears Runtime.python sampleLog.path (d.remove sampleLog.path.active) a →
      a = stored Runtime.python "k" sampleBody := by
    intro a ha
    simpa [sampleLedger, Ledger.records, Ledger.files] using hw.removeActive.appears_iff.mp ha
  refine ⟨fun a b ha hb hab => ?_, fun a ha => ?_, fun b h hb hh _ => ?_⟩
  · have ha := ha.elim (hmem a) (fun h => Or.inl (hcut a h))
    have hb := hb.elim (hmem b) (fun h => Or.inl (hcut b h))
    rcases ha with rfl | rfl <;> rcases hb with rfl | rfl
    · rfl
    · exact absurd (hd₁.symm.trans (hab.trans hd₂)) (by decide)
    · exact absurd (hd₂.symm.trans (hab.trans hd₁)) (by decide)
    · rfl
  · rcases hmem a ha with rfl | rfl
    · rw [hd₁]
      decide
    · rw [hd₂]
      decide
  · rw [hcut b hb] at hh
    exact ⟨_, hw.appears_iff.mpr List.mem_cons_self, hh⟩

end ComplianceMcp
