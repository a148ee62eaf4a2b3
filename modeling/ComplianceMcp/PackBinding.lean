import ComplianceMcp.PrettyJson
import ComplianceMcp.AuditExcerpt

/-! # What the recipient of a pack can rely on

A pack is read without the system it came from.  Its manifest and cover are JSON that reads back as
what was printed, the hash in the manifest is the one of the fields beside it, and the checksum file
gives away each listed file that is not the one packed.  The checksum file itself is listed nowhere:
it stands for the pack, and two packs with one checksum file are one pack. -/
namespace ComplianceMcp

open PyText PyJson Files Sha256

/-! ## Reading -/

/-- A file as JSON, in UTF-8. -/
def fileJson (content : Bytes) : Option Json := (decodeUtf8 content).bind PyJson.loads

theorem fileJson_pretty (st : Style) {j : Json} (hj : j.distinctKeys = true) {w : Text}
    (hw : w.all isWs = true) :
    fileJson (utf8 (pretty st 0 j ++ w)) = some j := by
  rw [fileJson, decodeUtf8_utf8, Option.bind_some, loads_pretty st 0 hj hw]

/-- A piece `str.splitlines` cuts has no line boundary in it. -/
theorem splitlines_unbroken (t : Text) : ∀ l ∈ splitlines t, ∀ c ∈ l, isLineBoundary c = false := by
  induction t using splitlines.induct with
  | case1 => exact fun l hl => absurd hl List.not_mem_nil
  | case2 r ih =>
    intro l hl
    rw [splitlines] at hl
    rcases List.mem_cons.mp hl with rfl | hl
    · exact fun c hc => absurd hc List.not_mem_nil
    · exact ih l hl
  | case3 c r hcr hc ih =>
    intro l hl
    rw [splitlines, if_pos hc] at hl
    · rcases List.mem_cons.mp hl with rfl | hl
      · exact fun c hc => absurd hc List.not_mem_nil
      · exact ih l hl
    · exact hcr
  | case4 c r hcr hc hr ih =>
    intro l hl
    rw [splitlines, if_neg hc, hr] at hl
    · rw [List.mem_singleton.mp hl]
      intro d hd
      rw [List.mem_singleton.mp hd]
      exact Bool.eq_false_iff.mpr hc
    · exact hcr
  | case5 c r hcr hc x xs hr ih =>
    intro l hl
    rw [splitlines, if_neg hc, hr] at hl
    · rcases List.mem_cons.mp hl with rfl | hl
      · intro d hd
        rcases List.mem_cons.mp hd with rfl | hd
        · exact Bool.eq_false_iff.mpr hc
        · exact ih x (by rw [hr]; exact List.mem_cons_self) d hd
      · exact ih l (by rw [hr]; exact List.mem_cons_of_mem _ hl)
    · exact hcr

/-- Unbroken lines are what `str.splitlines` finds in them joined by line feeds. -/
theorem splitlines_joined {ls : List Text} (h : ∀ l ∈ ls, ∀ c ∈ l, isLineBoundary c = false) :
    splitlines (List.intercalate ['\n'] ls ++ ['\n']) = if ls = [] then [[]] else ls := by
  cases ls with
  | nil => rfl
  | cons l ls =>
    have hjoin : List.intercalate ['\n'] (l :: ls) ++ ['\n'] = unlines (l :: ls) := by
      clear h
      induction ls generalizing l with
      | nil => simp [List.intercalate, unlines]
      | cons m ls ih =>
        have hm := ih m
        simp only [List.intercalate, List.intersperse_cons_cons, List.flatten_cons,
          unlines_cons] at hm ⊢
        simp [← hm]
    have hcr : ∀ k ∈ l :: ls, '\r' ∉ k := by
      intro k hk hc
      have hb := h k hk _ hc
      revert hb
      decide
    rw [if_neg (List.cons_ne_nil _ _), hjoin, splitlines_unlines hcr]
    have hpieces : ∀ ks : List Text, (∀ k ∈ ks, k ∈ l :: ls) → ks.flatMap pieces = ks := by
      intro ks hks
      induction ks with
      | nil => rfl
      | cons k ks ih =>
        rw [List.flatMap_cons, ih (fun x hx => hks x (List.mem_cons_of_mem _ hx)),
          pieces_eq_self (hcr k (hks k List.mem_cons_self)) (h k (hks k List.mem_cons_self))]
        rfl
    exact hpieces _ (fun _ hk => hk)

/-! ## The records of a pack as JSON -/

theorem distinctKeys_items {α : Type*} {f : α → Json} (h : ∀ a, (f a).distinctKeys = true)
    (xs : List α) :
    (Json.arr (xs.map f)).distinctKeys = true := by
  rw [Json.distinctKeys]
  induction xs with
  | nil => rfl
  | cons x xs ih => rw [List.map_cons, Json.distinctKeysItems, h, ih]; rfl

theorem Control.distinctKeys_json (c : Control) : c.json.distinctKeys = true := by
  refine Json.distinctKeys_obj_iff.mpr ⟨by simp, ?_⟩
  simp only [List.forall_mem_cons, Json.distinctKeys_str, Json.distinctKeys_strings, true_and]
  exact fun _ h => absurd h List.not_mem_nil

theorem TestResult.distinctKeys_json (t : TestResult) : t.json.distinctKeys = true := by
  refine Json.distinctKeys_obj_iff.mpr ⟨by simp, ?_⟩
  simp only [List.forall_mem_cons, Json.distinctKeys_str, true_and]
  exact fun _ h => absurd h List.not_mem_nil

theorem Ticket.distinctKeys_json (t : Ticket) : t.json.distinctKeys = true := by
  refine Json.distinctKeys_obj_iff.mpr ⟨by simp, ?_⟩
  simp only [List.forall_mem_cons, Json.distinctKeys_str, Json.distinctKeys_strings, true_and]
  exact fun _ h => absurd h List.not_mem_nil

theorem PolicyVersionRef.distinctKeys_json (v : PolicyVersionRef) : v.json.distinctKeys = true := by
  refine Json.distinctKeys_obj_iff.mpr ⟨by simp, ?_⟩
  simp only [List.forall_mem_cons, Json.distinctKeys_str, true_and]
  exact fun _ h => absurd h List.not_mem_nil

theorem EvidenceManifest.distinctKeys_json (m : EvidenceManifest) : m.json.distinctKeys = true := by
  refine Json.distinctKeys_obj_iff.mpr ⟨by simp, ?_⟩
  simp only [List.forall_mem_cons, Json.distinctKeys_str, Json.distinctKeys_strings,
    Control.distinctKeys_json, distinctKeys_items PolicyVersionRef.distinctKeys_json,
    distinctKeys_items TestResult.distinctKeys_json,
    distinctKeys_items Ticket.distinctKeys_json, true_and]
  exact fun _ h => absurd h List.not_mem_nil

theorem Cover.distinctKeys_json (c : Cover) (exportedAt : String) :
    (c.json exportedAt).distinctKeys = true := by
  refine Json.distinctKeys_obj_iff.mpr ⟨by simp, ?_⟩
  have hperiod : (Json.obj [("start", .str c.periodStart),
      ("end", .str c.periodEnd)]).distinctKeys = true := rfl
  simp only [List.forall_mem_cons, Json.distinctKeys_str, hperiod, true_and]
  exact fun _ h => absurd h List.not_mem_nil

/-- The JSON of a manifest gives all of it back, the gaps and the hash too. -/
theorem EvidenceManifest.json_injective {m n : EvidenceManifest} (h : m.json = n.json) : m = n := by
  simp only [EvidenceManifest.json, Json.obj.injEq, List.cons.injEq, Prod.mk.injEq,
    Json.str.injEq, true_and, and_true] at h
  obtain ⟨hcontrol, hstart, hend, hversions, htests, htickets, hgaps, hhash⟩ := h
  obtain ⟨⟩ := m
  obtain ⟨⟩ := n
  simp only [EvidenceManifest.mk.injEq]
  exact ⟨Control.json_faithful _ _ (congrArg Json.sortKeys hcontrol), hstart, hend,
    PolicyVersionRef.json_faithful.list _ _ (congrArg Json.sortKeys hversions),
    TestResult.json_faithful.list _ _ (congrArg Json.sortKeys htests),
    Ticket.json_faithful.list _ _ (congrArg Json.sortKeys htickets),
    strings_inj (congrArg Json.sortKeys hgaps), hhash⟩

theorem Cover.json_injective {c d : Cover} {at_ at' : String} (h : c.json at_ = d.json at') :
    c = d ∧ at_ = at' := by
  simp only [Cover.json, Json.obj.injEq, List.cons.injEq, Prod.mk.injEq, Json.str.injEq, true_and,
    and_true] at h
  obtain ⟨⟩ := c
  obtain ⟨⟩ := d
  simp only [Cover.mk.injEq]
  exact ⟨⟨h.1, h.2.1, h.2.2.1, h.2.2.2.1.1, h.2.2.2.1.2, h.2.2.2.2.1, h.2.2.2.2.2.1,
    h.2.2.2.2.2.2.1, h.2.2.2.2.2.2.2.1, h.2.2.2.2.2.2.2.2.1, h.2.2.2.2.2.2.2.2.2.1⟩,
    h.2.2.2.2.2.2.2.2.2.2⟩

/-- Without its hash a manifest is what the hash is taken of. -/
theorem EvidenceManifest.json_unsigned (m : EvidenceManifest) :
    ∃ d, m.json = .obj d ∧ Json.get d "manifest_sha256" = some (.str m.manifestSha256) ∧
      .obj (d.filter (fun f => f.1 ≠ "manifest_sha256")) = m.unsigned :=
  ⟨_, rfl, rfl, rfl⟩

/-! ## The files that are packed -/

section Packed

variable {rt : Runtime} {documents : String → Option Bytes} {auditLines : List String}
  {exporter exportedAt : String} {draft : Draft} {m : EvidenceManifest}
  {members : List (String × Bytes)}

/-- The cover of a draft, its decision and its manifest. -/
def coverOf (draft : Draft) (decision : Decision) (m : EvidenceManifest) (exporter : String) :
    Cover :=
  ⟨draft.draftId, draft.title, m.control.controlId, m.periodStart, m.periodEnd, m.manifestSha256,
    draft.requester, decision.by_, decision.at_, decision.note, exporter⟩

/-- What went into a zip that was built. -/
theorem buildZip_ok (h : buildZip rt documents auditLines exporter exportedAt draft m =
    .ok members) :
    ∃ decision ps, draft.decision = some decision ∧
    policyFiles rt documents m.policyVersions = .ok ps ∧
      members = zipMembers rt (packFiles exportedAt ⟨draft.body, m, auditLines, ps,
        coverOf draft decision m exporter⟩) := by
  cases hp : buildPack rt documents auditLines exporter draft m with
  | error e =>
    rw [buildZip, hp] at h
    cases h
  | ok pack =>
    rw [buildZip, hp] at h
    obtain ⟨hk, hst, -⟩ := buildPack_ok hp
    unfold buildPack at hp
    rw [if_neg (not_not.mpr hk)] at hp
    cases hd : draft.decision with
    | none =>
      rw [hd] at hp
      cases hp
    | some decision =>
      rw [hd] at hp
      dsimp only at hp
      rw [if_neg (not_not.mpr hst)] at hp
      cases hps : policyFiles rt documents m.policyVersions with
      | error e =>
        rw [hps] at hp
        cases hp
      | ok ps =>
        rw [hps] at hp
        cases hp
        exact ⟨decision, ps, rfl, rfl, (Except.ok.inj h).symm⟩

/-- What is packed depends on the documents the manifest names. -/
theorem policyFiles_congr {documents' : String → Option Bytes} {refs : List PolicyVersionRef}
    (h : ∀ v ∈ refs, documents v.source = documents' v.source) :
    policyFiles rt documents refs = policyFiles rt documents' refs := by
  induction refs with
  | nil => rfl
  | cons v refs ih =>
    rw [policyFiles, policyFiles, h v List.mem_cons_self,
      ih (fun w hw => h w (List.mem_cons_of_mem _ hw))]

theorem sums_not_packed (exportedAt : String) (pack : Pack) :
    (packFiles exportedAt pack).read "SHA256SUMS" = none := by
  rw [← Option.not_isSome_iff_eq_none]
  intro hsome
  rcases name_of_packFiles hsome with hfixed | ⟨p, -, hname⟩
  · revert hfixed
    decide
  · exact sourceOf_not_fixed (baseName p.1)
      (by rw [← show _ = sourceOf (baseName p.1) from hname]; decide)

/-- The documents are packed beside the other members and replace none of them. -/
theorem read_fixed {exportedAt : String} {pack : Pack} {k : String} (hk : k ∈ fixedNames)
    (hcover : k ≠ "COVER.json") :
    (packFiles exportedAt pack).read k =
    (((Dir.empty.write "index.md" (utf8 pack.index.toList)).write "manifest.json"
      (utf8 (pretty lineStyle 0 pack.manifest.json))).write "audit-excerpt.jsonl"
      (utf8 (List.intercalate ['\n'] (pack.auditExcerpt.map String.toList) ++ ['\n']))).read k := by
  unfold packFiles
  rw [Dir.read_write_of_ne _ _ hcover]
  generalize ((Dir.empty.write "index.md" (utf8 pack.index.toList)).write "manifest.json"
      (utf8 (pretty lineStyle 0 pack.manifest.json))).write "audit-excerpt.jsonl"
      (utf8 (List.intercalate ['\n'] (pack.auditExcerpt.map String.toList) ++ ['\n'])) = files
  generalize pack.policies = ps
  induction ps generalizing files with
  | nil => rfl
  | cons p ps ih =>
    rw [List.foldl_cons, ih, Dir.read_write_of_ne]
    intro he
    exact sourceOf_not_fixed (baseName p.1)
      (List.mem_cons_of_mem _ (by rw [← show k = sourceOf (baseName p.1) from he]; exact hk))

theorem read_index (exportedAt : String) (pack : Pack) :
    (packFiles exportedAt pack).read "index.md" = some (utf8 pack.index.toList) :=
  read_fixed (by decide) (by decide)

theorem read_manifest (exportedAt : String) (pack : Pack) :
    (packFiles exportedAt pack).read "manifest.json" =
      some (utf8 (pretty lineStyle 0 pack.manifest.json)) :=
  read_fixed (by decide) (by decide)

theorem read_excerpt (exportedAt : String) (pack : Pack) :
    (packFiles exportedAt pack).read "audit-excerpt.jsonl" =
    some (utf8 (List.intercalate ['\n'] (pack.auditExcerpt.map String.toList) ++ ['\n'])) :=
  read_fixed (by decide) (by decide)

theorem read_cover (exportedAt : String) (pack : Pack) :
    (packFiles exportedAt pack).read "COVER.json" =
    some (utf8 (pretty markerStyle 0 (pack.cover.json exportedAt) ++ ['\n'])) :=
  Dir.read_write_self _ _ _

/-- A file that is packed is a member of the zip. -/
theorem mem_zipMembers {files : Dir Bytes} {k : String} {b : Bytes} (hk : k ≠ "SHA256SUMS")
    (h : files.read k = some b) : (k, b) ∈ zipMembers rt files :=
  mem_sortedFiles.mpr ((Dir.read_write_of_ne _ _ hk).trans h)

theorem sums_of_mem {files : Dir Bytes} {sums : Bytes}
    (h : ("SHA256SUMS", sums) ∈ zipMembers rt files) :
    sums = sumsOf rt files :=
  (Option.some.inj ((Dir.read_write_self _ _ _).symm.trans (mem_sortedFiles.mp h))).symm

/-- No document of the manifest has a line feed in its path. -/
def OneLineNames (m : EvidenceManifest) : Prop := ∀ v ∈ m.policyVersions, '\n' ∉ v.source.toList

theorem baseName_no_break {source : String} (h : '\n' ∉ source.toList) :
    '\n' ∉ (baseName source).toList := by
  rw [baseName, String.toList_ofList, List.mem_reverse]
  exact fun hm => h (List.mem_reverse.mp ((List.takeWhile_prefix _).subset hm))

/-- The checksum file lists what is packed where no name is broken. -/
theorem listed_packed {ps : List (String × Bytes)}
    (hps : policyFiles rt documents m.policyVersions = .ok ps) (hm : OneLineNames m)
    (exportedAt body : String) (auditLines : List String) (cover : Cover) :
    listed (sumsOf rt (packFiles exportedAt ⟨body, m, auditLines, ps, cover⟩)) =
      (sortedFiles (packFiles exportedAt ⟨body, m, auditLines, ps, cover⟩)).map
        (fun e => (e.1, (rt.sha256 e.2).text)) := by
  refine listed_sumsOf (fun e he => ?_)
  rcases name_of_packFiles (by rw [mem_sortedFiles.mp he]; rfl) with hfixed | ⟨p, hp, hname⟩
  · have hall : ∀ k ∈ fixedNames, '\n' ∉ k.toList := by decide
    exact hall _ hfixed
  · obtain ⟨v, hv, hsource, -⟩ : ∃ v ∈ m.policyVersions, p.1 = v.source ∧
      documents v.source = some p.2 ∧
        (rt.sha256 p.2).text = v.sha256 := by
      obtain ⟨i, hi, rfl⟩ := List.mem_iff_getElem.mp hp
      have hall := policyFiles_ok_iff.mp hps
      have hlen : i < m.policyVersions.length := by rwa [hall.length_eq]
      exact ⟨_, List.getElem_mem hlen, hall.get hlen hi⟩
    rw [hname, String.toList_append, List.mem_append, not_or, hsource]
    exact ⟨by decide, baseName_no_break (hm v hv)⟩

end Packed

/-! ## Reading a pack back -/

/-- The recipient reads the approved index, a manifest whose hash is the one of the fields beside
it, a cover with the decision on the draft, and the audit records line by line.  A pack without
records has one empty line in their place. -/
structure ReadsBack (rt : Runtime) (draft : Draft) (m : EvidenceManifest) (records : List Text)
    (exporter exportedAt : String) (members : List (String × Bytes)) : Prop where
  index : ∃ b, ("index.md", b) ∈ members ∧ decodeUtf8 b = some draft.body.toList
  manifest : ∃ b d, ("manifest.json", b) ∈ members ∧ fileJson b = some (.obj d) ∧ m.json = .obj d ∧
    Json.get d "manifest_sha256" = some (.str
      (rt.sha256 (utf8 (dumps markerStyle
        (.obj (d.filter (fun f => f.1 ≠ "manifest_sha256")))))).text)
  cover : ∃ b decision, ("COVER.json", b) ∈ members ∧ draft.decision = some decision ∧
    fileJson b = some ((coverOf draft decision m exporter).json exportedAt)
  excerpt : ∃ b t, ("audit-excerpt.jsonl", b) ∈ members ∧ decodeUtf8 b = some t ∧
    splitlines t = if records = [] then [[]] else records

theorem computeManifest_digest {rt : Runtime} {data : Systems} {c s e : String}
    {m : EvidenceManifest} (h : computeManifest rt data c s e = .ok (some m)) :
    m.manifestSha256 = (manifestDigest rt m).text := by
  unfold computeManifest at h
  split at h
  · cases h
  simp only [bind, Except.bind] at h
  split at h
  · cases h
  cases h
  rfl

theorem auditLines_unbroken {draftId : String} {p : ChainPath} {log : Dir Bytes}
    {records : List Text} (h : auditLinesFor draftId p log = .ok records) :
    ∀ l ∈ records, ∀ c ∈ l, isLineBoundary c = false := by
  unfold auditLinesFor at h
  split at h
  · cases h
    exact fun l hl => absurd hl List.not_mem_nil
  split at h
  · cases h
  · cases h
    exact fun l hl => splitlines_unbroken _ l (List.mem_of_mem_filter hl)

/-- **A pack reads back as what was approved.**  Whatever index is exported, with a manifest of the
systems of record and the records of the audit file that mention it, the recipient reads these from
the members of the zip, and can recompute the hash of the manifest from the fields beside it. -/
theorem pack_reads_back (rt : Runtime) (data : Systems) (c s e : String) (m : EvidenceManifest)
    (hm : computeManifest rt data c s e = .ok (some m)) (draft : Draft) (p : ChainPath)
    (log : Dir Bytes) (records : List Text)
    (hrecords : auditLinesFor draft.draftId p log = .ok records) (documents : String → Option Bytes)
    (exporter exportedAt : String) (members : List (String × Bytes))
    (h : buildZip rt documents (records.map String.ofList) exporter exportedAt draft m =
      .ok members) :
    ReadsBack rt draft m records exporter exportedAt members := by
  obtain ⟨decision, ps, hdecision, -, rfl⟩ := buildZip_ok h
  constructor
  case index =>
    refine ⟨_, mem_zipMembers (by decide) (read_index _ _), ?_⟩
    exact decodeUtf8_utf8 _
  case manifest =>
    obtain ⟨d, hd, hget, hunsigned⟩ := m.json_unsigned
    refine ⟨_, d, mem_zipMembers (by decide) (read_manifest _ _), ?_, hd, ?_⟩
    · have hread := fileJson_pretty lineStyle m.distinctKeys_json (w := []) rfl
      rw [List.append_nil] at hread
      exact hread.trans (congrArg some hd)
    · rw [hget, hunsigned, computeManifest_digest hm]
      rfl
  case cover =>
    refine ⟨_, decision, mem_zipMembers (by decide) (read_cover _ _), hdecision, ?_⟩
    exact fileJson_pretty markerStyle (Cover.distinctKeys_json _ exportedAt) rfl
  case excerpt =>
    refine ⟨_, _, mem_zipMembers (by decide) (read_excerpt _ _), decodeUtf8_utf8 _, ?_⟩
    have hlines : (records.map String.ofList).map String.toList = records := by
      rw [List.map_map]
      exact (List.map_congr_left (fun _ _ => String.toList_ofList)).trans (List.map_id _)
    show splitlines (List.intercalate ['\n'] ((records.map String.ofList).map String.toList) ++
      ['\n']) = _
    rw [hlines]
    exact splitlines_joined (auditLines_unbroken hrecords)

/-- A pack of the sample's documents. -/
theorem sample_pack : ∃ data m members,
    computeManifest Runtime.python data "CTL-1" "2026-01-01" "2026-03-31" = .ok (some m) ∧
    (∀ v ∈ m.policyVersions, v.source = "policies/gifts.md") ∧
    buildZip Runtime.python (samplePolicyDir "\n").document [] "operator" "" sampleApproved m =
      .ok members := by
  have hrun : (sampleExport "\n").any (fun r => r.2.2 &&
      r.2.1.policyVersions.all (fun v => v.source = "policies/gifts.md")) = true := by
        decide +kernel
  obtain ⟨⟨data, m, built⟩, hs, hrun⟩ := (Option.any_eq_true _ _).mp hrun
  obtain ⟨hbuilt, hsources⟩ := (Bool.and_eq_true _ _).mp hrun
  obtain ⟨-, hm, hok⟩ := sampleExport_spec hs
  rw [show built = true from hbuilt] at hok
  cases hz : buildZip Runtime.python (samplePolicyDir "\n").document
    [] "operator" "" sampleApproved m with
  | error e =>
    rw [hz] at hok
    cases hok
  | ok members =>
    exact ⟨data, m, members, hm, fun v hv => of_decide_eq_true (List.all_eq_true.mp hsources v hv),
      hz⟩

/-- What is excerpted from the log does not decide whether a pack is built. -/
theorem buildZip_lines {rt : Runtime} {documents : String → Option Bytes} {auditLines : List String}
    {exporter exportedAt : String} {draft : Draft} {m : EvidenceManifest}
    {members : List (String × Bytes)}
    (h : buildZip rt documents auditLines exporter exportedAt draft m = .ok members)
    (lines : List String) :
    ∃ members', buildZip rt documents lines exporter exportedAt draft m = .ok members' := by
  obtain ⟨decision, ps, hdecision, hps, -⟩ := buildZip_ok h
  cases hp : buildPack rt documents auditLines exporter draft m with
  | error e =>
    rw [buildZip, hp] at h
    cases h
  | ok pack =>
    obtain ⟨hk, hst, -⟩ := buildPack_ok hp
    refine ⟨zipMembers rt (packFiles exportedAt ⟨draft.body, m, lines, ps,
      coverOf draft decision m exporter⟩), ?_⟩
    unfold buildZip buildPack
    rw [if_neg (not_not.mpr hk), hdecision]
    dsimp only
    rw [if_neg (not_not.mpr hst), hps]
    rfl

/-- A log with two records that mention the draft and one that does not. -/
def sampleExcerpted : Dir Bytes := Dir.empty.write "audit.jsonl" (utf8
  "\x7b\"draft\": \"D-1\"\x7d\n\x7b\"draft\": \"D-2\"\x7d\n\x7b\"approved\": \"D-1\"\x7d\n".toList)

def sampleExcerpt : List Text :=
  ["\x7b\"draft\": \"D-1\"\x7d".toList, "\x7b\"approved\": \"D-1\"\x7d".toList]

theorem pack_reads_back_sample : ∃ m members,
    buildZip Runtime.python (samplePolicyDir "\n").document
      (sampleExcerpt.map String.ofList) "operator" ""
      sampleApproved m = .ok members ∧
    ReadsBack Runtime.python sampleApproved m sampleExcerpt "operator" "" members := by
  obtain ⟨data, m, empty, hm, -, hempty⟩ := sample_pack
  obtain ⟨members, hz⟩ := buildZip_lines hempty (sampleExcerpt.map String.ofList)
  exact ⟨m, members, hz, pack_reads_back Runtime.python data _ _ _ m hm sampleApproved
    ⟨"audit", ".jsonl"⟩ sampleExcerpted sampleExcerpt (by decide +kernel) _ _ _ _ hz⟩

/-! ## Checking a pack -/

/-- What `sha256sum -c` reports in a directory: the listed files that are missing or have another
digest. -/
def reported (rt : Runtime) (received : Dir Bytes) (sums : Bytes) : List String :=
  ((listed sums).filter (fun l =>
    (received.read l.1).map (fun b => (rt.sha256 b).text) ≠ some l.2)).map Prod.fst

/-- **The check reports exactly what was altered.**  Where the checksum file arrived as it was sent,
the files it reports are the members that are missing or differ from what was packed, unless a file
of the same hash was put in the place of one.  What was added to the pack is not reported. -/
theorem altered_reported (rt : Runtime) (documents : String → Option Bytes)
    (auditLines : List String) (exporter exportedAt : String) (draft : Draft) (m : EvidenceManifest)
    (members : List (String × Bytes))
    (h : buildZip rt documents auditLines exporter exportedAt draft m = .ok members)
    (hnames : OneLineNames m) (received : Dir Bytes) (sums : Bytes)
    (hsums : ("SHA256SUMS", sums) ∈ members)
    (hfree : ∀ e ∈ members, ∀ b, received.read e.1 = some b →
      rt.sha256 b = rt.sha256 e.2 → b = e.2) :
    reported rt received sums =
      (members.filter (fun e => e.1 ≠ "SHA256SUMS" ∧ received.read e.1 ≠ some e.2)).map
        Prod.fst := by
  obtain ⟨decision, ps, -, hps, rfl⟩ := buildZip_ok h
  have hnone := sums_not_packed exportedAt ⟨draft.body, m, auditLines, ps,
    coverOf draft decision m exporter⟩
  have hlisted := listed_packed hps hnames exportedAt draft.body auditLines
    (coverOf draft decision m exporter)
  rw [sums_of_mem hsums, reported, hlisted]
  generalize packFiles exportedAt ⟨draft.body, m, auditLines, ps,
    coverOf draft decision m exporter⟩ = files
    at hnone hfree ⊢
  have hpacked : (zipMembers rt files).filter (fun e => e.1 ≠ "SHA256SUMS" ∧
    received.read e.1 ≠ some e.2) =
      (sortedFiles files).filter (fun e => received.read e.1 ≠ some e.2) := by
    rw [← sortedFiles_write hnone, List.filter_filter]
    refine List.filter_congr (fun e _ => ?_)
    rw [Bool.and_comm, ← Bool.decide_and]
  rw [hpacked, List.filter_map, List.map_map]
  refine congrArg (List.map Prod.fst) (List.filter_congr (fun e he => ?_))
  have hmem : e ∈ zipMembers rt files := by
    rw [← sortedFiles_write hnone] at he
    exact List.mem_of_mem_filter he
  -- a file with the digest of the member is the member
  refine decide_eq_decide.mpr (not_congr ⟨fun hdigest => ?_, fun hread => ?_⟩)
  · obtain ⟨b, hb, hsha⟩ := Option.map_eq_some_iff.mp hdigest
    rw [hb, hfree e hmem b hb (digest_text_inj hsha)]
  · rw [hread]
    rfl

/-- A directory with the checksum file and an index that is not the one packed. -/
def sampleReceived (sums : Bytes) : Dir Bytes :=
  (Dir.empty.write "SHA256SUMS" sums).write "index.md" (utf8 "other".toList)

theorem altered_reported_sample : ∃ m members sums,
    buildZip Runtime.python (samplePolicyDir "\n").document [] "operator" "" sampleApproved
      m = .ok members ∧
    reported Runtime.python (sampleReceived sums) sums =
      (members.filter (fun e => e.1 ≠ "SHA256SUMS" ∧ (sampleReceived sums).read e.1 ≠ some e.2)).map
        Prod.fst := by
  obtain ⟨data, m, members, -, hsources, hz⟩ := sample_pack
  have hnames : OneLineNames m := by
    intro v hv
    rw [hsources v hv]
    decide
  obtain ⟨decision, ps, -, -, hmembers⟩ := buildZip_ok hz
  have hsums : ("SHA256SUMS", sumsOf Runtime.python (packFiles "" ⟨sampleApproved.body, m, [], ps,
      coverOf sampleApproved decision m "operator"⟩)) ∈ members := by
    rw [hmembers]
    exact mem_sortedFiles.mpr (Dir.read_write_self _ _ _)
  refine ⟨m, members, _, hz, altered_reported Runtime.python _ _ _ _ _ m members hz
    hnames _ _ hsums ?_⟩
  rintro ⟨k, content⟩ he b hb hsha
  rw [hmembers] at he
  have hread := mem_sortedFiles.mp he
  unfold sampleReceived at hb
  rw [Dir.read_write, Dir.read_write] at hb
  by_cases hk : k = "index.md"
  · subst hk
    rw [if_pos rfl] at hb
    rw [Dir.read_write_of_ne _ _ (show "index.md" ≠ "SHA256SUMS" by decide)] at hread
    obtain rfl : utf8 "other".toList = b := Option.some.inj hb
    obtain rfl : utf8 "index".toList = content :=
      Option.some.inj ((read_index _ _).symm.trans hread)
    have hne : Runtime.python.sha256 (utf8 "other".toList) ≠ Runtime.python.sha256
        (utf8 "index".toList) := by
      decide +kernel
    exact absurd hsha hne
  · rw [if_neg hk] at hb
    by_cases hks : k = "SHA256SUMS"
    · subst hks
      rw [Dir.read_write_self] at hread
      rw [if_pos rfl] at hb
      exact Option.some.inj (hb.symm.trans hread)
    · rw [if_neg hks] at hb
      cases hb

/-- The files are known from what is listed, where no two of one name share a hash. -/
theorem sortedFiles_of_listed {rt : Runtime} {files files' : Dir Bytes}
    (hnone : files.read "SHA256SUMS" = none) (hnone' : files'.read "SHA256SUMS" = none)
    (hfree : ∀ e ∈ zipMembers rt files, ∀ e' ∈ zipMembers rt files', e.1 = e'.1 →
      rt.sha256 e.2 = rt.sha256 e'.2 → e.2 = e'.2)
    (h : (sortedFiles files).map (fun e => (e.1, (rt.sha256 e.2).text)) =
      (sortedFiles files').map (fun e => (e.1, (rt.sha256 e.2).text))) : sortedFiles files =
        sortedFiles files' := by
  have hmem : ∀ {f : Dir Bytes} {e : String × Bytes}, f.read "SHA256SUMS" = none →
    e ∈ sortedFiles f →
      e ∈ zipMembers rt f := by
    intro f e hf he
    rw [← sortedFiles_write hf] at he
    exact List.mem_of_mem_filter he
  have hlen : (sortedFiles files).length = (sortedFiles files').length := by
    simpa using congrArg List.length h
  refine List.ext_getElem hlen (fun i hi hi' => ?_)
  have hi'' := List.getElem_of_eq h (i := i) (by rwa [List.length_map])
  rw [List.getElem_map, List.getElem_map, Prod.mk.injEq] at hi''
  exact Prod.ext hi''.1 (hfree _ (hmem hnone (List.getElem_mem hi)) _
    (hmem hnone' (List.getElem_mem hi')) hi''.1
    (digest_text_inj hi''.2))

theorem read_of_sortedFiles {files files' : Dir Bytes} (h : sortedFiles files = sortedFiles files')
    (k : String) :
    files.read k = files'.read k := by
  refine Option.ext (fun b => ?_)
  have hk : ∀ f : Dir Bytes, f.read k = some b ↔ (k, b) ∈ sortedFiles f :=
    fun _ => (mem_sortedFiles (e := (k, b))).symm
  rw [hk, hk, h]

theorem sortedFiles_congr {files files' : Dir Bytes} (h : ∀ k, files.read k = files'.read k) :
    sortedFiles files = sortedFiles files' := by
  have hnames : files.sortedNames (fun _ => true) = files'.sortedNames (fun _ => true) := by
    refine Dir.sortedNames_eq (files'.sortedNames_pairwise _) (fun n => ?_)
    rw [Dir.mem_sortedNames, h]
  rw [sortedFiles, sortedFiles, hnames]
  exact List.map_congr_left (fun n _ => by rw [h])

/-- **A checksum file stands for one pack.**  Two packs with the same checksum file have the
same members, and so the same manifest, index and cover, unless two of their members of one
name share a hash. -/
theorem sums_bind_pack (rt : Runtime) (documents documents' : String → Option Bytes)
    (auditLines auditLines' : List String) (exporter exporter' exportedAt exportedAt' : String)
    (draft draft' : Draft) (m m' : EvidenceManifest) (members members' : List (String × Bytes))
    (h : buildZip rt documents auditLines exporter exportedAt draft m = .ok members)
    (h' : buildZip rt documents' auditLines' exporter' exportedAt' draft' m' = .ok members')
    (hnames : OneLineNames m) (hnames' : OneLineNames m') (sums : Bytes)
    (hsums : ("SHA256SUMS", sums) ∈ members) (hsums' : ("SHA256SUMS", sums) ∈ members')
    (hfree : ∀ e ∈ members, ∀ e' ∈ members', e.1 = e'.1 →
      rt.sha256 e.2 = rt.sha256 e'.2 → e.2 = e'.2) :
    members = members' ∧ m = m' ∧ draft.body = draft'.body ∧ exportedAt = exportedAt' ∧
      ∃ decision decision', draft.decision = some decision ∧ draft'.decision = some decision' ∧
        coverOf draft decision m exporter = coverOf draft' decision' m' exporter' := by
  obtain ⟨decision, ps, hdecision, hps, rfl⟩ := buildZip_ok h
  obtain ⟨decision', ps', hdecision', hps', rfl⟩ := buildZip_ok h'
  have hlisted := listed_packed hps hnames exportedAt draft.body auditLines
    (coverOf draft decision m exporter)
  have hlisted' := listed_packed hps' hnames' exportedAt' draft'.body auditLines'
    (coverOf draft' decision' m' exporter')
  rw [← sums_of_mem hsums] at hlisted
  rw [← sums_of_mem hsums'] at hlisted'
  have hfiles := sortedFiles_of_listed (sums_not_packed exportedAt _)
    (sums_not_packed exportedAt' _) hfree
    (hlisted.symm.trans hlisted')
  have hread := read_of_sortedFiles hfiles
  have hindex := (read_index _ _).symm.trans ((hread _).trans (read_index _ _))
  have hmanifest := (read_manifest _ _).symm.trans ((hread _).trans (read_manifest _ _))
  have hcover := (read_cover _ _).symm.trans ((hread _).trans (read_cover _ _))
  have hm : m = m' := EvidenceManifest.json_injective
    (pretty_injective m.distinctKeys_json m'.distinctKeys_json
      (utf8_injective (Option.some.inj hmanifest)))
  obtain ⟨hc, hat⟩ := Cover.json_injective (pretty_injective (Cover.distinctKeys_json _ _)
    (Cover.distinctKeys_json _ _)
    (List.append_cancel_right (utf8_injective (Option.some.inj hcover))))
  refine ⟨?_, hm, String.toList_inj.mp (utf8_injective (Option.some.inj hindex)), hat,
    decision, decision', hdecision, hdecision', hc⟩
  refine sortedFiles_congr (fun k => ?_)
  rw [sumsOf, sumsOf, hfiles, Dir.read_write, Dir.read_write, hread]

/-- Another directory, with the sample's document and more. -/
def sampleShelf (source : String) : Option Bytes :=
  if source = "policies/gifts.md" then some (sampleDocument "\n") else some []

theorem sums_bind_pack_sample : ∃ m members members',
    buildZip Runtime.python (samplePolicyDir "\n").document [] "operator" "" sampleApproved
      m = .ok members ∧
    buildZip Runtime.python sampleShelf [] "operator" "" sampleApproved m = .ok members' ∧
    members = members' := by
  obtain ⟨data, m, members, -, hsources, hz⟩ := sample_pack
  have hnames : OneLineNames m := by
    intro v hv
    rw [hsources v hv]
    decide
  obtain ⟨decision, ps, -, -, hmembers⟩ := buildZip_ok hz
  have hsums : ("SHA256SUMS", sumsOf Runtime.python (packFiles "" ⟨sampleApproved.body, m, [], ps,
      coverOf sampleApproved decision m "operator"⟩)) ∈ members := by
    rw [hmembers]
    exact mem_sortedFiles.mpr (Dir.read_write_self _ _ _)
  have hdocument : (samplePolicyDir "\n").document "policies/gifts.md" =
      sampleShelf "policies/gifts.md" := by
    decide +kernel
  have hz' : buildZip Runtime.python sampleShelf [] "operator" "" sampleApproved m =
      .ok members := by
    rw [← hz, buildZip, buildZip, buildPack, buildPack, policyFiles_congr (fun v hv => ?_)]
    rw [hsources v hv, hdocument]
  refine ⟨m, members, members, hz, hz', ?_⟩
  refine (sums_bind_pack Runtime.python _ _ _ _ _ _ _ _ _ _ m m members members hz hz' hnames hnames
    _ hsums hsums ?_).1
  rintro ⟨k, b⟩ he ⟨k', b'⟩ he' hk -
  obtain rfl : k = k' := hk
  rw [hmembers] at he he'
  have hread := mem_sortedFiles.mp he
  have hread' := mem_sortedFiles.mp he'
  exact Option.some.inj (hread.symm.trans hread')

end ComplianceMcp
