import ComplianceMcp.ManifestHash
import ComplianceMcp.PolicyFiles

/-! # Evidence packs as files

A pack leaves as a zip of the index, the manifest, the audit excerpt, the policy documents and
a cover, with a checksum file over all of them.  A document is packed only if its bytes have
the hash the manifest records; that hash is the one of its text with every line end a line
feed, so a document with a carriage return in it is refused although nobody changed it. -/
namespace ComplianceMcp

open PyText PyJson Files Sha256

/-! ## Indented JSON -/

/-- A line break and the indentation of the next line. -/
def newline (pad : Nat) : Text := '\n' :: List.replicate pad ' '

mutual
/-- The text of a value with `indent=2`, at the given indentation. -/
def pretty (st : Style) (pad : Nat) : Json → Text
  | .arr (x :: xs) => '[' :: (newline (pad + 2) ++ pretty st (pad + 2) x ++ prettyItems st pad xs)
  | .obj ((k, v) :: fs) =>
    '{' :: (newline (pad + 2) ++ '"' :: (quoted st k ++ [':', ' '] ++ pretty st (pad + 2) v ++
      prettyFields st pad fs))
  | j => render st j
/-- The items after the first one, and the closing bracket. -/
def prettyItems (st : Style) (pad : Nat) : List Json → Text
  | [] => newline pad ++ [']']
  | x :: xs => ',' :: (newline (pad + 2) ++ pretty st (pad + 2) x ++ prettyItems st pad xs)
/-- The fields after the first one, and the closing brace. -/
def prettyFields (st : Style) (pad : Nat) : List (String × Json) → Text
  | [] => newline pad ++ ['}']
  | (k, v) :: fs =>
    ',' :: (newline (pad + 2) ++ '"' :: (quoted st k ++ [':', ' '] ++ pretty st (pad + 2) v ++
      prettyFields st pad fs))
end

/-- The model's fields, in their order. -/
def EvidenceManifest.json (m : EvidenceManifest) : Json :=
  .obj [("control", m.control.json), ("period_start", .str m.periodStart),
    ("period_end", .str m.periodEnd),
    ("policy_versions", .arr (m.policyVersions.map PolicyVersionRef.json)),
    ("test_results", .arr (m.testResults.map TestResult.json)),
    ("change_tickets", .arr (m.changeTickets.map Ticket.json)), ("gaps", .arr (m.gaps.map .str)),
    ("manifest_sha256", .str m.manifestSha256)]

def Cover.json (c : Cover) (exportedAt : String) : Json :=
  .obj [("draft_id", .str c.draftId), ("title", .str c.title), ("control_id", .str c.controlId),
    ("period", .obj [("start", .str c.periodStart), ("end", .str c.periodEnd)]),
    ("manifest_sha256", .str c.manifestSha256), ("requested_by", .str c.requestedBy),
    ("approved_by", .str c.approvedBy), ("approved_at", .str c.approvedAt),
    ("approval_note", .str c.approvalNote), ("exported_by", .str c.exportedBy),
    ("exported_at", .str exportedAt)]

/-! ## The members of the zip -/

/-- `Path(source).name`. -/
def baseName (source : String) : String :=
  String.ofList (source.toList.reverse.takeWhile (· ≠ '/')).reverse

/-- The dictionary `files` of `build_pack`, before the checksums. -/
def packFiles (exportedAt : String) (pack : Pack) : Dir Bytes :=
  let files := ((Dir.empty.write "index.md" (utf8 pack.index.toList)).write "manifest.json"
    (utf8 (pretty lineStyle 0 pack.manifest.json))).write "audit-excerpt.jsonl"
    (utf8 (List.intercalate ['\n'] (pack.auditExcerpt.map String.toList) ++ ['\n']))
  let files := pack.policies.foldl
    (fun files p => files.write ("policies/" ++ baseName p.1) p.2) files
  files.write "COVER.json" (utf8 (pretty markerStyle 0 (pack.cover.json exportedAt) ++ ['\n']))

/-- `sorted(files.items())`; the names differ. -/
def sortedFiles (files : Dir Bytes) : List (String × Bytes) :=
  (files.sortedNames (fun _ => true)).map (fun n => (n, (files.read n).getD []))

variable (rt : Runtime)

/-- A line of `SHA256SUMS`. -/
def sumLine (e : String × Bytes) : Text := (rt.sha256 e.2).text.toList ++ ' ' :: ' ' :: e.1.toList

/-- `files["SHA256SUMS"]`. -/
def sumsOf (files : Dir Bytes) : Bytes := fileOf ((sortedFiles files).map (sumLine rt))

/-- The members of the zip, in the order in which they are written. -/
def zipMembers (files : Dir Bytes) : List (String × Bytes) :=
  sortedFiles (files.write "SHA256SUMS" (sumsOf rt files))

/-- `build_pack`, as the members of the zip it returns. -/
def buildZip (documents : String → Option Bytes) (auditLines : List String)
    (exporter exportedAt : String) (draft : Draft) (m : EvidenceManifest) :
    Except PyError (List (String × Bytes)) :=
  (buildPack rt documents auditLines exporter draft m).map
  (fun pack => zipMembers rt (packFiles exportedAt pack))

/-- `(data_dir / source).read_bytes()`. -/
def PolicyDir.document (files : PolicyDir) (source : String) : Option Bytes :=
  (files.dir.names.find? (fun n => sourceOf n = source)).bind files.dir.read

/-! ## What the recipient checks -/

/-- The name and the digest in a line of a checksum file. -/
def sumEntry (line : Text) : String × String :=
  (String.ofList ((line.drop 66).takeWhile (· ≠ '\n')), String.ofList (line.take 64))

/-- What a checksum file lists. -/
def listed (sums : Bytes) : List (String × String) :=
  (lines ((decodeUtf8 sums).getD [])).map sumEntry

/-- The zip has the documents of the manifest as they are in the directory and with the hashes
it records, and its checksum file lists every other member exactly once, with its digest. -/
structure PackVerifies (files : PolicyDir) (m : EvidenceManifest)
    (members : List (String × Bytes)) : Prop where
  nodup : (members.map Prod.fst).Nodup
  sums : ∃ sums, ("SHA256SUMS", sums) ∈ members ∧ listed sums =
    (members.filter (fun e => e.1 ≠ "SHA256SUMS")).map (fun e => (e.1, (rt.sha256 e.2).text))
  policies : ∀ v ∈ m.policyVersions, ∃ n content, v.source = sourceOf n ∧
    files.dir.read n = some content ∧
    (sourceOf n, content) ∈ members ∧ (rt.sha256 content).text = v.sha256

/-- The index is exported without a refusal and the pack verifies. -/
def Exports (files : PolicyDir) (auditLines : List String) (exporter exportedAt : String)
    (draft : Draft) (m : EvidenceManifest) : Prop :=
  ∃ members, buildZip rt files.document auditLines exporter exportedAt draft m = .ok members ∧
    PackVerifies rt files m members

/-- An approved index; the table keeps the decision with the status. -/
structure ApprovedIndex (draft : Draft) : Prop where
  kind : draft.kind = .evidencePackIndex
  status : draft.status = .approved
  decision : draft.decision.isSome = true

/-- No document of the manifest has a carriage return in it, or a line feed in its name. -/
def PlainDocuments (files : PolicyDir) (m : EvidenceManifest) : Prop :=
  ∀ v ∈ m.policyVersions, ∀ n, v.source = sourceOf n → '\n' ∉ n.toList ∧
    ∀ content text, files.dir.read n = some content → decodeUtf8 content = some text → '\r' ∉ text

/-- No two texts of a document, before and after its line ends are made alike, share a hash. -/
def DistinctTexts (files : PolicyDir) : Prop :=
  ∀ n content text, files.dir.read n = some content → decodeUtf8 content = some text →
    rt.sha256 content = rt.sha256 (utf8 (universal text)) → content = utf8 (universal text)

/-! ## Reading a pack back -/

section Members

variable {rt : Runtime}

theorem baseName_sourceOf {n : String} (h : '/' ∉ n.toList) : baseName (sourceOf n) = n := by
  have hrev : (sourceOf n).toList.reverse = n.toList.reverse ++ '/' :: "seicilop".toList := by
    rw [sourceOf, String.toList_append, List.reverse_append]
    exact congrArg (n.toList.reverse ++ ·) (by decide)
  have hall : ∀ c ∈ n.toList.reverse, decide (c ≠ '/') = true := by
    intro c hc
    exact decide_eq_true (fun he => h (he ▸ List.mem_reverse.mp hc))
  rw [baseName, hrev, List.takeWhile_append_of_pos hall, List.takeWhile_cons_of_neg (by decide),
    List.append_nil, List.reverse_reverse, String.ofList_toList]

/-- What was packed under a name, when all that was packed under it is the same. -/
theorem read_packed {ps : List (String × Bytes)} {k : String} {c : Bytes} {files : Dir Bytes}
    (h : ∀ p ∈ ps, "policies/" ++ baseName p.1 = k → p.2 = c) :
    (ps.foldl (fun files p => files.write ("policies/" ++ baseName p.1) p.2) files).read k =
      if ∃ p ∈ ps, "policies/" ++ baseName p.1 = k then some c else files.read k := by
  induction ps generalizing files with
  | nil => rw [if_neg (fun ⟨p, hp, _⟩ => absurd hp List.not_mem_nil)]; rfl
  | cons p ps ih =>
    rw [List.foldl_cons, ih (fun q hq => h q (List.mem_cons_of_mem _ hq))]
    by_cases hps : ∃ q ∈ ps, "policies/" ++ baseName q.1 = k
    · obtain ⟨q, hq, hk⟩ := hps
      rw [if_pos ⟨q, hq, hk⟩, if_pos ⟨q, List.mem_cons_of_mem _ hq, hk⟩]
    · rw [if_neg hps, Dir.read_write]
      by_cases hk : k = "policies/" ++ baseName p.1
      · rw [if_pos hk, if_pos ⟨p, List.mem_cons_self, hk.symm⟩, h p List.mem_cons_self hk.symm]
      · rw [if_neg hk, if_neg]
        rintro ⟨q, hq, hqk⟩
        rcases List.mem_cons.mp hq with rfl | hq
        · exact hk hqk.symm
        · exact hps ⟨q, hq, hqk⟩

/-- The members other than the documents. -/
def fixedNames : List String := ["index.md", "manifest.json", "audit-excerpt.jsonl", "COVER.json"]

theorem sourceOf_not_fixed (n : String) : sourceOf n ∉ "SHA256SUMS" :: fixedNames := by
  intro h
  have hhead : ∀ k ∈ "SHA256SUMS" :: fixedNames, k.toList.head? ≠ some 'p' := by decide
  refine hhead _ h ?_
  rw [sourceOf, String.toList_append]
  rfl

theorem name_of_packed {ps : List (String × Bytes)} {files : Dir Bytes} {k : String}
    (h : ((ps.foldl (fun files p => files.write ("policies/" ++ baseName p.1) p.2) files).read
      k).isSome = true) :
    (files.read k).isSome = true ∨ ∃ p ∈ ps, k = "policies/" ++ baseName p.1 := by
  induction ps generalizing files with
  | nil => exact Or.inl h
  | cons p ps ih =>
    rcases ih h with h | ⟨q, hq, hk⟩
    · rw [Dir.read_write] at h
      by_cases hk : k = "policies/" ++ baseName p.1
      · exact Or.inr ⟨p, List.mem_cons_self, hk⟩
      · rw [if_neg hk] at h
        exact Or.inl h
    · exact Or.inr ⟨q, List.mem_cons_of_mem _ hq, hk⟩

theorem name_of_packFiles {exportedAt : String} {pack : Pack} {k : String}
    (h : ((packFiles exportedAt pack).read k).isSome = true) :
    k ∈ fixedNames ∨ ∃ p ∈ pack.policies, k = "policies/" ++ baseName p.1 := by
  unfold packFiles at h
  rw [Dir.read_write] at h
  by_cases hcover : k = "COVER.json"
  · exact Or.inl (by rw [hcover]; decide)
  rw [if_neg hcover] at h
  rcases name_of_packed h with h | h
  · rw [Dir.read_write, Dir.read_write, Dir.read_write] at h
    refine Or.inl ?_
    by_contra hk
    simp only [fixedNames, List.mem_cons, List.not_mem_nil, or_false, not_or] at hk
    rw [if_neg hk.2.2.1, if_neg hk.2.1, if_neg hk.1] at h
    cases h
  · exact Or.inr h

/-- The document of a source is packed under its name. -/
theorem read_packFiles {exportedAt : String} {pack : Pack} {n : String} {c : Bytes}
    (h : ∀ p ∈ pack.policies, "policies/" ++ baseName p.1 = sourceOf n → p.2 = c)
    (hex : ∃ p ∈ pack.policies, "policies/" ++ baseName p.1 = sourceOf n) :
    (packFiles exportedAt pack).read (sourceOf n) = some c := by
  unfold packFiles
  rw [Dir.read_write, if_neg, read_packed h, if_pos hex]
  intro he
  exact sourceOf_not_fixed n (by rw [he]; decide)

theorem mem_sortedFiles {files : Dir Bytes} {e : String × Bytes} :
    e ∈ sortedFiles files ↔ files.read e.1 = some e.2 := by
  unfold sortedFiles
  rw [List.mem_map]
  constructor
  · rintro ⟨n, hn, rfl⟩
    obtain ⟨-, hsome⟩ := Dir.mem_sortedNames.mp hn
    obtain ⟨b, hb⟩ := Option.isSome_iff_exists.mp hsome
    rw [hb]
    rfl
  · intro h
    refine ⟨e.1, Dir.mem_sortedNames.mpr ⟨rfl, by rw [h]; rfl⟩, ?_⟩
    rw [h]
    rfl

theorem names_sortedFiles (files : Dir Bytes) :
    (sortedFiles files).map Prod.fst = files.sortedNames (fun _ => true) := by
  unfold sortedFiles
  rw [List.map_map]
  exact List.map_id _

theorem nodup_sortedFiles (files : Dir Bytes) : ((sortedFiles files).map Prod.fst).Nodup := by
  rw [names_sortedFiles]
  exact (files.sortedNames_pairwise _).imp (fun h => ne_of_lt h)

/-- Without the entry that was written last, the files are those from before. -/
theorem sortedFiles_write {files : Dir Bytes} {k : String} {b : Bytes} (hk : files.read k = none) :
    (sortedFiles (files.write k b)).filter (fun e => e.1 ≠ k) = sortedFiles files := by
  have hnames : ((files.write k b).sortedNames (fun _ => true)).filter (fun n => n ≠ k) =
      files.sortedNames (fun _ => true) := by
    refine (Dir.sortedNames_eq (((files.write k b).sortedNames_pairwise _).filter _)
      (fun n => ?_)).symm
    rw [List.mem_filter, Dir.mem_sortedNames, Dir.read_write]
    by_cases hn : n = k
    · subst hn
      simp [hk]
    · simp [hn]
  unfold sortedFiles
  rw [List.filter_map]
  have hcomp : ((fun e : String × Bytes => decide (e.1 ≠ k)) ∘
      fun n => (n, ((files.write k b).read n).getD [])) = fun n => decide (n ≠ k) := rfl
  rw [hcomp, hnames]
  refine List.map_congr_left (fun n hn => ?_)
  have hne : n ≠ k := by
    rintro rfl
    have hsome := (Dir.mem_sortedNames.mp hn).2
    rw [hk] at hsome
    cases hsome
  rw [Dir.read_write, if_neg hne]

end Members

/-! ## The checksum file -/

section Sums

variable {rt : Runtime}

theorem sumLine_no_break {e : String × Bytes} (h : '\n' ∉ e.1.toList) : '\n' ∉ sumLine rt e := by
  unfold sumLine
  intro hm
  rcases List.mem_append.mp hm with hm | hm
  · have hx := List.all_eq_true.mp (rt.sha256 e.2).all_hex _ hm
    revert hx
    decide
  · rcases List.mem_cons.mp hm with hm | hm
    · revert hm
      decide
    rcases List.mem_cons.mp hm with hm | hm
    · revert hm
      decide
    · exact h hm

theorem sumEntry_sumLine {e : String × Bytes} (h : '\n' ∉ e.1.toList) :
    sumEntry (sumLine rt e ++ ['\n']) = (e.1, (rt.sha256 e.2).text) := by
  have hlen := (rt.sha256 e.2).length_eq
  have hline : sumLine rt e ++ ['\n'] =
      ((rt.sha256 e.2).text.toList ++ [' ', ' ']) ++ (e.1.toList ++ ['\n']) := by
    unfold sumLine
    simp
  have hall : ∀ c ∈ e.1.toList, decide (c ≠ '\n') = true := by
    intro c hc
    exact decide_eq_true (fun he => h (he ▸ hc))
  have hdrop : (sumLine rt e ++ ['\n']).drop 66 = e.1.toList ++ ['\n'] := by
    rw [hline, List.drop_left' (by rw [List.length_append, hlen]; rfl)]
  have htake : (sumLine rt e ++ ['\n']).take 64 = (rt.sha256 e.2).text.toList := by
    rw [hline, List.append_assoc, List.take_left' hlen]
  unfold sumEntry
  rw [hdrop, htake, List.takeWhile_append_of_pos hall, List.takeWhile_cons_of_neg (by decide),
    List.append_nil, String.ofList_toList, String.ofList_toList]

/-- **The checksum file lists the files**, each with its digest, where no name has a break. -/
theorem listed_sumsOf {files : Dir Bytes} (h : ∀ e ∈ sortedFiles files, '\n' ∉ e.1.toList) :
    listed (sumsOf rt files) = (sortedFiles files).map (fun e => (e.1, (rt.sha256 e.2).text)) := by
  have hlines : ∀ l ∈ (sortedFiles files).map (sumLine rt), '\n' ∉ l := by
    intro l hl
    obtain ⟨e, he, rfl⟩ := List.mem_map.mp hl
    exact sumLine_no_break (h e he)
  rw [listed, sumsOf, fileOf, decodeUtf8_utf8, Option.getD_some, lines_unlines hlines, List.map_map,
    List.map_map]
  exact List.map_congr_left (fun e he => sumEntry_sumLine (h e he))

/-- A name that is listed has no line feed in it. -/
theorem listed_no_break {sums : Bytes} {name digest : String} (h : (name, digest) ∈ listed sums) :
    '\n' ∉ name.toList := by
  obtain ⟨l, -, hl⟩ := List.mem_map.mp h
  have hname : String.ofList ((l.drop 66).takeWhile (· ≠ '\n')) = name := congrArg Prod.fst hl
  rw [← hname, String.toList_ofList]
  intro hm
  have hne := List.all_eq_true.mp (List.all_takeWhile (p := fun c => decide (c ≠ '\n'))) '\n' hm
  exact absurd rfl (of_decide_eq_true hne)

theorem no_cr_universal (t : Text) : '\r' ∉ universal t := by
  induction t using universal.induct with
  | case1 => exact List.not_mem_nil
  | case2 r ih =>
    rw [universal, List.mem_cons, not_or]
    exact ⟨by decide, ih⟩
  | case3 c r hc ih =>
    rw [universal]
    · rw [List.mem_cons, not_or]
      refine ⟨?_, ih⟩
      split
      · decide
      · next hne => exact fun he => hne he.symm
    · exact hc

end Sums

/-! ## Exports -/

section Export

variable {rt : Runtime} {files : PolicyDir} {dataDir : String} {data : Systems}
  {m : EvidenceManifest} {c s e : String}

theorem PolicyDir.document_sourceOf (files : PolicyDir) (n : String) :
    files.document (sourceOf n) = files.dir.read n := by
  unfold PolicyDir.document
  cases hf : files.dir.names.find? (fun k => sourceOf k = sourceOf n) with
  | some k =>
    have hk := List.find?_some (p := fun k => decide (sourceOf k = sourceOf n)) hf
    rw [sourceOf_injective (of_decide_eq_true hk)]
    rfl
  | none =>
    have hnone := List.find?_eq_none.mp hf n
    cases hr : files.dir.read n with
    | none => rfl
    | some b => exact absurd (decide_eq_true rfl) (hnone (Dir.mem_names.mpr (by rw [hr]; rfl)))

/-- The documents are packed exactly when each has the hash of its version. -/
theorem policyFiles_ok_iff {documents : String → Option Bytes} {refs : List PolicyVersionRef}
    {ps : List (String × Bytes)} :
    policyFiles rt documents refs = .ok ps ↔ List.Forall₂ (fun v p => p.1 = v.source ∧
      documents v.source = some p.2 ∧ (rt.sha256 p.2).text = v.sha256) refs ps := by
  induction refs generalizing ps with
  | nil =>
    rw [policyFiles, List.forall₂_nil_left_iff, Except.ok.injEq]
    exact eq_comm
  | cons v refs ih =>
    rw [policyFiles, List.forall₂_cons_left_iff]
    constructor
    · intro h
      split at h
      · cases h
      next content hd =>
      split at h
      · cases h
      next hsha =>
      simp only [bind, Except.bind, pure, Except.pure] at h
      split at h
      · cases h
      next qs hqs =>
      cases h
      exact ⟨_, qs, ⟨rfl, hd, not_not.mp hsha⟩, ih.mp hqs, rfl⟩
    · rintro ⟨p, qs, ⟨hp, hd, hsha⟩, hqs, rfl⟩
      simp only [hd, hsha, ne_eq, not_true_eq_false, if_false, ih.mpr hqs, bind, Except.bind, pure,
        Except.pure]
      rw [← hp]

/-- The versions of a manifest are documents of the repository. -/
theorem versions_of_manifest (h : computeManifest rt data c s e = .ok (some m)) :
    ∀ v ∈ m.policyVersions, ∃ d ∈ data.policies.docs, v = d.ref := by
  unfold computeManifest at h
  split at h
  · cases h
  simp only [bind, Except.bind] at h
  split at h
  · cases h
  cases h
  intro v hv
  obtain ⟨d, hd, rfl⟩ := List.mem_map.mp hv
  obtain ⟨pid, -, hd⟩ := List.mem_flatMap.mp hd
  have hmem := List.mem_of_mem_filter hd
  unfold PolicyRepository.versions at hmem
  rw [List.mem_insertionSort] at hmem
  exact ⟨d, List.mem_of_mem_filter hmem, rfl⟩

/-- A version of a manifest, its file, and the text its hash is of. -/
theorem version_file (hload : loadPolicies rt dataDir files = .ok data.policies)
    (hm : computeManifest rt data c s e = .ok (some m)) {v : PolicyVersionRef}
    (hv : v ∈ m.policyVersions) :
    ∃ n content text, v.source = sourceOf n ∧ '/' ∉ n.toList ∧ files.dir.read n = some content ∧
      decodeUtf8 content = some text ∧ v.sha256 = (rt.sha256 (utf8 (universal text))).text := by
  obtain ⟨d, hd, rfl⟩ := versions_of_manifest hm v hv
  obtain ⟨n, hn, hparsed⟩ := loadPolicies_spec hload hd
  obtain ⟨content, text, hread, htext, hsha⟩ := hparsed.sha256
  have hname : n ∈ files.dir.names := Dir.mem_names.mpr (by rw [hread]; rfl)
  exact ⟨n, content, text, hparsed.source, files.plain n hname, hread, htext, hsha⟩

/-- An approved index is packed with its documents and a cover. -/
theorem buildPack_approved (rt : Runtime) (m : EvidenceManifest) {draft : Draft}
    (hd : ApprovedIndex draft) (documents : String → Option Bytes) (auditLines : List String)
    (exporter : String) :
    ∃ cover, buildPack rt documents auditLines exporter draft m =
      (policyFiles rt documents m.policyVersions).map
      (fun ps => ⟨draft.body, m, auditLines, ps, cover⟩) := by
  obtain ⟨decision, hdec⟩ := Option.isSome_iff_exists.mp hd.decision
  unfold buildPack
  rw [if_neg (not_not.mpr hd.kind), hdec]
  dsimp only
  rw [if_neg (not_not.mpr hd.status)]
  refine ⟨⟨draft.draftId, draft.title, m.control.controlId, m.periodStart, m.periodEnd,
    m.manifestSha256, draft.requester, decision.by_, decision.at_, decision.note, exporter⟩, ?_⟩
  cases policyFiles rt documents m.policyVersions <;> rfl

/-- A pack that was built has every document with the hash of its version. -/
theorem exports_hashes (hload : loadPolicies rt dataDir files = .ok data.policies)
    (hm : computeManifest rt data c s e = .ok (some m)) (hdistinct : DistinctTexts rt files)
    {members : List (String × Bytes)} (h : PackVerifies rt files m members) :
    PlainDocuments files m := by
  intro v hv n hn
  obtain ⟨k, content, hk, hread, hmem, hsha⟩ := h.policies v hv
  obtain rfl : n = k := sourceOf_injective (hn.symm.trans hk)
  obtain ⟨k, content', text, hk', -, hread', htext, hsha'⟩ := version_file hload hm hv
  obtain rfl : n = k := sourceOf_injective (hn.symm.trans hk')
  obtain rfl : content = content' := Option.some.inj (hread.symm.trans hread')
  constructor
  · obtain ⟨sums, -, hsums⟩ := h.sums
    have hne : sourceOf n ≠ "SHA256SUMS" := fun he => sourceOf_not_fixed n (by rw [he]; decide)
    have hlisted : (sourceOf n, (rt.sha256 content).text) ∈ listed sums := by
      rw [hsums]
      exact List.mem_map.mpr ⟨_, List.mem_filter.mpr ⟨hmem, decide_eq_true hne⟩, rfl⟩
    have hbreak := listed_no_break hlisted
    rw [sourceOf, String.toList_append, List.mem_append, not_or] at hbreak
    exact hbreak.2
  · intro content' text' hread'' htext'
    cases hread.symm.trans hread''
    cases htext.symm.trans htext'
    have hdigest : rt.sha256 content = rt.sha256 (utf8 (universal text)) :=
      digest_text_inj (hsha.trans hsha')
    have heq : utf8 text = utf8 (universal text) :=
      (utf8_of_decodeUtf8 htext).trans (hdistinct n content text hread htext hdigest)
    rw [utf8_injective heq]
    exact no_cr_universal text

/-- Plain documents are packed, and the pack verifies. -/
theorem exports_of_plain (hload : loadPolicies rt dataDir files = .ok data.policies)
    (hm : computeManifest rt data c s e = .ok (some m)) (hplain : PlainDocuments files m)
    {draft : Draft} (hd : ApprovedIndex draft) (auditLines : List String)
    (exporter exportedAt : String) :
    Exports rt files auditLines exporter exportedAt draft m := by
  -- each version has its file, and the hash of the file is the recorded one
  have hfile : ∀ v ∈ m.policyVersions, ∃ n content, v.source = sourceOf n ∧ '/' ∉ n.toList ∧
      '\n' ∉ n.toList ∧ files.dir.read n = some content ∧ (rt.sha256 content).text = v.sha256 := by
    intro v hv
    obtain ⟨n, content, text, hn, hslash, hread, htext, hsha⟩ := version_file hload hm hv
    obtain ⟨hlf, hcr⟩ := hplain v hv n hn
    refine ⟨n, content, hn, hslash, hlf, hread, ?_⟩
    rw [hsha, universal_of_not_mem (hcr content text hread htext), utf8_of_decodeUtf8 htext]
  have hps : policyFiles rt files.document m.policyVersions =
      .ok (m.policyVersions.map (fun v => (v.source, (files.document v.source).getD []))) := by
    rw [policyFiles_ok_iff, List.forall₂_map_right_iff, List.forall₂_same]
    intro v hv
    obtain ⟨n, content, hn, -, -, hread, hsha⟩ := hfile v hv
    rw [hn, PolicyDir.document_sourceOf, hread]
    exact ⟨rfl, rfl, hsha⟩
  obtain ⟨cover, hpack⟩ := buildPack_approved rt m hd files.document auditLines exporter
  rw [hps] at hpack
  obtain ⟨pack, hpolicies⟩ : ∃ pack : Pack, pack = ⟨draft.body, m, auditLines,
    m.policyVersions.map (fun v => (v.source, (files.document v.source).getD [])),
    cover⟩ := ⟨_, rfl⟩
  replace hpack : buildPack rt files.document auditLines exporter draft m = .ok pack := hpack.trans
    (congrArg Except.ok hpolicies.symm)
  replace hpolicies : pack.policies =
      m.policyVersions.map (fun v => (v.source, (files.document v.source).getD [])) := by
        rw [hpolicies]
  -- what is packed under the name of a file is the file
  have hpacked : ∀ p ∈ pack.policies, ∃ n, '\n' ∉ n.toList ∧
    "policies/" ++ baseName p.1 = sourceOf n ∧
      files.dir.read n = some p.2 := by
    intro p hp
    rw [hpolicies] at hp
    obtain ⟨v, hv, rfl⟩ := List.mem_map.mp hp
    obtain ⟨n, content, hn, hslash, hlf, hread, -⟩ := hfile v hv
    refine ⟨n, hlf, ?_, ?_⟩
    · rw [hn, baseName_sourceOf hslash]
      rfl
    · rw [hn, PolicyDir.document_sourceOf, hread]
      rfl
  have hnone : (packFiles exportedAt pack).read "SHA256SUMS" = none := by
    rw [← Option.not_isSome_iff_eq_none]
    intro hsome
    rcases name_of_packFiles hsome with hfixed | ⟨p, hp, hname⟩
    · revert hfixed
      decide
    · exact sourceOf_not_fixed (baseName p.1)
        (by rw [← show _ = sourceOf (baseName p.1) from hname]; decide)
  have hbreak : ∀ e ∈ sortedFiles (packFiles exportedAt pack), '\n' ∉ e.1.toList := by
    intro e he
    rcases name_of_packFiles (by rw [mem_sortedFiles.mp he]; rfl) with hfixed | ⟨p, hp, hname⟩
    · have hall : ∀ k ∈ fixedNames, '\n' ∉ k.toList := by decide
      exact hall _ hfixed
    · obtain ⟨n, hlf, hn, -⟩ := hpacked p hp
      rw [hname, hn, sourceOf, String.toList_append, List.mem_append, not_or]
      exact ⟨by decide, hlf⟩
  refine ⟨zipMembers rt (packFiles exportedAt pack), by rw [buildZip, hpack]; rfl, ?_⟩
  constructor
  case nodup => exact nodup_sortedFiles _
  case sums =>
    refine ⟨sumsOf rt (packFiles exportedAt pack), ?_, ?_⟩
    · exact mem_sortedFiles.mpr (Dir.read_write_self _ _ _)
    · rw [zipMembers, sortedFiles_write hnone, listed_sumsOf hbreak]
  case policies =>
    intro v hv
    obtain ⟨n, content, hn, hslash, -, hread, hsha⟩ := hfile v hv
    refine ⟨n, content, hn, hread, ?_, hsha⟩
    have hne : sourceOf n ≠ "SHA256SUMS" := fun he => sourceOf_not_fixed n (by rw [he]; decide)
    refine mem_sortedFiles.mpr ?_
    rw [Dir.read_write_of_ne _ _ hne]
    refine read_packFiles (fun p hp hname => ?_)
      ⟨(v.source, (files.document v.source).getD []), ?_, ?_⟩
    · obtain ⟨k, -, hk, hreadk⟩ := hpacked p hp
      obtain rfl : k = n := sourceOf_injective (hk.symm.trans hname)
      exact Option.some.inj (hreadk.symm.trans hread)
    · rw [hpolicies]
      exact List.mem_map_of_mem hv
    · rw [hn, baseName_sourceOf hslash]
      rfl

end Export

/-- **An untouched document is packed unless it has a carriage return in it.**  For every
directory of policies the repository loads, every manifest of a control and a period, and every
approved index, the export succeeds and the pack verifies if and only if no document of the
manifest has a carriage return in it, or a line feed in its name. -/
theorem exports_iff_plain (rt : Runtime) (dataDir : String) (files : PolicyDir) (data : Systems)
    (hload : loadPolicies rt dataDir files = .ok data.policies) (hdistinct : DistinctTexts rt files)
    (c s e : String) (m : EvidenceManifest) (hm : computeManifest rt data c s e = .ok (some m))
    (draft : Draft) (hd : ApprovedIndex draft) (auditLines : List String)
    (exporter exportedAt : String) :
    Exports rt files auditLines exporter exportedAt draft m ↔ PlainDocuments files m := by
  constructor
  · rintro ⟨members, -, h⟩
    exact exports_hashes hload hm hdistinct h
  · intro h
    exact exports_of_plain hload hm h hd auditLines exporter exportedAt

/-- A policy document with the given line ends. -/
def sampleDocument (eol : String) : Bytes :=
  utf8 (String.intercalate eol ["---", "policy_id: POL-1", "version: 1",
    "effective_date: 2026-01-01",
    "title: Gifts", "---", "## Scope", "Every gift is registered."]).toList

/-- A directory with one document. -/
def samplePolicyDir (eol : String) : PolicyDir where
  dir := Dir.empty.write "gifts.md" (sampleDocument eol)
  plain := fun n hn => by
    rw [List.mem_singleton.mp hn]
    show '/' ∉ "gifts.md".toList
    decide

/-- The systems of record over the documents of a repository. -/
def sampleWithPolicies (repo : PolicyRepository) : Systems where
  policies := repo
  controls := [⟨"CTL-1", "Gift pre-clearance", "", "", .unset, ["POL-1"], [], []⟩]
  tests := []
  tickets := []
  releases := []
  attestations := []

def sampleApproved : Draft where
  draftId := "D-1"
  kind := .evidencePackIndex
  title := "Evidence index CTL-1 2026-01-01..2026-03-31"
  body := "index"
  requester := "priya@example-am.com"
  sessionId := ""
  relatedIds := []
  created := "2026-04-01T09:00:00Z"
  status := .approved
  contentSha256 := ""
  decision := some ⟨"rae@firm.example", "", "2026-04-02T09:00:00Z"⟩

/-- The manifest of the sample's control, and whether its pack is built. -/
def sampleExport (eol : String) : Option (Systems × EvidenceManifest × Bool) := do
  let repo ← (loadPolicies Runtime.python "data" (samplePolicyDir eol)).toOption
  let data := sampleWithPolicies repo
  let m ← ((computeManifest Runtime.python data "CTL-1" "2026-01-01" "2026-03-31").toOption).join
  return (data, m, (buildZip Runtime.python (samplePolicyDir eol).document
    [] "operator" "" sampleApproved m).isOk)

theorem sampleExport_spec {eol : String} {data : Systems} {m : EvidenceManifest} {built : Bool}
    (h : sampleExport eol = some (data, m, built)) :
    loadPolicies Runtime.python "data" (samplePolicyDir eol) = .ok data.policies ∧
      computeManifest Runtime.python data "CTL-1" "2026-01-01" "2026-03-31" = .ok (some m) ∧
      (buildZip Runtime.python (samplePolicyDir eol).document [] "operator" "" sampleApproved
        m).isOk = built := by
  unfold sampleExport at h
  cases hload : loadPolicies Runtime.python "data" (samplePolicyDir eol) with
  | error e =>
    rw [hload] at h
    cases h
  | ok repo =>
    rw [hload] at h
    simp only [Except.toOption, bind, Option.bind] at h
    split at h
    · cases h
    next m' hm =>
    cases h
    refine ⟨rfl, ?_, rfl⟩
    split at hm
    · next o ho => rw [ho, show o = some m from hm]
    · cases hm

theorem exports_iff_plain_sample : ∃ data m,
    loadPolicies Runtime.python "data" (samplePolicyDir "\n") = .ok data.policies ∧
    computeManifest Runtime.python data "CTL-1" "2026-01-01" "2026-03-31" = .ok (some m) ∧
    m.policyVersions.length = 1 ∧
    (Exports Runtime.python (samplePolicyDir "\n") [] "operator" "" sampleApproved m ↔
      PlainDocuments (samplePolicyDir "\n") m) := by
  have hrun : (sampleExport "\n").any (fun r => r.2.1.policyVersions.length = 1) = true := by
    decide +kernel
  obtain ⟨⟨data, m, built⟩, hs, hlen⟩ := (Option.any_eq_true _ _).mp hrun
  obtain ⟨hload, hm, -⟩ := sampleExport_spec hs
  refine ⟨data, m, hload, hm, of_decide_eq_true hlen, ?_⟩
  refine exports_iff_plain Runtime.python "data" _ data hload ?_ _ _ _ m hm _ ⟨rfl, rfl, rfl⟩ _ _ _
  intro n content text hread htext _
  have hname : n ∈ (samplePolicyDir "\n").dir.names := Dir.mem_names.mpr (by rw [hread]; rfl)
  rw [List.mem_singleton.mp hname] at hread
  have hplain : (decodeUtf8 (sampleDocument "\n")).all
      (fun t => t.all (fun c => c ≠ '\r')) = true := by
    decide +kernel
  rw [← show content = sampleDocument "\n"
    from (Option.some.inj (hread.symm.trans (Dir.read_write_self _ _ _))), htext] at hplain
  rw [universal_of_not_mem, utf8_of_decodeUtf8 htext]
  intro hcr
  exact absurd rfl (of_decide_eq_true (List.all_eq_true.mp hplain _ hcr))

/-- **An index is refused although its only document is untouched**: its lines end as Windows
writes them. -/
theorem windows_document_refused : ∃ data m,
    loadPolicies Runtime.python "data" (samplePolicyDir "\r\n") = .ok data.policies ∧
    computeManifest Runtime.python data "CTL-1" "2026-01-01" "2026-03-31" = .ok (some m) ∧
    ApprovedIndex sampleApproved ∧
    ¬ Exports Runtime.python (samplePolicyDir "\r\n") [] "operator" "" sampleApproved m := by
  have hrun : (sampleExport "\r\n").any (fun r => r.2.2 = false) = true := by decide +kernel
  obtain ⟨⟨data, m, built⟩, hs, hbuilt⟩ := (Option.any_eq_true _ _).mp hrun
  obtain ⟨hload, hm, hok⟩ := sampleExport_spec hs
  refine ⟨data, m, hload, hm, ⟨rfl, rfl, rfl⟩, ?_⟩
  rintro ⟨members, hz, -⟩
  rw [hz, show built = false from of_decide_eq_true hbuilt] at hok
  cases hok

end ComplianceMcp
