import ComplianceMcp.PackBinding
import ComplianceMcp.PolicyTimeline
import ComplianceMcp.SortedSelect

/-! # The policy library in a pack

A pack carries the policy documents its manifest cites.  An auditor who unpacks them into a
directory of their own and reads it as the server reads its policies gets the part of the server's
library that is cited, and every question about the policies of the control and a day up to the
end of the period has the answer the server gave: which version was in force.  It does not matter
what became of the server's own files between its start and the export, since only what has the
recorded hash is packed. -/
namespace ComplianceMcp

open PyText PyJson Files

/-! ## Reading a directory, file by file -/

theorem mapM_eq_ok_iff {α β : Type} {f : α → Except PyError β} {xs : List α} {ys : List β} :
    xs.mapM f = .ok ys ↔ List.Forall₂ (fun x y => f x = .ok y) xs ys := by
  induction xs generalizing ys with
  | nil =>
    rw [List.forall₂_nil_left_iff]
    exact ⟨fun h => (Except.ok.inj h).symm, fun h => by rw [h]; rfl⟩
  | cons x xs ih =>
    rw [List.mapM_cons, List.forall₂_cons_left_iff]
    constructor
    · intro h
      cases hx : f x with
      | error e =>
        rw [hx] at h
        cases h
      | ok y =>
        cases hxs : xs.mapM f with
        | error e =>
          rw [hx, hxs] at h
          cases h
        | ok ys =>
          rw [hx, hxs] at h
          cases h
          exact ⟨y, ys, rfl, ih.mp hxs, rfl⟩
    · rintro ⟨y, ys', hy, hys, rfl⟩
      rw [hy, ih.mpr hys]
      rfl

section Library

variable {rt : Runtime} {dataDir : String} {files : PolicyDir} {repo : PolicyRepository}

/-- A library is the documents of its files. -/
theorem loadPolicies_iff : loadPolicies rt dataDir files = .ok repo ↔
    List.Forall₂ (fun n d => parseFile rt dataDir files n = .ok d) files.listing repo.docs := by
  rw [← mapM_eq_ok_iff]
  unfold loadPolicies
  constructor
  · intro h
    split at h
    · cases h
    next docs hdocs =>
    cases h
    exact hdocs
  · intro h
    split
    next e he =>
      rw [he] at h
      cases h
    next docs hdocs =>
      obtain rfl : docs = repo.docs := Except.ok.inj (hdocs.symm.trans h)
      rfl

theorem file_of_doc (h : loadPolicies rt dataDir files = .ok repo) {d : Policy}
    (hd : d ∈ repo.docs) :
    ∃ n ∈ files.listing, parseFile rt dataDir files n = .ok d := by
  obtain ⟨i, hi, rfl⟩ := List.getElem_of_mem hd
  have hall := List.forall₂_iff_get.mp (loadPolicies_iff.mp h)
  have hi' : i < files.listing.length := hall.1 ▸ hi
  exact ⟨files.listing[i], List.getElem_mem hi', hall.2 i hi' hi⟩

/-- Line ends do not matter to the parser, and the directory is named in its errors only. -/
theorem parsePolicy_universal {content : Bytes} {t : Text} {n : String} {d : Policy}
    (ht : decodeUtf8 content = some t) (h : parsePolicy rt dataDir n content = .ok d)
    (dataDir' : String) :
    parsePolicy rt dataDir' n (utf8 (universal t)) = .ok d := by
  unfold parsePolicy at h ⊢
  rw [ht] at h
  rw [decodeUtf8_utf8]
  dsimp only at h ⊢
  rw [universal_of_not_mem (no_cr_universal t)]
  cases hm : frontMatter (universal t) with
  | none =>
    rw [hm] at h
    cases h
  | some parts =>
    rw [hm] at h
    exact h

end Library

/-! ## The documents of a pack -/

/-- What could be packed for a source shares no hash with the text of the file it was loaded from,
unless it is this text. -/
def TextsApart (rt : Runtime) (files : PolicyDir) (documents : String → Option Bytes) : Prop :=
  ∀ n content t packed, files.dir.read n = some content → decodeUtf8 content = some t →
    documents (sourceOf n) = some packed → rt.sha256 packed = rt.sha256 (utf8 (universal t)) →
    packed = utf8 (universal t)

/-- The directory has the policy documents of the zip, and nothing else. -/
def Unpacked (members : List (String × Bytes)) (lib : PolicyDir) : Prop :=
  ∀ n b, lib.dir.read n = some b ↔ (sourceOf n, b) ∈ members

section Packed

variable {rt : Runtime} {documents : String → Option Bytes} {auditLines : List String}
  {exporter exportedAt : String} {draft : Draft} {m : EvidenceManifest}
  {members : List (String × Bytes)}

/-- Each version has a packed document, and each packed document a version. -/
theorem packed_documents {refs : List PolicyVersionRef} {ps : List (String × Bytes)}
    (h : policyFiles rt documents refs = .ok ps) :
    (∀ v ∈ refs, ∃ b, (v.source, b) ∈ ps) ∧ ∀ p ∈ ps, ∃ v ∈ refs, p.1 = v.source ∧
      documents v.source = some p.2 ∧ (rt.sha256 p.2).text = v.sha256 := by
  have hall := policyFiles_ok_iff.mp h
  clear h
  induction hall with
  | nil => exact ⟨fun _ hv => (nomatch hv), fun _ hp => (nomatch hp)⟩
  | @cons v p refs ps hvp _ ih =>
    refine ⟨fun w hw => ?_, fun q hq => ?_⟩
    · rcases List.mem_cons.mp hw with rfl | hw
      · exact ⟨p.2, hvp.1 ▸ List.mem_cons_self⟩
      · obtain ⟨b, hb⟩ := ih.1 w hw
        exact ⟨b, List.mem_cons_of_mem p hb⟩
    · rcases List.mem_cons.mp hq with rfl | hq
      · exact ⟨v, List.mem_cons_self, hvp⟩
      · obtain ⟨w, hw, hwq⟩ := ih.2 q hq
        exact ⟨w, List.mem_cons_of_mem v hw, hwq⟩

/-- **The policies in a pack** are the documents of the versions it cites, with the hashes it
records. -/
theorem policy_member_iff (hz : buildZip rt documents auditLines exporter exportedAt draft
    m = .ok members)
    (hnames : ∀ v ∈ m.policyVersions, ∃ k, v.source = sourceOf k ∧ '/' ∉ k.toList)
    {n : String} {b : Bytes} :
    (sourceOf n, b) ∈ members ↔ ∃ v ∈ m.policyVersions, v.source = sourceOf n ∧
      documents v.source = some b ∧ (rt.sha256 b).text = v.sha256 := by
  obtain ⟨decision, ps, -, hps, rfl⟩ := buildZip_ok hz
  obtain ⟨hvps, hpsv⟩ := packed_documents hps
  have hfixed : sourceOf n ≠ "SHA256SUMS" :=
    fun he => sourceOf_not_fixed n (by rw [he]; exact List.mem_cons_self)
  rw [zipMembers, mem_sortedFiles, Dir.read_write_of_ne _ _ hfixed]
  -- a document is packed under the name of its source
  have hname : ∀ p ∈ ps, "policies/" ++ baseName p.1 = sourceOf n → p.1 = sourceOf n := by
    intro p hp he
    obtain ⟨v, hv, hpv, -⟩ := hpsv p hp
    obtain ⟨k, hk, hslash⟩ := hnames v hv
    rw [hpv, hk, baseName_sourceOf hslash] at he
    rw [hpv, hk]
    exact he
  have hdoc : ∀ p ∈ ps, p.1 = sourceOf n → documents (sourceOf n) = some p.2 := by
    intro p hp he
    obtain ⟨v, -, hpv, hread, -⟩ := hpsv p hp
    rwa [← hpv, he] at hread
  constructor
  · intro h
    rcases name_of_packFiles (by rw [h]; rfl) with hn | ⟨p, hp, hn⟩
    · exact absurd (List.mem_cons_of_mem _ hn) (sourceOf_not_fixed n)
    · have hsource := hname p hp hn.symm
      obtain ⟨v, hv, hpv, hread, hsha⟩ := hpsv p hp
      have hpacked := @read_packFiles exportedAt ⟨draft.body, m, auditLines, ps,
        coverOf draft decision m exporter⟩
        n p.2 (fun q hq he => Option.some.inj ((hdoc q hq (hname q hq he)).symm.trans
          (hdoc p hp hsource)))
        ⟨p, hp, hn.symm⟩
      obtain rfl : p.2 = b := Option.some.inj (hpacked.symm.trans h)
      exact ⟨v, hv, hpv.symm.trans hsource, hread, hsha⟩
  · rintro ⟨v, hv, hsource, hread, -⟩
    obtain ⟨c, hc⟩ := hvps v hv
    obtain ⟨k, hk, hslash⟩ := hnames v hv
    refine read_packFiles (fun q hq he => Option.some.inj
      ((hdoc q hq (hname q hq he)).symm.trans ?_)) ⟨_, hc, ?_⟩
    · rw [← hsource, hread]
    · rw [hk, baseName_sourceOf hslash, ← hsource, hk]
      rfl

/-- Every version is packed. -/
theorem version_packed (hz : buildZip rt documents auditLines exporter exportedAt draft
    m = .ok members)
    (hnames : ∀ v ∈ m.policyVersions, ∃ k, v.source = sourceOf k ∧ '/' ∉ k.toList) {n : String}
    (hn : ∃ v ∈ m.policyVersions, v.source = sourceOf n) : ∃ b, (sourceOf n, b) ∈ members := by
  obtain ⟨v, hv, hsource⟩ := hn
  obtain ⟨-, ps, -, hps, -⟩ := buildZip_ok hz
  obtain ⟨hvps, hpsv⟩ := packed_documents hps
  obtain ⟨b, hb⟩ := hvps v hv
  obtain ⟨w, hw, hvw, hread, hsha⟩ := hpsv _ hb
  exact ⟨b, (policy_member_iff hz hnames).mpr ⟨w, hw, hvw.symm.trans hsource, hread, hsha⟩⟩

end Packed

/-! ## The library again -/

section Rebuilt

variable {rt : Runtime} {dataDir : String} {files : PolicyDir} {data : Systems} {c s e : String}
  {m : EvidenceManifest}

theorem manifest_of (hm : computeManifest rt data c s e = .ok (some m)) :
    ∃ ctl, data.control c = some ctl ∧ m.control = ctl ∧ m.periodEnd = e := by
  unfold computeManifest at hm
  split at hm
  · cases hm
  next ctl hctl =>
  simp only [bind, Except.bind] at hm
  split at hm
  · cases hm
  cases hm
  exact ⟨ctl, hctl, rfl, rfl⟩

/-- A version of the manifest is the reference of the document of its file. -/
theorem version_of_file (hload : loadPolicies rt dataDir files = .ok data.policies)
    (hm : computeManifest rt data c s e = .ok (some m)) {v : PolicyVersionRef}
    (hv : v ∈ m.policyVersions) :
    ∃ n ∈ files.listing, ∃ d, parseFile rt dataDir files n = .ok d ∧ v = d.ref ∧
    v.source = sourceOf n := by
  obtain ⟨d, hd, rfl⟩ := versions_of_manifest hm v hv
  obtain ⟨n, hn, hparse⟩ := file_of_doc hload hd
  exact ⟨n, hn, d, hparse, rfl, (parseFile_ok hparse).source⟩

/-- A file is cited exactly if the reference of its document is. -/
theorem cited_iff (hload : loadPolicies rt dataDir files = .ok data.policies)
    (hm : computeManifest rt data c s e = .ok (some m)) {n : String} {d : Policy}
    (hparse : parseFile rt dataDir files n = .ok d) :
    (∃ v ∈ m.policyVersions, v.source = sourceOf n) ↔ d.ref ∈ m.policyVersions := by
  constructor
  · rintro ⟨v, hv, hsource⟩
    obtain ⟨k, -, d', hparse', hvd, hk⟩ := version_of_file hload hm hv
    obtain rfl : k = n := sourceOf_injective (hk.symm.trans hsource)
    obtain rfl : d' = d := Except.ok.inj (hparse'.symm.trans hparse)
    exact hvd ▸ hv
  · exact fun h => ⟨d.ref, h, (parseFile_ok hparse).source⟩

variable {documents : String → Option Bytes} {auditLines : List String}
  {exporter exportedAt : String} {draft : Draft} {members : List (String × Bytes)} {lib : PolicyDir}

theorem plain_names (hload : loadPolicies rt dataDir files = .ok data.policies)
    (hm : computeManifest rt data c s e = .ok (some m)) :
    ∀ v ∈ m.policyVersions, ∃ k, v.source = sourceOf k ∧ '/' ∉ k.toList := by
  intro v hv
  obtain ⟨k, -, -, hk, hslash, -⟩ := version_file hload hm hv
  exact ⟨k, hk, hslash⟩

/-- The files of the pack are the cited files of the library. -/
theorem listing_unpacked (hload : loadPolicies rt dataDir files = .ok data.policies)
    (hm : computeManifest rt data c s e = .ok (some m))
    (hz : buildZip rt documents auditLines exporter exportedAt draft m = .ok members)
    (hlib : Unpacked members lib) :
    lib.listing = files.listing.filter (fun n => ∃ v ∈ m.policyVersions, v.source =
      sourceOf n) := by
  have hnames := plain_names hload hm
  refine Dir.sortedNames_eq ((files.dir.sortedNames_pairwise isMarkdown).filter _) (fun n => ?_)
  rw [List.mem_filter, decide_eq_true_eq]
  constructor
  · rintro ⟨hn, hv⟩
    obtain ⟨b, hb⟩ := version_packed hz hnames hv
    exact ⟨(Dir.mem_sortedNames.mp hn).1, Option.isSome_iff_exists.mpr ⟨b, (hlib n b).mpr hb⟩⟩
  · rintro ⟨-, hsome⟩
    obtain ⟨b, hb⟩ := Option.isSome_iff_exists.mp hsome
    obtain ⟨v, hv, hsource, -⟩ := (policy_member_iff hz hnames).mp ((hlib n b).mp hb)
    obtain ⟨k, hk, -, -, -, hsource'⟩ := version_of_file hload hm hv
    obtain rfl : k = n := sourceOf_injective (hsource'.symm.trans hsource)
    exact ⟨hk, v, hv, hsource⟩

/-- **A cited file is unpacked as the document it was.** -/
theorem parse_unpacked (hload : loadPolicies rt dataDir files = .ok data.policies)
    (hm : computeManifest rt data c s e = .ok (some m)) (hapart : TextsApart rt files documents)
    (hz : buildZip rt documents auditLines exporter exportedAt draft m = .ok members)
    (hlib : Unpacked members lib) {n : String} {d : Policy}
    (hparse : parseFile rt dataDir files n = .ok d)
    (hcited : ∃ v ∈ m.policyVersions, v.source = sourceOf n) (dataDir' : String) :
    parseFile rt dataDir' lib n = .ok d := by
  have hnames := plain_names hload hm
  obtain ⟨b, hb⟩ := version_packed hz hnames hcited
  obtain ⟨v, hv, hsource, hread, hsha⟩ := (policy_member_iff hz hnames).mp hb
  obtain ⟨k, -, d', hparse', rfl, hk⟩ := version_of_file hload hm hv
  obtain rfl : k = n := sourceOf_injective (hk.symm.trans hsource)
  obtain rfl : d' = d := Except.ok.inj (hparse'.symm.trans hparse)
  obtain ⟨content, t, hcontent, ht, htext⟩ := (parseFile_ok hparse).sha256
  have hdigest : rt.sha256 b = rt.sha256 (utf8 (universal t)) := digest_text_inj (hsha.trans htext)
  rw [hsource] at hread
  have hpacked : b = utf8 (universal t) := hapart k content t b hcontent ht hread hdigest
  rw [parseFile, hcontent] at hparse
  rw [parseFile, (hlib k b).mpr hb, hpacked]
  exact @parsePolicy_universal rt dataDir content t k d' ht hparse dataDir'

/-- What was approved by the end of the period for a policy of the control is cited. -/
theorem cited_of_approved (hm : computeManifest rt data c s e = .ok (some m)) {d : Policy}
    (hd : d ∈ data.policies.docs) (happroved : d.isApproved = true)
    (hid : d.policyId ∈ m.control.policies) (hend : d.effectiveDate ≤ m.periodEnd) :
    d.ref ∈ m.policyVersions := by
  obtain ⟨ctl, hctl, rfl, rfl⟩ := manifest_of hm
  rw [policyVersions_computed hctl hm]
  have hof : d ∈ data.policies.approvedOf d.policyId :=
    List.mem_filter.mpr ⟨List.mem_filter.mpr ⟨hd, happroved⟩, decide_eq_true rfl⟩
  exact List.mem_flatMap.mpr ⟨d.policyId, hid, mem_approvedBy.mpr ⟨d, hof, hend, rfl⟩⟩

/-- The documents that matter are there, so the same version is in force. -/
theorem versionAsOf_of_filter {repo whole : PolicyRepository} {q : Policy → Bool}
    (h : repo.docs = whole.docs.filter q) {pid day : String}
    (hq : ∀ d ∈ whole.docs, d.policyId = pid → d.isApproved = true →
      d.effectiveDate ≤ day → q d = true) :
    repo.versionAsOf pid day = whole.versionAsOf pid day := by
  unfold PolicyRepository.versionAsOf PolicyRepository.versions
  rw [SortedSelect.filter_insertionSort, SortedSelect.filter_insertionSort, h, List.filter_filter,
    List.filter_filter, List.filter_filter]
  refine congrArg (fun l => (l.insertionSort effectiveLE).getLast?)
    (List.filter_congr (fun d hd => ?_))
  rw [Bool.eq_iff_iff]
  simp only [Bool.and_eq_true, decide_eq_true_eq]
  constructor
  · rintro ⟨⟨ha, hid⟩, -⟩
    exact ⟨ha, hid⟩
  · rintro ⟨⟨ha, hday⟩, hid⟩
    exact ⟨⟨⟨ha, hday⟩, hid⟩, hq d hd hid ha hday⟩

end Rebuilt

/-- The library an auditor reads from a pack. -/
structure RebuildsLibrary (data : Systems) (m : EvidenceManifest) (repo : PolicyRepository) :
    Prop where
  docs : repo.docs = data.policies.docs.filter (fun d => d.ref ∈ m.policyVersions)
  in_force : ∀ pid ∈ m.control.policies, ∀ day ≤ m.periodEnd,
    repo.versionAsOf pid day = data.policies.versionAsOf pid day

/-- **A pack carries its policy library.**  From the documents of a pack, in a directory of
their own, the server's reader loads exactly the documents of the library that the manifest
cites, and for each policy of the control and each day up to the end of the period the version
in force is the one it was. -/
theorem pack_rebuilds_library (rt : Runtime) (dataDir dataDir' : String) (files : PolicyDir)
    (data : Systems) (hload : loadPolicies rt dataDir files = .ok data.policies) (c s e : String)
    (m : EvidenceManifest) (hm : computeManifest rt data c s e = .ok (some m))
    (documents : String → Option Bytes) (hapart : TextsApart rt files documents) (draft : Draft)
    (auditLines : List String) (exporter exportedAt : String) (members : List (String × Bytes))
    (hz : buildZip rt documents auditLines exporter exportedAt draft m = .ok members)
    (lib : PolicyDir) (hlib : Unpacked members lib) :
    ∃ repo, loadPolicies rt dataDir' lib = .ok repo ∧ RebuildsLibrary data m repo := by
  obtain ⟨repo, hrepo⟩ : ∃ repo : PolicyRepository,
      repo.docs = data.policies.docs.filter (fun d => d.ref ∈ m.policyVersions) :=
    ⟨⟨_, data.policies.sources.sublist (List.filter_sublist.map Policy.source)⟩, rfl⟩
  refine ⟨repo, loadPolicies_iff.mpr ?_, hrepo, fun pid hpid day hday =>
    versionAsOf_of_filter hrepo ?_⟩
  · rw [listing_unpacked hload hm hz hlib, hrepo]
    -- file by file, what is cited on the one side is cited on the other
    have hcited : ∀ n d, parseFile rt dataDir files n = .ok d →
        (decide (∃ v ∈ m.policyVersions, v.source = sourceOf n) = true ↔
          decide (d.ref ∈ m.policyVersions) = true) := by
      intro n d hparse
      rw [decide_eq_true_eq, decide_eq_true_eq]
      exact cited_iff hload hm hparse
    have hfiltered := List.rel_filter (fun n d => hcited n d) (loadPolicies_iff.mp hload)
    refine List.Forall₂.imp ?_ ((List.forall₂_and_left _ _).mpr
      ⟨fun n hn => of_decide_eq_true (List.mem_filter.mp hn).2, hfiltered⟩)
    rintro n d ⟨hv, hparse⟩
    exact parse_unpacked hload hm hapart hz hlib hparse hv dataDir'
  · intro d hd hid happroved hday'
    refine decide_eq_true (cited_of_approved hm hd happroved ?_ (hday'.trans hday))
    rwa [hid]

theorem sample_textsApart :
    TextsApart Runtime.python (samplePolicyDir "\n") (samplePolicyDir "\n").document := by
  intro n content t packed hread htext hpacked _
  rw [PolicyDir.document_sourceOf, hread] at hpacked
  obtain rfl : content = packed := Option.some.inj hpacked
  have hname : n ∈ (samplePolicyDir "\n").dir.names := Dir.mem_names.mpr (by rw [hread]; rfl)
  rw [List.mem_singleton.mp hname] at hread
  have hplain : (decodeUtf8 (sampleDocument "\n")).all
      (fun t => t.all (fun c => c ≠ '\r')) = true := by
    decide +kernel
  rw [← show content = sampleDocument "\n"
    from Option.some.inj (hread.symm.trans (Dir.read_write_self _ _ _)), htext] at hplain
  rw [universal_of_not_mem, utf8_of_decodeUtf8 htext]
  exact fun hcr => absurd rfl (of_decide_eq_true (List.all_eq_true.mp hplain _ hcr))

/-- The only document of the sample is cited and packed, so a pack of it unpacks to the same
directory. -/
theorem pack_rebuilds_library_sample : ∃ data m members,
    buildZip Runtime.python (samplePolicyDir "\n").document [] "operator" "" sampleApproved
      m = .ok members ∧
    m.policyVersions ≠ [] ∧ Unpacked members (samplePolicyDir "\n") ∧
    ∃ repo, loadPolicies Runtime.python "unpacked" (samplePolicyDir "\n") = .ok repo ∧
      RebuildsLibrary data m repo := by
  have hrun : (sampleExport "\n").any
    (fun r => r.2.2 && (r.2.1.policyVersions.map PolicyVersionRef.source
      = ["policies/gifts.md"])) = true := by decide +kernel
  obtain ⟨⟨data, m, built⟩, hs, hrun⟩ := (Option.any_eq_true _ _).mp hrun
  obtain ⟨hbuilt, hsources⟩ := (Bool.and_eq_true _ _).mp hrun
  replace hsources : m.policyVersions.map PolicyVersionRef.source = ["policies/gifts.md"] :=
    of_decide_eq_true hsources
  obtain ⟨hload, hm, hok⟩ := sampleExport_spec hs
  rw [show built = true from hbuilt] at hok
  cases hz : buildZip Runtime.python (samplePolicyDir "\n").document
    [] "operator" "" sampleApproved m with
  | error e =>
    rw [hz] at hok
    cases hok
  | ok members =>
    obtain ⟨v, hv, hvs⟩ : ∃ v ∈ m.policyVersions, v.source = sourceOf "gifts.md" :=
      List.mem_map.mp (hsources ▸ List.mem_singleton_self "policies/gifts.md")
    have hnames := plain_names hload hm
    have hlib : Unpacked members (samplePolicyDir "\n") := by
      intro n b
      rw [policy_member_iff hz hnames]
      constructor
      · intro hread
        have hname : n ∈ (samplePolicyDir "\n").dir.names := Dir.mem_names.mpr (by rw [hread]; rfl)
        obtain rfl := List.mem_singleton.mp hname
        obtain ⟨c, hc⟩ := version_packed hz hnames ⟨v, hv, hvs⟩
        obtain ⟨w, hw, hws, hdoc, hsha⟩ := (policy_member_iff hz hnames).mp hc
        have hcb : c = b := by
          rw [hws, PolicyDir.document_sourceOf, hread] at hdoc
          exact (Option.some.inj hdoc).symm
        exact ⟨w, hw, hws, hcb ▸ hdoc, hcb ▸ hsha⟩
      · rintro ⟨w, -, hws, hdoc, -⟩
        rwa [hws, PolicyDir.document_sourceOf] at hdoc
    exact ⟨data, m, members, hz, List.ne_nil_of_mem hv, hlib,
      pack_rebuilds_library Runtime.python "data" "unpacked" _ data hload _ _ _ m hm _
        sample_textsApart _ _ _ _ members hz _ hlib⟩

end ComplianceMcp
