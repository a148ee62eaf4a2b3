import ComplianceMcp.PolicyStore
import ComplianceMcp.SplitLines
import ComplianceMcp.Files

/-! # Reading the policy files

One Markdown file holds one version of one policy: a front matter block between two lines
`---`, and sections that start at `## `.  `read_text` decodes the file with universal newlines,
so the hash kept with a document is the one of its text with every line end a line feed
(`loadPolicies_spec`), and not always the one of the bytes in the file. -/
namespace ComplianceMcp

open PyText Files

/-! ## Front matter -/

/-- What stands before the next line `---` and what follows it; `taken` is backwards. -/
def splitFrontMatter (taken : Text) : Text → Option (Text × Text)
  | [] => none
  | c :: t =>
    if "\n---\n".toList.isPrefixOf (c :: t) then some (taken.reverse, (c :: t).drop 5)
    else splitFrontMatter (c :: taken) t

/-- `_FRONT_MATTER.match(text)`: the block and the body. -/
def frontMatter (t : Text) : Option (Text × Text) :=
  if "---\n".toList.isPrefixOf t then splitFrontMatter [] (t.drop 4) else none

/-- `line.partition(":")`, both sides stripped. -/
def frontEntry (line : Text) : String × String :=
  (String.ofList (strip (line.takeWhile (· ≠ ':'))),
    String.ofList (strip ((line.dropWhile (· ≠ ':')).drop 1)))

/-- The entries of the block; of several with one key the last counts. -/
def frontEntries (block : Text) : List (String × String) :=
  ((splitlines block).map frontEntry).reverse

/-- `meta[key]`. -/
def frontItem (entries : List (String × String)) (key : String) : Except PyError String :=
  match entries.lookup key with
  | some v => .ok v
  | none => .error .keyError

/-- `meta.get(key, default)`. -/
def frontGet (entries : List (String × String)) (key default : String) : String :=
  (entries.lookup key).getD default

/-- The items between commas that are not blank. -/
def commaItems (s : String) : List String :=
  ((s.toList.splitOn ',').filter (fun t => !blank t)).map (fun t => String.ofList (strip t))

/-- `PolicyStatus(s)`. -/
def PolicyStatus.ofValue (s : String) : Except PyError PolicyStatus :=
  if s = "approved" then .ok .approved
  else if s = "draft" then .ok .draft
  else if s = "retired" then .ok .retired
  else .error (.valueError ("'" ++ s ++ "' is not a valid PolicyStatus"))

/-! ## Sections -/

/-- `flush()`: a section of blank lines is left out. -/
def flushSection (heading : Text) (lines : List Text) : List PolicySection :=
  if lines.any (fun l => !blank l) then
    [⟨String.ofList heading, String.ofList (strip (List.intercalate ['\n'] lines))⟩]
  else []

/-- The loop of `_split_sections`: the heading under way and its lines so far. -/
def splitSections (heading : Text) (lines : List Text) : List Text → List PolicySection
  | [] => flushSection heading lines
  | line :: rest =>
    if "## ".toList.isPrefixOf line then
      flushSection heading lines ++ splitSections (strip (line.drop 3)) [] rest
    else splitSections heading (lines ++ [line]) rest

/-! ## Documents -/

/-- The policies directory.  The name of a file has no slash in it. -/
structure PolicyDir where
  dir : Dir Bytes
  plain : ∀ n ∈ dir.names, '/' ∉ n.toList

/-- `str(path.relative_to(root.parent))`. -/
def sourceOf (name : String) : String := "policies/" ++ name

/-- `root.glob("*.md")`. -/
def isMarkdown (name : String) : Bool := ".md".toList.isSuffixOf name.toList

variable (rt : Runtime)

/-- `PolicyRepository._parse(path)`. -/
def parsePolicy (dataDir name : String) (content : Bytes) : Except PyError Policy :=
  match decodeUtf8 content with
  | none => .error .unicodeDecodeError
  | some raw =>
    let text := universal raw
    match frontMatter text with
    | none => .error (.valueError (dataDir ++ "/policies/" ++ name ++ ": missing front matter"))
    | some (block, body) => do
      let entries := frontEntries block
      let policyId ← frontItem entries "policy_id"
      let version ← frontItem entries "version"
      let effectiveDate ← frontItem entries "effective_date"
      let status ← PolicyStatus.ofValue (frontGet entries "status" "approved")
      let title ← frontItem entries "title"
      match parseIsoDate effectiveDate with
      | .error _ => .error .validationError
      | .ok _ => return {
          policyId := policyId
          version := version
          effectiveDate := effectiveDate
          status := status
          title := title
          owner := frontGet entries "owner" ""
          regulations := commaItems (frontGet entries "regulations" "")
          controls := commaItems (frontGet entries "controls" "")
          source := sourceOf name
          sha256 := (rt.sha256 (utf8 text)).text
          sections := splitSections "Preamble".toList [] (splitlines body) }

/-- One file of the listing. -/
def parseFile (dataDir : String) (files : PolicyDir) (name : String) : Except PyError Policy :=
  match files.dir.read name with
  | none => .error .fileNotFoundError
  | some content => parsePolicy rt dataDir name content

/-- The document says what the file holds. -/
structure ParsedFrom (files : PolicyDir) (name : String) (d : Policy) : Prop where
  source : d.source = sourceOf name
  sha256 : ∃ content text, files.dir.read name = some content ∧ decodeUtf8 content = some text ∧
    d.sha256 = (rt.sha256 (utf8 (universal text))).text

variable {rt}

theorem parseFile_ok {dataDir : String} {files : PolicyDir} {name : String} {d : Policy}
    (h : parseFile rt dataDir files name = .ok d) : ParsedFrom rt files name d := by
  unfold parseFile at h
  split at h
  · cases h
  next content hread =>
  unfold parsePolicy at h
  split at h
  · cases h
  next raw hraw =>
  simp only [bind, Except.bind, pure, Except.pure] at h
  repeat' split at h
  all_goals cases h
  exact ⟨rfl, content, raw, hread, hraw, rfl⟩

theorem sourceOf_injective : Function.Injective sourceOf := by
  intro n k h
  have h' : "policies/".toList ++ n.toList = "policies/".toList ++ k.toList := by
    rw [← String.toList_append, ← String.toList_append]
    exact congrArg String.toList h
  exact String.toList_inj.mp (List.append_cancel_left h')

/-- The documents stand in the order of the files. -/
theorem parsed_files {dataDir : String} {files : PolicyDir} {names : List String}
    {docs : List Policy} (h : names.mapM (parseFile rt dataDir files) = .ok docs) :
    List.Forall₂ (ParsedFrom rt files) names docs := by
  induction names generalizing docs with
  | nil =>
    cases h
    exact List.Forall₂.nil
  | cons n names ih =>
    rw [List.mapM_cons] at h
    simp only [bind, Except.bind, pure, Except.pure] at h
    split at h
    · cases h
    next d hd =>
    split at h
    · cases h
    next ds hds =>
    cases h
    exact List.Forall₂.cons (parseFile_ok hd) (ih hds)

theorem sources_of_parsed {files : PolicyDir} {names : List String} {docs : List Policy}
    (h : List.Forall₂ (ParsedFrom rt files) names docs) :
    docs.map Policy.source = names.map sourceOf := by
  induction h with
  | nil => rfl
  | cons hd _ ih => rw [List.map_cons, List.map_cons, hd.source, ih]

/-- The listing of the directory. -/
def PolicyDir.listing (files : PolicyDir) : List String := files.dir.sortedNames isMarkdown

theorem PolicyDir.nodup_listing (files : PolicyDir) : files.listing.Nodup :=
  (files.dir.sortedNames_pairwise isMarkdown).imp (fun h => ne_of_lt h)

theorem nodup_sources {dataDir : String} {files : PolicyDir} {docs : List Policy}
    (h : files.listing.mapM (parseFile rt dataDir files) = .ok docs) :
    (docs.map Policy.source).Nodup := by
  rw [sources_of_parsed (parsed_files h)]
  exact files.nodup_listing.map sourceOf_injective

variable (rt) in
/-- `PolicyRepository(root)`. -/
def loadPolicies (dataDir : String) (files : PolicyDir) : Except PyError PolicyRepository :=
  match h : files.listing.mapM (parseFile rt dataDir files) with
  | .error e => .error e
  | .ok docs => .ok ⟨docs, nodup_sources h⟩

/-- **Every document that is loaded comes from a file**, and its hash is the one of the text
of the file. -/
theorem loadPolicies_spec {dataDir : String} {files : PolicyDir} {repo : PolicyRepository}
    (h : loadPolicies rt dataDir files = .ok repo) {d : Policy} (hd : d ∈ repo.docs) :
    ∃ n ∈ files.listing, ParsedFrom rt files n d := by
  unfold loadPolicies at h
  split at h
  · cases h
  next docs hdocs =>
  cases h
  obtain ⟨i, hi, rfl⟩ := List.getElem_of_mem hd
  have hall := List.forall₂_iff_get.mp (parsed_files hdocs)
  have hi' : i < files.listing.length := hall.1 ▸ hi
  exact ⟨files.listing[i], List.getElem_mem hi', hall.2 i hi' hi⟩

end ComplianceMcp
