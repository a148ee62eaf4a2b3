import ComplianceMcp.PrettyJson
import ComplianceMcp.SystemsLoad
import ComplianceMcp.Steps

/-! # The feed directory while it is written

`merge_into_cache` reads the cache file of its source, writes the merged releases to a file beside
it and renames that over the cache file.  Fetch jobs and starting servers act in any order; a job
may stop anywhere, with any part of its file written.  A server reads the names that end in `.json`,
and these come from a rename only, so what it reads is whole.  Two jobs of one source share the file
beside the cache, and nothing keeps them apart. -/
namespace ComplianceMcp

open PyText PyJson Files Steps KeyedMerge

/-! ## Files -/

/-- `{source}.json`. -/
def cacheName (stem : String) : String := stem ++ ".json"

/-- `cache_file.with_suffix(".tmp")`; a name that starts with its only dot has no suffix. -/
def tmpName (stem : String) : String := if stem = "" then ".json.tmp" else stem ++ ".tmp"

/-- The pattern `*.json`. -/
def isJsonName (n : String) : Bool := ".json".toList.isSuffixOf n.toList

/-- `json.dumps(payload, indent=2, ensure_ascii=False) + "\n"`, in UTF-8. -/
def cacheBytes (payload : Json) : Bytes := utf8 (pretty lineStyle 0 payload ++ ['\n'])

section Model

variable (rt : Runtime)

/-- `merge_into_cache` up to the write: what it will write. -/
def mergeBytes (source : String) (file : Option Bytes) (b : FetchedBatch) :
    Except PyError Bytes := do
  let cached ← file.mapM (loadJson rt)
  return cacheBytes (← mergeIntoCache source cached b).2

/-- `[Release.model_validate(raw) for raw in _load_json(path)["releases"]]`. -/
def readReleases (file : Option Bytes) : Except PyError (List Release) :=
  match file with
  | none => .error .fileNotFoundError
  | some content => do loadReleases (← loadJson rt content)

/-! ## Jobs and servers -/

/-- How far a job has come: the feed is parsed; the payload is made and the file beside the cache
open; the file is written and closed. -/
inductive JobStage where
  | parsed
  | writing (content : Bytes)
  | closed (content : Bytes)

structure FeedJob where
  stem : String
  source : String
  batch : FetchedBatch
  stage : JobStage

/-- A server that is starting: the files of its listing it has yet to read and the releases it has
read. `stored` is history: the releases that were in the directory when it was listed. -/
structure FeedReader where
  left : List String
  loaded : List Release
  stored : List Release

/-- The directory, the running jobs and starting servers, and whether a server could not read the
feed. `merged` is history: the batches whose merge into the named file is done. -/
structure FeedState where
  dir : Dir Bytes
  jobs : Nat → Option FeedJob
  readers : Nat → Option FeedReader
  failed : Bool
  merged : String → List FetchedBatch

namespace FeedState

def start : FeedState where
  dir := Dir.empty
  jobs := fun _ => none
  readers := fun _ => none
  failed := false
  merged := fun _ => []

variable (s : FeedState)

def withJob (p : Nat) (j : Option FeedJob) : FeedState :=
  { s with jobs := Function.update s.jobs p j }

def withReader (q : Nat) (r : Option FeedReader) : FeedState :=
  { s with readers := Function.update s.readers q r }

def withFile (n : String) (content : Bytes) : FeedState := { s with dir := s.dir.write n content }

/-- `sorted(root.glob("*.json"))`. -/
def listing : List String := s.dir.sortedNames isJsonName

/-- The releases the merges into a file have left in it. -/
def stored (n : String) : List Release :=
  absorbAll Release.releaseId ((s.merged n).map FetchedBatch.models)

/-- The releases of the directory. -/
def releases : List Release := s.listing.flatMap s.stored

end FeedState

inductive FeedAction where
  | fetch (p : Nat) (stem source : String) (b : FetchedBatch)
  | merge (p : Nat)
  | write (p k : Nat)
  | close (p : Nat)
  | replace (p : Nat)
  | crash (p : Nat)
  | list (q : Nat)
  | next (q : Nat)

/-- A job reads the cache file and makes the payload, or fails. -/
def mergeJob (s : FeedState) (p : Nat) (j : FeedJob) : Option FeedState :=
  match j.stage with
  | .parsed =>
    match mergeBytes rt j.source (s.dir.read (cacheName j.stem)) j.batch with
    | .error _ => some (s.withJob p none)
    | .ok content => some (s.withJob p (some { j with stage := .writing content }))
  | _ => none

/-- Any part of the payload is in the file beside the cache. -/
def writeJob (s : FeedState) (j : FeedJob) (k : Nat) : Option FeedState :=
  match j.stage with
  | .writing content => some (s.withFile (tmpName j.stem) (content.take k))
  | _ => none

/-- All of it is. -/
def closeJob (s : FeedState) (p : Nat) (j : FeedJob) : Option FeedState :=
  match j.stage with
  | .writing content => some ((s.withFile (tmpName j.stem) content).withJob p
      (some { j with stage := .closed content }))
  | _ => none

/-- `tmp.replace(cache_file)`. -/
def replaceJob (s : FeedState) (p : Nat) (j : FeedJob) : Option FeedState :=
  match j.stage with
  | .closed _ =>
    match s.dir.rename (tmpName j.stem) (cacheName j.stem) with
    | none => some (s.withJob p none)
    | some dir => some { s.withJob p none with
        dir := dir
        merged := Function.update s.merged (cacheName j.stem)
          (s.merged (cacheName j.stem) ++ [j.batch]) }
  | _ => none

/-- The next file of a server's listing. -/
def nextFile (s : FeedState) (q : Nat) (r : FeedReader) : Option FeedState :=
  match r.left with
  | [] => none
  | n :: left =>
    match readReleases rt (s.dir.read n) with
    | .error _ => some { s.withReader q none with failed := true }
    | .ok rs => some (s.withReader q (some ⟨left, r.loaded ++ rs, r.stored⟩))

/-- The step function.  A source with a slash in it names a file in another directory. -/
def feedStep (s : FeedState) : FeedAction → Option FeedState
  | .fetch p stem source b =>
    if (s.jobs p).isSome ∨ '/' ∈ stem.toList then
      none else some (s.withJob p (some ⟨stem, source, b, .parsed⟩))
  | .merge p => (s.jobs p).bind (mergeJob rt s p)
  | .write p k => (s.jobs p).bind (fun j => writeJob s j k)
  | .close p => (s.jobs p).bind (closeJob s p)
  | .replace p => (s.jobs p).bind (replaceJob s p)
  | .crash p => (s.jobs p).map (fun _ => s.withJob p none)
  | .list q => some (s.withReader q (some ⟨s.listing, [], s.releases⟩))
  | .next q => (s.readers q).bind (nextFile rt s q)

end Model

/-- No job is started while one that uses the same file beside its cache runs. -/
def OneWriter (s : FeedState) : FeedAction → Prop
  | .fetch _ stem _ _ => ∀ q j, s.jobs q = some j → tmpName j.stem ≠ tmpName stem
  | _ => True

/-! ## Names -/

theorem isJsonName_cacheName (stem : String) : isJsonName (cacheName stem) = true := by
  rw [isJsonName, cacheName, String.toList_append, List.isSuffixOf_iff_suffix]
  exact List.suffix_append _ _

theorem isJsonName_tmpName (stem : String) : isJsonName (tmpName stem) = false := by
  have hp : ∀ t u : Text, ".tmp".toList = u → ".json".toList.isSuffixOf (t ++ u) = false := by
    rintro t u rfl
    refine Bool.eq_false_iff.mpr (fun h => ?_)
    obtain ⟨x, hx⟩ := List.isSuffixOf_iff_suffix.mp h
    have hlast := congrArg List.getLast? hx
    rw [List.getLast?_append, List.getLast?_append] at hlast
    exact absurd (show some 'n' = some 'p' from hlast) (by decide)
  rw [tmpName]
  split
  · exact hp ".json".toList _ rfl
  · rw [isJsonName, String.toList_append]
    exact hp _ _ rfl

theorem tmpName_ne {n : String} (h : isJsonName n = true) (stem : String) : n ≠ tmpName stem := by
  rintro rfl
  rw [isJsonName_tmpName] at h
  cases h

theorem cacheName_ne {stem stem' : String} (h : tmpName stem ≠ tmpName stem') :
    cacheName stem ≠ cacheName stem' := by
  intro he
  rw [cacheName, cacheName] at he
  exact h (by rw [(String.append_left_inj ".json").mp he])

/-! ## Writing and reading a cache file -/

section Bytes

variable {rt : Runtime}

theorem Release.distinctKeys_json (r : Release) : r.json.distinctKeys = true := by
  refine Json.distinctKeys_obj_iff.mpr ⟨by simp, ?_⟩
  simp only [List.forall_mem_cons, Json.distinctKeys_str, true_and]
  exact fun _ h => absurd h List.not_mem_nil

theorem distinctKeys_cachePayload (source fetched : String) (rs : List Release) :
    (cachePayload source fetched (rs.map Release.json)).distinctKeys = true := by
  have hrs : (Json.arr (rs.map Release.json)).distinctKeys = true := by
    rw [Json.distinctKeys]
    induction rs with
    | nil => rfl
    | cons r rs ih => rw [List.map_cons, Json.distinctKeysItems, r.distinctKeys_json, ih]; rfl
  refine Json.distinctKeys_obj_iff.mpr ⟨by simp, ?_⟩
  simp only [List.forall_mem_cons, Json.distinctKeys_str, hrs, true_and]
  exact fun _ h => absurd h List.not_mem_nil

/-- A cache file is read back as what was written. -/
theorem loadJson_cacheBytes (hrt : ∀ t, rt.loads t = PyJson.loads t) {payload : Json}
    (hp : payload.distinctKeys = true) : loadJson rt (cacheBytes payload) = .ok payload := by
  have hcr : '\r' ∉ pretty lineStyle 0 payload ++ ['\n'] := by
    rw [List.mem_append, not_or]
    exact ⟨pretty_no_cr _ _ _, by decide⟩
  rw [loadJson, cacheBytes, decodeUtf8_utf8]
  show loadsText rt (universal (pretty lineStyle 0 payload ++ ['\n'])) = .ok payload
  rw [universal_of_not_mem hcr, loadsText, hrt, loads_pretty _ _ hp rfl]

/-- The bytes of a file with these releases, or no file. -/
def BytesHold (file : Option Bytes) (rs : List Release) : Prop :=
  (file = none ∧ rs = []) ∨
  ∃ source fetched, file = some (cacheBytes (cachePayload source fetched (rs.map Release.json)))

/-- A merge writes the releases of the file with those of the batch it does not have. -/
theorem BytesHold.merge (hrt : ∀ t, rt.loads t = PyJson.loads t) {file : Option Bytes}
    {rs : List Release} (h : BytesHold file rs) (source : String) (b : FetchedBatch) :
    mergeBytes rt source file b =
      .ok (cacheBytes (cachePayload source b.fetched
        ((absorb Release.releaseId rs b.models).map Release.json))) := by
  rcases h with ⟨rfl, rfl⟩ | ⟨writer, fetched, rfl⟩
  · have hmerge := CacheHolds.merge (Or.inl ⟨rfl, rfl⟩ : CacheHolds source none []) b
    unfold mergeBytes
    rw [Option.mapM_none]
    simp only [bind, Except.bind, pure, Except.pure, hmerge]
  · have hmerge := CacheHolds.merge (Or.inr ⟨fetched, rfl⟩ :
      CacheHolds source (some (cachePayload source fetched (rs.map Release.json))) rs) b
    -- the source named in the file is not read
    have hwriter : mergeIntoCache source
      (some (cachePayload writer fetched (rs.map Release.json))) b =
      mergeIntoCache source (some (cachePayload source fetched (rs.map Release.json))) b := rfl
    unfold mergeBytes
    rw [Option.mapM_some, loadJson_cacheBytes hrt (distinctKeys_cachePayload _ _ _)]
    simp only [bind, Except.bind, pure, Except.pure, Functor.map, Except.map, hwriter, hmerge]

/-- A reader gets the releases of the file. -/
theorem readReleases_cacheBytes (hrt : ∀ t, rt.loads t = PyJson.loads t) (source fetched : String)
    {rs : List Release} (hrs : ∀ r ∈ rs, isDateText r.published.toList = true) :
    readReleases rt (some (cacheBytes (cachePayload source fetched (rs.map Release.json)))) =
      .ok rs := by
  have hv : (rs.map Release.json).mapM validateRelease = .ok (rs.map id) := by
    rw [List.mapM_map]
    exact mapM_eq_ok (fun r hr => validateRelease_json (hrs r hr))
  rw [List.map_id] at hv
  rw [readReleases, loadJson_cacheBytes hrt (distinctKeys_cachePayload _ _ _)]
  exact hv

end Bytes

/-! ## The invariant -/

namespace FeedState

/-- The job will leave the file with the releases it has now and those of its batch. -/
def Pending (s : FeedState) (j : FeedJob) (content : Bytes) : Prop :=
  content = cacheBytes (cachePayload j.source j.batch.fetched
    ((absorb Release.releaseId (s.stored (cacheName j.stem)) j.batch.models).map Release.json))

/-- What holds of a job by its stage. -/
def Fits (s : FeedState) (j : FeedJob) : Prop :=
  match j.stage with
  | .parsed => True
  | .writing content => s.Pending j content
  | .closed content => s.Pending j content ∧ s.dir.read (tmpName j.stem) = some content

/-- The files of the feed are whole, no two jobs use one file beside the cache, and a starting
server finds every file of its listing. -/
structure Sound (s : FeedState) : Prop where
  files : ∀ n, isJsonName n = true → BytesHold (s.dir.read n) (s.stored n) ∧
    ((s.dir.read n).isSome = true ↔ s.merged n ≠ [])
  named : ∀ n, s.merged n ≠ [] → isJsonName n = true
  fits : ∀ p j, s.jobs p = some j → s.Fits j
  alone : ∀ p q j k, s.jobs p = some j → s.jobs q = some k → tmpName j.stem = tmpName k.stem → p = q
  left : ∀ q r, s.readers q = some r → ∀ n ∈ r.left, isJsonName n = true ∧
    (s.dir.read n).isSome = true
  kept : ∀ q r, s.readers q = some r → ∀ x ∈ r.stored, x ∈ r.loaded ∨ ∃ n ∈ r.left, x ∈ s.stored n
  running : s.failed = false

theorem sound_start : Sound FeedState.start where
  files := fun n _ => ⟨Or.inl ⟨rfl, rfl⟩, iff_of_false (fun h => by cases h) (not_not.mpr rfl)⟩
  named := fun _ h => absurd rfl h
  fits := fun _ _ h => by cases h
  alone := fun _ _ _ _ h => by cases h
  left := fun _ _ h => by cases h
  kept := fun _ _ h => by cases h
  running := rfl

/-- The releases of a file are those of its batches, and so what the model admits. -/
theorem stored_checked (s : FeedState) (n : String) :
    ∀ r ∈ s.stored n, isDateText r.published.toList = true :=
  absorbAll_checked (s.merged n)

variable {rt : Runtime} {s : FeedState} {p q : Nat} {j : FeedJob}

theorem withJob_self (o : Option FeedJob) : (s.withJob p o).jobs p = o := Function.update_self ..

theorem withJob_of_ne {o : Option FeedJob} (h : q ≠ p) : (s.withJob p o).jobs q = s.jobs q :=
  Function.update_of_ne h ..

/-- The job that runs after a change of one job is that job or was there before. -/
theorem withJob_cases {o : Option FeedJob} {k : FeedJob} (h : (s.withJob p o).jobs q = some k) :
    (q = p ∧ o = some k) ∨ (q ≠ p ∧ s.jobs q = some k) := by
  by_cases hq : q = p
  · subst hq
    rw [withJob_self] at h
    exact Or.inl ⟨rfl, h⟩
  · rw [withJob_of_ne hq] at h
    exact Or.inr ⟨hq, h⟩

theorem Fits.frame {t : FeedState} {k : FeedJob} (h : s.Fits k)
    (hstored : t.stored (cacheName k.stem) = s.stored (cacheName k.stem))
    (hread : ∀ c, k.stage = .closed c → t.dir.read (tmpName k.stem) = s.dir.read (tmpName k.stem)) :
    t.Fits k := by
  obtain ⟨stem, source, batch, stage⟩ := k
  cases stage with
  | parsed => trivial
  | writing content =>
    show content = _
    rw [hstored]
    exact h
  | closed content =>
    refine ⟨?_, (hread content rfl).trans h.2⟩
    show content = _
    rw [hstored]
    exact h.1

/-- A job may end at any time. -/
theorem Sound.ended (h : s.Sound) (p : Nat) : (s.withJob p none).Sound where
  files := h.files
  named := h.named
  fits := by
    intro q k hk
    rcases withJob_cases hk with ⟨-, ho⟩ | ⟨-, hk⟩
    · cases ho
    · exact h.fits q k hk
  alone := by
    intro q q' k k' hk hk'
    rcases withJob_cases hk with ⟨-, ho⟩ | ⟨-, hk⟩
    · cases ho
    rcases withJob_cases hk' with ⟨-, ho⟩ | ⟨-, hk'⟩
    · cases ho
    exact h.alone q q' k k' hk hk'
  left := h.left
  kept := h.kept
  running := h.running

/-- A job that goes on with the same file beside the cache. -/
theorem Sound.continued (h : s.Sound) {k : FeedJob} (hstem : ∀ q k', s.jobs q = some k' →
    tmpName k'.stem = tmpName k.stem → q = p) (hfits :
    s.Fits k) : (s.withJob p (some k)).Sound where
  files := h.files
  named := h.named
  fits := by
    intro q k' hk
    rcases withJob_cases hk with ⟨-, ho⟩ | ⟨-, hk⟩
    · cases ho
      exact hfits
    · exact h.fits q k' hk
  alone := by
    intro q q' k₁ k₂ hk hk' he
    rcases withJob_cases hk with ⟨hq, ho⟩ | ⟨-, hk⟩
    · cases ho
      rcases withJob_cases hk' with ⟨hq', -⟩ | ⟨-, hk'⟩
      · rw [hq, hq']
      · rw [hq, hstem q' k₂ hk' he.symm]
    · rcases withJob_cases hk' with ⟨hq', ho⟩ | ⟨-, hk'⟩
      · cases ho
        rw [hq', hstem q k₁ hk he]
      · exact h.alone q q' k₁ k₂ hk hk' he
  left := h.left
  kept := h.kept
  running := h.running

/-- What is written beside the cache is seen by no reader, and by no other job. -/
theorem Sound.written (h : s.Sound) (hj : s.jobs p = some j) {content : Bytes}
    (hw : j.stage = .writing content) (b : Bytes) : (s.withFile (tmpName j.stem) b).Sound where
  files := by
    intro n hn
    have hread : (s.withFile (tmpName j.stem) b).dir.read n = s.dir.read n :=
      Dir.read_write_of_ne _ _ (tmpName_ne hn _)
    rw [hread]
    exact h.files n hn
  named := h.named
  fits := by
    intro q k hk
    refine (h.fits q k hk).frame rfl (fun c hc => Dir.read_write_of_ne _ _ (fun he => ?_))
    -- the same file is the same job, which is not closed
    obtain rfl := h.alone q p k j hk hj he
    cases hk.symm.trans hj
    rw [hc] at hw
    cases hw
  alone := h.alone
  left := by
    intro q r hr n hn
    obtain ⟨hjson, hsome⟩ := h.left q r hr n hn
    refine ⟨hjson, ?_⟩
    have hread : (s.withFile (tmpName j.stem) b).dir.read n = s.dir.read n :=
      Dir.read_write_of_ne _ _ (tmpName_ne hjson _)
    rw [hread]
    exact hsome
  kept := h.kept
  running := h.running

/-- The directory and the history once a job has replaced its cache file. -/
def replaced (s : FeedState) (p : Nat) (j : FeedJob) (dir : Dir Bytes) : FeedState :=
  { s.withJob p none with
    dir := dir
    merged := Function.update s.merged (cacheName j.stem)
      (s.merged (cacheName j.stem) ++ [j.batch]) }

theorem replaced_stored (dir : Dir Bytes) (n : String) : (s.replaced p j dir).stored n =
    if n = cacheName j.stem then absorb Release.releaseId (s.stored n) j.batch.models
      else s.stored n := by
  show absorbAll Release.releaseId
    ((Function.update s.merged (cacheName j.stem) (s.merged (cacheName j.stem) ++
    [j.batch]) n).map FetchedBatch.models) = _
  by_cases hn : n = cacheName j.stem
  · subst hn
    rw [if_pos rfl, Function.update_self, List.map_append, List.map_singleton, absorbAll_concat]
    rfl
  · rw [if_neg hn, Function.update_of_ne hn]
    rfl

/-- What is stored stays stored. -/
theorem stored_replaced_subset (dir : Dir Bytes) {n : String} {x : Release} (hx : x ∈ s.stored n) :
    x ∈ (s.replaced p j dir).stored n := by
  rw [replaced_stored]
  split
  · exact (prefix_absorb _ _).subset hx
  · exact hx

/-- **The rename puts a whole file in place of the cache**, with what was there and the batch. -/
theorem Sound.replace (h : s.Sound) (hj : s.jobs p = some j) {content : Bytes}
    (hc : j.stage = .closed content) {dir : Dir Bytes}
    (hdir : s.dir.rename (tmpName j.stem) (cacheName j.stem) = some dir) :
    (s.replaced p j dir).Sound := by
  obtain ⟨hpending, htmp⟩ : s.Pending j content ∧ s.dir.read (tmpName j.stem) = some content := by
    have hfits := h.fits p j hj
    unfold Fits at hfits
    rw [hc] at hfits
    exact hfits
  have hread := Dir.read_rename hdir
  rw [htmp] at hread
  have hsome : ∀ n, isJsonName n = true → (s.dir.read n).isSome = true →
      (dir.read n).isSome = true := by
    intro n hn hs
    rw [hread, if_neg (tmpName_ne hn _)]
    split
    · rfl
    · exact hs
  constructor
  case files =>
    intro n hn
    show BytesHold (dir.read n) ((s.replaced p j dir).stored n) ∧ ((dir.read n).isSome = true ↔
      Function.update s.merged (cacheName j.stem) (s.merged (cacheName j.stem) ++ [j.batch]) n ≠ [])
    rw [hread, replaced_stored, if_neg (tmpName_ne hn _)]
    by_cases he : n = cacheName j.stem
    · subst he
      rw [if_pos rfl, if_pos rfl, Function.update_self]
      exact ⟨Or.inr ⟨j.source, j.batch.fetched, congrArg some hpending⟩,
        iff_of_true rfl (List.append_ne_nil_of_right_ne_nil _ (List.cons_ne_nil _ _))⟩
    · rw [if_neg he, if_neg he, Function.update_of_ne he]
      exact h.files n hn
  case named =>
    intro n hn
    by_cases he : n = cacheName j.stem
    · rw [he]
      exact isJsonName_cacheName _
    · refine h.named n (fun hnone => hn ?_)
      show Function.update s.merged (cacheName j.stem) (s.merged (cacheName j.stem) ++
        [j.batch]) n = []
      rwa [Function.update_of_ne he]
  -- the other jobs write under other names
  case fits =>
    intro q k hk
    rcases withJob_cases hk with ⟨-, ho⟩ | ⟨hq, hk⟩
    · cases ho
    have hne : tmpName k.stem ≠ tmpName j.stem := fun he => hq (h.alone q p k j hk hj he)
    refine (h.fits q k hk).frame ?_ (fun c _ => ?_)
    · rw [replaced_stored, if_neg (cacheName_ne hne)]
    · show dir.read (tmpName k.stem) = s.dir.read (tmpName k.stem)
      rw [hread, if_neg (tmpName_ne (isJsonName_cacheName _) _).symm, if_neg hne]
  case alone => exact (h.ended p).alone
  case left =>
    intro q r hr n hn
    obtain ⟨hjson, hs⟩ := h.left q r hr n hn
    exact ⟨hjson, hsome n hjson hs⟩
  -- what a reader is owed is in the new file if it was in the old one
  case kept =>
    intro q r hr x hx
    refine (h.kept q r hr x hx).imp_right ?_
    rintro ⟨n, hn, hxn⟩
    exact ⟨n, hn, stored_replaced_subset dir hxn⟩
  case running => exact h.running

theorem withReader_cases {o : Option FeedReader} {r : FeedReader} {q' : Nat}
    (h : (s.withReader q o).readers q' = some r) : o = some r ∨ s.readers q' = some r := by
  replace h : Function.update s.readers q o q' = some r := h
  by_cases hq : q' = q
  · subst hq
    rw [Function.update_self] at h
    exact Or.inl h
  · rw [Function.update_of_ne hq] at h
    exact Or.inr h

/-- A server that goes on with a listing all of whose files are there, and loses no release of
it. -/
theorem Sound.read (h : s.Sound) (q : Nat) {r : FeedReader}
    (hleft : ∀ n ∈ r.left, isJsonName n = true ∧ (s.dir.read n).isSome = true)
    (hkept : ∀ x ∈ r.stored, x ∈ r.loaded ∨ ∃ n ∈ r.left, x ∈ s.stored n) :
    (s.withReader q (some r)).Sound where
  files := h.files
  named := h.named
  fits := h.fits
  alone := h.alone
  left := by
    intro q' r' hr
    rcases withReader_cases hr with ho | hr
    · cases ho
      exact hleft
    · exact h.left q' r' hr
  kept := by
    intro q' r' hr
    rcases withReader_cases hr with ho | hr
    · cases ho
      exact hkept
    · exact h.kept q' r' hr
  running := h.running

theorem Sound.list (h : s.Sound) (q : Nat) :
    (s.withReader q (some ⟨s.listing, [], s.releases⟩)).Sound := by
  refine h.read q (fun n hn => Dir.mem_sortedNames.mp hn) (fun x hx => Or.inr ?_)
  obtain ⟨n, hn, hx⟩ := List.mem_flatMap.mp hx
  exact ⟨n, hn, hx⟩

/-- A file of the feed is read as what is stored in it. -/
theorem Sound.reads (hrt : ∀ t, rt.loads t = PyJson.loads t) (h : s.Sound) {n : String}
    (hn : isJsonName n = true) (hs : (s.dir.read n).isSome = true) :
    readReleases rt (s.dir.read n) = .ok (s.stored n) := by
  rcases (h.files n hn).1 with ⟨hnone, -⟩ | ⟨source, fetched, hread⟩
  · rw [hnone] at hs
    cases hs
  · rw [hread]
    exact readReleases_cacheBytes hrt source fetched (s.stored_checked n)

/-- **One step.** -/
theorem Sound.step (hrt : ∀ t, rt.loads t = PyJson.loads t) (h : s.Sound) {a : FeedAction}
    (hc : OneWriter s a) {t : FeedState} (ht : feedStep rt s a = some t) : t.Sound := by
  cases a with
  | fetch p stem source b =>
    rw [feedStep] at ht
    split at ht
    · cases ht
    cases ht
    exact h.continued (fun q k hk he => absurd he (hc q k hk)) trivial
  | merge p =>
    obtain ⟨j, hj, ht⟩ := Option.bind_eq_some_iff.mp ht
    unfold mergeJob at ht
    split at ht
    case h_2 => cases ht
    rw [(h.files _ (isJsonName_cacheName j.stem)).1.merge hrt] at ht
    cases ht
    exact h.continued (fun q k hk he => h.alone q p k j hk hj he) rfl
  | write p k =>
    obtain ⟨j, hj, ht⟩ := Option.bind_eq_some_iff.mp ht
    unfold writeJob at ht
    split at ht
    case h_2 => cases ht
    next content hw =>
    cases ht
    exact h.written hj hw _
  | close p =>
    obtain ⟨j, hj, ht⟩ := Option.bind_eq_some_iff.mp ht
    unfold closeJob at ht
    split at ht
    case h_2 => cases ht
    next content hw =>
    cases ht
    have hpending : s.Pending j content := by
      have hfits := h.fits p j hj
      unfold Fits at hfits
      rw [hw] at hfits
      exact hfits
    refine (h.written hj hw content).continued (fun q k hk he => h.alone q p k j hk hj he)
      ⟨hpending, ?_⟩
    exact Dir.read_write_self _ _ _
  | replace p =>
    obtain ⟨j, hj, ht⟩ := Option.bind_eq_some_iff.mp ht
    unfold replaceJob at ht
    split at ht
    case h_2 => cases ht
    next content hs =>
    split at ht
    · cases ht
      exact h.ended p
    next dir hdir =>
    cases ht
    exact h.replace hj hs hdir
  | crash p =>
    obtain ⟨j, -, rfl⟩ := Option.map_eq_some_iff.mp ht
    exact h.ended p
  | list q =>
    cases ht
    exact h.list q
  | next q =>
    obtain ⟨r, hr, ht⟩ := Option.bind_eq_some_iff.mp ht
    unfold nextFile at ht
    split at ht
    · cases ht
    next n left hleft =>
    have hmem : n ∈ r.left := by rw [hleft]; exact List.mem_cons_self
    obtain ⟨hjson, hsome⟩ := h.left q r hr n hmem
    -- a listed file is there and is read as what is stored in it
    rw [h.reads hrt hjson hsome] at ht
    cases ht
    refine h.read q (fun n' hn' => h.left q r hr n'
      (by rw [hleft]; exact List.mem_cons_of_mem _ hn')) ?_
    intro x hx
    rcases h.kept q r hr x hx with hloaded | ⟨n', hn', hxn⟩
    · exact Or.inl (List.mem_append_left _ hloaded)
    rw [hleft] at hn'
    rcases List.mem_cons.mp hn' with rfl | hn'
    · exact Or.inl (List.mem_append_right _ hxn)
    · exact Or.inr ⟨n', hn', hxn⟩

end FeedState

/-! ## What servers read -/

/-- No server has failed over the feed, and one that reads the directory now gets its releases:
those of every merge that is done, each as it came first.  A server that has read its listing has
every release that was stored when it made the listing. -/
structure FeedServed (rt : Runtime) (s : FeedState) : Prop where
  running : s.failed = false
  loads : ∀ dir : DataDir, dir.feed = s.dir → (dir.feedFiles.mapM (loadJson rt)).bind loadFeed =
    .ok s.releases
  merged : ∀ n, ∀ b ∈ s.merged n, ∀ r ∈ b.models, ∃ r' ∈ s.releases, r'.releaseId = r.releaseId
  first : ∀ n id, (s.stored n).find? (fun r => r.releaseId = id) =
    ((s.merged n).flatMap FetchedBatch.models).find? (fun r => r.releaseId = id)
  whole : ∀ q r, s.readers q = some r → r.left = [] → ∀ x ∈ r.stored, x ∈ r.loaded

theorem FeedState.Sound.loads {rt : Runtime} (hrt : ∀ t, rt.loads t = PyJson.loads t)
    {s : FeedState} (h : s.Sound) {ns : List String}
    (hns : ∀ n ∈ ns, isJsonName n = true ∧ (s.dir.read n).isSome = true) :
    ((ns.filterMap s.dir.read).mapM (loadJson rt)).bind loadFeed = .ok (ns.flatMap s.stored) := by
  have hall : ∃ payloads, (ns.filterMap s.dir.read).mapM (loadJson rt) = .ok payloads ∧
      payloads.mapM loadReleases = .ok (ns.map s.stored) := by
    induction ns with
    | nil => exact ⟨[], rfl, rfl⟩
    | cons n ns ih =>
      obtain ⟨payloads, hload, hread⟩ := ih (fun k hk => hns k (List.mem_cons_of_mem _ hk))
      obtain ⟨hn, hs⟩ := hns n List.mem_cons_self
      obtain ⟨content, hcontent⟩ := Option.isSome_iff_exists.mp hs
      have hone := h.reads hrt hn hs
      rw [hcontent, readReleases] at hone
      cases hj : loadJson rt content with
      | error e =>
        rw [hj] at hone
        cases hone
      | ok payload =>
        rw [hj] at hone
        refine ⟨payload :: payloads, ?_, ?_⟩
        · rw [List.filterMap_cons_some hcontent, List.mapM_cons, hj, hload]
          rfl
        · rw [List.mapM_cons, show loadReleases payload = .ok (s.stored n) from hone, hread]
          rfl
  obtain ⟨payloads, hload, hread⟩ := hall
  rw [hload]
  show loadFeed payloads = _
  rw [loadFeed, hread, List.flatMap_def]
  rfl

theorem FeedState.Sound.served {rt : Runtime} (hrt : ∀ t, rt.loads t = PyJson.loads t)
    {s : FeedState} (h : s.Sound) :
    FeedServed rt s where
  running := h.running
  loads := by
    rintro dir hdir
    have hload := h.loads hrt (fun n (hn : n ∈ s.listing) => Dir.mem_sortedNames.mp hn)
    rw [DataDir.feedFiles, hdir]
    exact hload
  merged := by
    intro n b hb r hr
    have hne : s.merged n ≠ [] := List.ne_nil_of_mem hb
    have hjson := h.named n hne
    obtain ⟨r', hr', hid⟩ := List.mem_map.mp
      (@key_mem_absorbAll _ _ _ Release.releaseId _ _ _ (List.mem_map_of_mem hb) hr)
    exact ⟨r', List.mem_flatMap.mpr
      ⟨n, Dir.mem_sortedNames.mpr ⟨hjson, (h.files n hjson).2.mpr hne⟩, hr'⟩, hid⟩
  first := fun n id => find?_absorbAll _ _
  whole := by
    intro q r hr hleft x hx
    rcases h.kept q r hr x hx with hx | ⟨n, hn, -⟩
    · exact hx
    · rw [hleft] at hn
      cases hn

/-- **A starting server always reads the feed**, in whatever order jobs and servers act and wherever
jobs stop, if no two jobs use one file beside a cache.  No batch that was merged is lost. -/
theorem feed_always_loads (rt : Runtime) (hrt : ∀ t, rt.loads t = PyJson.loads t)
    (acts : List FeedAction) (s : FeedState)
    (hm : Meets (feedStep rt) OneWriter FeedState.start acts)
    (hr : run (feedStep rt) FeedState.start acts = some s) :
    FeedServed rt s :=
  (hm.invariant (fun _ _ _ h hc ht => h.step hrt hc ht) FeedState.sound_start hr).served hrt

def sampleBatch : FetchedBatch := ⟨"2026-06-02T00:00:00Z", [sampleItem]⟩

/-- A server lists the feed while a job writes, and again once it has renamed. -/
def sampleFetching : List FeedAction :=
  [.fetch 0 "finra" "FINRA" sampleBatch, .merge 0, .write 0 7, .list 1, .close 0, .replace 0,
    .list 1, .next 1]

theorem feed_always_loads_sample :
    ∃ s, run (feedStep Runtime.python) FeedState.start sampleFetching = some s ∧
    s.releases.length = 1 ∧ FeedServed Runtime.python s := by
  have hrun : (run (feedStep Runtime.python) FeedState.start sampleFetching).any
      (fun s => s.releases.length = 1) = true := by decide +kernel
  obtain ⟨s, hs, hlen⟩ := (Option.any_eq_true _ _).mp hrun
  refine ⟨s, hs, of_decide_eq_true hlen, feed_always_loads Runtime.python
    (fun _ => rfl) sampleFetching s ?_ hs⟩
  refine ⟨fun _ _ h => (nomatch h), fun _ _ =>
    ⟨trivial, fun _ _ => ⟨trivial, fun _ _ => ⟨trivial, fun _ _ =>
    ⟨trivial, fun _ _ => ⟨trivial, fun _ _ =>
      ⟨trivial, fun _ _ => ⟨trivial, fun _ _ => trivial⟩⟩⟩⟩⟩⟩⟩⟩

/-- **Two jobs of one source can leave a file that no server can read**: the second has begun its
file when the first renames it. -/
theorem shared_tmp_breaks_feed : ∃ s, run (feedStep Runtime.python) FeedState.start
    [.fetch 0 "finra" "FINRA" sampleBatch, .fetch 1 "finra" "FINRA" sampleBatch, .merge 0,
      .merge 1, .close 0, .write 1 1, .replace 0, .list 2, .next 2] = some s ∧ s.failed = true := by
  have hrun : (run (feedStep Runtime.python) FeedState.start
      [.fetch 0 "finra" "FINRA" sampleBatch, .fetch 1 "finra" "FINRA" sampleBatch, .merge 0,
        .merge 1, .close 0, .write 1 1, .replace 0, .list 2, .next 2]).any FeedState.failed =
          true := by decide +kernel
  exact (Option.any_eq_true _ _).mp hrun

end ComplianceMcp
