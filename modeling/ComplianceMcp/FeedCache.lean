import ComplianceMcp.DraftChecks
import ComplianceMcp.KeyedMerge

/-! # The cache of regulator releases

The fetcher merges what it has parsed into the cache file of the source, and the server
reads the file when it starts.  A release whose id is in the file is not stored again, so that
an edited page cannot change a text that was quoted.  The batch is compared with the file as
it was before the merge: a batch that brings a new id twice stores both, and the reader, which
keeps the last entry under an id, serves the second. -/
namespace ComplianceMcp

open PyText PyJson

/-! ## Releases as JSON -/

/-- A release as the `Release` model admits it. -/
def CheckedRelease : Type := { r : Release // isDateText r.published.toList = true }

/-- `release.model_dump()`. -/
def Release.json (r : Release) : Json :=
  .obj [("release_id", .str r.releaseId), ("source", .str r.source),
    ("published", .str r.published), ("title", .str r.title), ("url", .str r.url),
    ("text", .str r.text)]

def releaseFields : List String := ["release_id", "source", "published", "title", "url", "text"]

/-- A field of type `str`. -/
def strField (d : Dict) (k : String) : Except PyError String :=
  match Json.get d k with
  | some (.str s) => .ok s
  | _ => .error .validationError

/-- `Release.model_validate(raw)`. -/
def validateRelease : Json → Except PyError Release
  | .obj d => do
    if d.any (fun f => f.1 ∉ releaseFields) then .error .validationError
    else
      let r : Release := ⟨← strField d "release_id", ← strField d "source",
        ← strField d "published", ← strField d "title", ← strField d "url", ← strField d "text"⟩
      if isDateText r.published.toList then .ok r else .error .validationError
  | _ => .error .validationError

/-! ## The fetcher -/

/-- `json.loads(…).get("releases", [])`, as a list; what is no list fails in what follows. -/
def cachedEntries : Json → Except PyError (List Json)
  | .obj d =>
    match Json.get d "releases" with
    | none => .ok []
    | some (.arr entries) => .ok entries
    | some _ => .error .typeError
  | _ => .error .attributeError

/-- `r["release_id"]`, as an element of a set. -/
def entryId : Json → Except PyError Json
  | .obj d =>
    match Json.get d "release_id" with
    | none => .error .keyError
    | some (.arr _) => .error .typeError
    | some (.obj _) => .error .typeError
    | some id => .ok id
  | _ => .error .typeError

/-- The payload `merge_into_cache` writes. -/
def cachePayload (source fetched : String) (entries : List Json) : Json :=
  .obj [("source", .str source), ("fetched", .str fetched), ("releases", .arr entries)]

/-- What `json.loads` reads from the cache file; `none` if there is no file. -/
abbrev CacheFile := Option Json

/-- The releases of one fetch, and the time of the merge. -/
structure FetchedBatch where
  fetched : String
  releases : List CheckedRelease

def FetchedBatch.models (b : FetchedBatch) : List Release := b.releases.map Subtype.val

/-- What a merge finds in the file. -/
def existingEntries : CacheFile → Except PyError (List Json)
  | none => .ok []
  | some payload => cachedEntries payload

/-- `merge_into_cache`: how many releases were added and kept, and the file it writes. -/
def mergeIntoCache (source : String) (file : CacheFile) (b : FetchedBatch) :
    Except PyError ((Nat × Nat) × Json) := do
  let existing ← existingEntries file
  let known ← existing.mapM entryId
  let added := (b.models.filter (fun r => .str r.releaseId ∉ known)).map Release.json
  return ((added.length, existing.length), cachePayload source b.fetched (existing ++ added))

/-- A merge that fails leaves the file as it is. -/
def mergeStep (source : String) (file : CacheFile) (b : FetchedBatch) : CacheFile :=
  match mergeIntoCache source file b with
  | .ok r => some r.2
  | .error _ => file

/-- The cache file after the fetches. -/
def cacheAfter (source : String) (batches : List FetchedBatch) : CacheFile :=
  batches.foldl (mergeStep source) none

/-! ## The reader -/

/-- `for raw in value`. -/
def iterate : Json → Except PyError (List Json)
  | .arr xs => .ok xs
  | .str s => .ok (s.toList.map (fun c => .str (String.singleton c)))
  | .obj d => .ok (d.map (fun f => .str f.1))
  | _ => .error .typeError

/-- The releases of one file of the feed. -/
def loadReleases : Json → Except PyError (List Release)
  | .obj d =>
    match Json.get d "releases" with
    | none => .error .keyError
    | some entries => do (← iterate entries).mapM validateRelease
  | _ => .error .typeError

/-- `RegulatoryFeed(root)` on the files of the directory. -/
def loadFeed (files : List Json) : Except PyError (List Release) := do
  return (← files.mapM loadReleases).flatten

/-- `RegulatoryFeed.get`: of several entries with one id the last. -/
def feedGet (releases : List Release) (releaseId : String) : Option Release :=
  releases.reverse.find? (fun r => r.releaseId = releaseId)

/-! ## What the cache promises -/

section Promises

variable (source : String)

/-- The entries of the file, in order. -/
def storedEntries (file : CacheFile) : List Json := (existingEntries file).toOption.getD []

/-- The ids under which the file has entries. -/
def storedIds (file : CacheFile) : List Json :=
  (storedEntries file).filterMap (fun e => (entryId e).toOption)

/-- The promises of the cache in every state of a run: entries stay, every id once, every
id seen is there, and the reader serves the release that came first. -/
structure CacheKept (batches : List FetchedBatch) : Prop where
  grows : ∀ before b after, batches = before ++ b :: after →
    storedEntries (cacheAfter source before) <+: storedEntries (cacheAfter source (before ++ [b]))
  once : ∀ before, before <+: batches → (storedIds (cacheAfter source before)).Nodup
  present : ∀ before, before <+: batches → ∀ b ∈ before, ∀ r ∈ b.models,
    .str r.releaseId ∈ storedIds (cacheAfter source before)
  served : ∀ before, before <+: batches → ∀ payload, cacheAfter source before = some payload →
    ∃ releases, loadFeed [payload] = .ok releases ∧ ∀ id, feedGet releases id =
      (before.flatMap FetchedBatch.models).find? (fun r => r.releaseId = id)

/-- No merge of the run brings an id twice that the file does not have. -/
def NewIdsOnce (batches : List FetchedBatch) : Prop :=
  ∀ before b after, batches = before ++ b :: after →
    ((b.models.filter (fun r => .str r.releaseId ∉ storedIds (cacheAfter source before))).map
      Release.releaseId).Nodup

end Promises

/-! ## What the file holds -/

section Facts

variable {source : String} {file : CacheFile} {rs : List Release}

theorem validateRelease_json {r : Release} (h : isDateText r.published.toList = true) :
    validateRelease r.json = .ok r := by
  simp [validateRelease, Release.json, releaseFields, strField, Json.get, List.lookup_cons, h,
    bind, Except.bind]

theorem mapM_eq_ok {α β : Type} {f : α → Except PyError β} {g : α → β} {xs : List α}
    (h : ∀ x ∈ xs, f x = .ok (g x)) :
    xs.mapM f = .ok (xs.map g) := by
  induction xs with
  | nil => rfl
  | cons x xs ih =>
    rw [List.mapM_cons, h x List.mem_cons_self, ih (fun y hy => h y (List.mem_cons_of_mem _ hy))]
    rfl

/-- The file was written by a merge and has these releases, or there is none. -/
def CacheHolds (source : String) (file : CacheFile) (rs : List Release) : Prop :=
  (file = none ∧ rs = []) ∨
  ∃ fetched, file = some (cachePayload source fetched (rs.map Release.json))

theorem CacheHolds.entries (h : CacheHolds source file rs) :
    storedEntries file = rs.map Release.json := by
  rcases h with ⟨rfl, rfl⟩ | ⟨fetched, rfl⟩ <;> rfl

theorem CacheHolds.ids (h : CacheHolds source file rs) :
    storedIds file = (rs.map Release.releaseId).map .str := by
  unfold storedIds
  rw [h.entries, List.filterMap_map, List.map_map]
  exact congrFun List.filterMap_eq_map rs

theorem str_mem_map {id : String} {ids : List String} :
    Json.str id ∈ ids.map Json.str ↔ id ∈ ids := by
  constructor
  · intro h
    obtain ⟨id', hid, he⟩ := List.mem_map.mp h
    exact Json.str.inj he ▸ hid
  · exact fun h => List.mem_map_of_mem h

theorem CacheHolds.unknown (h : CacheHolds source file rs) (models : List Release) :
    models.filter (fun r => .str r.releaseId ∉ storedIds file) = KeyedMerge.fresh Release.releaseId
      rs models := by
  unfold KeyedMerge.fresh
  refine congrArg (fun p => List.filter p models)
    (funext fun r => decide_eq_decide.mpr (not_congr ?_))
  rw [h.ids]
  exact str_mem_map

/-- **What a merge does**: it absorbs the batch, and counts what is fresh. -/
theorem CacheHolds.merge (h : CacheHolds source file rs) (b : FetchedBatch) :
    mergeIntoCache source file b =
    .ok (((KeyedMerge.fresh Release.releaseId rs b.models).length, rs.length),
      cachePayload source b.fetched
        ((KeyedMerge.absorb Release.releaseId rs b.models).map Release.json)) := by
  have hknown : (rs.map Release.json).mapM entryId = .ok ((rs.map Release.releaseId).map .str) := by
    have hid : ∀ r ∈ rs, (entryId ∘ Release.json) r = .ok (Json.str r.releaseId) := fun _ _ => rfl
    rw [List.mapM_map, mapM_eq_ok hid, List.map_map]
    rfl
  have hexisting : existingEntries file = .ok (rs.map Release.json) := by
    rcases h with ⟨rfl, rfl⟩ | ⟨fetched, rfl⟩ <;> rfl
  have hfresh := h.unknown b.models
  rw [h.ids] at hfresh
  unfold mergeIntoCache
  simp only [hexisting, hknown, hfresh, bind, Except.bind, pure, Except.pure, List.length_map]
  rw [KeyedMerge.absorb, List.map_append]

theorem CacheHolds.step (h : CacheHolds source file rs) (b : FetchedBatch) :
    CacheHolds source (mergeStep source file b)
      (KeyedMerge.absorb Release.releaseId rs b.models) := by
  refine Or.inr ⟨b.fetched, ?_⟩
  rw [mergeStep, h.merge b]

theorem cacheAfter_holds (source : String) (batches : List FetchedBatch) : CacheHolds source
    (cacheAfter source batches)
    (KeyedMerge.absorbAll Release.releaseId (batches.map FetchedBatch.models)) := by
  induction batches using List.reverseRecOn with
  | nil => exact Or.inl ⟨rfl, rfl⟩
  | append_singleton batches b ih =>
    rw [List.map_append, List.map_singleton, KeyedMerge.absorbAll_concat]
    have hstep : cacheAfter source (batches ++ [b]) = mergeStep source
        (cacheAfter source batches) b := by
      unfold cacheAfter
      rw [List.foldl_append]
      rfl
    rw [hstep]
    exact ih.step b

/-- The reader reads back what the merges have written. -/
theorem CacheHolds.load (h : CacheHolds source file rs)
    (hrs : ∀ r ∈ rs, isDateText r.published.toList = true) {payload : Json}
    (hf : file = some payload) : loadFeed [payload] = .ok rs := by
  rcases h with ⟨rfl, -⟩ | ⟨fetched, rfl⟩
  · cases hf
  · cases hf
    have hv : (rs.map Release.json).mapM validateRelease = .ok rs := by
      rw [List.mapM_map]
      have hm := mapM_eq_ok (f := fun r => validateRelease (Release.json r)) (g := id)
        (fun r hr => validateRelease_json (hrs r hr))
      rwa [List.map_id] at hm
    have hl : loadReleases (cachePayload source fetched (rs.map Release.json)) = .ok rs := by
      unfold loadReleases cachePayload
      exact hv
    unfold loadFeed
    rw [List.mapM_cons, hl]
    simp [bind, Except.bind, pure, Except.pure]

/-- Every stored release came in a batch, so the model admits it. -/
theorem absorbAll_checked (batches : List FetchedBatch) :
    ∀ r ∈ KeyedMerge.absorbAll Release.releaseId (batches.map FetchedBatch.models),
      isDateText r.published.toList = true := by
  intro r hr
  obtain ⟨models, hm, hr⟩ := List.mem_flatten.mp (KeyedMerge.absorbAll_subset _ hr)
  obtain ⟨b, -, rfl⟩ := List.mem_map.mp hm
  obtain ⟨c, -, rfl⟩ := List.mem_map.mp hr
  exact c.2

/-- The ids of the file are distinct after a run exactly if no merge brought a new id twice. -/
theorem stored_nodup (batches : List FetchedBatch) (h : NewIdsOnce source batches) :
    ((KeyedMerge.absorbAll Release.releaseId (batches.map FetchedBatch.models)).map
      Release.releaseId).Nodup := by
  induction batches using List.reverseRecOn with
  | nil => exact List.nodup_nil
  | append_singleton batches b ih =>
    rw [List.map_append, List.map_singleton, KeyedMerge.absorbAll_concat,
      KeyedMerge.nodup_absorb_iff]
    refine ⟨ih (fun before c after hs => ?_), ?_⟩
    · exact h before c (after ++ [b]) (by rw [hs, List.append_assoc, List.cons_append])
    · have hb := h batches b [] rfl
      rwa [(cacheAfter_holds source batches).unknown b.models] at hb

end Facts

/-- **The cache keeps its promises exactly in the runs that bring no new id twice in a batch.** -/
theorem cache_kept_iff (source : String) (batches : List FetchedBatch) :
    CacheKept source batches ↔ NewIdsOnce source batches := by
  have hids : ∀ bs, storedIds (cacheAfter source bs) =
      ((KeyedMerge.absorbAll Release.releaseId (bs.map FetchedBatch.models)).map
        Release.releaseId).map .str :=
    fun bs => (cacheAfter_holds source bs).ids
  constructor
  · intro h before b after hs
    have hone := h.once (before ++ [b])
      ⟨after, by rw [hs, List.append_assoc, List.singleton_append]⟩
    rw [hids, List.map_append, List.map_singleton, KeyedMerge.absorbAll_concat] at hone
    rw [(cacheAfter_holds source before).unknown b.models]
    exact (KeyedMerge.nodup_absorb_iff.mp hone.of_map).2
  · intro h
    have hnodup : ∀ before, before <+: batches →
        ((KeyedMerge.absorbAll Release.releaseId (before.map FetchedBatch.models)).map
          Release.releaseId).Nodup := by
      rintro before ⟨rest, rfl⟩
      refine stored_nodup before (fun first c later hs => h first c (later ++ rest) ?_)
      rw [hs, List.append_assoc, List.cons_append]
    refine ⟨fun before b after hs => ?_, fun before hpre => ?_, fun before _ b hb r hr => ?_,
      fun before hpre payload hf => ?_⟩
    · rw [(cacheAfter_holds source before).entries,
        (cacheAfter_holds source (before ++ [b])).entries, List.map_append, List.map_singleton,
        KeyedMerge.absorbAll_concat]
      exact (KeyedMerge.prefix_absorb _ _).map Release.json
    · rw [hids]
      exact (hnodup before hpre).map (fun _ _ he => Json.str.inj he)
    · rw [hids]
      exact List.mem_map_of_mem (KeyedMerge.key_mem_absorbAll (List.mem_map_of_mem hb) hr)
    · refine ⟨_, (cacheAfter_holds source before).load (absorbAll_checked before) hf, fun id => ?_⟩
      unfold feedGet
      rw [KeyedMerge.find?_reverse (hnodup before hpre), KeyedMerge.find?_absorbAll]
      rfl

def sampleItem : CheckedRelease :=
  ⟨⟨"FINRA-20260601-0a1b2c3d", "FINRA", "2026-06-01", "Gifts", "", "The limit is USD 250."⟩,
    by decide⟩

/-- **A batch that repeats a new id is stored twice.** -/
theorem repeated_item_stored_twice : ¬ CacheKept "FINRA"
    [⟨"2026-06-02T00:00:00Z", [sampleItem, sampleItem]⟩] := by
  intro h
  exact absurd (h.once _ (List.prefix_refl _)) (by decide)

end ComplianceMcp
