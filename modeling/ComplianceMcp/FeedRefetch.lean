import ComplianceMcp.FeedText

/-! # Fetching a feed again

A release is known by its id, and the id is made of the day and of a hash of title and text.  The
day of an item without a date is the day of the fetch, and the title is hashed with the white space
it has, though it is stored without.  Where markup stands in a text as elements, the white space
before the first of them decides what is taken as the text.  `adds_nothing_iff` says when a document
that is fetched again, with no change but in its white space, adds no release. -/
namespace ComplianceMcp

open PyText PyJson KeyedMerge

/-! ## White space in a document -/

/-- Characters without the white space among them. -/
def despace (t : Option Text) : Text := (t.getD []).filter (fun c => !isSpace c)

namespace Element

mutual
/-- The element without its white space. -/
def unspaced : Element → Element
  | mk tag attrib text tail children =>
    mk tag attrib (some (despace text)) (some (despace tail)) (unspacedAll children)
def unspacedAll : List Element → List Element
  | [] => []
  | e :: rest => e.unspaced :: unspacedAll rest
end

theorem tag_unspaced (e : Element) : e.unspaced.tag = e.tag := by
  cases e
  rw [unspaced]
  rfl

end Element

/-- The tags of the elements that hold a date. -/
def dateTags : List String := ["pubDate", atomNamespace ++ "updated", atomNamespace ++ "published"]

/-- The items are the same but for white space, and have the same dates. -/
structure SameButSpace (item item' : Element) : Prop where
  tree : item'.unspaced = item.unspaced
  date : ∀ tag ∈ dateTags, item'.find tag = item.find tag

/-! ## Two fetches -/

/-- One fetch: the day and the time in UTC, and the document. -/
structure Fetch where
  day : String
  stamp : String
  root : Element
  isDay : isDateText day.toList = true

/-- A document is fetched, and then again, with no change but in white space. -/
structure Refetch where
  first : Fetch
  second : Fetch
  same : List.Forall₂ SameButSpace (feedItems first.root) (feedItems second.root)

section Refetch

variable (lib : FeedLibrary) (rt : Runtime)

/-- `merge_into_cache(…, parse_feed(…))`. -/
def fetchFeed (source : String) (file : CacheFile) (f : Fetch) :
    Except PyError ((Nat × Nat) × Json) :=
  match parseFeed lib rt source f.day f.root with
  | .error e => .error e
  | .ok releases => mergeIntoCache source file ⟨f.stamp, releases⟩

/-- A fetch that fails leaves the file as it is. -/
def fetchStep (source : String) (file : CacheFile) (f : Fetch) : CacheFile :=
  match fetchFeed lib rt source file f with
  | .ok r => some r.2
  | .error _ => file

/-- The cache file after the fetches. -/
def cacheFetched (source : String) (fetches : List Fetch) : CacheFile :=
  fetches.foldl (fetchStep lib rt source) none

/-- **The second fetch adds no release**, whatever was fetched before the first. -/
def AddsNothing (source : String) (earlier : List Fetch) (r : Refetch) : Prop :=
  ∀ n file, fetchFeed lib rt source (cacheFetched lib rt source earlier) r.first = .ok (n, file) →
    ∀ added kept file', fetchFeed lib rt source (some file) r.second = .ok ((added, kept), file') →
    added = 0

/-- The item has a title and a text, so that it is kept. -/
def HasBoth (item : Element) : Prop := textOf lib (titleNode item) ≠ [] ∧ itemBody lib item ≠ []

/-- Every date can be read, so that the document is parsed. -/
def DatesRead (today : String) (items : List Element) : Prop :=
  ∀ item ∈ items, ∃ day, isoDate lib today (itemDate lib item) = .ok day ∧
    (HasBoth lib item → isDateText day.toList = true)

/-- One title, with the white space it has, and one text, up to white space. -/
structure SameText (item item' : Element) : Prop where
  title : textOf lib (titleNode item) = textOf lib (titleNode item')
  text : normalise (itemBody lib item) = normalise (itemBody lib item')

/-- The item has a date or is fetched twice on one day, and it reads the same both times. -/
structure Stable (r : Refetch) (item item' : Element) : Prop where
  day : itemDate lib item ≠ [] ∨ r.first.day = r.second.day
  reads : SameText lib item item'

/-- Of one day there is an item with the same title and text in a document that was parsed
before, or at another place of the first document. -/
def Repeats (earlier : List Fetch) (r : Refetch) (i : Nat) (item' : Element) : Prop :=
  ∃ day, isoDate lib r.second.day (itemDate lib item') = .ok day ∧
    ((∃ f ∈ earlier, DatesRead lib f.day (feedItems f.root) ∧ ∃ other ∈ feedItems f.root,
        isoDate lib f.day (itemDate lib other) = .ok day ∧ SameText lib other item') ∨
      ∃ j other, j ≠ i ∧ (feedItems r.first.root)[j]? = some other ∧
        isoDate lib r.first.day (itemDate lib other) = .ok day ∧ SameText lib other item')

/-- If both documents are parsed, every item that the second keeps is stable, or repeats another. -/
def ComesAgain (earlier : List Fetch) (r : Refetch) : Prop :=
  DatesRead lib r.first.day (feedItems r.first.root) →
    DatesRead lib r.second.day (feedItems r.second.root) →
    ∀ i item item', (feedItems r.first.root)[i]? = some item →
    (feedItems r.second.root)[i]? = some item' → HasBoth lib item' →
    Stable lib r item item' ∨ Repeats lib earlier r i item'

/-- What is hashed of an item. -/
def hashedText (item : Element) : Text :=
  textOf lib (titleNode item) ++ '\n' :: normalise (itemBody lib item)

/-- The hash of an item, over the title with its white space. -/
def itemDigest (item : Element) : Text :=
  fingerprint rt (textOf lib (titleNode item)) (normalise (itemBody lib item))

/-- The eight digits of a hash tell the items of the fetches apart. -/
def DigestsTell (earlier : List Fetch) (r : Refetch) : Prop :=
  ∀ f, (f = r.first ∨ f ∈ earlier) → ∀ item ∈ feedItems f.root, ∀ item' ∈ feedItems r.second.root,
    HasBoth lib item → HasBoth lib item' → itemDigest lib rt item = itemDigest lib rt item' →
    hashedText lib item = hashedText lib item'

end Refetch

/-! ## Ids -/

/-- The digits of a date. -/
theorem isDateText_digits {t : Text} (h : isDateText t = true) : ∃ y₁ y₂ y₃ y₄ m₁ m₂ d₁ d₂,
    t = [y₁, y₂, y₃, y₄, '-', m₁, m₂, '-', d₁, d₂] ∧
      t.filter (· ≠ '-') = [y₁, y₂, y₃, y₄, m₁, m₂, d₁, d₂] := by
  unfold isDateText at h
  split at h
  · next y₁ y₂ y₃ y₄ m₁ m₂ d₁ d₂ =>
    have hdash : ∀ c ∈ [y₁, y₂, y₃, y₄, m₁, m₂, d₁, d₂], decide (c ≠ '-') = true := by
      intro c hc
      refine decide_eq_true (fun he => ?_)
      have hd := List.all_eq_true.mp h c hc
      rw [he] at hd
      revert hd
      decide
    refine ⟨y₁, y₂, y₃, y₄, m₁, m₂, d₁, d₂, rfl, ?_⟩
    have hall := List.filter_eq_self.mpr hdash
    simpa [List.filter_cons] using hall
  · cases h

/-- Ids of one source name the day and the hash. -/
theorem releaseIdOf_inj {source d d' : String} {g g' : Text} (hd : isDateText d.toList = true)
    (hd' : isDateText d'.toList = true) :
    releaseIdOf source d g = releaseIdOf source d' g' ↔ d = d' ∧ g = g' := by
  constructor
  · intro h
    obtain ⟨y₁, y₂, y₃, y₄, m₁, m₂, d₁, d₂, ht, hf⟩ := isDateText_digits hd
    obtain ⟨y₁', y₂', y₃', y₄', m₁', m₂', d₁', d₂', ht', hf'⟩ := isDateText_digits hd'
    have hlist := congrArg String.toList h
    rw [releaseIdOf, releaseIdOf, String.toList_ofList, String.toList_ofList, hf, hf'] at hlist
    have hrest := List.append_cancel_left hlist
    simp only [List.cons_append, List.nil_append, List.cons.injEq, true_and] at hrest
    obtain ⟨rfl, rfl, rfl, rfl, rfl, rfl, rfl, rfl, rfl⟩ := hrest
    exact ⟨String.toList_inj.mp (ht.trans ht'.symm), rfl⟩
  · rintro ⟨rfl, rfl⟩
    rfl

/-! ## The releases of a document -/

section Releases

variable {lib : FeedLibrary} {rt : Runtime} {source today : String}

/-- The item becomes a release with this id. -/
structure ReleasedAs (lib : FeedLibrary) (rt : Runtime) (source today : String) (item : Element)
    (id : String) : Prop where
  both : HasBoth lib item
  day : ∃ day, isoDate lib today (itemDate lib item) = .ok day ∧ isDateText day.toList = true ∧
    id = releaseIdOf source day (itemDigest lib rt item)

theorem parseItem_skip_or_keep (item : Element) {o : Option CheckedRelease}
    (h : parseItem lib rt source today item = .ok o) (id : String) :
    id ∈ o.toList.map (fun r => r.val.releaseId) ↔ ReleasedAs lib rt source today item id := by
  cases hday : isoDate lib today (itemDate lib item) with
  | error e =>
    rw [parseItem, hday] at h
    cases h
  | ok day =>
    by_cases hskip : textOf lib (titleNode item) = [] ∨ itemBody lib item = []
    · rw [parseItem_skips hday hskip] at h
      cases h
      exact iff_of_false List.not_mem_nil (fun hr => hskip.elim hr.both.1 hr.both.2)
    obtain ⟨htitle, hbody⟩ := not_or.mp hskip
    obtain ⟨hgood, hbad⟩ := @parseItem_keeps lib rt source today day item hday htitle hbody
    cases hd : isDateText day.toList with
    | false =>
      rw [hbad hd] at h
      cases h
    | true =>
      obtain ⟨r, hr, hid, -, -⟩ := hgood hd
      rw [hr] at h
      cases h
      rw [Option.toList_some, List.map_singleton, List.mem_singleton, hid]
      constructor
      · exact fun he => ⟨⟨htitle, hbody⟩, day, hday, hd, he⟩
      · rintro ⟨-, day', hday', -, he⟩
        cases hday.symm.trans hday'
        exact he

theorem mem_parseFeed {root : Element} {releases : List CheckedRelease}
    (h : parseFeed lib rt source today root = .ok releases) (id : String) :
    id ∈ releases.map (fun r => r.val.releaseId) ↔
      ∃ item ∈ feedItems root, ReleasedAs lib rt source today item id := by
  obtain ⟨outcomes, hall, rfl⟩ := parseFeed_ok h
  clear h
  generalize feedItems root = items at hall ⊢
  induction hall with
  | nil => exact iff_of_false List.not_mem_nil (fun ⟨item, hitem, _⟩ => List.not_mem_nil hitem)
  | @cons item o items outcomes ho _ ih =>
    have hcons : (o :: outcomes).reduceOption = o.toList ++ outcomes.reduceOption := by
      cases o with
      | none => rfl
      | some r => rfl
    rw [hcons, List.map_append, List.mem_append, parseItem_skip_or_keep item ho, ih]
    simp only [List.mem_cons, exists_eq_or_imp]

theorem parseItem_ok_iff (item : Element) : (∃ o, parseItem lib rt source today item = .ok o) ↔
    ∃ day, isoDate lib today (itemDate lib item) = .ok day ∧
      (HasBoth lib item → isDateText day.toList = true) := by
  cases hday : isoDate lib today (itemDate lib item) with
  | error e =>
    refine iff_of_false ?_ (fun ⟨day, h, _⟩ => by cases h)
    rintro ⟨o, ho⟩
    rw [parseItem, hday] at ho
    cases ho
  | ok day =>
    by_cases hboth : HasBoth lib item
    · obtain ⟨hgood, hbad⟩ := @parseItem_keeps lib rt source today day item hday hboth.1 hboth.2
      cases hd : isDateText day.toList with
      | true =>
        obtain ⟨r, hr, -⟩ := hgood hd
        exact iff_of_true ⟨_, hr⟩ ⟨day, rfl, fun _ => hd⟩
      | false =>
        refine iff_of_false ?_ ?_
        · rintro ⟨o, ho⟩
          rw [hbad hd] at ho
          cases ho
        · rintro ⟨day', hday', hvalid⟩
          cases hday'
          rw [hvalid hboth] at hd
          cases hd
    · have hskip : textOf lib (titleNode item) = [] ∨ itemBody lib item = [] := by
        by_contra h
        exact hboth (not_or.mp h)
      exact iff_of_true ⟨none, parseItem_skips hday hskip⟩ ⟨day, rfl, fun h => absurd h hboth⟩

/-- A document is parsed exactly if its dates can be read. -/
theorem parseItems_ok_iff (items : List Element) :
    (∃ releases, parseItems lib rt source today items = .ok releases) ↔
    DatesRead lib today items := by
  unfold DatesRead
  induction items with
  | nil => exact iff_of_true ⟨[], rfl⟩ (fun _ h => absurd h List.not_mem_nil)
  | cons item items ih =>
    rw [List.forall_mem_cons, ← ih, ← @parseItem_ok_iff lib rt source today item, parseItems]
    cases parseItem lib rt source today item with
    | error e =>
      refine iff_of_false ?_ ?_
      · rintro ⟨releases, h⟩
        cases h
      · rintro ⟨⟨o, ho⟩, -⟩
        cases ho
    | ok o =>
      cases parseItems lib rt source today items with
      | error e =>
        refine iff_of_false ?_ ?_
        · rintro ⟨releases, h⟩
          cases h
        · rintro ⟨-, releases, h⟩
          cases h
      | ok releases => exact iff_of_true ⟨_, rfl⟩ ⟨⟨o, rfl⟩, ⟨releases, rfl⟩⟩

end Releases

/-! ## Items that read the same -/

section Same

variable {lib : FeedLibrary} {rt : Runtime} {item item' : Element}

theorem newline_not_mem_collapse (t : Text) : '\n' ∉ collapse t := by
  have hspace : isSpace '\n' = true := by decide
  have hblank : '\n' ≠ ' ' := by decide
  fun_induction collapse t with
  | case1 => exact List.not_mem_nil
  | case2 c hc d t' hd ih => exact ih
  | case3 c hc d t' hd ih => exact fun h => (List.mem_cons.mp h).elim hblank ih
  | case4 c hc => exact fun h => hblank (List.mem_singleton.mp h)
  | case5 c t hc ih =>
    intro h
    rcases List.mem_cons.mp h with rfl | h
    · exact hc hspace
    · exact ih h

theorem newline_not_mem_normalise (t : Text) : '\n' ∉ normalise t := by
  obtain ⟨before, after, -, -, heq⟩ := strip_ends (collapse t)
  intro h
  refine newline_not_mem_collapse t ?_
  rw [heq]
  exact List.mem_append_right _ (List.mem_append_left _ h)

/-- The last line feed parts title and text. -/
theorem last_newline_inj {title title' text text' : Text} (ht : '\n' ∉ text) (ht' : '\n' ∉ text')
    (h : title ++ '\n' :: text = title' ++ '\n' :: text') : title = title' ∧ text = text' := by
  rcases List.append_eq_append_iff.mp h with ⟨w, hw, hrest⟩ | ⟨w, hw, hrest⟩
  · cases w with
    | nil => exact ⟨by rw [hw, List.append_nil], (List.cons.inj hrest).2⟩
    | cons c w =>
      refine absurd ?_ ht
      rw [(List.cons.inj hrest).2]
      exact List.mem_append_right _ List.mem_cons_self
  · cases w with
    | nil => exact ⟨by rw [hw, List.append_nil], (List.cons.inj hrest).2.symm⟩
    | cons c w =>
      refine absurd ?_ ht'
      rw [(List.cons.inj hrest).2]
      exact List.mem_append_right _ List.mem_cons_self

/-- What is hashed is the title and the text. -/
theorem hashedText_eq_iff :
    hashedText lib item = hashedText lib item' ↔ SameText lib item item' := by
  constructor
  · intro h
    obtain ⟨htitle, htext⟩ :=
      last_newline_inj (newline_not_mem_normalise _) (newline_not_mem_normalise _) h
    exact ⟨htitle, htext⟩
  · rintro ⟨htitle, htext⟩
    rw [hashedText, hashedText, htitle, htext]

theorem SameText.digest (h : SameText lib item item') :
    itemDigest lib rt item = itemDigest lib rt item' := by
  rw [itemDigest, itemDigest, h.title, h.text]

theorem SameText.hasBoth (h : SameText lib item item') (hboth : HasBoth lib item') :
    HasBoth lib item := by
  unfold HasBoth at hboth ⊢
  rw [ne_eq, ne_eq, ← itemBody_normalise_nil] at hboth ⊢
  rw [h.title, h.text]
  exact hboth

theorem SameButSpace.itemDate (h : SameButSpace item item') :
    itemDate lib item' = itemDate lib item := by
  have htag : isAtom item' = isAtom item := by
    rw [isAtom, isAtom, ← Element.tag_unspaced item', h.tree, Element.tag_unspaced]
  have hpub := h.date "pubDate" (by decide)
  have hupdated := h.date (atomNamespace ++ "updated") (by decide)
  have hpublished := h.date (atomNamespace ++ "published") (by decide)
  rw [ComplianceMcp.itemDate, ComplianceMcp.itemDate, htag, hpub, hupdated, hpublished]

/-- An item becomes a release with the id of this day and digest if it is of this day and has
this digest. -/
theorem releasedAs_iff {source today day : String} {digest : Text}
    (hvalid : isDateText day.toList = true) :
    ReleasedAs lib rt source today item (releaseIdOf source day digest) ↔
      HasBoth lib item ∧ isoDate lib today (itemDate lib item) = .ok day ∧
      itemDigest lib rt item = digest := by
  constructor
  · rintro ⟨hboth, day₁, hday₁, hvalid₁, hid⟩
    obtain ⟨rfl, hdigest⟩ := (releaseIdOf_inj hvalid hvalid₁).mp hid
    exact ⟨hboth, hday₁, hdigest.symm⟩
  · rintro ⟨hboth, hday, rfl⟩
    exact ⟨hboth, day, hday, hvalid, rfl⟩

end Same

/-! ## What the file knows -/

section Known

variable {lib : FeedLibrary} {rt : Runtime} {source : String} {earlier : List Fetch}

/-- The releases of the documents that were parsed. -/
def batchesOf (lib : FeedLibrary) (rt : Runtime) (source : String) (fetches : List Fetch) :
    List FetchedBatch :=
  fetches.filterMap (fun f => (parseFeed lib rt source f.day f.root).toOption.map
    (FetchedBatch.mk f.stamp))

theorem cacheFetched_eq :
    cacheFetched lib rt source earlier = cacheAfter source (batchesOf lib rt source earlier) := by
  unfold cacheFetched cacheAfter batchesOf
  generalize (none : CacheFile) = file
  induction earlier generalizing file with
  | nil => rfl
  | cons f fs ih =>
    rw [List.foldl_cons, ih, List.filterMap_cons]
    unfold fetchStep fetchFeed
    cases parseFeed lib rt source f.day f.root with
    | error e => rfl
    | ok releases =>
      simp only [Except.toOption, Option.map_some, List.foldl_cons]
      unfold mergeStep
      rfl

theorem models_ids (stamp : String) (rs : List CheckedRelease) :
    (FetchedBatch.models ⟨stamp, rs⟩).map Release.releaseId = rs.map (fun r => r.val.releaseId) :=
  List.map_map

/-- The file holds the ids of all items of the documents that were parsed. -/
theorem mem_storedIds_iff (id : String) : .str id ∈ storedIds (cacheFetched lib rt source earlier) ↔
    ∃ f ∈ earlier, DatesRead lib f.day (feedItems f.root) ∧
      ∃ item ∈ feedItems f.root, ReleasedAs lib rt source f.day item id := by
  rw [cacheFetched_eq, (cacheAfter_holds source _).ids, str_mem_map, key_mem_absorbAll_iff]
  constructor
  · rintro ⟨models, hmodels, hid⟩
    obtain ⟨b, hb, rfl⟩ := List.mem_map.mp hmodels
    obtain ⟨f, hf, hbatch⟩ := List.mem_filterMap.mp hb
    cases hparse : parseFeed lib rt source f.day f.root with
    | error e =>
      rw [hparse] at hbatch
      cases hbatch
    | ok releases =>
      rw [hparse] at hbatch
      cases hbatch
      rw [models_ids, mem_parseFeed hparse] at hid
      exact ⟨f, hf, (@parseItems_ok_iff lib rt source _ _).mp ⟨releases, hparse⟩, hid⟩
  · rintro ⟨f, hf, hread, hitem⟩
    obtain ⟨releases, hparse⟩ := (@parseItems_ok_iff lib rt source _ _).mpr hread
    rw [← parseFeed] at hparse
    refine ⟨_, List.mem_map_of_mem (List.mem_filterMap.mpr ⟨f, hf, by rw [hparse]; rfl⟩), ?_⟩
    rw [models_ids, mem_parseFeed hparse]
    exact hitem

/-- Both documents are parsed: nothing is added exactly if every id of the second was stored before
or comes from the first. -/
theorem addsNothing_iff_known (r : Refetch) (h : DatesRead lib r.first.day (feedItems r.first.root))
    (h' : DatesRead lib r.second.day (feedItems r.second.root)) :
    AddsNothing lib rt source earlier r ↔ ∀ item' ∈ feedItems r.second.root, ∀ id,
      ReleasedAs lib rt source r.second.day item' id →
        .str id ∈ storedIds (cacheFetched lib rt source earlier) ∨
          ∃ item ∈ feedItems r.first.root, ReleasedAs lib rt source r.first.day item id := by
  obtain ⟨releases, hparse⟩ := (@parseItems_ok_iff lib rt source _ _).mpr h
  obtain ⟨releases', hparse'⟩ := (@parseItems_ok_iff lib rt source _ _).mpr h'
  rw [← parseFeed] at hparse hparse'
  -- the file after the first fetch
  have hstored := cacheAfter_holds source (batchesOf lib rt source earlier)
  rw [← cacheFetched_eq] at hstored
  have hfirst := hstored.merge ⟨r.first.stamp, releases⟩
  have hafter : CacheHolds source
    (some (cachePayload source r.first.stamp ((absorb Release.releaseId
      (absorbAll Release.releaseId ((batchesOf lib rt source earlier).map FetchedBatch.models))
      (FetchedBatch.models ⟨r.first.stamp, releases⟩)).map Release.json))) _ := .inr ⟨_, rfl⟩
  have hsecond := hafter.merge ⟨r.second.stamp, releases'⟩
  have hadds : AddsNothing lib rt source earlier r ↔
    fresh Release.releaseId (absorb Release.releaseId
      (absorbAll Release.releaseId ((batchesOf lib rt source earlier).map FetchedBatch.models))
      (FetchedBatch.models ⟨r.first.stamp, releases⟩)) (FetchedBatch.models
        ⟨r.second.stamp, releases'⟩) = [] := by
    unfold AddsNothing fetchFeed
    simp only [hparse, hparse', hfirst]
    rw [← List.length_eq_zero_iff]
    constructor
    · exact fun h => h _ _ rfl _ _ _ hsecond
    · intro h n file he added kept file' he'
      cases he
      rw [hsecond] at he'
      cases he'
      exact h
  rw [hadds, fresh_eq_nil_iff]
  have hids : ∀ id, Json.str id ∈ storedIds (cacheFetched lib rt source earlier) ↔
      id ∈ (absorbAll Release.releaseId
        ((batchesOf lib rt source earlier).map FetchedBatch.models)).map
        Release.releaseId := by
    intro id
    rw [hstored.ids, str_mem_map]
  have hkeys : (∀ a ∈ FetchedBatch.models ⟨r.second.stamp, releases'⟩, a.releaseId ∈
    (absorb Release.releaseId
      (absorbAll Release.releaseId ((batchesOf lib rt source earlier).map FetchedBatch.models))
      (FetchedBatch.models ⟨r.first.stamp, releases⟩)).map Release.releaseId) ↔
      ∀ id ∈ releases'.map (fun r => r.val.releaseId),
        .str id ∈ storedIds (cacheFetched lib rt source earlier) ∨
        id ∈ releases.map (fun r => r.val.releaseId) := by
    rw [← models_ids r.second.stamp releases', List.forall_mem_map]
    simp only [key_mem_absorb_iff, hids, models_ids]
  rw [hkeys]
  simp only [mem_parseFeed hparse, mem_parseFeed hparse']
  constructor
  · exact fun h item' hitem' id hid => h id ⟨item', hitem', hid⟩
  · rintro h id ⟨item', hitem', hid⟩
    exact h item' hitem' id hid

/-- Where a date cannot be read one of the fetches fails. -/
theorem addsNothing_of_unread {r : Refetch}
    (h : ¬ (DatesRead lib r.first.day (feedItems r.first.root) ∧
    DatesRead lib r.second.day (feedItems r.second.root))) : AddsNothing lib rt source
      earlier r := by
  intro n file he added kept file' he'
  have hparsed : ∀ {f : Fetch} {file x}, fetchFeed lib rt source file f = .ok x →
      DatesRead lib f.day (feedItems f.root) := by
    intro f file x hf
    cases hparse : parseFeed lib rt source f.day f.root with
    | error e =>
      rw [fetchFeed, hparse] at hf
      cases hf
    | ok releases => exact (@parseItems_ok_iff lib rt source _ _).mp ⟨releases, hparse⟩
  exact absurd ⟨hparsed he, hparsed he'⟩ h

end Known

/-! ## Item by item -/

section Items

variable {lib : FeedLibrary} {rt : Runtime} {source : String} {earlier : List Fetch} {r : Refetch}
variable {i : Nat} {item item' : Element}

theorem refetch_pair (h : (feedItems r.first.root)[i]? = some item)
    (h' : (feedItems r.second.root)[i]? = some item') : SameButSpace item item' := by
  obtain ⟨hi, rfl⟩ := List.getElem?_eq_some_iff.mp h
  obtain ⟨hi', rfl⟩ := List.getElem?_eq_some_iff.mp h'
  exact (List.forall₂_iff_get.mp r.same).2 i hi hi'

/-- Every item of the second document stands where one of the first does. -/
theorem refetch_partner (hitem' : item' ∈ feedItems r.second.root) :
    ∃ (i : Nat) (item : Element), (feedItems r.first.root)[i]? = some item ∧
      (feedItems r.second.root)[i]? = some item' := by
  obtain ⟨i, hi', rfl⟩ := List.getElem_of_mem hitem'
  have hi : i < (feedItems r.first.root).length := r.same.length_eq ▸ hi'
  exact ⟨i, _, List.getElem?_eq_getElem hi, List.getElem?_eq_getElem hi'⟩

/-- An item of another fetch has the digest of a kept one exactly if it reads the same. -/
theorem digest_eq_iff (hfree : DigestsTell lib rt earlier r) {f : Fetch}
    (hf : f = r.first ∨ f ∈ earlier) (hitem : item ∈ feedItems f.root)
    (hitem' : item' ∈ feedItems r.second.root) (hboth : HasBoth lib item') :
    HasBoth lib item ∧ itemDigest lib rt item = itemDigest lib rt item' ↔
    SameText lib item item' := by
  constructor
  · rintro ⟨hboth₁, hdigest⟩
    exact hashedText_eq_iff.mp (hfree f hf item hitem item' hitem' hboth₁ hboth hdigest)
  · exact fun h => ⟨h.hasBoth hboth, h.digest⟩

variable {day : String}

/-- An item is stable exactly if the first document gives it the day and the text the second
does. -/
theorem stable_iff (hpair : SameButSpace item item')
    (hday : isoDate lib r.second.day (itemDate lib item') = .ok day) :
    Stable lib r item item' ↔
      isoDate lib r.first.day (itemDate lib item) = .ok day ∧ SameText lib item item' := by
  rw [hpair.itemDate] at hday
  by_cases hnone : itemDate lib item = []
  · rw [isoDate, if_pos hnone] at hday ⊢
    cases hday
    rw [Except.ok.injEq]
    constructor
    · exact fun hs => ⟨hs.day.resolve_left (not_not_intro hnone), hs.reads⟩
    · exact fun hs => ⟨.inr hs.1, hs.2⟩
  · rw [isoDate, if_neg hnone] at hday ⊢
    constructor
    · exact fun hs => ⟨hday, hs.reads⟩
    · exact fun hs => ⟨.inl hnone, hs.2⟩

/-- A kept item is known after the first fetch exactly if it is stable or repeats another. -/
theorem known_iff_comes (hfree : DigestsTell lib rt earlier r)
    (hitem : (feedItems r.first.root)[i]? = some item)
    (hitem' : (feedItems r.second.root)[i]? = some item') (hboth : HasBoth lib item')
    (hday : isoDate lib r.second.day (itemDate lib item') = .ok day)
    (hvalid : isDateText day.toList = true) :
    (.str (releaseIdOf source day (itemDigest lib rt item')) ∈ storedIds
      (cacheFetched lib rt source earlier) ∨
      ∃ first ∈ feedItems r.first.root,
        ReleasedAs lib rt source r.first.day first
          (releaseIdOf source day (itemDigest lib rt item'))) ↔
      Stable lib r item item' ∨ Repeats lib earlier r i item' := by
  have hmem' := List.mem_of_getElem? hitem'
  -- an item of the first document or of an earlier one that has the id of this one
  have hknown : ∀ f : Fetch, (f = r.first ∨ f ∈ earlier) → ∀ other ∈ feedItems f.root,
      (ReleasedAs lib rt source f.day other (releaseIdOf source day (itemDigest lib rt item')) ↔
        isoDate lib f.day (itemDate lib other) = .ok day ∧ SameText lib other item') := by
    intro f hf other hother
    rw [releasedAs_iff hvalid, and_left_comm, digest_eq_iff hfree hf hother hmem' hboth]
  rw [mem_storedIds_iff, stable_iff (refetch_pair hitem hitem') hday]
  constructor
  · rintro (⟨f, hf, hread, other, hother, hreleased⟩ | ⟨first, hfirst, hreleased⟩)
    · exact .inr ⟨day, hday, .inl ⟨f, hf, hread, other, hother,
        (hknown f (.inr hf) other hother).mp hreleased⟩⟩
    have hgiven := (hknown r.first (.inl rfl) first hfirst).mp hreleased
    obtain ⟨j, hj, rfl⟩ := List.getElem_of_mem hfirst
    by_cases he : j = i
    · subst he
      rw [List.getElem?_eq_getElem hj, Option.some.injEq] at hitem
      exact .inl (hitem ▸ hgiven)
    · exact .inr ⟨day, hday, .inr ⟨j, _, he, List.getElem?_eq_getElem hj, hgiven⟩⟩
  · rintro (hstable | ⟨day', hday', hrepeats⟩)
    · have hmem := List.mem_of_getElem? hitem
      exact .inr ⟨item, hmem, (hknown r.first (.inl rfl) item hmem).mpr hstable⟩
    cases hday.symm.trans hday'
    rcases hrepeats with ⟨f, hf, hread, other, hother, hgiven⟩ | ⟨j, other, -, hother, hgiven⟩
    · exact .inl ⟨f, hf, hread, other, hother, (hknown f (.inr hf) other hother).mpr hgiven⟩
    · have hmem := List.mem_of_getElem? hother
      exact .inr ⟨other, hmem, (hknown r.first (.inl rfl) other hmem).mpr hgiven⟩

end Items

/-- **A document that is fetched again adds nothing exactly if every item that is kept comes
again**: it has a date or both fetches fall on one day, its title has the same white space and its
text reads the same; or it repeats an item of one day from elsewhere.  For all documents that differ
in white space only, all fetch times and all that was fetched before, where the eight digits of the
hash tell the items apart. -/
theorem adds_nothing_iff (lib : FeedLibrary) (rt : Runtime) (source : String) (earlier : List Fetch)
    (r : Refetch) (hfree : DigestsTell lib rt earlier r) :
    AddsNothing lib rt source earlier r ↔ ComesAgain lib earlier r := by
  by_cases hread : DatesRead lib r.first.day (feedItems r.first.root) ∧
      DatesRead lib r.second.day (feedItems r.second.root)
  swap
  · exact iff_of_true (addsNothing_of_unread hread) (fun h h' => absurd ⟨h, h'⟩ hread)
  obtain ⟨hfirst, hsecond⟩ := hread
  rw [addsNothing_iff_known r hfirst hsecond]
  constructor
  · intro hknown _ _ i item item' hitem hitem' hboth
    have hmem := List.mem_of_getElem? hitem'
    obtain ⟨day, hday, hvalid⟩ := hsecond item' hmem
    exact (known_iff_comes hfree hitem hitem' hboth hday (hvalid hboth)).mp
      (hknown item' hmem _ ⟨hboth, day, hday, hvalid hboth, rfl⟩)
  · rintro hcomes item' hmem id ⟨hboth, day, hday, hvalid, rfl⟩
    obtain ⟨i, item, hitem, hitem'⟩ := refetch_partner hmem
    exact (known_iff_comes hfree hitem hitem' hboth hday hvalid).mpr
      (hcomes hfirst hsecond i item item' hitem hitem' hboth)

/-- A feed with one item, and white space before an element in its text or none. -/
def spacedFeed (space : Option Text) : Element := .mk "rss" [] none none
  [.mk "item" [] none none [leaf "title" "Filing" none,
    leaf "pubDate" "Tue, 15 Sep 2026 14:00:00 GMT" none,
    .mk "description" [] space none [leaf "p" "Firms must file by 31 March." none]]]

/-- The white space before the element is gone when the feed is fetched again. -/
def spacedRefetch : Refetch where
  first := ⟨"2026-09-15", "2026-09-15T06:00:00Z", spacedFeed (some ['\n']), by decide⟩
  second := ⟨"2026-09-16", "2026-09-16T06:00:00Z", spacedFeed none, by decide⟩
  same := .cons ⟨rfl, List.forall_mem_cons.mpr ⟨rfl, List.forall_mem_cons.mpr ⟨rfl,
    List.forall_mem_singleton.mpr rfl⟩⟩⟩ .nil

theorem adds_nothing_iff_sample :
    AddsNothing sampleFeedLibrary Runtime.python "SEC" [] spacedRefetch ↔
    ComesAgain sampleFeedLibrary [] spacedRefetch := by
  refine adds_nothing_iff sampleFeedLibrary Runtime.python "SEC" [] spacedRefetch ?_
  -- nothing of the first document is kept
  rintro f (rfl | hf) item hitem
  · have hnone : ∀ item ∈ feedItems spacedRefetch.first.root, ¬ HasBoth sampleFeedLibrary item := by
      unfold HasBoth
      decide +kernel
    exact fun _ _ hboth => absurd hboth (hnone item hitem)
  · exact absurd hf List.not_mem_nil

/-! ## An item without a date -/

/-- A feed with one item that has no date. -/
def undatedFeed : Element := .mk "rss" [] none none
  [.mk "item" [] none none [leaf "title" "Filing" none,
    leaf "description" "Firms must file by 31 March." none]]

/-- The feed is fetched on one day and on the next. -/
def undatedRefetch : Refetch where
  first := ⟨"2026-09-15", "2026-09-15T06:00:00Z", undatedFeed, by decide⟩
  second := ⟨"2026-09-16", "2026-09-16T06:00:00Z", undatedFeed, by decide⟩
  same := List.forall₂_same.mpr (fun _ _ => ⟨rfl, fun _ _ => rfl⟩)

/-- **An item without a date is added again on the next day**, though its document has not
changed. -/
theorem undated_item_added_twice :
    ¬ AddsNothing sampleFeedLibrary Runtime.python "SEC" [] undatedRefetch := by
  have hnone : ∀ item ∈ feedItems undatedFeed, itemDate sampleFeedLibrary item = [] := by
    decide +kernel
  have hkept : ∃ item ∈ feedItems undatedFeed, HasBoth sampleFeedLibrary item := by
    unfold HasBoth
    decide +kernel
  have hday : ∀ item ∈ feedItems undatedFeed, ∀ today,
      isoDate sampleFeedLibrary today (itemDate sampleFeedLibrary item) = .ok today :=
    fun item hitem today => by rw [isoDate, if_pos (hnone item hitem)]
  have hread : ∀ today : String, isDateText today.toList = true →
      DatesRead sampleFeedLibrary today (feedItems undatedFeed) :=
    fun today hvalid item hitem => ⟨_, hday item hitem _, fun _ => hvalid⟩
  obtain ⟨item, hitem, hboth⟩ := hkept
  intro h
  have hknown := (addsNothing_iff_known undatedRefetch (hread _ (by decide))
    (hread _ (by decide))).mp h item hitem _
    ⟨hboth, "2026-09-16", hday item hitem _, by decide, rfl⟩
  obtain hstored | ⟨first, hfirst, -, day, hfirstDay, hvalid, hid⟩ := hknown
  · exact List.not_mem_nil hstored
  · cases (hday first hfirst _).symm.trans hfirstDay
    exact absurd ((releaseIdOf_inj (by decide) hvalid).mp hid).1 (by decide)

end ComplianceMcp
