import ComplianceMcp.FeedParse

/-! # Whole texts

Markup inside a title or a text is often escaped, but it may also stand in the document as
elements.  `_text_of` then takes the characters before the first child only, and what follows is
lost: from a title or a text that is kept, or so that an item looks empty and is skipped.
It may also make the preferred element of a text look empty, so that another is read in its place.
`item_read_whole_iff` says exactly when an item is read whole. -/
namespace ComplianceMcp

open PyText

/-! ## White space -/

theorem blank_collapse (t : Text) : blank (collapse t) = blank t := by
  unfold blank
  fun_induction collapse t with
  | case1 => rfl
  | case2 c hc d t' hd ih => simp only [ih, List.all_cons, hc, Bool.true_and]
  | case3 c hc d t' hd ih =>
    have hblank : isSpace ' ' = true := by decide
    simp only [ih, List.all_cons, hc, hblank]
  | case4 c hc =>
    have hblank : isSpace ' ' = true := by decide
    simp only [List.all_cons, List.all_nil, hc, hblank]
  | case5 c t hc ih => simp only [ih, List.all_cons]

theorem normalise_eq_nil {t : Text} : normalise t = [] ↔ blank t = true := by
  rw [normalise, strip_eq_nil, blank_collapse]

/-- A text without white space at its ends is empty if it is nothing but white space. -/
theorem normalise_plainText {lib : FeedLibrary} {raw : Text} :
    normalise (plainText lib raw) = [] ↔ plainText lib raw = [] := by
  rw [normalise_eq_nil]
  exact ⟨blank_strip, fun h => by rw [h]; rfl⟩

/-! ## What an item should give -/

section Whole

variable (lib : FeedLibrary)

/-- The plain text of all characters of an element. -/
def wholeText (node : Option Element) : Text := node.elim [] (fun e => plainText lib e.itertext)

/-- The element that holds the text of the item: the preferred one, unless it is blank as a
whole. -/
def chosenNode (item : Element) : Option Element :=
  if wholeText lib (contentNode item) ≠ [] then contentNode item else summaryNode item

/-- The element the text is taken from: the preferred one, unless what is taken of it is blank. -/
def readNode (item : Element) : Option Element :=
  if textOf lib (contentNode item) ≠ [] then contentNode item else summaryNode item

/-- **The item is read whole**: a release has the whole title and the whole text of the chosen
element, and an item is skipped only if its title or its text is blank. -/
def ReadWhole (item : Element) : Option CheckedRelease → Prop
  | some r => r.val.title.toList = normalise (wholeText lib (titleNode item)) ∧
      r.val.text.toList = normalise (wholeText lib (chosenNode lib item))
  | none => wholeText lib (titleNode item) = [] ∨
      wholeText lib (contentNode item) = [] ∧ wholeText lib (summaryNode item) = []

/-- What follows the first child of an element adds nothing to the plain text. -/
def NothingCut (node : Option Element) : Prop :=
  ∀ e, node = some e → ∀ t, e.text = some t →
  normalise (plainText lib t) = normalise (plainText lib e.itertext)

/-- The chosen element is the one that is read, and nothing is cut from it; or the other is read,
and what is taken of it repeats the chosen one. -/
inductive TextWhole (item : Element) : Prop
  | chosen (reads : readNode lib item = chosenNode lib item)
      (uncut : NothingCut lib (chosenNode lib item))
  | repeated (other : readNode lib item ≠ chosenNode lib item)
      (same : normalise (textOf lib (readNode lib item)) =
        normalise (wholeText lib (chosenNode lib item)))

/-- Of an item whose date can be read: if it seems to have a title and a text, both are whole,
and if it seems to have one of them empty, then one is. -/
structure CutNowhere (today : String) (item : Element) : Prop where
  kept : ∀ day, isoDate lib today (itemDate lib item) = .ok day → isDateText day.toList = true →
    textOf lib (titleNode item) ≠ [] → itemBody lib item ≠ [] →
    NothingCut lib (titleNode item) ∧ TextWhole lib item
  skipped : ∀ day, isoDate lib today (itemDate lib item) = .ok day →
    (textOf lib (titleNode item) = [] ∨ itemBody lib item = []) →
    wholeText lib (titleNode item) = [] ∨
      wholeText lib (contentNode item) = [] ∧ wholeText lib (summaryNode item) = []

end Whole

section Read

variable {lib : FeedLibrary} {node : Option Element} {item : Element}

/-- What is taken of an element is the whole exactly if nothing is cut. -/
theorem textOf_whole_iff : normalise (textOf lib node) = normalise (wholeText lib node) ↔
    NothingCut lib node := by
  cases node with
  | none => exact iff_of_true rfl (fun e he => absurd he (by simp))
  | some e =>
    have hwhole : wholeText lib (some e) = plainText lib e.itertext := rfl
    constructor
    · rintro h e' he t ht
      cases he
      rwa [textOf, ht, hwhole] at h
    · intro h
      cases ht : e.text with
      | none => rw [textOf, ht, hwhole]
      | some t => rw [textOf, ht, hwhole, h e rfl t ht]

theorem textOf_normalise_nil : normalise (textOf lib node) = [] ↔ textOf lib node = [] := by
  cases node with
  | none => exact iff_of_true rfl rfl
  | some e => exact normalise_plainText

theorem itemBody_read : itemBody lib item = textOf lib (readNode lib item) := by
  unfold itemBody orText readNode
  split <;> rfl

/-- What is taken as the text is the whole of the chosen element exactly if nothing is cut from
it, or the other element repeats it. -/
theorem itemBody_whole_iff :
    normalise (itemBody lib item) = normalise (wholeText lib (chosenNode lib item)) ↔
      TextWhole lib item := by
  rw [itemBody_read]
  constructor
  · intro h
    by_cases hreads : readNode lib item = chosenNode lib item
    · refine .chosen hreads (textOf_whole_iff.mp ?_)
      rwa [hreads] at h
    · exact .repeated hreads h
  · rintro (⟨hreads, huncut⟩ | ⟨-, hsame⟩)
    · rw [hreads]
      exact textOf_whole_iff.mpr huncut
    · exact hsame

theorem itemBody_normalise_nil : normalise (itemBody lib item) = [] ↔ itemBody lib item = [] := by
  rw [itemBody_read]
  exact textOf_normalise_nil

end Read

section Outcome

variable {lib : FeedLibrary} {rt : Runtime} {source today day : String} {item : Element}

/-- An item without a title or a text is skipped. -/
theorem parseItem_skips (hday : isoDate lib today (itemDate lib item) = .ok day)
    (h : textOf lib (titleNode item) = [] ∨ itemBody lib item = []) :
    parseItem lib rt source today item = .ok none := by
  unfold parseItem
  rw [hday]
  exact if_pos (h.imp_right itemBody_normalise_nil.mpr)

/-- An item with both is a release, if its day is one. -/
theorem parseItem_keeps (hday : isoDate lib today (itemDate lib item) = .ok day)
    (htitle : textOf lib (titleNode item) ≠ []) (hbody : itemBody lib item ≠ []) :
    (isDateText day.toList = true → ∃ r : CheckedRelease, parseItem lib rt source today item =
      .ok (some r) ∧
      r.val.releaseId = releaseIdOf source day
        (fingerprint rt (textOf lib (titleNode item)) (normalise (itemBody lib item))) ∧
      r.val.title.toList = normalise (textOf lib (titleNode item)) ∧
      r.val.text.toList = normalise (itemBody lib item)) ∧
    (isDateText day.toList = false →
      parseItem lib rt source today item = .error .validationError) := by
  have hboth : ¬ (textOf lib (titleNode item) = [] ∨ normalise (itemBody lib item) = []) :=
    fun h => h.elim htitle (fun h => hbody (itemBody_normalise_nil.mp h))
  unfold parseItem
  rw [hday]
  dsimp only
  rw [if_neg hboth]
  constructor
  · intro hd
    rw [dif_pos hd]
    exact ⟨_, rfl, rfl, String.toList_ofList, String.toList_ofList⟩
  · intro hd
    rw [dif_neg (by rw [hd]; exact Bool.false_ne_true)]

end Outcome

/-- **An item is read whole exactly if nothing is cut from it.**  For every item of an RSS or Atom
document, with any elements inside its title and its texts. -/
theorem item_read_whole_iff (lib : FeedLibrary) (rt : Runtime) (source today : String)
    (item : Element) :
    (∀ o, parseItem lib rt source today item = .ok o → ReadWhole lib item o) ↔
    CutNowhere lib today item := by
  constructor
  · intro h
    refine ⟨fun day hday hd htitle hbody => ?_, fun day hday hskip =>
      h none (parseItem_skips hday hskip)⟩
    obtain ⟨r, hr, -, hrtitle, hrtext⟩ := (parseItem_keeps hday htitle hbody).1 hd
    obtain ⟨hwtitle, hwtext⟩ := h _ hr
    rw [hrtitle] at hwtitle
    rw [hrtext] at hwtext
    exact ⟨textOf_whole_iff.mp hwtitle, itemBody_whole_iff.mp hwtext⟩
  · intro h o ho
    cases hday : isoDate lib today (itemDate lib item) with
    | error e =>
      rw [parseItem, hday] at ho
      cases ho
    | ok day =>
      by_cases hskip : textOf lib (titleNode item) = [] ∨ itemBody lib item = []
      · rw [parseItem_skips hday hskip] at ho
        cases ho
        exact h.skipped day hday hskip
      obtain ⟨htitle, hbody⟩ := not_or.mp hskip
      obtain ⟨hgood, hbad⟩ := @parseItem_keeps lib rt source today day item hday htitle hbody
      cases hd : isDateText day.toList with
      | false =>
        rw [hbad hd] at ho
        cases ho
      | true =>
        obtain ⟨r, hr, -, hrtitle, hrtext⟩ := hgood hd
        rw [hr] at ho
        cases ho
        obtain ⟨htwhole, hbwhole⟩ := h.kept day hday hd htitle hbody
        exact ⟨hrtitle.trans (textOf_whole_iff.mpr htwhole),
          hrtext.trans (itemBody_whole_iff.mpr hbwhole)⟩

/-! ## The feed -/

/-- The releases of a document are those of its items, in document order. -/
theorem parseFeed_ok {lib : FeedLibrary} {rt : Runtime} {source today : String} {root : Element}
    {releases : List CheckedRelease} (h : parseFeed lib rt source today root = .ok releases) :
    ∃ outcomes, List.Forall₂ (fun item o => parseItem lib rt source today item = .ok o)
      (feedItems root) outcomes ∧
      releases = outcomes.reduceOption := by
  rw [parseFeed] at h
  generalize feedItems root = items at h ⊢
  induction items generalizing releases with
  | nil =>
    cases h
    exact ⟨[], .nil, rfl⟩
  | cons item items ih =>
    rw [parseItems] at h
    cases ho : parseItem lib rt source today item with
    | error e =>
      rw [ho] at h
      cases h
    | ok o =>
      rw [ho] at h
      cases hr : parseItems lib rt source today items with
      | error e =>
        rw [hr] at h
        cases h
      | ok rest =>
        rw [hr] at h
        cases h
        obtain ⟨outcomes, hall, rfl⟩ := ih hr
        refine ⟨o :: outcomes, .cons ho hall, ?_⟩
        cases o with
        | none => rfl
        | some r => rfl

/-! ## A text with an element in it -/

/-- A library that knows no entities, and one date. -/
def sampleFeedLibrary : FeedLibrary where
  unescape := id
  day := fun _ => .ok "2026-09-15"

/-- An element with some characters only. -/
def leaf (tag text : String) (tail : Option Text) : Element := .mk tag [] (some text.toList) tail []

/-- `<description>Firms must <b>file</b> by 31 March.</description>`, without escapes. -/
def boldItem : Element := .mk "item" [] none none
  [leaf "title" "Filing" none, leaf "pubDate" "Tue, 15 Sep 2026 14:00:00 GMT" none,
    .mk "description" [] (some "Firms must ".toList)
      none [leaf "b" "file" (some " by 31 March.".toList)]]

/-- **The text ends at the first element**: of the obligation "Firms must" is left. -/
theorem text_cut_at_element :
    ¬ ∀ o, parseItem sampleFeedLibrary Runtime.python "FINRA" "2026-09-16" boldItem = .ok o →
    ReadWhole sampleFeedLibrary boldItem o := by
  intro h
  have hday : isoDate sampleFeedLibrary "2026-09-16" (itemDate sampleFeedLibrary boldItem) =
      .ok "2026-09-15" := by
    have hdate : itemDate sampleFeedLibrary boldItem ≠ [] := by decide +kernel
    rw [isoDate, if_neg hdate]
    rfl
  have htitle : textOf sampleFeedLibrary (titleNode boldItem) ≠ [] := by decide +kernel
  have hbody : itemBody sampleFeedLibrary boldItem ≠ [] := by decide +kernel
  obtain ⟨r, hr, -, -, hrtext⟩ :=
    (@parseItem_keeps _ Runtime.python "FINRA" _ _ _ hday htitle hbody).1 (by decide)
  have hwhole := (h _ hr).2
  rw [hrtext] at hwhole
  revert hwhole
  decide +kernel

end ComplianceMcp
