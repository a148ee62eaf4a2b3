import ComplianceMcp.ExtractionScore
import ComplianceMcp.DraftQuotes
import ComplianceMcp.FeedCache
import ComplianceMcp.JsonRoundTrip
import Mathlib.Algebra.Order.Field.Basic
import Mathlib.Algebra.Order.BigOperators.Group.List
import Mathlib.Tactic.Linarith

/-! # The gate of the extraction

The validation run scores what a model extracts from every release of the gold set and lets it go
live if the mean scores reach the thresholds.  What the model says around its JSON does not matter,
and a model that gives the gold set back scores as the dry run does, which is the self-test of the
scorer: its recall is 1, and its other scores are perfect exactly if the gold set itself is sound.
The gate is no proof of extraction, though: a model that quotes whole releases and dates nothing is
held back by the dates only. The scores are rational numbers here. -/
namespace ComplianceMcp.Extraction

open PyText PyJson FirstMatch

/-! ## The reply of the model -/

def PROMPT : String :=
  "You extract obligations from a regulatory release for a compliance team.\n" ++
  "An obligation is a sentence or clause that requires, prohibits, or sets a deadline " ++
  "for the firm.\nReturn JSON only: \x7b\"obligations\": [\x7b\"type\": " ++
  "\"requirement|prohibition|deadline|record-keeping|disclosure\", " ++
  "\"quote\": \"<verbatim text from the release>\", " ++
  "\"date\": \"YYYY-MM-DD or null\"\x7d]\x7d\n" ++
  "Quotes must be copied exactly from the release. Do not invent dates.\n\nRELEASE:\n"

/-- `t.find(c)`. -/
def find (t : Text) (c : Char) : Int := if c ∈ t then t.idxOf c else -1

/-- `t.rfind(c)`. -/
def rfind (t : Text) (c : Char) : Int :=
  if c ∈ t then (t.length : Int) - 1 - t.reverse.idxOf c else -1

/-- Where a bound of a slice lies; a negative one counts from the end. -/
def bound (t : Text) (i : Int) : Nat := if 0 ≤ i then i.toNat else (t.length + i).toNat

/-- `t[a:b]`. -/
def slice (t : Text) (a b : Int) : Text := (t.take (bound t b)).drop (bound t a)

/-- From the first opening to the last closing brace. -/
def jsonPart (content : Text) : Text :=
  slice content (find content '\x7b') (rfind content '\x7d' + 1)

/-- `call_model`; the endpoint answers a prompt with the content of its message, or the request
raises. -/
def callModel (ask : String → Except PyError String) (releaseText : String) : Except PyError Json :=
  match ask (PROMPT ++ releaseText) with
  | .error e => .error e
  | .ok content =>
    match loads (jsonPart content.toList) with
    | some output => .ok output
    | none => .error .jsonDecodeError

/-- An item that has `get`. -/
def itemOf : Json → Except PyError Dict
  | .obj o => .ok o
  | _ => .error .attributeError

/-- `output.get("obligations", [])`; an empty text or object has no items. -/
def outputsOf : Json → Except PyError (List Dict)
  | .obj output =>
    match Json.get output "obligations" with
    | none => .ok []
    | some (.arr items) => items.mapM itemOf
    | some (.str s) => if s = "" then .ok [] else .error .attributeError
    | some (.obj fields) => if fields = [] then .ok [] else .error .attributeError
    | some _ => .error .typeError
  | _ => .error .attributeError

/-! ## The run -/

/-- An obligation as a gold file has it. -/
structure IsGold (o : Dict) : Prop where
  quote : ∃ q, Json.get o "quote" = some (.str q)
  date : Json.get o "date" = some .null ∨ ∃ d, Json.get o "date" = some (.str d)

/-- What the scorer reads of it. -/
def goldItem (o : Dict) : GoldItem := ⟨(text (quoteOf o)).getD "", (Json.get o "date").bind text⟩

structure GoldFile where
  releaseId : String
  obligations : List Dict
  gold : ∀ o ∈ obligations, IsGold o
  nonempty : obligations ≠ []

def GoldFile.set (f : GoldFile) : GoldSet :=
  ⟨f.releaseId, f.obligations.map goldItem, fun h => f.nonempty (List.map_eq_nil_iff.mp h)⟩

/-- `load_feed`: of releases with one id the last is kept. -/
def loadFeed (caches : List (List Release)) : String → Option Release :=
  caches.flatten.foldl (fun out r => Function.update out r.releaseId (some r)) (fun _ => none)

/-- The three means. -/
structure Aggregate where
  recall_ : ℚ
  hallucination : ℚ
  dateAccuracy : ℚ

/-- The thresholds of recall and date accuracy are lower bounds, that of hallucination an upper
one. -/
def THRESHOLDS : Aggregate := ⟨85 / 100, 5 / 100, 90 / 100⟩

def mean (k : Scores → ℚ) (rows : List Scores) : ℚ := (rows.map k).sum / rows.length

def aggregate (rows : List Scores) : Aggregate :=
  ⟨mean Scores.recall_ rows, mean Scores.hallucination rows, mean Scores.dateAccuracy rows⟩

def Aggregate.passed (a : Aggregate) : Bool :=
  decide (THRESHOLDS.recall_ ≤ a.recall_) && decide (a.hallucination ≤ THRESHOLDS.hallucination) &&
    decide (THRESHOLDS.dateAccuracy ≤ a.dateAccuracy)

structure Report where
  aggregate : Aggregate
  rows : List Scores
  passed : Bool

section Run

variable (rt : Runtime) (ask : String → Except PyError String)

/-- One gold file: the gold set itself in a dry run, else what the model makes of the release. -/
def scoreFile (dryRun : Bool) (feed : String → Option Release) (f : GoldFile) :
    Except PyError Scores :=
  match feed f.releaseId with
  | none => .error .keyError
  | some rel =>
    if dryRun then score rt rel.text f.set f.obligations
    else match callModel ask rel.text with
      | .error e => .error e
      | .ok output =>
        match outputsOf output with
        | .error e => .error e
        | .ok outputs => score rt rel.text f.set outputs

/-- `main`, up to the report; without gold files the means divide by zero. -/
def gate (dryRun : Bool) (caches : List (List Release)) (golds : List GoldFile) :
    Except PyError Report :=
  match golds.mapM (scoreFile rt ask dryRun (loadFeed caches)) with
  | .error e => .error e
  | .ok [] => .error .other
  | .ok rows => .ok ⟨aggregate rows, rows, (aggregate rows).passed⟩

end Run

/-! ## Reading the reply -/

section Reply

variable {before t after : Text}

/-- **The object is cut out** of what is said around it. -/
theorem jsonPart_around (hb : '\x7b' ∉ before) (ha : '\x7d' ∉ after) (ho : ∃ m, t = '\x7b' :: m)
    (hc : ∃ m, t = m ++ ['\x7d']) : jsonPart (before ++ t ++ after) = t := by
  obtain ⟨m, hm⟩ := ho
  obtain ⟨m', hm'⟩ := hc
  have hfind : find (before ++ t ++ after) '\x7b' = before.length := by
    have hmem : '\x7b' ∈ before ++ t ++ after := by
      rw [hm]
      exact List.mem_append_left _ (List.mem_append_right _ List.mem_cons_self)
    rw [find, if_pos hmem, List.append_assoc, List.idxOf_append_of_notMem hb, hm, List.cons_append,
      List.idxOf_cons_self, Nat.add_zero]
  have hrfind : rfind (before ++ t ++ after) '\x7d' + 1 = ((before ++ t).length : Int) := by
    have hmem : '\x7d' ∈ before ++ t ++ after := by
      rw [hm']
      exact List.mem_append_left _
        (List.mem_append_right _ (List.mem_append_right _ (List.mem_singleton_self _)))
    have hrev : (before ++ t ++ after).reverse.idxOf '\x7d' = after.length := by
      rw [List.reverse_append, List.idxOf_append_of_notMem (fun h => ha (List.mem_reverse.mp h)),
        List.length_reverse, hm', List.reverse_append, List.reverse_append, List.reverse_singleton,
        List.singleton_append, List.cons_append, List.idxOf_cons_self, Nat.add_zero]
    rw [rfind, if_pos hmem, hrev, @List.length_append _ (before ++ t) after]
    omega
  rw [jsonPart, hfind, hrfind, slice, bound, bound, if_pos (Int.natCast_nonneg _),
    if_pos (Int.natCast_nonneg _), Int.toNat_natCast, Int.toNat_natCast, List.take_left,
    List.drop_left]

end Reply

/-- The endpoint answers for this release with some prose, a JSON object with these obligations, and
some more prose, without braces in the prose. -/
def Lists (ask : String → Except PyError String) (releaseText : String) (outputs : List Dict) :
    Prop :=
  ∃ content before t after output, ask (PROMPT ++ releaseText) = .ok content ∧
    content.toList = before ++ t ++ after ∧ '\x7b' ∉ before ∧ '\x7d' ∉ after ∧
    (∃ m, t = '\x7b' :: m) ∧
    (∃ m, t = m ++ ['\x7d']) ∧ loads t = some (.obj output) ∧
    Json.get output "obligations" = some (.arr (outputs.map .obj))

section Reading

variable {rt : Runtime} {ask : String → Except PyError String} {feed : String → Option Release}
  {f : GoldFile} {rel : Release} {outputs : List Dict}

theorem mapM_itemOf (os : List Dict) : (os.map Json.obj).mapM itemOf = .ok os := by
  induction os with
  | nil => rfl
  | cons o os ih =>
    rw [List.map_cons, List.mapM_cons, ih]
    rfl

theorem callModel_of_lists {releaseText : String} (h : Lists ask releaseText outputs) :
    ∃ output, callModel ask releaseText = .ok output ∧ outputsOf output = .ok outputs := by
  obtain ⟨content, before, t, after, output, hask, hcontent, hb, ha, ho, hc, hloads, hget⟩ := h
  refine ⟨.obj output, ?_, ?_⟩
  · rw [callModel, hask]
    simp only [hcontent, jsonPart_around hb ha ho hc, hloads]
  · rw [outputsOf, hget]
    exact mapM_itemOf outputs

/-- What is said around the JSON does not matter. -/
theorem scoreFile_of_lists (hfeed : feed f.releaseId = some rel) (h : Lists ask rel.text outputs) :
    scoreFile rt ask false feed f = score rt rel.text f.set outputs := by
  obtain ⟨output, hcall, houtputs⟩ := callModel_of_lists h
  simp only [scoreFile, hfeed, Bool.false_eq_true, if_false, hcall, houtputs]

theorem scoreFile_dryRun (hfeed : feed f.releaseId = some rel) :
    scoreFile rt ask true feed f = score rt rel.text f.set f.obligations := by
  simp only [scoreFile, hfeed, if_true]

end Reading

/-! ## The gold set against itself -/

/-- Every quote that is not empty is in the release. -/
def QuotesIn (rt : Runtime) (releaseText : String) (f : GoldFile) : Prop :=
  ∀ o ∈ f.obligations, ∀ q, Json.get o "quote" = some (.str q) → q ≠ "" →
    contains (rt.lower releaseText).toList (rt.lower q).toList = true

/-- A dated obligation has the date of the first one whose quote fits its own. -/
def DatesClear (rt : Runtime) (f : GoldFile) : Prop :=
  ∀ o ∈ f.obligations, (goldItem o).isDated = true →
  ∀ o', f.obligations.find? (fits rt (goldItem o)) = some o' →
    sameDate (goldItem o) o' = true

section Gold

variable {rt : Runtime} {f : GoldFile} {o : Dict} {releaseText : String}

theorem IsGold.text_quote (h : IsGold o) : text (quoteOf o) = some (goldItem o).quote := by
  obtain ⟨q, hq⟩ := h.quote
  have htext : text (quoteOf o) = some q := by
    rw [quoteOf, hq]
    rfl
  rw [goldItem, htext]
  rfl

theorem GoldFile.allText (f : GoldFile) : AllText f.obligations :=
  fun o ho => Option.isSome_iff_exists.mpr ⟨_, (f.gold o ho).text_quote⟩

/-- An obligation fits itself. -/
theorem IsGold.fits_self (h : IsGold o) : fits rt (goldItem o) o = true := by
  rw [fits, h.text_quote, Option.any_some, quotesFit, contains_self, Bool.true_or]

theorem IsGold.ne_nil (h : IsGold o) : o ≠ [] := by
  rintro rfl
  obtain ⟨q, hq⟩ := h.quote
  cases hq

/-- Something fits every obligation. -/
theorem GoldFile.find_fits (f : GoldFile) (ho : o ∈ f.obligations) :
    ∃ o' ∈ f.obligations, f.obligations.find? (fits rt (goldItem o)) = some o' := by
  have hsome : (f.obligations.find? (fits rt (goldItem o))).isSome = true :=
    List.find?_isSome.mpr ⟨o, ho, (f.gold o ho).fits_self⟩
  obtain ⟨o', ho'⟩ := Option.isSome_iff_exists.mp hsome
  exact ⟨o', List.mem_of_find?_eq_some ho', ho'⟩

/-- Every item is found. -/
theorem hits_counts_gold {gold : List GoldItem} (h : gold ⊆ f.set.obligations) :
    hits (fits rt) counts gold f.obligations = gold.length := by
  refine List.countP_eq_length.mpr (fun g hg => ?_)
  obtain ⟨o, ho, rfl⟩ := List.mem_map.mp (h hg)
  obtain ⟨o', ho', hfind⟩ := @GoldFile.find_fits rt o f ho
  rw [hfind, Option.any_some, counts, Bool.not_eq_true', List.isEmpty_eq_false_iff]
  exact (f.gold o' ho').ne_nil

/-- Every date is right exactly if the dates are clear. -/
theorem hits_sameDate_gold : hits (fits rt) sameDate (dated f.set.obligations) f.obligations =
    (dated f.set.obligations).length ↔ DatesClear rt f := by
  refine List.countP_eq_length.trans ⟨fun h o ho hd o' ho' => ?_, fun h g hg => ?_⟩
  · have hg := h (goldItem o) (List.mem_filter.mpr ⟨List.mem_map_of_mem ho, hd⟩)
    rwa [ho', Option.any_some] at hg
  · obtain ⟨hmem, hd⟩ := List.mem_filter.mp hg
    obtain ⟨o, ho, rfl⟩ := List.mem_map.mp hmem
    obtain ⟨o', -, hfind⟩ := @GoldFile.find_fits rt o f ho
    rw [hfind, Option.any_some]
    exact h o ho hd o' hfind

/-- Nothing is invented exactly if the quotes are in the release. -/
theorem countP_invented_gold :
    f.obligations.countP (invented rt releaseText) = 0 ↔ QuotesIn rt releaseText f := by
  refine List.countP_eq_zero.trans ⟨fun h o ho q hq hne => ?_, fun h o ho => ?_⟩
  · have hn := h o ho
    have htext : text (quoteOf o) = some q := by
      rw [quoteOf, hq]
      rfl
    rw [invented, htext, Option.any_some, decide_eq_true hne, Bool.true_and,
      Bool.not_eq_true'] at hn
    exact Bool.of_not_eq_false hn
  · obtain ⟨q, hq⟩ := (f.gold o ho).quote
    have htext : text (quoteOf o) = some q := by
      rw [quoteOf, hq]
      rfl
    rw [invented, htext, Option.any_some, Bool.and_eq_true, decide_eq_true_eq, Bool.not_eq_true']
    rintro ⟨hne, hout⟩
    exact absurd (h o ho q hq hne) (by rw [hout]; exact Bool.false_ne_true)

/-- What the dry run gives a gold file. -/
def GoldFile.scores (rt : Runtime) (releaseText : String) (f : GoldFile) : Scores where
  releaseId := f.releaseId
  recall_ := 1
  hallucination := f.obligations.countP (invented rt releaseText) / max 1 f.obligations.length
  dateAccuracy := if (dated f.set.obligations).length = 0 then 1
    else hits (fits rt) sameDate (dated f.set.obligations) f.obligations /
      (dated f.set.obligations).length
  nGold := f.obligations.length
  nOutput := f.obligations.length

theorem score_self : score rt releaseText f.set f.obligations = .ok (f.scores rt releaseText) := by
  have hlen : f.set.obligations.length = f.obligations.length := List.length_map _
  have hdated : dated f.set.obligations ⊆ f.set.obligations := List.filter_subset_self _
  have hpos : (f.obligations.length : ℚ) ≠ 0 :=
    Nat.cast_ne_zero.mpr (List.length_pos_of_ne_nil f.nonempty).ne'
  rw [score, tally_text f.allText, hallucinated_ok (fun o ho _ => f.allText o ho),
    hits_counts_gold (List.Subset.refl _), hits_counts_gold hdated, hlen]
  simp only [Nat.zero_add, GoldFile.scores, div_self hpos]
  rfl

theorem hallucination_nonneg : 0 ≤ (f.scores rt releaseText).hallucination :=
  div_nonneg (Nat.cast_nonneg _) (Nat.cast_nonneg _)

theorem hallucination_eq_zero_iff :
    (f.scores rt releaseText).hallucination = 0 ↔ QuotesIn rt releaseText f := by
  have hmax : ((max 1 f.obligations.length : Nat) : ℚ) ≠ 0 := Nat.cast_ne_zero.mpr (by omega)
  rw [← countP_invented_gold, GoldFile.scores]
  simp only [div_eq_zero_iff, Nat.cast_eq_zero]
  exact or_iff_left (by exact_mod_cast hmax)

theorem dateAccuracy_le_one : (f.scores rt releaseText).dateAccuracy ≤ 1 := by
  unfold GoldFile.scores
  dsimp only
  split
  case isTrue => exact le_refl 1
  case isFalse h =>
    rw [div_le_one (Nat.cast_pos.mpr (Nat.pos_of_ne_zero h)), Nat.cast_le]
    exact List.countP_le_length

theorem dateAccuracy_eq_one_iff : (f.scores rt releaseText).dateAccuracy = 1 ↔ DatesClear rt f := by
  rw [← hits_sameDate_gold]
  unfold GoldFile.scores
  dsimp only
  split
  case isTrue h =>
    have hle : hits (fits rt) sameDate (dated f.set.obligations) f.obligations ≤
        (dated f.set.obligations).length :=
      List.countP_le_length
    exact iff_of_true rfl (by omega)
  case isFalse h => rw [div_eq_one_iff_eq (Nat.cast_ne_zero.mpr h), Nat.cast_inj]

end Gold

/-! ## Means -/

section Means

variable {k : Scores → ℚ} {rows : List Scores}

theorem sum_eq_zero_iff (h : ∀ r ∈ rows, 0 ≤ k r) : (rows.map k).sum = 0 ↔ ∀ r ∈ rows, k r = 0 := by
  induction rows with
  | nil => exact iff_of_true rfl (fun r hr => (nomatch hr))
  | cons r rows ih =>
    have hr := h r List.mem_cons_self
    have htail : ∀ x ∈ rows, 0 ≤ k x := fun x hx => h x (List.mem_cons_of_mem r hx)
    have hsum : 0 ≤ (rows.map k).sum := List.sum_nonneg (fun y hy => by
      obtain ⟨x, hx, rfl⟩ := List.mem_map.mp hy
      exact htail x hx)
    rw [List.map_cons, List.sum_cons, add_eq_zero_iff_of_nonneg hr hsum, ih htail,
      List.forall_mem_cons]

theorem sum_one_sub : (rows.map (fun r => 1 - k r)).sum = rows.length - (rows.map k).sum := by
  induction rows with
  | nil => norm_num
  | cons r rows ih =>
    rw [List.map_cons, List.sum_cons, ih, List.map_cons, List.sum_cons, List.length_cons,
      Nat.cast_succ]
    ring

/-- A mean of scores that are at least 0. -/
theorem mean_eq_zero_iff (hne : rows ≠ []) (h : ∀ r ∈ rows, 0 ≤ k r) :
    mean k rows = 0 ↔ ∀ r ∈ rows, k r = 0 := by
  have hlen : (rows.length : ℚ) ≠ 0 := Nat.cast_ne_zero.mpr (List.length_pos_of_ne_nil hne).ne'
  rw [mean, div_eq_zero_iff, or_iff_left hlen, sum_eq_zero_iff h]

/-- A mean of scores that are at most 1. -/
theorem mean_eq_one_iff (hne : rows ≠ []) (h : ∀ r ∈ rows, k r ≤ 1) :
    mean k rows = 1 ↔ ∀ r ∈ rows, k r = 1 := by
  have hlen : (rows.length : ℚ) ≠ 0 := Nat.cast_ne_zero.mpr (List.length_pos_of_ne_nil hne).ne'
  have hsum := @sum_eq_zero_iff (fun r => 1 - k r) rows (fun r hr => sub_nonneg.mpr (h r hr))
  rw [sum_one_sub, sub_eq_zero] at hsum
  rw [mean, div_eq_one_iff_eq hlen, eq_comm, hsum]
  exact forall₂_congr (fun r _ => sub_eq_zero.trans eq_comm)

end Means

/-! ## The self-test -/

section Gate

variable {rt : Runtime} {ask : String → Except PyError String} {caches : List (List Release)}
  {golds : List GoldFile}

/-- The text of the release that a gold file is about. -/
def releaseTextOf (caches : List (List Release)) (f : GoldFile) : String :=
  ((loadFeed caches f.releaseId).map Release.text).getD ""

/-- The feed has the release of every gold file. -/
def AllReleased (caches : List (List Release)) (golds : List GoldFile) : Prop :=
  ∀ f ∈ golds, (loadFeed caches f.releaseId).isSome = true

theorem AllReleased.release (h : AllReleased caches golds) {f : GoldFile} (hf : f ∈ golds) :
    ∃ rel, loadFeed caches f.releaseId = some rel ∧ rel.text = releaseTextOf caches f := by
  obtain ⟨rel, hrel⟩ := Option.isSome_iff_exists.mp (h f hf)
  refine ⟨rel, hrel, ?_⟩
  rw [releaseTextOf, hrel]
  rfl

/-- The report on rows of scores. -/
def reportOf (rows : List Scores) : Report := ⟨aggregate rows, rows, (aggregate rows).passed⟩

/-- Files that are scored one by one are reported on. -/
theorem gate_ok {dryRun : Bool} {g : GoldFile → Scores} (hne : golds ≠ [])
    (h : ∀ f ∈ golds, scoreFile rt ask dryRun (loadFeed caches) f = .ok (g f)) :
    gate rt ask dryRun caches golds = .ok (reportOf (golds.map g)) := by
  rw [gate, mapM_eq_ok h]
  cases golds with
  | nil => exact absurd rfl hne
  | cons f golds => rfl

/-- What the self-test says of the gold files, and what a model that repeats them gets. -/
structure SelfTest (rt : Runtime) (ask : String → Except PyError String)
    (caches : List (List Release)) (golds : List GoldFile) (report : Report) : Prop where
  dry : gate rt ask true caches golds = .ok report
  recall_ : report.aggregate.recall_ = 1
  quotes : report.aggregate.hallucination = 0 ↔ ∀ f ∈ golds, QuotesIn rt (releaseTextOf caches f) f
  dates : report.aggregate.dateAccuracy = 1 ↔ ∀ f ∈ golds, DatesClear rt f
  sound : (∀ f ∈ golds, QuotesIn rt (releaseTextOf caches f) f) → (∀ f ∈ golds, DatesClear rt f) →
    report.passed = true
  repeated : (∀ f ∈ golds, Lists ask (releaseTextOf caches f) f.obligations) →
    gate rt ask false caches golds = .ok report

end Gate

/-- **The self-test of the gate.**  With a release for every gold file, the dry run ends and finds
every obligation; it finds nothing invented exactly if the quotes of the gold set are in the
releases, and all dates right exactly if no dated obligation fits one with another date before its
own; a sound gold set passes.  A model that lists the obligations of the gold set gets the same
report, whatever it says around its JSON and however it prints it. -/
theorem gate_self_test (rt : Runtime) (ask : String → Except PyError String)
    (caches : List (List Release)) (golds : List GoldFile) (hne : golds ≠ [])
    (hfeed : AllReleased caches golds) :
    ∃ report, SelfTest rt ask caches golds report := by
  obtain ⟨rows, hrows⟩ : ∃ rows, golds.map (fun f => f.scores rt (releaseTextOf caches f)) = rows :=
    ⟨_, rfl⟩
  have hrow : ∀ P : Scores → Prop, (∀ r ∈ rows, P r) ↔
      ∀ f ∈ golds, P (f.scores rt (releaseTextOf caches f)) := by
    intro P
    rw [← hrows]
    exact List.forall_mem_map
  have hne' : rows ≠ [] := fun h => hne (List.map_eq_nil_iff.mp (hrows.trans h))
  have hrecall : mean Scores.recall_ rows = 1 :=
    (mean_eq_one_iff hne' ((hrow _).mpr (fun f _ => le_refl 1))).mpr ((hrow _).mpr (fun f _ => rfl))
  have hquotes : mean Scores.hallucination rows = 0 ↔
      ∀ f ∈ golds, QuotesIn rt (releaseTextOf caches f) f :=
    (mean_eq_zero_iff hne' ((hrow _).mpr (fun f _ => hallucination_nonneg))).trans
      ((hrow _).trans (forall₂_congr (fun f _ => hallucination_eq_zero_iff)))
  have hdates : mean Scores.dateAccuracy rows = 1 ↔ ∀ f ∈ golds, DatesClear rt f :=
    (mean_eq_one_iff hne' ((hrow _).mpr (fun f _ => dateAccuracy_le_one))).trans
      ((hrow _).trans (forall₂_congr (fun f _ => dateAccuracy_eq_one_iff)))
  refine ⟨reportOf rows, ?_, hrecall, hquotes, hdates, fun hq hd => ?_, fun hlists => ?_⟩
  · rw [← hrows]
    refine gate_ok hne (fun f hf => ?_)
    obtain ⟨rel, hrel, htext⟩ := hfeed.release hf
    rw [scoreFile_dryRun hrel, htext, score_self]
  · show (decide (THRESHOLDS.recall_ ≤ mean Scores.recall_ rows) &&
      decide (mean Scores.hallucination rows ≤ THRESHOLDS.hallucination) &&
      decide (THRESHOLDS.dateAccuracy ≤ mean Scores.dateAccuracy rows)) = true
    rw [hrecall, hquotes.mpr hq, hdates.mpr hd]
    decide +kernel
  · rw [← hrows]
    refine gate_ok hne (fun f hf => ?_)
    obtain ⟨rel, hrel, htext⟩ := hfeed.release hf
    rw [scoreFile_of_lists hrel (by rw [htext]; exact hlists f hf), htext, score_self]

/-! A feed with one release, and a gold file for it. -/

def giftNotice : Release where
  releaseId := "FINRA-RN-26-19"
  source := "FINRA"
  published := "2026-09-01"
  title := "Gifts"
  url := ""
  text := "Firms may raise the annual gift limit."

def giftGold : GoldFile where
  releaseId := "FINRA-RN-26-19"
  obligations := [listed "raise the annual gift limit" "2027-01-01"]
  gold := by
    intro o ho
    rw [List.mem_singleton.mp ho]
    exact ⟨⟨_, rfl⟩, Or.inr ⟨_, rfl⟩⟩
  nonempty := List.cons_ne_nil _ _

theorem giftGold_released : AllReleased [[giftNotice]] [giftGold] := by
  intro f hf
  rw [List.mem_singleton.mp hf]
  rfl

/-- What an echo answers. -/
def giftEcho : Text :=
  "\x7b\"obligations\": [\x7b\"quote\": \"Firms may raise the annual gift limit.\"\x7d]\x7d".toList

/-- An endpoint with some prose before the JSON. -/
def echoEndpoint (_ : String) : Except PyError String :=
  .ok (String.ofList ("Here it is: ".toList ++ giftEcho))

theorem gate_self_test_sample :
    ∃ report, SelfTest Runtime.python echoEndpoint [[giftNotice]] [giftGold] report :=
  gate_self_test Runtime.python echoEndpoint [[giftNotice]] [giftGold] (List.cons_ne_nil _ _)
    giftGold_released

/-! ## A model that echoes -/

/-- The whole release as one obligation without a date. -/
structure IsEcho (releaseText : String) (o : Dict) : Prop where
  quote : Json.get o "quote" = some (.str releaseText)
  undated : (Json.get o "date").getD .null = .null

/-- Some obligation of the file has a date. -/
def hasDates (f : GoldFile) : Bool := !(dated f.set.obligations).isEmpty

section Echo

variable {rt : Runtime} {f : GoldFile} {o : Dict} {releaseText : String}

theorem IsEcho.text_quote (h : IsEcho releaseText o) : text (quoteOf o) = some releaseText := by
  rw [quoteOf, h.quote]
  rfl

/-- Every gold quote is in an echo. -/
theorem IsEcho.fits (hlower : rt.lower "" = "") (h : IsEcho releaseText o)
    (hq : QuotesIn rt releaseText f) {g : GoldItem} (hg : g ∈ f.set.obligations) :
    fits rt g o = true := by
  obtain ⟨d, hd, rfl⟩ := List.mem_map.mp hg
  have hcontains : contains (rt.lower releaseText).toList
      (rt.lower (goldItem d).quote).toList = true := by
    by_cases hne : (goldItem d).quote = ""
    · rw [hne, hlower]
      exact contains_iff.mpr List.nil_infix
    · obtain ⟨q, hget⟩ := (f.gold d hd).quote
      have heq : (goldItem d).quote = q := by
        rw [goldItem, quoteOf, hget]
        rfl
      rw [heq] at hne ⊢
      exact hq d hd q hget hne
  rw [Extraction.fits, h.text_quote, Option.any_some, quotesFit, hcontains, Bool.true_or]

/-- No date is that of an echo. -/
theorem IsEcho.not_sameDate (h : IsEcho releaseText o) {g : GoldItem} (hg : g.isDated = true) :
    sameDate g o = false := by
  obtain ⟨d, hd, -⟩ := (Option.any_eq_true _ _).mp hg
  rw [sameDate, h.undated, hd]
  exact decide_eq_false Json.noConfusion

/-- **An echo finds everything and invents nothing**; its dates are wrong if there are any. -/
theorem score_echo (hlower : rt.lower "" = "") (h : IsEcho releaseText o)
    (hq : QuotesIn rt releaseText f) :
    score rt releaseText f.set [o] =
      .ok ⟨f.releaseId, 1, 0, if hasDates f then 0 else 1, f.obligations.length, 1⟩ := by
  have hall : AllText [o] := fun o' ho' => by
    rw [List.mem_singleton.mp ho', h.text_quote]
    rfl
  have hne : o ≠ [] := by
    rintro rfl
    cases h.quote
  have hfound : ∀ gold : List GoldItem, gold ⊆ f.set.obligations →
      hits (Extraction.fits rt) counts gold [o] = gold.length := by
    intro gold hgold
    refine List.countP_eq_length.mpr (fun g hg => ?_)
    rw [List.find?_cons_of_pos (h.fits hlower hq (hgold hg)), Option.any_some, counts,
      Bool.not_eq_true', List.isEmpty_eq_false_iff]
    exact hne
  have hdates : hits (Extraction.fits rt) sameDate (dated f.set.obligations) [o] = 0 := by
    refine List.countP_eq_zero.mpr (fun g hg => ?_)
    obtain ⟨hg, hd⟩ := List.mem_filter.mp hg
    rw [List.find?_cons_of_pos (h.fits hlower hq hg), Option.any_some, h.not_sameDate hd]
    exact Bool.false_ne_true
  have hinvented : [o].countP (invented rt releaseText) = 0 := by
    refine List.countP_eq_zero.mpr (fun o' ho' => ?_)
    rw [List.mem_singleton.mp ho', invented, h.text_quote, Option.any_some, contains_self,
      Bool.not_true, Bool.and_false]
    exact Bool.false_ne_true
  have hlen : f.set.obligations.length = f.obligations.length := List.length_map _
  have hdated : dated f.set.obligations ⊆ f.set.obligations := List.filter_subset_self _
  have hpos : (f.obligations.length : ℚ) ≠ 0 :=
    Nat.cast_ne_zero.mpr (List.length_pos_of_ne_nil f.nonempty).ne'
  have hite : (if (dated f.set.obligations).length = 0 then (1 : ℚ) else 0) = if hasDates f then
      0 else 1 := by
    unfold hasDates
    cases dated f.set.obligations with
    | nil => rfl
    | cons g gs => rfl
  rw [score, tally_text hall, hallucinated_ok (fun o' ho' _ => hall o' ho'),
    hfound _ (List.Subset.refl _), hfound _ hdated, hdates, hinvented, hlen]
  simp only [Nat.zero_add, div_self hpos, Nat.cast_zero, zero_div, hite]
  rfl

end Echo

/-- The mean of 0 for some and 1 for the others. -/
theorem mean_indicator (p : GoldFile → Bool) (g : GoldFile → Scores) (k : Scores → ℚ)
    (h : ∀ f, k (g f) = if p f then 0 else 1) (golds : List GoldFile) (hne : golds ≠ []) :
    9 / 10 ≤ mean k (golds.map g) ↔ 10 * golds.countP p ≤ golds.length := by
  have hsum : ∀ fs : List GoldFile, (((fs.map g).map k).sum : ℚ) = (fs.length : ℚ) -
      fs.countP p := by
    intro fs
    induction fs with
    | nil => norm_num
    | cons f fs ih =>
      rw [List.map_cons, List.map_cons, List.sum_cons, ih, h, List.length_cons]
      by_cases hp : p f = true
      · rw [if_pos hp, List.countP_cons_of_pos hp]
        push_cast
        ring
      · rw [if_neg hp, List.countP_cons_of_neg hp]
        push_cast
        ring
  have hpos : (0 : ℚ) < golds.length := Nat.cast_pos.mpr (List.length_pos_of_ne_nil hne)
  rw [mean, hsum, List.length_map, le_div_iff₀ hpos, ← @Nat.cast_le ℚ]
  push_cast
  constructor
  · intro hle
    linarith
  · intro hle
    linarith

/-- **Only the dates hold an echo back.**  A model that answers every release with the whole of
it as one obligation, without a date, has a perfect recall and invents nothing on a gold set
whose quotes are in the releases, and it passes exactly if at most one gold file in ten has a
dated obligation. -/
theorem echo_passes_iff (rt : Runtime) (hlower : rt.lower "" = "")
    (ask : String → Except PyError String) (caches : List (List Release)) (golds : List GoldFile)
    (hne : golds ≠ []) (hfeed : AllReleased caches golds)
    (hquotes : ∀ f ∈ golds, QuotesIn rt (releaseTextOf caches f) f)
    (hecho : ∀ f ∈ golds, ∃ o, IsEcho (releaseTextOf caches f) o ∧
      Lists ask (releaseTextOf caches f) [o]) :
    ∃ report, gate rt ask false caches golds = .ok report ∧ report.aggregate.recall_ = 1 ∧
      report.aggregate.hallucination = 0 ∧
      (report.passed = true ↔ 10 * golds.countP hasDates ≤ golds.length) := by
  obtain ⟨g, hg⟩ : ∃ g : GoldFile → Scores,
      g = fun f => ⟨f.releaseId, 1, 0, if hasDates f then 0 else 1, f.obligations.length, 1⟩ :=
        ⟨_, rfl⟩
  have hne' : golds.map g ≠ [] := fun h => hne (List.map_eq_nil_iff.mp h)
  have hrow : ∀ P : Scores → Prop, (∀ f, P (g f)) → ∀ r ∈ golds.map g, P r := by
    intro P hP
    exact List.forall_mem_map.mpr (fun f _ => hP f)
  have hrecall : mean Scores.recall_ (golds.map g) = 1 :=
    (mean_eq_one_iff hne' (hrow _ (fun f => by rw [hg]))).mpr (hrow _ (fun f => by rw [hg]))
  have hhalluc : mean Scores.hallucination (golds.map g) = 0 :=
    (mean_eq_zero_iff hne' (hrow _ (fun f => by rw [hg]))).mpr (hrow _ (fun f => by rw [hg]))
  have hdates := mean_indicator hasDates g Scores.dateAccuracy (fun f => by rw [hg]) golds hne
  refine ⟨reportOf (golds.map g), gate_ok hne (fun f hf => ?_), hrecall, hhalluc, ?_⟩
  · obtain ⟨rel, hrel, htext⟩ := hfeed.release hf
    obtain ⟨o, ho, hlists⟩ := hecho f hf
    rw [scoreFile_of_lists hrel (by rw [htext]; exact hlists), htext,
      score_echo hlower ho (hquotes f hf), hg]
  · show (decide (THRESHOLDS.recall_ ≤ mean Scores.recall_ (golds.map g)) &&
      decide (mean Scores.hallucination (golds.map g) ≤ THRESHOLDS.hallucination) &&
      decide (THRESHOLDS.dateAccuracy ≤ mean Scores.dateAccuracy (golds.map g))) = true ↔ _
    have hbounds : THRESHOLDS.recall_ ≤ 1 ∧ 0 ≤ THRESHOLDS.hallucination := by decide +kernel
    have hninety : THRESHOLDS.dateAccuracy = 9 / 10 := by decide +kernel
    rw [hrecall, hhalluc, hninety, decide_eq_true hbounds.1, decide_eq_true hbounds.2,
      Bool.true_and, Bool.true_and, decide_eq_true_eq, hdates]

theorem giftEcho_lists : Lists echoEndpoint giftNotice.text
    [[("quote", .str giftNotice.text)]] := by
  refine ⟨_, "Here it is: ".toList, giftEcho, [],
    [("obligations", .arr [.obj [("quote", .str giftNotice.text)]])],
    rfl, ?_, by decide +kernel, List.not_mem_nil, ⟨_, rfl⟩, ⟨giftEcho.dropLast, by decide +kernel⟩,
    by decide +kernel, rfl⟩
  rw [String.toList_ofList, List.append_nil]

theorem echo_passes_iff_sample : ∃ report,
    gate Runtime.python echoEndpoint false [[giftNotice]] [giftGold] = .ok report ∧
    report.aggregate.recall_ = 1 ∧ report.aggregate.hallucination = 0 ∧
    (report.passed = true ↔ 10 * [giftGold].countP hasDates ≤ 1) := by
  refine echo_passes_iff Runtime.python rfl echoEndpoint [[giftNotice]] [giftGold]
    (List.cons_ne_nil _ _) giftGold_released ?_ ?_
  · intro f hf o ho q hq _
    rw [List.mem_singleton.mp hf] at ho ⊢
    rw [List.mem_singleton.mp ho] at hq
    cases hq
    decide +kernel
  · intro f hf
    rw [List.mem_singleton.mp hf]
    exact ⟨_, ⟨rfl, rfl⟩, giftEcho_lists⟩

end ComplianceMcp.Extraction
