import ComplianceMcp.FirstMatch
import ComplianceMcp.AuditFile
import Mathlib.Data.Rat.Cast.Order
import Mathlib.Tactic.Ring

/-! # Scoring an extraction

Before a model goes live its output on each release is scored against a gold set: how many gold
quotes it found, how many of its own quotes are not in the release, and how many of the dates are
right.  A gold item is matched with the first output that fits it, so where several outputs
fit and their dates differ the third score depends on which of them the model lists first. -/
namespace ComplianceMcp.Extraction

open PyText PyJson FirstMatch

/-! ## Gold sets -/

/-- An obligation of the gold set; a date is a text that is not empty. -/
structure GoldItem where
  quote : String
  date : Option String

structure GoldSet where
  releaseId : String
  obligations : List GoldItem
  nonempty : obligations ≠ []

structure Scores where
  releaseId : String
  recall_ : ℚ
  hallucination : ℚ
  dateAccuracy : ℚ
  nGold : Nat
  nOutput : Nat

/-! ## `score`

The obligations of the model are JSON objects. -/

/-- `o.get("quote", "")`. -/
def quoteOf (o : Dict) : Json := (Json.get o "quote").getD (.str "")

/-- What the value of a quote has `lower` for. -/
def text : Json → Option String
  | .str s => some s
  | _ => none

/-- `if g["date"]`. -/
def GoldItem.isDated (g : GoldItem) : Bool := g.date.any (fun d => d ≠ "")

/-- `match.get("date") == g["date"]`. -/
def sameDate (g : GoldItem) (o : Dict) : Bool :=
  (Json.get o "date").getD .null = (g.date.map Json.str).getD .null

section Score

variable (rt : Runtime)

/-- One quote has the other in it, and an output that is only a part is long enough. -/
def quotesFit (g : GoldItem) (q : String) : Bool :=
  contains (rt.lower q).toList (rt.lower g.quote).toList ||
    (contains (rt.lower g.quote).toList (rt.lower q).toList && decide (20 < q.toList.length))

/-- `next((o for o in outputs if …), None)`. -/
def firstMatch (g : GoldItem) : List Dict → Except PyError (Option Dict)
  | [] => .ok none
  | o :: rest =>
    match text (quoteOf o) with
    | some q => if quotesFit rt g q then .ok (some o) else firstMatch g rest
    | none => .error .attributeError

/-- `found`, `date_hits` and `date_total`. -/
structure Tally where
  found : Nat
  dateHits : Nat
  dateTotal : Nat

/-- One gold item; the match counts if it is truthy, so if it has a field. -/
def tallyItem (outputs : List Dict) (t : Tally) (g : GoldItem) : Except PyError Tally :=
  match firstMatch rt g outputs with
  | .error e => .error e
  | .ok none => .ok t
  | .ok (some o) =>
    if o.isEmpty then .ok t
    else if g.isDated then .ok ⟨t.found + 1, t.dateHits + (sameDate g o).toNat, t.dateTotal + 1⟩
    else .ok { t with found := t.found + 1 }

/-- The loop over the gold set. -/
def tally (outputs : List Dict) : List GoldItem → Tally → Except PyError Tally
  | [], t => .ok t
  | g :: rest, t =>
    match tallyItem rt outputs t g with
    | .error e => .error e
    | .ok t => tally outputs rest t

/-- `sum(1 for q in out_quotes if q and q.lower() not in text)`. -/
def hallucinated (releaseText : String) : List Dict → Except PyError Nat
  | [] => .ok 0
  | o :: rest =>
    if truthy (quoteOf o) then
      match text (quoteOf o) with
      | some q => (hallucinated releaseText rest).map
          (fun n => n + if contains (rt.lower releaseText).toList (rt.lower q).toList then 0 else 1)
      | none => .error .attributeError
    else hallucinated releaseText rest

/-- `score(release_text, gold, output)`. -/
def score (releaseText : String) (gold : GoldSet) (outputs : List Dict) : Except PyError Scores :=
  match tally rt outputs gold.obligations ⟨0, 0, 0⟩ with
  | .error e => .error e
  | .ok t =>
    match hallucinated rt releaseText outputs with
    | .error e => .error e
    | .ok halluc => .ok
        { releaseId := gold.releaseId
          recall_ := t.found / gold.obligations.length
          hallucination := halluc / max 1 outputs.length
          dateAccuracy := if t.dateTotal = 0 then 1 else t.dateHits / t.dateTotal
          nGold := gold.obligations.length
          nOutput := outputs.length }

end Score

/-- The three scores the gate looks at. -/
def Scores.rates (s : Scores) : ℚ × ℚ × ℚ := (s.recall_, s.hallucination, s.dateAccuracy)

/-- The scores are the same for every order of the outputs. -/
def OrderFree (rt : Runtime) (releaseText : String) (gold : GoldSet) (outputs : List Dict) : Prop :=
  ∀ outputs' : List Dict, outputs'.Perm outputs →
    (score rt releaseText gold outputs').map Scores.rates =
    (score rt releaseText gold outputs).map Scores.rates

/-! ## Quotes that are no strings -/

/-- Every quote is a string. -/
def AllText (outputs : List Dict) : Prop := ∀ o ∈ outputs, (text (quoteOf o)).isSome = true

/-- The output fits the item. -/
def fits (rt : Runtime) (g : GoldItem) (o : Dict) : Bool := (text (quoteOf o)).any (quotesFit rt g)

/-- **No order is scored**: some quote is no string, and it is reached in every order, by the last
sum where it is truthy and else by a gold item that nothing fits. -/
def NeverScored (rt : Runtime) (gold : List GoldItem) (outputs : List Dict) : Prop :=
  ∃ o ∈ outputs, text (quoteOf o) = none ∧
    (truthy (quoteOf o) = true ∨ ∃ g ∈ gold, ∀ o' ∈ outputs, fits rt g o' = false)

section Counts

variable {rt : Runtime} {outputs outputs' : List Dict}

theorem AllText.perm (h : AllText outputs) (hp : outputs'.Perm outputs) : AllText outputs' :=
  fun o ho => h o (hp.subset ho)

/-- The search ends at the first output that fits, and passes over the others to what follows. -/
theorem firstMatch_append (g : GoldItem) {before : List Dict} (hb : AllText before)
    (rest : List Dict) :
    firstMatch rt g (before ++ rest) =
      (before.find? (fits rt g)).elim (firstMatch rt g rest) (fun o => .ok (some o)) := by
  induction before with
  | nil => rfl
  | cons o before ih =>
    obtain ⟨q, hq⟩ := Option.isSome_iff_exists.mp (hb o (List.mem_cons_self ..))
    have hf : fits rt g o = quotesFit rt g q := by rw [fits, hq, Option.any_some]
    rw [List.cons_append, firstMatch, hq]
    by_cases hfit : quotesFit rt g q = true
    · rw [List.find?_cons_of_pos (hf.trans hfit)]
      simp only [hfit, if_true, Option.elim_some]
    · rw [List.find?_cons_of_neg (by rw [hf]; exact hfit),
        ← ih (fun o' ho' => hb o' (List.mem_cons_of_mem _ ho'))]
      simp only [hfit, if_false, Bool.false_eq_true]

theorem firstMatch_text (h : AllText outputs) (g : GoldItem) :
    firstMatch rt g outputs = .ok (outputs.find? (fits rt g)) := by
  have happ := @firstMatch_append rt g outputs h []
  rw [List.append_nil] at happ
  rw [happ]
  cases outputs.find? (fits rt g) with
  | none => rfl
  | some o => rfl

/-- Where nothing fits, a quote that is no string is reached. -/
theorem firstMatch_error {g : GoldItem} (hn : ¬ AllText outputs)
    (hg : ∀ o ∈ outputs, fits rt g o = false) :
    firstMatch rt g outputs = .error .attributeError := by
  induction outputs with
  | nil => exact absurd (fun o ho => absurd ho List.not_mem_nil) hn
  | cons o rest ih =>
    rw [firstMatch]
    cases hq : text (quoteOf o) with
    | none => rfl
    | some q =>
      have hfit : quotesFit rt g q = false := by
        have h := hg o (List.mem_cons_self ..)
        rwa [fits, hq, Option.any_some] at h
      simp only [hfit, Bool.false_eq_true, if_false]
      refine ih (fun hall => hn ?_) (fun o' ho' => hg o' (List.mem_cons_of_mem _ ho'))
      intro o' ho'
      rcases List.mem_cons.mp ho' with rfl | ho'
      · exact Option.isSome_iff_exists.mpr ⟨q, hq⟩
      · exact hall o' ho'

theorem firstMatch_raises {g : GoldItem} {e : PyError} (h : firstMatch rt g outputs = .error e) :
    e = .attributeError := by
  induction outputs with
  | nil => cases h
  | cons o rest ih =>
    rw [firstMatch] at h
    cases hq : text (quoteOf o) with
    | none =>
      rw [hq] at h
      cases h
      rfl
    | some q =>
      rw [hq] at h
      by_cases hfit : quotesFit rt g q = true
      · simp only [hfit, if_true] at h
        cases h
      · simp only [hfit, if_false, Bool.false_eq_true] at h
        exact ih h

/-! ## What the loop counts -/

/-- `if match`: a match without fields is falsy. -/
def counts (_ : GoldItem) (o : Dict) : Bool := !o.isEmpty

/-- The items with a date. -/
def dated (gold : List GoldItem) : List GoldItem := gold.filter GoldItem.isDated

/-- The date of an item with a date is no date that is missing. -/
theorem counts_of_sameDate {g : GoldItem} {o : Dict} (hd : g.isDated = true)
    (h : sameDate g o = true) :
    counts g o = true := by
  cases o with
  | cons f o => rfl
  | nil =>
    rw [GoldItem.isDated, Option.any_eq_true] at hd
    obtain ⟨d, hd, _⟩ := hd
    rw [sameDate, hd] at h
    cases h

theorem tallyItem_ok {t : Tally} {g : GoldItem} {o : Option Dict}
    (h : firstMatch rt g outputs = .ok o) :
    tallyItem rt outputs t g = .ok
      ⟨t.found + (o.any (counts g)).toNat, t.dateHits + (g.isDated && o.any (sameDate g)).toNat,
        t.dateTotal + (g.isDated && o.any (counts g)).toNat⟩ := by
  rw [tallyItem, h]
  cases o with
  | none => simp
  | some o =>
    by_cases he : o.isEmpty = true
    · have hc : counts g o = false := by rw [counts, he]; rfl
      have hs : (g.isDated && sameDate g o) = false := by
        rw [Bool.eq_false_iff]
        intro h
        rw [Bool.and_eq_true] at h
        rw [counts_of_sameDate h.1 h.2] at hc
        cases hc
      simp [he, hc, hs]
    · have hc : counts g o = true := by simpa [counts] using he
      by_cases hd : g.isDated = true
      · simp [he, hc, hd]
      · simp [he, hc, hd]

/-- **The loop counts** the items whose first output has a field, the dated ones whose first
output has their date, and the dated ones whose first output has a field. -/
theorem tally_text (h : AllText outputs) (gold : List GoldItem) (t : Tally) :
    tally rt outputs gold t = .ok
    ⟨t.found + hits (fits rt) counts gold outputs, t.dateHits + hits (fits rt) sameDate
      (dated gold) outputs, t.dateTotal + hits (fits rt) counts (dated gold) outputs⟩ := by
  induction gold generalizing t with
  | nil => rfl
  | cons g gold ih =>
    rw [tally, tallyItem_ok (firstMatch_text h g)]
    by_cases hd : g.isDated = true
    · rw [dated, List.filter_cons_of_pos hd, ← dated, hits_cons, hits_cons, hits_cons]
      simp only [ih, hd, Bool.true_and, Nat.add_assoc]
    · rw [dated, List.filter_cons_of_neg hd, ← dated, hits_cons]
      simp only [ih, hd, Bool.false_and, Bool.toNat_false, Nat.add_assoc, Nat.zero_add]

/-- The loop ends if every search does. -/
theorem tally_ok {gold : List GoldItem}
    (h : ∀ g ∈ gold, ∃ o, firstMatch rt g outputs = .ok o) (t : Tally) :
    ∃ t', tally rt outputs gold t = .ok t' := by
  induction gold generalizing t with
  | nil => exact ⟨t, rfl⟩
  | cons g gold ih =>
    obtain ⟨o, ho⟩ := h g (List.mem_cons_self ..)
    rw [tally, tallyItem_ok ho]
    exact ih (fun g' hg' => h g' (List.mem_cons_of_mem _ hg')) _

theorem tallyItem_error {t : Tally} {g : GoldItem} {e : PyError}
    (h : firstMatch rt g outputs = .error e) :
    tallyItem rt outputs t g = .error e := by
  rw [tallyItem, h]

/-- The loop raises if a search does, and as the searches do. -/
theorem tally_error {gold : List GoldItem} {g : GoldItem} {e : PyError} (hg : g ∈ gold)
    (h : firstMatch rt g outputs = .error e) (t : Tally) :
    tally rt outputs gold t = .error .attributeError := by
  induction gold generalizing t with
  | nil => cases hg
  | cons g' gold ih =>
    rw [tally]
    cases ho : firstMatch rt g' outputs with
    | error e' => rw [tallyItem_error ho, firstMatch_raises ho]
    | ok o =>
      rw [tallyItem_ok ho]
      rcases List.mem_cons.mp hg with rfl | hg
      · rw [h] at ho
        cases ho
      · exact ih hg _

theorem tally_raises {gold : List GoldItem} {t : Tally} {e : PyError}
    (h : tally rt outputs gold t = .error e) :
    e = .attributeError := by
  induction gold generalizing t with
  | nil => cases h
  | cons g gold ih =>
    rw [tally] at h
    cases ho : firstMatch rt g outputs with
    | error e' =>
      rw [tallyItem_error ho] at h
      cases h
      exact firstMatch_raises ho
    | ok o =>
      rw [tallyItem_ok ho] at h
      exact ih h

/-! ## What is not in the release -/

theorem text_eq_some {j : Json} {q : String} (h : text j = some q) : j = .str q := by
  cases j with
  | str s =>
    cases h
    rfl
  | _ => cases h

/-- The output has a quote, and it is not in the release. -/
def invented (rt : Runtime) (releaseText : String) (o : Dict) : Bool :=
  (text (quoteOf o)).any
    (fun q => decide (q ≠ "") && !contains (rt.lower releaseText).toList (rt.lower q).toList)

theorem hallucinated_ok {releaseText : String}
    (h : ∀ o ∈ outputs, truthy (quoteOf o) = true → (text (quoteOf o)).isSome = true) :
    hallucinated rt releaseText outputs = .ok (outputs.countP (invented rt releaseText)) := by
  induction outputs with
  | nil => rfl
  | cons o rest ih =>
    have ih := ih (fun o' ho' => h o' (List.mem_cons_of_mem _ ho'))
    rw [hallucinated, List.countP_cons, ih]
    by_cases ht : truthy (quoteOf o) = true
    · obtain ⟨q, hq⟩ := Option.isSome_iff_exists.mp (h o (List.mem_cons_self ..) ht)
      have hne : q ≠ "" := by simpa [text_eq_some hq, truthy] using ht
      cases hc : contains (rt.lower releaseText).toList (rt.lower q).toList <;>
        simp [ht, hq, hc, hne, invented, Except.map]
    · have hi : invented rt releaseText o = false := by
        cases hq : text (quoteOf o) with
        | none => rw [invented, hq, Option.any_none]
        | some q =>
          have he : q = "" := by simpa [text_eq_some hq, truthy] using ht
          simp [invented, hq, he]
      simp [ht, hi]

theorem hallucinated_error {releaseText : String} {o : Dict} (ho : o ∈ outputs)
    (ht : truthy (quoteOf o) = true) (hq : text (quoteOf o) = none) :
    hallucinated rt releaseText outputs = .error .attributeError := by
  induction outputs with
  | nil => cases ho
  | cons o' rest ih =>
    rw [hallucinated]
    rcases List.mem_cons.mp ho with rfl | ho
    · simp [ht, hq]
    · rw [ih ho]
      cases text (quoteOf o') <;> simp [Except.map]

/-! ## The order of the outputs -/

theorem score_text (h : AllText outputs) (releaseText : String) (gold : GoldSet) :
    (score rt releaseText gold outputs).map Scores.rates = .ok
      ((hits (fits rt) counts gold.obligations outputs : ℚ) / gold.obligations.length,
        (outputs.countP (invented rt releaseText) : ℚ) / max 1 outputs.length,
        if hits (fits rt) counts (dated gold.obligations) outputs = 0 then 1
        else (hits (fits rt) sameDate (dated gold.obligations) outputs : ℚ) /
          hits (fits rt) counts (dated gold.obligations) outputs) := by
  rw [score, tally_text h, hallucinated_ok (fun o ho _ => h o ho)]
  simp only [Nat.zero_add, Except.map, Scores.rates]

/-- More dates are not right than items are found. -/
theorem hits_le_hits (gold : List GoldItem) :
    hits (fits rt) sameDate (dated gold) outputs ≤ hits (fits rt) counts (dated gold) outputs := by
  refine List.countP_mono_left (fun g hg h => ?_)
  have hd : g.isDated = true := (List.mem_filter.mp hg).2
  rw [Option.any_eq_true] at h ⊢
  obtain ⟨o, ho, hs⟩ := h
  exact ⟨o, ho, counts_of_sameDate hd hs⟩

/-- With as many items found, the rates agree exactly if as many dates are right. -/
theorem rates_eq_iff (ht : AllText outputs) (hp : outputs'.Perm outputs) (releaseText : String)
    (gold : GoldSet) (hf : hits (fits rt) counts gold.obligations outputs' = hits
      (fits rt) counts gold.obligations outputs)
    (hd : hits (fits rt) counts (dated gold.obligations) outputs' =
      hits (fits rt) counts (dated gold.obligations) outputs) :
    (score rt releaseText gold outputs').map Scores.rates = (score rt releaseText gold outputs).map
      Scores.rates ↔
      hits (fits rt) sameDate (dated gold.obligations) outputs' =
        hits (fits rt) sameDate (dated gold.obligations) outputs := by
  rw [score_text ht, score_text (ht.perm hp), hf, hd, hp.countP_eq, hp.length_eq, Except.ok.injEq,
    Prod.mk.injEq, Prod.mk.injEq]
  simp only [true_and]
  by_cases h0 : hits (fits rt) counts (dated gold.obligations) outputs = 0
  · have hle := @hits_le_hits rt outputs gold.obligations
    have hle' := @hits_le_hits rt outputs' gold.obligations
    rw [if_pos h0, if_pos h0]
    exact iff_of_true rfl (by omega)
  · rw [if_neg h0, if_neg h0]
    have hne : (hits (fits rt) counts (dated gold.obligations) outputs : ℚ) ≠ 0 :=
      Nat.cast_ne_zero.mpr h0
    rw [div_left_inj' hne, Nat.cast_inj]

/-- An item that fits the empty object has an empty quote, and fits every quote. -/
theorem fits_of_fits_empty (hlower : rt.lower "" = "") {g : GoldItem} {o : Dict}
    (hg : fits rt g [] = true) (ho : (text (quoteOf o)).isSome = true) : fits rt g o = true := by
  have hempty : (rt.lower g.quote).toList = [] := by
    have h : quotesFit rt g "" = true := hg
    simp only [quotesFit, hlower, Bool.or_eq_true, Bool.and_eq_true, decide_eq_true_eq] at h
    rcases h with h | h
    · exact List.infix_nil.mp (contains_iff.mp h)
    · exact absurd h.2 (by decide)
  obtain ⟨q, hq⟩ := Option.isSome_iff_exists.mp ho
  rw [fits, hq, Option.any_some, quotesFit, hempty, Bool.or_eq_true]
  exact .inl (contains_iff.mpr List.nil_infix)

/-- Empty objects make no difference: no item fits one, or all the outputs are empty, or none is. -/
def EmptyApart (rt : Runtime) (gold : List GoldItem) (outputs : List Dict) : Prop :=
  (∀ g ∈ gold, fits rt g [] = false) ∨ (∀ o ∈ outputs, o = []) ∨ ∀ o ∈ outputs, o ≠ []

/-- The first output that fits has a field exactly if there is one that fits. -/
theorem counted_iff {g : GoldItem} (h : fits rt g [] = false ∨ ∀ o ∈ outputs, o ≠ []) :
    (outputs.find? (fits rt g)).any (counts g) = (outputs.find? (fits rt g)).isSome := by
  cases ho : outputs.find? (fits rt g) with
  | none => rfl
  | some o =>
    have hne : o ≠ [] := by
      rcases h with h | h
      · rintro rfl
        rw [List.find?_some ho] at h
        cases h
      · exact h o (List.mem_of_find?_eq_some ho)
    rw [Option.any_some, counts, Option.isSome_some, List.isEmpty_eq_false_iff.mpr hne,
      Bool.not_false]

theorem counted_perm {gold : List GoldItem} (hp : outputs'.Perm outputs)
    (h : (∀ g ∈ gold, fits rt g [] = false) ∨ ∀ o ∈ outputs, o ≠ []) :
    hits (fits rt) counts gold outputs' = hits (fits rt) counts gold outputs := by
  refine List.countP_congr (fun g hg => ?_)
  have hg' : fits rt g [] = false ∨ ∀ o ∈ outputs, o ≠ [] := h.imp_left (fun h => h g hg)
  rw [counted_iff hg', counted_iff (hg'.imp_right (fun h o ho => h o (hp.subset ho))),
    isSome_find?_perm hp]

/-- **An empty object before the other outputs** takes the items with an empty quote. -/
theorem counted_lt (hlower : rt.lower "" = "") {gold : List GoldItem} {g₀ : GoldItem} {o : Dict}
    {first second : List Dict} (ht : AllText (o :: second)) (hg : g₀ ∈ gold)
    (hfit : fits rt g₀ [] = true) (hne : o ≠ [])
    (hp : ([] :: first : List Dict).Perm (o :: second)) :
    hits (fits rt) counts gold ([] :: first) < hits (fits rt) counts gold (o :: second) := by
  have hmono : ∀ g : GoldItem, (([] :: first).find? (fits rt g)).any (counts g) = true →
      ((o :: second).find? (fits rt g)).any (counts g) = true := by
    intro g h
    by_cases hge : fits rt g [] = true
    · rw [List.find?_cons_of_pos hge] at h
      cases h
    · rw [Bool.not_eq_true] at hge
      rw [counted_iff (.inl hge)] at h ⊢
      rwa [isSome_find?_perm hp] at h
  have hitem : ((o :: second).find? (fits rt g₀)).any (counts g₀) = true := by
    rw [List.find?_cons_of_pos (fits_of_fits_empty hlower hfit (ht o (List.mem_cons_self ..)))]
    simpa [counts] using hne
  have hnone : (([] :: first).find? (fits rt g₀)).any (counts g₀) = false := by
    rw [List.find?_cons_of_pos hfit]
    rfl
  exact countP_lt_countP hmono hg hnone hitem

/-- A quote that is no string is found in every order, if it is found at all. -/
theorem score_of_neverScored {releaseText : String} {gold : GoldSet}
    (h : NeverScored rt gold.obligations outputs) :
    score rt releaseText gold outputs = .error .attributeError := by
  obtain ⟨o, ho, hq, hreached⟩ := h
  rw [score]
  cases ht : tally rt outputs gold.obligations ⟨0, 0, 0⟩ with
  | error e => rw [tally_raises ht]
  | ok t =>
    rcases hreached with htruthy | ⟨g, hg, hnone⟩
    · rw [hallucinated_error ho htruthy hq]
    · have hn : ¬ AllText outputs := by
        intro hall
        have hsome := hall o ho
        rw [hq] at hsome
        cases hsome
      rw [tally_error hg (firstMatch_error hn hnone)] at ht
      cases ht

theorem NeverScored.perm {gold : List GoldItem} (h : NeverScored rt gold outputs)
    (hp : outputs'.Perm outputs) :
    NeverScored rt gold outputs' := by
  obtain ⟨o, ho, hq, hreached⟩ := h
  refine ⟨o, hp.symm.subset ho, hq, ?_⟩
  rcases hreached with htruthy | ⟨g, hg, hnone⟩
  · exact .inl htruthy
  · exact .inr ⟨g, hg, fun o' ho' => hnone o' (hp.subset ho')⟩

/-- The outputs whose quotes are strings can be listed first. -/
theorem texts_first (outputs : List Dict) :
    ∃ texts others, (texts ++ others).Perm outputs ∧ AllText texts ∧
    ∀ o ∈ outputs, o ∉ texts → text (quoteOf o) = none := by
  refine ⟨outputs.filter (fun o => (text (quoteOf o)).isSome),
    outputs.filter (fun o => !(text (quoteOf o)).isSome), List.filter_append_perm .., fun o ho =>
      (List.mem_filter.mp ho).2, fun o ho hnot => ?_⟩
  rw [List.mem_filter, not_and] at hnot
  exact Option.not_isSome_iff_eq_none.mp (hnot ho)

/-- A quote that is no string raises where it is first, and need not where it is last. -/
theorem neverScored_of_orderFree {releaseText : String} {gold : GoldSet}
    (h : OrderFree rt releaseText gold outputs) (hn : ¬ AllText outputs) :
    NeverScored rt gold.obligations outputs := by
  unfold AllText at hn
  push Not at hn
  obtain ⟨o, ho, hq⟩ := hn
  rw [ne_eq, Option.not_isSome_iff_eq_none] at hq
  by_contra hnever
  obtain ⟨texts, others, hp, htext, hothers⟩ := texts_first outputs
  have hfound : ∀ g ∈ gold.obligations, ∃ m, firstMatch rt g (texts ++ others) = .ok m := by
    intro g hg
    rw [firstMatch_append g htext]
    cases hm : texts.find? (fits rt g) with
    | some m => exact ⟨some m, rfl⟩
    | none =>
      refine absurd ⟨o, ho, hq, .inr ⟨g, hg, fun o' ho' => ?_⟩⟩ hnever
      by_cases hmem : o' ∈ texts
      · exact Bool.eq_false_iff.mpr (List.find?_eq_none.mp hm o' hmem)
      · rw [fits, hothers o' ho' hmem, Option.any_none]
  have hsum : ∀ o' ∈ texts ++ others, truthy (quoteOf o') = true →
      (text (quoteOf o')).isSome = true := by
    intro o' ho' htruthy
    by_contra hnone
    rw [Option.not_isSome_iff_eq_none] at hnone
    exact hnever ⟨o', hp.subset ho', hnone, .inl htruthy⟩
  obtain ⟨t, ht⟩ := tally_ok hfound ⟨0, 0, 0⟩
  have hlast := h _ hp
  rw [score, ht, hallucinated_ok hsum] at hlast
  -- and with that quote before all others
  have hfirst := h _ (List.perm_cons_erase ho).symm
  obtain ⟨g, hg⟩ := List.exists_mem_of_ne_nil _ gold.nonempty
  have herr : firstMatch rt g (o :: outputs.erase o) = .error .attributeError := by
    rw [firstMatch, hq]
  rw [score, tally_error hg herr] at hfirst
  rw [← hfirst] at hlast
  cases hlast

/-- Empty objects make a difference to the items with an empty quote only. -/
theorem emptyApart_of_orderFree (hlower : rt.lower "" = "") {releaseText : String} {gold : GoldSet}
    (ht : AllText outputs) (h : OrderFree rt releaseText gold outputs) :
    EmptyApart rt gold.obligations outputs := by
  by_contra hnot
  unfold EmptyApart at hnot
  push Not at hnot
  obtain ⟨⟨g, hg, hfit⟩, ⟨o, ho, hne⟩, ⟨e, he, rfl⟩⟩ := hnot
  rw [ne_eq, Bool.not_eq_false] at hfit
  have hpe := (List.perm_cons_erase he).symm
  have hpo := (List.perm_cons_erase ho).symm
  have hlt := counted_lt hlower (ht.perm hpo) hg hfit hne (hpe.trans hpo.symm)
  have heq := (h _ hpe).trans (h _ hpo).symm
  rw [score_text (ht.perm hpe), score_text (ht.perm hpo), Except.ok.injEq, Prod.mk.injEq] at heq
  have hlen : ((gold.obligations.length : Nat) : ℚ) ≠ 0 :=
    Nat.cast_ne_zero.mpr (fun h0 => gold.nonempty (List.length_eq_zero_iff.mp h0))
  rw [div_left_inj' hlen, Nat.cast_inj] at heq
  omega

end Counts

/-- The outputs can be scored in any order: each quote is a string, empty objects make no
difference, and of any two outputs that follow each other in some order each has the dates of as
many of the dated gold items they contest. -/
structure AnyOrder (rt : Runtime) (gold : List GoldItem) (outputs : List Dict) : Prop where
  texts : AllText outputs
  apart : EmptyApart rt gold outputs
  balanced : Balanced (fits rt) sameDate (dated gold) outputs

theorem AnyOrder.orderFree {rt : Runtime} {releaseText : String} {gold : GoldSet}
    {outputs : List Dict} (h : AnyOrder rt gold.obligations outputs) :
    OrderFree rt releaseText gold outputs := by
  intro outputs' hp
  rcases h.apart with hno | hall | hnone
  · refine (rates_eq_iff h.texts hp releaseText gold (counted_perm hp (.inl hno))
    (counted_perm hp (.inl ?_))).mpr ?_
    · exact fun g hg => hno g (List.mem_of_mem_filter hg)
    · exact hits_perm_iff.mpr h.balanced _ hp
  · have heq : outputs' = outputs := by
      rw [List.eq_replicate_iff.mpr ⟨rfl, hall⟩] at hp ⊢
      exact List.perm_replicate.mp hp
    rw [heq]
  · exact (rates_eq_iff h.texts hp releaseText gold (counted_perm hp (.inr hnone))
      (counted_perm hp (.inr hnone))).mpr (hits_perm_iff.mpr h.balanced _ hp)

theorem balanced_of_orderFree {rt : Runtime} {releaseText : String} {gold : GoldSet}
    {outputs : List Dict} (ht : AllText outputs) (ha : EmptyApart rt gold.obligations outputs)
    (h : OrderFree rt releaseText gold outputs) :
    Balanced (fits rt) sameDate (dated gold.obligations) outputs := by
  rcases ha with hno | hall | hnone
  · refine hits_perm_iff.mp (fun l hp => ?_)
    refine (rates_eq_iff ht hp releaseText gold (counted_perm hp (.inl hno))
      (counted_perm hp (.inl ?_))).mp (h l hp)
    exact fun g hg => hno g (List.mem_of_mem_filter hg)
  · refine balanced_of_agree (fun o ho o' ho' _ _ _ _ => ?_)
    rw [hall o ho, hall o' ho']
  · exact hits_perm_iff.mp (fun l hp => (rates_eq_iff ht hp releaseText gold
      (counted_perm hp (.inr hnone)) (counted_perm hp (.inr hnone))).mp (h l hp))

/-- **The scores do not depend on the order of the outputs exactly if** no order is scored at all,
or the outputs can be scored in any order.  For every release, every gold set and all the model's
obligations, whatever their fields. -/
theorem order_free_iff (rt : Runtime) (hlower : rt.lower "" = "") (releaseText : String)
    (gold : GoldSet) (outputs : List Dict) : OrderFree rt releaseText gold outputs ↔
      NeverScored rt gold.obligations outputs ∨ AnyOrder rt gold.obligations outputs := by
  constructor
  · intro h
    by_cases ht : AllText outputs
    · have ha := emptyApart_of_orderFree hlower ht h
      exact .inr ⟨ht, ha, balanced_of_orderFree ht ha h⟩
    · exact .inl (neverScored_of_orderFree h ht)
  · rintro (h | h)
    · intro outputs' hp
      rw [score_of_neverScored h, score_of_neverScored (h.perm hp)]
    · exact h.orderFree

/-! ## Two dates for one obligation -/

def giftLimit : GoldSet where
  releaseId := "FINRA-RN-26-19"
  obligations := [⟨"raise the annual gift limit", some "2027-01-01"⟩]
  nonempty := List.cons_ne_nil _ _

/-- An obligation as the model is asked to list it. -/
def listed (quote date : String) : Dict :=
  [("type", .str "deadline"), ("quote", .str quote), ("date", .str date)]

/-- The obligation with the date of the release, and with the one from which it applies. -/
def twoDates : List Dict :=
  [listed "raise the annual gift limit" "2026-12-01",
    listed "raise the annual gift limit" "2027-01-01"]

/-- The obligation twice with one date, and another that nobody asked for. -/
def repeated : List Dict :=
  [listed "raise the annual gift limit" "2027-01-01",
    listed "report gifts by 31 March" "2026-03-31",
    listed "firms may raise the annual gift limit" "2027-01-01"]

/-- In every order of the three outputs the scores are the same. -/
theorem order_free_once : OrderFree Runtime.python "" giftLimit repeated :=
  (order_free_iff Runtime.python rfl "" giftLimit repeated).mpr
    (.inr ⟨by unfold AllText; decide, .inr (.inr (by decide)),
      balanced_of_agree (by decide +kernel)⟩)

theorem twoDates_text : AllText twoDates := by
  intro o ho
  rcases List.mem_cons.mp ho with rfl | ho
  · rfl
  · rw [List.mem_singleton.mp ho]
    rfl

/-- **The date is right or wrong by its place in the list.** -/
theorem date_accuracy_by_place : ¬ OrderFree Runtime.python "" giftLimit twoDates := by
  intro h
  have hp : twoDates.reverse.Perm twoDates := List.reverse_perm _
  have hne : ∀ o ∈ twoDates, o ≠ [] := by
    intro o ho
    rcases List.mem_cons.mp ho with rfl | ho
    · exact List.cons_ne_nil _ _
    · rw [List.mem_singleton.mp ho]
      exact List.cons_ne_nil _ _
  have hswap := (rates_eq_iff twoDates_text hp "" giftLimit (counted_perm hp (.inr hne))
    (counted_perm hp (.inr hne))).mp (h _ hp)
  revert hswap
  decide +kernel

end ComplianceMcp.Extraction
