import ComplianceMcp.DraftChecks

/-! # The quotes of a policy mapping

A mapping lists its obligations in a table, one numbered row each, with the quoted text of
the regulation in the third cell.  The check does not read the table: it takes what one
pattern finds in the body, and a row the pattern does not match is not looked at.  Here the
table is read row by row, and the two are compared.

What an accepted draft guarantees depends on the body alone: the releases can be chosen to
say just what the pattern has found (`echo`), so a row that says anything else is a row that
can be accepted without its quote being in any release. -/
namespace ComplianceMcp

open PyText

/-! ## The table, row by row -/

/-- The cells of a line that begins with a bar. -/
def rowCells (line : Text) : List Text :=
  match line.dropWhile isSpace with
  | '|' :: t => (t.splitOn '|').map strip
  | _ => []

/-- `| # | Type | Quote …`. -/
def isHeaderRow (line : Text) : Bool :=
  match rowCells line with
  | number :: type :: quote :: _ =>
    number = "#".toList && type = "Type".toList && "Quote".toList.isPrefixOf quote
  | _ => false

/-- The lines of the tables under a header; `inTable` says that the line before was one. -/
def tableRows (inTable : Bool) : List Text → List Text
  | [] => []
  | line :: rest =>
    if isHeaderRow line then tableRows true rest
    else if inTable && rowCells line ≠ [] then line :: tableRows true rest
    else tableRows false rest

/-- Whether the first cell is a number. -/
def isNumbered (line : Text) : Bool :=
  match rowCells line with
  | number :: _ => number ≠ [] && number.all isDecimal
  | [] => false

/-- The numbered rows of the obligations table. -/
def numberedRows (body : Text) : List Text :=
  (tableRows false (body.splitOn '\n')).filter isNumbered

/-- The text of a cell between double quotes. -/
def quotedText (cell : Text) : Option Text :=
  match cell with
  | '"' :: t => if t.getLast? = some '"' then some t.dropLast else none
  | _ => none

/-- What the third cell of a row quotes. -/
def rowQuote (line : Text) : Option Text :=
  match rowCells line with
  | _ :: _ :: cell :: _ => quotedText cell
  | _ => none

/-- The row quotes something that is not blank, and one of the texts has it. -/
def Verbatim (texts : List Text) (line : Text) : Prop :=
  ∃ q ∈ rowQuote line, blank q = false ∧ ∃ t ∈ texts, contains t (normalise q) = true

instance (texts : List Text) (line : Text) : Decidable (Verbatim texts line) :=
  match h : rowQuote line with
  | none => isFalse (by
      rintro ⟨q, hq, -⟩
      rw [h] at hq
      cases hq)
  | some q => decidable_of_iff (blank q = false ∧ ∃ t ∈ texts, contains t (normalise q) = true)
      ⟨fun hv => ⟨q, h, hv⟩, by
        rintro ⟨q', hq', hv⟩
        rw [h] at hq'
        cases hq'
        exact hv⟩

/-- The texts of the known releases that a draft names. -/
def corpus (relatedIds : List String) (lookupRelease : String → Option Release) : List Text :=
  (relatedIds.filterMap lookupRelease).map (fun r => normalise r.text.toList)

/-- The quotes that the pattern finds. -/
def extracted (body : Text) : List Text := (findQuotes true 0 body).map normalise

/-! ## What the check accepts -/

section Check

variable {body : Text} {relatedIds : List String} {lookupRelease : String → Option Release}

/-- **What is accepted**: something was extracted, some release is known, and every extracted
quote is in one of them. -/
theorem checkPolicyMapping_ok_iff : checkPolicyMapping body relatedIds lookupRelease = .ok () ↔
    extracted body ≠ [] ∧ corpus relatedIds lookupRelease ≠ [] ∧
      ∀ q ∈ extracted body, ∃ t ∈ corpus relatedIds lookupRelease, contains t q = true := by
  have hmissing : (extracted body).filter
        (fun q => !(corpus relatedIds lookupRelease).any (fun t => contains t q)) = [] ↔
      ∀ q ∈ extracted body, ∃ t ∈ corpus relatedIds lookupRelease, contains t q = true := by
    rw [List.filter_eq_nil_iff]
    refine forall₂_congr (fun q _ => ?_)
    rw [Bool.not_eq_true', Bool.not_eq_false, List.any_eq_true]
  unfold checkPolicyMapping
  change (if extracted body = [] then _ else if corpus relatedIds lookupRelease = [] then _
    else if (extracted body).filter
      (fun q => !(corpus relatedIds lookupRelease).any (fun t => contains t q)) = [] then _
        else _) = _ ↔ _
  by_cases hq : extracted body = []
  · rw [if_pos hq]
    exact ⟨fun h => (nomatch h), fun h => absurd hq h.1⟩
  rw [if_neg hq]
  by_cases hc : corpus relatedIds lookupRelease = []
  · rw [if_pos hc]
    exact ⟨fun h => (nomatch h), fun h => absurd hc h.2.1⟩
  rw [if_neg hc]
  by_cases hm : (extracted body).filter
      (fun q => !(corpus relatedIds lookupRelease).any (fun t => contains t q)) = []
  · rw [if_pos hm]
    exact ⟨fun _ => ⟨hq, hc, hmissing.mp hm⟩, fun _ => rfl⟩
  · rw [if_neg hm]
    exact ⟨fun h => (nomatch h), fun h => absurd (hmissing.mpr h.2.2) hm⟩

theorem contains_trans {t u v : Text} (h : contains t u = true) (h' : contains u v = true) :
    contains t v = true :=
  contains_iff.mpr ((contains_iff.mp h').trans (contains_iff.mp h))

theorem contains_self (t : Text) : contains t t = true := contains_iff.mpr (List.infix_refl t)

/-- A row that quotes from the extracted texts quotes from the texts that contain them. -/
theorem Verbatim.trans {texts texts' : List Text} {line : Text} (h : Verbatim texts line)
    (hsub : ∀ t ∈ texts, ∃ t' ∈ texts', contains t' t = true) : Verbatim texts' line := by
  obtain ⟨q, hq, hblank, t, ht, hc⟩ := h
  obtain ⟨t', ht', hc'⟩ := hsub t ht
  exact ⟨q, hq, hblank, t', ht', contains_trans hc' hc⟩

end Check

/-! ## Releases that say what was extracted -/

/-- A feed whose releases are named and worded like the quotes of the body. -/
def echo (releaseId : String) : Option Release := some ⟨releaseId, "", "", "", "", releaseId⟩

theorem corpus_echo (texts : List Text) :
    corpus (texts.map String.ofList) echo = texts.map normalise := by
  unfold corpus
  rw [List.filterMap_map]
  induction texts with
  | nil => rfl
  | cons t ts ih =>
    rw [List.filterMap_cons_some (show (echo ∘ String.ofList) t = some _ from rfl),
      List.map_cons, ih, List.map_cons, String.toList_ofList]

/-- With these releases a body from which anything is extracted is accepted. -/
theorem checkPolicyMapping_echo {body : Text} (h : findQuotes true 0 body ≠ []) :
    checkPolicyMapping body ((findQuotes true 0 body).map String.ofList) echo = .ok () := by
  have hne : extracted body ≠ [] := fun hnil => h (List.map_eq_nil_iff.mp hnil)
  refine checkPolicyMapping_ok_iff.mpr ⟨hne, ?_, fun q hq => ?_⟩
  · rw [corpus_echo]
    exact hne
  · rw [corpus_echo]
    exact ⟨q, hq, contains_self q⟩

/-- **When acceptance speaks for every row**: exactly if nothing is extracted, and so nothing
accepted, or if every numbered row quotes from what is extracted. -/
theorem mapping_rows_verified_iff (body : Text) :
    (∀ relatedIds lookupRelease, checkPolicyMapping body relatedIds lookupRelease = .ok () →
      ∀ line ∈ numberedRows body, Verbatim (corpus relatedIds lookupRelease) line) ↔
    findQuotes true 0 body = [] ∨ ∀ line ∈ numberedRows body, Verbatim (extracted body) line := by
  constructor
  · intro h
    by_cases hq : findQuotes true 0 body = []
    · exact Or.inl hq
    · refine Or.inr (fun line hline => ?_)
      have hv := h _ _ (checkPolicyMapping_echo hq) line hline
      rw [corpus_echo] at hv
      exact hv
  · rintro (hq | hrows) relatedIds lookupRelease hok line hline
    · have hne := (checkPolicyMapping_ok_iff.mp hok).1
      unfold extracted at hne
      rw [hq] at hne
      exact absurd rfl hne
    · exact (hrows line hline).trans (checkPolicyMapping_ok_iff.mp hok).2.2

/-! ## A row without its last bar -/

/-- Two obligations; the row of the second, which is invented, has no bar after its quote. -/
def sampleMapping : Text :=
  ("| # | Type | Quote (verbatim) | Applies to |\n|---|---|---|---|\n" ++
    "| 1 | requirement | \"raise the annual gift limit\" | member firms |\n" ++
    "| 2 | requirement | \"gifts may be given without limit\"\n").toList

def sampleRelease : Release :=
  ⟨"FINRA-RN-26-19", "FINRA", "2026-06-01", "Gifts", "",
    "The rule would raise the annual gift limit to USD 250."⟩

/-- **An invented quote is accepted.** -/
theorem unmatched_row_accepted :
    checkPolicyMapping sampleMapping ["FINRA-RN-26-19"] (fun _ => some sampleRelease) = .ok () ∧
    ∃ line ∈ numberedRows sampleMapping,
      ¬ Verbatim (corpus ["FINRA-RN-26-19"] (fun _ => some sampleRelease)) line := by
  decide +kernel

end ComplianceMcp
