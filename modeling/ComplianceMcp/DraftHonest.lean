import ComplianceMcp.DraftQuotes
import Mathlib.Data.List.Induction

/-! # Honest drafts

A mapping whose rows quote the releases it names passes the check.  The pattern may stop
early, at a double quote inside the quoted text with a bar behind it; then it has found the
beginning of the quote, which is in the release as well.  Quote and release are normalised
before they are compared, and normalising keeps one text inside another (`infix_normalise`). -/
namespace ComplianceMcp

open PyText

/-! ## Parts of a normalised text -/

section Normalise

variable {u v : Text}

/-- What holds when a text grows by a character at either end holds for any part of a text. -/
theorem infix_induction {f : Text → Text} (hcons : ∀ c u, f u <:+: f (c :: u))
    (hconcat : ∀ u c, f u <:+: f (u ++ [c])) (h : u <:+: v) : f u <:+: f v := by
  obtain ⟨a, b, rfl⟩ := h
  have hleft : f u <:+: f (a ++ u) := by
    induction a with
    | nil => exact List.infix_refl _
    | cons c a ih => exact ih.trans (hcons c (a ++ u))
  refine hleft.trans ?_
  induction b using List.reverseRecOn with
  | nil => rw [List.append_nil]
  | append_singleton b c ih =>
    rw [← List.append_assoc]
    exact ih.trans (hconcat (a ++ u ++ b) c)

theorem collapse_cons (c : Char) (t : Text) : ∃ w, collapse (c :: t) = w ++ collapse t := by
  cases t with
  | nil =>
    by_cases hc : isSpace c = true
    · exact ⟨[' '], by simp [collapse, hc]⟩
    · exact ⟨[c], by simp [collapse, hc]⟩
  | cons d t =>
    by_cases hc : isSpace c = true
    · by_cases hd : isSpace d = true
      · exact ⟨[], by rw [collapse, if_pos hc]; simp only [hd, if_true, List.nil_append]⟩
      · exact
          ⟨[' '],
            by
              rw [collapse, if_pos hc]
              simp only [hd, if_false, Bool.false_eq_true, List.singleton_append]⟩
    · exact ⟨[c], by rw [collapse, if_neg hc, List.singleton_append]⟩

theorem collapse_concat (t : Text) (c : Char) : ∃ w, collapse (t ++ [c]) = collapse t ++ w := by
  induction t with
  | nil => exact ⟨collapse [c], rfl⟩
  | cons d t ih =>
    obtain ⟨w, hw⟩ := ih
    cases t with
    | nil =>
      by_cases hd : isSpace d = true
      · by_cases hc : isSpace c = true
        · exact ⟨[], by simp [collapse, hd, hc]⟩
        · exact ⟨[c], by simp [collapse, hd, hc]⟩
      · exact ⟨collapse [c], by simp [collapse, hd]⟩
    | cons e t =>
      -- the first character looks at the second only, which is the same in both
      refine ⟨w, ?_⟩
      rw [List.cons_append] at hw
      rw [List.cons_append, List.cons_append, collapse, collapse, hw]
      by_cases hd : isSpace d = true
      · rw [if_pos hd, if_pos hd]
        split <;> rfl
      · rw [if_neg hd, if_neg hd, List.cons_append]

theorem infix_collapse (h : u <:+: v) : collapse u <:+: collapse v := by
  refine infix_induction (fun c u => ?_) (fun u c => ?_) h
  · obtain ⟨w, hw⟩ := collapse_cons c u
    rw [hw]
    exact (List.suffix_append w _).isInfix
  · obtain ⟨w, hw⟩ := collapse_concat u c
    rw [hw]
    exact (List.prefix_append _ w).isInfix

/-- `t.rstrip()`. -/
def rstrip (t : Text) : Text := ((t.reverse).dropWhile isSpace).reverse

theorem rstrip_append (a t : Text) : rstrip t = [] ∨ rstrip (a ++ t) = a ++ rstrip t := by
  unfold rstrip
  rw [List.reverse_append, List.dropWhile_append]
  by_cases h : (t.reverse.dropWhile isSpace) = []
  · exact Or.inl (by rw [h, List.reverse_nil])
  · refine Or.inr ?_
    rw [if_neg (by rwa [List.isEmpty_iff]), List.reverse_append, List.reverse_reverse]

theorem rstrip_suffix (h : u <:+ v) : rstrip u <:+: rstrip v := by
  obtain ⟨a, rfl⟩ := h
  rcases rstrip_append a u with hnil | ha
  · rw [hnil]
    exact List.nil_infix
  · rw [ha]
    exact (List.suffix_append a _).isInfix

theorem rstrip_initial (t : Text) : rstrip t <+: t := by
  unfold rstrip
  rw [← List.reverse_suffix, List.reverse_reverse]
  exact List.dropWhile_suffix _

theorem rstrip_concat_space {c : Char} (hc : isSpace c = true) (t : Text) :
    rstrip (t ++ [c]) = rstrip t := by
  unfold rstrip
  rw [List.reverse_append, List.reverse_singleton, List.singleton_append,
    List.dropWhile_cons_of_pos hc]

theorem rstrip_concat {c : Char} (hc : isSpace c = false) (t : Text) :
    rstrip (t ++ [c]) = t ++ [c] := by
  unfold rstrip
  rw [List.reverse_append, List.reverse_singleton, List.singleton_append,
    List.dropWhile_cons_of_neg (by rw [hc]; exact Bool.false_ne_true), List.reverse_cons,
    List.reverse_reverse]

theorem strip_eq (t : Text) : strip t = rstrip (t.dropWhile isSpace) := rfl

theorem strip_infix (h : u <:+: v) : strip u <:+: strip v := by
  refine infix_induction (fun c u => ?_) (fun u c => ?_) h
  · rw [strip_eq, strip_eq]
    by_cases hc : isSpace c = true
    · rw [List.dropWhile_cons_of_pos hc]
    · rw [List.dropWhile_cons_of_neg hc]
      exact rstrip_suffix ((List.dropWhile_suffix _).trans (List.suffix_cons c u))
  · rw [strip_eq, strip_eq, List.dropWhile_append]
    by_cases hu : (u.dropWhile isSpace) = []
    · rw [hu]
      exact List.nil_infix
    · rw [if_neg (by rwa [List.isEmpty_iff])]
      by_cases hc : isSpace c = true
      · rw [rstrip_concat_space hc]
      · rw [rstrip_concat (Bool.eq_false_of_not_eq_true hc)]
        exact ((rstrip_initial _).trans (List.prefix_append _ _)).isInfix

/-- **Part of a text is part of it after normalising both.** -/
theorem infix_normalise (h : u <:+: v) : normalise u <:+: normalise v :=
  strip_infix (infix_collapse h)

end Normalise

/-! ## The rows of a mapping -/

/-- A row of the table as the template has it. -/
structure MappingRow where
  number : Text
  type : Text
  quote : Text
  rest : Text

/-- `| n | type | "q" | rest |`. -/
def MappingRow.line (r : MappingRow) : Text :=
  '|' :: ' ' :: (r.number ++ ' ' :: '|' :: ' ' :: (r.type ++ ' ' :: '|' :: ' ' :: '"' ::
    (r.quote ++ '"' :: ' ' :: '|' :: ' ' :: (r.rest ++ [' ', '|']))))

/-- The row is on one line, numbered, and quotes something that is not blank. -/
structure MappingRow.WellFormed (r : MappingRow) : Prop where
  numbered : r.number ≠ [] ∧ ∀ c ∈ r.number, isDecimal c = true
  type : ∀ c ∈ r.type, c ≠ '|' ∧ c ≠ '\n'
  quote : '\n' ∉ r.quote
  quotes : blank r.quote = false
  rest : '\n' ∉ r.rest

/-- The lines of the rows, with or without a line break at the end. -/
def mappingBody (rows : List MappingRow) (final : Bool) : Text :=
  ['\n'].intercalate (rows.map MappingRow.line) ++ if final then ['\n'] else []

/-- The quote of the row is a part of a known release that the draft names. -/
def MappingRow.QuotedFrom (relatedIds : List String) (lookupRelease : String → Option Release)
    (r : MappingRow) : Prop :=
  ∃ id ∈ relatedIds, ∃ release, lookupRelease id = some release ∧ r.quote <:+: release.text.toList

/-! ## What the pattern finds in a row -/

theorem closesQuote_bar (t : Text) : closesQuote ('"' :: ' ' :: '|' :: t) = some t := rfl

/-- The end of a quote inside the quoted text leaves the rest of the line. -/
theorem closesQuote_inside {q : Text} (hq : '\n' ∉ q) {t rest : Text}
    (h : closesQuote (q ++ '"' :: ' ' :: '|' :: t) = some rest) :
    ∃ r, rest = r ++ t ∧ '\n' ∉ r := by
  cases q with
  | nil =>
    rw [List.nil_append, closesQuote_bar] at h
    cases h
    exact ⟨[], rfl, List.not_mem_nil⟩
  | cons c q =>
    unfold closesQuote at h
    split at h
    case h_2 => cases h
    next d t' heq =>
    rw [List.cons_append, List.cons.injEq] at heq
    obtain ⟨rfl, rfl⟩ := heq
    split at h
    case h_2 => cases h
    next rest' hbar =>
    cases h
    rw [List.dropWhile_append] at hbar
    split at hbar
    · -- nothing but blanks before the closing quote, which is no bar
      rw [List.dropWhile_cons_of_neg (by decide)] at hbar
      cases hbar
    · cases hd : q.dropWhile isSpace with
      | nil =>
        next hne => exact absurd (List.isEmpty_iff.mpr hd) hne
      | cons b r =>
        rw [hd, List.cons_append] at hbar
        cases hbar
        refine ⟨r ++ ['"', ' ', '|'], by rw [List.append_assoc]; rfl, fun hn => ?_⟩
        rw [List.mem_append] at hn
        rcases hn with hn | hn
        · have hm : '\n' ∈ q := (List.dropWhile_suffix isSpace).subset
            (hd ▸ List.mem_cons_of_mem _ hn)
          exact hq (List.mem_cons_of_mem _ hm)
        · revert hn
          decide

/-- **The quote found in a row is where the quoted text begins**: all of it, or the part before
an end inside it. -/
theorem lazyQuote_row {q : Text} (hq : '\n' ∉ q) (hne : q ≠ []) (t : Text) : ∀ taken, ∃ p r,
    lazyQuote taken (q ++ '"' :: ' ' :: '|' :: t) = some (taken.reverse ++ p, r ++ t) ∧ p <+: q ∧
    '\n' ∉ r := by
  induction q with
  | nil => exact absurd rfl hne
  | cons c q ih =>
    intro taken
    rw [List.mem_cons, not_or] at hq
    rw [List.cons_append, lazyQuote, if_neg (fun h => hq.1 h.symm)]
    cases hc : closesQuote (q ++ '"' :: ' ' :: '|' :: t) with
    | some rest =>
      obtain ⟨r, rfl, hr⟩ := closesQuote_inside hq.2 hc
      refine ⟨[c], r, ?_, ⟨q, rfl⟩, hr⟩
      simp only [List.reverse_cons]
    | none =>
      have hq' : q ≠ [] := by
        rintro rfl
        rw [List.nil_append, closesQuote_bar] at hc
        cases hc
      obtain ⟨p, r, hl, hp, hr⟩ := ih hq.2 hq' (c :: taken)
      refine ⟨c :: p, r, ?_, List.cons_prefix_cons.mpr ⟨rfl, hp⟩, hr⟩
      simp only [hl, List.reverse_cons, List.append_assoc, List.singleton_append]

theorem afterDigits_append {n t : Text} (hn : n ≠ []) (hd : ∀ c ∈ n, isDecimal c = true) :
    afterDigits (n ++ ' ' :: '|' :: t) = some ('|' :: t) := by
  unfold afterDigits
  rw [List.takeWhile_append_of_pos hd, List.dropWhile_append_of_pos hd,
    List.takeWhile_cons_of_neg (by decide), List.dropWhile_cons_of_neg (by decide),
    List.append_nil, if_neg hn]
  rfl

/-- The digits of a number are no white space. -/
theorem isSpace_of_isDecimal {c : Char} (h : isDecimal c = true) : isSpace c = false := by
  by_contra hs
  rw [isSpace_not_decimal (Bool.eq_true_of_not_eq_false hs)] at h
  cases h

theorem afterBar_bar (t : Text) : afterBar ('|' :: t) = some (t.dropWhile isSpace) := rfl

/-- The search for the next bar passes over a text without one. -/
theorem dropWhile_to_bar {u : Text} (hu : '|' ∉ u) (t : Text) :
    ((u ++ '|' :: t).dropWhile isSpace).dropWhile (· ≠ '|') = '|' :: t := by
  have hpass : ∀ w : Text, '|' ∉ w → (w ++ '|' :: t).dropWhile (· ≠ '|') = '|' :: t := by
    intro w hw
    rw [List.dropWhile_append_of_pos (fun c hc => decide_eq_true (ne_of_mem_of_not_mem hc hw)),
      List.dropWhile_cons_of_neg (by decide)]
  rw [List.dropWhile_append]
  split
  · rw [List.dropWhile_cons_of_neg (by decide)]
    exact hpass [] List.not_mem_nil
  · exact hpass _ (fun hm => hu ((List.dropWhile_suffix isSpace).subset hm))

/-- What the pattern takes of a row that more may follow. -/
theorem matchQuoteCell_row {r : MappingRow} (hr : r.WellFormed) (after : Text) : ∃ p rest,
    matchQuoteCell (r.line ++ after) = some (p, rest ++ after) ∧ p <+: r.quote ∧ '\n' ∉ rest := by
  have hne : r.quote ≠ [] := by
    intro hnil
    have hb := hr.quotes
    rw [hnil] at hb
    cases hb
  obtain ⟨p, rest, hl, hp, hrest⟩ :=
    lazyQuote_row hr.quote hne (' ' :: (r.rest ++ [' ', '|']) ++ after) []
  refine ⟨p, rest ++ ' ' :: (r.rest ++ [' ', '|']), ?_, hp, fun hn => ?_⟩
  · have hline : r.line ++ after = '|' :: ' ' ::
      (r.number ++ ' ' :: '|' :: (' ' :: (r.type ++ [' ']) ++ '|' ::
        ' ' :: '"' :: (r.quote ++ '"' :: ' ' :: '|' ::
          (' ' :: (r.rest ++ [' ', '|']) ++ after)))) := by
      simp [MappingRow.line]
    have hnumber : ∀ t : Text, (' ' :: (r.number ++ t)).dropWhile isSpace = r.number ++ t := by
      intro t
      cases hn : r.number with
      | nil => exact absurd hn hr.numbered.1
      | cons c n =>
        have hc : isSpace c = false :=
          isSpace_of_isDecimal (hr.numbered.2 c (hn ▸ List.mem_cons_self))
        rw [List.dropWhile_cons_of_pos (by decide), List.cons_append,
          List.dropWhile_cons_of_neg (by rw [hc]; exact Bool.false_ne_true)]
    have htype : '|' ∉ ' ' :: (r.type ++ [' ']) := by
      intro hm
      simp only [List.mem_cons, List.mem_append, List.not_mem_nil, or_false, Char.reduceEq,
        false_or] at hm
      exact (hr.type '|' hm).1 rfl
    rw [hline, matchQuoteCell, afterBar_bar, hnumber]
    simp only [bind, Option.bind, afterDigits_append hr.numbered.1 hr.numbered.2, afterBar_bar,
      dropWhile_to_bar htype]
    rw [List.dropWhile_cons_of_pos (by decide), List.dropWhile_cons_of_neg (by decide)]
    refine hl.trans ?_
    rw [List.reverse_nil, List.nil_append, List.append_assoc]
  · simp only [List.mem_append, List.mem_cons, List.not_mem_nil, or_false, Char.reduceEq,
      false_or] at hn
    exact hn.elim hrest hr.rest

/-! ## What the pattern finds in a body -/

/-- Nothing is found in the rest of a line. -/
theorem findQuotes_rest {u : Text} (hu : '\n' ∉ u) (after : Text) : ∀ k, k ≤ u.length →
    findQuotes false k (u ++ after) = findQuotes false 0 after := by
  induction u with
  | nil =>
    intro k hk
    rw [Nat.le_zero.mp hk, List.nil_append]
  | cons c u ih =>
    intro k hk
    rw [List.mem_cons, not_or] at hu
    have hc : decide (c = '\n') = false := decide_eq_false (fun h => hu.1 h.symm)
    cases k with
    | zero =>
      simp only [List.cons_append, findQuotes, hc, Bool.false_eq_true, if_false]
      exact ih hu.2 0 (Nat.zero_le _)
    | succ k =>
      simp only [List.cons_append, findQuotes, hc]
      exact ih hu.2 k (Nat.le_of_succ_le_succ hk)

/-- A row is on one line. -/
theorem MappingRow.WellFormed.line_eq {r : MappingRow} (hr : r.WellFormed) :
    ∃ l, r.line = '|' :: l ∧ '\n' ∉ l := by
  refine ⟨_, rfl, ?_⟩
  have hn : '\n' ∉ r.number := fun h => absurd (hr.numbered.2 _ h) (by decide)
  have ht : '\n' ∉ r.type := fun h => (hr.type _ h).2 rfl
  simp only [List.mem_cons, List.mem_append, List.not_mem_nil, or_false, Char.reduceEq,
    false_or, not_or]
  exact ⟨hn, ht, hr.quote, hr.rest⟩

/-- One quote is found in a row, and the search goes on behind it. -/
theorem findQuotes_row {r : MappingRow} (hr : r.WellFormed) (after : Text) : ∃ p,
    findQuotes true 0 (r.line ++ after) = p :: findQuotes false 0 after ∧ p <+: r.quote := by
  obtain ⟨p, rest, hm, hp, hrest⟩ := matchQuoteCell_row hr after
  refine ⟨p, ?_, hp⟩
  obtain ⟨l, hl, hnl⟩ := hr.line_eq
  rw [hl, List.cons_append] at hm ⊢
  have hlen : (l ++ after).length - (rest ++ after).length = l.length - rest.length := by
    rw [List.length_append, List.length_append]
    omega
  have hbar : decide ('|' = '\n') = false := by decide
  rw [findQuotes]
  simp only [if_true, hm, hlen, hbar]
  rw [findQuotes_rest hnl after _ (Nat.sub_le _ _)]

/-- The quotes found in a body begin the quotes of its rows, one for each. -/
theorem findQuotes_body (rows : List MappingRow) (hrows : ∀ r ∈ rows, r.WellFormed) (final : Bool) :
    ∃ quotes, findQuotes true 0 (mappingBody rows final) = quotes ∧
      List.Forall₂ (fun p r => p <+: MappingRow.quote r) quotes rows := by
  induction rows with
  | nil => cases final <;> exact ⟨[], rfl, List.Forall₂.nil⟩
  | cons r rows ih =>
    obtain ⟨quotes, hq, hall⟩ := ih (fun s hs => hrows s (List.mem_cons_of_mem _ hs))
    have hr := hrows r List.mem_cons_self
    cases rows with
    | nil =>
      obtain ⟨p, hp, hpre⟩ := findQuotes_row hr (if final then ['\n'] else [])
      refine ⟨[p], ?_, List.Forall₂.cons hpre List.Forall₂.nil⟩
      have hbody : mappingBody [r] final = r.line ++ if final then ['\n'] else [] := by
        unfold mappingBody
        simp [List.intercalate]
      rw [hbody, hp]
      cases final <;> rfl
    | cons r' rows =>
      obtain ⟨p, hp, hpre⟩ := findQuotes_row hr ('\n' :: mappingBody (r' :: rows) final)
      refine ⟨p :: quotes, ?_, List.Forall₂.cons hpre hall⟩
      have hbody : mappingBody (r :: r' :: rows) final = r.line ++ '\n' :: mappingBody
          (r' :: rows) final := by
        unfold mappingBody
        simp [List.intercalate]
      rw [hbody, hp, ← hq]
      rfl

/-- **An honest mapping passes**: every row quotes a part of a known release that the draft
names. -/
theorem honest_mapping_passes (rows : List MappingRow) (hne : rows ≠ []) (final : Bool)
    (relatedIds : List String) (lookupRelease : String → Option Release)
    (hrows : ∀ r ∈ rows, r.WellFormed ∧ r.QuotedFrom relatedIds lookupRelease) :
    checkPolicyMapping (mappingBody rows final) relatedIds lookupRelease = .ok () := by
  obtain ⟨quotes, hq, hall⟩ := findQuotes_body rows (fun r hr => (hrows r hr).1) final
  have hnormal : extracted (mappingBody rows final) = quotes.map normalise := by
    unfold extracted
    rw [hq]
  have hverbatim : ∀ q ∈ quotes, ∃ t ∈ corpus relatedIds lookupRelease, contains t
      (normalise q) = true := by
    intro q hmem
    obtain ⟨i, hi, rfl⟩ := List.getElem_of_mem hmem
    have hi' : i < rows.length := hall.length_eq ▸ hi
    have hpre : quotes[i] <+: rows[i].quote := hall.get hi hi'
    obtain ⟨id, hid, release, hrelease, hinf⟩ := (hrows rows[i] (List.getElem_mem hi')).2
    refine ⟨normalise release.text.toList, ?_,
      contains_iff.mpr (infix_normalise (hpre.isInfix.trans hinf))⟩
    exact List.mem_map.mpr ⟨release, List.mem_filterMap.mpr ⟨id, hid, hrelease⟩, rfl⟩
  have hquotes : quotes ≠ [] := by
    rintro rfl
    cases hall
    exact hne rfl
  obtain ⟨q, hmem⟩ := List.exists_mem_of_ne_nil quotes hquotes
  obtain ⟨t, ht, -⟩ := hverbatim q hmem
  refine checkPolicyMapping_ok_iff.mpr ⟨?_, List.ne_nil_of_mem ht, ?_⟩
  · rw [hnormal]
    exact fun h => hquotes (List.map_eq_nil_iff.mp h)
  · rw [hnormal]
    intro x hx
    obtain ⟨q, hmem, rfl⟩ := List.mem_map.mp hx
    exact hverbatim q hmem

/-- A row that quotes across white space of the release, with a quotation in it. -/
def sampleRow : MappingRow where
  number := ['1']
  type := "requirement".toList
  quote := " the \"limit\" | of USD 250 ".toList
  rest := "members".toList

def sampleNotice : Release :=
  ⟨"FINRA-RN-26-20", "FINRA", "2026-07-01", "Gifts", "",
    "Raise  the \"limit\" | of USD 250  per year."⟩

theorem honest_mapping_passes_sample :
    checkPolicyMapping (mappingBody [sampleRow, sampleRow] true) ["FINRA-RN-26-20"]
      (fun _ => some sampleNotice) =
      .ok () := by
  refine honest_mapping_passes [sampleRow, sampleRow] (List.cons_ne_nil _ _) true ["FINRA-RN-26-20"]
    (fun _ => some sampleNotice) (fun r hr => ?_)
  have hr : r = sampleRow := by
    simp only [List.mem_cons, List.not_mem_nil, or_false, or_self] at hr
    exact hr
  subst hr
  have htype : sampleRow.type.all (fun c => decide (c ≠ '|' ∧ c ≠ '\n')) = true := by decide
  refine ⟨⟨⟨List.cons_ne_nil _ _, fun c hc => ?_⟩,
    fun c hc => of_decide_eq_true (List.all_eq_true.mp htype c hc), by decide, by
      decide, by decide⟩, "FINRA-RN-26-20", List.mem_cons_self, sampleNotice, rfl,
      contains_iff.mp (by decide)⟩
  rw [List.mem_singleton.mp hc]
  decide

end ComplianceMcp
