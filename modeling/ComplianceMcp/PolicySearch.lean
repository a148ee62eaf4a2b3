import ComplianceMcp.MaximalRuns
import ComplianceMcp.PolicyFiles

/-! # What a search finds

A policy body is cut into sections at its headings, and a search ranks the sections of the current
versions by how often they have the terms of the query.  Nothing of a body is lost on the way
(`splits_whole`), and a search gives the best of the sections that mention a term
(`search_best`). -/
namespace ComplianceMcp

open PyText MaximalRuns
open scoped List

/-! ## The lines of a body -/

/-- `line.startswith("## ")`. -/
def isHeading (line : Text) : Bool := "## ".toList.isPrefixOf line

/-- A heading and the lines under it. -/
structure Block where
  heading : Text
  lines : List Text

/-- Some line is not blank. -/
def Block.hasText (b : Block) : Bool := b.lines.any (fun l => !blank l)

/-- A heading line and the lines down to the next. -/
structure HeadedLines where
  line : Text
  rest : List Text

/-- The lines of a body are some lines without a heading, and then blocks that each start at
one. -/
structure LaidOut (ls preamble : List Text) (headed : List HeadedLines) : Prop where
  whole : ls = preamble ++ headed.flatMap (fun b => b.line :: b.rest)
  preamble : ∀ l ∈ preamble, isHeading l = false
  headings : ∀ b ∈ headed, isHeading b.line = true
  rest : ∀ b ∈ headed, ∀ l ∈ b.rest, isHeading l = false

/-- The lines under the headings they belong to. -/
def blocksOf (preamble : List Text) (headed : List HeadedLines) : List Block :=
  ⟨"Preamble".toList, preamble⟩ :: headed.map (fun b => ⟨strip (b.line.drop 3), b.rest⟩)

/-- The section has the lines of the block, up to blanks at its ends. -/
structure SectionOf (b : Block) (s : PolicySection) : Prop where
  heading : s.heading.toList = b.heading
  text : ∃ before after, blank before = true ∧ blank after = true ∧
    List.intercalate ['\n'] b.lines = before ++ (s.text.toList ++ after)
  trimmed : (∀ c ∈ s.text.toList.head?, isSpace c = false) ∧
    ∀ c ∈ s.text.toList.getLast?, isSpace c = false

/-- **Nothing is lost and nothing is twice**: the lines are laid out in blocks, and the sections are
the blocks with a line that is not blank, in order. -/
def SplitsWhole (ls : List Text) (sections : List PolicySection) : Prop :=
  (∀ l ∈ ls, '\n' ∉ l) ∧ ∃ preamble headed, LaidOut ls preamble headed ∧
    List.Forall₂ SectionOf ((blocksOf preamble headed).filter Block.hasText) sections

theorem splitlines_no_boundary (t : Text) :
    ∀ l ∈ splitlines t, ∀ c ∈ l, isLineBoundary c = false := by
  fun_induction splitlines t with
  | case1 => exact fun l hl => absurd hl List.not_mem_nil
  | case2 r ih => exact List.forall_mem_cons.mpr ⟨fun c hc => absurd hc List.not_mem_nil, ih⟩
  | case3 c r _ h ih => exact List.forall_mem_cons.mpr ⟨fun c hc => absurd hc List.not_mem_nil, ih⟩
  | case4 c r _ h hnil ih =>
    rw [Bool.not_eq_true] at h
    exact List.forall_mem_singleton.mpr (List.forall_mem_singleton.mpr h)
  | case5 c r _ h l ls hcons ih =>
    rw [Bool.not_eq_true] at h
    rw [hcons] at ih
    obtain ⟨hl, hls⟩ := List.forall_mem_cons.mp ih
    exact List.forall_mem_cons.mpr ⟨List.forall_mem_cons.mpr ⟨h, hl⟩, hls⟩

theorem newline_not_mem_splitlines {t l : Text} (h : l ∈ splitlines t) : '\n' ∉ l := by
  intro hc
  have hb := splitlines_no_boundary t l h '\n' hc
  revert hb
  decide

theorem sectionOf_flush (b : Block) :
    List.Forall₂ SectionOf ([b].filter Block.hasText) (flushSection b.heading b.lines) := by
  unfold flushSection
  show List.Forall₂ SectionOf _ (if b.hasText = true then _ else _)
  by_cases h : b.hasText = true
  · rw [List.filter_cons_of_pos h, if_pos h]
    refine .cons ⟨String.toList_ofList, ?_, ?_⟩ .nil
    · rw [String.toList_ofList]
      exact strip_ends _
    · rw [String.toList_ofList]
      exact ⟨strip_head _, strip_last _⟩
  · rw [List.filter_cons_of_neg h, if_neg h]
    exact .nil

/-- The loop lays out the rest of the lines and flushes each block. -/
theorem splitSections_layout (heading : Text) (acc ls : List Text) :
    ∃ first headed, LaidOut ls first headed ∧
    splitSections heading acc ls = flushSection heading (acc ++ first) ++
      headed.flatMap (fun b => flushSection (strip (b.line.drop 3)) b.rest) := by
  induction ls generalizing heading acc with
  | nil => exact ⟨[], [], ⟨rfl, by simp, by simp, by simp⟩, by simp [splitSections]⟩
  | cons line rest ih =>
    by_cases h : isHeading line = true
    · obtain ⟨first, headed, ⟨hw, hf, hh, hr⟩, he⟩ := ih (strip (line.drop 3)) []
      refine ⟨[], ⟨line, first⟩ :: headed, ⟨?_, by simp, ?_, ?_⟩, ?_⟩
      · rw [hw, List.flatMap_cons, List.nil_append, List.cons_append]
      · exact List.forall_mem_cons.mpr ⟨h, hh⟩
      · exact List.forall_mem_cons.mpr ⟨hf, hr⟩
      · have hline : "## ".toList.isPrefixOf line = true := h
        rw [splitSections, if_pos hline, he, List.append_nil, List.nil_append, List.flatMap_cons]
    · obtain ⟨first, headed, ⟨hw, hf, hh, hr⟩, he⟩ := ih heading (acc ++ [line])
      refine ⟨line :: first, headed, ⟨by rw [hw, List.cons_append], ?_, hh, hr⟩, ?_⟩
      · exact List.forall_mem_cons.mpr ⟨Bool.eq_false_iff.mpr h, hf⟩
      · have hplain : ¬ "## ".toList.isPrefixOf line = true := h
        rw [splitSections, if_neg hplain, he, List.append_assoc, List.singleton_append]

/-- **Nothing of a body is lost in its sections.** -/
theorem splits_whole (body : Text) :
    SplitsWhole (splitlines body) (splitSections "Preamble".toList [] (splitlines body)) := by
  refine ⟨fun l hl => newline_not_mem_splitlines hl, ?_⟩
  obtain ⟨preamble, headed, hlaid, he⟩ :=
    splitSections_layout "Preamble".toList [] (splitlines body)
  refine ⟨preamble, headed, hlaid, ?_⟩
  have hflush : ∀ bs : List Block, List.Forall₂ SectionOf
      (bs.filter Block.hasText) (bs.flatMap (fun b => flushSection b.heading b.lines)) := by
    intro bs
    induction bs with
    | nil => exact .nil
    | cons b bs ih =>
      rw [← List.singleton_append, List.filter_append, List.flatMap_append, List.flatMap_singleton]
      exact List.rel_append (sectionOf_flush b) ih
  have hblocks := hflush (blocksOf preamble headed)
  rw [blocksOf, List.flatMap_cons, List.flatMap_map] at hblocks
  rw [he, List.nil_append]
  exact hblocks

/-! ## Terms -/

/-- **The terms of a query are its maximal runs** of lower case letters and digits. -/
theorem mem_findTerms {run t x : Text} (hrun : run.all termChar = true) :
    x ∈ findTerms run t ↔ IsRun termChar (run.reverse ++ t) x := by
  induction t generalizing run with
  | nil =>
    rw [List.append_nil, isRun_of_all (by rw [List.all_reverse]; exact hrun), findTerms]
    by_cases h : run = []
    · simp [h]
    · simp [h]
  | cons c t ih =>
    rw [findTerms]
    by_cases hc : termChar c = true
    · have hcons : (c :: run).all termChar = true := by rw [List.all_cons, hc, hrun, Bool.and_true]
      rw [if_pos hc, ih hcons, List.reverse_cons, List.append_assoc, List.singleton_append]
    · have hbreak := isRun_append_break (Bool.eq_false_iff.mpr hc) run.reverse t x
      have hleft := @isRun_of_all _ termChar run.reverse x (by rw [List.all_reverse]; exact hrun)
      have hright := @ih [] rfl
      rw [List.reverse_nil, List.nil_append] at hright
      rw [if_neg hc, hbreak, hleft]
      by_cases h : run = []
      · rw [if_pos h, hright]
        simp [h]
      · rw [if_neg h, List.mem_cons, hright]
        simp [h]

/-- A term is counted where it occurs. -/
theorem countTerm_ne_zero {term : Text} (hne : term ≠ []) {t : Text} :
    countTerm term 0 t ≠ 0 ↔ term <:+: t := by
  have hskip : ∀ (t : Text) (k : Nat), countTerm term k t ≠ 0 → term <:+: t := by
    intro t
    induction t with
    | nil =>
      intro k h
      cases k <;> exact absurd rfl h
    | cons c t ih =>
      intro k h
      rw [List.infix_cons_iff]
      cases k with
      | succ k => exact .inr (ih k h)
      | zero =>
        rw [countTerm] at h
        by_cases hp : term.isPrefixOf (c :: t) = true
        · exact .inl (List.isPrefixOf_iff_prefix.mp hp)
        · rw [if_neg hp] at h
          exact .inr (ih 0 h)
  refine ⟨hskip t 0, fun h => ?_⟩
  induction t with
  | nil => exact absurd (List.infix_nil.mp h) hne
  | cons c t ih =>
    rw [countTerm]
    by_cases hp : term.isPrefixOf (c :: t) = true
    · rw [if_pos hp]
      omega
    · rw [if_neg hp]
      rcases List.infix_cons_iff.mp h with h | h
      · exact absurd (List.isPrefixOf_iff_prefix.mpr h) hp
      · exact ih h

/-! ## The sections a query finds -/

section Search

variable (rt : Runtime) (repo : PolicyRepository) (query : String)

/-- The terms of a query. -/
def queryTerms : List Text := (findTerms [] (rt.lower query).toList).filter (fun t => 2 < t.length)

/-- Heading or text have, ignoring case, a term of at least three characters. -/
def Mentions (s : PolicySection) : Prop :=
  ∃ term : Text, IsRun termChar (rt.lower query).toList term ∧ 3 ≤ term.length ∧
    (term <:+: (rt.lower s.heading).toList ∨ term <:+: (rt.lower s.text).toList)

theorem mem_queryTerms {term : Text} :
    term ∈ queryTerms rt query ↔ IsRun termChar (rt.lower query).toList term ∧ 3 ≤ term.length := by
  rw [queryTerms, List.mem_filter, mem_findTerms rfl, List.reverse_nil, List.nil_append,
    decide_eq_true_eq]
  exact Iff.rfl

/-- **A section scores exactly if it mentions a term.** -/
theorem score_ne_zero (hlower : ∀ a b, rt.lower (a ++ " " ++ b) = rt.lower a ++ " " ++ rt.lower b)
    (s : PolicySection) : score rt (queryTerms rt query) s ≠ 0 ↔ Mentions rt query s := by
  have hspace : ∀ term ∈ queryTerms rt query, ' ' ∉ term ∧ term ≠ [] := by
    intro term hterm
    have hrun := ((mem_queryTerms rt query).mp hterm).1
    refine ⟨fun hmem => ?_, hrun.nonempty⟩
    have h := List.all_eq_true.mp hrun.all ' ' hmem
    revert h
    decide
  have hhay : (rt.lower (s.heading ++ " " ++ s.text)).toList =
      (rt.lower s.heading).toList ++ ' ' :: (rt.lower s.text).toList := by
    rw [hlower, String.toList_append, String.toList_append, List.append_assoc]
    rfl
  have hcount : ∀ term ∈ queryTerms rt query, countTerm term 0
    (rt.lower (s.heading ++ " " ++ s.text)).toList ≠ 0 ↔
      term <:+: (rt.lower s.heading).toList ∨ term <:+: (rt.lower s.text).toList := by
    intro term hterm
    obtain ⟨hs, hne⟩ := hspace term hterm
    rw [countTerm_ne_zero hne, hhay, infix_append_break hs hne]
  have hsum : score rt (queryTerms rt query) s ≠ 0 ↔
      ∃ term ∈ queryTerms rt query, countTerm term 0
        (rt.lower (s.heading ++ " " ++ s.text)).toList ≠ 0 := by
    rw [score, ← Nat.pos_iff_ne_zero, List.sum_pos_iff_exists_pos_nat]
    simp [Nat.pos_iff_ne_zero]
  rw [hsum]
  constructor
  · rintro ⟨term, hterm, h⟩
    obtain ⟨hrun, hlen⟩ := (mem_queryTerms rt query).mp hterm
    exact ⟨term, hrun, hlen, (hcount term hterm).mp h⟩
  · rintro ⟨term, hrun, hlen, h⟩
    have hterm := (mem_queryTerms rt query).mpr ⟨hrun, hlen⟩
    exact ⟨term, hterm, (hcount term hterm).mpr h⟩

/-- The sections of the current versions. -/
def currentSections : List (Policy × PolicySection) :=
  repo.current.flatMap (fun d => d.sections.map (fun s => (d, s)))

/-- Those that mention a term. -/
noncomputable def mentioned : List (Policy × PolicySection) := by
  classical
  exact (currentSections repo).filter (fun x => Mentions rt query x.2)

/-- The hit says what the section says, and where it stands. -/
structure Cites (d : Policy) (s : PolicySection) (h : PolicyHit) : Prop where
  heading : h.heading = s.heading
  text : h.text = s.text
  version : h.policyId = d.policyId ∧ h.version = d.version ∧ h.effectiveDate = d.effectiveDate
  citation : h.citation = h.policyId ++ " v" ++ h.version ++ " (effective " ++ h.effectiveDate ++
    "), section '" ++ h.heading ++ "', source " ++ d.source

/-- The hits are the best of the sections that mention a term, as many as there may be, each as it
is cited. -/
def FindsBest (limit : Nat) (hits : List PolicyHit) : Prop :=
  ∃ chosen omitted, (chosen ++ omitted).Perm (mentioned rt repo query) ∧
    chosen.length = min limit (mentioned rt repo query).length ∧
    (∀ x ∈ omitted, ∀ y ∈ chosen, score rt (queryTerms rt query) x.2 ≤ score rt
      (queryTerms rt query) y.2) ∧
    List.Forall₂ (fun x h => Cites x.1 x.2 h) chosen hits

/-- The order of the sections behind the hits. -/
def rankGE (x y : Policy × PolicySection) : Prop :=
  score rt (queryTerms rt query) y.2 ≤ score rt (queryTerms rt query) x.2

instance : DecidableRel (rankGE rt query) :=
  fun x y => inferInstanceAs
    (Decidable (score rt (queryTerms rt query) y.2 ≤ score rt (queryTerms rt query) x.2))

instance : Std.Total (rankGE rt query) := ⟨fun _ _ => Nat.le_total _ _⟩

instance : IsTrans (Policy × PolicySection) (rankGE rt query) :=
  ⟨fun _ _ _ h h' => Nat.le_trans h' h⟩

/-- The search ranks the sections and then makes hits of them. -/
theorem search_eq (limit : Nat) : repo.search rt query limit =
    ((((currentSections repo).filter
      (fun x => decide (score rt (queryTerms rt query) x.2 ≠ 0))).insertionSort
      (rankGE rt query)).take limit).map (fun x => x.1.hit x.2) := by
  let f : Policy × PolicySection → Nat × PolicyHit :=
    fun x => (score rt (queryTerms rt query) x.2, x.1.hit x.2)
  have hscored : repo.current.flatMap (fun d =>
      (d.sections.filter (fun s => score rt (queryTerms rt query) s ≠ 0)).map
        (fun s => (score rt (queryTerms rt query) s, d.hit s))) =
      ((currentSections repo).filter (fun x => decide (score rt (queryTerms rt query) x.2 ≠ 0))).map
        f := by
    rw [currentSections, List.filter_flatMap, List.map_flatMap]
    refine List.flatMap_congr (fun d _ => ?_)
    rw [List.filter_map, List.map_map]
    rfl
  show ((List.insertionSort scoreGE (repo.current.flatMap _)).take limit).map Prod.snd = _
  rw [← queryTerms, hscored, ← List.map_insertionSort (r := rankGE rt query) (s := scoreGE) f _
    (fun _ _ _ _ => Iff.rfl), ← List.map_take, List.map_map]
  rfl

theorem mentioned_eq (hlower : ∀ a b, rt.lower (a ++ " " ++ b) = rt.lower a ++ " " ++ rt.lower b) :
    mentioned rt repo query =
      (currentSections repo).filter (fun x => decide (score rt (queryTerms rt query) x.2 ≠ 0)) := by
  classical
  refine List.filter_congr (fun x _ => ?_)
  exact decide_eq_decide.mpr (score_ne_zero rt query hlower x.2).symm

/-- **A search gives the best of the sections that mention a term.** -/
theorem search_best (hlower : ∀ a b, rt.lower (a ++ " " ++ b) = rt.lower a ++ " " ++ rt.lower b)
    (limit : Nat) :
    FindsBest rt repo query limit (repo.search rt query limit) := by
  obtain ⟨ranked, hranked⟩ : ∃ ranked, ranked = (mentioned rt repo query).insertionSort
      (rankGE rt query) := ⟨_, rfl⟩
  have hperm : ranked.Perm (mentioned rt repo query) := hranked ▸ List.perm_insertionSort ..
  have hsorted : ranked.Pairwise (rankGE rt query) := hranked ▸ List.pairwise_insertionSort ..
  rw [search_eq, ← mentioned_eq rt repo query hlower, ← hranked]
  refine ⟨ranked.take limit, ranked.drop limit, ?_, ?_, ?_, ?_⟩
  · rw [List.take_append_drop]
    exact hperm
  · rw [List.length_take, hperm.length_eq]
  · rw [← List.take_append_drop limit ranked] at hsorted
    intro x hx y hy
    exact (List.pairwise_append.mp hsorted).2.2 y hy x hx
  · rw [List.forall₂_map_right_iff, List.forall₂_same]
    intro x _
    exact ⟨rfl, rfl, ⟨rfl, rfl, rfl⟩, rfl⟩

end Search

/-- **Policies are split and searched whole.**  For every body, every repository and every query:
nothing of the body is lost in its sections, and the hits are the best of the sections of current
versions that mention a term of the query, as many as the limit lets through, each with what its
citation names. -/
theorem policies_searched_whole (rt : Runtime)
    (hlower : ∀ a b, rt.lower (a ++ " " ++ b) = rt.lower a ++ " " ++ rt.lower b) :
    (∀ body, SplitsWhole (splitlines body) (splitSections "Preamble".toList [] (splitlines body))) ∧
    ∀ (repo : PolicyRepository) (query : String) (limit : Nat),
      FindsBest rt repo query limit (repo.search rt query limit) :=
  ⟨splits_whole, fun repo query limit => search_best rt repo query hlower limit⟩

/-- Lower case letters do not depend on what stands on the other side of a space. -/
theorem python_lower_append (a b : String) :
    Runtime.python.lower (a ++ " " ++ b) = Runtime.python.lower a ++ " " ++
      Runtime.python.lower b := by
  show String.ofList ((a ++ " " ++ b).toList.map Char.toLower) = _
  rw [String.toList_append, String.toList_append, List.map_append, List.map_append,
    String.ofList_append, String.ofList_append]
  rfl

theorem gifts_searched_whole :
    SplitsWhole (splitlines "Scope\n## Limits\nNo gift above USD 100.\n".toList)
      (splitSections "Preamble".toList []
        (splitlines "Scope\n## Limits\nNo gift above USD 100.\n".toList)) ∧
    FindsBest Runtime.python sampleRepository "gift limits" 1
      (sampleRepository.search Runtime.python "gift limits" 1) :=
  ⟨(policies_searched_whole Runtime.python python_lower_append).1 _,
    (policies_searched_whole Runtime.python python_lower_append).2 sampleRepository "gift limits" 1⟩

example : splitSections "Preamble".toList []
    (splitlines "Scope\n## Limits\nNo gift above USD 100.\n".toList) =
    [⟨"Preamble", "Scope"⟩, ⟨"Limits", "No gift above USD 100."⟩] := by decide +kernel

end ComplianceMcp
