import ComplianceMcp.Utf8Lines

/-! # `str.splitlines`

`str.splitlines` breaks a text at more characters than the line feed.  A text of lines is cut
into the pieces of each line (`splitlines_unlines`), and a line is one piece if none of these
characters is in it (`pieces_eq_self`). -/
namespace PyText

/-- The characters `str.splitlines` breaks at. -/
def isLineBoundary (c : Char) : Bool :=
  let n := c.toNat
  (10 ≤ n && n ≤ 13) || (28 ≤ n && n ≤ 30) || n == 0x85 || n == 0x2028 || n == 0x2029

/-- `t.splitlines()`. -/
def splitlines : Text → List Text
  | [] => []
  | '\r' :: '\n' :: r => [] :: splitlines r
  | c :: r =>
    if isLineBoundary c then [] :: splitlines r
    else match splitlines r with
      | [] => [[c]]
      | l :: ls => (c :: l) :: ls

/-! ## Pieces of a line -/

/-- What `splitlines` makes of one line. -/
def pieces (l : Text) : List Text := splitlines (l ++ ['\n'])

theorem splitlines_cons {c : Char} (hc : c ≠ '\r') (r : Text) : splitlines (c :: r) =
    if isLineBoundary c then [] :: splitlines r
    else match splitlines r with
      | [] => [[c]]
      | l :: ls => (c :: l) :: ls := by
  rw [splitlines]
  rintro r' he
  cases he
  exact absurd rfl hc

theorem splitlines_newline (r : Text) : splitlines ('\n' :: r) = [] :: splitlines r :=
  splitlines_cons (by decide) r

/-- The pieces of a line: the first begins it, and all are parts of it without a break. -/
theorem pieces_spec {l : Text} (h : '\r' ∉ l) : ∃ x xs, pieces l = x :: xs ∧ x <+: l ∧
    ∀ y ∈ pieces l, y <:+: l ∧ ∀ c ∈ y, isLineBoundary c = false := by
  unfold pieces
  induction l with
  | nil =>
    refine ⟨[], [], rfl, List.prefix_refl _, fun y hy => ?_⟩
    rw [List.nil_append, splitlines_newline] at hy
    rw [List.mem_singleton.mp hy]
    exact ⟨List.infix_refl _, fun _ hc => absurd hc List.not_mem_nil⟩
  | cons c l ih =>
    rw [List.mem_cons, not_or] at h
    obtain ⟨x, xs, hx, hpre, hall⟩ := ih h.2
    rw [List.cons_append, splitlines_cons (fun he => h.1 he.symm)]
    by_cases hc : isLineBoundary c = true
    · rw [if_pos hc]
      refine ⟨[], _, rfl, ⟨c :: l, rfl⟩, fun y hy => ?_⟩
      rcases List.mem_cons.mp hy with rfl | hy
      · exact ⟨List.nil_infix, fun _ hc => absurd hc List.not_mem_nil⟩
      · exact ⟨(hall y hy).1.trans (List.suffix_cons c l).isInfix, (hall y hy).2⟩
    · rw [if_neg hc, hx]
      rw [hx] at hall
      refine ⟨c :: x, xs, rfl, List.cons_prefix_cons.mpr ⟨rfl, hpre⟩, fun y hy => ?_⟩
      rcases List.mem_cons.mp hy with rfl | hy
      · refine ⟨(List.cons_prefix_cons.mpr ⟨rfl, hpre⟩).isInfix, fun d hd => ?_⟩
        rcases List.mem_cons.mp hd with rfl | hd
        · exact eq_false_of_ne_true hc
        · exact (hall x List.mem_cons_self).2 d hd
      · have hy' := hall y (List.mem_cons_of_mem _ hy)
        exact ⟨hy'.1.trans (List.suffix_cons c l).isInfix, hy'.2⟩

/-- A line without a break is one piece. -/
theorem pieces_eq_self {l : Text} (h : '\r' ∉ l) (hb : ∀ c ∈ l, isLineBoundary c = false) :
    pieces l = [l] := by
  unfold pieces
  induction l with
  | nil => rfl
  | cons c l ih =>
    rw [List.mem_cons, not_or] at h
    rw [List.cons_append, splitlines_cons (fun he => h.1 he.symm), hb c List.mem_cons_self,
      if_neg Bool.false_ne_true, ih h.2 (fun d hd => hb d (List.mem_cons_of_mem _ hd))]

theorem splitlines_append {l : Text} (h : '\r' ∉ l) (r : Text) :
    splitlines (l ++ '\n' :: r) = pieces l ++ splitlines r := by
  unfold pieces
  induction l with
  | nil => rw [List.nil_append, List.nil_append, splitlines_newline, splitlines_newline]; rfl
  | cons c l ih =>
    have h' := h
    rw [List.mem_cons, not_or] at h
    obtain ⟨x, xs, hx, -, -⟩ := pieces_spec h.2
    unfold pieces at hx
    rw [List.cons_append, List.cons_append, splitlines_cons (fun he => h.1 he.symm),
      splitlines_cons (fun he => h.1 he.symm), ih h.2, hx]
    split <;> rfl

theorem splitlines_unlines {ls : List Text} (h : ∀ l ∈ ls, '\r' ∉ l) :
    splitlines (unlines ls) = ls.flatMap pieces := by
  induction ls with
  | nil => rfl
  | cons l ls ih =>
    rw [unlines_cons, splitlines_append (h l List.mem_cons_self), List.flatMap_cons,
      ih (fun m hm => h m (List.mem_cons_of_mem _ hm))]

end PyText
