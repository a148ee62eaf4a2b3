import Mathlib.Data.List.Infix

/-! # Maximal runs

The pieces of a list that a predicate holds on and that cannot be made longer.  Everything about
them follows from two facts: an element the predicate fails on separates the runs on its sides
(`isRun_append_break`), and a list the predicate holds on has no run but itself
(`isRun_of_all`). -/
namespace MaximalRuns

variable {α : Type*} (p : α → Bool)

/-- The run is a piece of the list, with no element beside it that the predicate holds on. -/
structure IsRun (l run : List α) : Prop where
  nonempty : run ≠ []
  all : run.all p = true
  maximal : ∃ before after, l = before ++ (run ++ after) ∧ (∀ c ∈ before.getLast?, p c = false) ∧
    ∀ c ∈ after.head?, p c = false

variable {p}

theorem isRun_of_all {l run : List α} (hl : l.all p = true) : IsRun p l run ↔ run = l ∧ l ≠ [] := by
  constructor
  · rintro ⟨hne, -, before, after, rfl, hb, ha⟩
    rw [List.all_append, List.all_append, Bool.and_eq_true, Bool.and_eq_true] at hl
    have hbefore : before = [] := by
      by_contra hbne
      have h := hb _ (List.getLast?_eq_some_getLast hbne)
      rw [List.all_eq_true.mp hl.1 _ (List.getLast_mem hbne)] at h
      cases h
    have hafter : after = [] := by
      cases after with
      | nil => rfl
      | cons c after =>
        have h := ha c rfl
        rw [List.all_eq_true.mp hl.2.2 c (List.mem_cons_self ..)] at h
        cases h
    subst hbefore hafter
    rw [List.nil_append, List.append_nil]
    exact ⟨rfl, hne⟩
  · rintro ⟨rfl, hne⟩
    exact ⟨hne, hl, [], [], (List.append_nil _).symm, by simp, by simp⟩

/-- **A break separates the runs on its sides.** -/
theorem isRun_append_break {c : α} (hc : p c = false) (u t run : List α) :
    IsRun p (u ++ c :: t) run ↔ IsRun p u run ∨ IsRun p t run := by
  constructor
  · rintro ⟨hne, hall, before, after, hs, hb, ha⟩
    have hmem : c ∉ run := by
      intro h
      rw [List.all_eq_true.mp hall c h] at hc
      cases hc
    rcases List.append_eq_append_iff.mp hs with ⟨a, rfl, hrest⟩ | ⟨a, rfl, hrest⟩
    · -- the run starts after the break
      cases a with
      | nil =>
        cases run with
        | nil => exact absurd rfl hne
        | cons d run =>
          cases (List.cons.inj hrest).1
          exact absurd (List.mem_cons_self ..) hmem
      | cons d a =>
        obtain ⟨rfl, rfl⟩ := List.cons.inj hrest
        refine .inr ⟨hne, hall, a, after, rfl, fun x hx => hb x ?_, ha⟩
        cases a with
        | nil => cases hx
        | cons y a =>
          rw [List.getLast?_append]
          exact (Option.or_of_isSome (by simp)).trans hx
    · -- the run starts before the break, and so ends before it
      rcases List.append_eq_append_iff.mp hrest with ⟨r, rfl, rfl⟩ | ⟨r, rfl, hr⟩
      · refine .inl ⟨hne, hall, before, r, rfl, hb, fun x hx => ha x ?_⟩
        cases r with
        | nil => cases hx
        | cons y r => exact hx
      · cases r with
        | nil =>
          rw [List.append_nil] at hmem hall hne ⊢
          exact .inl ⟨hne, hall, before, [], by rw [List.append_nil], hb, by simp⟩
        | cons y r =>
          cases (List.cons.inj hr).1
          exact absurd (List.mem_append_right _ (List.mem_cons_self ..)) hmem
  · rintro (⟨hne, hall, before, after, rfl, hb, ha⟩ | ⟨hne, hall, before, after, rfl, hb, ha⟩)
    · refine ⟨hne, hall, before, after ++ c :: t, by simp, hb, fun x hx => ?_⟩
      cases after with
      | nil =>
        cases hx
        exact hc
      | cons y after => exact ha x hx
    · refine ⟨hne, hall, u ++ c :: before, after, by simp, fun x hx => ?_, ha⟩
      cases before with
      | nil =>
        rw [List.getLast?_append] at hx
        cases hx
        exact hc
      | cons y before =>
        refine hb x ?_
        rw [List.getLast?_append] at hx
        exact (Option.or_of_isSome (by simp)).symm.trans hx

/-! ## Words in a text with a break -/

theorem prefix_append_break {c : α} {w u t : List α} (hw : c ∉ w) :
    w <+: u ++ c :: t ↔ w <+: u := by
  refine ⟨fun h => ?_, fun h => h.trans (List.prefix_append _ _)⟩
  rcases List.prefix_or_prefix_of_prefix h (List.prefix_append u (c :: t)) with h' | ⟨r, rfl⟩
  · exact h'
  · cases r with
    | nil => rw [List.append_nil]
    | cons d r =>
      obtain ⟨s, hs⟩ := h
      rw [List.append_assoc] at hs
      cases (List.cons.inj (List.append_cancel_left hs)).1
      exact absurd (List.mem_append_right _ (List.mem_cons_self ..)) hw

/-- A word without the break lies on one of its sides. -/
theorem infix_append_break {c : α} {w u t : List α} (hw : c ∉ w) (hne : w ≠ []) :
    w <:+: u ++ c :: t ↔ w <:+: u ∨ w <:+: t := by
  induction u with
  | nil =>
    rw [List.nil_append, List.infix_cons_iff]
    have hp : ¬ w <+: c :: t := by
      have h := @prefix_append_break α c w [] t hw
      rw [List.nil_append, List.prefix_nil] at h
      exact fun h' => hne (h.mp h')
    rw [or_iff_right hp, List.infix_nil, or_iff_right hne]
  | cons d u ih =>
    rw [List.cons_append, List.infix_cons_iff, List.infix_cons_iff, ih, ← List.cons_append,
      prefix_append_break hw, or_assoc]

end MaximalRuns
