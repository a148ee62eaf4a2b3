import Mathlib.Data.List.Infix

/-! # Runs of a step function

A system is a partial step function `step s a`: `none` says the action cannot
happen in the state.  A run is a list of actions, so every order in which several
parties act is one.  `Meets C s as` says that every step of the run meets the
condition `C`; `Meets.invariant` is the rule that carries an invariant over such a
run. -/
namespace Steps

variable {S A : Type*} (step : S → A → Option S)

/-- The state after the actions, `none` where one of them cannot happen. -/
def run : S → List A → Option S
  | s, [] => some s
  | s, a :: as => (step s a).bind (fun t => run t as)

/-- Every step of the run meets the condition on the state before it. -/
def Meets (C : S → A → Prop) : S → List A → Prop
  | _, [] => True
  | s, a :: as => C s a ∧ ∀ t, step s a = some t → Meets C t as

variable {step}

@[simp] theorem run_nil (s : S) : run step s [] = some s := rfl

theorem run_cons {s t : S} {a : A} {as : List A} :
    run step s (a :: as) = some t ↔ ∃ u, step s a = some u ∧ run step u as = some t :=
  Option.bind_eq_some_iff

theorem run_append {s t : S} {as bs : List A} :
    run step s (as ++ bs) = some t ↔ ∃ u, run step s as = some u ∧ run step u bs = some t := by
  induction as generalizing s with
  | nil =>
    constructor
    · intro h
      exact ⟨s, rfl, h⟩
    · rintro ⟨u, hu, h⟩
      cases hu
      exact h
  | cons a as ih =>
    rw [List.cons_append, run_cons]
    constructor
    · rintro ⟨u, hu, h⟩
      obtain ⟨v, hv, h⟩ := ih.mp h
      exact ⟨v, run_cons.mpr ⟨u, hu, hv⟩, h⟩
    · rintro ⟨v, hv, h⟩
      obtain ⟨u, hu, hv⟩ := run_cons.mp hv
      exact ⟨u, hu, ih.mpr ⟨v, hv, h⟩⟩

theorem Meets.cons {C : S → A → Prop} {s t : S} {a : A} {as : List A} (hc : C s a)
    (ht : step s a = some t) (h : Meets step C t as) : Meets step C s (a :: as) := by
  refine ⟨hc, fun u hu => ?_⟩
  rw [ht] at hu
  cases hu
  exact h

theorem Meets.prefix {C : S → A → Prop} {s : S} {as bs : List A} (h : Meets step C s (as ++ bs)) :
    Meets step C s as := by
  induction as generalizing s with
  | nil => trivial
  | cons a as ih => exact ⟨h.1, fun t ht => ih (h.2 t ht)⟩

theorem Meets.suffix {C : S → A → Prop} {s t : S} {as bs : List A} (h : Meets step C s (as ++ bs))
    (hr : run step s as = some t) : Meets step C t bs := by
  induction as generalizing s with
  | nil =>
    cases hr
    exact h
  | cons a as ih =>
    obtain ⟨u, hu, hr⟩ := run_cons.mp hr
    exact ih (h.2 u hu) hr

theorem Meets.append {C : S → A → Prop} {s t : S} {as bs : List A} (h : Meets step C s as)
    (hr : run step s as = some t) (h' : Meets step C t bs) : Meets step C s (as ++ bs) := by
  induction as generalizing s with
  | nil =>
    cases hr
    exact h'
  | cons a as ih =>
    obtain ⟨u, hu, hr⟩ := run_cons.mp hr
    exact Meets.cons h.1 hu (ih (h.2 u hu) hr)

/-- On a given run a decidable condition can be checked step by step. -/
instance Meets.decidable {C : S → A → Prop} [∀ s a, Decidable (C s a)] :
    ∀ (as : List A) (s : S), Decidable (Meets step C s as)
  | [], _ => isTrue trivial
  | a :: as, s =>
    have : ∀ t, Decidable (Meets step C t as) := fun t => Meets.decidable as t
    decidable_of_iff (C s a ∧ ∀ t ∈ step s a, Meets step C t as) Iff.rfl

/-- A run that stops at the first step that does not meet the condition. -/
def checked (step : S → A → Option S) (C : S → A → Prop) [∀ s a, Decidable (C s a)] :
    S → List A → Option S
  | s, [] => some s
  | s, a :: as => if C s a then (step s a).bind (fun t => checked step C t as) else none

/-- A checked run is a run whose steps all meet the condition. -/
theorem checked_eq_some {C : S → A → Prop} [∀ s a, Decidable (C s a)] {s t : S} {as : List A}
    (h : checked step C s as = some t) : run step s as = some t ∧ Meets step C s as := by
  induction as generalizing s with
  | nil => exact ⟨h, trivial⟩
  | cons a as ih =>
    rw [checked] at h
    split at h
    case isFalse => cases h
    next hc =>
    obtain ⟨u, hu, h⟩ := Option.bind_eq_some_iff.mp h
    obtain ⟨hr, hm⟩ := ih h
    exact ⟨run_cons.mpr ⟨u, hu, hr⟩, Meets.cons hc hu hm⟩

/-- **The invariant rule.**  What every step meeting the condition preserves holds
at the end of every run whose steps all meet it. -/
theorem Meets.invariant {C : S → A → Prop} {P : S → Prop}
    (hstep : ∀ s a t, P s → C s a → step s a = some t → P t) {s t : S} {as : List A}
    (hm : Meets step C s as) (hs : P s) (hr : run step s as = some t) : P t := by
  induction as generalizing s with
  | nil =>
    cases hr
    exact hs
  | cons a as ih =>
    obtain ⟨u, hu, hr⟩ := run_cons.mp hr
    exact ih (hm.2 u hu) (hstep s a u hs hm.1 hu) hr

/-- The invariant rule for a property every step preserves. -/
theorem run_invariant {P : S → Prop} (hstep : ∀ s a t, P s → step s a = some t → P t)
    {s t : S} {as : List A} (hs : P s) (hr : run step s as = some t) : P t := by
  induction as generalizing s with
  | nil =>
    cases hr
    exact hs
  | cons a as ih =>
    obtain ⟨u, hu, hr⟩ := run_cons.mp hr
    exact ih (hstep s a u hs hu) hr

end Steps
