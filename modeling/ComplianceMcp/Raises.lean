import Mathlib.Tactic.Common

/-! # What a computation may raise

`OnlyRaises D x` says that `x` ends without an error or with one in `D`.  A sequence of steps
only raises `D` if every step does that is reached: `onlyRaises_bind` turns a statement about a
block into one statement for each of its steps. -/
namespace Raises

universe u v

variable {ε : Type u} {α β : Type v} {D : ε → Prop} {x : Except ε α}

/-- No error but those in `D`. -/
def OnlyRaises (D : ε → Prop) (x : Except ε α) : Prop := ∀ e, x = .error e → D e

@[simp] theorem onlyRaises_ok {a : α} : OnlyRaises D (.ok a : Except ε α) ↔ True :=
  iff_of_true (fun _ h => by cases h) trivial

@[simp] theorem onlyRaises_pure {a : α} : OnlyRaises D (pure a : Except ε α) ↔ True := onlyRaises_ok

@[simp] theorem onlyRaises_error {e : ε} : OnlyRaises D (.error e : Except ε α) ↔ D e := by
  constructor
  · exact fun h => h e rfl
  · rintro h e' he
    cases he
    exact h

/-- **The rule of a sequence.** -/
theorem onlyRaises_bind {f : α → Except ε β} :
    OnlyRaises D (x >>= f) ↔ OnlyRaises D x ∧ ∀ a, x = .ok a → OnlyRaises D (f a) := by
  cases x with
  | error e =>
    have hbind : (Except.error e >>= f : Except ε β) = .error e := rfl
    rw [hbind, onlyRaises_error, onlyRaises_error]
    exact ⟨fun h => ⟨h, fun _ ha => by cases ha⟩, And.left⟩
  | ok a =>
    have hbind : (Except.ok a >>= f : Except ε β) = f a := rfl
    rw [hbind]
    constructor
    · rintro h
      refine ⟨onlyRaises_ok.mpr trivial, fun a' ha => ?_⟩
      cases ha
      exact h
    · exact fun h => h.2 a rfl

end Raises
