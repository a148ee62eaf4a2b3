import Mathlib.Data.String.Basic
import Mathlib.Tactic.Ring

/-! # Decimal digits in order

Texts that sort like the numbers they show: digits of one length.  `value_lt_iff` says so for
digits that are read, `padded_lt_iff` for digits that are printed with leading zeros, and
`append_lt_append_iff` takes a text of several such fields apart. -/
namespace Decimals

/-! ## Reading -/

/-- The number that digits stand for. -/
def value (t : List Char) : Nat := t.foldl (fun n c => 10 * n + (c.toNat - '0'.toNat)) 0

theorem foldl_value (t : List Char) (a : Nat) :
    t.foldl (fun n c => 10 * n + (c.toNat - '0'.toNat)) a = a * 10 ^ t.length + value t := by
  induction t generalizing a with
  | nil => simp [value]
  | cons c t ih =>
    rw [value, List.foldl_cons, List.foldl_cons, ih, ih (10 * 0 + _), List.length_cons]
    ring

theorem value_cons (c : Char) (t : List Char) :
    value (c :: t) = (c.toNat - '0'.toNat) * 10 ^ t.length + value t := by
  rw [value, List.foldl_cons, foldl_value]
  ring

theorem digit_bounds {c : Char} (h : c.isDigit = true) : 48 ≤ c.toNat ∧ c.toNat ≤ 57 := by
  simp only [Char.isDigit, ge_iff_le, Bool.and_eq_true, decide_eq_true_eq,
    UInt32.le_iff_toNat_le] at h
  exact h

theorem char_lt_iff {c d : Char} : c < d ↔ c.toNat < d.toNat := UInt32.lt_iff_toNat_lt

theorem value_lt {t : List Char} (h : t.all Char.isDigit = true) : value t < 10 ^ t.length := by
  induction t with
  | nil => simp [value]
  | cons c t ih =>
    rw [List.all_cons, Bool.and_eq_true] at h
    have hc := digit_bounds h.1
    have ht := ih h.2
    have hd : c.toNat - '0'.toNat ≤ 9 := by
      show c.toNat - 48 ≤ 9
      omega
    have hmul := Nat.mul_le_mul_right (10 ^ t.length) hd
    rw [value_cons, List.length_cons, Nat.pow_succ]
    omega

/-- **Digits of one length sort as their numbers.** -/
theorem value_lt_iff {t u : List Char} (hl : t.length = u.length) (ht : t.all Char.isDigit = true)
    (hu : u.all Char.isDigit = true) : t < u ↔ value t < value u := by
  induction t generalizing u with
  | nil =>
    obtain rfl := List.length_eq_zero_iff.mp hl.symm
    exact iff_of_false (List.not_lt_nil _) (Nat.lt_irrefl _)
  | cons c t ih =>
    cases u with
    | nil => cases hl
    | cons d u =>
      rw [List.all_cons, Bool.and_eq_true] at ht hu
      have hlen : t.length = u.length := Nat.succ.inj hl
      have hc := digit_bounds ht.1
      have hd := digit_bounds hu.1
      have htlt := value_lt ht.2
      have hult := value_lt hu.2
      rw [List.cons_lt_cons_iff, ih hlen ht.2 hu.2, value_cons, value_cons, char_lt_iff, hlen]
      rw [hlen] at htlt
      show _ ↔ (c.toNat - 48) * _ + _ < (d.toNat - 48) * _ + _
      -- the first digits decide unless they are the same
      rcases lt_trichotomy c.toNat d.toNat with h | h | h
      · refine iff_of_true (Or.inl h) ?_
        have hle : c.toNat - 48 + 1 ≤ d.toNat - 48 := by omega
        have hmul := Nat.mul_le_mul_right (10 ^ u.length) hle
        rw [Nat.add_mul, Nat.one_mul] at hmul
        omega
      · obtain rfl : c = d := Char.toNat_inj.mp h
        simp
      · refine iff_of_false ?_ ?_
        · rintro (h' | ⟨rfl, -⟩) <;> omega
        · have hle : d.toNat - 48 + 1 ≤ c.toNat - 48 := by omega
          have hmul := Nat.mul_le_mul_right (10 ^ u.length) hle
          rw [Nat.add_mul, Nat.one_mul] at hmul
          omega

theorem value_inj {t u : List Char} (hl : t.length = u.length) (ht : t.all Char.isDigit = true)
    (hu : u.all Char.isDigit = true) : t = u ↔ value t = value u := by
  refine ⟨fun h => congrArg value h, fun h => ?_⟩
  rcases lt_trichotomy t u with hlt | heq | hlt
  · exact absurd ((value_lt_iff hl ht hu).mp hlt) (by omega)
  · exact heq
  · exact absurd ((value_lt_iff hl.symm hu ht).mp hlt) (by omega)

/-! ## Fields -/

theorem cons_lt_cons_self {c : Char} {t u : List Char} : c :: t < c :: u ↔ t < u := by
  rw [List.cons_lt_cons_iff]
  simp

/-- Fields of one length are compared one after the other. -/
theorem append_lt_append_iff {a b x y : List Char} (h : a.length = b.length) :
    a ++ x < b ++ y ↔ a < b ∨ a = b ∧ x < y := by
  induction a generalizing b with
  | nil =>
    obtain rfl := List.length_eq_zero_iff.mp h.symm
    simp
  | cons c a ih =>
    cases b with
    | nil => cases h
    | cons d b =>
      rw [List.cons_append, List.cons_append, List.cons_lt_cons_iff, List.cons_lt_cons_iff,
        ih (Nat.succ.inj h), List.cons.injEq]
      tauto

/-! ## Printing -/

/-- The last digits of a number, with leading zeros. -/
def padded : Nat → Nat → List Char
  | 0, _ => []
  | w + 1, n => padded w (n / 10) ++ [Nat.digitChar (n % 10)]

@[simp] theorem length_padded (w n : Nat) : (padded w n).length = w := by
  induction w generalizing n with
  | zero => rfl
  | succ w ih => rw [padded, List.length_append, ih, List.length_singleton]

theorem digitChar_spec : ∀ d < 10, (Nat.digitChar d).isDigit = true ∧
    (Nat.digitChar d).toNat - '0'.toNat = d := by
  decide

theorem isDigit_padded (w n : Nat) : (padded w n).all Char.isDigit = true := by
  induction w generalizing n with
  | zero => rfl
  | succ w ih =>
    rw [padded, List.all_append, ih, Bool.true_and, List.all_cons, List.all_nil, Bool.and_true]
    exact (digitChar_spec _ (Nat.mod_lt _ (by decide))).1

theorem value_append_singleton (t : List Char) (c : Char) :
    value (t ++ [c]) = 10 * value t + (c.toNat - '0'.toNat) := by
  rw [value, List.foldl_append]
  rfl

theorem value_padded {w n : Nat} (h : n < 10 ^ w) : value (padded w n) = n := by
  induction w generalizing n with
  | zero =>
    obtain rfl : n = 0 := by simpa using h
    rfl
  | succ w ih =>
    have hlt : n / 10 < 10 ^ w := by
      rw [Nat.pow_succ] at h
      omega
    rw [padded, value_append_singleton, ih hlt, (digitChar_spec _ (Nat.mod_lt _ (by decide))).2]
    omega

/-- **Numbers printed with leading zeros sort as they are.** -/
theorem padded_lt_iff {w n m : Nat} (hn : n < 10 ^ w) (hm : m < 10 ^ w) :
    padded w n < padded w m ↔ n < m := by
  rw [value_lt_iff (by simp) (isDigit_padded w n) (isDigit_padded w m), value_padded hn,
    value_padded hm]

theorem padded_inj {w n m : Nat} (hn : n < 10 ^ w) (hm : m < 10 ^ w) :
    padded w n = padded w m ↔ n = m := by
  rw [value_inj (by simp) (isDigit_padded w n) (isDigit_padded w m), value_padded hn,
    value_padded hm]

end Decimals
