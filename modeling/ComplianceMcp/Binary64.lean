import Mathlib.Data.Int.Log
import Mathlib.Data.Rat.Floor
import Mathlib.Tactic.FieldSimp
import Mathlib.Tactic.Positivity
import Mathlib.Tactic.Ring

/-! # Binary64 numbers and their decimal texts

A finite binary64 number is held as the rational number it is, with its sign.  `nearest` rounds
a rational number to one of them, halfway cases to the even one.  A number is printed with the
fewest digits that round back to it, of those the closest, without an exponent where the
decimal point is near.  `ofText_text` says that what is printed reads back. -/

namespace Binary64

/-! ## Rounding -/

/-- The nearest natural number, of two the even one. -/
def roundEven (q : ℚ) : ℕ :=
  let n := ⌊q⌋₊
  if q - n < 1 / 2 then n
  else if 1 / 2 < q - n then n + 1
  else n + n % 2

/-- The exponent of the last of 53 binary digits, which subnormal numbers share. -/
def exponent (q : ℚ) : ℤ := max (-1074) (Int.log 2 q - 52)

/-- The nearest number of 53 binary digits. -/
def nearest (q : ℚ) : ℚ := roundEven (q / 2 ^ exponent q) * 2 ^ exponent q

section Rounding

variable {q : ℚ} {m n : ℕ} {e : ℤ}

theorem two_zpow_pos (e : ℤ) : (0 : ℚ) < 2 ^ e := zpow_pos two_pos e

theorem roundEven_natCast (n : ℕ) : roundEven n = n := by
  simp [roundEven]

theorem roundEven_le (hq : 0 ≤ q) (h : q < n) : roundEven q ≤ n := by
  have hfloor : ⌊q⌋₊ < n := (Nat.floor_lt hq).mpr h
  unfold roundEven
  dsimp only
  split
  · omega
  · split
    · omega
    · omega

theorem nearest_nonneg (q : ℚ) : 0 ≤ nearest q := by
  exact mul_nonneg (Nat.cast_nonneg _) (two_zpow_pos _).le

theorem nearest_eq (h : q = n * 2 ^ exponent q) : nearest q = q := by
  have hdiv : q / 2 ^ exponent q = n := by
    rw [div_eq_iff (two_zpow_pos _).ne']
    exact h
  rw [nearest, hdiv, roundEven_natCast, ← h]

theorem exponent_le (hq : 0 < q) (he : -1074 ≤ e) (h : q < 2 ^ (53 + e)) : exponent q ≤ e := by
  have hlog := (Int.lt_zpow_iff_log_lt one_lt_two hq).mp (by exact_mod_cast h)
  exact max_le he (by omega)

/-- A number of 53 binary digits stays. -/
theorem nearest_scaled (hm : m < 2 ^ 53) (he : -1074 ≤ e) : nearest (m * 2 ^ e) = m * 2 ^ e := by
  rcases Nat.eq_zero_or_pos m with rfl | hpos
  · exact nearest_eq (n := 0) (by simp)
  have hq : (0 : ℚ) < m * 2 ^ e := mul_pos (by exact_mod_cast hpos) (two_zpow_pos e)
  have hlt : (m * 2 ^ e : ℚ) < 2 ^ (53 + e) := by
    rw [zpow_add₀ two_ne_zero]
    exact mul_lt_mul_of_pos_right (by exact_mod_cast hm) (two_zpow_pos e)
  have hx := exponent_le hq he hlt
  refine nearest_eq (n := m * 2 ^ (e - exponent (m * 2 ^ e)).toNat) ?_
  have hsum : ((e - exponent ((m : ℚ) * 2 ^ e)).toNat : ℤ) + exponent ((m : ℚ) * 2 ^ e) = e := by
    omega
  push_cast
  rw [mul_assoc, ← zpow_natCast, ← zpow_add₀ two_ne_zero, hsum]

theorem div_exponent_lt (q : ℚ) : q / 2 ^ exponent q < (2 ^ 53 : ℕ) := by
  have hlog : q < 2 ^ (Int.log 2 q + 1) := by
    exact_mod_cast Int.lt_zpow_succ_log_self (b := 2) one_lt_two q
  have hle : Int.log 2 q + 1 ≤ 53 + exponent q := by
    unfold exponent
    omega
  have hsplit : ((2 ^ 53 : ℕ) : ℚ) * 2 ^ exponent q = 2 ^ (53 + exponent q) := by
    rw [zpow_add₀ two_ne_zero]
    norm_cast
  rw [div_lt_iff₀ (two_zpow_pos _), hsplit]
  exact lt_of_lt_of_le hlog (zpow_le_zpow_right₀ one_le_two hle)

/-- **Rounding twice is rounding once.** -/
theorem nearest_nearest (hq : 0 ≤ q) : nearest (nearest q) = nearest q := by
  have hx : -1074 ≤ exponent q := le_max_left _ _
  have hm := roundEven_le (div_nonneg hq (two_zpow_pos _).le) (div_exponent_lt q)
  unfold nearest at *
  rcases Nat.lt_or_eq_of_le hm with hlt | heq
  · exact nearest_scaled hlt hx
  · -- a carry has made a number of 54 digits, the last of which is zero
    have hcarry : ((2 ^ 53 : ℕ) : ℚ) * 2 ^ exponent q = (2 ^ 52 : ℕ) * 2 ^ (exponent q + 1) := by
      rw [zpow_add_one₀ two_ne_zero]
      push_cast
      ring
    rw [heq, hcarry]
    exact nearest_scaled (by norm_num) (by omega)

end Rounding

/-- A number that binary64 has. -/
structure Representable (q : ℚ) : Prop where
  nonneg : 0 ≤ q
  fixed : nearest q = q
  bounded : q < 2 ^ 1024

end Binary64

/-- A binary64 number; all values that are no number are one. -/
inductive Binary64 where
  | nan
  | infinite (neg : Bool)
  | finite (neg : Bool) (q : ℚ) (h : Binary64.Representable q)
  deriving DecidableEq

namespace Binary64

/-- The number nearest to `q`, with a sign. -/
def ofRat (neg : Bool) (q : ℚ) (hq : 0 ≤ q) : Binary64 :=
  if h : nearest q < 2 ^ 1024 then .finite neg (nearest q) ⟨nearest_nonneg q, nearest_nearest hq, h⟩
  else .infinite neg

theorem ofRat_eq {neg : Bool} {q r : ℚ} (hr : 0 ≤ r) (hq : Representable q) (h : nearest r = q) :
    ofRat neg r hr = .finite neg q hq := by
  subst h
  exact dif_pos hq.bounded

/-! ## The fewest digits -/

/-- The two decimals of `k` digits around `q`, as digits and exponent, the closer one first. -/
def candidates (q : ℚ) (k : ℕ) : List (ℕ × ℤ) :=
  let p := Int.log 10 q - (k - 1)
  let n := ⌊q / 10 ^ p⌋₊
  if roundEven (q / 10 ^ p) = n then [(n, p), (n + 1, p)] else [(n + 1, p), (n, p)]

/-- A number of 53 binary digits in decimal. -/
def exact (q : ℚ) : ℕ × ℤ :=
  (roundEven (q / 2 ^ exponent q) * 2 ^ (exponent q).toNat * 5 ^ (-exponent q).toNat,
    -(-exponent q).toNat)

/-- The shortest decimal that rounds to `q`. -/
def shortest (q : ℚ) : ℕ × ℤ :=
  (((List.range 17).flatMap (fun k => candidates q (k + 1))).find?
    (fun c => nearest (c.1 * 10 ^ c.2) = q)).getD (exact q)

/-- The digits without the zeros at their end. -/
def stripZeros : ℕ → ℕ × ℤ → ℕ × ℤ
  | 0, c => c
  | fuel + 1, (n, p) => if n % 10 = 0 then stripZeros fuel (n / 10, p + 1) else (n, p)

section Digits

variable {q : ℚ}

theorem exact_value (q : ℚ) : ((exact q).1 : ℚ) * 10 ^ (exact q).2 = nearest q := by
  unfold exact nearest
  rcases Int.le_total 0 (exponent q) with h | h
  · obtain ⟨k, hk⟩ := Int.eq_ofNat_of_zero_le h
    rw [hk]
    simp
  · obtain ⟨k, hk⟩ := Int.exists_eq_neg_ofNat h
    have hten : (10 : ℚ) = 2 * 5 := by norm_num
    rw [hk]
    simp only [hten, zpow_neg, zpow_natCast, neg_neg, Int.toNat_natCast,
      Int.toNat_neg_natCast, mul_pow, Nat.cast_mul, Nat.cast_pow, Nat.cast_ofNat, pow_zero,
      mul_one, mul_inv]
    field_simp

/-- **The digits that are printed round back.** -/
theorem nearest_shortest (h : nearest q = q) :
    nearest ((shortest q).1 * 10 ^ (shortest q).2) = q := by
  unfold shortest
  cases hf : List.find? _ _ with
  | some c => simpa using List.find?_some hf
  | none => rw [Option.getD_none, exact_value, h, h]

theorem stripZeros_value (fuel : ℕ) (c : ℕ × ℤ) :
    ((stripZeros fuel c).1 : ℚ) * 10 ^ (stripZeros fuel c).2 = c.1 * 10 ^ c.2 := by
  induction fuel generalizing c with
  | zero => rfl
  | succ fuel ih =>
    obtain ⟨n, p⟩ := c
    rw [stripZeros]
    split
    · next hn =>
      have hdiv : n = 10 * (n / 10) := by omega
      rw [ih]
      conv_rhs => rw [hdiv]
      rw [zpow_add_one₀ (by norm_num)]
      push_cast
      ring
    · rfl

theorem stripZeros_ne_zero {fuel : ℕ} {c : ℕ × ℤ} (h : c.1 ≠ 0) : (stripZeros fuel c).1 ≠ 0 := by
  induction fuel generalizing c with
  | zero => exact h
  | succ fuel ih =>
    obtain ⟨n, p⟩ := c
    rw [stripZeros]
    split
    · exact ih (by dsimp only at h ⊢; omega)
    · exact h

end Digits

/-! ## Numerals -/

/-- A numeral: the digits before and after its decimal point, and its exponent. -/
structure Numeral where
  int : List Char
  frac : List Char
  exp : Option ℤ

/-- The number that digits stand for. -/
def digits (t : List Char) : ℕ := Nat.ofDigitChars 10 t 0

def zeros (n : ℕ) : List Char := List.replicate n '0'

/-- An exponent, with its sign and two digits at least. -/
def exponentText (e : ℤ) : List Char :=
  let ds := Nat.toDigits 10 e.natAbs
  'e' :: (if e < 0 then '-' else '+') :: (zeros (2 - ds.length) ++ ds)

namespace Numeral

/-- What follows the digits before the decimal point. -/
def tail (t : Numeral) : List Char :=
  (if t.frac = [] then [] else '.' :: t.frac) ++ t.exp.elim [] exponentText

def text (t : Numeral) : List Char := t.int ++ t.tail

def value (t : Numeral) : ℚ := digits (t.int ++ t.frac) * 10 ^ (t.exp.getD 0 - t.frac.length)

/-- A numeral with a fraction or an exponent, and no leading zero. -/
structure Printed (t : Numeral) : Prop where
  int : t.int = ['0'] ∨ t.int ≠ [] ∧ t.int.head? ≠ some '0'
  intDigits : t.int.all Char.isDigit = true
  fracDigits : t.frac.all Char.isDigit = true
  marked : t.frac ≠ [] ∨ t.exp ≠ none

end Numeral

/-- The numeral of `n * 10 ^ p`: without an exponent if the decimal point is near the digits. -/
def numeral (n : ℕ) (p : ℤ) : Numeral :=
  let ds := Nat.toDigits 10 n
  let point : ℤ := ds.length + p
  if -4 < point ∧ point ≤ 16 then
    if point ≤ 0 then ⟨['0'], zeros (-point).toNat ++ ds, none⟩
    else if point < ds.length then ⟨ds.take point.toNat, ds.drop point.toNat, none⟩
    else ⟨ds ++ zeros (point - ds.length).toNat, ['0'], none⟩
  else ⟨ds.take 1, ds.drop 1, some (point - 1)⟩

/-- What is after a decimal point, and after that. -/
def splitFrac : List Char → List Char × List Char
  | '.' :: r => (r.takeWhile Char.isDigit, r.dropWhile Char.isDigit)
  | r => ([], r)

/-- The number after an `e`. -/
def exponentOf : List Char → ℤ
  | _ :: '+' :: ds => digits ds
  | _ :: '-' :: ds => -digits ds
  | _ :: ds => digits ds
  | [] => 0

/-- The rational number that an unsigned numeral stands for. -/
def decimal (t : List Char) : ℚ :=
  let rest := splitFrac (t.dropWhile Char.isDigit)
  (Numeral.mk (t.takeWhile Char.isDigit) rest.1 (some (exponentOf rest.2))).value

section Numerals

theorem digits_append (a b : List Char) :
    digits (a ++ b) = digits a * 10 ^ b.length + digits b := by
  rw [digits, Nat.ofDigitChars_append, Nat.ofDigitChars_eq_ofDigitChars_zero, digits, digits]
  ring

theorem digits_zeros (n : ℕ) : digits (zeros n) = 0 := by
  rw [digits, zeros, Nat.ofDigitChars_replicate_zero, mul_zero]

theorem digits_toDigits (n : ℕ) : digits (Nat.toDigits 10 n) = n := Nat.ofDigitChars_ten_toDigits

theorem all_isDigit_toDigits (n : ℕ) : (Nat.toDigits 10 n).all Char.isDigit = true :=
  List.all_eq_true.mpr
    (fun _ hc => Nat.isDigit_of_mem_toDigits (b := 10) (by decide) (by decide) hc)

theorem all_isDigit_zeros (n : ℕ) : (zeros n).all Char.isDigit = true := by
  refine List.all_eq_true.mpr (fun c hc => ?_)
  rw [List.eq_of_mem_replicate hc]
  rfl

/-- A decimal numeral has no leading zero unless it is zero. -/
theorem head_toDigits {n : ℕ} (hn : 0 < n) : (Nat.toDigits 10 n).head? ≠ some '0' := by
  induction n using Nat.strongRecOn with
  | _ n ih =>
    by_cases hb : n < 10
    · rw [Nat.toDigits_of_lt_base hb]
      have hall : ∀ k, k < 10 → 0 < k → k.digitChar ≠ '0' := by decide
      simpa using hall n hb hn
    · rw [Nat.toDigits_of_base_le (by decide) (by omega), List.head?_append]
      have hne := ih (n / 10) (by omega) (by omega)
      cases h : Nat.toDigits 10 (n / 10) with
      | nil => exact absurd h Nat.toDigits_ne_nil
      | cons d ds =>
        rw [h] at hne
        simpa using hne

theorem exponentOf_exponentText (e : ℤ) : exponentOf (exponentText e) = e := by
  have hdigits : digits (zeros (2 - (Nat.toDigits 10 e.natAbs).length) ++
    Nat.toDigits 10 e.natAbs) = e.natAbs := by
    rw [digits_append, digits_zeros, digits_toDigits]
    ring
  unfold exponentText
  dsimp only
  by_cases he : e < 0
  · rw [if_pos he, exponentOf, hdigits]
    omega
  · rw [if_neg he, exponentOf, hdigits]
    omega

/-- What follows digits in a numeral is no digit. -/
theorem takeWhile_digits {t r : List Char} (ht : t.all Char.isDigit = true)
    (hr : ∀ c ∈ r.head?, c.isDigit = false) :
    (t ++ r).takeWhile Char.isDigit = t ∧ (t ++ r).dropWhile Char.isDigit = r := by
  have ht' : ∀ c ∈ t, c.isDigit = true := List.all_eq_true.mp ht
  rw [List.takeWhile_append_of_pos ht', List.dropWhile_append_of_pos ht']
  cases r with
  | nil => simp
  | cons c r => simp [hr c rfl]

theorem exp_head (exp : Option ℤ) : ∀ c ∈ (exp.elim [] exponentText).head?, c = 'e' := by
  cases exp with
  | none => exact fun c hc => absurd hc (by simp)
  | some e =>
    intro c hc
    exact (Option.some.inj hc).symm

namespace Numeral

variable {t : Numeral}

theorem exp_not_digit (exp : Option ℤ) :
    ∀ c ∈ (exp.elim [] exponentText).head?, c.isDigit = false := by
  intro c hc
  rw [exp_head exp c hc]
  rfl

/-- The digits before the point end where the tail begins. -/
theorem takeWhile_text (hi : t.int.all Char.isDigit = true) :
    t.text.takeWhile Char.isDigit = t.int ∧ t.text.dropWhile Char.isDigit = t.tail := by
  refine takeWhile_digits hi ?_
  unfold tail
  by_cases hn : t.frac = []
  · rw [if_pos hn]
    exact exp_not_digit t.exp
  · rw [if_neg hn]
    intro c hc
    rw [← Option.some.inj hc]
    rfl

theorem splitFrac_tail (hf : t.frac.all Char.isDigit = true) :
    splitFrac t.tail = (t.frac, t.exp.elim [] exponentText) := by
  unfold tail
  by_cases hn : t.frac = []
  · rw [if_pos hn, List.nil_append, hn]
    unfold splitFrac
    split
    · next r heq =>
      have hdot := exp_head t.exp '.' (by rw [heq]; rfl)
      exact absurd hdot (by decide)
    · rfl
  · obtain ⟨h₁, h₂⟩ := takeWhile_digits hf (exp_not_digit t.exp)
    rw [if_neg hn, List.cons_append, splitFrac, h₁, h₂]

/-- A numeral reads as the number it is. -/
theorem decimal_text (hi : t.int.all Char.isDigit = true) (hf : t.frac.all Char.isDigit = true) :
    decimal t.text = t.value := by
  have hexp : exponentOf (t.exp.elim [] exponentText) = t.exp.getD 0 := by
    cases t.exp with
    | none => rfl
    | some e => exact exponentOf_exponentText e
  obtain ⟨h₁, h₂⟩ := takeWhile_text hi
  unfold decimal
  rw [h₁, h₂, splitFrac_tail hf]
  dsimp only
  rw [hexp]
  rfl

end Numeral

/-- The numeral of `n * 10 ^ p` is that number. -/
theorem value_numeral (n : ℕ) (p : ℤ) : (numeral n p).value = n * 10 ^ p := by
  have hds := digits_toDigits n
  have hlen := Nat.length_toDigits_pos (b := 10) (n := n)
  have hten : (10 : ℚ) ≠ 0 := by norm_num
  unfold numeral
  generalize Nat.toDigits 10 n = ds at hds hlen
  dsimp only
  split
  · split
    · -- zeros between the point and the digits
      have hexp : (0 : ℤ) - ((zeros (-(ds.length + p)).toNat ++ ds).length : ℤ) = p := by
        rw [List.length_append, zeros, List.length_replicate]
        omega
      have hvalue : digits (['0'] ++ (zeros (-(ds.length + p)).toNat ++ ds)) = n := by
        have hzero : digits ['0'] = 0 := rfl
        rw [digits_append, digits_append, digits_zeros, hds, hzero]
        ring
      rw [Numeral.value, hvalue, Option.getD_none, hexp]
    · split
      · -- the point is among the digits
        have hexp : (0 : ℤ) - ((ds.drop (ds.length + p).toNat).length : ℤ) = p := by
          rw [List.length_drop]
          omega
        rw [Numeral.value, List.take_append_drop, hds, Option.getD_none, hexp]
      · -- zeros between the digits and the point
        have hvalue : digits (ds ++ zeros (ds.length + p - ds.length).toNat ++ ['0']) =
            n * 10 ^ ((ds.length + p - ds.length).toNat + 1) := by
          have hzero : digits ['0'] = 0 := rfl
          rw [digits_append, digits_append, digits_zeros, hds, hzero, zeros, List.length_replicate,
            List.length_singleton]
          ring
        have hp : p = ((ds.length + p - ds.length).toNat + 1 : ℕ) + (0 - 1 : ℤ) := by omega
        rw [Numeral.value, hvalue, Option.getD_none, List.length_singleton]
        conv_rhs => rw [hp]
        rw [zpow_add₀ hten, zpow_natCast]
        push_cast
        ring
  · -- one digit before the point, and an exponent
    have hexp : (ds.length + p - 1 : ℤ) - ((ds.drop 1).length : ℤ) = p := by
      rw [List.length_drop]
      omega
    rw [Numeral.value, List.take_append_drop, hds, Option.getD_some, hexp]

theorem printed_numeral {n : ℕ} (hn : n ≠ 0) (p : ℤ) : (numeral n p).Printed := by
  have hall := all_isDigit_toDigits n
  have hhead := head_toDigits (Nat.pos_of_ne_zero hn)
  have hlen := Nat.length_toDigits_pos (b := 10) (n := n)
  unfold numeral
  generalize Nat.toDigits 10 n = ds at hall hhead hlen
  have htake : ∀ k, (ds.take k).all Char.isDigit = true := fun k =>
    List.all_eq_true.mpr fun c hc => List.all_eq_true.mp hall c (List.mem_of_mem_take hc)
  have hdrop : ∀ k, (ds.drop k).all Char.isDigit = true := fun k =>
    List.all_eq_true.mpr fun c hc => List.all_eq_true.mp hall c (List.mem_of_mem_drop hc)
  have hfirst : ∀ k, 0 < k → ds.take k ≠ [] ∧ (ds.take k).head? ≠ some '0' := by
    intro k hk
    cases ds with
    | nil => exact absurd hlen (lt_irrefl 0)
    | cons d ds =>
      obtain ⟨k, rfl⟩ := Nat.exists_eq_succ_of_ne_zero (Nat.pos_iff_ne_zero.mp hk)
      exact ⟨List.cons_ne_nil _ _, hhead⟩
  dsimp only
  split
  · split
    · refine ⟨.inl rfl, rfl, ?_, .inl ?_⟩
      · rw [List.all_append, all_isDigit_zeros, hall]
        rfl
      · exact List.append_ne_nil_of_right_ne_nil _ (List.ne_nil_of_length_pos hlen)
    · split
      · refine ⟨.inr (hfirst _ (by omega)), htake _, hdrop _, .inl ?_⟩
        refine List.ne_nil_of_length_pos ?_
        rw [List.length_drop]
        omega
      · refine ⟨.inr ⟨?_, ?_⟩, ?_, rfl, .inl (List.cons_ne_nil _ _)⟩
        · exact List.append_ne_nil_of_left_ne_nil (List.ne_nil_of_length_pos hlen) _
        · cases ds with
          | nil => exact absurd hlen (lt_irrefl 0)
          | cons d ds => exact hhead
        · rw [List.all_append, all_isDigit_zeros, hall]
          rfl
  · exact ⟨.inr (hfirst 1 one_pos), htake 1, hdrop 1, .inr (Option.some_ne_none _)⟩

end Numerals

/-! ## Texts -/

/-- The numeral of a number without its sign. -/
def numeralOf (q : ℚ) : Numeral :=
  if q = 0 then ⟨['0'], ['0'], none⟩
  else numeral (stripZeros (shortest q).1 (shortest q)).1 (stripZeros (shortest q).1 (shortest q)).2

def signText (neg : Bool) : List Char := if neg then ['-'] else []

def nanText : List Char := ['N', 'a', 'N']

def infinityText : List Char := ['I', 'n', 'f', 'i', 'n', 'i', 't', 'y']

/-- What is printed for a number: the shortest numeral, or one of three names. -/
def text : Binary64 → List Char
  | .nan => nanText
  | .infinite neg => signText neg ++ infinityText
  | .finite neg q _ => signText neg ++ (numeralOf q).text

theorem decimal_nonneg (t : List Char) : 0 ≤ decimal t :=
  mul_nonneg (Nat.cast_nonneg _) (zpow_nonneg (by norm_num) _)

/-- The number nearest to a numeral, which may have a sign. -/
def ofText : List Char → Binary64
  | '-' :: t => ofRat true (decimal t) (decimal_nonneg t)
  | t => ofRat false (decimal t) (decimal_nonneg t)

/-- The number is zero, with either sign. -/
def isZero : Binary64 → Bool
  | .finite _ q _ => q = 0
  | _ => false

/-- `x + 1`. -/
def succ : Binary64 → Binary64
  | .nan => .nan
  | .infinite neg => .infinite neg
  | .finite neg q _ =>
    let v := (if neg then -q else q) + 1
    ofRat (v < 0) |v| (abs_nonneg v)

/-- The remainder by `n` is zero. -/
def divisible (n : ℕ) : Binary64 → Bool
  | .finite _ q _ => (q / nearest n).den = 1
  | _ => false

section Texts

variable {q : ℚ}

theorem printed_numeralOf (h : nearest q = q) : (numeralOf q).Printed := by
  unfold numeralOf
  split
  · exact ⟨.inl rfl, rfl, rfl, .inl (List.cons_ne_nil _ _)⟩
  next hq =>
  refine printed_numeral (stripZeros_ne_zero fun hzero => hq ?_) _
  -- nothing but zero rounds to zero digits
  have hround := nearest_shortest h
  rw [hzero, Nat.cast_zero, zero_mul] at hround
  rw [← hround]
  exact nearest_eq (n := 0) (by simp)

theorem nearest_value_numeralOf (h : nearest q = q) : nearest (numeralOf q).value = q := by
  unfold numeralOf
  split
  · next hq =>
    have hzero : (Numeral.mk ['0'] ['0'] none).value = 0 := by
      have hd : digits ['0', '0'] = 0 := rfl
      rw [Numeral.value, List.singleton_append, hd, Nat.cast_zero, zero_mul]
    rw [hzero, hq]
    exact nearest_eq (n := 0) (by simp)
  · rw [value_numeral, stripZeros_value]
    exact nearest_shortest h

/-- The text of a numeral starts with a digit. -/
theorem Numeral.Printed.head {t : Numeral} (h : t.Printed) :
    ∃ c r, t.text = c :: r ∧ c.isDigit = true := by
  have hne : t.int ≠ [] := by
    rcases h.int with h | h
    · rw [h]
      exact List.cons_ne_nil _ _
    · exact h.1
  obtain ⟨c, r, hc⟩ := List.exists_cons_of_ne_nil hne
  have hd := h.intDigits
  rw [hc, List.all_cons, Bool.and_eq_true] at hd
  exact ⟨c, _, by rw [Numeral.text, hc, List.cons_append], hd.1⟩

/-- **What is printed for a finite number reads back.** -/
theorem ofText_text (neg : Bool) (h : Representable q) :
    ofText (text (.finite neg q h)) = .finite neg q h := by
  have hp := printed_numeralOf h.fixed
  have hvalue := Numeral.decimal_text hp.intDigits hp.fracDigits
  have hround : nearest (decimal (numeralOf q).text) = q := by
    rw [hvalue]
    exact nearest_value_numeralOf h.fixed
  rw [text]
  cases neg with
  | true => exact ofRat_eq (decimal_nonneg _) h hround
  | false =>
    obtain ⟨c, r, hc, hd⟩ := hp.head
    rw [signText, if_neg Bool.false_ne_true, List.nil_append]
    unfold ofText
    split
    · next r' heq =>
      rw [hc] at heq
      rw [(List.cons.inj heq).1] at hd
      cases hd
    · exact ofRat_eq (decimal_nonneg _) h hround

example : text (ofText ['1', '.', '5', '0']) = ['1', '.', '5'] := by decide +kernel

end Texts
end Binary64
