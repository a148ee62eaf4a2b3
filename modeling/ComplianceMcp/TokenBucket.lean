import Mathlib.Algebra.Order.Field.Basic
import Mathlib.Data.List.Induction
import Mathlib.Tactic.Linarith
import Mathlib.Tactic.Ring
import Mathlib.Data.Nat.Cast.Order.Field

/-! # Token buckets

A bucket holds up to `capacity` tokens and refills at `rate`.  A check refills it up to the
clock reading it was made with and takes one token if there is one.

The readings need not be processed in order: a check that read the clock early may come late,
and then the refill is negative.  What carries the bound is the potential `tokens - rate * last`,
which no check raises and every admission lowers by one. -/
namespace TokenBucket

/-! ## Windows -/

section Windows

variable {K : Type*} [LinearOrder K]

/-- How many of the readings lie in the window. -/
def inWindow (start end_ : K) (nows : List K) : Nat :=
  nows.countP (fun now => start ≤ now ∧ now ≤ end_)

@[simp] theorem inWindow_nil (start end_ : K) : inWindow start end_ [] = 0 := rfl

theorem inWindow_cons (start end_ now : K) (nows : List K) : inWindow start end_ (now :: nows) =
    inWindow start end_ nows + if start ≤ now ∧ now ≤ end_ then 1 else 0 := by
  unfold inWindow
  rw [List.countP_cons]
  simp only [decide_eq_true_eq]

theorem inWindow_append (start end_ : K) (xs ys : List K) :
    inWindow start end_ (xs ++ ys) = inWindow start end_ xs + inWindow start end_ ys :=
  List.countP_append

theorem inWindow_mono {start end_ end' : K} (h : end_ ≤ end') (nows : List K) :
    inWindow start end_ nows ≤ inWindow start end' nows := by
  refine List.countP_mono_left (fun now _ hnow => ?_)
  rw [decide_eq_true_eq] at hnow ⊢
  exact ⟨hnow.1, le_trans hnow.2 h⟩

end Windows

/-! ## Buckets -/

variable {K : Type*} [Field K] [LinearOrder K]

structure Bucket (K : Type*) where
  tokens : K
  last : K
  deriving DecidableEq

section Definitions

variable (capacity rate : K)

/-- The tokens a check at `now` finds; a bucket not seen before is full. -/
def level (now : K) : Option (Bucket K) → K
  | none => min capacity (capacity + (now - now) * rate)
  | some b => min capacity (b.tokens + (now - b.last) * rate)

/-- One check: whether it is admitted, and the bucket it leaves. -/
def check (now : K) (b : Option (Bucket K)) : Bool × Bucket K :=
  if level capacity rate now b < 1 then (false, ⟨level capacity rate now b, now⟩)
  else (true, ⟨level capacity rate now b - 1, now⟩)

/-- The bucket after checks with these readings. -/
def after (b : Option (Bucket K)) (nows : List K) : Option (Bucket K) :=
  nows.foldl (fun b now => some (check capacity rate now b).2) b

/-- The readings of the checks that are admitted. -/
def admitted (b : Option (Bucket K)) : List K → List K
  | [] => []
  | now :: nows =>
    let r := check capacity rate now b
    if r.1 then now :: admitted (some r.2) nows else admitted (some r.2) nows

/-- The potential of a bucket. -/
def Bucket.potential (b : Bucket K) : K := b.tokens - rate * b.last

end Definitions

variable {capacity rate : K} {b : Option (Bucket K)}

theorem after_concat (nows : List K) (now : K) : after capacity rate b (nows ++ [now]) =
    some (check capacity rate now (after capacity rate b nows)).2 := by
  unfold after
  rw [List.foldl_append]
  rfl

theorem admitted_concat (b : Option (Bucket K)) (nows : List K) (now : K) :
    admitted capacity rate b (nows ++ [now]) = admitted capacity rate b nows ++
      if (check capacity rate now (after capacity rate b nows)).1 then [now] else [] := by
  induction nows generalizing b with
  | nil =>
    simp only [List.nil_append, admitted]
    rfl
  | cons n nows ih =>
    simp only [List.cons_append, admitted, ih]
    split <;> rfl

theorem admitted_sublist (b : Option (Bucket K)) (nows : List K) :
    (admitted capacity rate b nows).Sublist nows := by
  induction nows generalizing b with
  | nil => exact List.Sublist.refl _
  | cons now nows ih =>
    unfold admitted
    dsimp only
    split
    · exact (ih _).cons_cons now
    · exact (ih _).cons now

/-- **What one check does**: it is admitted if there is a token, and takes it. -/
theorem check_cases (capacity rate now : K) (b : Option (Bucket K)) :
    (level capacity rate now b < 1 ∧
      check capacity rate now b = (false, ⟨level capacity rate now b, now⟩)) ∨
    (1 ≤ level capacity rate now b ∧
      check capacity rate now b = (true, ⟨level capacity rate now b - 1, now⟩)) := by
  unfold check
  by_cases h : level capacity rate now b < 1
  · exact Or.inl ⟨h, if_pos h⟩
  · exact Or.inr ⟨not_lt.mp h, if_neg h⟩

theorem check_last (now : K) : (check capacity rate now b).2.last = now := by
  rcases check_cases capacity rate now b with ⟨-, hc⟩ | ⟨-, hc⟩ <;> rw [hc]

/-- The bucket was last touched by one of the checks. -/
theorem after_last {nows : List K} {a : Bucket K} (h : after capacity rate none nows = some a) :
    a.last ∈ nows := by
  rcases List.eq_nil_or_concat nows with rfl | ⟨ns, n, rfl⟩
  · cases h
  · rw [List.concat_eq_append] at h ⊢
    rw [after_concat, Option.some.injEq] at h
    rw [← h, check_last]
    exact List.mem_append_right _ List.mem_cons_self

theorem level_le_capacity (capacity rate now : K) (b : Option (Bucket K)) :
    level capacity rate now b ≤ capacity := by
  cases b <;> exact min_le_left _ _

theorem level_none (now : K) : level capacity rate now none = capacity := by
  unfold level
  rw [sub_self, zero_mul, add_zero, min_self]

/-- Short of the capacity, the potential decides. -/
theorem level_of_not_full {b : Bucket K} {now : K}
    (h : level capacity rate now (some b) < capacity) :
    level capacity rate now (some b) = b.potential rate + rate * now := by
  simp only [level] at h ⊢
  rcases min_lt_iff.mp h with hlt | hlt
  · exact absurd hlt (lt_irrefl _)
  · rw [min_eq_right hlt.le]
    unfold Bucket.potential
    ring

variable [IsStrictOrderedRing K]

/-- The refill up to `now`, as a statement about the potential. -/
theorem level_le_potential (capacity rate now : K) (b : Bucket K) :
    level capacity rate now (some b) ≤ b.potential rate + rate * now := by
  have h : level capacity rate now (some b) ≤ b.tokens + (now - b.last) * rate := min_le_right _ _
  unfold Bucket.potential
  linarith

/-! ## The bound -/

/-- A bucket seen before admits no more than its potential allows. -/
theorem admitted_le_potential (hrate : 0 ≤ rate) (start end_ : K) (nows : List K) :
    ∀ b : Bucket K, 0 < inWindow start end_ (admitted capacity rate (some b) nows) →
      (inWindow start end_ (admitted capacity rate (some b) nows) : K) ≤ b.potential rate +
        rate * end_ := by
  induction nows with
  | nil =>
    intro b h
    exact absurd h (lt_irrefl 0)
  | cons now nows ih =>
    intro b h
    have hlevel := level_le_potential capacity rate now b
    unfold admitted at h ⊢
    rcases check_cases capacity rate now (some b) with ⟨-, hc⟩ | ⟨hone, hc⟩
    · simp only [hc, Bool.false_eq_true, if_false] at h ⊢
      have hrest := ih _ h
      unfold Bucket.potential at hrest hlevel ⊢
      simp only at hrest
      linarith
    · simp only [hc, if_true, inWindow_cons] at h ⊢
      have hpot : (Bucket.potential rate ⟨level capacity rate now (some b) - 1, now⟩) ≤
          b.potential rate - 1 := by
        unfold Bucket.potential at hlevel ⊢
        simp only
        linarith
      by_cases hw : start ≤ now ∧ now ≤ end_
      · -- the first admission of the window that is left to count
        rw [if_pos hw]
        have hend := mul_le_mul_of_nonneg_left hw.2 hrate
        push_cast
        by_cases hz : inWindow start end_ (admitted capacity rate
            (some ⟨level capacity rate now (some b) - 1, now⟩) nows) = 0
        · rw [hz, Nat.cast_zero]
          linarith
        · have hrest := ih _ (Nat.pos_of_ne_zero hz)
          linarith
      · rw [if_neg hw, Nat.add_zero] at h ⊢
        have hrest := ih _ h
        linarith

/-- **A bucket admits at most `capacity + rate * T` checks in a window of length `T`**, in
whatever order the readings are processed. -/
theorem admitted_le (hcap : 0 ≤ capacity) (hrate : 0 ≤ rate) (start end_ : K) (hw : start ≤ end_)
    (nows : List K) :
    ∀ b : Option (Bucket K), (inWindow start end_ (admitted capacity rate b nows) : K) ≤
      capacity + rate * (end_ - start) := by
  have hT : 0 ≤ rate * (end_ - start) := mul_nonneg hrate (sub_nonneg.mpr hw)
  induction nows with
  | nil =>
    intro b
    simp only [admitted, inWindow_nil, Nat.cast_zero]
    linarith
  | cons now nows ih =>
    intro b
    unfold admitted
    rcases check_cases capacity rate now b with ⟨-, hc⟩ | ⟨hone, hc⟩
    · simp only [hc, Bool.false_eq_true, if_false]
      exact ih _
    · simp only [hc, if_true, inWindow_cons]
      by_cases hin : start ≤ now ∧ now ≤ end_
      · -- the bucket held at most `capacity` when the first check of the window was made
        rw [if_pos hin]
        have hfull := level_le_capacity capacity rate now b
        have hstart := mul_le_mul_of_nonneg_left hin.1 hrate
        push_cast
        by_cases hz : inWindow start end_ (admitted capacity rate
            (some ⟨level capacity rate now b - 1, now⟩) nows) = 0
        · rw [hz, Nat.cast_zero]
          linarith
        · have hrest := admitted_le_potential hrate start end_ nows _ (Nat.pos_of_ne_zero hz)
          unfold Bucket.potential at hrest
          simp only at hrest
          linarith
      · rw [if_neg hin, Nat.add_zero]
        exact ih _

/-! ## Refusals -/

/-- Since some reading, the bucket was full and has lost only what was admitted. -/
def Accounted (capacity rate : K) (nows : List K) (end_ : K) (b : Bucket K) : Prop :=
  ∃ start ∈ nows, capacity - rate * start ≤
    b.potential rate + inWindow start end_ (admitted capacity rate none nows)

/-- With the readings in order, a bucket is accounted for after each of them. -/
theorem accounted (nows : List K) (hs : nows.Pairwise (· ≤ ·)) (b : Bucket K)
    (hb : after capacity rate none nows = some b) : Accounted capacity rate nows b.last b := by
  induction nows using List.reverseRecOn generalizing b with
  | nil => cases hb
  | append_singleton nows now ih =>
    obtain ⟨hs, -, hlast⟩ := List.pairwise_append.mp hs
    have hle : ∀ n ∈ nows, n ≤ now := fun n hn => hlast n hn now List.mem_cons_self
    rw [after_concat, Option.some.injEq] at hb
    have hbl : b.last = now := by
      rw [← hb, check_last]
    have hcount : ∀ start ≤ now,
      (inWindow start now (admitted capacity rate none (nows ++ [now])) : K) +
        b.potential rate = inWindow start now (admitted capacity rate none nows) +
          (level capacity rate now (after capacity rate none nows) - rate * now) := by
      intro start hstart
      rw [admitted_concat, inWindow_append]
      rcases check_cases capacity rate now (after capacity rate none nows) with ⟨-, hc⟩ | ⟨-, hc⟩
      · rw [← hb, hc]
        simp [Bucket.potential]
      · rw [← hb, hc]
        simp only [if_true, inWindow_cons, inWindow_nil, hstart, le_refl, and_self,
          Bucket.potential]
        push_cast
        ring
    -- either the refill fills the bucket at this reading, or the earlier account goes on
    by_cases hfull : capacity ≤ level capacity rate now (after capacity rate none nows)
    · refine ⟨now, List.mem_append_right _ List.mem_cons_self, ?_⟩
      have h := hcount now le_rfl
      have hn : (0 : K) ≤ inWindow now now (admitted capacity rate none nows) := Nat.cast_nonneg _
      rw [hbl]
      linarith
    · cases ha : after capacity rate none nows with
      | none =>
        rw [ha, level_none] at hfull
        exact absurd le_rfl hfull
      | some a =>
        obtain ⟨start, hm, hacc⟩ := ih hs a ha
        refine ⟨start, List.mem_append_left _ hm, ?_⟩
        have h := hcount start (hle start hm)
        have hmono : (inWindow start a.last (admitted capacity rate none nows) : K) ≤
            inWindow start now (admitted capacity rate none nows) := by
          exact_mod_cast inWindow_mono (hle a.last (after_last ha)) _
        have hlevel : level capacity rate now (some a) = a.potential rate + rate * now :=
          level_of_not_full (not_le.mp (ha ▸ hfull))
        rw [ha, hlevel] at h
        rw [hbl]
        linarith

/-- **A refused check would have exceeded the bound** for a window that ends at it, if the
readings are processed in order. -/
theorem refused_window (hcap : 1 ≤ capacity) (nows : List K) (now : K)
    (hs : (nows ++ [now]).Pairwise (· ≤ ·))
    (h : (check capacity rate now (after capacity rate none nows)).1 = false) :
    ∃ start ≤ now, capacity + rate * (now - start) <
      (inWindow start now (admitted capacity rate none nows) : K) + 1 := by
  obtain ⟨hs, -, hlast⟩ := List.pairwise_append.mp hs
  have hle : ∀ n ∈ nows, n ≤ now := fun n hn => hlast n hn now List.mem_cons_self
  have hlevel : level capacity rate now (after capacity rate none nows) < 1 := by
    rcases check_cases capacity rate now (after capacity rate none nows) with ⟨hlt, -⟩ | ⟨-, hc⟩
    · exact hlt
    · rw [hc] at h
      cases h
  cases ha : after capacity rate none nows with
  | none =>
    rw [ha, level_none] at hlevel
    exact absurd hcap (not_le.mpr hlevel)
  | some b =>
    rw [ha] at hlevel
    obtain ⟨start, hm, hacc⟩ := accounted nows hs b ha
    refine ⟨start, hle start hm, ?_⟩
    rw [level_of_not_full (lt_of_lt_of_le hlevel hcap)] at hlevel
    have hmono : (inWindow start b.last (admitted capacity rate none nows) : K) ≤
        inWindow start now (admitted capacity rate none nows) := by
      exact_mod_cast inWindow_mono (hle b.last (after_last ha)) _
    linarith

/-! ## Callers that are never refused -/

/-- **A caller is never refused exactly if it keeps to the bound itself**, with the readings in
order: no window of them exceeds what the bucket admits. -/
theorem admitted_all_iff (hcap : 1 ≤ capacity) (hrate : 0 ≤ rate) (nows : List K)
    (hs : nows.Pairwise (· ≤ ·)) :
    admitted capacity rate none nows = nows ↔
      ∀ start end_, start ≤ end_ → (inWindow start end_ nows : K) ≤ capacity + rate *
        (end_ - start) := by
  constructor
  · intro h start end_ hw
    have hbound := admitted_le (le_trans zero_le_one hcap) hrate start end_ hw nows none
    rwa [h] at hbound
  · intro h
    induction nows using List.reverseRecOn with
    | nil => rfl
    | append_singleton nows now ih =>
      have hfront : admitted capacity rate none nows = nows := by
        refine ih (List.pairwise_append.mp hs).1
          (fun start end_ hw => le_trans ?_ (h start end_ hw))
        rw [inWindow_append]
        exact_mod_cast Nat.le_add_right _ _
      rw [admitted_concat, hfront]
      by_contra hne
      have hrefused : (check capacity rate now (after capacity rate none nows)).1 = false := by
        rw [Bool.eq_false_iff]
        intro hc
        rw [if_pos hc] at hne
        exact hne rfl
      -- the refusal would have exceeded the bound in a window that ends at it
      obtain ⟨start, hle, hlt⟩ := refused_window hcap nows now hs hrefused
      have hbound := h start now hle
      rw [inWindow_append, inWindow_cons, inWindow_nil, if_pos ⟨hle, le_rfl⟩] at hbound
      rw [hfront] at hlt
      push_cast at hbound
      linarith

/-- **No bucket is overdrawn by more than the way back to its latest reading**: once every reading
lies before `m`, a refill up to `m` leaves no debt, in whatever order they were processed. -/
theorem potential_ge (hcap : 0 ≤ capacity) (hrate : 0 ≤ rate) {m : K} (nows : List K)
    (hm : ∀ n ∈ nows, n ≤ m) {b : Bucket K} (hb : after capacity rate none nows = some b) :
    -(rate * m) ≤ b.potential rate := by
  induction nows using List.reverseRecOn generalizing b with
  | nil => cases hb
  | append_singleton nows now ih =>
    have hnow : now ≤ m := hm now (List.mem_append_right _ List.mem_cons_self)
    have hm' : ∀ n ∈ nows, n ≤ m := fun n hn => hm n (List.mem_append_left _ hn)
    have hrm : rate * now ≤ rate * m := mul_le_mul_of_nonneg_left hnow hrate
    have hlevel : rate * now - rate * m ≤ level capacity rate now
        (after capacity rate none nows) := by
      cases ha : after capacity rate none nows with
      | none =>
        rw [level_none]
        linarith
      | some a =>
        have hpot := ih hm' ha
        unfold Bucket.potential at hpot
        refine le_min (by linarith) ?_
        linarith
    rw [after_concat, Option.some.injEq] at hb
    rw [← hb]
    unfold Bucket.potential
    rcases check_cases capacity rate now (after capacity rate none nows) with ⟨-, hc⟩ | ⟨hone, hc⟩
    · rw [hc]
      dsimp only
      linarith
    · -- an admission takes a token that was there
      rw [hc]
      dsimp only
      linarith

/-- **Waiting for one token is enough**, however often the caller has been refused before and in
whatever order the readings were processed. -/
theorem check_of_wait (hcap : 1 ≤ capacity) (hrate : 0 ≤ rate) (nows : List K) {now wait : K}
    (hwait : 1 ≤ wait * rate) (h : ∀ n ∈ nows, n + wait ≤ now) :
    (check capacity rate now (after capacity rate none nows)).1 = true := by
  have hlevel : 1 ≤ level capacity rate now (after capacity rate none nows) := by
    cases ha : after capacity rate none nows with
    | none =>
      rw [level_none]
      exact hcap
    | some b =>
      have hpot := potential_ge (m := now - wait) (le_trans zero_le_one hcap) hrate nows
        (fun n hn => le_sub_iff_add_le.mpr (h n hn)) ha
      unfold Bucket.potential at hpot
      refine le_min hcap ?_
      linarith
  rcases check_cases capacity rate now (after capacity rate none nows) with ⟨hlt, -⟩ | ⟨-, hc⟩
  · exact absurd hlevel (not_le.mpr hlt)
  · rw [hc]

end TokenBucket
