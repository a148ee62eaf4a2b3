import Mathlib.Data.List.Perm.Basic

/-! # Counting first matches

Each wanted item takes the first offer that fits it, and counts if that offer is good.  The
count depends on the order of the offers only where two of them contest items: swapping two
neighbours moves the items that fit both, and fit nothing before, from the one to the other.
`hits_perm_iff` says that the order does not matter exactly if every such swap is even. -/
namespace FirstMatch

variable {G O : Type*} (fits good : G → O → Bool) (wanted : List G)

/-- How many items have a good first offer. -/
def hits (offers : List O) : Nat := wanted.countP (fun g => (offers.find? (fits g)).any (good g))

/-- The item fits both offers, and none before them. -/
def contested (before : List O) (o o' : O) (g : G) : Bool :=
  fits g o && fits g o' && !before.any (fits g)

/-- Of two offers that follow each other in some order, each is good for as many of the items
they contest. -/
def Balanced (offers : List O) : Prop :=
  ∀ before o o' after, (before ++ o :: o' :: after).Perm offers →
    wanted.countP (fun g => contested fits before o o' g && good g o) =
      wanted.countP (fun g => contested fits before o o' g && good g o')

variable {fits good wanted}

theorem hits_cons (g : G) (offers : List O) : hits fits good (g :: wanted) offers =
    ((offers.find? (fits g)).any (good g)).toNat + hits fits good wanted offers := by
  unfold hits
  rw [List.countP_cons, Nat.add_comm]
  cases (offers.find? (fits g)).any (good g) with
  | true => rfl
  | false => rfl

/-- An item that only the second count has. -/
theorem countP_lt_countP {a b : G → Bool} {gs : List G} {g : G}
    (h : ∀ g, a g = true → b g = true) (hg : g ∈ gs) (ha : a g = false) (hb : b g = true) :
    gs.countP a < gs.countP b := by
  obtain ⟨before, after, rfl⟩ := List.append_of_mem hg
  have hbefore := List.countP_mono_left (l := before) (fun g _ => h g)
  have hafter := List.countP_mono_left (l := after) (fun g _ => h g)
  rw [List.countP_append, List.countP_append, List.countP_cons_of_pos hb,
    List.countP_cons_of_neg (by rw [ha]; exact Bool.false_ne_true)]
  omega

/-- Counts that agree item by item. -/
theorem countP_add_countP {a b c d : G → Bool}
    (h : ∀ g, (a g).toNat + (d g).toNat = (b g).toNat + (c g).toNat) (gs : List G) :
    gs.countP a + gs.countP d = gs.countP b + gs.countP c := by
  induction gs with
  | nil => rfl
  | cons g gs ih =>
    have hg := h g
    rw [List.countP_cons, List.countP_cons, List.countP_cons, List.countP_cons]
    cases ha : a g <;> cases hb : b g <;> cases hc : c g <;> cases hd : d g <;>
      simp only [ha, hb, hc, hd, Bool.toNat_true, Bool.toNat_false, if_true, Bool.false_eq_true,
        if_false] at hg ⊢ <;>
      omega

/-- **A swap of neighbours** moves the items they contest from the one to the other. -/
theorem hits_swap (before after : List O) (o o' : O) :
    hits fits good wanted (before ++ o :: o' :: after) +
        wanted.countP (fun g => contested fits before o o' g && good g o') =
      hits fits good wanted (before ++ o' :: o :: after) +
        wanted.countP (fun g => contested fits before o o' g && good g o) := by
  refine countP_add_countP (fun g => ?_) wanted
  rw [List.find?_append, List.find?_append]
  cases hb : before.find? (fits g) with
  | some x =>
    have hany : before.any (fits g) = true := by
      rw [List.any_eq_true]
      exact ⟨x, List.mem_of_find?_eq_some hb, List.find?_some hb⟩
    simp [contested, hany]
  | none =>
    have hany : before.any (fits g) = false := by
      rw [List.any_eq_false]
      exact fun x hx => List.find?_eq_none.mp hb x hx
    cases ho : fits g o <;> cases ho' : fits g o' <;> simp [contested, hany, ho, ho', Nat.add_comm]

theorem hits_append_perm {offers : List O} (hb : Balanced fits good wanted offers) {l l' : List O}
    (h : l.Perm l') :
    ∀ before, (before ++ l).Perm offers →
      hits fits good wanted (before ++ l) = hits fits good wanted (before ++ l') := by
  induction h with
  | nil => exact fun _ _ => rfl
  | @cons o l l' _ ih =>
    intro before hp
    rw [List.append_cons before o l] at hp ⊢
    rw [List.append_cons before o l']
    exact ih (before ++ [o]) hp
  | swap o o' after =>
    intro before hp
    have hswap := @hits_swap G O fits good wanted before after o' o
    have heven := hb before o' o after hp
    omega
  | trans h₁ _ ih₁ ih₂ =>
    intro before hp
    exact (ih₁ before hp).trans (ih₂ before ((h₁.symm.append_left before).trans hp))

/-- **The order does not matter exactly if it is balanced.** -/
theorem hits_perm_iff {offers : List O} :
    (∀ l : List O, l.Perm offers → hits fits good wanted l = hits fits good wanted offers) ↔
      Balanced fits good wanted offers := by
  constructor
  · intro h before o o' after hp
    have h₁ := h _ hp
    have h₂ := h (before ++ o' :: o :: after)
      (((List.Perm.swap o o' after).append_left before).trans hp)
    have hswap := @hits_swap G O fits good wanted before after o o'
    omega
  · intro h l hp
    exact hits_append_perm h hp [] hp

/-- Offers that fit the same items and are good for the same of them are balanced. -/
theorem balanced_of_agree {offers : List O} (h : ∀ o ∈ offers, ∀ o' ∈ offers, ∀ g ∈ wanted,
    fits g o = true → fits g o' = true →
    good g o = good g o') : Balanced fits good wanted offers := by
  intro before o o' after hp
  have ho : o ∈ offers := hp.subset (by simp)
  have ho' : o' ∈ offers := hp.subset (by simp)
  refine List.countP_congr (fun g hg => ?_)
  by_cases hc : contested fits before o o' g = true
  · have hfit : fits g o = true ∧ fits g o' = true := by
      simp only [contested, Bool.and_eq_true] at hc
      exact hc.1
    rw [h o ho o' ho' g hg hfit.1 hfit.2]
  · rw [Bool.not_eq_true] at hc
    rw [hc, Bool.false_and, Bool.false_and]

/-- Whether an item is matched at all does not depend on the order. -/
theorem isSome_find?_perm {l l' : List O} (h : l.Perm l') (p : O → Bool) :
    (l.find? p).isSome = (l'.find? p).isSome := by
  rw [Bool.eq_iff_iff, List.find?_isSome, List.find?_isSome]
  constructor
  · rintro ⟨x, hx, hp⟩
    exact ⟨x, h.subset hx, hp⟩
  · rintro ⟨x, hx, hp⟩
    exact ⟨x, h.symm.subset hx, hp⟩

end FirstMatch
