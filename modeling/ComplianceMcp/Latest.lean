import Mathlib.Data.List.Sort

/-! # The latest entries of a list

Entries carry a key from a linear order, and several may share the greatest one.  A running
maximum that moves on only when the key grows keeps the first of these; the end of a
stable sort is the last of them.  `latestByKey` runs one such maximum for each group of
entries, in a table of assignments. -/
namespace Latest

open List

variable {α γ κ ν : Type*} [LinearOrder κ] (f : α → κ)

/-- No entry of the list has a greater key. -/
structure IsLatest (l : List α) (a : α) : Prop where
  mem : a ∈ l
  le : ∀ b ∈ l, f b ≤ f a

/-- One more entry is compared with the greatest so far. -/
def keepGreater (m : Option α) (a : α) : Option α :=
  match m with
  | none => some a
  | some b => if f b < f a then some a else some b

/-- The maximum of a list, replaced only by a greater entry. -/
def runningMax (l : List α) : Option α := l.foldl (keepGreater f) none

/-! ## The running maximum -/

variable {f}

theorem foldl_keepGreater_some (l : List α) (b : α) :
    ∃ a, l.foldl (keepGreater f) (some b) = some a := by
  induction l generalizing b with
  | nil => exact ⟨b, rfl⟩
  | cons x xs ih =>
    rw [List.foldl_cons, keepGreater]
    split
    · exact ih x
    · exact ih b

theorem runningMax_eq_none {l : List α} : runningMax f l = none ↔ l = [] := by
  constructor
  · intro h
    cases l with
    | nil => rfl
    | cons x xs =>
      obtain ⟨a, ha⟩ := foldl_keepGreater_some (f := f) xs x
      exact nomatch ha.symm.trans h
  · rintro rfl
    rfl

theorem foldl_keepGreater_split {l : List α} {a b : α}
    (h : l.foldl (keepGreater f) (some b) = some a) :
    ∃ l₁ l₂, b :: l = l₁ ++ a :: l₂ ∧ (∀ c ∈ l₁, f c < f a) ∧ ∀ c ∈ l₂, f c ≤ f a := by
  induction l generalizing b with
  | nil =>
    cases h
    exact ⟨[], [], rfl, fun _ h => (nomatch h), fun _ h => (nomatch h)⟩
  | cons x xs ih =>
    rw [List.foldl_cons, keepGreater] at h
    split at h
    · next hbx =>
      obtain ⟨l₁, l₂, heq, hlt, hle⟩ := ih h
      have hxa : f x ≤ f a := by
        have hx : x ∈ l₁ ++ a :: l₂ := heq ▸ List.mem_cons_self
        rcases List.mem_append.mp hx with hx | hx
        · exact le_of_lt (hlt x hx)
        · rcases List.mem_cons.mp hx with rfl | hx
          · exact le_refl _
          · exact hle x hx
      refine ⟨b :: l₁, l₂, by rw [heq]; rfl, fun c hc => ?_, hle⟩
      rcases List.mem_cons.mp hc with rfl | hc
      · exact lt_of_lt_of_le hbx hxa
      · exact hlt c hc
    · next hbx =>
      obtain ⟨l₁, l₂, heq, hlt, hle⟩ := ih h
      cases l₁ with
      | nil =>
        cases heq
        refine ⟨[], x :: xs, rfl, hlt, fun c hc => ?_⟩
        rcases List.mem_cons.mp hc with rfl | hc
        · exact not_lt.mp hbx
        · exact hle c hc
      | cons y l₁ =>
        cases heq
        have hb : f b < f a := hlt b List.mem_cons_self
        refine ⟨b :: x :: l₁, l₂, rfl, fun c hc => ?_, hle⟩
        rcases List.mem_cons.mp hc with rfl | hc
        · exact hb
        rcases List.mem_cons.mp hc with rfl | hc
        · exact lt_of_le_of_lt (not_lt.mp hbx) hb
        · exact hlt c (List.mem_cons_of_mem _ hc)

/-- **The running maximum is the first of the latest entries.** -/
theorem runningMax_split {l : List α} {a : α} (h : runningMax f l = some a) :
    ∃ l₁ l₂, l = l₁ ++ a :: l₂ ∧ (∀ b ∈ l₁, f b < f a) ∧ ∀ b ∈ l₂, f b ≤ f a := by
  cases l with
  | nil => cases h
  | cons x xs => exact foldl_keepGreater_split h

theorem runningMax_isLatest {l : List α} {a : α} (h : runningMax f l = some a) :
    IsLatest f l a := by
  obtain ⟨l₁, l₂, rfl, hlt, hle⟩ := runningMax_split h
  refine ⟨List.mem_append_right _ List.mem_cons_self, fun b hb => ?_⟩
  rcases List.mem_append.mp hb with hb | hb
  · exact le_of_lt (hlt b hb)
  · rcases List.mem_cons.mp hb with rfl | hb
    · exact le_refl _
    · exact hle b hb

/-- Another of the latest entries comes after the running maximum. -/
theorem runningMax_before {l : List α} {a b : α} (h : runningMax f l = some a) (hb : IsLatest f l b)
    (hne : b ≠ a) : [a, b] <+ l := by
  obtain ⟨l₁, l₂, rfl, hlt, -⟩ := runningMax_split h
  rcases List.mem_append.mp hb.mem with hm | hm
  · have := hb.le a (List.mem_append_right _ List.mem_cons_self)
    exact absurd (hlt b hm) (not_lt.mpr this)
  · rcases List.mem_cons.mp hm with rfl | hm
    · exact absurd rfl hne
    · exact ((List.singleton_sublist.mpr hm).cons_cons a).trans (List.sublist_append_right _ _)

/-! ## The end of a sorted list -/

theorem getLast_isLatest {l : List α} {a : α} (hs : l.Pairwise (fun b c => f b ≤ f c))
    (h : l.getLast? = some a) : IsLatest f l a := by
  obtain ⟨l', rfl⟩ := List.getLast?_eq_some_iff.mp h
  refine ⟨List.mem_append_right _ List.mem_cons_self, fun b hb => ?_⟩
  rcases List.mem_append.mp hb with hb | hb
  · exact (List.pairwise_append.mp hs).2.2 b hb a List.mem_cons_self
  · rw [List.mem_singleton.mp hb]

/-- Nothing comes after the end of a list without repetitions. -/
theorem getLast_not_before {l : List α} {a b : α} (hn : l.Nodup) (h : l.getLast? = some a) :
    ¬ [a, b] <+ l := by
  obtain ⟨l', rfl⟩ := List.getLast?_eq_some_iff.mp h
  intro hsub
  have hcount := hsub.reverse
  rw [List.reverse_append, List.reverse_singleton, List.singleton_append] at hcount
  have hn' := List.nodup_reverse.mpr hn
  rw [List.reverse_append, List.reverse_singleton, List.singleton_append] at hn'
  have hnot : a ∉ l'.reverse := (List.nodup_cons.mp hn').1
  rcases List.cons_sublist_cons'.mp hcount with h' | ⟨rfl, h'⟩
  · exact hnot (h'.subset (List.mem_cons_of_mem _ List.mem_cons_self))
  · exact hnot (h'.subset List.mem_cons_self)

/-! ## Up to a threshold -/

/-- The last entry whose key is at most the threshold. -/
def lastUpTo (f : α → κ) (l : List α) (t : κ) : Option α := (l.filter (fun a => f a ≤ t)).getLast?

theorem lastUpTo_isLatest {l : List α} {t : κ} {a : α} (hs : l.Pairwise (fun b c => f b ≤ f c))
    (h : lastUpTo f l t = some a) : a ∈ l ∧ f a ≤ t ∧ ∀ b ∈ l, f b ≤ t → f b ≤ f a := by
  have hl : IsLatest f (l.filter (fun b => f b ≤ t)) a := getLast_isLatest (hs.filter _) h
  obtain ⟨hm, ht⟩ := List.mem_filter.mp hl.mem
  exact ⟨hm, of_decide_eq_true ht, fun b hb hbt =>
    hl.le b (List.mem_filter.mpr ⟨hb, decide_eq_true hbt⟩)⟩

theorem lastUpTo_eq_none {l : List α} {t : κ} : lastUpTo f l t = none ↔ ∀ a ∈ l, ¬ f a ≤ t := by
  rw [lastUpTo, List.getLast?_eq_none_iff, List.filter_eq_nil_iff]
  simp only [decide_eq_true_eq]

/-- **A sorted list changes its last entry only at its own keys.** -/
theorem lastUpTo_eq_iff {l : List α} {t t' : κ} (hs : l.Pairwise (fun b c => f b ≤ f c))
    (ht : t ≤ t') :
    lastUpTo f l t = lastUpTo f l t' ↔ ∀ a ∈ l, ¬ (t < f a ∧ f a ≤ t') := by
  constructor
  · rintro h a ha ⟨hlt, hle⟩
    cases hr : lastUpTo f l t' with
    | none => exact lastUpTo_eq_none.mp hr a ha hle
    | some b =>
      obtain ⟨-, hbt, -⟩ := lastUpTo_isLatest hs (h.trans hr)
      obtain ⟨-, -, hmax⟩ := lastUpTo_isLatest hs hr
      exact absurd (hlt.trans_le (hmax a ha hle)) (not_lt.mpr hbt)
  · intro h
    refine congrArg List.getLast?
      (List.filter_congr (fun a ha => decide_eq_decide.mpr ⟨fun hat => hat.trans ht,
      fun hat => ?_⟩))
    by_contra hgt
    exact h a ha ⟨not_le.mp hgt, hat⟩

/-! ## One maximum for each group -/

section Groups

variable [DecidableEq γ] (g : α → γ)

/-- `table[k] = v`: in its place, or at the end. -/
def assign (k : γ) (v : ν) : List (γ × ν) → List (γ × ν)
  | [] => [(k, v)]
  | e :: l => if e.1 = k then (k, v) :: l else e :: assign k v l

theorem lookup_cons_ite (k k' : γ) (v : ν) (l : List (γ × ν)) :
    ((k, v) :: l).lookup k' = if k' = k then some v else l.lookup k' := by
  rw [List.lookup_cons]
  split
  · next h => rw [if_pos (beq_iff_eq.mp h)]
  · next h => rw [if_neg (beq_eq_false_iff_ne.mp h)]

@[simp] theorem lookup_assign (k k' : γ) (v : ν) (l : List (γ × ν)) :
    (assign k v l).lookup k' = if k' = k then some v else l.lookup k' := by
  induction l with
  | nil => exact lookup_cons_ite k k' v []
  | cons e l ih =>
    obtain ⟨k₁, v₁⟩ := e
    rw [assign, lookup_cons_ite k₁]
    split
    · next h =>
      simp only at h
      subst h
      rw [lookup_cons_ite]
      split <;> rfl
    · next h =>
      rw [lookup_cons_ite, ih]
      by_cases h' : k' = k₁
      · rw [if_pos h', if_pos h', if_neg (fun he => h (h' ▸ he))]
      · rw [if_neg h', if_neg h']

/-- With each key once, whatever is in a table is found. -/
theorem lookup_of_mem {l : List (γ × ν)} (hn : (l.map Prod.fst).Nodup) {k : γ} {v : ν}
    (h : (k, v) ∈ l) : l.lookup k = some v := by
  obtain ⟨l₁, l₂, rfl⟩ := List.append_of_mem h
  refine List.lookup_eq_some_iff.mpr ⟨l₁, l₂, rfl, fun e he => ?_⟩
  rw [List.map_append, List.map_cons] at hn
  have hdis := (List.nodup_append.mp hn).2.2
  exact bne_iff_ne.mpr (hdis e.1 (List.mem_map_of_mem he) k List.mem_cons_self).symm

theorem mem_keys_assign {k k' : γ} {v : ν} {l : List (γ × ν)} :
    k' ∈ (assign k v l).map Prod.fst ↔ k' = k ∨ k' ∈ l.map Prod.fst := by
  induction l with
  | nil => simp [assign]
  | cons e l ih =>
    rw [assign]
    split
    · next h => simp [h]
    · next h =>
      rw [List.map_cons, List.mem_cons, ih, List.map_cons, List.mem_cons]
      exact or_left_comm

theorem nodup_keys_assign {k : γ} {v : ν} {l : List (γ × ν)} (h : (l.map Prod.fst).Nodup) :
    ((assign k v l).map Prod.fst).Nodup := by
  induction l with
  | nil => exact List.nodup_singleton k
  | cons e l ih =>
    rw [List.map_cons, List.nodup_cons] at h
    rw [assign]
    split
    · next he => exact List.nodup_cons.mpr ⟨he ▸ h.1, h.2⟩
    · next he =>
      refine List.nodup_cons.mpr ⟨fun hm => ?_, ih h.2⟩
      rcases mem_keys_assign.mp hm with hk | hm
      · exact he hk
      · exact h.1 hm

/-- `{g(a): a for a in l}`, after a table that is there already. -/
def tableOf (table : List (γ × α)) (l : List α) : List (γ × α) :=
  l.foldl (fun t a => assign (g a) a t) table

theorem nodup_keys_tableOf (l : List α) : ∀ table : List (γ × α), (table.map Prod.fst).Nodup →
    ((tableOf g table l).map Prod.fst).Nodup := by
  induction l with
  | nil => exact fun _ h => h
  | cons a l ih => exact fun table h => ih (assign (g a) a table) (nodup_keys_assign h)

/-- A table built by assignments keeps the last entry of each key. -/
theorem lookup_tableOf (k : γ) (l : List α) : ∀ table : List (γ × α),
    (tableOf g table l).lookup k = (l.reverse.find? (fun a => g a = k)).or (table.lookup k) := by
  induction l with
  | nil => exact fun _ => rfl
  | cons a l ih =>
    intro table
    have hrest : (tableOf g table (a :: l)).lookup k = _ := ih (assign (g a) a table)
    rw [hrest, List.reverse_cons, List.find?_append, lookup_assign, Option.or_assoc]
    by_cases h : g a = k
    · rw [if_pos h.symm, List.find?_cons_of_pos (by rwa [decide_eq_true_eq]), Option.some_or]
    · rw [if_neg (fun hk => h hk.symm), List.find?_cons_of_neg (by rwa [decide_eq_true_eq]),
        List.find?_nil, Option.none_or]

theorem mem_tableOf {l : List α} {k : γ} {a : α} :
    (k, a) ∈ tableOf g [] l ↔ l.reverse.find? (fun b => g b = k) = some a := by
  have hlookup : (tableOf g [] l).lookup k = l.reverse.find? (fun b => g b = k) := by
    rw [lookup_tableOf, List.lookup_nil, Option.or_none]
  rw [← hlookup]
  constructor
  · exact lookup_of_mem (nodup_keys_tableOf g l [] List.nodup_nil)
  · intro h
    obtain ⟨l₁, l₂, heq, -⟩ := List.lookup_eq_some_iff.mp h
    exact heq ▸ List.mem_append_right _ List.mem_cons_self

/-- The entry is compared with the greatest of its group so far. -/
def keepGreaterOf (table : List (γ × α)) (a : α) : List (γ × α) :=
  match table.lookup (g a) with
  | none => assign (g a) a table
  | some b => if f b < f a then assign (g a) a table else table

variable (f) in
/-- The latest entry of each group. -/
def latestByKey (l : List α) : List (γ × α) := l.foldl (keepGreaterOf (f := f) g) []

/-- What the table says of a group is the maximum of the group. -/
theorem lookup_foldl_keepGreaterOf (k : γ) (l : List α) (table : List (γ × α)) :
    (l.foldl (keepGreaterOf (f := f) g) table).lookup k =
      (l.filter (fun a => g a = k)).foldl (keepGreater f) (table.lookup k) := by
  induction l generalizing table with
  | nil => rfl
  | cons a l ih =>
    rw [List.foldl_cons, ih]
    by_cases h : g a = k
    · rw [List.filter_cons_of_pos (p := fun b => decide (g b = k)) (decide_eq_true h),
        List.foldl_cons]
      congr 1
      subst h
      unfold keepGreaterOf keepGreater
      cases hb : table.lookup (g a) with
      | none => rw [lookup_assign, if_pos rfl]
      | some b =>
        simp only
        split
        · rw [lookup_assign, if_pos rfl]
        · exact hb
    · rw [List.filter_cons_of_neg (p := fun b => decide (g b = k))
        (fun he => h (of_decide_eq_true he))]
      congr 1
      unfold keepGreaterOf
      split
      · rw [lookup_assign, if_neg (Ne.symm h)]
      · split
        · rw [lookup_assign, if_neg (Ne.symm h)]
        · rfl

/-- **The table holds the running maximum of each group.** -/
theorem lookup_latestByKey (k : γ) (l : List α) :
    (latestByKey f g l).lookup k = runningMax f (l.filter (fun a => g a = k)) :=
  lookup_foldl_keepGreaterOf g k l []

theorem nodup_keys_latestByKey (l : List α) : ((latestByKey f g l).map Prod.fst).Nodup := by
  have h : ∀ (l : List α) (table : List (γ × α)), (table.map Prod.fst).Nodup →
      ((l.foldl (keepGreaterOf (f := f) g) table).map Prod.fst).Nodup := by
    intro l
    induction l with
    | nil => exact fun _ h => h
    | cons a l ih =>
      intro table ht
      refine ih _ ?_
      unfold keepGreaterOf
      split
      · exact nodup_keys_assign ht
      · split
        · exact nodup_keys_assign ht
        · exact ht
  exact h l [] List.nodup_nil

/-- The table holds exactly the running maxima. -/
theorem mem_latestByKey {l : List α} {k : γ} {a : α} :
    (k, a) ∈ latestByKey f g l ↔ runningMax f (l.filter (fun b => g b = k)) = some a := by
  rw [← lookup_latestByKey]
  constructor
  · intro h
    exact lookup_of_mem (nodup_keys_latestByKey g l) h
  · intro h
    obtain ⟨l₁, l₂, heq, -⟩ := List.lookup_eq_some_iff.mp h
    exact heq ▸ List.mem_append_right _ List.mem_cons_self

end Groups

end Latest
