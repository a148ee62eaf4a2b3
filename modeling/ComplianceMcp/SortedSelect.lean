import Mathlib.Data.List.Sort

/-! # Selecting from a sorted list

A stable sort and a selection can change places.  In a list that is sorted by a key, the entries up
to a threshold are its front and those from a threshold on are its back, so a wider threshold only
adds entries at one end. -/
namespace SortedSelect

open List

variable {α : Type*} (r : α → α → Prop) [DecidableRel r] (p : α → Bool)

theorem filter_orderedInsert [IsTrans α r] (a : α) {l : List α} (hs : l.Pairwise r) :
    (l.orderedInsert r a).filter p = if p a then (l.filter p).orderedInsert r a
      else l.filter p := by
  induction l with
  | nil =>
    rw [orderedInsert_nil]
    split
    · next ha => rw [filter_cons_of_pos ha, filter_nil, orderedInsert_nil]
    · next ha => rw [filter_cons_of_neg ha, filter_nil]
  | cons b l ih =>
    obtain ⟨hb, hl⟩ := pairwise_cons.mp hs
    by_cases hab : r a b
    · rw [orderedInsert_cons_of_le r l hab]
      -- everything behind `b` comes after `a` as well, so `a` stays in front
      have hfront : ∀ c ∈ (b :: l).filter p, r a c := by
        intro c hc
        rcases mem_cons.mp (mem_of_mem_filter hc) with rfl | hc
        · exact hab
        · exact IsTrans.trans _ _ _ hab (hb c hc)
      split
      · next ha =>
        rw [filter_cons_of_pos ha]
        cases hf : (b :: l).filter p with
        | nil => rw [orderedInsert_nil]
        | cons c m => rw [orderedInsert_cons_of_le r m (hfront c (by rw [hf]; exact mem_cons_self))]
      · next ha => rw [filter_cons_of_neg ha]
    · rw [orderedInsert_of_not_le r l hab]
      by_cases hpb : p b = true
      · rw [filter_cons_of_pos hpb, filter_cons_of_pos hpb, ih hl]
        split
        · rw [orderedInsert_of_not_le r _ hab]
        · rfl
      · rw [filter_cons_of_neg hpb, filter_cons_of_neg hpb, ih hl]

/-- **A stable sort and a selection can change places.** -/
theorem filter_insertionSort [IsTrans α r] [Std.Total r] (l : List α) :
    (l.insertionSort r).filter p = (l.filter p).insertionSort r := by
  induction l with
  | nil => rfl
  | cons a l ih =>
    rw [insertionSort_cons, filter_orderedInsert r p a (pairwise_insertionSort r l), ih]
    split
    · next ha => rw [filter_cons_of_pos ha, insertionSort_cons]
    · next ha => rw [filter_cons_of_neg ha]

variable {κ : Type*} [LinearOrder κ] {f : α → κ}

/-- The entries up to a threshold are the front of the list. -/
theorem filter_le_front {l : List α} (hs : l.Pairwise (fun a b => f a ≤ f b)) (t : κ) :
    l.filter (fun a => f a ≤ t) <+: l := by
  induction l with
  | nil => exact prefix_rfl
  | cons a l ih =>
    obtain ⟨ha, hl⟩ := pairwise_cons.mp hs
    by_cases hat : f a ≤ t
    · rw [filter_cons_of_pos (by rwa [decide_eq_true_eq])]
      exact (prefix_cons_inj a).mpr (ih hl)
    · have hnil : (a :: l).filter (fun b => f b ≤ t) = [] := by
        refine filter_eq_nil_iff.mpr (fun b hb hbt => hat ?_)
        rcases mem_cons.mp hb with rfl | hb
        · exact of_decide_eq_true hbt
        · exact (ha b hb).trans (of_decide_eq_true hbt)
      rw [hnil]
      exact nil_prefix

/-- The entries from a threshold on are the back of the list. -/
theorem filter_ge_back {l : List α} (hs : l.Pairwise (fun a b => f a ≤ f b)) (t : κ) :
    l.filter (fun a => t ≤ f a) <:+ l := by
  induction l with
  | nil => exact suffix_rfl
  | cons a l ih =>
    obtain ⟨ha, hl⟩ := pairwise_cons.mp hs
    by_cases hat : t ≤ f a
    · have hall : (a :: l).filter (fun b => t ≤ f b) = a :: l := by
        refine filter_eq_self.mpr (fun b hb => decide_eq_true ?_)
        rcases mem_cons.mp hb with rfl | hb
        · exact hat
        · exact hat.trans (ha b hb)
      rewrite [hall]
      exact suffix_rfl
    · rw [filter_cons_of_neg (by rwa [decide_eq_true_eq])]
      exact (ih hl).trans (suffix_cons a l)

end SortedSelect
