import Mathlib.Data.List.Nodup
import Mathlib.Data.List.Infix

/-! # First occurrences

`List.eraseDups` keeps the first occurrence of every element.  A list in which elements come
again is in order when its first occurrences are an initial part of a given ordered list.
What keeps it in order is one rule: an element may come only when everything before it has
come already (`prefix_concat`). -/
namespace FirstOccurrence

open List

variable {α β : Type*} [BEq α] [LawfulBEq α]

theorem eraseDups_concat_of_mem {xs : List α} {x : α} (h : x ∈ xs) :
    (xs ++ [x]).eraseDups = xs.eraseDups := by
  rw [eraseDups_append, removeAll, filter_cons_of_neg, filter_nil, eraseDups_nil, append_nil]
  rw [Bool.not_eq_true', Bool.not_eq_false]
  exact elem_eq_true_of_mem h

theorem eraseDups_concat_of_not_mem {xs : List α} {x : α} (h : x ∉ xs) :
    (xs ++ [x]).eraseDups = xs.eraseDups ++ [x] := by
  rw [eraseDups_append, removeAll, filter_cons_of_pos, filter_nil, eraseDups_cons, filter_nil,
    eraseDups_nil]
  rw [Bool.not_eq_true', Bool.eq_false_iff]
  exact fun he => h (mem_of_elem_eq_true he)

/-- An injective image has the images of the first occurrences for its own. -/
theorem eraseDups_map [BEq β] [LawfulBEq β] {f : α → β} {xs : List α}
    (h : ∀ x ∈ xs, ∀ y ∈ xs, f x = f y → x = y) : (xs.map f).eraseDups = xs.eraseDups.map f := by
  induction xs using List.reverseRecOn with
  | nil => rfl
  | append_singleton xs x ih =>
    have hsub : ∀ y ∈ xs, y ∈ xs ++ [x] := fun y hy => mem_append_left _ hy
    specialize ih (fun y hy z hz => h y (hsub y hy) z (hsub z hz))
    rw [map_append, map_singleton]
    by_cases hx : x ∈ xs
    · rw [eraseDups_concat_of_mem hx, eraseDups_concat_of_mem (mem_map_of_mem hx), ih]
    · have hfx : f x ∉ xs.map f := by
        intro hm
        obtain ⟨y, hy, he⟩ := mem_map.mp hm
        have hyx : y = x := h y (hsub y hy) x (mem_append_right _ mem_cons_self) he
        exact hx (hyx ▸ hy)
      rw [eraseDups_concat_of_not_mem hx, eraseDups_concat_of_not_mem hfx, ih, map_append,
        map_singleton]

/-- **What comes next keeps the order.**  Everything that is ordered before the new element
has come already. -/
theorem prefix_concat {r : α → α → Prop} {xs ys : List α} {x : α} (hirr : ∀ y, ¬ r y y)
    (hys : ys.Pairwise r) (hpre : xs.eraseDups <+: ys) (hx : x ∈ ys)
    (hbefore : ∀ y ∈ ys, r y x → y ∈ xs) :
    (xs ++ [x]).eraseDups <+: ys := by
  by_cases hmem : x ∈ xs
  · rw [eraseDups_concat_of_mem hmem]
    exact hpre
  · rw [eraseDups_concat_of_not_mem hmem]
    obtain ⟨rest, rfl⟩ := hpre
    rcases mem_append.mp hx with hold | hrest
    · exact absurd (mem_eraseDups.mp hold) hmem
    · obtain ⟨-, hpair, hcross⟩ := pairwise_append.mp hys
      -- the first element that has not come can only be the new one
      cases rest with
      | nil => cases hrest
      | cons y rest =>
        rcases mem_cons.mp hrest with rfl | hlater
        · exact ⟨rest, by rw [append_assoc, singleton_append]⟩
        · have hy : y ∈ xs := hbefore y (mem_append_right _ mem_cons_self)
            (rel_of_pairwise_cons hpair hlater)
          exact absurd (hcross y (mem_eraseDups.mpr hy) y mem_cons_self) (hirr y)

omit [BEq α] [LawfulBEq α] in
/-- An initial part grows by the element that comes after it. -/
theorem prefix_append_singleton {xs ys : List α} {y : α} (h : xs <+: ys)
    (hy : ys[xs.length]? = some y) :
    xs ++ [y] <+: ys := by
  obtain ⟨rest, rfl⟩ := h
  rw [getElem?_append_right (Nat.le_refl _), Nat.sub_self] at hy
  cases rest with
  | nil => cases hy
  | cons z rest =>
    cases hy
    exact ⟨rest, by rw [append_assoc, singleton_append]⟩

/-- Where everything has come, everything has come in order. -/
theorem eq_of_prefix {xs ys : List α} (hys : ys.Nodup) (hpre : xs.eraseDups <+: ys)
    (hall : ∀ y ∈ ys, y ∈ xs) :
    xs.eraseDups = ys := by
  obtain ⟨rest, rfl⟩ := hpre
  cases rest with
  | nil => rw [append_nil]
  | cons y rest =>
    have hy : y ∈ xs := hall y (mem_append_right _ mem_cons_self)
    exact absurd rfl ((nodup_append.mp hys).2.2 y (mem_eraseDups.mpr hy) y mem_cons_self)

end FirstOccurrence
