import Mathlib.Data.List.Nodup
import Mathlib.Data.List.Infix
import Mathlib.Data.List.Induction

/-! # Merging by key

A store keeps a list of entries, each under a key, and takes batches: `absorb` appends the
entries of a batch whose keys the store does not have.  The store grows at its end, and under
every key it has the first entry that ever came (`find?_absorb`).  It has each key once exactly
if no batch brings a new key twice (`nodup_absorb_iff`): a batch is compared with the store and
not with itself. -/
namespace KeyedMerge

variable {α κ : Type*} [DecidableEq κ] (key : α → κ)

/-- The entries of a batch whose keys are new. -/
def fresh (store batch : List α) : List α := batch.filter (fun a => key a ∉ store.map key)

def absorb (store batch : List α) : List α := store ++ fresh key store batch

/-- The store after the batches. -/
def absorbAll (batches : List (List α)) : List α := batches.foldl (absorb key) []

variable {key} {store batch : List α}

@[simp] theorem absorbAll_nil : absorbAll key [] = [] := rfl

theorem absorbAll_concat (batches : List (List α)) (batch : List α) :
    absorbAll key (batches ++ [batch]) = absorb key (absorbAll key batches) batch := by
  unfold absorbAll
  rw [List.foldl_append]
  rfl

theorem mem_fresh {a : α} : a ∈ fresh key store batch ↔ a ∈ batch ∧ key a ∉ store.map key := by
  unfold fresh
  rw [List.mem_filter, decide_eq_true_eq]

theorem prefix_absorb (store batch : List α) : store <+: absorb key store batch :=
  List.prefix_append _ _

/-- Every key of the batch is there afterwards. -/
theorem key_mem_absorb {a : α} (h : a ∈ batch) : key a ∈ (absorb key store batch).map key := by
  unfold absorb
  rw [List.map_append, List.mem_append]
  by_cases hk : key a ∈ store.map key
  · exact Or.inl hk
  · exact Or.inr (List.mem_map_of_mem (mem_fresh.mpr ⟨h, hk⟩))

theorem key_mem_absorb_iff {k : κ} : k ∈ (absorb key store batch).map key ↔ k ∈ store.map key ∨
    k ∈ batch.map key := by
  constructor
  · unfold absorb
    rw [List.map_append, List.mem_append]
    refine Or.imp_right (fun hk => ?_)
    obtain ⟨a, ha, rfl⟩ := List.mem_map.mp hk
    exact List.mem_map_of_mem (mem_fresh.mp ha).1
  · rintro (hk | hk)
    · exact ((prefix_absorb store batch).map key).subset hk
    · obtain ⟨a, ha, rfl⟩ := List.mem_map.mp hk
      exact key_mem_absorb ha

/-- A batch brings nothing exactly if the store has all its keys. -/
theorem fresh_eq_nil_iff : fresh key store batch = [] ↔ ∀ a ∈ batch, key a ∈ store.map key := by
  unfold fresh
  rw [List.filter_eq_nil_iff]
  refine forall₂_congr (fun a _ => ?_)
  rw [decide_eq_true_eq, not_not]

theorem nodup_absorb_iff : ((absorb key store batch).map key).Nodup ↔
    (store.map key).Nodup ∧ ((fresh key store batch).map key).Nodup := by
  unfold absorb
  rw [List.map_append, List.nodup_append']
  constructor
  · rintro ⟨hs, hf, -⟩
    exact ⟨hs, hf⟩
  · rintro ⟨hs, hf⟩
    refine ⟨hs, hf, fun k hk hkf => ?_⟩
    obtain ⟨a, ha, rfl⟩ := List.mem_map.mp hkf
    exact (mem_fresh.mp ha).2 hk

/-- **The first entry under a key stays the first.** -/
theorem find?_absorb (k : κ) :
    (absorb key store batch).find? (fun a => key a = k) = (store ++ batch).find?
    (fun a => key a = k) := by
  unfold absorb
  rw [List.find?_append, List.find?_append]
  cases hs : store.find? (fun a => key a = k) with
  | some a => rfl
  | none =>
    have hnone : ∀ a ∈ store, ¬ key a = k := by
      intro a ha hk
      exact List.find?_eq_none.mp hs a ha (decide_eq_true hk)
    rw [Option.none_or, Option.none_or]
    unfold fresh
    rw [List.find?_filter]
    refine congrArg (fun p => List.find? p batch) (funext fun a => ?_)
    by_cases hk : key a = k
    · have hnew : key a ∉ store.map key := by
        intro hm
        obtain ⟨b, hb, he⟩ := List.mem_map.mp hm
        exact hnone b hb (he.trans hk)
      simp only [decide_eq_true hnew, decide_eq_true hk, and_self, decide_true]
    · simp only [decide_eq_false hk, Bool.false_eq_true, and_false, decide_false]

/-- **A key has the entry that came first of all batches.** -/
theorem find?_absorbAll (batches : List (List α)) (k : κ) :
    (absorbAll key batches).find? (fun a => key a = k) = batches.flatten.find?
    (fun a => key a = k) := by
  induction batches using List.reverseRecOn with
  | nil => rfl
  | append_singleton batches batch ih =>
    rw [absorbAll_concat, find?_absorb, List.find?_append, ih, List.flatten_append,
      List.find?_append, List.flatten_singleton]

/-- The store has the keys of all batches. -/
theorem key_mem_absorbAll_iff {batches : List (List α)} {k : κ} :
    k ∈ (absorbAll key batches).map key ↔ ∃ batch ∈ batches, k ∈ batch.map key := by
  induction batches using List.reverseRecOn with
  | nil => exact iff_of_false List.not_mem_nil (fun ⟨_, hb, _⟩ => List.not_mem_nil hb)
  | append_singleton batches last ih =>
    rw [absorbAll_concat, key_mem_absorb_iff, ih]
    simp only [List.mem_append, List.mem_singleton, or_and_right, exists_or, exists_eq_left]

theorem key_mem_absorbAll {batches : List (List α)} {batch : List α} {a : α} (hb : batch ∈ batches)
    (ha : a ∈ batch) :
    key a ∈ (absorbAll key batches).map key :=
  key_mem_absorbAll_iff.mpr ⟨batch, hb, List.mem_map_of_mem ha⟩

theorem absorbAll_subset (batches : List (List α)) :
    ∀ {a}, a ∈ absorbAll key batches → a ∈ batches.flatten := by
  intro a ha
  induction batches using List.reverseRecOn with
  | nil => cases ha
  | append_singleton batches batch ih =>
    rw [absorbAll_concat, absorb, List.mem_append] at ha
    rw [List.flatten_append, List.mem_append, List.flatten_singleton]
    exact ha.imp ih (fun hf => (mem_fresh.mp hf).1)

/-- Without repeated keys an entry is found exactly if it is there. -/
theorem find?_key_iff {xs : List α} (h : (xs.map key).Nodup) {k : κ} {a : α} :
    xs.find? (fun a => key a = k) = some a ↔ a ∈ xs ∧ key a = k := by
  constructor
  · intro hf
    exact ⟨List.mem_of_find?_eq_some hf, by simpa using List.find?_some hf⟩
  · rintro ⟨ha, rfl⟩
    cases hf : xs.find? (fun b => key b = key a) with
    | none => exact absurd (decide_eq_true rfl) (List.find?_eq_none.mp hf a ha)
    | some b =>
      have hkb : key b = key a := by simpa using List.find?_some hf
      rw [List.inj_on_of_nodup_map h (List.mem_of_find?_eq_some hf) ha hkb]

/-- Then the last entry under a key is the first. -/
theorem find?_reverse {xs : List α} (h : (xs.map key).Nodup) (k : κ) :
    xs.reverse.find? (fun a => key a = k) = xs.find? (fun a => key a = k) := by
  have hr : (xs.reverse.map key).Nodup := by
    rw [List.map_reverse, List.nodup_reverse]
    exact h
  refine Option.ext (fun a => ?_)
  rw [find?_key_iff hr, find?_key_iff h, List.mem_reverse]

end KeyedMerge
