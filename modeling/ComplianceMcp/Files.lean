import Mathlib.Data.List.Sort
import Mathlib.Data.String.Basic

/-! # A directory of files

A directory maps names to what they stand for: the bytes of a file, or the inode it
is stored in, so the content type is a parameter.  No name occurs twice, which
the type carries.  `Dir.sortedNames` is the sorted listing of the names a pattern
selects; `sortedNames_eq` says that a listing is known once its members and its
order are, so a caller never looks at how entries are stored. -/
namespace Files

/-- The entries of one directory. -/
structure Dir (α : Type*) where
  entries : List (String × α)
  nodup : (entries.map Prod.fst).Nodup

namespace Dir

variable {α β : Type*}

/-- The directory without entries. -/
def empty : Dir α := ⟨[], List.nodup_nil⟩

/-- What the name stands for. -/
def read (d : Dir α) (n : String) : Option α := d.entries.lookup n

/-- The names in the directory. -/
def names (d : Dir α) : List String := d.entries.map Prod.fst

/-- `unlink`, without effect where there is no such name. -/
def remove (d : Dir α) (n : String) : Dir α where
  entries := d.entries.filter (fun e => e.1 ≠ n)
  nodup := d.nodup.sublist (List.filter_sublist.map Prod.fst)

/-- The entry is created, or replaced where there is one. -/
def write (d : Dir α) (n : String) (a : α) : Dir α where
  entries := (n, a) :: (d.remove n).entries
  nodup := by
    refine List.nodup_cons.mpr ⟨fun h => ?_, (d.remove n).nodup⟩
    obtain ⟨e, he, hn⟩ := List.mem_map.mp h
    exact of_decide_eq_true (List.mem_filter.mp he).2 hn

/-- `os.replace(a, b)`, `none` where there is no `a`. -/
def rename (d : Dir α) (a b : String) : Option (Dir α) :=
  (d.read a).map (fun x => (d.remove a).write b x)

/-- `touch(exist_ok=True)` with the content a new file has. -/
def touch (d : Dir α) (n : String) (a : α) : Dir α :=
  match d.read n with
  | some _ => d
  | none => d.write n a

/-- The directory with every entry's content mapped. -/
def map (f : α → β) (d : Dir α) : Dir β where
  entries := d.entries.map (fun e => (e.1, f e.2))
  nodup := by
    rw [List.map_map]
    exact d.nodup

theorem lookup_cons_of_ne {n k : String} (h : n ≠ k) (a : α) (es : List (String × α)) :
    ((k, a) :: es).lookup n = es.lookup n := by
  rw [List.lookup_cons, beq_false_of_ne h]

theorem lookup_filter_ne (es : List (String × α)) (n m : String) :
    (es.filter (fun e => e.1 ≠ n)).lookup m = if m = n then none else es.lookup m := by
  induction es with
  | nil => exact (ite_self _).symm
  | cons e es ih =>
    obtain ⟨k, a⟩ := e
    by_cases hk : k = n
    · rw [List.filter_cons_of_neg (by simpa using hk), ih]
      split
      · rfl
      · next hm => rw [lookup_cons_of_ne (fun h => hm (h.trans hk))]
    · rw [List.filter_cons_of_pos (by simpa using hk)]
      by_cases hm : m = k
      · subst hm
        rw [List.lookup_cons_self, List.lookup_cons_self, if_neg hk]
      · rw [lookup_cons_of_ne hm, lookup_cons_of_ne hm, ih]

@[simp] theorem read_empty (n : String) : (empty : Dir α).read n = none := rfl

theorem read_remove (d : Dir α) (n m : String) :
    (d.remove n).read m = if m = n then none else d.read m :=
  lookup_filter_ne d.entries n m

theorem read_write (d : Dir α) (n : String) (a : α) (m : String) :
    (d.write n a).read m = if m = n then some a else d.read m := by
  show ((n, a) :: (d.remove n).entries).lookup m = _
  split
  · next h => rw [h, List.lookup_cons_self]
  · next h =>
    rw [lookup_cons_of_ne h]
    exact (read_remove d n m).trans (if_neg h)

@[simp] theorem read_write_self (d : Dir α) (n : String) (a : α) :
    (d.write n a).read n = some a := by
  rw [read_write, if_pos rfl]

theorem read_write_of_ne (d : Dir α) {n m : String} (a : α) (h : m ≠ n) :
    (d.write n a).read m = d.read m := by
  rw [read_write, if_neg h]

theorem read_rename {d e : Dir α} {a b : String} (h : d.rename a b = some e) (m : String) :
    e.read m = if m = b then d.read a else if m = a then none else d.read m := by
  obtain ⟨x, hx, rfl⟩ := Option.map_eq_some_iff.mp h
  rw [read_write, read_remove, hx]

theorem rename_eq_none {d : Dir α} {a b : String} : d.rename a b = none ↔ d.read a = none :=
  Option.map_eq_none_iff

theorem read_touch (d : Dir α) (n : String) (a : α) (m : String) :
    (d.touch n a).read m = if m = n then some ((d.read n).getD a) else d.read m := by
  unfold touch
  split
  · next x hx =>
    split
    · next h => rw [h, hx, Option.getD_some]
    · rfl
  · next hx =>
    rw [read_write, hx, Option.getD_none]

theorem read_map (f : α → β) (d : Dir α) (n : String) : (d.map f).read n = (d.read n).map f := by
  show (d.entries.map (fun e => (e.1, f e.2))).lookup n = (d.entries.lookup n).map f
  induction d.entries with
  | nil => rfl
  | cons e es ih =>
    by_cases h : n = e.1
    · subst h
      rw [List.map_cons, List.lookup_cons_self, List.lookup_cons_self, Option.map_some]
    · rw [List.map_cons, lookup_cons_of_ne h, ih]
      exact congrArg _ (lookup_cons_of_ne h e.2 es).symm

theorem mem_names {d : Dir α} {n : String} : n ∈ d.names ↔ (d.read n).isSome = true := by
  show n ∈ d.entries.map Prod.fst ↔ (d.entries.lookup n).isSome = true
  induction d.entries with
  | nil => simp
  | cons e es ih =>
    by_cases h : n = e.1
    · subst h
      rw [List.lookup_cons_self]
      exact iff_of_true List.mem_cons_self rfl
    · rw [List.map_cons, List.mem_cons, or_iff_right h, ih]
      exact (congrArg (·.isSome = true) (lookup_cons_of_ne h e.2 es)).to_iff.symm

/-- `sorted(glob)`: the names the pattern selects, in ascending order. -/
def sortedNames (d : Dir α) (p : String → Bool) : List String :=
  (d.names.filter p).insertionSort (· ≤ ·)

/-- **A sorted listing is unique.** -/
theorem sortedNames_eq {d : Dir α} {p : String → Bool} {ns : List String}
    (hs : ns.Pairwise (· < ·)) (hm : ∀ n, n ∈ ns ↔ p n = true ∧ (d.read n).isSome = true) :
    d.sortedNames p = ns := by
  have hnd : ns.Nodup := hs.imp (fun h => ne_of_lt h)
  have hperm : (d.sortedNames p).Perm ns := by
    refine (List.perm_insertionSort _ _).trans ?_
    refine (List.perm_ext_iff_of_nodup (d.nodup.filter p) hnd).mpr (fun n => ?_)
    show n ∈ d.names.filter p ↔ n ∈ ns
    rw [List.mem_filter, mem_names, hm, and_comm]
  refine @List.Perm.eq_of_pairwise _ (· ≤ ·) _ _ (fun _ _ _ _ => le_antisymm)
    (List.pairwise_insertionSort _ _) (hs.imp le_of_lt) hperm

theorem mem_sortedNames {d : Dir α} {p : String → Bool} {n : String} :
    n ∈ d.sortedNames p ↔ p n = true ∧ (d.read n).isSome = true := by
  rw [sortedNames, List.mem_insertionSort, List.mem_filter, mem_names, and_comm]

theorem sortedNames_pairwise (d : Dir α) (p : String → Bool) :
    (d.sortedNames p).Pairwise (· < ·) := by
  have hnd : (d.sortedNames p).Nodup :=
    (List.perm_insertionSort _ _).nodup_iff.mpr (d.nodup.filter p)
  have hle : (d.sortedNames p).Pairwise (· ≤ ·) := List.pairwise_insertionSort _ _
  exact (hle.and hnd).imp (fun h => lt_of_le_of_ne h.1 h.2)

end Dir
end Files
