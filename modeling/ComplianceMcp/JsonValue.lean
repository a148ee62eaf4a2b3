import ComplianceMcp.Binary64
import Mathlib.Data.List.Sort
import Mathlib.Data.String.Basic

/-! # JSON values

The values `json.dumps` accepts and `json.loads` returns.  Objects are
association lists in insertion order, as a Python `dict` is; two objects are the
same `dict` when sorting their keys gives the same list (`Json.sortKeys`), which
is what `sort_keys=True` prints.  Keys of one object are distinct
(`Json.distinctKeys`), and `Json.dedupe` is what building a `dict` from a list of
pairs does: a later pair overwrites the value of an earlier one in place. -/
namespace PyJson

/-- The characters a JSON number is made of. -/
def numChar (c : Char) : Bool :=
  c.isDigit || c == '+' || c == '-' || c == '.' || c == 'e' || c == 'E'

/-- `0` or a digit string without a leading zero, after an optional minus sign. -/
def isIntText : List Char → Bool
  | '-' :: ds => ds == ['0'] || (ds != [] && ds.head? != some '0' && ds.all Char.isDigit)
  | ds => ds == ['0'] || (ds != [] && ds.head? != some '0' && ds.all Char.isDigit)

/-- What may follow the integer part of a number: a fraction, an exponent, or both. -/
def isFracExp (t : List Char) : Bool :=
  let afterFrac := match t with
    | '.' :: r => if (r.takeWhile Char.isDigit) == [] then ['?'] else r.dropWhile Char.isDigit
    | r => r
  match afterFrac with
  | [] => t != []
  | c :: r =>
    (c == 'e' || c == 'E') &&
      let ds := match r with
        | '+' :: ds => ds
        | '-' :: ds => ds
        | ds => ds
      ds != [] && ds.all Char.isDigit

/-- The JSON grammar of a number that is not an integer. -/
def isFloatText (t : List Char) : Bool :=
  let body := match t with
    | '-' :: r => r
    | r => r
  !isIntText t && t.all numChar &&
    isIntText (body.takeWhile Char.isDigit) && isFracExp (body.dropWhile Char.isDigit)

/-- A JSON value with string keys. -/
inductive Json where
  | null
  | bool (b : Bool)
  | int (n : Int)
  | float (x : Binary64)
  | str (s : String)
  | arr (items : List Json)
  | obj (fields : List (String × Json))

/-- The fields of one object, in insertion order. -/
abbrev Dict := List (String × Json)

namespace Json

/-! ## Equality is decidable -/

mutual
/-- Equality of values, case by case. -/
def decEq : (a b : Json) → Decidable (a = b)
  | .null, .null => isTrue rfl
  | .bool a, .bool b => decidable_of_iff (a = b) ⟨congrArg bool, bool.inj⟩
  | .int a, .int b => decidable_of_iff (a = b) ⟨congrArg int, int.inj⟩
  | .float a, .float b => decidable_of_iff (a = b) ⟨congrArg float, float.inj⟩
  | .str a, .str b => decidable_of_iff (a = b) ⟨congrArg str, str.inj⟩
  | .arr a, .arr b => @decidable_of_iff _ (a = b) ⟨congrArg arr, arr.inj⟩ (decEqItems a b)
  | .obj a, .obj b => @decidable_of_iff _ (a = b) ⟨congrArg obj, obj.inj⟩ (decEqFields a b)
  | .null, .bool _ | .null, .int _ | .null, .float _ | .null, .str _ | .null, .arr _
  | .null, .obj _ | .bool _, .null | .bool _, .int _ | .bool _, .float _ | .bool _, .str _
  | .bool _, .arr _ | .bool _, .obj _ | .int _, .null | .int _, .bool _ | .int _, .float _
  | .int _, .str _ | .int _, .arr _ | .int _, .obj _ | .float _, .null | .float _, .bool _
  | .float _, .int _ | .float _, .str _ | .float _, .arr _ | .float _, .obj _ | .str _, .null
  | .str _, .bool _ | .str _, .int _ | .str _, .float _ | .str _, .arr _ | .str _, .obj _
  | .arr _, .null | .arr _, .bool _ | .arr _, .int _ | .arr _, .float _ | .arr _, .str _
  | .arr _, .obj _ | .obj _, .null | .obj _, .bool _ | .obj _, .int _ | .obj _, .float _
  | .obj _, .str _ | .obj _, .arr _ => isFalse nofun
/-- Equality of the items of an array. -/
def decEqItems : (a b : List Json) → Decidable (a = b)
  | [], [] => isTrue rfl
  | [], _ :: _ | _ :: _, [] => isFalse nofun
  | x :: xs, y :: ys =>
    match decEq x y, decEqItems xs ys with
    | isTrue h, isTrue h' => isTrue (by rw [h, h'])
    | isFalse h, _ => isFalse (fun e => h (List.cons.inj e).1)
    | _, isFalse h => isFalse (fun e => h (List.cons.inj e).2)
/-- Equality of the fields of an object. -/
def decEqFields : (a b : List (String × Json)) → Decidable (a = b)
  | [], [] => isTrue rfl
  | [], _ :: _ | _ :: _, [] => isFalse nofun
  | (k, x) :: xs, (l, y) :: ys =>
    match decEq x y, decEqFields xs ys with
    | isTrue h, isTrue h' =>
      if hk : k = l then isTrue (by rw [h, h', hk])
      else isFalse (fun e => hk (congrArg Prod.fst (List.cons.inj e).1))
    | isFalse h, _ => isFalse (fun e => h (congrArg Prod.snd (List.cons.inj e).1))
    | _, isFalse h => isFalse (fun e => h (List.cons.inj e).2)
end

instance : DecidableEq Json := decEq

/-! ## Distinct keys -/

mutual
/-- No object inside the value repeats a key: the value is a Python value. -/
def distinctKeys : Json → Bool
  | .arr xs => distinctKeysItems xs
  | .obj fs => decide (fs.map Prod.fst).Nodup && distinctKeysFields fs
  | _ => true
/-- Every item has distinct keys. -/
def distinctKeysItems : List Json → Bool
  | [] => true
  | x :: xs => distinctKeys x && distinctKeysItems xs
/-- Every field's value has distinct keys. -/
def distinctKeysFields : List (String × Json) → Bool
  | [] => true
  | (_, v) :: fs => distinctKeys v && distinctKeysFields fs
end

/-- `d[k] = v` on an association list. -/
def setField (fs : Dict) (k : String) (v : Json) : Dict :=
  if k ∈ fs.map Prod.fst then fs.map (fun f => if f.1 = k then (k, v) else f) else fs ++ [(k, v)]

/-- `dict(pairs)`: the pairs are stored one after the other. -/
def ofPairs (pairs : Dict) : Dict := pairs.foldl (fun fs f => setField fs f.1 f.2) []

mutual
/-- The value `json.loads` builds for a text with these pairs. -/
def dedupe : Json → Json
  | .arr xs => .arr (dedupeItems xs)
  | .obj fs => .obj (ofPairs (dedupeFields fs))
  | j => j
/-- `dedupe` on the items of an array. -/
def dedupeItems : List Json → List Json
  | [] => []
  | x :: xs => dedupe x :: dedupeItems xs
/-- `dedupe` on the values of an object. -/
def dedupeFields : List (String × Json) → List (String × Json)
  | [] => []
  | (k, v) :: fs => (k, dedupe v) :: dedupeFields fs
end

theorem foldl_setField {fs pairs : Dict} (h : ((fs ++ pairs).map Prod.fst).Nodup) :
    pairs.foldl (fun fs f => setField fs f.1 f.2) fs = fs ++ pairs := by
  induction pairs generalizing fs with
  | nil => simp
  | cons f pairs ih =>
    have hf : f.1 ∉ fs.map Prod.fst := by
      rw [List.map_append, List.nodup_append] at h
      exact fun hm => h.2.2 f.1 hm f.1 (by simp) rfl
    rw [List.foldl_cons, setField, if_neg hf, ih (by simpa using h)]
    simp

/-- Building a `dict` from pairs with distinct keys keeps them all, in order. -/
theorem ofPairs_of_nodup {pairs : Dict} (h : (pairs.map Prod.fst).Nodup) :
    ofPairs pairs = pairs := by
  simpa [ofPairs] using @foldl_setField [] pairs (by simpa using h)

mutual
/-- A Python value is the value its own pairs build. -/
theorem dedupe_of_distinctKeys : ∀ {j : Json}, j.distinctKeys = true → j.dedupe = j
  | .null, _ | .bool _, _ | .int _, _ | .float _, _ | .str _, _ => rfl
  | .arr xs, h => by
    rw [dedupe, dedupeItems_of_distinctKeys (by simpa [distinctKeys] using h)]
  | .obj fs, h => by
    simp only [distinctKeys, Bool.and_eq_true, decide_eq_true_eq] at h
    rw [dedupe, dedupeFields_of_distinctKeys h.2, ofPairs_of_nodup h.1]
theorem dedupeItems_of_distinctKeys :
    ∀ {xs : List Json}, distinctKeysItems xs = true → dedupeItems xs = xs
  | [], _ => rfl
  | x :: xs, h => by
    simp only [distinctKeysItems, Bool.and_eq_true] at h
    rw [dedupeItems, dedupe_of_distinctKeys h.1, dedupeItems_of_distinctKeys h.2]
theorem dedupeFields_of_distinctKeys :
    ∀ {fs : Dict}, distinctKeysFields fs = true → dedupeFields fs = fs
  | [], _ => rfl
  | (k, v) :: fs, h => by
    simp only [distinctKeysFields, Bool.and_eq_true] at h
    rw [dedupeFields, dedupe_of_distinctKeys h.1, dedupeFields_of_distinctKeys h.2]
end

/-! ## What is built from pairs has distinct keys -/

theorem setField_nodup {fs : Dict} (h : (fs.map Prod.fst).Nodup) (k : String) (v : Json) :
    ((setField fs k v).map Prod.fst).Nodup := by
  unfold setField
  split
  · have hkeys : (fs.map (fun f => if f.1 = k then (k, v) else f)).map Prod.fst =
        fs.map Prod.fst := by
      rw [List.map_map]
      refine List.map_congr_left (fun f _ => ?_)
      show (if f.1 = k then (k, v) else f).1 = f.1
      split
      · next hk => exact hk.symm
      · rfl
    rw [hkeys]
    exact h
  · next hk =>
    rw [List.map_append, List.nodup_append]
    refine ⟨h, List.nodup_singleton _, fun a ha b hb => ?_⟩
    rintro rfl
    obtain rfl : a = k := List.mem_singleton.mp hb
    exact hk ha

theorem mem_setField {fs : Dict} {k : String} {v : Json} {f : String × Json}
    (h : f ∈ setField fs k v) : f ∈ fs ∨ f = (k, v) := by
  unfold setField at h
  split at h
  · obtain ⟨g, hg, rfl⟩ := List.mem_map.mp h
    split
    · exact Or.inr rfl
    · exact Or.inl hg
  · rcases List.mem_append.mp h with h | h
    · exact Or.inl h
    · exact Or.inr (List.mem_singleton.mp h)

theorem foldl_setField_dict {fs pairs : Dict} (h : (fs.map Prod.fst).Nodup) :
    ((pairs.foldl (fun fs f => setField fs f.1 f.2) fs).map Prod.fst).Nodup ∧
      ∀ f ∈ pairs.foldl (fun fs f => setField fs f.1 f.2) fs, f ∈ fs ∨ f ∈ pairs := by
  induction pairs generalizing fs with
  | nil => exact ⟨h, fun f hf => Or.inl hf⟩
  | cons p pairs ih =>
    obtain ⟨hn, hm⟩ := ih (setField_nodup h p.1 p.2)
    refine ⟨hn, fun f hf => ?_⟩
    rcases hm f hf with hf | hf
    · rcases mem_setField hf with hf | rfl
      · exact Or.inl hf
      · exact Or.inr List.mem_cons_self
    · exact Or.inr (List.mem_cons_of_mem _ hf)

/-! ## Sorted keys -/

/-- The order `sort_keys=True` sorts by. -/
def keyLE (f g : String × Json) : Prop := f.1 ≤ g.1

instance : DecidableRel keyLE := fun f g => inferInstanceAs (Decidable (f.1 ≤ g.1))

instance : Std.Total keyLE := ⟨fun f g => le_total f.1 g.1⟩

instance : IsTrans (String × Json) keyLE := ⟨fun _ _ _ h h' => le_trans (α := String) h h'⟩

mutual
/-- The value with the keys of every object in ascending order. -/
def sortKeys : Json → Json
  | .arr xs => .arr (sortKeysItems xs)
  | .obj fs => .obj ((sortKeysFields fs).insertionSort keyLE)
  | j => j
/-- `sortKeys` on the items of an array. -/
def sortKeysItems : List Json → List Json
  | [] => []
  | x :: xs => sortKeys x :: sortKeysItems xs
/-- `sortKeys` on the values of an object, which stay where they are. -/
def sortKeysFields : List (String × Json) → List (String × Json)
  | [] => []
  | (k, v) :: fs => (k, sortKeys v) :: sortKeysFields fs
end

@[simp] theorem sortKeys_str (s : String) : sortKeys (.str s) = .str s := rfl

@[simp] theorem sortKeys_int (n : Int) : sortKeys (.int n) = .int n := rfl

@[simp] theorem distinctKeys_str (s : String) : distinctKeys (.str s) = true := rfl

@[simp] theorem distinctKeys_int (n : Int) : distinctKeys (.int n) = true := rfl

theorem sortKeysFields_eq_map (fs : Dict) :
    sortKeysFields fs = fs.map (fun f => (f.1, sortKeys f.2)) := by
  induction fs with
  | nil => rfl
  | cons f fs ih => simp [sortKeysFields, ih]

theorem sortKeysItems_eq_map (xs : List Json) : sortKeysItems xs = xs.map sortKeys := by
  induction xs with
  | nil => rfl
  | cons x xs ih => simp [sortKeysItems, ih]

theorem distinctKeys_strings (ss : List String) : (Json.arr (ss.map .str)).distinctKeys = true := by
  rw [distinctKeys]
  induction ss with
  | nil => rfl
  | cons s ss ih => exact ih

theorem distinctKeysFields_iff {fs : Dict} :
    distinctKeysFields fs = true ↔ ∀ f ∈ fs, f.2.distinctKeys = true := by
  induction fs with
  | nil => simp [distinctKeysFields]
  | cons f fs ih => simp [distinctKeysFields, ih]

theorem distinctKeys_obj_iff {fs : Dict} :
    (Json.obj fs).distinctKeys = true ↔
      (fs.map Prod.fst).Nodup ∧ ∀ f ∈ fs, f.2.distinctKeys = true := by
  rw [distinctKeys, Bool.and_eq_true, decide_eq_true_eq, distinctKeysFields_iff]

mutual
theorem distinctKeys_dedupe : ∀ j : Json, j.dedupe.distinctKeys = true
  | .null | .bool _ | .int _ | .float _ | .str _ => rfl
  | .arr xs => by
    rw [dedupe, distinctKeys]
    exact distinctKeys_dedupeItems xs
  | .obj fs => by
    obtain ⟨hn, hm⟩ := @foldl_setField_dict [] (dedupeFields fs) List.nodup_nil
    rw [dedupe, distinctKeys_obj_iff]
    refine ⟨hn, fun f hf => ?_⟩
    exact distinctKeys_dedupeFields fs f ((hm f hf).resolve_left List.not_mem_nil)
theorem distinctKeys_dedupeItems : ∀ xs : List Json, distinctKeysItems (dedupeItems xs) = true
  | [] => rfl
  | x :: xs => by
    rw [dedupeItems, distinctKeysItems, distinctKeys_dedupe x, distinctKeys_dedupeItems xs]
    rfl
theorem distinctKeys_dedupeFields : ∀ (fs : Dict) (f : String × Json),
    f ∈ dedupeFields fs → f.2.distinctKeys = true
  | [], f, h => absurd h List.not_mem_nil
  | (k, v) :: fs, f, h => by
    rw [dedupeFields] at h
    rcases List.mem_cons.mp h with rfl | h
    · exact distinctKeys_dedupe v
    · exact distinctKeys_dedupeFields fs f h
end

mutual
/-- Sorting the keys of a Python value gives a Python value. -/
theorem distinctKeys_sortKeys : ∀ {j : Json}, j.distinctKeys = true → j.sortKeys.distinctKeys = true
  | .null, _ | .bool _, _ | .int _, _ | .float _, _ | .str _, _ => rfl
  | .arr xs, h => @distinctKeys_sortKeysItems xs h
  | .obj fs, h => by
    simp only [distinctKeys, Bool.and_eq_true, decide_eq_true_eq] at h
    have hp := List.perm_insertionSort keyLE (sortKeysFields fs)
    have hk : (sortKeysFields fs).map Prod.fst = fs.map Prod.fst := by
      simp [sortKeysFields_eq_map, Function.comp_def]
    have hv := distinctKeysFields_iff.mp (distinctKeys_sortKeysFields h.2)
    refine distinctKeys_obj_iff.mpr ⟨?_, fun f hf => hv f (hp.mem_iff.mp hf)⟩
    rw [(hp.map Prod.fst).nodup_iff, hk]
    exact h.1
theorem distinctKeys_sortKeysItems :
    ∀ {xs : List Json}, distinctKeysItems xs = true → distinctKeysItems (sortKeysItems xs) = true
  | [], _ => rfl
  | x :: xs, h => by
    simp only [distinctKeysItems, Bool.and_eq_true] at h
    simp only [sortKeysItems, distinctKeysItems, Bool.and_eq_true]
    exact ⟨distinctKeys_sortKeys h.1, distinctKeys_sortKeysItems h.2⟩
theorem distinctKeys_sortKeysFields :
    ∀ {fs : Dict}, distinctKeysFields fs = true → distinctKeysFields (sortKeysFields fs) = true
  | [], _ => rfl
  | (k, v) :: fs, h => by
    simp only [distinctKeysFields, Bool.and_eq_true] at h
    simp only [sortKeysFields, distinctKeysFields, Bool.and_eq_true]
    exact ⟨distinctKeys_sortKeys h.1, distinctKeys_sortKeysFields h.2⟩
end

mutual
/-- Sorting twice is sorting once. -/
theorem sortKeys_sortKeys : ∀ j : Json, j.sortKeys.sortKeys = j.sortKeys
  | .null | .bool _ | .int _ | .float _ | .str _ => rfl
  | .arr xs => by rw [sortKeys, sortKeys, sortKeysItems_sortKeysItems]
  | .obj fs => by
    have hp := List.perm_insertionSort keyLE (sortKeysFields fs)
    have hfix : sortKeysFields ((sortKeysFields fs).insertionSort keyLE)
        = (sortKeysFields fs).insertionSort keyLE := by
      have hall : (sortKeysFields fs).map (fun f => (f.1, sortKeys f.2))
          = (sortKeysFields fs).map id := by
        rw [← sortKeysFields_eq_map, sortKeysFields_sortKeysFields fs, List.map_id]
      rw [sortKeysFields_eq_map, ← List.map_id ((sortKeysFields fs).insertionSort keyLE),
        List.map_map]
      exact List.map_inj_left.mpr
        (fun f hf => List.map_inj_left.mp hall f (hp.mem_iff.mp hf))
    rw [sortKeys, sortKeys, hfix, (List.pairwise_insertionSort keyLE _).insertionSort_eq]
theorem sortKeysItems_sortKeysItems :
    ∀ xs : List Json, sortKeysItems (sortKeysItems xs) = sortKeysItems xs
  | [] => rfl
  | x :: xs => by
    rw [sortKeysItems, sortKeysItems, sortKeys_sortKeys x, sortKeysItems_sortKeysItems xs]
theorem sortKeysFields_sortKeysFields :
    ∀ fs : Dict, sortKeysFields (sortKeysFields fs) = sortKeysFields fs
  | [] => rfl
  | (k, v) :: fs => by
    rw [sortKeysFields, sortKeysFields, sortKeys_sortKeys v, sortKeysFields_sortKeysFields fs]
end

/-! ## Reading an object -/

/-- `d.get(k)`. -/
def get (d : Dict) (k : String) : Option Json := List.lookup k d

/-- `{k: v for k, v in d.items() if k not in ks}`. -/
def without (d : Dict) (ks : List String) : Dict := d.filter (fun f => f.1 ∉ ks)

theorem get_eq_some_iff {d : Dict} (h : (d.map Prod.fst).Nodup) {k : String} {v : Json} :
    get d k = some v ↔ (k, v) ∈ d := by
  unfold get
  induction d with
  | nil => simp
  | cons f d ih =>
    obtain ⟨l, w⟩ := f
    simp only [List.map_cons, List.nodup_cons] at h
    by_cases hk : k = l
    · subst hk
      have hno : ∀ v, (k, v) ∉ d := fun v hm => h.1 (List.mem_map.mpr ⟨_, hm, rfl⟩)
      simp [hno, eq_comm]
    · rw [List.lookup_cons, beq_false_of_ne hk]
      simp [ih h.2, hk]

/-- Reading a key does not depend on the order of the fields. -/
theorem get_perm {d e : Dict} (hp : d.Perm e) (h : (d.map Prod.fst).Nodup) (k : String) :
    get d k = get e k := by
  have he : (e.map Prod.fst).Nodup := (hp.map Prod.fst).nodup_iff.mp h
  refine Option.ext fun v => ?_
  rw [get_eq_some_iff h, get_eq_some_iff he, hp.mem_iff]

theorem get_sortKeysFields (d : Dict) (k : String) :
    get (sortKeysFields d) k = (get d k).map sortKeys := by
  unfold get
  induction d with
  | nil => rfl
  | cons f d ih =>
    obtain ⟨l, w⟩ := f
    simp only [sortKeysFields, List.lookup_cons]
    split <;> simp_all

theorem sortKeysFields_keys (d : Dict) : (sortKeysFields d).map Prod.fst = d.map Prod.fst := by
  simp [sortKeysFields_eq_map, Function.comp_def]

/-- The fields of `d` as `sort_keys=True` prints them. -/
def sortedFields (d : Dict) : Dict := (sortKeysFields d).insertionSort keyLE

theorem sortKeys_obj (d : Dict) : sortKeys (.obj d) = .obj (sortedFields d) := rfl

theorem sortedFields_perm (d : Dict) : (sortedFields d).Perm (sortKeysFields d) :=
  List.perm_insertionSort keyLE _

theorem sortedFields_nodup {d : Dict} (h : (d.map Prod.fst).Nodup) :
    ((sortedFields d).map Prod.fst).Nodup := by
  rw [((sortedFields_perm d).map Prod.fst).nodup_iff, sortKeysFields_keys]
  exact h

/-- Reading a key of the sorted object reads the sorted value. -/
theorem get_sortedFields {d : Dict} (h : (d.map Prod.fst).Nodup) (k : String) :
    get (sortedFields d) k = (get d k).map sortKeys := by
  rw [get_perm (sortedFields_perm d) (sortedFields_nodup h), get_sortKeysFields]

/-- Two objects with the same fields in different orders print the same. -/
theorem sortedFields_eq_of_perm {d e : Dict} (hp : d.Perm e) (h : (d.map Prod.fst).Nodup) :
    sortedFields d = sortedFields e := by
  have hm : (sortKeysFields d).Perm (sortKeysFields e) := by
    rw [sortKeysFields_eq_map, sortKeysFields_eq_map]
    exact hp.map _
  have hf : (sortedFields d).Perm (sortedFields e) :=
    (sortedFields_perm d).trans (hm.trans (sortedFields_perm e).symm)
  refine @List.Perm.eq_of_pairwise _ keyLE _ _ ?_ (List.pairwise_insertionSort keyLE _)
    (List.pairwise_insertionSort keyLE _) hf
  -- Two fields of one object with the same key are the same field.
  intro f g hfm hgm hle hge
  have hkey : f.1 = g.1 := le_antisymm (α := String) hle hge
  have hn := sortedFields_nodup h
  have h1 := (get_eq_some_iff hn (k := f.1) (v := f.2)).mpr hfm
  have h2 := (get_eq_some_iff hn (k := g.1) (v := g.2)).mpr (hf.mem_iff.mpr hgm)
  rw [← hkey, h1] at h2
  exact Prod.ext hkey (Option.some.inj h2)

theorem sortedFields_sortKeysFields (d : Dict) :
    sortedFields (sortKeysFields d) = sortedFields d := by
  rw [sortedFields, sortKeysFields_sortKeysFields, sortedFields]

theorem sortedFields_sortedFields (d : Dict) : sortedFields (sortedFields d) = sortedFields d := by
  have h := sortKeys_sortKeys (.obj d)
  simpa only [sortKeys_obj, Json.obj.injEq] using h

/-- Dropping keys commutes with sorting: a parsed record less some keys prints like
the record that was stored, less those keys. -/
theorem sortedFields_without {d : Dict} (h : (d.map Prod.fst).Nodup) (ks : List String) :
    sortedFields (without (sortedFields d) ks) = sortedFields (without d ks) := by
  have hcomm : without (sortKeysFields d) ks = sortKeysFields (without d ks) := by
    rw [sortKeysFields_eq_map, sortKeysFields_eq_map, without, without, List.filter_map]
    rfl
  have hp : (without (sortedFields d) ks).Perm (sortKeysFields (without d ks)) := by
    rw [← hcomm]
    exact (sortedFields_perm d).filter _
  rw [sortedFields_eq_of_perm hp, sortedFields_sortKeysFields]
  exact (sortedFields_nodup h).sublist ((List.filter_sublist).map Prod.fst)

/-- **Objects with the same fields print the same.** -/
theorem sortedFields_ext {d e : Dict} (hd : (d.map Prod.fst).Nodup) (he : (e.map Prod.fst).Nodup)
    (h : ∀ k, (get d k).map sortKeys = (get e k).map sortKeys) :
    sortedFields d = sortedFields e := by
  have hsd := sortedFields_nodup hd
  have hse := sortedFields_nodup he
  have hp : (sortedFields d).Perm (sortedFields e) := by
    refine (List.perm_ext_iff_of_nodup (List.Nodup.of_map _ hsd) (List.Nodup.of_map _ hse)).mpr ?_
    rintro ⟨k, v⟩
    rw [← get_eq_some_iff hsd, ← get_eq_some_iff hse, get_sortedFields hd, get_sortedFields he, h]
  rw [← sortedFields_sortedFields d, ← sortedFields_sortedFields e]
  exact sortedFields_eq_of_perm hp hsd

theorem get_without {d : Dict} (h : (d.map Prod.fst).Nodup) {ks : List String} {k : String}
    (hk : k ∉ ks) : get (without d ks) k = get d k := by
  have hw : ((without d ks).map Prod.fst).Nodup := h.sublist (List.filter_sublist.map Prod.fst)
  refine Option.ext (fun v => ?_)
  rw [get_eq_some_iff hw, get_eq_some_iff h, without, List.mem_filter]
  exact and_iff_left (decide_eq_true hk)

end Json
end PyJson
