import ComplianceMcp.EvidencePack

/-! # Indented JSON, read back

`indent=2` puts line breaks and blanks between the tokens and nothing inside them, so the reader
reads an indented text as it reads a compact one.  The induction follows the printer: a value, the
items after the first one, the fields after the first one. -/
namespace ComplianceMcp

open PyText PyJson

/-! ## White space between tokens -/

theorem newline_ws (pad : Nat) : (newline pad).all isWs = true := by
  rw [newline, List.all_cons]
  simp [isWs]

theorem skipWs_newline (pad : Nat) (t : Text) : skipWs (newline pad ++ t) = skipWs t :=
  skipWs_append (newline_ws pad) t

/-- An indented value starts with a character that closes nothing. -/
theorem pretty_head (st : Style) (pad : Nat) (j : Json) :
    ∃ c t, pretty st pad j = c :: t ∧ isWs c = false ∧ c ≠ ']' ∧ c ≠ '}' := by
  cases j with
  | arr xs =>
    cases xs with
    | nil => exact ⟨'[', _, rfl, by decide⟩
    | cons x xs => exact ⟨'[', _, rfl, by decide⟩
  | obj fs =>
    cases fs with
    | nil => exact ⟨'\x7b', _, rfl, by decide⟩
    | cons f fs => exact ⟨'\x7b', _, rfl, by decide⟩
  | _ => exact render_head st _

theorem skipWs_pretty (st : Style) (pad : Nat) (j : Json) (r : Text) :
    skipWs (pretty st pad j ++ r) = pretty st pad j ++ r := by
  obtain ⟨c, t, h, hw, -⟩ := pretty_head st pad j
  rw [h, List.cons_append, skipWs_of_not hw]

theorem noNum_prettyItems (st : Style) (pad : Nat) (xs : List Json) (r : Text) :
    NoNum (prettyItems st pad xs ++ r) := by
  cases xs with
  | nil => exact NoNum.cons (by decide)
  | cons x xs => exact NoNum.cons (by decide)

theorem noNum_prettyFields (st : Style) (pad : Nat) (fs : Dict) (r : Text) :
    NoNum (prettyFields st pad fs ++ r) := by
  cases fs with
  | nil => exact NoNum.cons (by decide)
  | cons f fs => exact NoNum.cons (by decide)

/-! ## One field -/

section Fields

variable {st : Style} {k : String} {v : Json} {n : Nat} {u t r : Text} {fs : Dict}

/-- The last field: the brace closes behind it. -/
theorem readFields_last (hk : (quoted st k).length ≤ n) (hu : skipWs (u ++ t) = u ++ t)
    (hv : readValue n (u ++ t) = some (v, t)) (ht : skipWs t = '}' :: r) :
    readFields (n + 1) ('"' :: (quoted st k ++ ([':', ' '] ++ (u ++ t)))) = some ([(k, v)], r) := by
  have hsep : skipWs ([' '] ++ (u ++ t)) = u ++ t := (skipWs_append rfl _).trans hu
  simp only [List.cons_append, List.nil_append] at hsep
  simp only [readFields, if_true, readChars_quoted st k _ hk, Option.bind_eq_bind, Option.bind_some,
    List.cons_append, List.nil_append, skipWs_of_not (c := ':') rfl, hsep, hv, ht,
    String.ofList_toList]
  rfl

/-- A field that others follow. -/
theorem readFields_more (hk : (quoted st k).length ≤ n) (hu : skipWs (u ++ t) = u ++ t)
    (hv : readValue n (u ++ t) = some (v, t)) {t' : Text} (ht : skipWs t = ',' :: t')
    (hfs : readFields n (skipWs t') = some (fs, r)) :
    readFields (n + 1) ('"' :: (quoted st k ++ ([':', ' '] ++ (u ++ t)))) =
      some ((k, v) :: fs, r) := by
  have hsep : skipWs ([' '] ++ (u ++ t)) = u ++ t := (skipWs_append rfl _).trans hu
  simp only [List.cons_append, List.nil_append] at hsep
  simp only [readFields, if_true, readChars_quoted st k _ hk, Option.bind_eq_bind, Option.bind_some,
    List.cons_append, List.nil_append, skipWs_of_not (c := ':') rfl, hsep, hv, ht,
    String.ofList_toList, hfs]
  rfl

end Fields

/-! ## Values -/

mutual
/-- **What is printed with indentation is read back**, whatever follows that is no part of a
number. -/
theorem readValue_pretty (st : Style) : ∀ (j : Json) (pad : Nat) {n : Nat} {r : Text},
    (pretty st pad j).length ≤ n → NoNum r → readValue n (pretty st pad j ++ r) = some (j, r)
  | j, pad, 0, r, h, _ => by
    obtain ⟨c, t, hc, -⟩ := pretty_head st pad j
    rw [hc] at h
    simp at h
  | .arr (x :: xs), pad, n + 1, r, h, _ => by
    simp only [pretty, List.length_cons, List.length_append] at h
    obtain ⟨c, t, hc, hw, hb, -⟩ := pretty_head st (pad + 2) x
    have hitems := readItems_pretty st x xs pad (n := n) (r := r) (by omega)
    simp only [pretty, List.cons_append, List.append_assoc, readValue, skipWs_newline,
      skipWs_pretty] at hitems ⊢
    simp only [hc, List.cons_append] at hitems ⊢
    simp [hb, hitems]
  | .obj ((k, v) :: fs), pad, n + 1, r, h, _ => by
    simp only [pretty, List.length_cons, List.length_append] at h
    have hfields := readFields_pretty st k v fs pad (n := n) (r := r) (by
      simp only [List.length_append, List.length_cons, List.length_nil] at h ⊢
      omega)
    simp only [pretty, List.cons_append, List.nil_append, List.append_assoc, readValue,
      skipWs_newline] at hfields ⊢
    simp [skipWs_of_not (c := '"') rfl, hfields]
  | .arr [], _, n + 1, r, h, hr => readValue_render st (.arr []) h hr
  | .obj [], _, n + 1, r, h, hr => readValue_render st (.obj []) h hr
  | .null, _, n + 1, r, h, hr => readValue_render st .null h hr
  | .bool b, _, n + 1, r, h, hr => readValue_render st (.bool b) h hr
  | .int i, _, n + 1, r, h, hr => readValue_render st (.int i) h hr
  | .float x, _, n + 1, r, h, hr => readValue_render st (.float x) h hr
  | .str s, _, n + 1, r, h, hr => readValue_render st (.str s) h hr
theorem readItems_pretty (st : Style) :
    ∀ (x : Json) (xs : List Json) (pad : Nat) {n : Nat} {r : Text}, (pretty st (pad + 2) x).length +
      (prettyItems st pad xs).length ≤ n →
      readItems n (pretty st (pad + 2) x ++ prettyItems st pad xs ++ r) = some (x :: xs, r)
  | x, xs, pad, 0, r, h => by
    obtain ⟨c, t, hc, -⟩ := pretty_head st (pad + 2) x
    rw [hc] at h
    simp at h
  | x, [], pad, n + 1, r, h => by
    simp only [prettyItems, List.length_append, List.length_singleton] at h
    have hx := readValue_pretty st x (pad + 2) (n := n) (by omega) (noNum_prettyItems st pad [] r)
    simp only [prettyItems, List.append_assoc, List.cons_append, List.nil_append] at hx ⊢
    simp [readItems, hx, skipWs_newline, skipWs_of_not (c := ']') rfl]
  | x, y :: ys, pad, n + 1, r, h => by
    simp only [prettyItems, List.length_append, List.length_cons] at h
    have hx := readValue_pretty st x (pad + 2) (n := n) (by omega)
      (noNum_prettyItems st pad (y :: ys) r)
    have hys := readItems_pretty st y ys pad (n := n) (r := r) (by omega)
    simp only [prettyItems, List.cons_append, List.append_assoc] at hx hys ⊢
    simp [readItems, hx, skipWs_of_not (c := ',') rfl, skipWs_newline, skipWs_pretty, hys]
theorem readFields_pretty (st : Style) :
    ∀ (k : String) (v : Json) (fs : Dict) (pad : Nat) {n : Nat} {r : Text},
    (quoted st k ++ [':', ' '] ++ pretty st (pad + 2) v ++ prettyFields st pad fs).length < n →
      readFields n ('"' :: (quoted st k ++
        ([':', ' '] ++ (pretty st (pad + 2) v ++ (prettyFields st pad fs ++ r)))))
        = some ((k, v) :: fs, r)
  | _, _, _, _, 0, _, h => absurd h (Nat.not_lt_zero _)
  | k, v, [], pad, n + 1, r, h => by
    simp only [List.length_append] at h
    have hv := readValue_pretty st v (pad + 2) (n := n) (by omega) (noNum_prettyFields st pad [] r)
    refine readFields_last (by omega) (skipWs_pretty st _ v _) hv ?_
    rw [prettyFields, List.append_assoc, skipWs_newline]
    rfl
  | k, v, (l, w) :: fs, pad, n + 1, r, h => by
    simp only [List.length_append] at h
    have hv := readValue_pretty st v (pad + 2) (n := n) (by omega)
      (noNum_prettyFields st pad ((l, w) :: fs) r)
    simp only [prettyFields, List.length_append, List.length_cons] at h
    have hfs := readFields_pretty st l w fs pad (n := n) (r := r) (by
      simp only [List.length_append, List.length_cons, List.length_nil] at h ⊢
      omega)
    have hcomma : prettyFields st pad ((l, w) :: fs) ++ r = ',' ::
      (newline (pad + 2) ++ '"' :: (quoted st l ++
        ([':', ' '] ++ (pretty st (pad + 2) w ++ (prettyFields st pad fs ++ r))))) := by
      simp only [prettyFields, List.append_assoc, List.cons_append]
    refine readFields_more (by omega) (skipWs_pretty st _ v _) hv
      ((congrArg skipWs hcomma).trans rfl) ?_
    rw [skipWs_newline, skipWs_of_not rfl]
    exact hfs
end

/-! ## Whole texts -/

theorem loads_pretty (st : Style) (pad : Nat) {j : Json} (hj : j.distinctKeys = true) {w : Text}
    (hw : w.all isWs = true) : loads (pretty st pad j ++ w) = some j := by
  have hread : readText (pretty st pad j ++ w) = some j := by
    rw [readText, skipWs_pretty, readValue_pretty st j pad (by rw [List.length_append]; omega)
      (noNum_of_ws hw)]
    simp [skipWs_eq_nil hw]
  rw [loads, hread, Option.map_some, Json.dedupe_of_distinctKeys hj]

/-- The indented text of a value determines it. -/
theorem pretty_injective {st : Style} {pad : Nat} {j k : Json} (hj : j.distinctKeys = true)
    (hk : k.distinctKeys = true) (h : pretty st pad j = pretty st pad k) : j = k := by
  have hread := loads_pretty st pad hj (w := []) rfl
  rw [List.append_nil, h, ← List.append_nil (pretty st pad k), loads_pretty st pad hk rfl] at hread
  exact (Option.some.inj hread).symm

/-! ## No carriage return -/

theorem newline_no_cr (pad : Nat) : '\r' ∉ newline pad := by
  rw [newline, List.mem_cons, not_or, List.mem_replicate]
  exact ⟨by decide, fun h => absurd h.2 (by decide)⟩

theorem quoted_no_cr (st : Style) (k : String) : '\r' ∉ quoted st k :=
  (allPrintable_quoted st k).not_mem (by decide)

mutual
/-- The text has line feeds between its tokens and carriage returns nowhere. -/
theorem pretty_no_cr (st : Style) : ∀ (j : Json) (pad : Nat), '\r' ∉ pretty st pad j
  | .arr (x :: xs), pad => by
    have hx := pretty_no_cr st x (pad + 2)
    have hxs := prettyItems_no_cr st xs pad
    simp [pretty, newline_no_cr, hx, hxs]
  | .obj ((k, v) :: fs), pad => by
    have hv := pretty_no_cr st v (pad + 2)
    have hfs := prettyFields_no_cr st fs pad
    simp [pretty, newline_no_cr, quoted_no_cr, hv, hfs]
  | .arr [], _ => (allPrintable_render st (.arr [])).not_mem (by decide)
  | .obj [], _ => (allPrintable_render st (.obj [])).not_mem (by decide)
  | .null, _ => (allPrintable_render st .null).not_mem (by decide)
  | .bool b, _ => (allPrintable_render st (.bool b)).not_mem (by decide)
  | .int i, _ => (allPrintable_render st (.int i)).not_mem (by decide)
  | .float x, _ => (allPrintable_render st (.float x)).not_mem (by decide)
  | .str s, _ => (allPrintable_render st (.str s)).not_mem (by decide)
theorem prettyItems_no_cr (st : Style) :
    ∀ (xs : List Json) (pad : Nat), '\r' ∉ prettyItems st pad xs
  | [], pad => by simp [prettyItems, newline_no_cr]
  | x :: xs, pad => by
    have hx := pretty_no_cr st x (pad + 2)
    have hxs := prettyItems_no_cr st xs pad
    simp [prettyItems, newline_no_cr, hx, hxs]
theorem prettyFields_no_cr (st : Style) : ∀ (fs : Dict) (pad : Nat), '\r' ∉ prettyFields st pad fs
  | [], pad => by simp [prettyFields, newline_no_cr]
  | (k, v) :: fs, pad => by
    have hv := pretty_no_cr st v (pad + 2)
    have hfs := prettyFields_no_cr st fs pad
    simp [prettyFields, newline_no_cr, quoted_no_cr, hv, hfs]
end

end ComplianceMcp
