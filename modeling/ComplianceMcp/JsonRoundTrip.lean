import ComplianceMcp.JsonLoads

/-! # Decoding undoes encoding

`loads_dumps`: the reader returns the value `dumps` printed, its keys sorted, for
every style and whatever white space follows.  `loads_truncated` and
`loads_extra`: an object is read only when all of it is there and nothing comes
after it.  All three come from one fact about the reader, that what it reads at
the start of a text it reads at the start of any longer text (`readValue_append`). -/
namespace PyJson
open Json

/-! ## Strings -/

theorem hexVal_digitChar : ∀ k, k < 16 → hexVal k.digitChar = some k := by decide

theorem readHex4_hex4 {n : Nat} (h : n < 65536) (r : List Char) :
    readHex4 (hex4 n ++ r) = some (n, r) := by
  have hd : ∀ m, hexVal (m % 16).digitChar = some (m % 16) :=
    fun m => hexVal_digitChar _ (Nat.mod_lt _ (by decide))
  simp only [hex4, List.cons_append, List.nil_append, readHex4, hd, Option.bind_eq_bind,
    Option.bind_some, Option.pure_def, Option.some.injEq, Prod.mk.injEq, and_true]
  omega

theorem readUnicode_hex4 {n : Nat} (h : n < hiSurrogate ∨ 0xe000 ≤ n) (hn : n < 65536)
    (r : List Char) : readUnicode (hex4 n ++ r) = some (Char.ofNat n, r) := by
  simp [readUnicode, readHex4_hex4 hn, h]

theorem readUnicode_pair {n : Nat} (hn : n < 0x100000) (r : List Char) :
    readUnicode (hex4 (hiSurrogate + n / 1024) ++
      '\\' :: 'u' :: (hex4 (loSurrogate + n % 1024) ++ r)) = some (Char.ofNat
        (0x10000 + n), r) := by
  have hhi : hiSurrogate + n / 1024 < 65536 := by unfold hiSurrogate; omega
  have hlo : loSurrogate + n % 1024 < 65536 := by unfold loSurrogate; omega
  have h1 : ¬ (hiSurrogate + n / 1024 < hiSurrogate ∨ 0xe000 ≤ hiSurrogate + n / 1024) := by
    unfold hiSurrogate; omega
  have h2 : ¬ loSurrogate ≤ hiSurrogate + n / 1024 := by unfold hiSurrogate loSurrogate; omega
  have h3 : loSurrogate ≤ loSurrogate + n % 1024 ∧ loSurrogate + n % 1024 < 0xe000 := by
    unfold loSurrogate; omega
  have h4 : 0x10000 + (hiSurrogate + n / 1024 - hiSurrogate) * 1024
      + (loSurrogate + n % 1024 - loSurrogate) = 0x10000 + n := by omega
  simp only [readUnicode, readHex4_hex4 hhi, if_neg h1, if_neg h2, readLow, readHex4_hex4 hlo,
    if_pos h3, h4]

/-- A character is no surrogate. -/
theorem char_range (c : Char) : c.toNat < hiSurrogate ∨ 0xe000 ≤ c.toNat ∧ c.toNat < 0x110000 := by
  have h := c.valid
  simp only [UInt32.isValidChar, Nat.isValidChar] at h
  unfold hiSurrogate Char.toNat
  omega

theorem readEscape_u (r : List Char) : readEscape ('u' :: r) = readUnicode r := rfl

/-- **Reading an escape gives back the character it was written for.** -/
theorem readEscape_escapeBody {st : Style} {c : Char} {b : List Char}
    (h : escapeBody st c = some b) (r : List Char) : readEscape (b ++ r) = some (c, r) := by
  have hrange := char_range c
  unfold escapeBody at h
  repeat' split at h
  all_goals cases h
  · rename_i hc
    subst hc
    rfl
  · rename_i hc
    subst hc
    rfl
  · rename_i hc
    subst hc
    rfl
  · rename_i hc
    subst hc
    rfl
  · rename_i hc
    subst hc
    rfl
  · rename_i hc
    subst hc
    rfl
  · rename_i hc
    subst hc
    rfl
  · exact (readEscape_u _).trans
      ((readUnicode_hex4 (by unfold hiSurrogate; omega) (by omega) r).trans
        (by rw [Char.ofNat_toNat]))
  · exact (readEscape_u _).trans
      ((readUnicode_hex4 (by omega) (by assumption) r).trans (by rw [Char.ofNat_toNat]))
  · have hlt : c.toNat - 0x10000 < 0x100000 := by
      unfold hiSurrogate at hrange
      omega
    have hpair := readUnicode_pair hlt r
    rw [show 0x10000 + (c.toNat - 0x10000) = c.toNat by omega, Char.ofNat_toNat] at hpair
    simp only [List.cons_append, List.append_assoc]
    exact (readEscape_u _).trans hpair

theorem readChars_escapeChar (st : Style) (c : Char) (n : Nat) (r : List Char) :
    readChars (n + 1) (escapeChar st c ++ r)
      = (readChars n r).map (fun p => (c :: p.1, p.2)) := by
  unfold escapeChar
  cases hb : escapeBody st c with
  | some b =>
    simp only [List.cons_append, readChars, Char.reduceEq, if_false, if_true,
      readEscape_escapeBody hb, Option.bind_eq_bind, Option.bind_some]
    cases readChars n r <;> rfl
  | none =>
    obtain ⟨h1, h2, h3⟩ := escapeBody_none hb
    simp only [List.cons_append, List.nil_append, readChars, if_neg h1, if_neg h2,
      if_neg (Nat.not_lt.mpr h3), Option.bind_eq_bind]
    cases readChars n r <;> rfl

theorem length_escapeChar_pos (st : Style) (c : Char) : 0 < (escapeChar st c).length := by
  unfold escapeChar
  split <;> simp

theorem readChars_escaped (st : Style) (cs : List Char) :
    ∀ (n : Nat) (r : List Char), cs.length < n →
      readChars n (cs.flatMap (escapeChar st) ++ '"' :: r) = some (cs, r) := by
  induction cs with
  | nil =>
    intro n r hn
    cases n with
    | zero => simp at hn
    | succ n => simp [readChars]
  | cons c cs ih =>
    intro n r hn
    cases n with
    | zero => simp at hn
    | succ n =>
      rw [List.flatMap_cons, List.append_assoc, readChars_escapeChar,
        ih n r (by simpa using hn)]
      rfl

theorem length_le_flatMap_escapeChar (st : Style) (cs : List Char) :
    cs.length ≤ (cs.flatMap (escapeChar st)).length := by
  induction cs with
  | nil => simp
  | cons c cs ih =>
    have := length_escapeChar_pos st c
    simp only [List.length_cons, List.flatMap_cons, List.length_append]
    omega

/-- A printed string is read back. -/
theorem readChars_quoted (st : Style) (s : String) {n : Nat} (r : List Char)
    (hn : (quoted st s).length ≤ n) : readChars n (quoted st s ++ r) = some (s.toList, r) := by
  have hlen := length_le_flatMap_escapeChar st s.toList
  simp only [quoted, List.length_append, List.length_singleton] at hn
  rw [quoted, List.append_assoc]
  exact readChars_escaped st s.toList n r (by omega)

/-! ## Numbers -/

/-- The text does not continue a number. -/
def NoNum (r : List Char) : Prop := ∀ c t, r = c :: t → numChar c = false

theorem NoNum.nil : NoNum [] := fun _ _ h => by cases h

theorem NoNum.cons {c : Char} {t : List Char} (h : numChar c = false) : NoNum (c :: t) := by
  intro d u hd
  cases hd
  exact h

theorem takeWhile_append_noNum {t r : List Char} (ht : t.all numChar = true) (hr : NoNum r) :
    (t ++ r).takeWhile numChar = t ∧ (t ++ r).dropWhile numChar = r := by
  have ht' : ∀ c ∈ t, numChar c = true := List.all_eq_true.mp ht
  rw [List.takeWhile_append_of_pos ht', List.dropWhile_append_of_pos ht']
  cases r with
  | nil => simp
  | cons c r => simp [hr c r rfl]

theorem digits_ok (n : Nat) :
    (Nat.toDigits 10 n == ['0'] || (Nat.toDigits 10 n != [] &&
      (Nat.toDigits 10 n).head? != some '0' && (Nat.toDigits 10 n).all Char.isDigit)) = true := by
  rcases Nat.eq_zero_or_pos n with rfl | hn
  · rfl
  · simp [Binary64.head_toDigits hn, Binary64.all_isDigit_toDigits n]

/-- A decimal numeral does not start with a minus sign. -/
theorem toDigits_ne_minus (n : Nat) (ds : List Char) : Nat.toDigits 10 n ≠ '-' :: ds := by
  intro h
  have := Binary64.all_isDigit_toDigits n
  rw [h] at this
  simp at this

theorem isIntText_intText : ∀ i : Int, isIntText (intText i) = true
  | .ofNat n => by
    unfold intText isIntText
    split
    · rename_i ds h
      exact absurd h (toDigits_ne_minus n ds)
    · exact digits_ok n
  | .negSucc n => digits_ok (n + 1)

theorem intOfText_intText : ∀ i : Int, intOfText (intText i) = i
  | .ofNat n => by
    unfold intText intOfText
    split
    · rename_i ds h
      exact absurd h (toDigits_ne_minus n ds)
    · rw [Nat.ofDigitChars_toDigits (by decide) (by decide)]
      rfl
  | .negSucc n => by
    simp only [intText, intOfText]
    rw [Nat.ofDigitChars_toDigits (by decide) (by decide)]
    rfl

theorem all_numChar_intText (i : Int) : (intText i).all numChar = true := by
  have h : ∀ n : Nat, (Nat.toDigits 10 n).all numChar = true := by
    intro n
    refine List.all_eq_true.mpr fun c hc => ?_
    simp [numChar, Nat.isDigit_of_mem_toDigits (b := 10) (by decide) (by decide) hc]
  cases i with
  | ofNat n => exact h n
  | negSucc n =>
    rw [intText, List.all_cons, h]
    decide

theorem readNumber_intText (i : Int) {r : List Char} (hr : NoNum r) :
    readNumber (intText i ++ r) = some (.int i, r) := by
  obtain ⟨h1, h2⟩ := takeWhile_append_noNum (all_numChar_intText i) hr
  simp only [readNumber, h1, h2, isIntText_intText, intOfText_intText, if_true]

section Floats

variable {t : Binary64.Numeral} {q : ℚ}

/-- The texts of integers without a sign. -/
def IsDigits (ds : List Char) : Prop :=
  ds = ['0'] ∨ ds ≠ [] ∧ ds.head? ≠ some '0' ∧ ds.all Char.isDigit = true

theorem isIntText_minus (ds : List Char) : isIntText ('-' :: ds) = true ↔ IsDigits ds := by
  simp [isIntText, IsDigits, and_assoc]

theorem isIntText_unsigned {ds : List Char} (h : ds.head? ≠ some '-') :
    isIntText ds = true ↔ IsDigits ds := by
  unfold isIntText
  split
  · exact absurd rfl h
  · simp [IsDigits, and_assoc]

theorem IsDigits.all {ds : List Char} (h : IsDigits ds) : ds.all Char.isDigit = true := by
  rcases h with rfl | ⟨-, -, h⟩
  · rfl
  · exact h

theorem not_minus_of_isDigit {ds : List Char} (h : ds.all Char.isDigit = true) :
    ds.head? ≠ some '-' := by
  intro hc
  cases ds with
  | nil => cases hc
  | cons c ds =>
    rw [Option.some.inj hc] at h
    cases h

/-- A fraction or an exponent ends the digits of a numeral. -/
theorem not_isDigits (ht : t.Printed) : ¬ IsDigits t.text := by
  intro h
  have hall := h.all
  have hmark : t.tail = [] := by
    have hdrop := (Binary64.takeWhile_digits hall (r := []) (by simp)).2
    rwa [List.append_nil, (Binary64.Numeral.takeWhile_text ht.intDigits).2] at hdrop
  unfold Binary64.Numeral.tail at hmark
  obtain ⟨hfrac, hexp⟩ := List.append_eq_nil_iff.mp hmark
  rcases ht.marked with hm | hm
  · rw [if_neg hm] at hfrac
    cases hfrac
  · obtain ⟨e, he⟩ := Option.ne_none_iff_exists'.mp hm
    rw [he] at hexp
    cases hexp

/-- The digits of an exponent, after its sign. -/
theorem exponent_digits (e : ℤ) :
    ∃ c ds, Binary64.exponentText e = 'e' :: c :: ds ∧ (c = '+' ∨ c = '-') ∧ ds ≠ [] ∧
      ds.all Char.isDigit = true := by
  refine ⟨_, _, rfl, ?_, List.append_ne_nil_of_right_ne_nil _ Nat.toDigits_ne_nil, ?_⟩
  · by_cases he : e < 0
    · exact .inr (if_pos he)
    · exact .inl (if_neg he)
  · rw [List.all_append, Binary64.all_isDigit_zeros, Binary64.all_isDigit_toDigits]
    rfl

theorem isFracExp_tail (ht : t.Printed) : isFracExp t.tail = true := by
  unfold Binary64.Numeral.tail
  by_cases hf : t.frac = []
  · obtain ⟨e, he⟩ := Option.ne_none_iff_exists'.mp (ht.marked.resolve_left (not_not_intro hf))
    obtain ⟨c, ds, hexp, hc, hne, hds⟩ := exponent_digits e
    rw [if_pos hf, he, Option.elim_some, hexp]
    rcases hc with rfl | rfl <;> simp [isFracExp, hne, -List.all_eq_true, hds]
  · obtain ⟨htake, hdrop⟩ :=
      Binary64.takeWhile_digits ht.fracDigits (Binary64.Numeral.exp_not_digit t.exp)
    rw [if_neg hf, List.cons_append]
    simp only [isFracExp]
    rw [htake, hdrop, if_neg (by simpa using hf)]
    cases t.exp with
    | none => rfl
    | some e =>
      obtain ⟨c, ds, hexp, hc, hne, hds⟩ := exponent_digits e
      rw [Option.elim_some, hexp]
      rcases hc with rfl | rfl <;> simp [hne, -List.all_eq_true, hds]

theorem isFloatText_numeral (ht : t.Printed) (neg : Bool) :
    isIntText (Binary64.signText neg ++ t.text) = false ∧
      isFloatText (Binary64.signText neg ++ t.text) = true := by
  obtain ⟨c, r, hc, hd⟩ := ht.head
  obtain ⟨htake, hdrop⟩ := Binary64.Numeral.takeWhile_text ht.intDigits
  have hnum := all_numChar_numeral ht
  have hint : isIntText t.int = true := by
    refine (isIntText_unsigned (not_minus_of_isDigit ht.intDigits)).mpr ?_
    rcases ht.int with h | h
    · exact .inl h
    · exact .inr ⟨h.1, h.2, ht.intDigits⟩
  have hhead : t.text.head? ≠ some '-' := by
    rw [hc]
    intro h
    rw [Option.some.inj h] at hd
    cases hd
  cases neg with
  | true =>
    have hno : isIntText ('-' :: t.text) = false :=
      Bool.eq_false_iff.mpr fun h => not_isDigits ht ((isIntText_minus _).mp h)
    have hall : ('-' :: t.text).all numChar = true := by
      rw [List.all_cons, hnum]
      rfl
    refine ⟨hno, ?_⟩
    simp [Binary64.signText, isFloatText, hno, hall, htake, hdrop, hint, isFracExp_tail ht]
  | false =>
    have hno : isIntText t.text = false :=
      Bool.eq_false_iff.mpr fun h => not_isDigits ht ((isIntText_unsigned hhead).mp h)
    refine ⟨hno, ?_⟩
    unfold isFloatText
    rw [Binary64.signText, if_neg Bool.false_ne_true, List.nil_append, hno, hnum]
    split
    · next r' heq => exact absurd (by rw [heq]; rfl) hhead
    · simp [htake, hdrop, hint, isFracExp_tail ht]

theorem readNumber_float (neg : Bool) (h : Binary64.Representable q) {r : List Char}
    (hr : NoNum r) :
    readNumber (Binary64.text (.finite neg q h) ++ r) = some (.float (.finite neg q h), r) := by
  obtain ⟨h₁, h₂⟩ := takeWhile_append_noNum (all_numChar_finite neg h) hr
  obtain ⟨hint, hfloat⟩ := isFloatText_numeral (Binary64.printed_numeralOf h.fixed) neg
  have hof := Binary64.ofText_text neg h
  rw [Binary64.text] at h₁ h₂ hof ⊢
  simp only [readNumber, h₁, h₂, hint, hfloat, hof, if_true, Bool.false_eq_true, if_false]

end Floats

/-- A text that starts with a digit, or with a minus sign and a digit. -/
def StartsNumber (t : List Char) : Prop :=
  ∃ neg c u, t = Binary64.signText neg ++ c :: u ∧ c.isDigit = true

theorem isDigits_head {ds : List Char} (h : IsDigits ds) :
    ∃ c u, ds = c :: u ∧ c.isDigit = true := by
  have hall := h.all
  cases ds with
  | nil =>
    rcases h with h | h
    · cases h
    · exact absurd rfl h.1
  | cons c u =>
    rw [List.all_cons, Bool.and_eq_true] at hall
    exact ⟨c, u, rfl, hall.1⟩

theorem startsNumber_of_isIntText {t : List Char} (h : isIntText t = true) : StartsNumber t := by
  by_cases hm : t.head? = some '-'
  · obtain ⟨ds, rfl⟩ := List.head?_eq_some_iff.mp hm
    obtain ⟨c, u, rfl, hc⟩ := isDigits_head ((isIntText_minus ds).mp h)
    exact ⟨true, c, u, rfl, hc⟩
  · obtain ⟨c, u, rfl, hc⟩ := isDigits_head ((isIntText_unsigned hm).mp h)
    exact ⟨false, c, u, rfl, hc⟩

theorem startsNumber_finite (neg : Bool) {q : ℚ} (h : Binary64.Representable q) :
    StartsNumber (Binary64.text (.finite neg q h)) := by
  obtain ⟨c, u, hu, hc⟩ := (Binary64.printed_numeralOf h.fixed).head
  exact ⟨neg, c, u, by rw [Binary64.text, hu], hc⟩

/-! ## Values -/

theorem skipWs_of_not {c : Char} (h : isWs c = false) (t : List Char) :
    skipWs (c :: t) = c :: t := by
  simp [skipWs, h]

/-- A rendered value starts with a character that closes nothing. -/
theorem render_head (st : Style) (j : Json) :
    ∃ c t, render st j = c :: t ∧ isWs c = false ∧ c ≠ ']' ∧ c ≠ '}' := by
  have hdigit : ∀ c : Char, c.isDigit = true → isWs c = false ∧ c ≠ ']' ∧ c ≠ '}' := by
    intro c hc
    refine ⟨?_, ?_, ?_⟩
    · by_cases hw : isWs c = true
      · simp only [isWs, Bool.or_eq_true, beq_iff_eq] at hw
        rcases hw with ((rfl | rfl) | rfl) | rfl <;> exact absurd hc (by decide)
      · simpa using hw
    all_goals
      rintro rfl
      exact absurd hc (by decide)
  have hnum : ∀ t : List Char, StartsNumber t →
      ∃ c u, t = c :: u ∧ isWs c = false ∧ c ≠ ']' ∧ c ≠ '}' := by
    rintro t ⟨neg, c, u, rfl, hc⟩
    cases neg with
    | true => exact ⟨'-', c :: u, rfl, by decide⟩
    | false => exact ⟨c, u, rfl, hdigit c hc⟩
  match j with
  | .null | .bool true | .bool false | .str _ | .arr [] | .arr (_ :: _) | .obj []
  | .obj ((_, _) :: _) | .float .nan | .float (.infinite false) | .float (.infinite true) =>
    exact ⟨_, _, rfl, by decide⟩
  | .int n => exact hnum _ (startsNumber_of_isIntText (isIntText_intText n))
  | .float (.finite neg _ hx) => exact hnum _ (startsNumber_finite neg hx)

theorem skipWs_render (st : Style) (j : Json) (r : List Char) :
    skipWs (render st j ++ r) = render st j ++ r := by
  obtain ⟨c, t, h, hw, -⟩ := render_head st j
  rw [h, List.cons_append, skipWs_of_not hw]

/-- A separator is its mark and then white space at most. -/
theorem itemSep_eq (st : Style) : ∃ w, itemSep st = ',' :: w ∧ w.all isWs = true := by
  unfold itemSep
  split
  · exact ⟨_, rfl, rfl⟩
  · exact ⟨_, rfl, rfl⟩

/-- See `itemSep_eq`. -/
theorem keySep_eq (st : Style) : ∃ w, keySep st = ':' :: w ∧ w.all isWs = true := by
  unfold keySep
  split
  · exact ⟨_, rfl, rfl⟩
  · exact ⟨_, rfl, rfl⟩

theorem skipWs_append {w : List Char} (hw : w.all isWs = true) (t : List Char) :
    skipWs (w ++ t) = skipWs t :=
  List.dropWhile_append_of_pos (List.all_eq_true.mp hw)

theorem noNum_renderItems (st : Style) (xs : List Json) (r : List Char) :
    NoNum (renderItems st xs ++ r) := by
  cases xs with
  | nil => exact NoNum.cons (by decide)
  | cons x xs =>
    obtain ⟨w, hw, -⟩ := itemSep_eq st
    rw [renderItems, hw]
    exact NoNum.cons (by decide)

theorem noNum_renderFields (st : Style) (fs : Dict) (r : List Char) :
    NoNum (renderFields st fs ++ r) := by
  cases fs with
  | nil => exact NoNum.cons (by decide)
  | cons f fs =>
    obtain ⟨w, hw, -⟩ := itemSep_eq st
    rw [renderFields, hw]
    exact NoNum.cons (by decide)

theorem readValue_number {t : List Char} (ht : StartsNumber t) (n : Nat) (r : List Char) :
    readValue (n + 1) (t ++ r) = readNumber (t ++ r) := by
  obtain ⟨neg, c, u, rfl, hc⟩ := ht
  have hne : c ≠ '"' ∧ c ≠ '{' ∧ c ≠ '[' ∧ c ≠ 'n' ∧ c ≠ 't' ∧ c ≠ 'f' ∧ c ≠ 'N' ∧ c ≠ 'I' ∧
      c ≠ '-' := by
    refine ⟨?_, ?_, ?_, ?_, ?_, ?_, ?_, ?_, ?_⟩ <;>
      (rintro rfl
       revert hc
       decide)
  obtain ⟨h1, h2, h3, h4, h5, h6, h7, h8, h9⟩ := hne
  cases neg with
  | true => simp [Binary64.signText, readValue, h8]
  | false =>
    simp only [Binary64.signText, Bool.false_eq_true, if_false, List.nil_append, List.cons_append,
      readValue, if_neg h1, if_neg h2, if_neg h3, if_neg h4, if_neg h5, if_neg h6, if_neg h7,
      if_neg h8, h9, false_and, false_or, hc, if_true]

theorem readFields_cons {st : Style} {k : String} {v : Json} {n : Nat} {t : List Char}
    (hk : (quoted st k).length ≤ n) (hv : readValue n (render st v ++ t) = some (v, t)) :
    readFields (n + 1) ('"' :: (quoted st k ++ keySep st ++ render st v ++ t))
      = match skipWs t with
        | [] => none
        | e :: r =>
          if e = '}' then some ([(k, v)], r)
          else if e = ',' then (readFields n (skipWs r)).map (fun p => ((k, v) :: p.1, p.2))
          else none := by
  obtain ⟨w, hw, hws⟩ := keySep_eq st
  simp only [readFields, if_true, List.append_assoc, readChars_quoted st k _ hk,
    Option.bind_eq_bind, Option.bind_some, hw, List.cons_append, skipWs_of_not (c := ':') rfl,
    skipWs_append hws, skipWs_render, hv, String.ofList_toList]
  cases skipWs t with
  | nil => rfl
  | cons e r =>
    simp only [Option.pure_def]
    split
    · rfl
    · split
      · cases readFields n (skipWs r) <;> rfl
      · rfl

mutual
/-- **What is rendered is read back**, whatever follows that is no part of a number. -/
theorem readValue_render (st : Style) : ∀ (j : Json) {n : Nat} {r : List Char},
    (render st j).length ≤ n → NoNum r → readValue n (render st j ++ r) = some (j, r)
  | j, 0, r, h, _ => by
    obtain ⟨c, t, hc, -⟩ := render_head st j
    rw [hc] at h
    simp at h
  | .null, n + 1, r, _, _ => by simp [render, readValue, readWord]
  | .bool true, n + 1, r, _, _ => by simp [render, readValue, readWord]
  | .bool false, n + 1, r, _, _ => by simp [render, readValue, readWord]
  | .int i, n + 1, r, _, hr => by
    rw [render, readValue_number (startsNumber_of_isIntText (isIntText_intText i)),
      readNumber_intText i hr]
  | .float .nan, n + 1, r, _, _ =>
    by simp [render, Binary64.text, Binary64.nanText, readValue, readWord]
  | .float (.infinite false), n + 1, r, _, _ => by
    simp [render, Binary64.text, Binary64.signText, Binary64.infinityText, readValue, readWord]
  | .float (.infinite true), n + 1, r, _, _ => by
    simp [render, Binary64.text, Binary64.signText, Binary64.infinityText, readValue, readWord]
  | .float (.finite neg _ hx), n + 1, r, _, hr => by
    rw [render, readValue_number (startsNumber_finite neg hx), readNumber_float neg hx hr]
  | .str s, n + 1, r, h, _ => by
    simp only [render, List.length_cons] at h
    simp only [render, List.cons_append, readValue, if_true,
      readChars_quoted st s r (Nat.le_of_succ_le_succ h), Option.map_some, String.ofList_toList]
  | .arr [], n + 1, r, _, _ => by simp [render, readValue, skipWs, isWs]
  | .arr (x :: xs), n + 1, r, h, _ => by
    simp only [render, List.length_cons, List.length_append] at h
    obtain ⟨c, t, hc, hw, hb, -⟩ := render_head st x
    have hitems := readItems_render st x xs (n := n) (r := r) (by omega)
    simp only [render, hc, List.cons_append, List.append_assoc] at hitems ⊢
    simp [readValue, skipWs_of_not hw, hb, hitems]
  | .obj [], n + 1, r, _, _ => by simp [render, readValue, skipWs, isWs]
  | .obj ((k, v) :: fs), n + 1, r, h, _ => by
    simp only [render, List.length_cons, List.length_append] at h
    have hfields := readFields_render st k v fs (n := n) (r := r) (by
      simp only [List.length_append]
      omega)
    simp only [render, List.cons_append, List.append_assoc] at hfields ⊢
    simp [readValue, skipWs_of_not (c := '"') rfl, hfields]
theorem readItems_render (st : Style) : ∀ (x : Json) (xs : List Json) {n : Nat} {r : List Char},
    (render st x).length + (renderItems st xs).length ≤ n →
      readItems n (render st x ++ renderItems st xs ++ r) = some (x :: xs, r)
  | x, xs, 0, r, h => by
    obtain ⟨c, t, hc, -⟩ := render_head st x
    rw [hc] at h
    simp at h
  | x, [], n + 1, r, h => by
    simp only [renderItems, List.length_singleton] at h
    have hx := readValue_render st x (n := n) (by omega) (noNum_renderItems st [] r)
    simp only [renderItems, List.cons_append, List.nil_append] at hx
    simp [readItems, renderItems, hx, skipWs, isWs]
  | x, y :: ys, n + 1, r, h => by
    obtain ⟨w, hw, hws⟩ := itemSep_eq st
    simp only [renderItems, hw, List.length_append, List.length_cons] at h
    have hx := readValue_render st x (n := n) (by omega) (noNum_renderItems st (y :: ys) r)
    have hys := readItems_render st y ys (n := n) (r := r) (by omega)
    simp only [renderItems, hw, List.cons_append, List.append_assoc] at hx hys ⊢
    simp [readItems, hx, skipWs_of_not (c := ',') rfl, skipWs_append hws, skipWs_render, hys]
theorem readFields_render (st : Style) : ∀ (k : String) (v : Json) (fs : Dict) {n : Nat}
    {r : List Char},
    (quoted st k ++ keySep st ++ render st v ++ renderFields st fs).length < n →
      readFields n ('"' :: (quoted st k ++ keySep st ++ render st v ++ renderFields st fs) ++ r)
        = some ((k, v) :: fs, r)
  | _, _, _, 0, _, h => absurd h (Nat.not_lt_zero _)
  | k, v, [], n + 1, r, h => by
    simp only [List.length_append] at h
    have hv := readValue_render st v (n := n) (by omega) (noNum_renderFields st [] r)
    rw [List.cons_append, List.append_assoc _ _ r, readFields_cons (by omega) hv]
    simp [renderFields, skipWs, isWs]
  | k, v, (l, u) :: fs, n + 1, r, h => by
    obtain ⟨w, hw, hws⟩ := itemSep_eq st
    simp only [List.length_append] at h
    have hv := readValue_render st v (n := n) (by omega) (noNum_renderFields st ((l, u) :: fs) r)
    simp only [renderFields, hw, List.length_append, List.length_cons] at h
    have hfs := readFields_render st l u fs (n := n) (r := r) (by
      simp only [List.length_append]
      omega)
    rw [List.cons_append, List.append_assoc _ _ r, readFields_cons (by omega) hv]
    simp only [renderFields, hw, List.cons_append, List.append_assoc] at hfs ⊢
    simp [skipWs_of_not (c := ',') rfl, skipWs_append hws, skipWs_of_not (c := '"') rfl, hfs]
end

/-! ## A longer text, read from the start

The reader looks no further than it reads: what follows a closed value does not
change it.  Only a number could go on. -/

theorem skipWs_append_of_cons {r r' : List Char} {d : Char} (h : skipWs r = d :: r')
    (x : List Char) : skipWs (r ++ x) = d :: (r' ++ x) := by
  unfold skipWs at *
  rw [List.dropWhile_append, h]
  simp

theorem skipWs_append_of_ne {r : List Char} (h : skipWs r ≠ []) (x : List Char) :
    skipWs (r ++ x) = skipWs r ++ x := by
  cases hr : skipWs r with
  | nil => exact absurd hr h
  | cons d r' => rw [skipWs_append_of_cons hr, List.cons_append]

theorem readHex4_append {t : List Char} {n : Nat} {r : List Char} (h : readHex4 t = some (n, r))
    (x : List Char) : readHex4 (t ++ x) = some (n, r ++ x) := by
  match t, h with
  | a :: b :: c :: d :: u, h =>
    simp only [readHex4, Option.bind_eq_bind, Option.bind_eq_some_iff, Option.pure_def,
      Option.some.injEq, Prod.mk.injEq] at h
    obtain ⟨na, ha, nb, hb, nc, hc, nd, hd, hn, hr⟩ := h
    simp [readHex4, ha, hb, hc, hd, hn, hr]

theorem readLow_append {n : Nat} {t : List Char} {c : Char} {r : List Char}
    (h : readLow n t = some (c, r)) (x : List Char) : readLow n (t ++ x) = some (c, r ++ x) := by
  unfold readLow at h
  split at h
  · split at h
    · rename_i u m v hm
      have hm' := readHex4_append hm x
      split at h
      · rename_i hrange
        simp only [Option.some.injEq, Prod.mk.injEq] at h
        obtain ⟨rfl, rfl⟩ := h
        simp only [List.cons_append, readLow, hm', if_pos hrange]
      · cases h
    · cases h
  · cases h

theorem readUnicode_append {t : List Char} {c : Char} {r : List Char}
    (h : readUnicode t = some (c, r)) (x : List Char) :
    readUnicode (t ++ x) = some (c, r ++ x) := by
  unfold readUnicode at h
  split at h
  · rename_i n u hn
    have hn' := readHex4_append hn x
    split at h
    · rename_i hrange
      cases h
      simp only [readUnicode, hn', if_pos hrange]
    · rename_i hrange
      split at h
      · cases h
      · rename_i hlow
        simp only [readUnicode, hn', if_neg hrange, if_neg hlow, readLow_append h x]
  · cases h

theorem readEscape_append {t : List Char} {c : Char} {r : List Char}
    (h : readEscape t = some (c, r)) (x : List Char) : readEscape (t ++ x) = some (c, r ++ x) := by
  match t with
  | e :: u =>
    simp only [readEscape, List.cons_append] at h ⊢
    repeat' split at h
    all_goals first | cases h | skip
    all_goals simp_all
    exact readUnicode_append h x

theorem readChars_append {n : Nat} {t s r : List Char} (h : readChars n t = some (s, r))
    {m : Nat} (hm : n ≤ m) (x : List Char) : readChars m (t ++ x) = some (s, r ++ x) := by
  induction n generalizing t s r m with
  | zero => cases h
  | succ n ih =>
    obtain ⟨m, rfl⟩ := Nat.exists_eq_add_of_le' (Nat.le_trans (Nat.succ_le_succ (Nat.zero_le n)) hm)
    cases t with
    | nil => cases h
    | cons c u =>
      simp only [readChars, List.cons_append] at h ⊢
      split at h
      · cases h
        simp_all
      · split at h
        · rename_i hq hb
          simp only [Option.bind_eq_bind, Option.bind_eq_some_iff, Prod.exists, Option.pure_def,
            Option.some.injEq, Prod.mk.injEq] at h
          obtain ⟨d, v, hd, s', r', hs, rfl, rfl⟩ := h
          simp [hb, readEscape_append hd x, ih hs (Nat.le_of_succ_le_succ hm)]
        · split at h
          · cases h
          · rename_i hq hb hlt
            simp only [Option.bind_eq_bind, Option.bind_eq_some_iff, Prod.exists, Option.pure_def,
              Option.some.injEq, Prod.mk.injEq] at h
            obtain ⟨s', r', hs, rfl, rfl⟩ := h
            simp [hq, hb, hlt, ih hs (Nat.le_of_succ_le_succ hm)]

/-- A number token ends where the characters of numbers do. -/
theorem readNumber_rest {t : List Char} {j : Json} {r : List Char}
    (h : readNumber t = some (j, r)) : t.dropWhile numChar = r := by
  unfold readNumber at h
  simp only at h
  repeat' split at h
  all_goals cases h
  all_goals rfl

theorem readNumber_append {t : List Char} {j : Json} {r : List Char}
    (h : readNumber t = some (j, r)) (hr : r ≠ []) (x : List Char) :
    readNumber (t ++ x) = some (j, r ++ x) := by
  have hrest := readNumber_rest h
  have hd : (t ++ x).dropWhile numChar = t.dropWhile numChar ++ x := by
    rw [List.dropWhile_append, hrest]
    simp [hr]
  have ht : (t ++ x).takeWhile numChar = t.takeWhile numChar := by
    have hlen := congrArg List.length (List.takeWhile_append_dropWhile (p := numChar) (l := t))
    have hpos := List.length_pos_iff.mpr hr
    rw [hrest, List.length_append] at hlen
    rw [List.takeWhile_append, if_neg (by omega)]
  unfold readNumber at h ⊢
  simp only [ht, hd]
  simp only at h
  split at h
  · cases h
    simp_all
  · split at h
    · cases h
      simp_all
    · cases h

theorem readWord_append {w : List Char} {j k : Json} {t r : List Char}
    (h : readWord w j t = some (k, r)) (x : List Char) :
    readWord w j (t ++ x) = some (k, r ++ x) := by
  unfold readWord at *
  split at h
  · rename_i hp
    cases h
    obtain ⟨u, rfl⟩ := List.isPrefixOf_iff_prefix.mp hp
    simp [List.append_assoc]
  · cases h

/-- The value is a number. -/
def IsNumber : Json → Prop
  | .int _ | .float _ => True
  | _ => False

/-- What the three readers share, for every text at most `n` steps deep. -/
def ReadsOn (n : Nat) : Prop :=
  (∀ {t j r m} (x : List Char), readValue n t = some (j, r) → n ≤ m → (r ≠ [] ∨ ¬ IsNumber j) →
    readValue m (t ++ x) = some (j, r ++ x)) ∧
  (∀ {t xs r m} (x : List Char), readItems n t = some (xs, r) → n ≤ m →
    readItems m (t ++ x) = some (xs, r ++ x)) ∧
  (∀ {t fs r m} (x : List Char), readFields n t = some (fs, r) → n ≤ m →
    readFields m (t ++ x) = some (fs, r ++ x))

theorem isNumber_of_readNumber {t r : List Char} {j : Json} (h : readNumber t = some (j, r)) :
    IsNumber j := by
  unfold readNumber at h
  simp only at h
  repeat' split at h
  all_goals cases h
  all_goals exact trivial

theorem readValue_ne_nil {n : Nat} {t : List Char} {p : Json × List Char}
    (h : readValue n t = some p) : t ≠ [] := by
  rintro rfl
  cases n <;> cases h

theorem readItems_ne_nil {n : Nat} {t : List Char} {p : List Json × List Char}
    (h : readItems n t = some p) : t ≠ [] := by
  rintro rfl
  cases n with
  | zero => cases h
  | succ n =>
    simp only [readItems, Option.bind_eq_bind, Option.bind_eq_some_iff, Prod.exists] at h
    obtain ⟨v, u, hv, -⟩ := h
    exact readValue_ne_nil hv rfl

theorem readFields_ne_nil {n : Nat} {t : List Char} {p : Dict × List Char}
    (h : readFields n t = some p) : t ≠ [] := by
  rintro rfl
  cases n <;> cases h

theorem readValue_append_step {n : Nat} (ih : ReadsOn n) {t : List Char} {j : Json}
    {r : List Char} {m : Nat} (x : List Char) (h : readValue (n + 1) t = some (j, r))
    (hm : n ≤ m) (hr : r ≠ [] ∨ ¬ IsNumber j) :
    readValue (m + 1) (t ++ x) = some (j, r ++ x) := by
  obtain ⟨-, ihItems, ihFields⟩ := ih
  match t with
  | c :: u =>
    simp only [readValue, List.cons_append] at h ⊢
    split at h
    · rename_i hc
      simp only [Option.map_eq_some_iff, Prod.exists, Prod.mk.injEq] at h
      obtain ⟨s, v, hs, rfl, rfl⟩ := h
      simp [hc, readChars_append hs hm x]
    split at h
    · rename_i hq hc
      split at h
      · cases h
      · rename_i d u' hu
        simp only [hc, Char.reduceEq, if_false, if_true, skipWs_append_of_cons hu]
        split at h
        · rename_i hd
          cases h
          simp [hd]
        · rename_i hd
          simp only [Option.map_eq_some_iff, Prod.exists, Prod.mk.injEq] at h
          obtain ⟨fs, v, hfs, rfl, rfl⟩ := h
          rw [if_neg hd, ← List.cons_append, ihFields x hfs hm]
          rfl
    split at h
    · rename_i hq hb hc
      split at h
      · cases h
      · rename_i d u' hu
        simp only [hc, Char.reduceEq, if_false, if_true, skipWs_append_of_cons hu]
        split at h
        · rename_i hd
          cases h
          simp [hd]
        · rename_i hd
          simp only [Option.map_eq_some_iff, Prod.exists, Prod.mk.injEq] at h
          obtain ⟨xs, v, hxs, rfl, rfl⟩ := h
          rw [if_neg hd, ← List.cons_append, ihItems x hxs hm]
          rfl
    split at h
    · rename_i hc
      simp [hc, readWord_append h x]
    split at h
    · rename_i hc
      simp [hc, readWord_append h x]
    split at h
    · rename_i hc
      simp [hc, readWord_append h x]
    split at h
    · rename_i hc
      simp [hc, readWord_append h x]
    split at h
    · rename_i hc
      simp [hc, readWord_append h x]
    split at h
    · rename_i hc
      simp [hc.1, List.head?_append, hc.2, readWord_append h x]
    split at h
    · rename_i h1 h2 h3 h4 h5 h6 h7 h8 h9 hc
      have hne : r ≠ [] := by
        rcases hr with hr | hr
        · exact hr
        · exact absurd (isNumber_of_readNumber h) hr
      have h9' : ¬ (c = '-' ∧ (u ++ x).head? = some 'I') := by
        rintro ⟨rfl, hx⟩
        cases u with
        | nil => exact hne (readNumber_rest h).symm
        | cons d v => exact h9 ⟨rfl, hx⟩
      rw [if_neg h1, if_neg h2, if_neg h3, if_neg h4, if_neg h5, if_neg h6, if_neg h7, if_neg h8,
        if_neg h9', if_pos hc, ← List.cons_append]
      exact readNumber_append h hne x
    · cases h

theorem readItems_append_step {n : Nat} (ih : ReadsOn n) {t : List Char} {xs : List Json}
    {r : List Char} {m : Nat} (x : List Char) (h : readItems (n + 1) t = some (xs, r))
    (hm : n ≤ m) : readItems (m + 1) (t ++ x) = some (xs, r ++ x) := by
  obtain ⟨ihValue, ihItems, -⟩ := ih
  simp only [readItems, Option.bind_eq_bind, Option.bind_eq_some_iff, Prod.exists] at h ⊢
  obtain ⟨v, u, hv, h⟩ := h
  split at h
  · cases h
  · rename_i d u' hu
    have hne : u ≠ [] := by
      rintro rfl
      cases hu
    refine ⟨v, u ++ x, ihValue x hv hm (Or.inl hne), ?_⟩
    simp only [skipWs_append_of_cons hu]
    split at h
    · rename_i hd
      cases h
      simp [hd]
    · split at h
      · rename_i hd hc
        simp only [Option.bind_eq_some_iff, Prod.exists, Option.pure_def, Option.some.injEq,
          Prod.mk.injEq] at h
        obtain ⟨ys, w, hys, rfl, rfl⟩ := h
        have hread : readItems m (skipWs (u' ++ x)) = some (ys, w ++ x) := by
          rw [skipWs_append_of_ne (readItems_ne_nil hys)]
          exact ihItems x hys hm
        simp [hc, hread]
      · cases h

theorem readFields_append_step {n : Nat} (ih : ReadsOn n) {t : List Char} {fs : Dict}
    {r : List Char} {m : Nat} (x : List Char) (h : readFields (n + 1) t = some (fs, r))
    (hm : n ≤ m) : readFields (m + 1) (t ++ x) = some (fs, r ++ x) := by
  obtain ⟨ihValue, -, ihFields⟩ := ih
  match t with
  | c :: u =>
    simp only [readFields, List.cons_append] at h ⊢
    split at h
    · rename_i hc
      rw [if_pos hc]
      simp only [Option.bind_eq_bind, Option.bind_eq_some_iff, Prod.exists] at h ⊢
      obtain ⟨k, u', hk, h⟩ := h
      refine ⟨k, u' ++ x, readChars_append hk hm x, ?_⟩
      split at h
      · cases h
      · rename_i d w hw
        simp only [skipWs_append_of_cons hw]
        split at h
        · rename_i hd
          rw [if_pos hd]
          simp only [Option.bind_eq_some_iff, Prod.exists] at h ⊢
          obtain ⟨v, w', hv, h⟩ := h
          split at h
          · cases h
          · rename_i e y hy
            have hne : w' ≠ [] := by
              rintro rfl
              cases hy
            have hread : readValue m (skipWs (w ++ x)) = some (v, w' ++ x) := by
              rw [skipWs_append_of_ne (readValue_ne_nil hv)]
              exact ihValue x hv hm (Or.inl hne)
            refine ⟨v, w' ++ x, hread, ?_⟩
            simp only [skipWs_append_of_cons hy]
            split at h
            · rename_i he
              cases h
              simp [he]
            · split at h
              · rename_i he hcm
                simp only [Option.bind_eq_some_iff, Prod.exists, Option.pure_def,
                  Option.some.injEq, Prod.mk.injEq] at h
                obtain ⟨gs, z, hgs, rfl, rfl⟩ := h
                have hread' : readFields m (skipWs (y ++ x)) = some (gs, z ++ x) := by
                  rw [skipWs_append_of_ne (readFields_ne_nil hgs)]
                  exact ihFields x hgs hm
                simp [hcm, hread']
              · cases h
        · cases h
    · cases h

/-- **What is read at the start of a text is read at the start of a longer one.** -/
theorem readsOn : ∀ n, ReadsOn n := by
  intro n
  induction n with
  | zero =>
    refine ⟨?_, ?_, ?_⟩ <;>
      (intro _ _ _ _ _ h
       cases h)
  | succ n ih =>
    refine ⟨fun x h hm hr => ?_, fun x h hm => ?_, fun x h hm => ?_⟩
    all_goals
      obtain ⟨m, rfl⟩ := Nat.exists_eq_add_of_le'
        (Nat.le_trans (Nat.succ_le_succ (Nat.zero_le n)) hm)
    · exact readValue_append_step ih x h (Nat.le_of_succ_le_succ hm) hr
    · exact readItems_append_step ih x h (Nat.le_of_succ_le_succ hm)
    · exact readFields_append_step ih x h (Nat.le_of_succ_le_succ hm)

theorem readValue_append {n m : Nat} {t r : List Char} {j : Json} (x : List Char)
    (h : readValue n t = some (j, r)) (hm : n ≤ m) (hr : r ≠ [] ∨ ¬ IsNumber j) :
    readValue m (t ++ x) = some (j, r ++ x) := (readsOn n).1 x h hm hr

/-! ## Whole texts -/

theorem skipWs_eq_nil {w : List Char} (hw : w.all isWs = true) : skipWs w = [] := by
  simpa [skipWs] using skipWs_append hw []

theorem noNum_of_ws {w : List Char} (hw : w.all isWs = true) : NoNum w := by
  rintro c t rfl
  simp only [List.all_cons, Bool.and_eq_true] at hw
  have hc := hw.1
  simp only [isWs, Bool.or_eq_true, beq_iff_eq] at hc
  rcases hc with ((rfl | rfl) | rfl) | rfl <;> decide

theorem readText_render (st : Style) (j : Json) {v w : List Char} (hv : v.all isWs = true)
    (hw : w.all isWs = true) : readText (v ++ (render st j ++ w)) = some j := by
  rw [readText, skipWs_append hv, skipWs_render,
    readValue_render st j (by simp only [List.length_append]; omega) (noNum_of_ws hw)]
  simp [skipWs_eq_nil hw]

/-- **Decoding undoes encoding**, up to the order of keys, which is not part of a
`dict`. -/
theorem loads_dumps (st : Style) {j : Json} (hj : j.distinctKeys = true) {v w : List Char}
    (hv : v.all isWs = true) (hw : w.all isWs = true) :
    loads (v ++ (dumps st j ++ w)) = some j.sortKeys := by
  rw [loads, dumps, readText_render st j.sortKeys hv hw, Option.map_some,
    dedupe_of_distinctKeys (distinctKeys_sortKeys hj)]

/-- The text of a value determines it. -/
theorem render_injective {st : Style} {j k : Json} (h : render st j = render st k) : j = k := by
  have hj := readText_render st j (v := []) (w := []) rfl rfl
  rw [List.append_nil, h, ← List.append_nil (render st k), readText_render st k rfl rfl] at hj
  exact (Option.some.inj hj).symm

/-- Two values that print the same are the same `dict`. -/
theorem dumps_injective {st : Style} {j k : Json} (h : dumps st j = dumps st k) :
    j.sortKeys = k.sortKeys := render_injective h

/-- What starts with a brace reads as an object or not at all. -/
theorem not_isNumber_of_brace {n : Nat} {t r : List Char} {j : Json}
    (h : readValue n ('{' :: t) = some (j, r)) : ¬ IsNumber j := by
  cases n with
  | zero => cases h
  | succ n =>
    simp only [readValue, Char.reduceEq, if_false, if_true] at h
    split at h
    · cases h
    · split at h
      · cases h
        exact id
      · simp only [Option.map_eq_some_iff, Prod.exists, Prod.mk.injEq] at h
        obtain ⟨fs, r', -, rfl, -⟩ := h
        exact id

/-- A value is read from a text that starts like it. -/
theorem readValue_opensWith {n : Nat} {c : Char} {t r : List Char} {j : Json}
    (h : readValue n (c :: t) = some (j, r)) : j.OpensWith c := by
  cases n with
  | zero => cases h
  | succ n =>
    simp only [readValue] at h
    have hword : ∀ {w u : List Char} {k : Json}, readWord w k u = some (j, r) → k = j := by
      intro w u k hk
      unfold readWord at hk
      split at hk
      · exact (Prod.mk.inj (Option.some.inj hk)).1
      · cases hk
    split at h
    · rename_i hc
      obtain ⟨p, -, hp⟩ := Option.map_eq_some_iff.mp h
      cases hp
      exact hc
    split at h
    · rename_i hc
      split at h
      · cases h
      split at h
      · cases h
        exact hc
      · obtain ⟨p, -, hp⟩ := Option.map_eq_some_iff.mp h
        cases hp
        exact hc
    split at h
    · rename_i hc
      split at h
      · cases h
      split at h
      · cases h
        exact hc
      · obtain ⟨p, -, hp⟩ := Option.map_eq_some_iff.mp h
        cases hp
        exact hc
    split at h
    · rename_i hc
      obtain rfl := hword h
      exact hc
    split at h
    · rename_i hc
      obtain rfl := hword h
      exact hc
    split at h
    · rename_i hc
      obtain rfl := hword h
      exact hc
    split at h
    · rename_i hc
      obtain rfl := hword h
      exact .inl hc
    split at h
    · rename_i hc
      obtain rfl := hword h
      exact .inr (.inl hc)
    split at h
    · rename_i hc
      obtain rfl := hword h
      exact .inr (.inr (.inl hc.1))
    split at h
    · rename_i hc
      -- a number token reads as a number
      unfold readNumber at h
      simp only at h
      repeat' split at h
      all_goals cases h
      all_goals exact .inr (.inr hc)
    · cases h

/-- **A value shows in its first character.** -/
theorem loads_opensWith {v t : List Char} {c : Char} {j : Json} (hv : v.all isWs = true)
    (hc : isWs c = false) (h : loads (v ++ c :: t) = some j) : j.OpensWith c := by
  obtain ⟨k, hk, rfl⟩ := Option.map_eq_some_iff.mp h
  unfold readText at hk
  rw [skipWs_append hv, skipWs_of_not hc] at hk
  split at hk
  · rename_i k' r hr
    split at hk
    · obtain rfl := Option.some.inj hk
      have hopens := readValue_opensWith hr
      cases k' <;> exact hopens
    · cases hk
  · cases hk

/-- **A truncated object is not read.** -/
theorem loads_truncated {st : Style} {d : Dict} {p s : List Char}
    (h : dumps st (.obj d) = p ++ s) (hs : s ≠ []) : loads p = none := by
  obtain ⟨t, ht⟩ := dumps_obj_eq_cons st d
  cases p with
  | nil => rfl
  | cons c p =>
    have hc : c = '{' := by
      rw [ht, List.cons_append] at h
      exact (List.cons.inj h).1.symm
    subst hc
    rw [loads, readText, skipWs_of_not rfl, List.length_cons]
    cases hv : readValue (p.length + 1 + 1) ('{' :: p) with
    | none => rfl
    | some q =>
      obtain ⟨j, r⟩ := q
      -- the same value would be read from the whole text, which reads to its end
      have hlong := readValue_append s hv (Nat.le_max_left _ (render st (sortKeys (.obj d))).length)
        (Or.inr (not_isNumber_of_brace hv))
      rw [← h] at hlong
      have hwhole := readValue_render st (sortKeys (.obj d)) (r := [])
        (Nat.le_max_right (p.length + 2) _) NoNum.nil
      rw [List.append_nil] at hwhole
      rw [dumps, hwhole, Option.some.injEq, Prod.mk.injEq] at hlong
      exact absurd (List.append_eq_nil_iff.mp hlong.2.symm).2 hs

/-- **An object followed by anything but white space is not read.** -/
theorem loads_extra {t : List Char} {d : Dict} (h : loads t = some (.obj d)) {c : Char}
    (hc : isWs c = false) (u : List Char) : loads (t ++ c :: u) = none := by
  simp only [loads, Option.map_eq_some_iff] at h
  obtain ⟨j, hj, hd⟩ := h
  unfold readText at hj
  split at hj
  · rename_i k r hv
    split at hj
    · rename_i hr
      cases hj
      have hnum : ¬ IsNumber j := by
        intro hn
        cases j <;> first | exact hn | cases hd
      obtain ⟨a, v, hav⟩ : ∃ a v, skipWs t = a :: v := by
        cases ht : skipWs t with
        | nil =>
          rw [ht] at hv
          cases hv
        | cons a v => exact ⟨a, v, rfl⟩
      have hlong := readValue_append (c :: u) hv
        (m := (t ++ c :: u).length + 1) (by simp) (Or.inr hnum)
      rw [hav, List.cons_append, ← skipWs_append_of_cons hav] at hlong
      rw [loads, readText, hlong]
      have hrest : skipWs (r ++ c :: u) = c :: u := by
        unfold skipWs at hr ⊢
        rw [List.dropWhile_append, hr]
        simp [hc]
      simp [hrest]
    · cases hj
  · cases hj

end PyJson
