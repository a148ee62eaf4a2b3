import ComplianceMcp.JsonValue

/-! # `json.dumps`

The text `json.dumps` prints, for the separators `", "`/`": "` or `","`/`":"` and
with or without `ensure_ascii`.  Keys are sorted first: every call this library
serves passes `sort_keys=True`.  Text is a list of characters, so it can be
encoded as UTF-8 whatever it holds. -/
namespace PyJson

/-- The options of one `json.dumps` call. -/
structure Style where
  /-- `separators=(", ", ": ")` rather than `(",", ":")`. -/
  spaced : Bool
  /-- `ensure_ascii=True`. -/
  ascii : Bool
  deriving DecidableEq

/-- The least surrogate code points of a pair. -/
def hiSurrogate : Nat := 0xd800

/-- See `hiSurrogate`. -/
def loSurrogate : Nat := 0xdc00

/-- Four lower-case hexadecimal digits. -/
def hex4 (n : Nat) : List Char :=
  [(n / 4096 % 16).digitChar, (n / 256 % 16).digitChar, (n / 16 % 16).digitChar,
    (n % 16).digitChar]

/-- What follows the backslash in the escape of `c`, or `none` where `c` is printed
as it is. -/
def escapeBody (st : Style) (c : Char) : Option (List Char) :=
  if c = '"' then some ['"']
  else if c = '\\' then some ['\\']
  else if c = '\n' then some ['n']
  else if c = '\r' then some ['r']
  else if c = '\t' then some ['t']
  else if c = Char.ofNat 0x08 then some ['b']
  else if c = Char.ofNat 0x0c then some ['f']
  else if c.toNat < 0x20 then some ('u' :: hex4 c.toNat)
  else if st.ascii = true ∧ 0x7e < c.toNat then
    if c.toNat < 0x10000 then some ('u' :: hex4 c.toNat)
    else some ('u' :: hex4 (hiSurrogate + (c.toNat - 0x10000) / 1024) ++
      '\\' :: 'u' :: hex4 (loSurrogate + (c.toNat - 0x10000) % 1024))
  else none

/-- One character of a string. -/
def escapeChar (st : Style) (c : Char) : List Char :=
  match escapeBody st c with
  | some b => '\\' :: b
  | none => [c]

/-- A string without its opening quote. -/
def quoted (st : Style) (s : String) : List Char := s.toList.flatMap (escapeChar st) ++ ['"']

/-- An integer in decimal. -/
def intText : Int → List Char
  | .ofNat n => Nat.toDigits 10 n
  | .negSucc n => '-' :: Nat.toDigits 10 (n + 1)

/-- The separator between items. -/
def itemSep (st : Style) : List Char := if st.spaced then [',', ' '] else [',']

/-- The separator after a key. -/
def keySep (st : Style) : List Char := if st.spaced then [':', ' '] else [':']

mutual
/-- The text of a value whose keys are in the order they are to be printed. -/
def render (st : Style) : Json → List Char
  | .null => ['n', 'u', 'l', 'l']
  | .bool true => ['t', 'r', 'u', 'e']
  | .bool false => ['f', 'a', 'l', 's', 'e']
  | .int n => intText n
  | .float x => x.text
  | .str s => '"' :: quoted st s
  | .arr [] => ['[', ']']
  | .arr (x :: xs) => '[' :: (render st x ++ renderItems st xs)
  | .obj [] => ['{', '}']
  | .obj ((k, v) :: fs) =>
    '{' :: '"' :: (quoted st k ++ keySep st ++ render st v ++ renderFields st fs)
/-- The items after the first one, and the closing bracket. -/
def renderItems (st : Style) : List Json → List Char
  | [] => [']']
  | x :: xs => itemSep st ++ render st x ++ renderItems st xs
/-- The fields after the first one, and the closing brace. -/
def renderFields (st : Style) : List (String × Json) → List Char
  | [] => ['}']
  | (k, v) :: fs =>
    itemSep st ++ '"' :: (quoted st k ++ keySep st ++ render st v ++ renderFields st fs)
end

/-- `json.dumps(j, sort_keys=True, ...)`. -/
def dumps (st : Style) (j : Json) : List Char := render st j.sortKeys

/-! ## What is printed is printable

Control characters are always escaped, so a rendered value holds no line break. -/

/-- The character is a space or comes after it. -/
def Printable (c : Char) : Prop := 0x20 ≤ c.toNat

instance : DecidablePred Printable := fun c => Nat.decLe 0x20 c.toNat

theorem printable_digitChar : ∀ n, n < 16 → Printable n.digitChar := by
  decide

theorem printable_hex4 (n : Nat) : ∀ c ∈ hex4 n, Printable c := by
  intro c hc
  simp only [hex4, List.mem_cons, List.not_mem_nil, or_false] at hc
  rcases hc with rfl | rfl | rfl | rfl <;> exact printable_digitChar _ (Nat.mod_lt _ (by decide))

theorem printable_hexEscape (n : Nat) : ∀ c ∈ 'u' :: hex4 n, Printable c := by
  intro c hc
  rcases List.mem_cons.mp hc with rfl | hc
  · decide
  · exact printable_hex4 n c hc

theorem printable_escapeBody {st : Style} {d : Char} {b : List Char}
    (h : escapeBody st d = some b) : ∀ c ∈ b, Printable c := by
  have hone : ∀ e : Char, Printable e → ∀ c ∈ [e], Printable c := by
    intro e he c hc
    rw [List.mem_singleton.mp hc]
    exact he
  unfold escapeBody at h
  repeat' split at h
  all_goals cases h
  all_goals first | exact hone _ (by decide) | skip
  · exact printable_hexEscape _
  · exact printable_hexEscape _
  · intro c hc
    rcases List.mem_append.mp hc with hc | hc
    · exact printable_hexEscape _ c hc
    · rcases List.mem_cons.mp hc with rfl | hc
      · decide
      · exact printable_hexEscape _ c hc

/-- A character printed as it is is none of those the reader treats specially. -/
theorem escapeBody_none {st : Style} {d : Char} (h : escapeBody st d = none) :
    d ≠ '"' ∧ d ≠ '\\' ∧ Printable d := by
  unfold escapeBody at h
  repeat' split at h
  all_goals cases h
  exact ⟨‹_›, ‹_›, Nat.le_of_not_lt ‹_›⟩

theorem printable_escapeChar (st : Style) (d : Char) : ∀ c ∈ escapeChar st d, Printable c := by
  intro c hc
  unfold escapeChar at hc
  split at hc
  · rename_i b hb
    rcases List.mem_cons.mp hc with rfl | hc
    · decide
    · exact printable_escapeBody hb c hc
  · rename_i hb
    rw [List.mem_singleton.mp hc]
    exact (escapeBody_none hb).2.2

/-- A text all of whose characters are printable. -/
def AllPrintable (t : List Char) : Prop := ∀ c ∈ t, Printable c

instance (t : List Char) : Decidable (AllPrintable t) := List.decidableBAll Printable t

theorem AllPrintable.nil : AllPrintable [] := fun _ h => absurd h List.not_mem_nil

theorem AllPrintable.cons {c : Char} {t : List Char} (hc : Printable c) (ht : AllPrintable t) :
    AllPrintable (c :: t) := by
  intro d hd
  rcases List.mem_cons.mp hd with rfl | hd
  · exact hc
  · exact ht d hd

theorem AllPrintable.append {t u : List Char} (ht : AllPrintable t) (hu : AllPrintable u) :
    AllPrintable (t ++ u) := by
  intro d hd
  rcases List.mem_append.mp hd with hd | hd
  · exact ht d hd
  · exact hu d hd

theorem AllPrintable.not_mem {t : List Char} (h : AllPrintable t) {c : Char}
    (hc : c.toNat < 0x20) : c ∉ t := by
  intro hm
  have : 0x20 ≤ c.toNat := h c hm
  omega

theorem allPrintable_quoted (st : Style) (s : String) : AllPrintable (quoted st s) := by
  refine AllPrintable.append ?_ (AllPrintable.cons (by decide) AllPrintable.nil)
  intro c hc
  obtain ⟨d, -, hd⟩ := List.mem_flatMap.mp hc
  exact printable_escapeChar st d c hd

theorem printable_of_isDigit {c : Char} (h : c.isDigit = true) : Printable c := by
  have h' : c.val ≥ 48 := by
    simp only [Char.isDigit, Bool.and_eq_true, decide_eq_true_eq] at h
    exact h.1
  have := UInt32.le_iff_toNat_le.mp h'
  unfold Printable Char.toNat
  exact Nat.le_trans (by decide) this

theorem printable_of_numChar {c : Char} (h : numChar c = true) : Printable c := by
  unfold numChar at h
  simp only [Bool.or_eq_true, beq_iff_eq] at h
  rcases h with ((((h | rfl) | rfl) | rfl) | rfl) | rfl
  · exact printable_of_isDigit h
  all_goals
    unfold Printable
    decide

theorem allPrintable_intText : ∀ n : Int, AllPrintable (intText n)
  | .ofNat n => fun _ hc =>
    printable_of_isDigit (Nat.isDigit_of_mem_toDigits (b := 10) (by decide) (by decide) hc)
  | .negSucc n => AllPrintable.cons (by decide) (fun _ hc =>
    printable_of_isDigit (Nat.isDigit_of_mem_toDigits (b := 10) (by decide) (by decide) hc))

theorem numChar_of_isDigit {c : Char} (h : c.isDigit = true) : numChar c = true := by
  simp [numChar, h]

/-- The text of a numeral is made of digits and the marks of a number. -/
theorem all_numChar_numeral {t : Binary64.Numeral} (h : t.Printed) : t.text.all numChar = true := by
  have hdigits : ∀ {ds : List Char}, ds.all Char.isDigit = true → ds.all numChar = true :=
    fun hds => List.all_eq_true.mpr fun c hc => numChar_of_isDigit (List.all_eq_true.mp hds c hc)
  have hexp : (t.exp.elim [] Binary64.exponentText).all numChar = true := by
    cases t.exp with
    | none => rfl
    | some e =>
      rw [Option.elim_some, Binary64.exponentText, List.all_cons, List.all_cons, List.all_append,
        hdigits (Binary64.all_isDigit_zeros _), hdigits (Binary64.all_isDigit_toDigits _)]
      split <;> rfl
  rw [Binary64.Numeral.text, Binary64.Numeral.tail, List.all_append, List.all_append, hexp,
    hdigits h.intDigits]
  split
  · rfl
  · rw [List.all_cons, hdigits h.fracDigits]
    rfl

theorem all_numChar_finite (neg : Bool) {q : ℚ} (h : Binary64.Representable q) :
    (Binary64.text (.finite neg q h)).all numChar = true := by
  rw [Binary64.text, List.all_append, all_numChar_numeral (Binary64.printed_numeralOf h.fixed)]
  cases neg <;> rfl

theorem allPrintable_text : ∀ x : Binary64, AllPrintable x.text
  | .nan => by
    unfold Binary64.text
    decide
  | .infinite true | .infinite false => by
    unfold Binary64.text
    decide
  | .finite neg _ h => fun c hc =>
    printable_of_numChar (List.all_eq_true.mp (all_numChar_finite neg h) c hc)

theorem allPrintable_itemSep (st : Style) : AllPrintable (itemSep st) := by
  unfold itemSep
  split <;> decide

theorem allPrintable_keySep (st : Style) : AllPrintable (keySep st) := by
  unfold keySep
  split <;> decide

mutual
/-- **A rendered value is printable**, whatever its strings hold. -/
theorem allPrintable_render (st : Style) : ∀ j : Json, AllPrintable (render st j)
  | .null | .bool true | .bool false | .arr [] | .obj [] => by
    unfold render
    decide
  | .int n => allPrintable_intText n
  | .float x => allPrintable_text x
  | .str s => AllPrintable.cons (by decide) (allPrintable_quoted st s)
  | .arr (x :: xs) =>
    AllPrintable.cons (by decide)
      ((allPrintable_render st x).append (allPrintable_renderItems st xs))
  | .obj ((k, v) :: fs) =>
    AllPrintable.cons (by decide) (AllPrintable.cons (by decide)
      ((((allPrintable_quoted st k).append (allPrintable_keySep st)).append
        (allPrintable_render st v)).append (allPrintable_renderFields st fs)))
theorem allPrintable_renderItems (st : Style) :
    ∀ xs : List Json, AllPrintable (renderItems st xs)
  | [] => by
    unfold renderItems
    decide
  | x :: xs => ((allPrintable_itemSep st).append (allPrintable_render st x)).append
      (allPrintable_renderItems st xs)
theorem allPrintable_renderFields (st : Style) :
    ∀ fs : List (String × Json), AllPrintable (renderFields st fs)
  | [] => by
    unfold renderFields
    decide
  | (k, v) :: fs => (allPrintable_itemSep st).append
      (AllPrintable.cons (by decide)
        ((((allPrintable_quoted st k).append (allPrintable_keySep st)).append
          (allPrintable_render st v)).append (allPrintable_renderFields st fs)))
end

/-- `json.dumps` prints one line. -/
theorem allPrintable_dumps (st : Style) (j : Json) : AllPrintable (dumps st j) :=
  allPrintable_render st _

/-- An object is printed between braces. -/
theorem dumps_obj_eq_cons (st : Style) (d : Dict) : ∃ t, dumps st (.obj d) = '{' :: t := by
  unfold dumps
  rw [Json.sortKeys_obj]
  rcases Json.sortedFields d with - | ⟨⟨k, v⟩, fs⟩
  · exact ⟨_, rfl⟩
  · exact ⟨_, rfl⟩

end PyJson
