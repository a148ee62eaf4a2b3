import ComplianceMcp.DraftTable

/-! # The checks on a draft

Before a draft is filed its content is checked: the quotes of a policy mapping against the
releases it names, and an evidence index against the manifest of the control and period
in its title.  Three regular expressions read the text.  Each of them is matched without
backtracking here: `\d+`, `\s*`, `[^|]*` and `[A-Z0-9-]+` can only stop before a character
they do not accept, and the lazy group of a quote takes one character more until what
follows fits. -/
namespace ComplianceMcp

open PyText
open Sha256 (isHexDigit)

/-! ## Characters -/

/-- The zeros of the decimal digits of Unicode. -/
def decimalZeros : List Nat :=
  [0x30, 0x660, 0x6f0, 0x7c0, 0x966, 0x9e6, 0xa66, 0xae6, 0xb66, 0xbe6, 0xc66, 0xce6, 0xd66, 0xde6,
    0xe50, 0xed0, 0xf20, 0x1040, 0x1090, 0x17e0, 0x1810, 0x1946, 0x19d0, 0x1a80, 0x1a90, 0x1b50,
    0x1bb0, 0x1c40, 0x1c50, 0xa620, 0xa8d0, 0xa900, 0xa9d0, 0xa9f0, 0xaa50, 0xabf0, 0xff10, 0x104a0,
    0x10d30, 0x11066, 0x110f0, 0x11136, 0x111d0, 0x112f0, 0x11450, 0x114d0, 0x11650, 0x116c0,
    0x11730, 0x118e0, 0x11950, 0x11c50, 0x11d50, 0x11da0, 0x11f50, 0x16a60, 0x16ac0, 0x16b50,
    0x1d7ce, 0x1d7d8, 0x1d7e2, 0x1d7ec, 0x1d7f6, 0x1e140, 0x1e2f0, 0x1e4f0, 0x1e950, 0x1fbf0]

/-- The characters of `\d`. -/
def isDecimal (c : Char) : Bool := decimalZeros.any (fun z => z ≤ c.toNat && c.toNat < z + 10)

/-- The characters of `[A-Z0-9-]`. -/
def isIdChar (c : Char) : Bool := ('A' ≤ c && c ≤ 'Z') || ('0' ≤ c && c ≤ '9') || c = '-'

/-- The characters of `\w`; `alnum` says which letters and digits there are beyond ASCII. -/
def isWord (alnum : Char → Bool) (c : Char) : Bool :=
  c.isAlphanum || c = '_' || (127 < c.toNat && alnum c)

/-- `_normalise`: runs of white space become one blank, none at either end. -/
def collapse : Text → Text
  | [] => []
  | c :: t =>
    if isSpace c then (match t with
      | d :: _ => if isSpace d then collapse t else ' ' :: collapse t
      | [] => [' '])
    else c :: collapse t

def normalise (t : Text) : Text := strip (collapse t)

/-! ## Quotes -/

/-- `"\s*\|`: what is left after the end of a quote cell. -/
def closesQuote : Text → Option Text
  | '"' :: t => match t.dropWhile isSpace with
    | '|' :: rest => some rest
    | _ => none
  | _ => none

/-- `(.+?)"\s*\|`: the shortest quote on the line, and what is left; `taken` is backwards. -/
def lazyQuote (taken : Text) : Text → Option (Text × Text)
  | [] => none
  | c :: t =>
    if c = '\n' then none
    else match closesQuote t with
      | some rest => some ((c :: taken).reverse, rest)
      | none => lazyQuote (c :: taken) t

/-- A bar, and what is left after it and the white space behind it. -/
def afterBar : Text → Option Text
  | '|' :: t => some (t.dropWhile isSpace)
  | _ => none

/-- A number, and what is left after it and the white space behind it. -/
def afterDigits (t : Text) : Option Text :=
  if t.takeWhile isDecimal = [] then none else some ((t.dropWhile isDecimal).dropWhile isSpace)

/-- `\|\s*\d+\s*\|[^|]*\|\s*"(.+?)"\s*\|`: the quote of a row, and what is left. -/
def matchQuoteCell (t : Text) : Option (Text × Text) := do
  let t ← afterBar t
  let t ← afterDigits t
  let t ← afterBar t
  let t ← afterBar (t.dropWhile (· ≠ '|'))
  match t with
  | '"' :: t => lazyQuote [] t
  | _ => none

/-- `_QUOTE_CELL.findall(t)`: `bol` says that a line begins here, `skip` characters belong to
the last match. -/
def findQuotes (bol : Bool) : Nat → Text → List Text
  | _, [] => []
  | skip + 1, c :: t => findQuotes (c = '\n') skip t
  | 0, c :: t =>
    match (if bol then matchQuoteCell (c :: t) else none) with
    | some (quote, rest) => quote :: findQuotes (c = '\n') (t.length - rest.length) t
    | none => findQuotes (c = '\n') 0 t

structure Release where
  releaseId : String
  source : String
  published : String
  title : String
  url : String
  text : String

/-- A quote in a message: its first 80 characters. -/
def abridged (q : Text) : String :=
  "\"" ++ String.ofList (q.take 80) ++ (if 80 < q.length then "..." else "") ++ "\""

/-- `check_policy_mapping`. -/
def checkPolicyMapping (body : Text) (relatedIds : List String)
    (lookupRelease : String → Option Release) :
    Except PyError Unit :=
  let quotes := (findQuotes true 0 body).map normalise
  if quotes = [] then
    .error (.draftRejected
      "policy_mapping draft has no obligations table with quoted text (| # | type | \"quote\" | ...)")
  else
    let corpus := (relatedIds.filterMap lookupRelease).map (fun r => normalise r.text.toList)
    if corpus = [] then
      .error (.draftRejected
        "related_ids must include at least one known release id so quotes can be verified")
    else
      let missing := quotes.filter (fun q => !corpus.any (fun t => contains t q))
      if missing = [] then .ok ()
      else .error (.draftRejected (toString missing.length ++
        " quote(s) are not verbatim from the related release(s): " ++
        String.intercalate "; " (missing.map abridged)))

/-! ## Hashes -/

/-- Whether the text goes on with a word character. -/
def startsWord (alnum : Char → Bool) : Text → Bool
  | [] => false
  | c :: _ => isWord alnum c

/-- `\b[0-9a-f]{64}\b` matches here, `prev` being whether a word character stands before: a
hex digit is a word character, so no other may stand at either end. -/
def hashHere (alnum : Char → Bool) (prev : Bool) (t : Text) : Bool :=
  (t.take 64).length = 64 && (t.take 64).all isHexDigit && !prev && !startsWord alnum (t.drop 64)

/-- `_SHA256.findall(t)`; `skip` characters belong to the last match. -/
def findHashes (alnum : Char → Bool) (prev : Bool) : Nat → Text → List Text
  | _, [] => []
  | skip + 1, c :: t => findHashes alnum (isWord alnum c) skip t
  | 0, c :: t =>
    if hashHere alnum prev (c :: t) then
      (c :: t).take 64 :: findHashes alnum (isWord alnum c) 63 t
    else findHashes alnum (isWord alnum c) 0 t

/-! ## Titles -/

/-- `\d{4}-\d{2}-\d{2}`. -/
def isDateText : Text → Bool
  | [y₁, y₂, y₃, y₄, '-', m₁, m₂, '-', d₁, d₂] => [y₁, y₂, y₃, y₄, m₁, m₂, d₁, d₂].all isDecimal
  | _ => false

/-- A date at the start of a text, and what is left. -/
def matchDate (t : Text) : Option (Text × Text) :=
  if isDateText (t.take 10) then some (t.take 10, t.drop 10) else none

def indexPrefix : Text := "Evidence index ".toList

/-- `\.\.(?P<end>…)`. -/
def matchEnd : Text → Option Text
  | '.' :: '.' :: t => (matchDate t).map Prod.fst
  | _ => none

/-- ` (?P<start>…)\.\.(?P<end>…)`. -/
def matchSpan : Text → Option (Text × Text)
  | ' ' :: t => (matchDate t).bind (fun m => (matchEnd m.2).map (fun e => (m.1, e)))
  | _ => none

/-- `_INDEX_TITLE` at the start of a text: control, start and end. -/
def matchIndex (t : Text) : Option (Text × Text × Text) :=
  if indexPrefix.isPrefixOf t then
    let t := t.drop indexPrefix.length
    if t.takeWhile isIdChar = [] then none
    else (matchSpan (t.dropWhile isIdChar)).map (fun m => (t.takeWhile isIdChar, m.1, m.2))
  else none

/-- `period_from_title(title)`, from `_INDEX_TITLE.search(title)`. -/
def periodFromTitle (title : String) : Option (String × String × String) :=
  (title.toList.tails.findSome? matchIndex).map
    (fun m => (String.ofList m.1, String.ofList m.2.1, String.ofList m.2.2))

/-- `check_evidence_pack_index`; `recomputeHash` may raise. -/
def checkEvidencePackIndex (alnum : Char → Bool) (body : Text) (title : String)
    (recomputeHash : String → String → String → Except PyError (Option String)) :
    Except PyError Unit :=
  match periodFromTitle title with
  | none => .error (.draftRejected
      "evidence_pack_index title must be 'Evidence index <control_id> <start>..<end>'")
  | some (control, start, end_) =>
    let cited := findHashes alnum false 0 body
    if cited = [] then
      .error (.draftRejected
        "evidence_pack_index body must cite the manifest SHA-256 from evidence_bundle")
    else do
      match ← recomputeHash control start end_ with
      | none => .error (.draftRejected
          ("cannot recompute evidence for " ++ control ++ " " ++ start ++ ".." ++ end_))
      | some actual =>
        if actual.toList ∈ cited then .ok ()
        else .error (.draftRejected
          "cited manifest hash does not match the evidence bundle for this control and period; re-run evidence_bundle")

/-- `check_draft`. -/
def checkDraft (alnum : Char → Bool) (kind : DraftKind) (title : String) (body : Text)
    (relatedIds : List String) (lookupRelease : String → Option Release)
    (recomputeHash : String → String → String → Except PyError (Option String)) :
    Except PyError Unit :=
  match kind with
  | .policyMapping => checkPolicyMapping body relatedIds lookupRelease
  | .evidencePackIndex => checkEvidencePackIndex alnum body title recomputeHash
  | _ => .ok ()

/-! ## What the search for hashes finds -/

/-- 64 hex digits. -/
structure IsHash (h : Text) : Prop where
  length : h.length = 64
  hex : ∀ c ∈ h, isHexDigit c = true

/-- Whether a word character stands at the end of a text, `prev` where it is empty. -/
def endsWord (alnum : Char → Bool) (prev : Bool) (t : Text) : Bool :=
  t.foldl (fun _ c => isWord alnum c) prev

/-- The hash stands in the text with no word character at either end. -/
def Standalone (alnum : Char → Bool) (h t : Text) : Prop :=
  IsHash h ∧ ∃ before after, t = before ++ h ++ after ∧ endsWord alnum false before = false ∧
    startsWord alnum after = false

section Hashes

variable {alnum : Char → Bool}

theorem isWord_of_isHexDigit {c : Char} (h : isHexDigit c = true) : isWord alnum c = true := by
  have ha : c.isAlphanum = true := by
    unfold isHexDigit at h
    rw [Bool.or_eq_true, Bool.and_eq_true, decide_eq_true_eq, decide_eq_true_eq] at h
    unfold Char.isAlphanum Char.isAlpha Char.isLower
    rcases h with h | ⟨h₁, h₂⟩
    · rw [h, Bool.or_true]
    · have h₃ : c.val ≤ 122 := UInt32.le_trans h₂ (by decide)
      have h₁' : (97 : UInt32) ≤ c.val := h₁
      simp [h₁', h₃]
  unfold isWord
  rw [ha, Bool.true_or, Bool.true_or]

/-- Characters inside a run of hex digits have a word character before them. -/
theorem endsWord_of_hex {prev : Bool} {t : Text} (hne : t ≠ [])
    (ht : ∀ c ∈ t, isHexDigit c = true) :
    endsWord alnum prev t = true := by
  obtain ⟨t', c, rfl⟩ := List.eq_nil_or_concat' t |>.resolve_left hne
  unfold endsWord
  rw [List.foldl_append]
  exact isWord_of_isHexDigit (ht c (List.mem_append_right _ List.mem_cons_self))

theorem hashHere_iff {prev : Bool} {t : Text} : hashHere alnum prev t = true ↔
    IsHash (t.take 64) ∧ prev = false ∧ startsWord alnum (t.drop 64) = false := by
  unfold hashHere
  rw [Bool.and_eq_true, Bool.and_eq_true, Bool.and_eq_true, Bool.not_eq_true', Bool.not_eq_true',
    decide_eq_true_eq, List.all_eq_true]
  constructor
  · rintro ⟨⟨⟨hl, hh⟩, hp⟩, ha⟩
    exact ⟨⟨hl, hh⟩, hp, ha⟩
  · rintro ⟨⟨hl, hh⟩, hp, ha⟩
    exact ⟨⟨⟨hl, hh⟩, hp⟩, ha⟩

/-- What the search finds from a position on: the standalone hashes that begin after the
skipped characters. -/
theorem mem_findHashes {h t : Text} {prev : Bool} {skip : Nat} :
    h ∈ findHashes alnum prev skip t ↔ IsHash h ∧ ∃ before after, t = before ++ h ++ after ∧
      skip ≤ before.length ∧ endsWord alnum prev before = false ∧
      startsWord alnum after = false := by
  induction t generalizing prev skip with
  | nil =>
    refine ⟨fun hm => ?_, ?_⟩
    · cases skip <;> cases hm
    · rintro ⟨hh, before, after, heq, -⟩
      have hl := congrArg List.length heq
      rw [List.length_append, List.length_append, hh.length] at hl
      exact absurd hl (by simp; omega)
  | cons c t ih =>
    -- a standalone hash that does not begin here begins further on
    have hrest : ∀ k, (∃ before after, t = before ++ h ++ after ∧ k ≤ before.length ∧
        endsWord alnum (isWord alnum c) before = false ∧ startsWord alnum after = false) ↔
        ∃ before after, c :: t = before ++ h ++ after ∧ k + 1 ≤ before.length ∧
          endsWord alnum prev before = false ∧ startsWord alnum after = false := by
      intro k
      constructor
      · rintro ⟨before, after, rfl, hk, hb, ha⟩
        exact ⟨c :: before, after, rfl, Nat.succ_le_succ hk, hb, ha⟩
      · rintro ⟨before, after, heq, hk, hb, ha⟩
        cases before with
        | nil => exact absurd hk (by simp)
        | cons d before =>
          cases heq
          exact ⟨before, after, rfl, Nat.le_of_succ_le_succ hk, hb, ha⟩
    cases skip with
    | succ k => rw [findHashes, ih, hrest]
    | zero =>
      rw [findHashes]
      split
      · next hhere =>
        obtain ⟨hhash, hprev, hafter⟩ := hashHere_iff.mp hhere
        rw [List.mem_cons, ih, hrest]
        constructor
        · rintro (rfl | ⟨hh, before, after, heq, -, hb, ha⟩)
          · exact ⟨hhash, [], (c :: t).drop 64, (List.take_append_drop 64 (c :: t)).symm,
              Nat.zero_le _, hprev, hafter⟩
          · exact ⟨hh, before, after, heq, Nat.zero_le _, hb, ha⟩
        · rintro ⟨hh, before, after, heq, -, hb, ha⟩
          by_cases hnil : before = []
          · left
            rw [heq, hnil, List.nil_append, List.take_left' hh.length]
          -- another hash cannot begin within the one found: hex digits would stand before it
          · refine Or.inr ⟨hh, before, after, heq, ?_, hb, ha⟩
            by_contra hlt
            have hpre : before <+: (c :: t).take 64 := by
              rw [List.prefix_take_iff, heq, List.append_assoc]
              exact ⟨List.prefix_append _ _, by omega⟩
            rw [endsWord_of_hex hnil (fun d hd => hhash.hex d (hpre.subset hd))] at hb
            cases hb
      · next hhere =>
        rw [ih, hrest]
        constructor
        · rintro ⟨hh, before, after, heq, -, hb, ha⟩
          exact ⟨hh, before, after, heq, Nat.zero_le _, hb, ha⟩
        · rintro ⟨hh, before, after, heq, -, hb, ha⟩
          refine ⟨hh, before, after, heq, ?_, hb, ha⟩
          by_contra hlt
          -- none begins here, so something stands before it
          have hnil : before = [] := List.eq_nil_of_length_eq_zero (by omega)
          subst hnil
          refine hhere (hashHere_iff.mpr ?_)
          rw [heq, List.nil_append, List.take_left' hh.length, List.drop_left' hh.length]
          exact ⟨hh, hb, ha⟩

/-- **The search finds exactly the standalone hashes.** -/
theorem mem_findHashes_iff {h t : Text} :
    h ∈ findHashes alnum false 0 t ↔ Standalone alnum h t := by
  rw [mem_findHashes]
  constructor
  · rintro ⟨hh, before, after, heq, -, hb, ha⟩
    exact ⟨hh, before, after, heq, hb, ha⟩
  · rintro ⟨hh, before, after, heq, hb, ha⟩
    exact ⟨hh, before, after, heq, Nat.zero_le _, hb, ha⟩

end Hashes

/-! ## The period of a title -/

/-- A text of the shape `YYYY-MM-DD`. -/
structure IsoShape (s : String) : Prop where
  shape : ∃ y₁ y₂ y₃ y₄ m₁ m₂ d₁ d₂, s.toList = [y₁, y₂, y₃, y₄, '-', m₁, m₂, '-', d₁, d₂] ∧
    ∀ c ∈ [y₁, y₂, y₃, y₄, m₁, m₂, d₁, d₂], c.isDigit = true

/-- A control id the title of an index can carry. -/
structure PlainId (c : String) : Prop where
  nonempty : c ≠ ""
  chars : ∀ x ∈ c.toList, isIdChar x = true

def indexTitle (c s e : String) : String := "Evidence index " ++ c ++ " " ++ s ++ ".." ++ e

theorem isDecimal_of_isDigit {c : Char} (h : c.isDigit = true) : isDecimal c = true := by
  unfold Char.isDigit at h
  rw [Bool.and_eq_true, decide_eq_true_eq, decide_eq_true_eq] at h
  unfold isDecimal decimalZeros
  rw [List.any_cons, Bool.or_eq_true]
  refine Or.inl ?_
  rw [Bool.and_eq_true, decide_eq_true_eq, decide_eq_true_eq]
  exact ⟨h.1, Nat.lt_succ_of_le h.2⟩

theorem IsoShape.isDateText {s : String} (h : IsoShape s) : isDateText s.toList = true := by
  obtain ⟨y₁, y₂, y₃, y₄, m₁, m₂, d₁, d₂, hs, hd⟩ := h.shape
  rw [hs]
  exact List.all_eq_true.mpr (fun c hc => isDecimal_of_isDigit (hd c hc))

theorem isDateText_length {t : Text} (h : isDateText t = true) : t.length = 10 := by
  unfold isDateText at h
  split at h
  · rfl
  · cases h

theorem matchDate_append {s : String} (h : IsoShape s) (t : Text) :
    matchDate (s.toList ++ t) = some (s.toList, t) := by
  have hl := isDateText_length h.isDateText
  unfold matchDate
  rw [List.take_left' hl, List.drop_left' hl, if_pos h.isDateText]

theorem matchEnd_dots (t : Text) : matchEnd ('.' :: '.' :: t) = (matchDate t).map Prod.fst := rfl

theorem matchEnd_eq_none {t : Text} (h : ∀ u, t ≠ '.' :: '.' :: u) : matchEnd t = none := by
  unfold matchEnd
  split
  · exact absurd rfl (h _)
  · rfl

theorem matchSpan_blank (t : Text) : matchSpan (' ' :: t) =
    (matchDate t).bind (fun m => (matchEnd m.2).map (fun e => (m.1, e))) := rfl

theorem matchSpan_eq_none {t : Text} (h : ∀ u, t ≠ ' ' :: u) : matchSpan t = none := by
  unfold matchSpan
  split
  · exact absurd rfl (h _)
  · rfl

theorem matchSpan_append {s e : String} (hs : IsoShape s) (he : IsoShape e) :
    matchSpan (' ' :: (s.toList ++ '.' :: '.' :: (e.toList ++ []))) =
      some (s.toList, e.toList) := by
  rw [matchSpan_blank, matchDate_append hs, Option.bind_some, matchEnd_dots, matchDate_append he]
  rfl

theorem matchIndex_title {c s e : String} (hc : PlainId c) (hs : IsoShape s) (he : IsoShape e) :
    matchIndex (indexTitle c s e).toList = some (c.toList, s.toList, e.toList) := by
  have ht : (indexTitle c s e).toList =
      indexPrefix ++ (c.toList ++ ' ' :: (s.toList ++ '.' :: '.' :: (e.toList ++ []))) := by
    unfold indexTitle indexPrefix
    simp [String.toList_append]
  have hne : c.toList ≠ [] := fun h => hc.nonempty (String.toList_inj.mp h)
  have htake : (c.toList ++ ' ' :: (s.toList ++ '.' :: '.' :: (e.toList ++ []))).takeWhile
      isIdChar = c.toList := by
    rw [List.takeWhile_append_of_pos hc.chars, List.takeWhile_cons_of_neg (by decide),
      List.append_nil]
  have hdrop : (c.toList ++ ' ' :: (s.toList ++ '.' :: '.' :: (e.toList ++ []))).dropWhile
    isIdChar = ' ' :: (s.toList ++ '.' :: '.' :: (e.toList ++ [])) := by
    rw [List.dropWhile_append_of_pos hc.chars, List.dropWhile_cons_of_neg (by decide)]
  have hpre : indexPrefix.isPrefixOf (indexTitle c s e).toList = true := by
    rw [ht]
    exact List.isPrefixOf_iff_prefix.mpr (List.prefix_append _ _)
  unfold matchIndex
  rw [if_pos hpre, ht, List.drop_left]
  simp only [htake, hdrop, if_neg hne, matchSpan_append hs he, Option.map_some]

/-- **A title with a plain id is read back.** -/
theorem periodFromTitle_plain {c s e : String} (hc : PlainId c) (hs : IsoShape s)
    (he : IsoShape e) :
    periodFromTitle (indexTitle c s e) = some (c, s, e) := by
  have hm := matchIndex_title hc hs he
  unfold periodFromTitle
  cases ht : (indexTitle c s e).toList with
  | nil =>
    rw [ht] at hm
    cases hm
  | cons x xs =>
    rw [List.tails_cons, List.findSome?_cons, ← ht, hm]
    simp only [Option.map_some, String.ofList_toList]

/-- **What is read as a control is a plain id.** -/
theorem plainId_of_periodFromTitle {title c s e : String}
    (h : periodFromTitle title = some (c, s, e)) :
    PlainId c := by
  obtain ⟨m, hm, heq⟩ := Option.map_eq_some_iff.mp h
  obtain ⟨t, -, ht⟩ := List.exists_of_findSome?_eq_some hm
  cases heq
  unfold matchIndex at ht
  split at ht
  swap
  · cases ht
  simp only at ht
  split at ht
  · cases ht
  next hne =>
  obtain ⟨n, -, rfl⟩ := Option.map_eq_some_iff.mp ht
  constructor
  · intro hnil
    refine hne ?_
    have := congrArg String.toList hnil
    rwa [String.toList_ofList] at this
  · intro x hx
    rw [String.toList_ofList] at hx
    exact List.all_eq_true.mp List.all_takeWhile x hx

/-! ## White space around a title -/

/-- The white space of Unicode. -/
def spaceCodes : List Nat :=
  [9, 10, 11, 12, 13, 28, 29, 30, 31, 32, 0x85, 0xa0, 0x1680, 0x2000, 0x2001, 0x2002,
    0x2003, 0x2004, 0x2005, 0x2006, 0x2007, 0x2008, 0x2009, 0x200a, 0x2028, 0x2029, 0x202f,
    0x205f, 0x3000]

theorem mem_spaceCodes {c : Char} (h : isSpace c = true) : c.toNat ∈ spaceCodes := by
  unfold isSpace at h
  simp only [Bool.or_eq_true, Bool.and_eq_true, decide_eq_true_eq, beq_iff_eq] at h
  simp only [spaceCodes, List.mem_cons, List.not_mem_nil, or_false]
  omega

theorem isSpace_not_decimal {c : Char} (h : isSpace c = true) : isDecimal c = false := by
  have hall : ∀ n ∈ spaceCodes, decimalZeros.any (fun z => z ≤ n && n < z + 10) = false := by decide
  exact hall c.toNat (mem_spaceCodes h)

theorem isSpace_not_id {c : Char} (h : isSpace c = true) : isIdChar c = false := by
  have hm := mem_spaceCodes h
  have hne : ¬ c = '-' := by
    rintro rfl
    cases h
  unfold isIdChar
  rw [Bool.or_eq_false_iff, Bool.or_eq_false_iff, Bool.and_eq_false_iff, Bool.and_eq_false_iff,
    decide_eq_false_iff_not, decide_eq_false_iff_not, decide_eq_false_iff_not,
    decide_eq_false_iff_not, decide_eq_false_iff_not]
  have hnum : ∀ n ∈ spaceCodes, ¬ (65 ≤ n ∧ n ≤ 90) ∧ ¬ (48 ≤ n ∧ n ≤ 57) := by decide
  obtain ⟨h₁, h₂⟩ := hnum c.toNat hm
  refine ⟨⟨?_, ?_⟩, hne⟩
  · exact not_and_or.mp h₁
  · exact not_and_or.mp h₂

theorem isDateText_no_space {t : Text} (h : isDateText t = true) : ∀ c ∈ t, isSpace c = false := by
  unfold isDateText at h
  split at h
  · next y₁ y₂ y₃ y₄ m₁ m₂ d₁ d₂ =>
    have hall := List.all_eq_true.mp h
    intro c hc
    by_cases hd : c = '-'
    · rw [hd]
      rfl
    · have hdec : isDecimal c = true := by
        refine hall c ?_
        simp only [List.mem_cons, List.not_mem_nil, or_false] at hc ⊢
        tauto
      cases hs : isSpace c with
      | false => rfl
      | true =>
        rw [isSpace_not_decimal hs] at hdec
        cases hdec
  · cases h

/-- White space at the end of a text leaves a date at its start alone. -/
theorem matchDate_append_space {t w : Text} (hw : ∀ c ∈ w, isSpace c = true) :
    matchDate (t ++ w) = (matchDate t).map (fun m => (m.1, m.2 ++ w)) := by
  unfold matchDate
  by_cases hl : 10 ≤ t.length
  · rw [List.take_append_of_le_length hl, List.drop_append_of_le_length hl]
    split <;> rfl
  · have hshort : isDateText (t.take 10) = false := by
      refine Bool.eq_false_iff.mpr (fun h => ?_)
      have := isDateText_length h
      rw [List.length_take] at this
      omega
    have hlong : isDateText ((t ++ w).take 10) = false := by
      refine Bool.eq_false_iff.mpr (fun h => ?_)
      have hlen := isDateText_length h
      rw [List.take_append, List.take_of_length_le (by omega)] at h hlen
      cases hw' : w.take (10 - t.length) with
      | nil =>
        rw [hw', List.append_nil] at hlen
        omega
      | cons c u =>
        have hc : c ∈ w.take (10 - t.length) := hw' ▸ List.mem_cons_self
        have hns := isDateText_no_space h c (List.mem_append_right _ hc)
        rw [hw c (List.mem_of_mem_take hc)] at hns
        cases hns
    rw [hshort, hlong]
    rfl

theorem matchDate_space {w : Text} (hw : ∀ c ∈ w, isSpace c = true) : matchDate w = none := by
  have := matchDate_append_space (t := []) hw
  rwa [List.nil_append] at this

theorem matchIndex_space {c : Char} (h : isSpace c = true) (t : Text) :
    matchIndex (c :: t) = none := by
  have hne : indexPrefix.isPrefixOf (c :: t) = false := by
    refine Bool.eq_false_iff.mpr (fun hp => ?_)
    obtain ⟨u, hu⟩ := List.isPrefixOf_iff_prefix.mp hp
    have hc : 'E' = c := (List.cons.inj hu).1
    rw [← hc] at h
    cases h
  unfold matchIndex
  rw [hne]
  rfl

theorem head_ne_of_space {w : Text} (hw : ∀ c ∈ w, isSpace c = true) {d : Char}
    (hd : isSpace d = false) :
    ∀ u, w ≠ d :: u := by
  rintro u rfl
  rw [hw d List.mem_cons_self] at hd
  cases hd

theorem matchEnd_append_space {t w : Text} (hw : ∀ c ∈ w, isSpace c = true) :
    matchEnd (t ++ w) = matchEnd t := by
  have hdot := head_ne_of_space hw (d := '.') rfl
  by_cases h : ∃ u, t = '.' :: '.' :: u
  · obtain ⟨u, rfl⟩ := h
    rw [List.cons_append, List.cons_append, matchEnd_dots, matchEnd_dots, matchDate_append_space hw,
      Option.map_map]
    rfl
  · rw [matchEnd_eq_none (t := t) (fun u hu => h ⟨u, hu⟩), matchEnd_eq_none]
    intro u hu
    -- white space has no dot to complete a pair
    cases t with
    | nil => exact hdot _ hu
    | cons x t =>
      cases t with
      | nil => exact hdot _ (List.cons.inj hu).2
      | cons y t =>
        cases hu
        exact h ⟨t, rfl⟩

theorem matchSpan_append_space {t w : Text} (hw : ∀ c ∈ w, isSpace c = true) :
    matchSpan (t ++ w) = matchSpan t := by
  by_cases h : ∃ u, t = ' ' :: u
  · obtain ⟨u, rfl⟩ := h
    rw [List.cons_append, matchSpan_blank, matchSpan_blank, matchDate_append_space hw]
    cases matchDate u with
    | none => rfl
    | some m => rw [Option.map_some, Option.bind_some, Option.bind_some, matchEnd_append_space hw]
  · rw [matchSpan_eq_none (t := t) (fun u hu => h ⟨u, hu⟩)]
    cases t with
    | cons x t =>
      refine matchSpan_eq_none (fun u hu => ?_)
      cases hu
      exact h ⟨t, rfl⟩
    | nil =>
      rw [List.nil_append]
      cases w with
      | nil => rfl
      | cons c w =>
        by_cases hc : c = ' '
        · subst hc
          rw [matchSpan_blank, matchDate_space (fun c hc => hw c (List.mem_cons_of_mem _ hc))]
          rfl
        · refine matchSpan_eq_none (fun u hu => ?_)
          cases hu
          exact hc rfl

theorem takeWhile_id_space {w : Text} (hw : ∀ c ∈ w, isSpace c = true) :
    w.takeWhile isIdChar = [] := by
  cases w with
  | nil => rfl
  | cons c u =>
    exact List.takeWhile_cons_of_neg
      (by rw [isSpace_not_id (hw c List.mem_cons_self)]; exact Bool.false_ne_true)

/-- White space at the end of a text leaves a match at its start alone. -/
theorem matchIndex_append_space {t w : Text} (hw : ∀ c ∈ w, isSpace c = true) :
    matchIndex (t ++ w) = matchIndex t := by
  have hid := takeWhile_id_space hw
  have hdrop : w.dropWhile isIdChar = w := by
    have := List.takeWhile_append_dropWhile (p := isIdChar) (l := w)
    rwa [hid, List.nil_append] at this
  have htake : ∀ u : Text, (u ++ w).takeWhile isIdChar = u.takeWhile isIdChar := by
    intro u
    rw [List.takeWhile_append, hid, List.append_nil]
    split
    · next h => exact ((List.takeWhile_prefix isIdChar).eq_of_length h).symm
    · rfl
  have hdrop' : ∀ u : Text, (u ++ w).dropWhile isIdChar = u.dropWhile isIdChar ++ w := by
    intro u
    rw [List.dropWhile_append, hdrop]
    split
    · next h => rw [List.isEmpty_iff.mp h, List.nil_append]
    · rfl
  unfold matchIndex
  by_cases hp : indexPrefix.isPrefixOf t = true
  · obtain ⟨u, rfl⟩ := List.isPrefixOf_iff_prefix.mp hp
    have hp' : indexPrefix.isPrefixOf (indexPrefix ++ u ++ w) = true :=
      List.isPrefixOf_iff_prefix.mpr (by rw [List.append_assoc]; exact List.prefix_append _ _)
    rw [if_pos hp, if_pos hp', List.append_assoc, List.drop_left, List.drop_left]
    simp only [htake, hdrop', matchSpan_append_space hw]
  · rw [if_neg hp]
    split
    · next hp' =>
      obtain ⟨u, hu⟩ := List.isPrefixOf_iff_prefix.mp hp'
      -- the prefix reaches into the white space, so nothing but white space comes after it
      rw [← hu, List.drop_left]
      rcases List.append_eq_append_iff.mp hu with ⟨v, rfl, -⟩ | ⟨v, -, rfl⟩
      · exact absurd (List.isPrefixOf_iff_prefix.mpr (List.prefix_append _ _)) hp
      · have hu' := takeWhile_id_space (fun c hc => hw c (List.mem_append_right _ hc))
        simp only [hu', if_pos]
    · rfl

/-- `_INDEX_TITLE.search(t)`. -/
theorem search_append_space {t w : Text} (hw : ∀ c ∈ w, isSpace c = true) :
    (t ++ w).tails.findSome? matchIndex = t.tails.findSome? matchIndex := by
  induction t with
  | nil =>
    rw [List.nil_append]
    induction w with
    | nil => rfl
    | cons c w ih =>
      rw [List.tails_cons, List.findSome?_cons, matchIndex_space (hw c List.mem_cons_self)]
      exact ih (fun d hd => hw d (List.mem_cons_of_mem _ hd))
  | cons c t ih =>
    rw [List.cons_append, List.tails_cons, List.tails_cons, List.findSome?_cons,
      List.findSome?_cons, ← List.cons_append, matchIndex_append_space hw, ih]

theorem search_dropWhile_space (t : Text) :
    (t.dropWhile isSpace).tails.findSome? matchIndex = t.tails.findSome? matchIndex := by
  induction t with
  | nil => rfl
  | cons c t ih =>
    by_cases hc : isSpace c = true
    · rw [List.dropWhile_cons_of_pos hc, ih, List.tails_cons, List.findSome?_cons,
        matchIndex_space hc]
    · rw [List.dropWhile_cons_of_neg hc]

/-- **Stripping a title does not change the period it is read as.** -/
theorem periodFromTitle_stripped (title : String) :
    periodFromTitle (stripped title) = periodFromTitle title := by
  unfold periodFromTitle stripped strip
  rw [String.toList_ofList, ← search_dropWhile_space title.toList]
  generalize title.toList.dropWhile isSpace = u
  have hall : ∀ c ∈ (u.reverse.takeWhile isSpace).reverse, isSpace c = true :=
    fun c hc => List.all_eq_true.mp List.all_takeWhile c (List.mem_reverse.mp hc)
  have hsplit : (u.reverse.dropWhile isSpace).reverse ++
      (u.reverse.takeWhile isSpace).reverse = u := by
    rw [← List.reverse_append, List.takeWhile_append_dropWhile, List.reverse_reverse]
  have h := search_append_space (t := (u.reverse.dropWhile isSpace).reverse) hall
  rw [hsplit] at h
  rw [h]

end ComplianceMcp
