import Mathlib.Data.List.Infix

/-! # Text, UTF-8 and lines

A file is a list of bytes, a text a list of characters.  This module has what a
line-oriented file format needs of them: strict UTF-8 decoding, splitting bytes at
line feeds, the lines a text-mode reader yields under universal newlines, and the
white space `strip` removes.  The facts the callers rest on: decoding undoes
encoding, whatever part of an encoded text decodes is a part of that text, and an
encoded character holds a line feed byte only if it is the line feed. -/
namespace PyText

abbrev Bytes := List UInt8
abbrev Text := List Char

/-! ## UTF-8 -/

/-- `t.encode("utf-8")`. -/
def utf8 (t : Text) : Bytes := t.flatMap String.utf8EncodeChar

/-- Characters decoded one after the other, at most `fuel` of them.  No character takes
more than four bytes. -/
def decodeChars : Nat → Bytes → Option Text
  | _, [] => some []
  | 0, _ :: _ => none
  | fuel + 1, x :: b =>
    match ((x :: b).take 4).toByteArray.utf8DecodeChar? 0 with
    | some c => (decodeChars fuel ((x :: b).drop c.utf8Size)).map (c :: ·)
    | none => none

/-- `b.decode("utf-8")`, `none` where it raises. -/
def decodeUtf8 (b : Bytes) : Option Text := decodeChars b.length b

@[simp] theorem utf8_nil : utf8 [] = [] := rfl

theorem utf8_cons (c : Char) (t : Text) : utf8 (c :: t) = String.utf8EncodeChar c ++ utf8 t := rfl

@[simp] theorem utf8_append (t u : Text) : utf8 (t ++ u) = utf8 t ++ utf8 u :=
  List.flatMap_append

theorem take_utf8EncodeChar (c : Char) (b : Bytes) :
    (String.utf8EncodeChar c ++ b).take 4 =
      String.utf8EncodeChar c ++ b.take (4 - c.utf8Size) := by
  have hlen : (String.utf8EncodeChar c).length = c.utf8Size := String.length_utf8EncodeChar c
  rw [List.take_append, hlen, List.take_of_length_le (hlen ▸ c.utf8Size_le_four)]

theorem drop_utf8EncodeChar (c : Char) (b : Bytes) :
    (String.utf8EncodeChar c ++ b).drop c.utf8Size = b := by
  rw [← String.length_utf8EncodeChar c, List.drop_left]

/-- An encoded character is decoded from the four bytes it starts. -/
theorem decode_utf8EncodeChar (c : Char) (b : Bytes) :
    ((String.utf8EncodeChar c ++ b).take 4).toByteArray.utf8DecodeChar? 0 = some c := by
  rw [take_utf8EncodeChar, List.toByteArray_append, ← List.utf8Encode_singleton]
  exact List.utf8DecodeChar?_utf8Encode_singleton_append

theorem decodeChars_utf8 (t : Text) {fuel : Nat} (h : (utf8 t).length ≤ fuel) :
    decodeChars fuel (utf8 t) = some t := by
  induction t generalizing fuel with
  | nil =>
    cases fuel <;> rfl
  | cons c t ih =>
    rw [utf8_cons] at h ⊢
    obtain ⟨x, b, hx⟩ := List.exists_cons_of_ne_nil (@String.utf8EncodeChar_ne_nil c)
    have hdec := decode_utf8EncodeChar c (utf8 t)
    have hdrop := drop_utf8EncodeChar c (utf8 t)
    rw [List.length_append] at h
    rw [hx, List.cons_append] at hdec hdrop ⊢
    rw [hx, List.length_cons] at h
    cases fuel with
    | zero => omega
    | succ fuel =>
      rw [decodeChars, hdec]
      simp only [hdrop, ih (by omega : (utf8 t).length ≤ fuel), Option.map_some]

@[simp] theorem decodeUtf8_utf8 (t : Text) : decodeUtf8 (utf8 t) = some t :=
  decodeChars_utf8 t (le_refl _)

/-- The bytes a character was decoded from start with its encoding. -/
theorem eq_of_decode {b : Bytes} {c : Char}
    (h : (b.take 4).toByteArray.utf8DecodeChar? 0 = some c) :
    b = String.utf8EncodeChar c ++ b.drop c.utf8Size := by
  have hb := ByteArray.eq_of_utf8DecodeChar?_eq_some h
  have hlist := congrArg (fun a : ByteArray => a.data.toList) hb
  simp only [List.toList_data_toByteArray, ByteArray.data_append, Array.toList_append] at hlist
  have hall := (List.take_append_drop 4 b).symm
  rw [hlist, List.append_assoc] at hall
  have hdrop := congrArg (List.drop c.utf8Size) hall
  rw [drop_utf8EncodeChar] at hdrop
  exact hall.trans (congrArg _ hdrop.symm)

theorem utf8_of_decodeChars {fuel : Nat} {b : Bytes} {t : Text} (h : decodeChars fuel b = some t) :
    utf8 t = b := by
  induction fuel generalizing b t with
  | zero =>
    cases b with
    | nil =>
      cases h
      rfl
    | cons x b => cases h
  | succ fuel ih =>
    cases b with
    | nil =>
      cases h
      rfl
    | cons x b =>
      rw [decodeChars] at h
      split at h
      · next c hc =>
        obtain ⟨u, hu, rfl⟩ := Option.map_eq_some_iff.mp h
        rw [utf8_cons, ih hu]
        exact (eq_of_decode hc).symm
      · cases h

theorem utf8_of_decodeUtf8 {b : Bytes} {t : Text} (h : decodeUtf8 b = some t) : utf8 t = b :=
  utf8_of_decodeChars h

theorem utf8_injective {t u : Text} (h : utf8 t = utf8 u) : t = u := by
  have ht := decodeUtf8_utf8 t
  rw [h, decodeUtf8_utf8] at ht
  exact (Option.some.inj ht).symm

theorem utf8_eq_nil {t : Text} : utf8 t = [] ↔ t = [] := by
  refine ⟨fun h => ?_, fun h => by rw [h]; rfl⟩
  exact utf8_injective (h.trans utf8_nil.symm)

/-- Encoded characters are self-delimiting. -/
theorem utf8EncodeChar_append_inj {c d : Char} {b b' : Bytes}
    (h : String.utf8EncodeChar c ++ b = String.utf8EncodeChar d ++ b') : c = d ∧ b = b' := by
  have hcd : c = d := by
    have hc := decode_utf8EncodeChar c b
    rw [h, decode_utf8EncodeChar] at hc
    exact (Option.some.inj hc).symm
  subst hcd
  exact ⟨rfl, List.append_cancel_left h⟩

/-- **A part that decodes is a part of the text.**  Cutting an encoded text short
leaves either the encoding of a shorter text or bytes that do not decode. -/
theorem decodeUtf8_prefix {b : Bytes} {t u : Text} (hb : b <+: utf8 t)
    (h : decodeUtf8 b = some u) : u <+: t := by
  obtain ⟨r, hr⟩ := hb
  rw [← utf8_of_decodeUtf8 h] at hr
  clear h
  induction u generalizing t with
  | nil => exact List.nil_prefix
  | cons c u ih =>
    cases t with
    | nil =>
      rw [utf8_nil] at hr
      have hnil := (List.append_eq_nil_iff.mp hr).1
      cases utf8_eq_nil.mp hnil
    | cons d t =>
      rw [utf8_cons, utf8_cons, List.append_assoc] at hr
      obtain ⟨rfl, hrest⟩ := utf8EncodeChar_append_inj hr
      exact List.cons_prefix_cons.mpr ⟨rfl, ih hrest⟩

/-! ## Line feeds -/

/-- The line feed byte. -/
def lf : UInt8 := 10

theorem lf_mem_utf8EncodeChar {c : Char} (h : lf ∈ String.utf8EncodeChar c) : c = '\n' := by
  have hlow : ∀ n < 0x80, lf ≠ UInt8.ofNat (n + 0x80) := by
    intro n hn he
    have := congrArg UInt8.toNat he
    rw [UInt8.toNat_ofNat', Nat.mod_eq_of_lt (by omega)] at this
    have hlf : lf.toNat = 10 := rfl
    omega
  have hhigh : ∀ n < 0x40, ∀ k, 0xc0 ≤ k → k + n < 0x100 → lf ≠ UInt8.ofNat (n + k) := by
    intro n _ k hk hkn he
    have := congrArg UInt8.toNat he
    rw [UInt8.toNat_ofNat', Nat.mod_eq_of_lt (by omega)] at this
    have hlf : lf.toNat = 10 := rfl
    omega
  have hmod : ∀ n m : Nat, 0 < m → m ≤ 0x40 → n % m < 0x40 := fun n m h0 hm =>
    lt_of_lt_of_le (Nat.mod_lt _ h0) hm
  simp only [String.utf8EncodeChar] at h
  split at h
  · next hv =>
    rw [List.mem_singleton] at h
    have h' := congrArg UInt8.toNat h
    rw [UInt8.toNat_ofNat', Nat.mod_eq_of_lt (by omega)] at h'
    exact Char.toNat_inj.mp h'.symm
  · exfalso
    split at h
    · simp only [List.mem_cons, List.not_mem_nil, or_false] at h
      rcases h with h | h
      · exact hhigh _ (hmod _ _ (by decide) (by decide)) _ (by decide) (by omega) h
      · exact hlow _ (by omega) h
    · split at h
      · simp only [List.mem_cons, List.not_mem_nil, or_false] at h
        rcases h with h | h | h
        · exact hhigh _ (hmod _ _ (by decide) (by decide)) _ (by decide) (by omega) h
        · exact hlow _ (by omega) h
        · exact hlow _ (by omega) h
      · simp only [List.mem_cons, List.not_mem_nil, or_false] at h
        rcases h with h | h | h | h
        · exact hhigh _ (hmod _ _ (by decide) (by decide)) _ (by decide) (by omega) h
        · exact hlow _ (by omega) h
        · exact hlow _ (by omega) h
        · exact hlow _ (by omega) h

theorem lf_not_mem_utf8 {t : Text} (h : '\n' ∉ t) : lf ∉ utf8 t := by
  intro hm
  obtain ⟨c, hc, hlf⟩ := List.mem_flatMap.mp hm
  exact h (lf_mem_utf8EncodeChar hlf ▸ hc)

@[simp] theorem utf8_newline : utf8 ['\n'] = [lf] := by decide

/-! ## White space -/

/-- The characters `str.isspace` accepts. -/
def isSpace (c : Char) : Bool :=
  let n := c.toNat
  (9 ≤ n && n ≤ 13) || (28 ≤ n && n ≤ 32) || n == 0x85 || n == 0xa0 || n == 0x1680 ||
    (0x2000 ≤ n && n ≤ 0x200a) || n == 0x2028 || n == 0x2029 || n == 0x202f || n == 0x205f ||
    n == 0x3000

/-- The bytes `bytes.strip` removes. -/
def isSpaceByte (b : UInt8) : Bool := (9 ≤ b && b ≤ 13) || b == 32

/-- `not t.strip()`. -/
def blank (t : Text) : Bool := t.all isSpace

/-- `not b.strip()`. -/
def blankBytes (b : Bytes) : Bool := b.all isSpaceByte

/-- `t.strip()`. -/
def strip (t : Text) : Text := (((t.dropWhile isSpace).reverse).dropWhile isSpace).reverse

/-! What is left has no white space at its ends. -/

theorem strip_ends (t : Text) : ∃ before after, blank before = true ∧ blank after = true ∧
    t = before ++ (strip t ++ after) := by
  refine ⟨t.takeWhile isSpace, ((t.dropWhile isSpace).reverse.takeWhile isSpace).reverse,
    List.all_takeWhile, ?_, ?_⟩
  · rw [blank, List.all_reverse]
    exact List.all_takeWhile
  · rw [strip, ← List.reverse_append, List.takeWhile_append_dropWhile, List.reverse_reverse,
      List.takeWhile_append_dropWhile]

theorem strip_head (t : Text) : ∀ c ∈ (strip t).head?, isSpace c = false := by
  intro c hc
  have hdrop : ∀ u : Text, ∀ c ∈ (u.dropWhile isSpace).head?, isSpace c = false := by
    intro u c hc
    have h := List.head?_dropWhile_not isSpace u
    rw [Option.mem_def.mp hc] at h
    exact h
  -- what the end gives up leaves the first character in place
  have hpre : strip t <+: t.dropWhile isSpace := by
    rw [strip, ← List.reverse_suffix, List.reverse_reverse]
    exact List.dropWhile_suffix _
  obtain ⟨r, hr⟩ := hpre
  refine hdrop t c ?_
  rw [← hr, List.head?_append, Option.mem_def.mp hc]
  rfl

theorem strip_last (t : Text) : ∀ c ∈ (strip t).getLast?, isSpace c = false := by
  intro c hc
  rw [strip, List.getLast?_reverse] at hc
  have h := List.head?_dropWhile_not isSpace (t.dropWhile isSpace).reverse
  rw [Option.mem_def.mp hc] at h
  exact h

theorem strip_eq_nil {t : Text} : strip t = [] ↔ blank t = true := by
  constructor
  · intro h
    obtain ⟨before, after, hb, ha, ht⟩ := strip_ends t
    rw [ht, h, List.nil_append, blank, List.all_append, Bool.and_eq_true]
    exact ⟨hb, ha⟩
  · intro h
    have hdrop : t.dropWhile isSpace = [] := by
      cases hd : t.dropWhile isSpace with
      | nil => rfl
      | cons c u =>
        have hc : c ∈ t := (List.dropWhile_suffix isSpace).subset
          (by rw [hd]; exact List.mem_cons_self ..)
        have hn := List.head?_dropWhile_not isSpace t
        rw [hd, List.head?_cons] at hn
        have hs : isSpace c = false := hn
        rw [List.all_eq_true.mp h c hc] at hs
        cases hs
    rw [strip, hdrop]
    rfl

theorem blank_strip {t : Text} (h : blank (strip t) = true) : strip t = [] := by
  cases hs : strip t with
  | nil => rfl
  | cons c u =>
    have hc := strip_head t c (by rw [hs]; rfl)
    rw [hs, blank, List.all_cons, hc] at h
    cases h

/-- `s in t`. -/
def contains (t s : Text) : Bool := t.tails.any (fun r => s.isPrefixOf r)

theorem contains_iff {t s : Text} : contains t s = true ↔ s <:+: t := by
  rw [contains, List.any_eq_true]
  constructor
  · rintro ⟨r, hr, hs⟩
    obtain ⟨a, rfl⟩ := (List.mem_tails r t).mp hr
    obtain ⟨b, rfl⟩ := List.isPrefixOf_iff_prefix.mp hs
    exact ⟨a, b, List.append_assoc a s b⟩
  · rintro ⟨a, b, rfl⟩
    refine ⟨s ++ b, (List.mem_tails _ _).mpr ⟨a, (List.append_assoc a s b).symm⟩, ?_⟩
    exact List.isPrefixOf_iff_prefix.mpr (List.prefix_append s b)

theorem blank_false {t : Text} {c : Char} (hc : c ∈ t) (hs : isSpace c = false) :
    blank t = false := by
  rw [blank, List.all_eq_false]
  exact ⟨c, hc, by rw [hs]; exact Bool.false_ne_true⟩

theorem blankBytes_false {b : Bytes} {x : UInt8} (hx : x ∈ b) (hs : isSpaceByte x = false) :
    blankBytes b = false := by
  rw [blankBytes, List.all_eq_false]
  exact ⟨x, hx, by rw [hs]; exact Bool.false_ne_true⟩

/-! ## The lines of a text file -/

/-- Universal newlines: every `\r\n` and `\r` is read as `\n`. -/
def universal : Text → Text
  | [] => []
  | '\r' :: '\n' :: r => '\n' :: universal r
  | c :: r => (if c = '\r' then '\n' else c) :: universal r

/-- The lines of a text, each with the line feed that ends it. -/
def lines : Text → List Text
  | [] => []
  | c :: r =>
    if c = '\n' then ['\n'] :: lines r
    else match lines r with
      | [] => [[c]]
      | l :: ls => (c :: l) :: ls

theorem universal_of_not_mem {t : Text} (h : '\r' ∉ t) : universal t = t := by
  induction t with
  | nil => rfl
  | cons c r ih =>
    have hc : c ≠ '\r' := fun he => h (he ▸ List.mem_cons_self)
    have hr : universal r = r := ih (fun hm => h (List.mem_cons_of_mem _ hm))
    rw [universal]
    · rw [hr, if_neg hc]
    · rintro r' he
      cases he
      exact absurd rfl hc

theorem lines_append {l : Text} (h : '\n' ∉ l) (r : Text) :
    lines (l ++ '\n' :: r) = (l ++ ['\n']) :: lines r := by
  induction l with
  | nil => simp only [List.nil_append, lines, if_true]
  | cons c l ih =>
    have hc : c ≠ '\n' := fun he => h (he ▸ List.mem_cons_self)
    rw [List.cons_append, lines, if_neg hc, ih (fun hm => h (List.mem_cons_of_mem _ hm))]
    rfl

theorem lines_unterminated {l : Text} (h : '\n' ∉ l) (hne : l ≠ []) : lines l = [l] := by
  induction l with
  | nil => exact absurd rfl hne
  | cons c l ih =>
    have hc : c ≠ '\n' := fun he => h (he ▸ List.mem_cons_self)
    rw [lines, if_neg hc]
    cases l with
    | nil => rfl
    | cons d l => rw [ih (fun hm => h (List.mem_cons_of_mem _ hm)) (List.cons_ne_nil _ _)]

/-- A line feed ends a line, whatever comes after it. -/
theorem lines_append_lf (x v : Text) : lines (x ++ '\n' :: v) = lines (x ++ ['\n']) ++ lines v := by
  induction x with
  | nil => simp only [List.nil_append, lines, if_true, List.singleton_append]
  | cons c x ih =>
    rw [List.cons_append, List.cons_append, lines, lines]
    split
    · rw [ih, List.cons_append]
    · rw [ih]
      cases hx : lines (x ++ ['\n']) with
      | nil =>
        -- a text that is not empty has lines
        cases x with
        | nil => cases hx
        | cons d x =>
          rw [List.cons_append, lines] at hx
          split at hx
          · cases hx
          · split at hx <;> cases hx
      | cons l ls => rfl

/-- A text that does not start with a line feed is read after any other one as it is read alone. -/
theorem universal_append {r : Text} (hr : r.head? ≠ some '\n') (t : Text) :
    universal (t ++ r) = universal t ++ universal r := by
  induction t using universal.induct with
  | case1 => rfl
  | case2 t ih =>
    rw [List.cons_append, List.cons_append, universal, ih, universal, List.cons_append]
  | case3 c t hne ih =>
    have hcons : ∀ s, c = '\r' → t ++ r = '\n' :: s → False := by
      intro s hc hs
      cases t with
      | nil =>
        rw [List.nil_append] at hs
        rw [hs] at hr
        exact hr rfl
      | cons d t =>
        obtain ⟨rfl, -⟩ := List.cons.inj hs
        exact hne t hc rfl
    rw [List.cons_append, universal, ih, universal, List.cons_append]
    · exact fun s hc hs => hne s hc hs
    · exact fun s hc hs => hcons s hc hs

/-- A line end of any kind is read as one. -/
theorem universal_ends {e : Char} (he : e = '\n' ∨ e = '\r') (t : Text) :
    ∃ x, universal (t ++ [e]) = x ++ ['\n'] := by
  induction t using universal.induct with
  | case1 =>
    refine ⟨[], ?_⟩
    rcases he with rfl | rfl <;> rfl
  | case2 t ih =>
    obtain ⟨x, hx⟩ := ih
    refine ⟨'\n' :: x, ?_⟩
    rw [List.cons_append, List.cons_append, universal, hx, List.cons_append]
  | case3 c t hne ih =>
    obtain ⟨x, hx⟩ := ih
    by_cases hcr : c = '\r' ∧ t ++ [e] = ['\n']
    · -- both characters make one line end
      refine ⟨[], ?_⟩
      rw [List.cons_append, hcr.1, hcr.2]
      rfl
    · refine ⟨(if c = '\r' then '\n' else c) :: x, ?_⟩
      rw [List.cons_append, universal, hx, List.cons_append]
      intro s hc hs
      cases t with
      | nil =>
        obtain ⟨he', rfl⟩ := List.cons.inj hs
        exact hcr ⟨hc, by rw [List.nil_append, he']⟩
      | cons d t =>
        obtain ⟨rfl, -⟩ := List.cons.inj hs
        exact hne t hc rfl

/-- The characters that end a line. -/
def isLineEnd (c : Char) : Bool := c == '\n' || c == '\r'

/-- What follows the last of these characters. -/
def afterLast (ends : Char → Bool) (t : Text) : Text :=
  (t.reverse.takeWhile (fun c => !ends c)).reverse

/-- A text is ended if it is empty or a line end is its last character. -/
def Ended (ends : Char → Bool) (t : Text) : Prop := t = [] ∨ ∃ b e, t = b ++ [e] ∧ ends e = true

theorem afterLast_split (ends : Char → Bool) (t : Text) :
    ∃ a, t = a ++ afterLast ends t ∧ Ended ends a ∧ ∀ c ∈ afterLast ends t, ends c = false := by
  refine ⟨(t.reverse.dropWhile (fun c => !ends c)).reverse, ?_, ?_, fun c hc => ?_⟩
  · rw [afterLast, ← List.reverse_append, List.takeWhile_append_dropWhile, List.reverse_reverse]
  · cases hd : t.reverse.dropWhile (fun c => !ends c) with
    | nil => exact .inl rfl
    | cons e b =>
      refine .inr ⟨b.reverse, e, List.reverse_cons, ?_⟩
      have hnot := List.head?_dropWhile_not (fun c => !ends c) t.reverse
      rw [hd] at hnot
      simpa using hnot
  · have hall := List.all_takeWhile (p := fun c => !ends c) (l := t.reverse)
    simpa using List.all_eq_true.mp hall c (List.mem_reverse.mp hc)

/-- With more line ends less text follows the last one. -/
theorem afterLast_subset {ends ends' : Char → Bool}
    (h : ∀ c, ends c = true → ends' c = true) (t : Text) :
    afterLast ends' t ⊆ afterLast ends t := by
  have htake : ∀ u : Text, u.takeWhile (fun c => !ends' c) ⊆ u.takeWhile (fun c => !ends c) := by
    intro u
    induction u with
    | nil => exact List.Subset.refl _
    | cons c u ih =>
      by_cases hc : ends' c = true
      · rw [List.takeWhile_cons_of_neg (by simp [hc])]
        exact List.nil_subset _
      · have hc' : ¬ ends c = true := fun he => hc (h c he)
        rw [List.takeWhile_cons_of_pos (by simp [hc]), List.takeWhile_cons_of_pos (by simp [hc'])]
        exact List.cons_subset_cons c ih
  intro c hc
  unfold afterLast at hc ⊢
  rw [List.mem_reverse] at hc ⊢
  exact htake _ hc

/-- The lines of an ended text stay as they are when text follows. -/
theorem Ended.lines_append {a r : Text} (ha : Ended isLineEnd a) (hr : r.head? ≠ some '\n') :
    lines (universal (a ++ r)) = lines (universal a) ++ lines (universal r) := by
  rw [universal_append hr]
  rcases ha with rfl | ⟨b, e, rfl, he⟩
  · rfl
  · obtain ⟨x, hx⟩ := universal_ends (by simpa [isLineEnd] using he) b
    rw [hx, List.append_assoc]
    exact lines_append_lf x _

/-- The first line of a text starts as the text does, up to a line end. -/
theorem lines_cons_of_no_end {u : Text} (hu : ∀ c ∈ u, isLineEnd c = false)
    (hne : u ≠ []) (r : Text) :
    ∃ s ls, lines (universal (u ++ r)) = (u ++ s) :: ls := by
  induction u with
  | nil => exact absurd rfl hne
  | cons c u ih =>
    have hc := hu c List.mem_cons_self
    rw [isLineEnd, Bool.or_eq_false_iff, beq_eq_false_iff_ne, beq_eq_false_iff_ne] at hc
    have hcons : universal (c :: (u ++ r)) = c :: universal (u ++ r) := by
      rw [universal, if_neg hc.2]
      exact fun _ he => absurd he hc.2
    rw [List.cons_append, hcons, lines, if_neg hc.1]
    cases u with
    | nil =>
      cases lines (universal ([] ++ r)) with
      | nil => exact ⟨[], [], rfl⟩
      | cons l ls => exact ⟨l, ls, rfl⟩
    | cons d u =>
      obtain ⟨s, ls, hs⟩ := ih (fun x hx => hu x (List.mem_cons_of_mem _ hx)) (List.cons_ne_nil _ _)
      exact ⟨s, ls, by rw [hs]; rfl⟩

/-- The text of a file that holds these lines. -/
def unlines (ls : List Text) : Text := ls.flatMap (· ++ ['\n'])

@[simp] theorem unlines_nil : unlines [] = [] := rfl

theorem unlines_cons (l : Text) (ls : List Text) : unlines (l :: ls) = l ++ '\n' :: unlines ls := by
  rw [unlines, List.flatMap_cons, List.append_assoc]
  rfl

theorem unlines_append (ls ms : List Text) : unlines (ls ++ ms) = unlines ls ++ unlines ms :=
  List.flatMap_append

/-- **Reading lines back.**  Lines that hold no line break are read back as they
were written, each with its line feed, before whatever follows them. -/
theorem lines_unlines_append {ls : List Text} (h : ∀ l ∈ ls, '\n' ∉ l) (r : Text) :
    lines (unlines ls ++ r) = ls.map (· ++ ['\n']) ++ lines r := by
  induction ls with
  | nil => rfl
  | cons l ls ih =>
    rw [unlines_cons, List.append_assoc, List.cons_append, lines_append (h l List.mem_cons_self),
      ih (fun m hm => h m (List.mem_cons_of_mem _ hm))]
    rfl

theorem lines_unlines {ls : List Text} (h : ∀ l ∈ ls, '\n' ∉ l) :
    lines (unlines ls) = ls.map (· ++ ['\n']) := by
  have := lines_unlines_append h []
  rwa [List.append_nil, lines, List.append_nil] at this

/-- The bytes of a file that holds these lines. -/
def fileOf (ls : List Text) : Bytes := utf8 (unlines ls)

theorem fileOf_append (ls ms : List Text) : fileOf (ls ++ ms) = fileOf ls ++ fileOf ms := by
  rw [fileOf, unlines_append, utf8_append]
  rfl

theorem fileOf_singleton (l : Text) : fileOf [l] = utf8 l ++ [lf] := by
  rw [fileOf, unlines_cons, unlines_nil, utf8_append, utf8_newline]

/-- A file of whole lines is empty or ends in a line feed. -/
theorem fileOf_ends (ls : List Text) : fileOf ls = [] ∨ ∃ b, fileOf ls = b ++ [lf] := by
  rcases List.eq_nil_or_concat ls with rfl | ⟨ms, l, rfl⟩
  · exact Or.inl rfl
  · refine Or.inr ⟨fileOf ms ++ utf8 l, ?_⟩
    rw [List.concat_eq_append, fileOf_append, fileOf_singleton, List.append_assoc]

end PyText
