import ComplianceMcp.AuditVerify

/-! # What the verifier makes of any file

`verify` reads whatever a crash or a tamperer left behind.  A record with a wrong link, a wrong
digest or a MAC that is missing or differs ends the walk with a result.  A line that is no UTF-8 or
no JSON, a value that is no object, a body that cannot be encoded and a MAC that is no ASCII text
end it with an exception.  `answers_iff` says that `verify` answers, and rightly, exactly if the
first bad line of the chain is of the first kind. -/
namespace ComplianceMcp

open PyJson PyText Files

/-! ## What `json` supplies

The values of `json.loads` are left open: besides what `Json` holds there are strings with lone
surrogates, which do not encode, and the floats that have no decimals. -/

/-- What `verify` uses of `json` and of `str`. -/
structure JsonLibrary (V : Type) where
  /-- `json.loads(line)`. -/
  loads : Text → Except PyError V
  /-- The items of a `dict`. -/
  asDict : V → Option (List (V × V))
  /-- A `str` that can be encoded. -/
  asStr : V → Option String
  truthy : V → Bool
  /-- `_canonical(record)`. -/
  canonical : List (V × V) → Except PyError Bytes
  truthy_str : ∀ v s, asStr v = some s → truthy v = decide (s ≠ "")

namespace JsonLibrary

variable {V : Type} (L : JsonLibrary V)

/-- `rec.get(k)`. -/
def get (d : List (V × V)) (k : String) : Option V :=
  (d.find? (fun e => L.asStr e.1 = some k)).map Prod.snd

/-- The text `rec.get(k)` is. -/
def getStr (d : List (V × V)) (k : String) : Option String := (L.get d k).bind L.asStr

/-- `{k: v for k, v in rec.items() if k not in ks}`. -/
def without (d : List (V × V)) (ks : List String) : List (V × V) :=
  d.filter (fun e => (L.asStr e.1).all (fun k => !ks.contains k))

end JsonLibrary

/-! ## Lines -/

/-- A line of a file: one that the file object hands out, one that it has decoded but does not hand
out because it raises before, or one that is no UTF-8. -/
inductive FileLine where
  | text (t : Text)
  | lost (t : Text)
  | undecodable

/-- The characters of a line. -/
def FileLine.chars : FileLine → Option Text
  | .text t => some t
  | .lost t => some t
  | .undecodable => none

def FileLine.handedOut : FileLine → Bool
  | .text _ => true
  | _ => false

/-- The characters before the first byte that is no UTF-8. -/
def decodedChars : Nat → Bytes → Text
  | fuel + 1, x :: b =>
    match ((x :: b).take 4).toByteArray.utf8DecodeChar? 0 with
    | some c => c :: decodedChars fuel ((x :: b).drop c.utf8Size)
    | none => []
  | _, _ => []

/-- The lines that are whole before that byte. -/
def linesBefore (content : Bytes) : List Text :=
  (lines (universal (decodedChars content.length content))).filter (fun l => l.getLast? = some '\n')

/-- The lines of a file.  Content is decoded in chunks, so that some lines before a byte that is no
UTF-8 may be handed out and others not; `handed` says how many.  What comes after the line with that
byte is left out. -/
def fileLines (handed : Bytes → Nat) (content : Bytes) : List FileLine :=
  match decodeUtf8 content with
  | some t => (lines (universal t)).map .text
  | none => ((linesBefore content).take (handed content)).map .text ++
      (((linesBefore content).drop (handed content)).map .lost ++ [.undecodable])

/-- The lines of the files of a chain. -/
def chainLines (handed : Bytes → Nat) (files : List (String × Bytes)) : List FileLine :=
  files.flatMap (fun f => fileLines handed f.2)

/-! ## `verify` -/

section Verify

variable {V : Type} (L : JsonLibrary V) (rt : Runtime)

/-- `_digest(body)`. -/
def bodyDigest (body : List (V × V)) : Except PyError String :=
  (L.canonical body).map (fun b => (rt.sha256 b).text)

/-- `hmac.compare_digest(m, b)` for a hexadecimal `b`. -/
def compareValue (m : V) (b : String) : Except PyError Bool :=
  match L.asStr m with
  | some s => if s.toList.all (fun c => c.toNat < 128) then .ok (s = b) else .error .typeError
  | none => .error .typeError

/-- The MAC check, `none` where the walk goes on. -/
def checkMac (key hash : String) (fail : String → Halt) (m : Option V) : Option Halt :=
  match m with
  | some m =>
    if L.truthy m then
      match compareValue L m (mac rt key hash) with
      | .ok true => none
      | .ok false => some (fail "MAC mismatch (record forged)")
      | .error e => some (.raised e)
    else some (fail "record has no MAC but a key is configured")
  | none => some (fail "record has no MAC but a key is configured")

/-- The checks on one value; `acc` is `(prev, count)`. -/
def checkRecord (key : String) (files : Nat) (location : String) (acc : String × Nat) (rec : V) :
    Except Halt (String × Nat) :=
  let fail := fun message => Halt.returned ⟨false, acc.2, files, acc.1, location ++ ": " ++ message⟩
  match L.asDict rec with
  | none => .error (.raised .attributeError)
  | some d =>
    if L.getStr d "prev_hash" ≠ some acc.1 then .error (fail "chain broken (prev_hash mismatch)")
    else match bodyDigest L rt (L.without d ["hash", "mac"]) with
      | .error e => .error (.raised e)
      | .ok hash =>
        if L.getStr d "hash" ≠ some hash then .error (fail "record hash mismatch (record altered)")
        else match if key = "" then none else checkMac L rt key hash fail (L.get d "mac") with
          | some h => .error h
          | none => .ok (hash, acc.2 + 1)

/-- One line. -/
def checkLine (key : String) (files : Nat) (location : String) (acc : String × Nat) (line : Text) :
    Except Halt (String × Nat) :=
  if blank line then .ok acc
  else match L.loads line with
    | .error e => .error (.raised e)
    | .ok rec => checkRecord L rt key files location acc rec

/-- `for lineno, line in enumerate(fh, start=1)`. -/
def checkLines (key : String) (files : Nat) (name : String) :
    Nat → List FileLine → String × Nat → Except Halt (String × Nat)
  | _, [], acc => .ok acc
  | lineno, .text line :: rest, acc =>
    match checkLine L rt key files (name ++ ":" ++ toString lineno) acc line with
    | .ok acc => checkLines key files name (lineno + 1) rest acc
    | .error h => .error h
  | _, .lost _ :: _, _ => .error (.raised .unicodeDecodeError)
  | _, .undecodable :: _, _ => .error (.raised .unicodeDecodeError)

/-- `for path in files`. -/
def checkFiles (handed : Bytes → Nat) (key : String) (files : Nat) :
    List (String × Bytes) → String × Nat → Except Halt (String × Nat)
  | [], acc => .ok acc
  | (name, content) :: rest, acc =>
    match checkLines L rt key files name 1 (fileLines handed content) acc with
    | .ok acc => checkFiles handed key files rest acc
    | .error h => .error h

/-- `verify(active, hmac_key=key)` on the files of the chain. -/
def verifyContents (handed : Bytes → Nat) (key : String) (files : List (String × Bytes)) :
    Except PyError VerifyResult :=
  match checkFiles L rt handed key files.length files (GENESIS, 0) with
  | .ok (prev, count) => .ok ⟨true, count, files.length, prev,
      toString count ++ " records across " ++ toString files.length ++ " file(s) verified, head "
        ++ takeChars 12 prev⟩
  | .error (.returned r) => .ok r
  | .error (.raised e) => .error e

end Verify

/-! ## What an answer says -/

section Answers

variable {V : Type} (L : JsonLibrary V) (rt : Runtime) (key : String)

/-- The line is a JSON object with the right link, digest and, where there is a key, MAC; `hash` is
its digest. -/
def ValidRecord (prev : String) (t : Text) (hash : String) : Prop :=
  ∃ rec d body, L.loads t = .ok rec ∧ L.asDict rec = some d ∧ L.getStr d "prev_hash" = some prev ∧
    L.canonical (L.without d ["hash", "mac"]) = .ok body ∧ (rt.sha256 body).text = hash ∧
    L.getStr d "hash" = some hash ∧ (key ≠ "" → L.getStr d "mac" = some (mac rt key hash))

/-- The line is blank, or a valid record after `prev`. -/
def GoodLine (prev : String) (l : FileLine) : Prop :=
  ∃ t, l.chars = some t ∧ (blank t = true ∨ ∃ hash, ValidRecord L rt key prev t hash)

/-- Blank lines and valid records that lead from `(prev, count)` to `(prev', count')`. -/
inductive Passes : String × Nat → List FileLine → String × Nat → Prop where
  | nil (acc : String × Nat) : Passes acc [] acc
  | blank {acc acc' : String × Nat} {l : FileLine} {rest : List FileLine} {t : Text}
      (hl : l.chars = some t)
      (hb : blank t = true) (h : Passes acc rest acc') : Passes acc (l :: rest) acc'
  | record {acc acc' : String × Nat} {l : FileLine} {rest : List FileLine} {t : Text}
      {hash : String}
      (hl : l.chars = some t) (hb : blank t = false) (hv : ValidRecord L rt key acc.1 t hash)
      (h : Passes (hash, acc.2 + 1) rest acc') : Passes acc (l :: rest) acc'

/-- The first bad line: the lines before it are good, and lead to `acc`. -/
structure FirstBad (ls before : List FileLine) (bad : FileLine) (acc : String × Nat) : Prop where
  split : ∃ after, ls = before ++ bad :: after
  passes : Passes L rt key (GENESIS, 0) before acc
  bad : ¬ GoodLine L rt key acc.1 bad

/-- **`verify` answers, and rightly**: it says `ok` exactly if every line is good, and else it
names the records before the first bad line and the head they lead to. -/
def Answers (handed : Bytes → Nat) (files : List (String × Bytes)) : Prop :=
  ∃ r, verifyContents L rt handed key files = .ok r ∧
    (r.ok = true ↔ ∃ acc, Passes L rt key (GENESIS, 0) (chainLines handed files) acc) ∧
    (r.ok = false → ∃ before bad, FirstBad L rt key (chainLines handed files) before bad
      (r.head, r.records))

/-- A MAC that is missing or falsy, or is ASCII text. -/
def PlainMac (m : Option V) : Prop :=
  ∀ v, m = some v → L.truthy v = true → ∃ s, L.asStr v = some s ∧
  s.toList.all (fun c => c.toNat < 128) = true

/-- The line is handed out and holds a JSON object whose link is wrong, or whose body can be encoded
and whose digest or, with a key, plain MAC is wrong. -/
def Reported (prev : String) (l : FileLine) : Prop :=
  ∃ t rec d, l = .text t ∧ blank t = false ∧ L.loads t = .ok rec ∧ L.asDict rec = some d ∧
    (L.getStr d "prev_hash" ≠ some prev ∨
      ∃ body, L.canonical (L.without d ["hash", "mac"]) = .ok body ∧
        (L.getStr d "hash" ≠ some (rt.sha256 body).text ∨
          key ≠ "" ∧ PlainMac L (L.get d "mac") ∧
          L.getStr d "mac" ≠ some (mac rt key (rt.sha256 body).text)))

/-- The first bad line, if there is one, is reported, and it and the lines before it are handed
out. -/
def BadLineReported (ls : List FileLine) : Prop :=
  ∀ before bad acc, FirstBad L rt key ls before bad acc →
    (∀ l ∈ before, l.handedOut = true) ∧ Reported L rt key acc.1 bad

end Answers

section Spec

variable {V : Type} {L : JsonLibrary V} {rt : Runtime} {key : String}

theorem ValidRecord.unique {prev : String} {t : Text} {h h' : String}
    (hv : ValidRecord L rt key prev t h) (hv' : ValidRecord L rt key prev t h') : h = h' := by
  obtain ⟨rec, d, body, hl, hd, -, hc, rfl, -⟩ := hv
  obtain ⟨rec', d', body', hl', hd', -, hc', rfl, -⟩ := hv'
  cases hl.symm.trans hl'
  cases hd.symm.trans hd'
  cases hc.symm.trans hc'
  rfl

theorem Passes.unique {acc a b : String × Nat} {ls : List FileLine} (ha : Passes L rt key acc ls a)
    (hb : Passes L rt key acc ls b) : a = b := by
  induction ha with
  | nil acc =>
    cases hb
    rfl
  | blank hl hblank _ ih =>
    cases hb with
    | blank _ _ h => exact ih h
    | record hl' hb' =>
      cases hl.symm.trans hl'
      rw [hblank] at hb'
      cases hb'
  | record hl hblank hv _ ih =>
    cases hb with
    | blank hl' hb' =>
      cases hl.symm.trans hl'
      rw [hblank] at hb'
      cases hb'
    | record hl' _ hv' h =>
      cases hl.symm.trans hl'
      cases hv.unique hv'
      exact ih h

theorem Passes.append {acc mid acc' : String × Nat} {ls ms : List FileLine}
    (h : Passes L rt key acc ls mid) (h' : Passes L rt key mid ms acc') :
    Passes L rt key acc (ls ++ ms) acc' := by
  induction h with
  | nil => exact h'
  | blank hl hb _ ih => exact .blank hl hb (ih h')
  | record hl hb hv _ ih => exact .record hl hb hv (ih h')

theorem Passes.split {acc acc' : String × Nat} {ls ms : List FileLine}
    (h : Passes L rt key acc (ls ++ ms) acc') :
    ∃ mid, Passes L rt key acc ls mid ∧ Passes L rt key mid ms acc' := by
  induction ls generalizing acc with
  | nil => exact ⟨acc, .nil acc, h⟩
  | cons l ls ih =>
    cases h with
    | blank hl hb h =>
      obtain ⟨mid, h₁, h₂⟩ := ih h
      exact ⟨mid, .blank hl hb h₁, h₂⟩
    | record hl hb hv h =>
      obtain ⟨mid, h₁, h₂⟩ := ih h
      exact ⟨mid, .record hl hb hv h₁, h₂⟩

theorem Passes.good {acc acc' : String × Nat} {l : FileLine} {ls : List FileLine}
    (h : Passes L rt key acc (l :: ls) acc') : GoodLine L rt key acc.1 l := by
  cases h with
  | blank hl hb _ => exact ⟨_, hl, .inl hb⟩
  | record hl _ hv _ => exact ⟨_, hl, .inr ⟨_, hv⟩⟩

theorem GoodLine.passes {acc : String × Nat} {l : FileLine} (h : GoodLine L rt key acc.1 l) :
    ∃ acc', Passes L rt key acc [l] acc' := by
  obtain ⟨t, hl, hg⟩ := h
  by_cases hb : PyText.blank t = true
  · exact ⟨acc, .blank hl hb (.nil _)⟩
  · rcases hg with hg | ⟨hash, hv⟩
    · exact absurd hg hb
    · exact ⟨_, .record hl (Bool.eq_false_iff.mpr hb) hv (.nil _)⟩

/-- The lines before the first bad line are all that passes. -/
theorem FirstBad.unique {ls before before' : List FileLine} {bad bad' : FileLine}
    {acc acc' : String × Nat} (h : FirstBad L rt key ls before bad acc)
    (h' : FirstBad L rt key ls before' bad' acc') :
    before = before' ∧ bad = bad' ∧ acc = acc' := by
  obtain ⟨after, hs⟩ := h.split
  obtain ⟨after', hs'⟩ := h'.split
  -- a bad line within lines that pass
  have hthrough : ∀ {b : List FileLine} {x : FileLine} {m m' : String × Nat} {c : List FileLine},
      Passes L rt key (GENESIS, 0) b m → Passes L rt key (GENESIS, 0) (b ++ x :: c) m' →
      GoodLine L rt key m.1 x := by
    intro b x m m' c hb hbc
    obtain ⟨mid, h₁, h₂⟩ := hbc.split
    rw [hb.unique h₁]
    exact h₂.good
  rcases List.append_eq_append_iff.mp (hs.symm.trans hs') with ⟨c, hc, hrest⟩ | ⟨c, hc, hrest⟩
  · cases c with
    | nil =>
      rw [List.append_nil] at hc
      subst hc
      exact ⟨rfl, (List.cons.inj hrest).1, h.passes.unique h'.passes⟩
    | cons x c =>
      cases (List.cons.inj hrest).1
      exact absurd (hthrough h.passes (hc ▸ h'.passes)) h.bad
  · cases c with
    | nil =>
      rw [List.append_nil] at hc
      subst hc
      exact ⟨rfl, (List.cons.inj hrest).1.symm, h.passes.unique h'.passes⟩
    | cons x c =>
      cases (List.cons.inj hrest).1
      exact absurd (hthrough h'.passes (hc ▸ h.passes)) h'.bad

theorem passes_or_firstBad (ls : List FileLine) : (∃ acc, Passes L rt key (GENESIS, 0) ls acc) ∨
    ∃ before bad acc, FirstBad L rt key ls before bad acc := by
  induction ls using List.reverseRecOn with
  | nil => exact .inl ⟨_, .nil _⟩
  | append_singleton ls l ih =>
    rcases ih with ⟨acc, hp⟩ | ⟨before, bad, acc, ⟨after, hs⟩, hp, hbad⟩
    · by_cases hg : GoodLine L rt key acc.1 l
      · obtain ⟨acc', hl⟩ := hg.passes
        exact .inl ⟨acc', hp.append hl⟩
      · exact .inr ⟨ls, l, acc, ⟨[], rfl⟩, hp, hg⟩
    · exact .inr ⟨before, bad, acc, ⟨after ++ [l], by rw [hs, List.append_assoc, List.cons_append]⟩,
        hp, hbad⟩

theorem FirstBad.not_passes {ls before : List FileLine} {bad : FileLine} {acc : String × Nat}
    (h : FirstBad L rt key ls before bad acc) : ¬ ∃ acc', Passes L rt key (GENESIS, 0) ls acc' := by
  rintro ⟨acc', hp⟩
  obtain ⟨after, rfl⟩ := h.split
  obtain ⟨mid, h₁, h₂⟩ := hp.split
  have hg := h₂.good
  rw [← h.passes.unique h₁] at hg
  exact h.bad hg

/-! ## What the walk does at a line -/

/-- The right MAC is plain. -/
theorem plainMac_of_mac {hash : String} {m : Option V}
    (h : m.bind L.asStr = some (mac rt key hash)) : PlainMac L m := by
  rintro v rfl -
  exact ⟨mac rt key hash, h, mac_ascii key hash⟩

/-- The MAC check passes, fails with a result, or raises. -/
theorem checkMac_cases (key hash : String) (fail : String → Halt) (m : Option V) :
    (checkMac L rt key hash fail m = none ∧ m.bind L.asStr = some (mac rt key hash)) ∨
    ((∃ message, checkMac L rt key hash fail m = some (fail message)) ∧ PlainMac L m ∧
      m.bind L.asStr ≠ some (mac rt key hash)) ∨
    ((∃ e, checkMac L rt key hash fail m = some (.raised e)) ∧ ¬ PlainMac L m) := by
  cases m with
  | none => exact .inr (.inl ⟨⟨_, rfl⟩, fun v hv => absurd hv (by simp), by simp⟩)
  | some v =>
    have hbind : (some v).bind L.asStr = L.asStr v := rfl
    rw [hbind]
    by_cases ht : L.truthy v = true
    · cases hs : L.asStr v with
      | none =>
        refine .inr (.inr ⟨⟨.typeError, by simp [checkMac, ht, compareValue, hs]⟩,
          fun hplain => ?_⟩)
        obtain ⟨s, hs', -⟩ := hplain v rfl ht
        rw [hs] at hs'
        cases hs'
      | some s =>
        by_cases hascii : s.toList.all (fun c => c.toNat < 128) = true
        · by_cases he : s = mac rt key hash
          · subst he
            refine .inl ⟨?_, rfl⟩
            simp only [checkMac, ht, compareValue, hs, hascii, if_true, decide_true]
          · refine .inr (.inl ⟨⟨"MAC mismatch (record forged)", ?_⟩, fun v' hv' _ => ?_,
              fun h => he (Option.some.inj h)⟩)
            · simp only [checkMac, ht, compareValue, hs, hascii, he, if_true, decide_false]
            · cases hv'
              exact ⟨s, hs, hascii⟩
        · refine .inr (.inr ⟨⟨.typeError, ?_⟩, fun hplain => ?_⟩)
          · simp only [checkMac, ht, compareValue, hs, hascii, if_true, if_false,
              Bool.false_eq_true]
          · obtain ⟨s', hs', hascii'⟩ := hplain v rfl ht
            cases hs.symm.trans hs'
            exact hascii hascii'
    · refine .inr (.inl ⟨⟨"record has no MAC but a key is configured", ?_⟩, fun v' hv' ht' =>
        ?_, fun h => ?_⟩)
      · simp only [checkMac, ht, if_false, Bool.false_eq_true]
      · cases hv'
        exact absurd ht' ht
      · rw [L.truthy_str v _ h, decide_eq_true_eq] at ht
        exact ht (mac_ne_empty key hash)

/-- How the walk goes on at a line, or ends there. -/
def LineEnds (L : JsonLibrary V) (rt : Runtime) (key : String) (acc : String × Nat) (l : FileLine) :
    Except Halt (String × Nat) → Prop
  | .ok acc' => l.handedOut = true ∧ Passes L rt key acc [l] acc'
  | .error (.returned r) => r.ok = false ∧ (r.head, r.records) = acc ∧ ¬ GoodLine L rt key acc.1 l ∧
      Reported L rt key acc.1 l
  | .error (.raised _) => (l.handedOut = true → ¬ GoodLine L rt key acc.1 l) ∧
      ¬ Reported L rt key acc.1 l

section Record

variable {prev : String} {t : Text} {rec : V} {d : List (V × V)}

theorem validRecord_iff (hl : L.loads t = .ok rec) (hd : L.asDict rec = some d) {hash : String} :
    ValidRecord L rt key prev t hash ↔ L.getStr d "prev_hash" = some prev ∧
      ∃ body, L.canonical (L.without d ["hash", "mac"]) = .ok body ∧ (rt.sha256 body).text = hash ∧
        L.getStr d "hash" = some hash ∧ (key ≠ "" → L.getStr d "mac" = some (mac rt key hash)) := by
  constructor
  · rintro ⟨rec', d', body, hl', hd', hprev, hc, hh, hhash, hmac⟩
    cases hl.symm.trans hl'
    cases hd.symm.trans hd'
    exact ⟨hprev, body, hc, hh, hhash, hmac⟩
  · rintro ⟨hprev, body, hc, hh, hhash, hmac⟩
    exact ⟨rec, d, body, hl, hd, hprev, hc, hh, hhash, hmac⟩

theorem reported_iff (hb : blank t = false) (hl : L.loads t = .ok rec)
    (hd : L.asDict rec = some d) :
    Reported L rt key prev (.text t) ↔ L.getStr d "prev_hash" ≠ some prev ∨
      ∃ body, L.canonical (L.without d ["hash", "mac"]) = .ok body ∧
        (L.getStr d "hash" ≠ some (rt.sha256 body).text ∨
          key ≠ "" ∧ PlainMac L (L.get d "mac") ∧
          L.getStr d "mac" ≠ some (mac rt key (rt.sha256 body).text)) := by
  constructor
  · rintro ⟨t', rec', d', ht, -, hl', hd', h⟩
    cases ht
    cases hl.symm.trans hl'
    cases hd.symm.trans hd'
    exact h
  · exact fun h => ⟨t, rec, d, rfl, hb, hl, hd, h⟩

/-- Only a record makes a line good that is not blank. -/
theorem goodLine_text_iff (hb : blank t = false) :
    GoodLine L rt key prev (.text t) ↔ ∃ hash, ValidRecord L rt key prev t hash := by
  constructor
  · rintro ⟨t', ht, h⟩
    cases ht
    rcases h with h | h
    · rw [hb] at h
      cases h
    · exact h
  · exact fun h => ⟨t, rfl, .inr h⟩

end Record

theorem checkRecord_ends {files : Nat} {location : String} {acc : String × Nat} {t : Text} {rec : V}
    (hb : blank t = false) (hl : L.loads t = .ok rec) :
    LineEnds L rt key acc (.text t) (checkRecord L rt key files location acc rec) := by
  rw [checkRecord]
  cases hd : L.asDict rec with
  -- a value that is no `dict` raises at `.get`
  | none =>
    refine ⟨fun _ hg => ?_, ?_⟩
    · obtain ⟨hash, rec', d', body, hl', hd', -⟩ := (goodLine_text_iff hb).mp hg
      cases hl.symm.trans hl'
      cases hd.symm.trans hd'
    · rintro ⟨t', rec', d', ht, -, hl', hd', -⟩
      cases ht
      cases hl.symm.trans hl'
      cases hd.symm.trans hd'
  | some d =>
    have hgood : GoodLine L rt key acc.1 (.text t) ↔ ∃ hash, ValidRecord L rt key acc.1 t hash :=
      goodLine_text_iff hb
    simp only [validRecord_iff hl hd] at hgood
    have hrep := @reported_iff V L rt key acc.1 t rec d hb hl hd
    dsimp only
    by_cases hprev : L.getStr d "prev_hash" = some acc.1
    swap
    -- a wrong link is reported
    · rw [if_pos hprev]
      refine ⟨rfl, rfl, fun hg => ?_, hrep.mpr (.inl hprev)⟩
      obtain ⟨hash, h, -⟩ := hgood.mp hg
      exact hprev h
    rw [if_neg (not_not.mpr hprev), bodyDigest]
    cases hc : L.canonical (L.without d ["hash", "mac"]) with
    -- a body that cannot be encoded raises
    | error e =>
      rw [hc] at hgood hrep
      refine ⟨fun _ hg => ?_, fun hr => ?_⟩
      · obtain ⟨hash, -, body, h, -⟩ := hgood.mp hg
        cases h
      · rcases hrep.mp hr with h | ⟨body, h, -⟩
        · exact h hprev
        · cases h
    | ok body =>
      have hcanon : ∀ body', L.canonical (L.without d ["hash", "mac"]) = .ok body' →
          body' = body := by
        intro body' h
        rw [hc] at h
        exact (Except.ok.inj h).symm
      dsimp only [Except.map]
      by_cases hhash : L.getStr d "hash" = some (rt.sha256 body).text
      swap
      -- a wrong digest is reported
      · rw [if_pos hhash]
        refine ⟨rfl, rfl, fun hg => ?_, hrep.mpr (.inr ⟨body, hc, .inl hhash⟩)⟩
        obtain ⟨hash, -, body', hc', rfl, h, -⟩ := hgood.mp hg
        rw [hcanon body' hc'] at h
        exact hhash h
      rw [if_neg (not_not.mpr hhash)]
      by_cases hkey : key = ""
      · rw [if_pos hkey]
        exact ⟨rfl, .record rfl hb ((validRecord_iff hl hd).mpr
          ⟨hprev, body, hc, rfl, hhash, fun h => absurd hkey h⟩) (.nil _)⟩
      rw [if_neg hkey]
      -- the MAC matches, is plain text and differs, or cannot be compared
      rcases @checkMac_cases V L rt key (rt.sha256 body).text
        (fun message => Halt.returned ⟨false, acc.2, files, acc.1, location ++ ": " ++ message⟩)
        (L.get d "mac") with
        ⟨hm, hmac⟩ | ⟨⟨message, hm⟩, hplain, hmac⟩ | ⟨⟨e, hm⟩, hplain⟩
      · rw [hm]
        exact ⟨rfl, .record rfl hb ((validRecord_iff hl hd).mpr
          ⟨hprev, body, hc, rfl, hhash, fun _ => hmac⟩) (.nil _)⟩
      · rw [hm]
        refine ⟨rfl, rfl, fun hg => ?_, hrep.mpr (.inr ⟨body, hc, .inr ⟨hkey, hplain, hmac⟩⟩)⟩
        obtain ⟨hash, -, body', hc', rfl, -, h⟩ := hgood.mp hg
        rw [hcanon body' hc'] at h
        exact hmac (h hkey)
      · rw [hm]
        refine ⟨fun _ hg => ?_, fun hr => ?_⟩
        · obtain ⟨hash, -, body', hc', rfl, -, h⟩ := hgood.mp hg
          exact hplain (plainMac_of_mac (h hkey))
        · rcases hrep.mp hr with h | ⟨body', hc', h | ⟨-, h, -⟩⟩
          · exact h hprev
          · rw [hcanon body' hc'] at h
            exact h hhash
          · exact hplain h

theorem checkLine_ends (files : Nat) (location : String) (acc : String × Nat) (t : Text) :
    LineEnds L rt key acc (.text t) (checkLine L rt key files location acc t) := by
  rw [checkLine]
  by_cases hb : blank t = true
  · rw [if_pos hb]
    exact ⟨rfl, .blank rfl hb (.nil _)⟩
  rw [if_neg hb]
  rw [Bool.not_eq_true] at hb
  cases hl : L.loads t with
  | ok rec => exact checkRecord_ends hb hl
  | error e =>
    refine ⟨fun _ hg => ?_, ?_⟩
    · obtain ⟨hash, rec', d', body, hl', -⟩ := (goodLine_text_iff hb).mp hg
      rw [hl] at hl'
      cases hl'
    · rintro ⟨t', rec', d', ht, -, hl', -⟩
      cases ht
      rw [hl] at hl'
      cases hl'

/-! ## What the walk does at a chain -/

/-- How the walk passes the lines, or ends among them. -/
def WalkEnds (L : JsonLibrary V) (rt : Runtime) (key : String) (acc : String × Nat)
    (ls : List FileLine) :
    Except Halt (String × Nat) → Prop
  | .ok acc' => (∀ l ∈ ls, l.handedOut = true) ∧ Passes L rt key acc ls acc'
  | .error (.returned r) => r.ok = false ∧ ∃ before bad after, ls = before ++ bad :: after ∧
      (∀ l ∈ before, l.handedOut = true) ∧ Passes L rt key acc before (r.head, r.records) ∧
      ¬ GoodLine L rt key r.head bad ∧ Reported L rt key r.head bad
  | .error (.raised _) => ∃ before bad after mid, ls = before ++ bad :: after ∧
      (∀ l ∈ before, l.handedOut = true) ∧ Passes L rt key acc before mid ∧
      (bad.handedOut = true → ¬ GoodLine L rt key mid.1 bad) ∧ ¬ Reported L rt key mid.1 bad

theorem LineEnds.walk {acc : String × Nat} {l : FileLine} {h : Halt} {rest : List FileLine}
    (hl : LineEnds L rt key acc l (.error h)) : WalkEnds L rt key acc (l :: rest) (.error h) := by
  cases h with
  | returned r =>
    obtain ⟨hok, rfl, hbad, hrep⟩ := hl
    exact ⟨hok, [], l, rest, rfl, fun _ h => absurd h List.not_mem_nil, .nil _, hbad, hrep⟩
  | raised e =>
    exact ⟨[], l, rest, acc, rfl, fun _ h => absurd h List.not_mem_nil, .nil _, hl.1, hl.2⟩

theorem WalkEnds.append {acc mid : String × Nat} {ls ms : List FileLine}
    {r : Except Halt (String × Nat)} (h : WalkEnds L rt key acc ls (.ok mid))
    (h' : WalkEnds L rt key mid ms r) :
    WalkEnds L rt key acc (ls ++ ms) r := by
  obtain ⟨hout, hp⟩ := h
  have hall : ∀ {before : List FileLine}, (∀ l ∈ before, l.handedOut = true) →
      ∀ l ∈ ls ++ before, l.handedOut = true :=
    fun hb l hl => (List.mem_append.mp hl).elim (hout l) (hb l)
  cases r with
  | ok acc' => exact ⟨hall h'.1, hp.append h'.2⟩
  | error h =>
    cases h with
    | returned r =>
      obtain ⟨hok, before, bad, after, rfl, hb, hpass, hbad, hrep⟩ := h'
      exact ⟨hok, ls ++ before, bad, after, (List.append_assoc ..).symm, hall hb,
        hp.append hpass, hbad, hrep⟩
    | raised e =>
      obtain ⟨before, bad, after, m, rfl, hb, hpass, hbad, hrep⟩ := h'
      exact ⟨ls ++ before, bad, after, m, (List.append_assoc ..).symm, hall hb,
        hp.append hpass, hbad, hrep⟩

theorem WalkEnds.error_append {acc : String × Nat} {ls : List FileLine} {h : Halt}
    (hw : WalkEnds L rt key acc ls (.error h)) (ms : List FileLine) :
    WalkEnds L rt key acc (ls ++ ms) (.error h) := by
  cases h with
  | returned r =>
    obtain ⟨hok, before, bad, after, rfl, hrest⟩ := hw
    exact ⟨hok, before, bad, after ++ ms, by rw [List.append_assoc, List.cons_append], hrest⟩
  | raised e =>
    obtain ⟨before, bad, after, m, rfl, hrest⟩ := hw
    exact ⟨before, bad, after ++ ms, m, by rw [List.append_assoc, List.cons_append], hrest⟩

theorem lineEnds_kept {acc : String × Nat} {l : FileLine} (h : l.handedOut = false) :
    LineEnds L rt key acc l (.error (.raised .unicodeDecodeError)) := by
  refine ⟨fun hout => ?_, ?_⟩
  · rw [h] at hout
    cases hout
  · rintro ⟨t, rec, d, rfl, -⟩
    cases h

theorem checkLines_ends (files : Nat) (name : String) (lineno : Nat) (ls : List FileLine)
    (acc : String × Nat) :
    WalkEnds L rt key acc ls (checkLines L rt key files name lineno ls acc) := by
  induction ls generalizing lineno acc with
  | nil => exact ⟨fun _ h => absurd h List.not_mem_nil, .nil _⟩
  | cons l ls ih =>
    cases l with
    | text t =>
      have hline := @checkLine_ends V L rt key files (name ++ ":" ++ toString lineno) acc t
      rw [checkLines]
      cases hc : checkLine L rt key files (name ++ ":" ++ toString lineno) acc t with
      | ok acc' =>
        rw [hc] at hline
        have hone : WalkEnds L rt key acc [.text t] (.ok acc') :=
          ⟨fun l hl => by rw [List.mem_singleton.mp hl]; rfl, hline.2⟩
        exact hone.append (ih (lineno + 1) acc')
      | error h =>
        rw [hc] at hline
        exact hline.walk
    | lost t => exact (lineEnds_kept rfl).walk
    | undecodable => exact (lineEnds_kept rfl).walk

theorem checkFiles_ends (handed : Bytes → Nat) (n : Nat) (files : List (String × Bytes))
    (acc : String × Nat) :
    WalkEnds L rt key acc (chainLines handed files) (checkFiles L rt handed key n files acc) := by
  induction files generalizing acc with
  | nil => exact ⟨fun _ h => absurd h List.not_mem_nil, .nil _⟩
  | cons f files ih =>
    obtain ⟨name, content⟩ := f
    have hfile := @checkLines_ends V L rt key n name 1 (fileLines handed content) acc
    rw [checkFiles, chainLines, List.flatMap_cons, ← chainLines]
    cases hc : checkLines L rt key n name 1 (fileLines handed content) acc with
    | ok acc' =>
      rw [hc] at hfile
      exact hfile.append (ih acc')
    | error h =>
      rw [hc] at hfile
      exact hfile.error_append _

/-! ## When `verify` answers -/

/-- A line that is not handed out comes with one that is no UTF-8. -/
theorem undecodable_mem {handed : Bytes → Nat} {files : List (String × Bytes)} {l : FileLine}
    (hl : l ∈ chainLines handed files) (h : l.handedOut = false) :
    .undecodable ∈ chainLines handed files := by
  obtain ⟨f, hf, hl⟩ := List.mem_flatMap.mp hl
  refine List.mem_flatMap.mpr ⟨f, hf, ?_⟩
  unfold fileLines at hl ⊢
  cases hd : decodeUtf8 f.2 with
  | some t =>
    rw [hd] at hl
    obtain ⟨t', -, rfl⟩ := List.mem_map.mp hl
    cases h
  | none => simp

theorem not_passes_undecodable {acc acc' : String × Nat} {ls : List FileLine}
    (h : .undecodable ∈ ls) :
    ¬ Passes L rt key acc ls acc' := by
  intro hp
  obtain ⟨before, after, rfl⟩ := List.append_of_mem h
  obtain ⟨mid, -, h₂⟩ := hp.split
  obtain ⟨t, ht, -⟩ := h₂.good
  cases ht

/-- Where the walk raises, the first bad line is not reported, or a line before it not handed
out. -/
theorem not_reported_of_raised {handed : Bytes → Nat} {files : List (String × Bytes)} {e : PyError}
    (h : WalkEnds L rt key (GENESIS, 0) (chainLines handed files) (.error (.raised e))) :
    ¬ BadLineReported L rt key (chainLines handed files) := by
  intro hrep
  obtain ⟨before, bad, after, mid, hs, hout, hp, hbad, hnot⟩ := h
  by_cases hg : GoodLine L rt key mid.1 bad
  swap
  · exact hnot (hrep before bad mid ⟨⟨after, hs⟩, hp, hg⟩).2
  -- the line is good, but the reader raises before it
  have hkept : bad.handedOut = false := Bool.eq_false_iff.mpr (fun h => hbad h hg)
  have hmem : bad ∈ chainLines handed files := by
    rw [hs]
    exact List.mem_append_right _ (List.mem_cons_self ..)
  rcases @passes_or_firstBad V L rt key (chainLines handed files) with ⟨acc, hall⟩ |
    ⟨before', bad', acc', hfirst⟩
  · exact not_passes_undecodable (undecodable_mem hmem hkept) hall
  obtain ⟨after', hs'⟩ := hfirst.split
  obtain ⟨hout', hrep'⟩ := hrep before' bad' acc' hfirst
  obtain ⟨mid', hstep⟩ := hg.passes
  have hlonger : Passes L rt key (GENESIS, 0) (before ++ [bad]) mid' := hp.append hstep
  rw [List.append_cons] at hs
  rcases List.append_eq_append_iff.mp (hs.symm.trans hs') with ⟨c, hc, -⟩ | ⟨c, hc, hrest⟩
  · have h := hout' bad (by rw [hc]; simp)
    rw [hkept] at h
    cases h
  · cases c with
    | nil =>
      rw [List.append_nil] at hc
      have h := hout' bad (by rw [← hc]; simp)
      rw [hkept] at h
      cases h
    | cons x c =>
      cases (List.cons.inj hrest).1
      rw [hc] at hlonger
      obtain ⟨m, h₁, h₂⟩ := hlonger.split
      have hgood := h₂.good
      rw [hfirst.passes.unique h₁] at hfirst
      exact hfirst.bad hgood

end Spec

/-- **`verify` answers, and rightly, exactly if** the first bad line of the chain, if there is
one, is handed out, as all lines before it are, and holds a JSON object whose link is wrong, or
whose body can be encoded and whose digest or plain MAC is wrong.  For all chain files with any
content, and every key. -/
theorem answers_iff {V : Type} (L : JsonLibrary V) (rt : Runtime) (handed : Bytes → Nat)
    (key : String) (files : List (String × Bytes)) :
    Answers L rt key handed files ↔ BadLineReported L rt key (chainLines handed files) := by
  have hends := @checkFiles_ends V L rt key handed files.length files (GENESIS, 0)
  unfold Answers verifyContents
  cases hc : checkFiles L rt handed key files.length files (GENESIS, 0) with
  | ok acc =>
    rw [hc] at hends
    refine iff_of_true ⟨_, rfl, iff_of_true rfl ⟨acc, hends.2⟩, fun h => ?_⟩
      (fun before bad acc' hfirst => ?_)
    · cases h
    · exact absurd ⟨acc, hends.2⟩ hfirst.not_passes
  | error h =>
    rw [hc] at hends
    cases h with
    | returned r =>
      obtain ⟨hok, before, bad, after, hs, hout, hp, hbad, hrep⟩ := hends
      have hfirst : FirstBad L rt key (chainLines handed files) before bad (r.head, r.records) :=
        ⟨⟨after, hs⟩, hp, hbad⟩
      refine iff_of_true ⟨r, rfl, iff_of_false (by rw [hok]; exact Bool.false_ne_true)
        hfirst.not_passes, fun _ => ⟨before, bad, hfirst⟩⟩ (fun before' bad' acc' hfirst' => ?_)
      obtain ⟨rfl, rfl, rfl⟩ := hfirst.unique hfirst'
      exact ⟨hout, hrep⟩
    | raised e =>
      refine iff_of_false ?_ (not_reported_of_raised hends)
      rintro ⟨r, hr, -⟩
      cases hr

/-! ## The values of `Json`

On these the walk is that of `verify`, for a reader that raises before it hands out a line. -/

/-- The text of a value that is one. -/
def strOf : Json → Option String
  | .str s => some s
  | _ => none

/-- The items of an object, with their keys as values. -/
def itemsOf (d : Dict) : List (Json × Json) := d.map (fun f => (.str f.1, f.2))

/-- The runtime's `json`. -/
def Runtime.library (rt : Runtime) : JsonLibrary Json where
  loads t := (rt.loads t).elim (.error .jsonDecodeError) .ok
  asDict
    | .obj d => some (itemsOf d)
    | _ => none
  asStr := strOf
  truthy := truthy
  canonical items :=
    .ok (canonical (items.filterMap (fun e => (strOf e.1).map (fun k => (k, e.2)))))
  truthy_str v s h := by
    cases v with
    | str s' =>
      cases h
      rfl
    | _ => cases h

section Library

variable (rt : Runtime)

theorem library_get (d : Dict) (k : String) : rt.library.get (itemsOf d) k = Json.get d k := by
  induction d with
  | nil => rfl
  | cons f d ih =>
    obtain ⟨k', v⟩ := f
    unfold JsonLibrary.get Json.get itemsOf at *
    rw [List.map_cons]
    by_cases h : k' = k
    · subst h
      have hk : decide (rt.library.asStr (Json.str k') = some k') = true := decide_eq_true rfl
      rw [List.find?_cons, List.lookup_cons_self]
      simp only [hk, Option.map_some]
    · have hk : decide (rt.library.asStr (Json.str k') = some k) = false :=
        decide_eq_false (fun hc => h (Option.some.inj hc))
      rw [List.find?_cons, Dir.lookup_cons_of_ne (Ne.symm h)]
      simp only [hk, ih]

theorem library_getStr (d : Dict) (k s : String) :
    rt.library.getStr (itemsOf d) k = some s ↔ Json.get d k = some (.str s) := by
  rw [JsonLibrary.getStr, library_get]
  constructor
  · intro h
    obtain ⟨v, hv, hs⟩ := Option.bind_eq_some_iff.mp h
    cases v with
    | str s' =>
      cases hs
      exact hv
    | _ => cases hs
  · intro h
    rw [h]
    rfl

theorem library_without (d : Dict) (ks : List String) :
    rt.library.without (itemsOf d) ks = itemsOf (Json.without d ks) := by
  unfold JsonLibrary.without Json.without itemsOf
  rw [List.filter_map]
  refine congrArg _ (List.filter_congr (fun f _ => ?_))
  show (!ks.contains f.1) = decide (f.1 ∉ ks)
  rw [decide_not, List.contains_eq_mem]

theorem filterMap_items (d : Dict) :
    (itemsOf d).filterMap (fun e => (strOf e.1).map (fun k => (k, e.2))) = d := by
  rw [itemsOf, List.filterMap_map]
  exact List.filterMap_some ..

theorem library_digest (d : Dict) :
    bodyDigest rt.library rt (rt.library.without (itemsOf d) ["hash", "mac"]) =
    .ok (digest rt (Json.without d ["hash", "mac"])) := by
  rw [library_without]
  show Except.ok (rt.sha256
    (canonical ((itemsOf (Json.without d ["hash", "mac"])).filterMap _))).text = _
  rw [filterMap_items]
  rfl

theorem library_mac (key hash : String) (fail : String → Halt) (m : Option Json) :
    checkMac rt.library rt key hash fail m = verifyMac rt key hash fail m := by
  have hcompare : ∀ v, compareValue rt.library v (mac rt key hash) = compareDigest v
      (mac rt key hash) := by
    intro v
    cases v <;> rfl
  unfold checkMac verifyMac
  cases m with
  | none => rfl
  | some v =>
    dsimp only
    rw [hcompare]
    have htruthy : rt.library.truthy v = truthy v := rfl
    rewrite [htruthy]
    cases truthy v with
    | false => rfl
    | true =>
      cases compareDigest v (mac rt key hash) with
      | error e => rfl
      | ok b =>
        cases b with
        | true => rfl
        | false => rfl

theorem library_record (key : String) (files : Nat) (location : String) (acc : String × Nat)
    (rec : Json) :
    checkRecord rt.library rt key files location acc rec = verifyRecord rt key files
      location acc rec := by
  cases rec with
  | obj d =>
    have hdict : rt.library.asDict (.obj d) = some (itemsOf d) := rfl
    rw [checkRecord, verifyRecord, hdict]
    dsimp only
    rw [library_digest]
    dsimp only
    rw [library_get, library_mac]
    by_cases hprev : Json.get d "prev_hash" = some (.str acc.1)
    · rw [if_neg (not_not.mpr hprev), if_neg (not_not.mpr ((library_getStr rt d _ _).mpr hprev))]
      by_cases hhash : Json.get d "hash" = some (.str (digest rt (Json.without d ["hash", "mac"])))
      · rewrite [if_neg (not_not.mpr hhash),
          if_neg (not_not.mpr ((library_getStr rt d _ _).mpr hhash))]
        by_cases hkey : key = ""
        · rw [if_pos hkey]
        · rewrite [if_neg hkey]
          cases verifyMac rt key (digest rt (Json.without d ["hash", "mac"])) _
            (Json.get d "mac") with
          | none => rfl
          | some h => rfl
      · rw [if_pos hhash, if_pos (fun h => hhash ((library_getStr rt d _ _).mp h))]
    · rw [if_pos hprev, if_pos (fun h => hprev ((library_getStr rt d _ _).mp h))]
  | _ => rfl

theorem library_loads (line : Text) :
    rt.library.loads line = (rt.loads line).elim (.error .jsonDecodeError) .ok := rfl

theorem library_line (key : String) (files : Nat) (location : String) (acc : String × Nat)
    (line : Text) :
    checkLine rt.library rt key files location acc line = verifyLine rt key files location
      acc line := by
  rw [checkLine, verifyLine, library_loads]
  cases rt.loads line with
  | none => rfl
  | some rec =>
    dsimp only [Option.elim_some]
    rw [library_record]

theorem library_lines (key : String) (files : Nat) (name : String) (lineno : Nat) (ls : List Text)
    (acc : String × Nat) :
    checkLines rt.library rt key files name lineno (ls.map .text) acc =
      verifyLines rt key files name lineno ls acc := by
  induction ls generalizing lineno acc with
  | nil => rfl
  | cons l ls ih =>
    rw [List.map_cons, checkLines, verifyLines, library_line]
    cases verifyLine rt key files (name ++ ":" ++ toString lineno) acc l with
    | ok acc' => exact ih (lineno + 1) acc'
    | error h => rfl

/-- A reader that hands out no line of such content raises at once. -/
theorem library_undecodable (key : String) (files : Nat) (name : String) {content : Bytes}
    (acc : String × Nat) (h : decodeUtf8 content = none) :
    checkLines rt.library rt key files name 1 (fileLines (fun _ => 0) content) acc =
      .error (.raised .unicodeDecodeError) := by
  rw [fileLines, h]
  dsimp only
  rw [List.take_zero, List.drop_zero, List.map_nil, List.nil_append]
  cases linesBefore content with
  | nil => rfl
  | cons l ls => rfl

theorem library_files (key : String) (files : Nat) (d : Dir Bytes) (names : List String)
    (acc : String × Nat) (h : ∀ n ∈ names, (d.read n).isSome = true) :
    checkFiles rt.library rt (fun _ => 0) key files
      (names.map (fun n => (n, (d.read n).getD []))) acc =
      verifyFiles rt key files d names acc := by
  induction names generalizing acc with
  | nil => rfl
  | cons name names ih =>
    have ih := fun acc => ih acc (fun n hn => h n (List.mem_cons_of_mem _ hn))
    obtain ⟨content, hc⟩ := Option.isSome_iff_exists.mp (h name (List.mem_cons_self ..))
    rw [List.map_cons, checkFiles, verifyFiles, hc, Option.getD_some]
    cases hd : decodeUtf8 content with
    | none =>
      have htext : textLines content = none := by rw [textLines, hd, Option.map_none]
      rw [library_undecodable rt key files name acc hd]
      simp only [htext]
    | some t =>
      have htext : textLines content = some (lines (universal t)) := by
        rw [textLines, hd, Option.map_some]
      have hlines : fileLines (fun _ => 0) content = (lines (universal t)).map .text := by
        rw [fileLines, hd]
      rw [hlines, library_lines]
      simp only [htext]
      cases verifyLines rt key files name 1 (lines (universal t)) acc with
      | ok acc' => exact ih acc'
      | error h => rfl

/-- **The walk over contents is `verify`** on the directory that has them. -/
theorem verifyContents_eq_verify (p : ChainPath) (d : Dir Bytes) (key : String) :
    verifyContents rt.library rt (fun _ => 0) key
      ((chainFiles p d).map (fun n => (n, (d.read n).getD []))) =
      verify rt p d key := by
  have hread : ∀ n ∈ chainFiles p d, (d.read n).isSome = true := by
    intro n hn
    rw [chainFiles, List.mem_append] at hn
    rcases hn with hn | hn
    · exact (Dir.mem_sortedNames.mp (List.mem_of_mem_filter hn)).2
    · by_cases h : (d.read p.active).isSome = true
      · rw [if_pos h, List.mem_singleton] at hn
        rwa [hn]
      · rw [if_neg h] at hn
        cases hn
  rewrite [verifyContents, verify, List.length_map, library_files rt key _ d _ _ hread]
  rfl

end Library

/-! ## A line cut short -/

/-- The start of a record. -/
def cutLine : Bytes := utf8 "\x7b\"id\": \"a".toList

theorem cutLine_lines (handed : Bytes → Nat) :
    fileLines handed cutLine = [.text "\x7b\"id\": \"a".toList] := by
  have huniversal : lines (universal "\x7b\"id\": \"a".toList) = ["\x7b\"id\": \"a".toList] := by
    decide
  rw [fileLines, cutLine, decodeUtf8_utf8]
  dsimp only
  rw [huniversal, List.map_singleton]

/-- **After a crash in the middle of a write `verify` raises.** -/
theorem cut_line_raises :
    ¬ Answers Runtime.python.library Runtime.python "" (fun _ => 0) [("audit.jsonl", cutLine)] := by
  rintro ⟨r, hr, -⟩
  have hblank : blank "\x7b\"id\": \"a".toList = false := by decide
  have hnone : Runtime.python.loads "\x7b\"id\": \"a".toList = none := by decide +kernel
  have hloads := library_loads Runtime.python "\x7b\"id\": \"a".toList
  rw [hnone, Option.elim_none] at hloads
  rw [verifyContents, checkFiles, cutLine_lines, checkLines, checkLine, hblank, hloads] at hr
  cases hr

end ComplianceMcp
