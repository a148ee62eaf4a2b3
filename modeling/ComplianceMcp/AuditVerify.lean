import ComplianceMcp.AuditFile
import ComplianceMcp.Files
import ComplianceMcp.HashChain

/-! # The verifier

`chain_files` lists the files of a chain, `verify` walks their lines and checks each
record's link, digest and MAC.  `verify` stops at the first record that fails, or
raises where a line is no JSON or no object; `verify_ok_iff` says what is left when it
does neither: every line that is not blank parses to a record, the records are
linked from `GENESIS` on, and each one carries its own digest and MAC. -/
namespace ComplianceMcp

open PyJson PyText Files HashChain

variable (rt : Runtime)

/-! ## `chain_files` -/

/-- `glob(f"{stem}.*{suffix}")`, for a stem and a suffix without the metacharacters of `glob` (`*`,
`?` and `[`): what they would match is not modelled, here they stand for themselves. -/
def ChainPath.isRotated (p : ChainPath) (name : String) : Bool :=
  (p.stem.toList ++ ['.']).isPrefixOf name.toList && p.suffix.toList.isSuffixOf name.toList &&
    decide (p.stem.toList.length + 1 + p.suffix.toList.length ≤ name.toList.length)

/-- `chain_files(active)`. -/
def chainFiles {α : Type*} (p : ChainPath) (d : Dir α) : List String :=
  (d.sortedNames p.isRotated).filter (fun n => n ≠ p.active) ++
    if (d.read p.active).isSome then [p.active] else []

/-! ## `verify` -/

structure VerifyResult where
  ok : Bool
  records : Nat
  files : Nat
  head : String
  message : String
  deriving DecidableEq

/-- Why the walk ends before its last line. -/
inductive Halt where
  | raised (e : PyError)
  | returned (r : VerifyResult)
  deriving DecidableEq

/-- `hmac.compare_digest(a, b)` for a hexadecimal `b`. -/
def compareDigest (a : Json) (b : String) : Except PyError Bool :=
  match a with
  | .str s => if s.toList.all (fun c => c.toNat < 128) then .ok (s = b) else .error .typeError
  | _ => .error .typeError

/-- The MAC check on a record with digest `hash`: how the walk ends, `none` where it
goes on. -/
def verifyMac (key hash : String) (fail : String → Halt) (m : Option Json) : Option Halt :=
  match m with
  | some m =>
    if truthy m then
      match compareDigest m (mac rt key hash) with
      | .ok true => none
      | .ok false => some (fail "MAC mismatch (record forged)")
      | .error e => some (.raised e)
    else some (fail "record has no MAC but a key is configured")
  | none => some (fail "record has no MAC but a key is configured")

/-- The checks on one parsed record; `acc` is `(prev, count)`. -/
def verifyRecord (key : String) (files : Nat) (location : String) (acc : String × Nat)
    (rec : Json) :
    Except Halt (String × Nat) :=
  let fail := fun message =>
    Halt.returned ⟨false, acc.2, files, acc.1, location ++ ": " ++ message⟩
  match rec with
  | .obj d =>
    if Json.get d "prev_hash" ≠ some (.str acc.1) then
      .error (fail "chain broken (prev_hash mismatch)")
    else
      let hash := digest rt (Json.without d ["hash", "mac"])
      if Json.get d "hash" ≠ some (.str hash) then
        .error (fail "record hash mismatch (record altered)")
      else match if key = "" then none else verifyMac rt key hash fail (Json.get d "mac") with
        | some h => .error h
        | none => .ok (hash, acc.2 + 1)
  | _ => .error (.raised .attributeError)

/-- One line of a file. -/
def verifyLine (key : String) (files : Nat) (location : String) (acc : String × Nat) (line : Text) :
    Except Halt (String × Nat) :=
  if blank line then .ok acc
  else match rt.loads line with
    | some rec => verifyRecord rt key files location acc rec
    | none => .error (.raised .jsonDecodeError)

/-- The lines of a file, numbered from `lineno` on. -/
def verifyLines (key : String) (files : Nat) (name : String) :
    Nat → List Text → String × Nat → Except Halt (String × Nat)
  | _, [], acc => .ok acc
  | lineno, line :: rest, acc =>
    match verifyLine rt key files (name ++ ":" ++ toString lineno) acc line with
    | .ok acc => verifyLines key files name (lineno + 1) rest acc
    | .error h => .error h

/-- The lines a text-mode reader yields for the content of a file, `none` where the
content is no UTF-8. -/
def textLines (content : Bytes) : Option (List Text) :=
  (decodeUtf8 content).map (fun t => lines (universal t))

/-- The files of the chain.  Reading bytes that are no UTF-8 raises; CPython decodes a
file in chunks and may have returned on an earlier line of it, which is no `ok` either. -/
def verifyFiles (key : String) (files : Nat) (d : Dir Bytes) :
    List String → String × Nat → Except Halt (String × Nat)
  | [], acc => .ok acc
  | name :: rest, acc =>
    match d.read name with
    | none => .error (.raised .fileNotFoundError)
    | some content =>
      match textLines content with
      | none => .error (.raised .unicodeDecodeError)
      | some ls =>
        match verifyLines rt key files name 1 ls acc with
        | .ok acc => verifyFiles key files d rest acc
        | .error h => .error h

/-- `verify(active, hmac_key=key)`. -/
def verify (p : ChainPath) (d : Dir Bytes) (key : String) : Except PyError VerifyResult :=
  let files := chainFiles p d
  match verifyFiles rt key files.length d files (GENESIS, 0) with
  | .ok (prev, count) => .ok ⟨true, count, files.length, prev,
      toString count ++ " records across " ++ toString files.length ++ " file(s) verified, head "
        ++ takeChars 12 prev⟩
  | .error (.returned r) => .ok r
  | .error (.raised e) => .error e

/-! ## What the walk accepts -/

/-- How audit records are linked. -/
def chainLinks : Links Dict (Option Json) where
  prev := fun d => Json.get d "prev_hash"
  hash := fun d => Json.get d "hash"

/-- The `prev_hash` of a first record. -/
def genesis : Option Json := some (.str GENESIS)

/-- The records take the walk from `(prev, count)` to `(prev', count')`. -/
structure Walk (key : String) (acc : String × Nat) (ds : List Dict) (acc' : String × Nat) :
    Prop where
  linked : Linked chainLinks (some (.str acc.1)) ds
  genuine : ∀ d ∈ ds, Genuine rt key d
  head_eq : HashChain.head chainLinks (some (.str acc.1)) ds = some (.str acc'.1)
  count_eq : acc'.2 = acc.2 + ds.length

/-- The records of a whole chain pass every check. -/
structure Accepted (key : String) (ds : List Dict) : Prop where
  linked : Linked chainLinks genesis ds
  genuine : ∀ d ∈ ds, Genuine rt key d

/-- The records in the lines of one file, `none` where a line does not parse. -/
def fileRecords (content : Bytes) : Option (List Json) :=
  (textLines content).bind (fun ls => (ls.filter (fun l => !blank l)).mapM rt.loads)

/-- The records of each of the files, in order. -/
def groupsOf (d : Dir Bytes) : List String → Option (List (List Json))
  | [] => some []
  | name :: rest =>
    (d.read name).bind (fun content => (fileRecords rt content).bind (fun js =>
      (groupsOf d rest).map (js :: ·)))

/-- The records of the files, in order. -/
def recordsOf (d : Dir Bytes) (names : List String) : Option (List Json) :=
  (groupsOf rt d names).map List.flatten

/-- The records of the chain, in the order `verify` walks them. -/
def chainRecords (p : ChainPath) (d : Dir Bytes) : Option (List Json) :=
  recordsOf rt d (chainFiles p d)

section Names

variable {α : Type*} (p : ChainPath)

theorem isRotated_active : p.isRotated p.active = false := by
  have hlen : ¬ p.stem.toList.length + 1 + p.suffix.toList.length ≤ p.active.toList.length := by
    rw [ChainPath.active, String.toList_append, List.length_append]
    omega
  rw [ChainPath.isRotated, decide_eq_false hlen, Bool.and_false]

theorem isRotated_rotated (stamp : String) : p.isRotated (p.rotated stamp) = true := by
  have hname : (p.rotated stamp).toList =
      (p.stem.toList ++ ['.']) ++ (stamp.toList ++ p.suffix.toList) := by
    simp only [ChainPath.rotated, String.toList_append, List.append_assoc]
    rfl
  have hpre : (p.stem.toList ++ ['.']).isPrefixOf (p.rotated stamp).toList = true := by
    rw [hname, List.isPrefixOf_iff_prefix]
    exact List.prefix_append _ _
  have hsuf : p.suffix.toList.isSuffixOf (p.rotated stamp).toList = true := by
    rw [hname, List.isSuffixOf_iff_suffix, ← List.append_assoc]
    exact List.suffix_append _ _
  have hlen : p.stem.toList.length + 1 + p.suffix.toList.length ≤
      (p.rotated stamp).toList.length := by
    simp only [hname, List.length_append, List.length_singleton]
    omega
  rw [ChainPath.isRotated, hpre, hsuf, decide_eq_true hlen]
  rfl

theorem rotated_ne_active (stamp : String) : p.rotated stamp ≠ p.active := by
  intro h
  have := isRotated_rotated p stamp
  rw [h, isRotated_active] at this
  cases this

variable {p}

/-- A chain is the sorted listing of its rotated files and then the active file. -/
theorem chainFiles_eq {d : Dir α} {ns : List String} (hs : ns.Pairwise (· < ·))
    (hm : ∀ n, p.isRotated n = true ∧ (d.read n).isSome = true ↔ n ∈ ns) :
    chainFiles p d = ns ++ if (d.read p.active).isSome then [p.active] else [] := by
  rw [chainFiles, Dir.sortedNames_eq hs (fun n => (hm n).symm)]
  refine congrArg (· ++ _) (List.filter_eq_self.mpr (fun n hn => decide_eq_true ?_))
  rintro rfl
  have := ((hm _).mpr hn).1
  rw [isRotated_active] at this
  cases this

end Names

variable {rt}

theorem Walk.nil {key : String} {acc acc' : String × Nat} :
    Walk rt key acc [] acc' ↔ acc' = acc := by
  constructor
  · intro h
    have hprev : acc.1 = acc'.1 := Json.str.inj (Option.some.inj h.head_eq)
    exact Prod.ext hprev.symm h.count_eq
  · rintro rfl
    exact ⟨linked_nil _, fun d hd => absurd hd List.not_mem_nil, rfl, rfl⟩

theorem Walk.append {key : String} {acc mid acc' : String × Nat} {ds es : List Dict}
    (h : Walk rt key acc ds mid) (h' : Walk rt key mid es acc') :
    Walk rt key acc (ds ++ es) acc' where
  linked := linked_append.mpr ⟨h.linked, by rw [h.head_eq]; exact h'.linked⟩
  genuine := fun d hd => (List.mem_append.mp hd).elim (h.genuine d) (h'.genuine d)
  head_eq := by rw [head_append, h.head_eq, h'.head_eq]
  count_eq := by rw [h'.count_eq, h.count_eq, List.length_append, Nat.add_assoc]

/-- A walk over a concatenation passes through the point between its parts. -/
theorem Walk.split {key : String} {acc acc' : String × Nat} {ds es : List Dict}
    (h : Walk rt key acc (ds ++ es) acc') :
    ∃ mid, Walk rt key acc ds mid ∧ Walk rt key mid es acc' := by
  obtain ⟨hds, hes⟩ := linked_append.mp h.linked
  have hmid : ∃ s, HashChain.head chainLinks (some (.str acc.1)) ds = some (.str s) := by
    by_cases hnil : ds = []
    · exact ⟨acc.1, by rw [hnil, head_nil]⟩
    · obtain ⟨d, hd, he⟩ := head_mem (c := chainLinks) (g := some (.str acc.1)) hnil
      exact ⟨_, he.trans (h.genuine d (List.mem_append_left _ hd)).hash⟩
  obtain ⟨s, hs⟩ := hmid
  refine ⟨(s, acc.2 + ds.length),
    ⟨hds, fun d hd => h.genuine d (List.mem_append_left _ hd), hs, rfl⟩,
    ⟨hs ▸ hes, fun d hd => h.genuine d (List.mem_append_right _ hd), ?_, ?_⟩⟩
  · rw [← hs, ← head_append, h.head_eq]
  · rw [h.count_eq, List.length_append, Nat.add_assoc]

theorem Walk.singleton {key : String} {acc acc' : String × Nat} {d : Dict} :
    Walk rt key acc [d] acc' ↔ Json.get d "prev_hash" = some (.str acc.1) ∧ Genuine rt key d ∧
      acc' = (digest rt (Json.without d ["hash", "mac"]), acc.2 + 1) := by
  constructor
  · intro h
    have hg := h.genuine d (List.mem_singleton_self d)
    refine ⟨(linked_cons.mp h.linked).1, hg, Prod.ext ?_ h.count_eq⟩
    exact (Json.str.inj (Option.some.inj (hg.hash.symm.trans h.head_eq))).symm
  · rintro ⟨hp, hg, rfl⟩
    refine ⟨linked_cons.mpr ⟨hp, linked_nil _⟩, fun e he => ?_, hg.hash, rfl⟩
    rw [List.mem_singleton.mp he]
    exact hg

theorem mac_ascii (key hash : String) :
    (mac rt key hash).toList.all (fun c => c.toNat < 128) = true := by
  have hhex := (rt.hmacSha256 (utf8 key.toList) (utf8 hash.toList)).all_hex
  refine List.all_eq_true.mpr (fun c hc => decide_eq_true ?_)
  have := List.all_eq_true.mp hhex c hc
  unfold Sha256.isHexDigit at this
  rcases Bool.or_eq_true_iff.mp this with h | h
  · have hle : c.toNat ≤ 57 := (Char.isDigit_iff_toNat.mp h).2
    omega
  · have := (of_decide_eq_true (Bool.and_eq_true_iff.mp h).2 : c ≤ 'f')
    have hle : c.toNat ≤ 102 := this
    omega

theorem mac_ne_empty (key hash : String) : mac rt key hash ≠ "" := by
  intro h
  have := (rt.hmacSha256 (utf8 key.toList) (utf8 hash.toList)).length_eq
  rw [show (rt.hmacSha256 (utf8 key.toList) (utf8 hash.toList)).text = "" from h] at this
  cases this

theorem truthy_str {s : String} (h : s ≠ "") : truthy (.str s) = true := decide_eq_true h

theorem verifyMac_eq_none {key hash : String} {fail : String → Halt} {m : Option Json} :
    verifyMac rt key hash fail m = none ↔ m = some (.str (mac rt key hash)) := by
  constructor
  · intro h
    unfold verifyMac at h
    split at h
    case h_2 => cases h
    split at h
    case isFalse => cases h
    split at h
    · next hc =>
      unfold compareDigest at hc
      split at hc
      · split at hc
        · rw [of_decide_eq_true (Except.ok.inj hc)]
        · cases hc
      · cases hc
    · cases h
    · cases h
  · rintro rfl
    simp only [verifyMac, truthy_str (mac_ne_empty key hash), if_true, compareDigest, mac_ascii,
      decide_true]

/-- A record is accepted exactly when it names `prev` and carries its own digest and MAC. -/
theorem verifyRecord_ok_iff {key : String} {files : Nat} {location : String}
    {acc acc' : String × Nat} {rec : Json} :
    verifyRecord rt key files location acc rec = .ok acc' ↔
      ∃ d, rec = .obj d ∧ Walk rt key acc [d] acc' := by
  constructor
  · intro h
    cases rec with
    | obj d =>
      refine ⟨d, rfl, Walk.singleton.mpr ?_⟩
      simp only [verifyRecord] at h
      split at h
      · cases h
      next hp =>
      split at h
      · cases h
      next hh =>
      refine ⟨not_not.mp hp, ⟨not_not.mp hh, fun hk => ?_⟩, ?_⟩
      · rw [if_neg hk] at h
        split at h
        · cases h
        · next hm => exact verifyMac_eq_none.mp hm
      · split at h
        · cases h
        · exact (Except.ok.inj h).symm
    | _ => cases h
  · rintro ⟨d, rfl, h⟩
    obtain ⟨hp, hg, rfl⟩ := Walk.singleton.mp h
    simp only [verifyRecord]
    rw [if_neg (not_not.mpr hp), if_neg (not_not.mpr hg.hash)]
    by_cases hk : key = ""
    · rw [if_pos hk]
    · rw [if_neg hk, verifyMac_eq_none.mpr (hg.mac hk)]

theorem verifyLine_ok_iff {key : String} {files : Nat} {location : String}
    {acc acc' : String × Nat} {line : Text} :
    verifyLine rt key files location acc line = .ok acc' ↔
      ∃ ds : List Dict, ([line].filter (fun l => !blank l)).mapM rt.loads = some (ds.map .obj) ∧
        Walk rt key acc ds acc' := by
  unfold verifyLine
  by_cases hb : blank line = true
  · rw [if_pos hb, List.filter_cons_of_neg (by rw [hb]; decide)]
    constructor
    · intro h
      exact ⟨[], rfl, Walk.nil.mpr (Except.ok.inj h).symm⟩
    · rintro ⟨ds, hds, hw⟩
      have hnil : ds = [] := List.map_eq_nil_iff.mp (Option.some.inj hds).symm
      subst hnil
      rw [Walk.nil.mp hw]
  · rw [if_neg hb, List.filter_cons_of_pos (by simpa using hb), List.filter_nil]
    have hone : ∀ (o : Option Json) (ds : List Dict), o = rt.loads line →
        ([line].mapM rt.loads = some (ds.map .obj) ↔
          o.map (fun j => [j]) = some (ds.map .obj)) := by
      rintro o ds rfl
      rw [List.mapM_cons, List.mapM_nil]
      cases rt.loads line <;> exact Iff.rfl
    cases hl : rt.loads line with
    | none =>
      constructor
      · intro h
        cases h
      · rintro ⟨ds, hds, -⟩
        cases (hone none ds hl.symm).mp hds
    | some rec =>
      show verifyRecord rt key files location acc rec = .ok acc' ↔ _
      rw [verifyRecord_ok_iff]
      constructor
      · rintro ⟨d, rfl, hw⟩
        exact ⟨[d], (hone _ [d] hl.symm).mpr rfl, hw⟩
      · rintro ⟨ds, hds, hw⟩
        have hm := Option.some.inj ((hone _ ds hl.symm).mp hds)
        obtain ⟨d, rfl, hd⟩ := List.map_eq_singleton_iff.mp hm.symm
        exact ⟨d, hd.symm, hw⟩

theorem mapM_append_obj {f : Text → Option Json} {xs ys : List Text} {ds : List Dict} :
    (xs ++ ys).mapM f = some (ds.map .obj) ↔ ∃ ds₁ ds₂, ds = ds₁ ++ ds₂ ∧
      xs.mapM f = some (ds₁.map .obj) ∧ ys.mapM f = some (ds₂.map .obj) := by
  rw [List.mapM_append]
  constructor
  · intro h
    obtain ⟨a, ha, h⟩ := Option.bind_eq_some_iff.mp h
    obtain ⟨b, hb, h⟩ := Option.bind_eq_some_iff.mp h
    obtain ⟨ds₁, ds₂, rfl, h₁, h₂⟩ := List.map_eq_append_iff.mp (Option.some.inj h).symm
    exact ⟨ds₁, ds₂, rfl, by rw [ha, h₁], by rw [hb, h₂]⟩
  · rintro ⟨ds₁, ds₂, rfl, h₁, h₂⟩
    rw [h₁, h₂, List.map_append]
    rfl

theorem verifyLines_ok_iff {key : String} {files : Nat} {name : String} {lineno : Nat}
    {ls : List Text} {acc acc' : String × Nat} :
    verifyLines rt key files name lineno ls acc = .ok acc' ↔
      ∃ ds : List Dict, (ls.filter (fun l => !blank l)).mapM rt.loads = some (ds.map .obj) ∧
        Walk rt key acc ds acc' := by
  induction ls generalizing lineno acc with
  | nil =>
    constructor
    · intro h
      exact ⟨[], rfl, Walk.nil.mpr (Except.ok.inj h).symm⟩
    · rintro ⟨ds, hds, hw⟩
      obtain rfl : ds = [] := List.map_eq_nil_iff.mp (Option.some.inj hds).symm
      rw [Walk.nil.mp hw]
      rfl
  | cons l ls ih =>
    have hsplit : (l :: ls).filter (fun l => !blank l) =
        [l].filter (fun l => !blank l) ++ ls.filter (fun l => !blank l) :=
      List.filter_append [l] ls
    rw [verifyLines, hsplit]
    constructor
    · intro h
      split at h
      · next mid hmid =>
        obtain ⟨ds₁, h₁, w₁⟩ := verifyLine_ok_iff.mp hmid
        obtain ⟨ds₂, h₂, w₂⟩ := ih.mp h
        exact ⟨ds₁ ++ ds₂, mapM_append_obj.mpr ⟨ds₁, ds₂, rfl, h₁, h₂⟩, w₁.append w₂⟩
      · cases h
    · rintro ⟨ds, hds, hw⟩
      obtain ⟨ds₁, ds₂, rfl, h₁, h₂⟩ := mapM_append_obj.mp hds
      obtain ⟨mid, w₁, w₂⟩ := hw.split
      rw [verifyLine_ok_iff.mpr ⟨ds₁, h₁, w₁⟩]
      exact ih.mpr ⟨ds₂, h₂, w₂⟩

theorem recordsOf_cons {d : Dir Bytes} {name : String} {rest : List String} {ds : List Dict} :
    recordsOf rt d (name :: rest) = some (ds.map .obj) ↔
      ∃ content ds₁ ds₂, d.read name = some content ∧ ds = ds₁ ++ ds₂ ∧
        fileRecords rt content = some (ds₁.map .obj) ∧
        recordsOf rt d rest = some (ds₂.map .obj) := by
  constructor
  · intro h
    obtain ⟨gs, hg, h⟩ := Option.map_eq_some_iff.mp h
    obtain ⟨content, hc, hg⟩ := Option.bind_eq_some_iff.mp hg
    obtain ⟨js, hj, hg⟩ := Option.bind_eq_some_iff.mp hg
    obtain ⟨gs, hrest, rfl⟩ := Option.map_eq_some_iff.mp hg
    rw [List.flatten_cons] at h
    obtain ⟨ds₁, ds₂, rfl, rfl, h₂⟩ := List.map_eq_append_iff.mp h.symm
    exact ⟨content, ds₁, ds₂, hc, rfl, hj, by rw [recordsOf, hrest, Option.map_some, h₂]⟩
  · rintro ⟨content, ds₁, ds₂, hc, rfl, h₁, h₂⟩
    obtain ⟨gs, hg, h₂⟩ := Option.map_eq_some_iff.mp h₂
    rw [recordsOf, groupsOf, hc, Option.bind_some, h₁, Option.bind_some, hg, Option.map_some,
      Option.map_some, List.flatten_cons, h₂, List.map_append]

theorem verifyFiles_ok_iff {key : String} {files : Nat} {d : Dir Bytes} {names : List String}
    {acc acc' : String × Nat} :
    verifyFiles rt key files d names acc = .ok acc' ↔
      ∃ ds : List Dict, recordsOf rt d names = some (ds.map .obj) ∧ Walk rt key acc ds acc' := by
  induction names generalizing acc with
  | nil =>
    constructor
    · intro h
      exact ⟨[], rfl, Walk.nil.mpr (Except.ok.inj h).symm⟩
    · rintro ⟨ds, hds, hw⟩
      obtain rfl : ds = [] := List.map_eq_nil_iff.mp (Option.some.inj hds).symm
      rw [Walk.nil.mp hw]
      rfl
  | cons name names ih =>
    rw [verifyFiles]
    constructor
    · intro h
      split at h
      · cases h
      next content hc =>
      split at h
      · cases h
      next ls hls =>
      split at h
      · next mid hmid =>
        obtain ⟨ds₁, h₁, w₁⟩ := verifyLines_ok_iff.mp hmid
        obtain ⟨ds₂, h₂, w₂⟩ := ih.mp h
        refine ⟨ds₁ ++ ds₂, recordsOf_cons.mpr ⟨content, ds₁, ds₂, hc, rfl, ?_, h₂⟩, w₁.append w₂⟩
        rw [fileRecords, hls, Option.bind_some, h₁]
      · cases h
    · rintro ⟨ds, hds, hw⟩
      obtain ⟨content, ds₁, ds₂, hc, rfl, h₁, h₂⟩ := recordsOf_cons.mp hds
      obtain ⟨mid, w₁, w₂⟩ := hw.split
      obtain ⟨ls, hls, h₁⟩ := Option.bind_eq_some_iff.mp h₁
      simp only [hc, hls, verifyLines_ok_iff.mpr ⟨ds₁, h₁, w₁⟩]
      exact ih.mpr ⟨ds₂, h₂, w₂⟩

theorem Walk.of_accepted {key : String} {ds : List Dict} (h : Accepted rt key ds) :
    ∃ acc', Walk rt key (GENESIS, 0) ds acc' := by
  by_cases hnil : ds = []
  · exact ⟨_, by rw [hnil]; exact Walk.nil.mpr rfl⟩
  · obtain ⟨d, hd, he⟩ := head_mem (c := chainLinks) (g := genesis) hnil
    exact ⟨(_, 0 + ds.length), h.linked, h.genuine, he.trans (h.genuine d hd).hash, rfl⟩

/-! ## Files of whole records -/

theorem unlines_not_mem {ls : List Text} {c : Char} (h : ∀ l ∈ ls, c ∉ l) (hc : c ≠ '\n') :
    c ∉ unlines ls := by
  intro hm
  obtain ⟨l, hl, hm⟩ := List.mem_flatMap.mp hm
  rcases List.mem_append.mp hm with hm | hm
  · exact h l hl hm
  · exact hc (List.mem_singleton.mp hm)

theorem fileRecords_fileOf {ls : List Text} (h : ∀ l ∈ ls, AllPrintable l) :
    fileRecords rt (fileOf ls) =
      ((ls.map (· ++ ['\n'])).filter (fun l => !blank l)).mapM rt.loads := by
  have hlf : ∀ l ∈ ls, '\n' ∉ l := fun l hl => (h l hl).not_mem (by decide)
  have hcr : ∀ l ∈ ls, '\r' ∉ l := fun l hl => (h l hl).not_mem (by decide)
  rw [fileRecords, textLines, fileOf, decodeUtf8_utf8, Option.map_some,
    universal_of_not_mem (unlines_not_mem hcr (by decide)), lines_unlines hlf, Option.bind_some]

theorem Recorded.printable_of_forall₂ {ls : List Text} {ds : List Dict}
    (h : List.Forall₂ (Recorded rt) ls ds) : ∀ l ∈ ls, AllPrintable l := by
  intro l hl
  obtain ⟨i, hi, rfl⟩ := List.getElem_of_mem hl
  exact ((List.forall₂_iff_get.mp h).2 i hi ((List.forall₂_iff_get.mp h).1 ▸ hi)).printable

/-- **A file of whole records is read back record by record.** -/
theorem fileRecords_of_holds {b : Bytes} {ds : List Dict} (h : Holds rt b ds) :
    fileRecords rt b = some (ds.map .obj) := by
  obtain ⟨ls, rfl, hls⟩ := h
  rw [fileRecords_fileOf (Recorded.printable_of_forall₂ hls)]
  induction hls with
  | nil => rfl
  | @cons l d ls ds hl _ ih =>
    have hread := hl.parses [] ['\n'] rfl (by decide)
    rw [List.nil_append] at hread
    rw [List.map_cons, List.filter_cons_of_pos (by rw [hl.not_blank]; rfl),
      List.mapM_cons, ih, hread]
    rfl

/-- Where the records of a chain can be read, those of each of its files can. -/
theorem fileRecords_of_groupsOf {d : Dir Bytes} {names : List String} {gs : List (List Json)}
    (h : groupsOf rt d names = some gs) :
    ∀ n ∈ names, ∃ b js, d.read n = some b ∧ fileRecords rt b = some js := by
  induction names generalizing gs with
  | nil => exact fun n hn => absurd hn List.not_mem_nil
  | cons name names ih =>
    obtain ⟨b, hb, h⟩ := Option.bind_eq_some_iff.mp h
    obtain ⟨js, hjs, h⟩ := Option.bind_eq_some_iff.mp h
    obtain ⟨gs, hgs, rfl⟩ := Option.map_eq_some_iff.mp h
    intro n hn
    rcases List.mem_cons.mp hn with rfl | hn
    · exact ⟨b, js, hb, hjs⟩
    · exact ih hgs n hn

/-- An active file with a line that does not parse keeps the chain from being read. -/
theorem fileRecords_of_chainRecords {p : ChainPath} {d : Dir Bytes} {js : List Json} {b : Bytes}
    (h : chainRecords rt p d = some js) (hb : d.read p.active = some b) :
    fileRecords rt b ≠ none := by
  obtain ⟨gs, hgs, -⟩ := Option.map_eq_some_iff.mp h
  have hmem : p.active ∈ chainFiles p d := by
    rw [chainFiles, hb, Option.isSome_some, if_pos rfl]
    exact List.mem_append_right _ (List.mem_singleton_self _)
  obtain ⟨b', js', hb', hjs'⟩ := fileRecords_of_groupsOf hgs _ hmem
  cases hb.symm.trans hb'
  rw [hjs']
  exact Option.some_ne_none js'

/-! ## A walk that ends early is not `ok` -/

/-- The result, if there is one, says that the chain failed. -/
def Halt.Failed (h : Halt) : Prop := ∀ r, h = .returned r → r.ok = false

theorem Halt.failed_raised (e : PyError) : (Halt.raised e).Failed := fun _ h => by cases h

theorem Halt.failed_returned {r : VerifyResult} (h : r.ok = false) : (Halt.returned r).Failed := by
  intro r' h'
  cases h'
  exact h

theorem verifyMac_failed {key hash : String} {fail : String → Halt} {m : Option Json} {h : Halt}
    (hf : ∀ s, (fail s).Failed) (hm : verifyMac rt key hash fail m = some h) : h.Failed := by
  unfold verifyMac at hm
  repeat' split at hm
  all_goals cases hm
  · exact hf _
  · exact Halt.failed_raised _
  · exact hf _
  · exact hf _

theorem verifyRecord_failed {key : String} {files : Nat} {location : String} {acc : String × Nat}
    {rec : Json} {h : Halt} (hv : verifyRecord rt key files location acc rec = .error h) :
    h.Failed := by
  cases rec with
  | obj d =>
    simp only [verifyRecord] at hv
    split at hv
    · cases hv
      exact Halt.failed_returned rfl
    split at hv
    · cases hv
      exact Halt.failed_returned rfl
    split at hv
    · next h' hm =>
      cases hv
      split at hm
      · cases hm
      · exact verifyMac_failed (fun _ => Halt.failed_returned rfl) hm
    · cases hv
  | _ =>
    cases hv
    exact Halt.failed_raised _

theorem verifyLines_failed {key : String} {files : Nat} {name : String} {lineno : Nat}
    {ls : List Text} {acc : String × Nat} {h : Halt}
    (hv : verifyLines rt key files name lineno ls acc = .error h) : h.Failed := by
  induction ls generalizing lineno acc with
  | nil => cases hv
  | cons l ls ih =>
    rw [verifyLines] at hv
    split at hv
    · exact ih hv
    · next h' hl =>
      cases hv
      unfold verifyLine at hl
      split at hl
      · cases hl
      split at hl
      · exact verifyRecord_failed hl
      · cases hl
        exact Halt.failed_raised _

theorem verifyFiles_failed {key : String} {files : Nat} {d : Dir Bytes} {names : List String}
    {acc : String × Nat} {h : Halt} (hv : verifyFiles rt key files d names acc = .error h) :
    h.Failed := by
  induction names generalizing acc with
  | nil => cases hv
  | cons name names ih =>
    rw [verifyFiles] at hv
    split at hv
    · cases hv
      exact Halt.failed_raised _
    split at hv
    · cases hv
      exact Halt.failed_raised _
    split at hv
    · exact ih hv
    · next hl =>
      cases hv
      exact verifyLines_failed hl

/-! ## What `verify` decides -/

/-- The result `verify` returns at the end of the walk. -/
def okResult (files : Nat) (acc : String × Nat) : VerifyResult :=
  ⟨true, acc.2, files, acc.1, toString acc.2 ++ " records across " ++ toString files ++
    " file(s) verified, head " ++ takeChars 12 acc.1⟩

/-- `verify` returns an `ok` result exactly when its walk reaches the end. -/
theorem verify_eq_ok_iff {p : ChainPath} {d : Dir Bytes} {key : String} {r : VerifyResult} :
    verify rt p d key = .ok r ∧ r.ok = true ↔
      ∃ ds acc, chainRecords rt p d = some (ds.map .obj) ∧ Walk rt key (GENESIS, 0) ds acc ∧
        r = okResult (chainFiles p d).length acc := by
  constructor
  · rintro ⟨h, hok⟩
    simp only [verify] at h
    split at h
    · next hv =>
      obtain ⟨ds, hds, hw⟩ := verifyFiles_ok_iff.mp hv
      exact ⟨ds, _, hds, hw, (Except.ok.inj h).symm⟩
    · next hv =>
      cases h
      exact absurd (verifyFiles_failed hv _ rfl) (by rw [hok]; decide)
    · cases h
  · rintro ⟨ds, acc, hds, hw, rfl⟩
    refine ⟨?_, rfl⟩
    simp only [verify, verifyFiles_ok_iff.mpr ⟨ds, hds, hw⟩]
    rfl

/-- **What `verify` accepts.**  The lines of the chain parse to records that are linked
from `GENESIS` on and are genuine; nothing else makes `verify` answer `ok`. -/
theorem verify_ok_iff {p : ChainPath} {d : Dir Bytes} {key : String} :
    (∃ r, verify rt p d key = .ok r ∧ r.ok = true) ↔
      ∃ ds, chainRecords rt p d = some (ds.map .obj) ∧ Accepted rt key ds := by
  constructor
  · rintro ⟨r, hr⟩
    obtain ⟨ds, acc, hds, hw, -⟩ := verify_eq_ok_iff.mp hr
    exact ⟨ds, hds, hw.linked, hw.genuine⟩
  · rintro ⟨ds, hds, ha⟩
    obtain ⟨acc, hw⟩ := Walk.of_accepted ha
    exact ⟨_, verify_eq_ok_iff.mpr ⟨ds, acc, hds, hw, rfl⟩⟩

theorem obj_map_injective {xs ys : List Dict} (h : xs.map Json.obj = ys.map Json.obj) : xs = ys :=
  List.map_injective_iff.mpr (fun _ _ => Json.obj.inj) h

/-- On a chain whose records are known, `verify` answers `ok` exactly when they pass. -/
theorem verify_ok_iff_accepted {p : ChainPath} {d : Dir Bytes} {key : String} {ds : List Dict}
    (hds : chainRecords rt p d = some (ds.map .obj)) :
    (∃ r, verify rt p d key = .ok r ∧ r.ok = true) ↔ Accepted rt key ds := by
  rw [verify_ok_iff]
  constructor
  · rintro ⟨ds', hds', ha⟩
    obtain rfl := obj_map_injective (Option.some.inj (hds.symm.trans hds'))
    exact ha
  · exact fun ha => ⟨ds, hds, ha⟩

/-- The count of an `ok` result is the number of records of the chain. -/
theorem verify_of_accepted {p : ChainPath} {d : Dir Bytes} {key : String} {ds : List Dict}
    (hds : chainRecords rt p d = some (ds.map .obj)) (ha : Accepted rt key ds) :
    ∃ r, verify rt p d key = .ok r ∧ r.ok = true ∧ r.records = ds.length := by
  obtain ⟨acc, hw⟩ := Walk.of_accepted ha
  obtain ⟨hv, hok⟩ := verify_eq_ok_iff.mpr ⟨ds, acc, hds, hw, rfl⟩
  exact ⟨_, hv, hok, hw.count_eq.trans (Nat.zero_add _)⟩

end ComplianceMcp
