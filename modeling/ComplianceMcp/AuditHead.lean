import ComplianceMcp.AuditTamper
import ComplianceMcp.VerifyFaults

/-! # What a head determines

An anchor is a head that left the host.  Its worth is that a head determines the history:
two chains that `verify` accepts with the same head consist of the same record bodies,
however they are split into files and whatever keys the two calls were given.  A record
is compared by its body, with `hash` and `mac` aside and the order of its keys aside.
Bodies are linked by the digest `verify` recomputes, so the backward induction of
`HashChain.forall₂_of_head_eq` applies to them.

The files may hold anything, so `head_determines_history` leaves open what `json.loads` makes of a
line, as `verifyContents` does; the first section is about the records that the writer wrote. -/
namespace ComplianceMcp

open PyJson PyText Files HashChain

/-! ## Records of the writer -/

/-- The body of a record with its keys in ascending order. -/
def sortedBody (d : Dict) : Dict := Json.sortedFields (bodyOf d)

/-- How record bodies are linked. -/
def bodyLinks (rt : Runtime) : Links Dict (Option Json) where
  prev := fun b => Json.get b "prev_hash"
  hash := fun b => some (.str (digest rt b))

/-- What the digest promises about the records of two chains: it does not collide on
their bodies, and none has the digest a chain starts from. -/
structure CollisionFree (rt : Runtime) (p : ChainPath) (d : Dir Bytes) (q : ChainPath)
    (e : Dir Bytes) : Prop where
  injective : ∀ a b, Appears rt p d a ∨ Appears rt q e a → Appears rt p d b ∨ Appears rt q e b →
    digest rt (bodyOf a) = digest rt (bodyOf b) → sortedBody a = sortedBody b
  not_genesis : ∀ a, Appears rt p d a ∨ Appears rt q e a → digest rt (bodyOf a) ≠ GENESIS

variable {rt : Runtime}

theorem digest_sortedBody (d : Dict) : digest rt (sortedBody d) = digest rt (bodyOf d) :=
  digest_congr rt (Json.sortedFields_sortedFields _)

/-- The link of a body is the link of its record. -/
theorem prev_sortedBody {d : Dict} (hd : (d.map Prod.fst).Nodup) {g : String}
    (h : Json.get d "prev_hash" = some (.str g)) :
    Json.get (sortedBody d) "prev_hash" = some (.str g) := by
  have hb : ((bodyOf d).map Prod.fst).Nodup := hd.sublist (List.filter_sublist.map Prod.fst)
  rw [sortedBody, Json.get_sortedFields hb, bodyOf, Json.get_without hd (by decide), h,
    Option.map_some, Json.sortKeys_str]

/-- A walk over genuine records is a chain of their bodies. -/
theorem Walk.bodies {key : String} {acc acc' : String × Nat} {ds : List Dict}
    (h : Walk rt key acc ds acc') (hn : ∀ d ∈ ds, (d.map Prod.fst).Nodup) :
    HashChain.Linked (bodyLinks rt) (some (.str acc.1)) (ds.map sortedBody) ∧
      HashChain.head (bodyLinks rt) (some (.str acc.1)) (ds.map sortedBody) =
        some (.str acc'.1) := by
  induction ds generalizing acc with
  | nil =>
    rw [Walk.nil.mp h]
    exact ⟨linked_nil _, rfl⟩
  | cons d ds ih =>
    obtain ⟨mid, h₁, h₂⟩ := @Walk.split rt key acc acc' [d] ds h
    obtain ⟨hp, -, rfl⟩ := Walk.singleton.mp h₁
    obtain ⟨hl, hh⟩ := ih h₂ (fun e he => hn e (List.mem_cons_of_mem _ he))
    have hd := hn d List.mem_cons_self
    have hhash : (bodyLinks rt).hash (sortedBody d) =
        some (.str (digest rt (Json.without d ["hash", "mac"]))) :=
      congrArg (fun s => some (Json.str s)) (digest_sortedBody d)
    rw [List.map_cons, linked_cons, HashChain.head, hhash]
    exact ⟨⟨prev_sortedBody hd hp, hl⟩, hh⟩

/-- Two walks from `GENESIS` to one head are over the same bodies. -/
theorem bodies_eq_of_walks {p q : ChainPath} {d e : Dir Bytes} {rs ws : List Dict} {k₁ k₂ : String}
    {acc₁ acc₂ : String × Nat} (hc : CollisionFree rt p d q e)
    (hr : ∀ r ∈ rs, Appears rt p d r) (hw : ∀ w ∈ ws, Appears rt q e w)
    (h₁ : Walk rt k₁ (GENESIS, 0) rs acc₁) (h₂ : Walk rt k₂ (GENESIS, 0) ws acc₂)
    (hhead : acc₁.1 = acc₂.1) : rs.map sortedBody = ws.map sortedBody := by
  obtain ⟨hl₁, hh₁⟩ := h₁.bodies (fun r hm => (hr r hm).nodup)
  obtain ⟨hl₂, hh₂⟩ := h₂.bodies (fun w hm => (hw w hm).nodup)
  have hbody : ∀ b, b ∈ rs.map sortedBody ∨ b ∈ ws.map sortedBody →
      ∃ a, (Appears rt p d a ∨ Appears rt q e a) ∧ sortedBody a = b := by
    rintro b (hb | hb) <;> obtain ⟨a, ha, rfl⟩ := List.mem_map.mp hb
    · exact ⟨a, Or.inl (hr a ha), rfl⟩
    · exact ⟨a, Or.inr (hw a ha), rfl⟩
  refine eq_of_head_eq hl₁ hl₂ (fun b hb => ?_) (fun b hb c hc' hbc => ?_) (by rw [hh₁, hh₂, hhead])
  · obtain ⟨a, ha, rfl⟩ := hbody b hb
    intro h
    have hg : digest rt (sortedBody a) = GENESIS := Json.str.inj (Option.some.inj h)
    rw [digest_sortedBody] at hg
    exact hc.not_genesis a ha hg
  · obtain ⟨a, ha, rfl⟩ := hbody b (Or.inl hb)
    obtain ⟨a', ha', rfl⟩ := hbody c (Or.inr hc')
    have hd : digest rt (sortedBody a) = digest rt (sortedBody a') :=
      Json.str.inj (Option.some.inj hbc)
    rw [digest_sortedBody, digest_sortedBody] at hd
    exact hc.injective a a' ha ha' hd

/-- The walk up to a record ends at that record's digest. -/
theorem Walk.upTo {key : String} {acc acc' : String × Nat} {pre post : List Dict} {d : Dict}
    (h : Walk rt key acc (pre ++ d :: post) acc') {s : String}
    (hs : Json.get d "hash" = some (.str s)) : ∃ n, Walk rt key acc (pre ++ [d]) (s, n) := by
  have hsplit : pre ++ d :: post = (pre ++ [d]) ++ post := by rw [List.append_assoc]; rfl
  rw [hsplit] at h
  obtain ⟨mid, hmid, -⟩ := h.split
  have hmid' := hmid.head_eq
  rw [head_concat] at hmid'
  obtain ⟨m, n⟩ := mid
  obtain rfl : s = m := Json.str.inj (Option.some.inj (hs.symm.trans hmid'))
  exact ⟨n, hmid⟩

/-! ## Records of any file -/

section Bodies

variable {V : Type}

/-- `{k: v for k, v in rec.items() if k not in ("hash", "mac")}`. -/
def JsonLibrary.body (L : JsonLibrary V) (d : List (V × V)) : List (V × V) :=
  L.without d ["hash", "mac"]

/-- A `dict` that was read from a line, without `hash` and `mac`. -/
def JsonLibrary.IsBody (L : JsonLibrary V) (b : List (V × V)) : Prop :=
  ∃ t rec d, L.loads t = .ok rec ∧ L.asDict rec = some d ∧ L.body d = b

/-- What `_canonical` promises: bodies that it prints alike are the same `dict`, and the same `dict`
has the same texts. -/
structure JsonLibrary.PrintsAll (L : JsonLibrary V) (Same : List (V × V) → List (V × V) → Prop) :
    Prop where
  same : ∀ a b x, L.IsBody a → L.IsBody b → L.canonical a = .ok x → L.canonical b = .ok x → Same a b
  getStr : ∀ a b k, L.IsBody a → L.IsBody b → Same a b → L.getStr a k = L.getStr b k

variable (L : JsonLibrary V)

/-- The records that lines hold; a blank line holds none. -/
def lineRecords (ls : List FileLine) : List (List (V × V)) :=
  ls.filterMap fun l => l.chars.bind fun t =>
    if blank t then none else (L.loads t).toOption.bind L.asDict

/-- The records of the files, in the order `verify` walks them. -/
def contentRecords (handed : Bytes → Nat) (files : List (String × Bytes)) : List (List (V × V)) :=
  lineRecords L (chainLines handed files)

/-- What is assumed of SHA-256 on bodies: it tells their canonical JSON apart, and never yields the
digest a chain starts from. -/
structure DigestsApart (rt : Runtime) (bodies : List (List (V × V))) : Prop where
  injective : ∀ a ∈ bodies, ∀ b ∈ bodies, ∀ x y, L.canonical a = .ok x → L.canonical b = .ok y →
    (rt.sha256 x).text = (rt.sha256 y).text → x = y
  not_genesis : ∀ a ∈ bodies, ∀ x, L.canonical a = .ok x → (rt.sha256 x).text ≠ GENESIS

/-- How the bodies of any file are linked. -/
def contentLinks (rt : Runtime) : Links (List (V × V)) (Option String) where
  prev := fun b => L.getStr b "prev_hash"
  hash := fun b => (bodyDigest L rt b).toOption

variable {L}

/-- `prev_hash` stays when `hash` and `mac` go. -/
theorem getStr_body_prev (d : List (V × V)) :
    L.getStr (L.body d) "prev_hash" = L.getStr d "prev_hash" := by
  unfold JsonLibrary.getStr JsonLibrary.get JsonLibrary.body JsonLibrary.without
  rw [List.find?_filter]
  refine congrArg (fun e : Option (V × V) => (e.map Prod.snd).bind L.asStr)
    (congrArg (d.find? ·) ?_)
  funext e
  by_cases hk : L.asStr e.1 = some "prev_hash"
  · simp [hk]
  · simp [hk]

/-- A valid record is what its line holds. -/
theorem ValidRecord.record {key prev hash : String} {t : Text}
    (h : ValidRecord L rt key prev t hash) :
    ∃ d x, (L.loads t).toOption.bind L.asDict = some d ∧ L.IsBody (L.body d) ∧
      L.getStr d "prev_hash" = some prev ∧ L.canonical (L.body d) = .ok x ∧
      (rt.sha256 x).text = hash ∧ L.getStr d "hash" = some hash := by
  obtain ⟨rec, d, x, hl, hd, hp, hx, hsha, hh, -⟩ := h
  refine ⟨d, x, ?_, ⟨t, rec, d, hl, hd, rfl⟩, hp, hx, hsha, hh⟩
  rw [hl]
  exact hd

theorem lineRecords_append (ls ms : List FileLine) :
    lineRecords L (ls ++ ms) = lineRecords L ls ++ lineRecords L ms := List.filterMap_append

/-- What `verify` has checked of a record: its body can be encoded, and `hash` is the digest. -/
def Digested (L : JsonLibrary V) (rt : Runtime) (d : List (V × V)) : Prop :=
  L.IsBody (L.body d) ∧ ∃ x, L.canonical (L.body d) = .ok x ∧
  L.getStr d "hash" = some (rt.sha256 x).text

/-- Lines that pass hold a chain of bodies. -/
theorem Passes.linked {key : String} {acc acc' : String × Nat} {ls : List FileLine}
    (h : Passes L rt key acc ls acc') :
    HashChain.Linked (contentLinks L rt) (some acc.1) ((lineRecords L ls).map L.body) ∧
      HashChain.head (contentLinks L rt) (some acc.1)
        ((lineRecords L ls).map L.body) = some acc'.1 ∧
      ∀ d ∈ lineRecords L ls, Digested L rt d := by
  induction h with
  | nil acc => exact ⟨trivial, rfl, fun d hd => absurd hd List.not_mem_nil⟩
  | @blank acc acc' l rest t hl hb _ ih =>
    have hskip : lineRecords L (l :: rest) = lineRecords L rest := by
      simp [lineRecords, hl, hb]
    rw [hskip]
    exact ih
  | @record acc acc' l rest t hash hl hb hv _ ih =>
    obtain ⟨d, x, hd, hbody, hp, hx, hsha, hh⟩ := hv.record
    obtain ⟨hlinked, hhead, hall⟩ := ih
    have hcons : lineRecords L (l :: rest) = d :: lineRecords L rest := by
      simp [lineRecords, hl, hb, hd]
    have hhash : (contentLinks L rt).hash (L.body d) = some hash := by
      rw [contentLinks, ← hsha]
      dsimp only
      rw [bodyDigest, hx]
      rfl
    rw [hcons, List.map_cons, linked_cons, HashChain.head, hhash]
    refine ⟨⟨(getStr_body_prev d).trans hp, hlinked⟩, hhead, fun e he => ?_⟩
    rcases List.mem_cons.mp he with rfl | he
    · exact ⟨hbody, x, hx, by rw [hh, hsha]⟩
    · exact hall e he

theorem Digested.hash {d : List (V × V)} (h : Digested L rt d) :
    (contentLinks L rt).hash (L.body d) = L.getStr d "hash" := by
  obtain ⟨-, x, hx, hh⟩ := h
  rw [hh, contentLinks]
  dsimp only
  rw [bodyDigest, hx]
  rfl

variable {Same : List (V × V) → List (V × V) → Prop}

/-- Lines that pass from `GENESIS` to one head hold the same bodies. -/
theorem same_of_passes (hL : L.PrintsAll Same) {k₁ k₂ : String} {ls ms : List FileLine}
    {acc₁ acc₂ : String × Nat} (h₁ : Passes L rt k₁ (GENESIS, 0) ls acc₁)
    (h₂ : Passes L rt k₂ (GENESIS, 0) ms acc₂) (hhead : acc₁.1 = acc₂.1)
    {bodies : List (List (V × V))} (hd : DigestsApart L rt bodies)
    (hls : (lineRecords L ls).map L.body ⊆ bodies) (hms : (lineRecords L ms).map L.body ⊆ bodies) :
    List.Forall₂ Same ((lineRecords L ls).map L.body) ((lineRecords L ms).map L.body) := by
  obtain ⟨hl₁, hh₁, hall₁⟩ := h₁.linked
  obtain ⟨hl₂, hh₂, hall₂⟩ := h₂.linked
  have hbody : ∀ b, b ∈ (lineRecords L ls).map L.body ∨ b ∈ (lineRecords L ms).map L.body →
      b ∈ bodies ∧ L.IsBody b ∧ ∃ x, L.canonical b = .ok x ∧
        (contentLinks L rt).hash b = some (rt.sha256 x).text := by
    rintro b (hb | hb)
    · obtain ⟨d, hm, rfl⟩ := List.mem_map.mp hb
      obtain ⟨hi, x, hx, hh⟩ := hall₁ d hm
      exact ⟨hls hb, hi, x, hx, (hall₁ d hm).hash.trans hh⟩
    · obtain ⟨d, hm, rfl⟩ := List.mem_map.mp hb
      obtain ⟨hi, x, hx, hh⟩ := hall₂ d hm
      exact ⟨hms hb, hi, x, hx, (hall₂ d hm).hash.trans hh⟩
  refine forall₂_of_head_eq hl₁ hl₂ (fun b hb => ?_) (fun a ha b hb hab => ?_)
    (fun a ha b hb hab => ?_) (by rw [hh₁, hh₂, hhead])
  · obtain ⟨hm, -, x, hx, hh⟩ := hbody b hb
    rw [hh]
    exact fun h => hd.not_genesis b hm x hx (Option.some.inj h)
  · obtain ⟨hma, hia, x, hx, hha⟩ := hbody a (.inl ha)
    obtain ⟨hmb, hib, y, hy, hhb⟩ := hbody b (.inr hb)
    rw [hha, hhb] at hab
    obtain rfl := hd.injective a hma b hmb x y hx hy (Option.some.inj hab)
    exact hL.same a b x hia hib hx hy
  · obtain ⟨-, hia, -⟩ := hbody a (.inl ha)
    obtain ⟨-, hib, -⟩ := hbody b (.inr hb)
    exact hL.getStr a b _ hia hib hab

/-- The lines up to a record pass, and end at that record's `hash`. -/
theorem Passes.upToRecord {key s : String} {acc acc' : String × Nat} {ls : List FileLine}
    {pre post : List (List (V × V))} {d : List (V × V)} (h : Passes L rt key acc ls acc')
    (hls : lineRecords L ls = pre ++ d :: post) (hs : L.getStr d "hash" = some s) :
    ∃ before n, Passes L rt key acc before (s, n) ∧ lineRecords L before = pre ++ [d] := by
  have hsplit : lineRecords L ls = (pre ++ [d]) ++ post := by rw [hls, List.append_assoc]; rfl
  obtain ⟨before, after, rfl, hbefore, -⟩ := List.filterMap_eq_append_iff.mp hsplit
  obtain ⟨⟨s', n⟩, hmid, -⟩ := h.split
  obtain ⟨-, hhead, hall⟩ := hmid.linked
  have hrecords : lineRecords L before = pre ++ [d] := hbefore
  rw [hrecords] at hhead hall
  rw [List.map_append, List.map_singleton, head_concat,
    (hall d (List.mem_append_right _ (List.mem_singleton_self d))).hash, hs] at hhead
  obtain rfl := Option.some.inj hhead
  exact ⟨before, n, hmid, hrecords⟩

theorem passes_of_ok {handed : Bytes → Nat} {key : String} {files : List (String × Bytes)}
    {r : VerifyResult} (h : verifyContents L rt handed key files = .ok r) (hok : r.ok = true) :
    ∃ n, Passes L rt key (GENESIS, 0) (chainLines handed files) (r.head, n) := by
  have hends := @checkFiles_ends V L rt key handed files.length files (GENESIS, 0)
  unfold verifyContents at h
  cases hc : checkFiles L rt handed key files.length files (GENESIS, 0) with
  | ok acc =>
    rw [hc] at h hends
    obtain rfl := Except.ok.inj h
    exact ⟨acc.2, hends.2⟩
  | error e =>
    rw [hc] at h hends
    cases e with
    | returned r' =>
      obtain rfl := Except.ok.inj h
      rw [hends.1] at hok
      cases hok
    | raised e => cases h

/-- **A head determines the history.**  Take two sets of chain files with any content, each accepted
by `verify` with some key or none.  If the two calls report the same head, the chains have the same
record bodies; and if a record of the second carries the head of the first, the second chain up to
that record has the bodies of the first. -/
theorem head_determines_history {V : Type} (L : JsonLibrary V)
    (Same : List (V × V) → List (V × V) → Prop) (hL : L.PrintsAll Same) (rt : Runtime)
    (handed : Bytes → Nat) (files₁ files₂ : List (String × Bytes)) (k₁ k₂ : String)
    (r₁ r₂ : VerifyResult) (h₁ : verifyContents L rt handed k₁ files₁ = .ok r₁)
    (h₂ : verifyContents L rt handed k₂ files₂ = .ok r₂) (hok₁ : r₁.ok = true) (hok₂ : r₂.ok = true)
    (hd : DigestsApart L rt ((contentRecords L handed files₁ ++
      contentRecords L handed files₂).map L.body)) :
    (r₁.head = r₂.head → List.Forall₂ Same ((contentRecords L handed files₁).map L.body)
      ((contentRecords L handed files₂).map L.body)) ∧
    ∀ pre r post, contentRecords L handed files₂ = pre ++ r :: post →
      L.getStr r "hash" = some r₁.head →
      List.Forall₂ Same ((contentRecords L handed files₁).map L.body)
        ((pre ++ [r]).map L.body) := by
  obtain ⟨n₁, hp₁⟩ := passes_of_ok h₁ hok₁
  obtain ⟨n₂, hp₂⟩ := passes_of_ok h₂ hok₂
  rw [List.map_append] at hd
  refine ⟨fun hhead => ?_, fun pre r post hsplit hhash => ?_⟩
  · exact same_of_passes hL hp₁ hp₂ hhead hd (List.subset_append_left ..)
      (List.subset_append_right ..)
  · obtain ⟨before, n, hup, hrecords⟩ := hp₂.upToRecord hsplit hhash
    have hsub : (lineRecords L before).map L.body ⊆
        (contentRecords L handed files₂).map L.body := by
      rw [hrecords, hsplit]
      refine List.map_subset _ fun d hd => ?_
      rw [List.append_cons]
      exact List.mem_append_left _ hd
    have hsame := same_of_passes hL hp₁ hup rfl hd (List.subset_append_left ..)
      (fun b hb => List.mem_append_right _ (hsub hb))
    rwa [hrecords] at hsame

end Bodies

/-! ## The values of `Json` -/

section Library

/-- The fields of items whose keys are texts. -/
def fieldsOf (items : List (Json × Json)) : Dict :=
  items.filterMap (fun e => (strOf e.1).map (fun k => (k, e.2)))

/-- The same `dict`, in whatever order its keys stand. -/
def SameItems (a b : List (Json × Json)) : Prop :=
  Json.sortedFields (fieldsOf a) = Json.sortedFields (fieldsOf b)

theorem fieldsOf_items (d : Dict) : fieldsOf (itemsOf d) = d := filterMap_items d

theorem library_body (d : Dict) : rt.library.body (itemsOf d) = itemsOf (bodyOf d) :=
  library_without rt d _

theorem library_isBody {b : List (Json × Json)} (h : rt.library.IsBody b) :
    ∃ d, b = itemsOf d ∧ (d.map Prod.fst).Nodup := by
  obtain ⟨t, rec, d, hl, hd, rfl⟩ := h
  rw [library_loads] at hl
  obtain ⟨j, hj, hjr⟩ : ∃ j, rt.loads t = some j ∧ j = rec := by
    cases hj : rt.loads t with
    | none =>
      rw [hj] at hl
      cases hl
    | some j =>
      rw [hj] at hl
      exact ⟨j, rfl, Except.ok.inj hl⟩
  subst hjr
  cases j with
  | obj f =>
    obtain rfl := Option.some.inj hd
    have hnodup := (Json.distinctKeys_obj_iff.mp (rt.loads_distinctKeys t _ hj)).1
    exact ⟨bodyOf f, library_body f, hnodup.sublist (List.filter_sublist.map Prod.fst)⟩
  | _ => cases hd

/-- A text in a `dict` stays when its keys are sorted. -/
theorem get_str_sortedFields {d : Dict} (hd : (d.map Prod.fst).Nodup) (k s : String) :
    Json.get (Json.sortedFields d) k = some (.str s) ↔ Json.get d k = some (.str s) := by
  rw [Json.get_sortedFields hd, Option.map_eq_some_iff]
  constructor
  · rintro ⟨j, hj, hs⟩
    cases j <;> first | cases hs; exact hj | cases hs
  · exact fun h => ⟨_, h, rfl⟩

/-- **The runtime's `json` prints all of a `dict`.** -/
theorem library_printsAll (rt : Runtime) : rt.library.PrintsAll SameItems := by
  constructor
  case same =>
    intro a b x ha hb hx hy
    have hprinted : canonical (fieldsOf a) = canonical (fieldsOf b) :=
      Except.ok.inj (hx.trans hy.symm)
    have hsorted := dumps_injective (utf8_injective hprinted)
    rwa [Json.sortKeys_obj, Json.sortKeys_obj, Json.obj.injEq] at hsorted
  case getStr =>
    intro a b k ha hb hab
    obtain ⟨d, rfl, hd⟩ := library_isBody ha
    obtain ⟨e, rfl, he⟩ := library_isBody hb
    rw [SameItems, fieldsOf_items, fieldsOf_items] at hab
    have htext : ∀ s, rt.library.getStr (itemsOf d) k = some s ↔
        rt.library.getStr (itemsOf e) k = some s := by
      intro s
      rw [library_getStr, library_getStr, ← get_str_sortedFields hd, hab, get_str_sortedFields he]
    exact Option.ext htext

/-- The records of a file. -/
theorem lineRecords_library {content : Bytes} {js : List Json}
    (h : fileRecords rt content = some js) :
    lineRecords rt.library (fileLines (fun _ => 0) content) = js.filterMap rt.library.asDict := by
  obtain ⟨ls, hls, hjs⟩ := Option.bind_eq_some_iff.mp h
  rw [textLines, Option.map_eq_some_iff] at hls
  obtain ⟨t, ht, rfl⟩ := hls
  rw [fileLines, ht]
  dsimp only
  clear h
  generalize lines (universal t) = ls at hjs
  induction ls generalizing js with
  | nil =>
    obtain rfl := Option.some.inj hjs
    rfl
  | cons l ls ih =>
    by_cases hb : blank l = true
    · rw [List.filter_cons_of_neg (by simp [hb])] at hjs
      have hskip : lineRecords rt.library ((l :: ls).map .text) = lineRecords rt.library
          (ls.map .text) := by
        simp [lineRecords, FileLine.chars, hb]
      rw [hskip, ih hjs]
    · rw [List.filter_cons_of_pos (by simp [hb]), List.mapM_cons] at hjs
      obtain ⟨j, hj, hjs⟩ := Option.bind_eq_some_iff.mp hjs
      obtain ⟨js', hjs', hcons⟩ := Option.bind_eq_some_iff.mp hjs
      obtain rfl := Option.some.inj hcons
      have hvalue : (if blank l = true then none else (rt.library.loads l).toOption.bind
        rt.library.asDict) = rt.library.asDict j := by
        rw [if_neg hb, library_loads, hj]
        rfl
      have hhead : lineRecords rt.library [.text l] = [j].filterMap rt.library.asDict := by
        simp only [lineRecords, List.filterMap_cons, List.filterMap_nil, FileLine.chars,
          Option.bind_some, hvalue]
      rw [List.map_cons, ← List.singleton_append, lineRecords_append, hhead, ih hjs',
        ← List.filterMap_append, List.singleton_append]

/-- The records of a chain are those `verify` walks. -/
theorem contentRecords_library {p : ChainPath} {d : Dir Bytes} {rs : List Dict}
    (h : chainRecords rt p d = some (rs.map .obj)) :
    contentRecords rt.library (fun _ => 0)
      ((chainFiles p d).map (fun n => (n, (d.read n).getD []))) =
      rs.map itemsOf := by
  have hfiles : ∀ (names : List String) (js : List Json), recordsOf rt d names = some js →
      contentRecords rt.library (fun _ => 0) (names.map (fun n => (n, (d.read n).getD []))) =
        js.filterMap rt.library.asDict := by
    intro names
    induction names with
    | nil =>
      intro js hjs
      obtain rfl := Option.some.inj hjs
      rfl
    | cons n names ih =>
      intro js hjs
      rw [recordsOf, Option.map_eq_some_iff] at hjs
      obtain ⟨gs, hgs, rfl⟩ := hjs
      obtain ⟨content, hread, hgs⟩ := Option.bind_eq_some_iff.mp hgs
      obtain ⟨ks, hks, hgs⟩ := Option.bind_eq_some_iff.mp hgs
      obtain ⟨gs', hgs', rfl⟩ := Option.map_eq_some_iff.mp hgs
      have hrest := ih gs'.flatten (congrArg (Option.map List.flatten) hgs')
      rw [contentRecords, chainLines] at hrest
      rw [contentRecords, chainLines, List.map_cons, List.flatMap_cons, lineRecords_append, hrest,
        hread, Option.getD_some, lineRecords_library hks, List.flatten_cons, List.filterMap_append]
  rw [hfiles _ _ h, List.filterMap_map]
  exact congrFun List.filterMap_eq_map rs

end Library

/-- The records of the sample in one file that was never rotated. -/
def sampleOneFile : Dir Bytes :=
  Dir.empty.write sampleLog.path.active
    (utf8 (dumps lineStyle (.obj (sealed Runtime.python "k" sampleBody)) ++ ['\n']) ++
      utf8 (dumps lineStyle (.obj (sealed Runtime.python "k" sampleMarkerBody)) ++ ['\n']))

/-- The records of the sample, as they read back. -/
def sampleRecords : List Dict :=
  [stored Runtime.python "k" sampleBody, stored Runtime.python "k" sampleMarkerBody]

theorem sampleOneFile_represents :
    Represents Runtime.python sampleLog.path sampleOneFile ⟨[], sampleRecords⟩ := by
  have hmark : IsBody sampleMarkerBody := markerBody_isBody _ _ _ rfl
  have hempty := (Consistent.empty Runtime.python sampleClock sampleLog.path "k").represents
  have hone := appended_holds (holds_nil : Holds Runtime.python [] []) lineStyle "k"
    sampleBody_isBody
  rw [List.nil_append, List.nil_append] at hone
  exact hempty.setActive (fun n => Dir.read_write _ _ _ n) (appended_holds hone lineStyle "k" hmark)

theorem sampleRecords_accepted : Accepted Runtime.python "k" sampleRecords := by
  have hst : Stored Runtime.python "k" GENESIS (stored Runtime.python "k" sampleBody) :=
    stored_record Runtime.python sampleLog (sampleCall "a").entry (sampleCall "a").stamp 1 GENESIS
  have hmark : Stored Runtime.python "k" sampleHash (stored Runtime.python "k" sampleMarkerBody) :=
    stored_marker Runtime.python sampleLog (sampleCall "a").markerStamp
      "audit.20250101T000000.000000001Z.jsonl" sampleHash
  have hfirst : Accepted Runtime.python "k" [stored Runtime.python "k" sampleBody] :=
    ((Ledger.Sound.empty Runtime.python "k").append rfl hst).accepted
  have hhead : HashChain.head chainLinks genesis [stored Runtime.python "k" sampleBody] =
      some (.str sampleHash) := by
    rw [show [stored Runtime.python "k" sampleBody] = [] ++
      [stored Runtime.python "k" sampleBody] from rfl, head_concat]
    exact (get_parsed_hash _ _ sampleBody_isBody).trans
      (congrArg (fun s => some (Json.str s)) digest_sampleBody)
  exact hfirst.concat hhead hmark

/-- The chain files of the sample with their contents. -/
def sampleContents (d : Dir Bytes) : List (String × Bytes) :=
  (chainFiles sampleLog.path d).map (fun n => (n, (d.read n).getD []))

/-- The digests of the sample's bodies differ. -/
theorem sample_digestsApart {d e : Dir Bytes}
    (hd : Represents Runtime.python sampleLog.path d sampleLedger)
    (he : Represents Runtime.python sampleLog.path e ⟨[], sampleRecords⟩) :
    DigestsApart Runtime.python.library Runtime.python
      ((contentRecords Runtime.python.library (fun _ => 0) (sampleContents d) ++
        contentRecords Runtime.python.library (fun _ => 0) (sampleContents e)).map
          Runtime.python.library.body) := by
  have hu := sample_unforgeable hd
  have hmem : ∀ b ∈ (contentRecords Runtime.python.library (fun _ => 0) (sampleContents d) ++
      contentRecords Runtime.python.library (fun _ => 0) (sampleContents e)).map
        Runtime.python.library.body, ∃ r, Appears Runtime.python sampleLog.path d r ∧
        b = itemsOf (bodyOf r) := by
    intro b hb
    have hrecords : b ∈ (sampleRecords.map itemsOf ++ sampleRecords.map itemsOf).map
        Runtime.python.library.body := by
      rwa [sampleContents, sampleContents, contentRecords_library hd.chainRecords,
        contentRecords_library he.chainRecords] at hb
    obtain ⟨i, hi, rfl⟩ := List.mem_map.mp hrecords
    obtain ⟨r, hr, rfl⟩ := List.mem_map.mp (by simpa using hi : i ∈ sampleRecords.map itemsOf)
    exact ⟨r, hd.appears_iff.mpr hr, library_body r⟩
  have hprint : ∀ r x, Runtime.python.library.canonical (itemsOf (bodyOf r)) = .ok x →
      x = canonical (bodyOf r) := by
    intro r x hx
    rw [← Except.ok.inj hx, filterMap_items]
  constructor
  case injective =>
    intro a ha b hb x y hx hy hxy
    obtain ⟨r, hr, rfl⟩ := hmem a ha
    obtain ⟨s, hs, rfl⟩ := hmem b hb
    obtain rfl := hprint r x hx
    obtain rfl := hprint s y hy
    exact congrArg utf8 (congrArg (render canonicalStyle) (congrArg Json.obj
      (hu.injective r s (.inl hr) (.inl hs) hxy)))
  case not_genesis =>
    intro a ha x hx
    obtain ⟨r, hr, rfl⟩ := hmem a ha
    obtain rfl := hprint r x hx
    exact hu.not_genesis r hr

theorem head_determines_history_sample : ∃ w r₁ r₂,
    verify Runtime.python sampleLog.path w "k" = .ok r₁ ∧
    verify Runtime.python sampleLog.path sampleOneFile "" = .ok r₂ ∧
    List.Forall₂ SameItems
      ((contentRecords Runtime.python.library (fun _ => 0) (sampleContents w)).map
        Runtime.python.library.body)
      ((contentRecords Runtime.python.library (fun _ => 0) (sampleContents sampleOneFile)).map
        Runtime.python.library.body) := by
  obtain ⟨-, w, -, hw⟩ := sample_run
  have hone := sampleOneFile_represents
  have hacc := sampleRecords_accepted
  have hkeyless : Accepted Runtime.python "" sampleRecords :=
    ⟨hacc.linked, fun d hd => ⟨(hacc.genuine d hd).hash, fun hk => absurd rfl hk⟩⟩
  obtain ⟨acc₁, hw₁⟩ := Walk.of_accepted hacc
  obtain ⟨acc₂, hw₂⟩ := Walk.of_accepted hkeyless
  obtain ⟨h₁, hok₁⟩ := verify_eq_ok_iff.mpr ⟨_, acc₁, hw.chainRecords, hw₁, rfl⟩
  obtain ⟨h₂, hok₂⟩ := verify_eq_ok_iff.mpr ⟨_, acc₂, hone.chainRecords, hw₂, rfl⟩
  have hheads : acc₁.1 = acc₂.1 :=
    Json.str.inj (Option.some.inj (hw₁.head_eq.symm.trans hw₂.head_eq))
  have h := head_determines_history Runtime.python.library SameItems (library_printsAll _)
    Runtime.python (fun _ => 0) (sampleContents w.dir) (sampleContents sampleOneFile) "k" "" _ _
    ((verifyContents_eq_verify _ _ _ _).trans h₁)
    ((verifyContents_eq_verify _ _ _ _).trans h₂) hok₁ hok₂
    (sample_digestsApart hw hone)
  exact ⟨w.dir, _, _, h₁, h₂, h.1 hheads⟩

end ComplianceMcp
