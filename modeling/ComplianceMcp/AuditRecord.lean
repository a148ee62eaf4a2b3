import ComplianceMcp.JsonRoundTrip
import ComplianceMcp.Sha256

/-! # Audit records

What one audit record is: the body `AuditLog.write` and `AuditLog._rotate` build, the
digest and MAC added to it, and the line it becomes.  The writer prints a body with
`", "` separators, the rotation marker is printed with `ensure_ascii`, and the digest
is taken over a third form, compact and without `ensure_ascii`; all three sort their
keys, so they agree after a parse (`digest_parsed`).

`Runtime` is what the code takes from Python: hashing, `json.loads`, `str.lower` and
the two float operations a foreign `seq` could meet.  Its laws are the documented
behaviour of `json`; `Runtime.python` is an instance of it. -/
namespace ComplianceMcp

open PyJson PyText Sha256

/-! ## Exceptions -/

/-- The exceptions the modelled code raises or lets through. -/
inductive PyError where
  | jsonDecodeError
  | unicodeDecodeError
  | keyError
  | typeError
  | attributeError
  | fileNotFoundError
  | assertionError
  | valueError (message : String)
  | accessDenied (message : String)
  | rateLimited (message : String)
  | draftRejected (message : String)
  | invalidInput (message : String)
  | validationError
  | notFound (message : String)
  | draftConflict (message : String)
  | exportRefused (message : String)
  | tokenInvalid (message : String)
  | other
  deriving DecidableEq, Repr

/-! ## What Python supplies -/

/-- The parts of the Python runtime the audit log rests on. -/
structure Runtime where
  /-- `hashlib.sha256(b).hexdigest()`. -/
  sha256 : Bytes → HexDigest
  /-- `hmac.new(key, b, hashlib.sha256).hexdigest()`. -/
  hmacSha256 : Bytes → Bytes → HexDigest
  /-- `json.loads(t)`, `none` where it raises.  A `str` with a lone surrogate is no `Json`: for a
  text that holds one the value is left open.  So it is for integers and nestings beyond the limits
  of the interpreter, which neither reads nor prints them. -/
  loads : Text → Option Json
  /-- `s.lower()`. -/
  lower : String → String
  /-- `x + 1` on floats. -/
  floatSucc : Binary64 → Binary64
  /-- `x % n == 0` on floats. -/
  floatDivisible : Binary64 → Nat → Bool
  /-- Decoding undoes encoding. -/
  loads_dumps : ∀ (st : Style) (j : Json) (v w : Text), j.distinctKeys = true → v.all isWs = true →
    w.all isWs = true → loads (v ++ (dumps st j ++ w)) = some j.sortKeys
  /-- A value shows in its first character. -/
  loads_opensWith : ∀ (v : Text) (c : Char) (t : Text) (j : Json), v.all isWs = true →
    isWs c = false → loads (v ++ c :: t) = some j → j.OpensWith c
  /-- A `dict` has each key once. -/
  loads_distinctKeys : ∀ (t : Text) (j : Json), loads t = some j → j.distinctKeys = true
  /-- An object cut short is no JSON text. -/
  loads_truncated : ∀ (st : Style) (d : Dict) (p s : Text), dumps st (.obj d) = p ++ s → s ≠ [] →
    loads p = none
  /-- Neither is an object followed by more than white space. -/
  loads_extra : ∀ (t : Text) (d : Dict) (c : Char) (u : Text), loads t = some (.obj d) →
    isWs c = false → loads (t ++ c :: u) = none

/-- Python's own hashing, JSON and floats; `lower` on the letters of ASCII. -/
def Runtime.python : Runtime where
  sha256 := Sha256.sha256
  hmacSha256 := Sha256.hmacSha256
  loads := PyJson.loads
  lower := fun s => String.ofList (s.toList.map Char.toLower)
  floatSucc := Binary64.succ
  floatDivisible := fun x n => x.divisible n
  loads_dumps := fun st _ _ _ hj hv hw => PyJson.loads_dumps st hj hv hw
  loads_opensWith := fun _ _ _ _ hv hc h => PyJson.loads_opensWith hv hc h
  loads_distinctKeys := fun t j h => by
    obtain ⟨k, -, rfl⟩ := Option.map_eq_some_iff.mp h
    exact Json.distinctKeys_dedupe k
  loads_truncated := fun _ _ _ _ h hs => PyJson.loads_truncated h hs
  loads_extra := fun _ _ _ u h hc => PyJson.loads_extra h hc u

variable (rt : Runtime)

/-! ## Serialisations -/

/-- `json.dumps(body, sort_keys=True, ensure_ascii=False)`: the line of a record. -/
def lineStyle : Style := ⟨true, false⟩

/-- `json.dumps(marker, sort_keys=True)`: the line of a rotation marker. -/
def markerStyle : Style := ⟨true, true⟩

/-- `separators=(",", ":"), ensure_ascii=False`. -/
def canonicalStyle : Style := ⟨false, false⟩

/-- `"0" * 64`. -/
def GENESIS : String := "0000000000000000000000000000000000000000000000000000000000000000"

/-- `_canonical(record)`. -/
def canonical (record : Dict) : Bytes := utf8 (dumps canonicalStyle (.obj record))

/-- `_digest(record_without_hash)`. -/
def digest (record : Dict) : String := (rt.sha256 (canonical record)).text

/-- `_mac(key, record_hash)`. -/
def mac (key recordHash : String) : String :=
  (rt.hmacSha256 (utf8 key.toList) (utf8 recordHash.toList)).text

/-- The words that make a key look secret. -/
def secretWords : List String := ["token", "secret", "password", "api_key"]

/-- `redact(args)`. -/
def redact (args : Dict) : Dict :=
  args.map (fun f =>
    (f.1, if secretWords.any (fun s => contains (rt.lower f.1).toList s.toList)
      then .str "[redacted]" else f.2))

/-! ## Records -/

/-- The path of an active file, by its `stem` and `suffix`; every file of its chain is
in one directory. -/
structure ChainPath where
  stem : String
  suffix : String
  deriving DecidableEq

/-- The name of the active file. -/
def ChainPath.active (p : ChainPath) : String := p.stem ++ p.suffix

/-- `f"{stem}.{stamp}{suffix}"`. -/
def ChainPath.rotated (p : ChainPath) (stamp : String) : String :=
  p.stem ++ "." ++ stamp ++ p.suffix

/-- The parameters of one `AuditLog` instance. -/
structure AuditLog where
  path : ChainPath
  agentId : String
  hmacKey : String
  rotateBytes : Int
  forwards : Bool
  anchorEvery : Nat

/-- The keyword arguments of one `write` call.  `args` is a `dict`, so none of its
objects repeats a key. -/
structure Entry where
  requester : String
  tool : String
  args : Dict
  outcome : String
  resultSummary : String
  sessionId : String
  directoryVersion : String
  args_dict : (Json.obj args).distinctKeys = true

/-- What a call draws from its surroundings for one record: `uuid.uuid4()` and `_utc_now()`. -/
structure Stamp where
  id : String
  ts : String
  deriving DecidableEq

/-- `s[:n]`. -/
def takeChars (n : Nat) (s : String) : String := String.ofList (s.toList.take n)

/-- The body `write` builds before it hashes it. -/
def recordBody (log : AuditLog) (e : Entry) (s : Stamp) (seq prevHash : Json) : Dict :=
  [("id", .str s.id),
    ("seq", seq),
    ("ts", .str s.ts),
    ("agent_id", .str log.agentId),
    ("requester", .str e.requester),
    ("session_id", .str e.sessionId),
    ("directory_version", .str e.directoryVersion),
    ("tool", .str e.tool),
    ("args", .obj (redact rt e.args)),
    ("outcome", .str e.outcome),
    ("result_summary", .str (takeChars 2000 e.resultSummary)),
    ("prev_hash", prevHash)]

/-- The body `_rotate` builds for the marker. -/
def markerBody (log : AuditLog) (s : Stamp) (rotated : String) (head : Json) : Dict :=
  [("id", .str s.id),
    ("seq", .int 0),
    ("ts", .str s.ts),
    ("agent_id", .str log.agentId),
    ("requester", .str ""),
    ("session_id", .str ""),
    ("directory_version", .str ""),
    ("tool", .str "audit_rotate"),
    ("args", .obj [("continues", .str rotated)]),
    ("outcome", .str "ok"),
    ("result_summary", .str ("chain continues from " ++ rotated)),
    ("prev_hash", head)]

/-- `body["hash"] = _digest(body)` and, with a key, `body["mac"] = _mac(...)`. -/
def sealed (key : String) (body : Dict) : Dict :=
  let hash := digest rt body
  let body := body ++ [("hash", .str hash)]
  if key = "" then body else body ++ [("mac", .str (mac rt key hash))]

/-- The dataclass `write` returns. -/
structure AuditRecord where
  id : Json
  ts : Json
  agentId : Json
  requester : Json
  sessionId : Json
  directoryVersion : Json
  tool : Json
  args : Json
  outcome : Json
  resultSummary : Json
  prevHash : Json
  hash : Json
  mac : Json
  deriving DecidableEq

/-- `body.get(k, "")`. -/
def field (body : Dict) (k : String) : Json := (Json.get body k).getD (.str "")

/-- `AuditRecord(**{k: body.get(k, "") for k in AuditRecord.__dataclass_fields__})`. -/
def AuditRecord.ofBody (body : Dict) : AuditRecord where
  id := field body "id"
  ts := field body "ts"
  agentId := field body "agent_id"
  requester := field body "requester"
  sessionId := field body "session_id"
  directoryVersion := field body "directory_version"
  tool := field body "tool"
  args := field body "args"
  outcome := field body "outcome"
  resultSummary := field body "result_summary"
  prevHash := field body "prev_hash"
  hash := field body "hash"
  mac := field body "mac"

/-- The record with the keys of its `args` in ascending order: `dict` equality does
not see their order. -/
def AuditRecord.sortKeys (r : AuditRecord) : AuditRecord where
  id := r.id.sortKeys
  ts := r.ts.sortKeys
  agentId := r.agentId.sortKeys
  requester := r.requester.sortKeys
  sessionId := r.sessionId.sortKeys
  directoryVersion := r.directoryVersion.sortKeys
  tool := r.tool.sortKeys
  args := r.args.sortKeys
  outcome := r.outcome.sortKeys
  resultSummary := r.resultSummary.sortKeys
  prevHash := r.prevHash.sortKeys
  hash := r.hash.sortKeys
  mac := r.mac.sortKeys

/-! ## What a sealed body reads back as -/

/-- A body as the writer builds it: a `dict` without a digest. -/
structure IsBody (b : Dict) : Prop where
  dict : (Json.obj b).distinctKeys = true
  noHash : "hash" ∉ b.map Prod.fst
  noMac : "mac" ∉ b.map Prod.fst

/-- A parsed record that carries the digest of its own body and, with a key, the MAC
of that digest. -/
structure Genuine (key : String) (rec : Dict) : Prop where
  hash : Json.get rec "hash" = some (.str (digest rt (Json.without rec ["hash", "mac"])))
  mac : key ≠ "" → Json.get rec "mac" =
    some (.str (mac rt key (digest rt (Json.without rec ["hash", "mac"]))))

theorem IsBody.nodup {b : Dict} (h : IsBody b) : (b.map Prod.fst).Nodup :=
  (Json.distinctKeys_obj_iff.mp h.dict).1

theorem get_append (d e : Dict) (k : String) :
    Json.get (d ++ e) k = (Json.get d k).or (Json.get e k) :=
  List.lookup_append

theorem get_eq_none {d : Dict} {k : String} (h : k ∉ d.map Prod.fst) : Json.get d k = none := by
  refine List.lookup_eq_none_iff.mpr (fun f hf => ?_)
  rw [bne_iff_ne]
  rintro rfl
  exact h (List.mem_map_of_mem hf)

theorem redact_keys (args : Dict) : (redact rt args).map Prod.fst = args.map Prod.fst := by
  rw [redact, List.map_map]
  rfl

theorem redact_dict {args : Dict} (h : (Json.obj args).distinctKeys = true) :
    (Json.obj (redact rt args)).distinctKeys = true := by
  rw [Json.distinctKeys_obj_iff] at h ⊢
  refine ⟨(redact_keys rt args).symm ▸ h.1, fun f hf => ?_⟩
  obtain ⟨g, hg, rfl⟩ := List.mem_map.mp hf
  show (if _ then Json.str "[redacted]" else g.2).distinctKeys = true
  split
  · rfl
  · exact h.2 g hg

/-- The keys of a body, in the order they are stored in. -/
def bodyKeys : List String :=
  ["id", "seq", "ts", "agent_id", "requester", "session_id", "directory_version", "tool", "args",
    "outcome", "result_summary", "prev_hash"]

theorem isBody_of_keys {b : Dict} (hk : b.map Prod.fst = bodyKeys)
    (hv : ∀ f ∈ b, f.2.distinctKeys = true) : IsBody b where
  dict := Json.distinctKeys_obj_iff.mpr ⟨by rw [hk]; decide, hv⟩
  noHash := by rw [hk]; decide
  noMac := by rw [hk]; decide

theorem recordBody_isBody (log : AuditLog) (e : Entry) (s : Stamp) {seq prevHash : Json}
    (hs : seq.distinctKeys = true) (hp : prevHash.distinctKeys = true) :
    IsBody (recordBody rt log e s seq prevHash) := by
  have ha := redact_dict rt e.args_dict
  refine isBody_of_keys rfl ?_
  simp only [recordBody, List.forall_mem_cons, ha, hs, hp, Json.distinctKeys_str, true_and]
  exact fun f hf => absurd hf List.not_mem_nil

theorem markerBody_isBody (log : AuditLog) (s : Stamp) (rotated : String) {head : Json}
    (hp : head.distinctKeys = true) : IsBody (markerBody log s rotated head) := by
  have hargs : (Json.obj [("continues", .str rotated)]).distinctKeys = true := rfl
  refine isBody_of_keys rfl ?_
  simp only [markerBody, List.forall_mem_cons, hargs, Json.distinctKeys_int, hp,
    Json.distinctKeys_str, true_and]
  exact fun f hf => absurd hf List.not_mem_nil

/-- The fields `sealed` adds. -/
def sealFields (key : String) (b : Dict) : Dict :=
  ("hash", .str (digest rt b)) :: if key = "" then []
    else [("mac", .str (mac rt key (digest rt b)))]

theorem sealed_eq (key : String) (b : Dict) : sealed rt key b = b ++ sealFields rt key b := by
  unfold sealed sealFields
  split
  · rfl
  · exact List.append_assoc _ _ _

theorem sealed_dict (key : String) {b : Dict} (hb : IsBody b) :
    (Json.obj (sealed rt key b)).distinctKeys = true := by
  obtain ⟨hn, hv⟩ := Json.distinctKeys_obj_iff.mp hb.dict
  rw [sealed_eq, Json.distinctKeys_obj_iff, List.map_append]
  have hkeys : ∀ k ∈ (sealFields rt key b).map Prod.fst, k = "hash" ∨ k = "mac" := by
    unfold sealFields
    split <;> simp
  have hnodup : ((sealFields rt key b).map Prod.fst).Nodup := by
    unfold sealFields
    split <;> simp
  refine ⟨List.nodup_append.mpr ⟨hn, hnodup, fun a ha k hk => ?_⟩, fun f hf => ?_⟩
  · rcases hkeys k hk with rfl | rfl
    · exact fun h => hb.noHash (h ▸ ha)
    · exact fun h => hb.noMac (h ▸ ha)
  · rcases List.mem_append.mp hf with hf | hf
    · exact hv f hf
    · unfold sealFields at hf
      split at hf <;> simp only [List.mem_cons, List.not_mem_nil, or_false] at hf
      · rw [hf, Json.distinctKeys_str]
      · rcases hf with rfl | rfl <;> exact Json.distinctKeys_str _

theorem without_sealed (key : String) {b : Dict} (hb : IsBody b) :
    Json.without (sealed rt key b) ["hash", "mac"] = b := by
  rw [sealed_eq, Json.without, List.filter_append]
  have hb' : b.filter (fun f => decide (f.1 ∉ ["hash", "mac"])) = b := by
    refine List.filter_eq_self.mpr (fun f hf => decide_eq_true ?_)
    have hf' : f.1 ∈ b.map Prod.fst := List.mem_map_of_mem hf
    simp only [List.mem_cons, List.not_mem_nil, or_false, not_or]
    exact ⟨fun h => hb.noHash (h ▸ hf'), fun h => hb.noMac (h ▸ hf')⟩
  have hs : (sealFields rt key b).filter (fun f => decide (f.1 ∉ ["hash", "mac"])) = [] := by
    unfold sealFields
    split <;> simp
  rw [hb', hs, List.append_nil]

theorem get_sealed {b : Dict} {k : String} (key : String) (h1 : k ≠ "hash") (h2 : k ≠ "mac") :
    Json.get (sealed rt key b) k = Json.get b k := by
  have hnone : Json.get (sealFields rt key b) k = none := by
    refine get_eq_none ?_
    unfold sealFields
    split <;> simp [h1, h2]
  rw [sealed_eq, get_append, hnone, Option.or_none]

theorem get_sealed_hash (key : String) {b : Dict} (hb : IsBody b) :
    Json.get (sealed rt key b) "hash" = some (.str (digest rt b)) := by
  rw [sealed_eq, get_append, get_eq_none hb.noHash, Option.none_or]
  rfl

theorem get_sealed_mac {key : String} (hk : key ≠ "") {b : Dict} (hb : IsBody b) :
    Json.get (sealed rt key b) "mac" = some (.str (mac rt key (digest rt b))) := by
  rw [sealed_eq, get_append, get_eq_none hb.noMac, Option.none_or, sealFields, if_neg hk]
  rfl

/-- The digest does not depend on the order of the keys. -/
theorem digest_congr {d e : Dict} (h : Json.sortedFields d = Json.sortedFields e) :
    digest rt d = digest rt e := by
  rw [digest, digest, canonical, canonical, dumps, dumps, Json.sortKeys_obj, Json.sortKeys_obj, h]

/-- The record a line of the sealed body reads back as: `sort_keys` has put its keys in
order. -/
abbrev stored (key : String) (b : Dict) : Dict := Json.sortedFields (sealed rt key b)

/-- **The three serialisations agree.**  The digest of a parsed record less its digest
and MAC is the digest its writer computed. -/
theorem digest_parsed (key : String) {b : Dict} (hb : IsBody b) :
    digest rt (Json.without (stored rt key b) ["hash", "mac"]) =
      digest rt b := by
  refine digest_congr rt ?_
  rw [Json.sortedFields_without (Json.distinctKeys_obj_iff.mp (sealed_dict rt key hb)).1,
    without_sealed rt key hb]

theorem get_parsed (key : String) {b : Dict} (hb : IsBody b) (k : String) :
    Json.get (stored rt key b) k =
      (Json.get (sealed rt key b) k).map Json.sortKeys :=
  Json.get_sortedFields (Json.distinctKeys_obj_iff.mp (sealed_dict rt key hb)).1 k

theorem get_parsed_hash (key : String) {b : Dict} (hb : IsBody b) :
    Json.get (stored rt key b) "hash" = some (.str (digest rt b)) := by
  rw [get_parsed rt key hb, get_sealed_hash rt key hb, Option.map_some, Json.sortKeys_str]

/-- A sealed body is a genuine record once it has been written and parsed. -/
theorem genuine_parsed (key : String) {b : Dict} (hb : IsBody b) :
    Genuine rt key (stored rt key b) where
  hash := by rw [digest_parsed rt key hb, get_parsed_hash rt key hb]
  mac := fun hk => by
    rw [digest_parsed rt key hb, get_parsed rt key hb, get_sealed_mac rt hk hb, Option.map_some,
      Json.sortKeys_str]

end ComplianceMcp
