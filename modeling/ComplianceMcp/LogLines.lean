import ComplianceMcp.JsonRoundTrip
import ComplianceMcp.Latest
import ComplianceMcp.Utf8Lines

/-! # The operational log

Apart from the audit chain the program logs what happens to standard error, one JSON object per
line, so that the platform can ship the lines without parsing them.  Much of what is logged comes
from callers: the requester a model claims to act for, session ids, titles, the texts of exceptions.
None of it can break a line, forge another one or hide a field: the lines of the stream are the
records, in order, and each reads back to the fields it was logged with. -/
namespace ComplianceMcp.Logging

open PyText PyJson

/-! ## `JsonFormatter` -/

/-- What every record carries. -/
def STANDARD_ATTRS : List String :=
  ["name", "msg", "args", "levelname", "levelno", "pathname", "filename", "module",
    "exc_info", "exc_text", "stack_info", "lineno", "funcName", "created", "msecs",
    "relativeCreated", "thread", "threadName", "processName", "process", "taskName",
    "message", "asctime"]

/-- A record: the time it was created as it is printed, and its attributes; what `json` cannot print
stands as its `str`. -/
structure LogRecord where
  created : String
  levelname : String
  name : String
  message : String
  attributes : Dict
  exception : Option String
  nodup : (attributes.map Prod.fst).Nodup
  values : ∀ f ∈ attributes, f.2.distinctKeys = true

namespace LogRecord

/-- The attributes that were passed as `extra`. -/
def extra (r : LogRecord) : Dict :=
  r.attributes.filter (fun f => f.1 ∉ STANDARD_ATTRS ∧ f.1.toList.head? ≠ some '_')

def head (r : LogRecord) : Dict :=
  [("ts", .str r.created), ("level", .str r.levelname), ("logger", .str r.name),
    ("message", .str r.message)]

/-- The payload: an extra field replaces one of the same name, and the exception comes last. -/
def payload (r : LogRecord) : Dict :=
  let fields := r.extra.foldl (fun d f => Json.setField d f.1 f.2) r.head
  r.exception.elim fields (fun e => Json.setField fields "exception" (.str e))

/-- `json.dumps(payload, default=str, ensure_ascii=False)`. -/
def format (r : LogRecord) : Text := render ⟨true, false⟩ (.obj r.payload)

end LogRecord

/-- What the handler has written after these records. -/
def stream (rs : List LogRecord) : Bytes := fileOf (rs.map LogRecord.format)

/-! ## The payload -/

section Fields

variable {fs pairs : Dict} {k k' : String} {v : Json}

theorem get_cons (f : String × Json) : Json.get (f :: fs) k = if k = f.1 then some f.2
    else Json.get fs k :=
  Latest.lookup_cons_ite f.1 k f.2 fs

/-- A field is replaced where it stands. -/
theorem get_replace : Json.get (fs.map (fun f => if f.1 = k then (k, v) else f)) k' =
    if k' = k then (Json.get fs k).map (fun _ => v) else Json.get fs k' := by
  induction fs with
  | nil => split <;> rfl
  | cons f fs ih =>
    rw [List.map_cons, get_cons, ih, @get_cons fs k f, @get_cons fs k' f]
    by_cases hf : f.1 = k
    · rw [if_pos hf, if_pos hf.symm, hf]
      by_cases hk : k' = k
      · rw [if_pos hk, if_pos hk]
        rfl
      · rw [if_neg hk, if_neg hk, if_neg hk, if_neg hk]
    · have hkf : ¬ k = f.1 := fun h => hf h.symm
      rw [if_neg hf, if_neg hkf]
      by_cases hk : k' = k
      · have hf' : ¬ k' = f.1 := fun h => hf (h.symm.trans hk)
        rw [if_pos hk, if_pos hk, if_neg hf']
      · rw [if_neg hk, if_neg hk]

theorem get_eq_none (h : k ∉ fs.map Prod.fst) : Json.get fs k = none := by
  induction fs with
  | nil => rfl
  | cons f fs ih =>
    rw [List.map_cons, List.mem_cons, not_or] at h
    rw [get_cons, if_neg h.1, ih h.2]

theorem get_isSome (h : k ∈ fs.map Prod.fst) : ∃ v, Json.get fs k = some v := by
  induction fs with
  | nil => exact absurd h List.not_mem_nil
  | cons f fs ih =>
    rw [get_cons]
    by_cases hk : k = f.1
    · exact ⟨f.2, if_pos hk⟩
    · rw [if_neg hk]
      exact ih ((List.mem_cons.mp h).resolve_left hk)

/-- Setting a field changes this field. -/
theorem get_setField : Json.get (Json.setField fs k v) k' = if k' = k then some v
    else Json.get fs k' := by
  unfold Json.setField
  split
  case isTrue h =>
    obtain ⟨w, hw⟩ := get_isSome h
    rw [get_replace, hw]
    rfl
  case isFalse h =>
    have happend : Json.get (fs ++ [(k, v)]) k' = (Json.get fs k').or (Json.get [(k, v)] k') :=
      List.lookup_append
    rw [happend, get_cons]
    by_cases hk : k' = k
    · rw [if_pos hk, if_pos hk, hk, get_eq_none h]
      rfl
    · rw [if_neg hk, if_neg hk]
      exact Option.or_none

/-- Fields set one after the other. -/
theorem get_foldl_setField (hn : (pairs.map Prod.fst).Nodup) :
    Json.get (pairs.foldl (fun d f => Json.setField d f.1 f.2) fs) k =
      (Json.get pairs k).elim (Json.get fs k) some := by
  induction pairs generalizing fs with
  | nil => rfl
  | cons f pairs ih =>
    obtain ⟨hf, hn⟩ := List.nodup_cons.mp hn
    rw [List.foldl_cons, ih hn, get_setField, get_cons]
    by_cases hk : k = f.1
    · rw [if_pos hk, if_pos hk, hk, get_eq_none hf]
      rfl
    · rw [if_neg hk, if_neg hk]

end Fields

namespace LogRecord

variable (r : LogRecord)

theorem extra_nodup : (r.extra.map Prod.fst).Nodup :=
  r.nodup.sublist (List.filter_sublist.map Prod.fst)

/-- The name of a standard attribute is never that of an extra field. -/
theorem extra_standard {k : String} (hk : k ∈ STANDARD_ATTRS) : k ∉ r.extra.map Prod.fst := by
  intro h
  obtain ⟨f, hf, rfl⟩ := List.mem_map.mp h
  exact (of_decide_eq_true (List.mem_filter.mp hf).2).1 hk

/-- The fields before the exception. -/
theorem get_payload (k : String) : Json.get r.payload k =
    if k = "exception" ∧ r.exception.isSome = true then r.exception.map Json.str
    else (Json.get r.extra k).elim (Json.get r.head k) some := by
  unfold payload
  cases r.exception with
  | none =>
    rw [if_neg (fun h => nomatch h.2)]
    exact get_foldl_setField r.extra_nodup
  | some e =>
    refine get_setField.trans ?_
    by_cases hk : k = "exception"
    · rw [if_pos hk, if_pos ⟨hk, rfl⟩]
      rfl
    · rw [if_neg hk, if_neg (fun h => hk h.1)]
      exact get_foldl_setField r.extra_nodup

/-- A payload is a `dict`, of the fields of the record. -/
theorem payload_dict : (r.payload.map Prod.fst).Nodup ∧ ∀ f ∈ r.payload, f ∈ r.head ∨ f ∈ r.extra ∨
    ∃ e, r.exception = some e ∧ f = ("exception", .str e) := by
  have hhead : (r.head.map Prod.fst).Nodup := by
    show ["ts", "level", "logger", "message"].Nodup
    decide
  obtain ⟨hn, hm⟩ := @Json.foldl_setField_dict r.head r.extra hhead
  unfold payload
  cases r.exception with
  | none => exact ⟨hn, fun f hf => (hm f hf).imp_right Or.inl⟩
  | some e =>
    refine ⟨Json.setField_nodup hn _ _, fun f hf => ?_⟩
    rcases Json.mem_setField hf with hf | rfl
    · exact (hm f hf).imp_right Or.inl
    · exact Or.inr (Or.inr ⟨e, rfl, rfl⟩)

theorem payload_distinctKeys : (Json.obj r.payload).distinctKeys = true := by
  obtain ⟨hn, hm⟩ := r.payload_dict
  refine Json.distinctKeys_obj_iff.mpr ⟨hn, fun f hf => ?_⟩
  rcases hm f hf with hf | hf | ⟨e, -, rfl⟩
  · simp only [head, List.mem_cons, List.not_mem_nil, or_false] at hf
    rcases hf with rfl | rfl | rfl | rfl <;> rfl
  · exact r.values f (List.mem_of_mem_filter hf)
  · rfl

end LogRecord

/-! ## The lines -/

/-- The fields of a line are those that were logged. -/
structure FieldsOf (r : LogRecord) (d : Dict) : Prop where
  exception : ∀ e, r.exception = some e → Json.get d "exception" = some (.str e)
  /-- Only the exception takes the place of an extra field. -/
  extra : ∀ f ∈ r.extra, f.1 ≠ "exception" ∨ r.exception = none → Json.get d f.1 = some f.2
  /-- Only an extra field takes the place of one of the formatter's own. -/
  own : ∀ f ∈ r.head, f.1 ∉ r.extra.map Prod.fst → Json.get d f.1 = some f.2
  message : Json.get d "message" = some (.str r.message)
  nothing_else : ∀ f ∈ d, f ∈ r.head ∨ f ∈ r.extra ∨ ∃ e, r.exception = some e ∧
    f = ("exception", .str e)

/-- One line, and the record it is read back to. -/
structure LineOf (r : LogRecord) (line : Text) : Prop where
  one_line : ∃ t, line = t ++ ['\n'] ∧ '\n' ∉ t
  fields : ∃ d, loads line = some (.obj d) ∧ FieldsOf r d

theorem fieldsOf_payload (r : LogRecord) : FieldsOf r r.payload where
  exception := fun e he => by
    rw [r.get_payload, he, if_pos ⟨rfl, rfl⟩]
    rfl
  extra := fun f hf h => by
    have hget : Json.get r.extra f.1 = some f.2 := (Json.get_eq_some_iff r.extra_nodup).mpr hf
    rw [r.get_payload, hget, if_neg]
    · rfl
    · rintro ⟨hk, he⟩
      rcases h with h | h
      · exact h hk
      · rw [h] at he
        cases he
  own := fun f hf h => by
    rw [r.get_payload, get_eq_none h]
    simp only [LogRecord.head, List.mem_cons, List.not_mem_nil, or_false] at hf
    rcases hf with rfl | rfl | rfl | rfl <;> rfl
  message := by
    rw [r.get_payload, get_eq_none (r.extra_standard (by decide))]
    rfl
  nothing_else := r.payload_dict.2

theorem format_no_newline (r : LogRecord) : '\n' ∉ r.format :=
  (allPrintable_render _ _).not_mem (by decide)

theorem lineOf_format (r : LogRecord) : LineOf r (r.format ++ ['\n']) where
  one_line := ⟨r.format, rfl, format_no_newline r⟩
  fields := by
    refine ⟨r.payload, ?_, fieldsOf_payload r⟩
    have hread := readText_render ⟨true, false⟩ (.obj r.payload) (v := [])
      (w := ['\n']) rfl (by decide)
    rw [loads, LogRecord.format, ← List.nil_append (render _ _ ++ _), hread, Option.map_some,
      Json.dedupe_of_distinctKeys r.payload_distinctKeys]

/-- **The log is its lines.**  Whatever was logged, the stream decodes, its lines are the records in
order, one line for each, and every line reads back to the fields of its record. -/
theorem log_lines (rs : List LogRecord) : ∃ t, decodeUtf8 (stream rs) = some t ∧
    List.Forall₂ LineOf rs (lines t) := by
  refine ⟨unlines (rs.map LogRecord.format), decodeUtf8_utf8 _, ?_⟩
  have hno : ∀ l ∈ rs.map LogRecord.format, '\n' ∉ l := by
    rintro l hl
    obtain ⟨r, -, rfl⟩ := List.mem_map.mp hl
    exact format_no_newline r
  rw [lines_unlines hno, List.map_map]
  induction rs with
  | nil => exact List.Forall₂.nil
  | cons r rs ih =>
    exact List.Forall₂.cons (lineOf_format r) (ih (fun l hl => hno l (List.mem_cons_of_mem _ hl)))

/-- What the server logs when the requester a model passes is not the one of the identity header. -/
def spoofWarning (created fromHeader requesterParam : String) : LogRecord where
  created := created
  levelname := "WARNING"
  name := "compliance_mcp.server"
  message := "requester parameter disagrees with identity header"
  attributes := [("header", .str fromHeader), ("parameter", .str requesterParam)]
  exception := none
  nodup := by
    show ["header", "parameter"].Nodup
    decide
  values := by
    intro f hf
    simp only [List.mem_cons, List.not_mem_nil, or_false] at hf
    rcases hf with rfl | rfl <;> rfl

/-- The warning names both, whatever the model has put into its requester. -/
theorem spoofWarning_fields {created fromHeader requesterParam : String} {d : Dict}
    (h : FieldsOf (spoofWarning created fromHeader requesterParam) d) :
    Json.get d "level" = some (.str "WARNING") ∧ Json.get d "header" = some (.str fromHeader) ∧
      Json.get d "parameter" = some (.str requesterParam) := by
  have hextra : (spoofWarning created fromHeader requesterParam).extra =
      [("header", .str fromHeader), ("parameter", .str requesterParam)] := by
    refine List.filter_eq_self.mpr (fun f hf => ?_)
    have hkey : f.1 ∈ ["header", "parameter"] := List.mem_map_of_mem hf
    have hnames : ∀ k ∈ ["header", "parameter"], k ∉ STANDARD_ATTRS ∧
        k.toList.head? ≠ some '_' := by decide
    exact decide_eq_true (hnames f.1 hkey)
  refine ⟨h.own ("level", .str "WARNING") ?_ ?_,
    h.extra ("header", .str fromHeader) ?_ (Or.inr rfl),
    h.extra ("parameter", .str requesterParam) ?_ (Or.inr rfl)⟩
  · exact List.mem_cons_of_mem _ List.mem_cons_self
  · rw [hextra]
    show "level" ∉ ["header", "parameter"]
    decide
  · rw [hextra]
    exact List.mem_cons_self
  · rw [hextra]
    exact List.mem_cons_of_mem _ List.mem_cons_self

end ComplianceMcp.Logging
