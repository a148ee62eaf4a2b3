import ComplianceMcp.AuditFile

/-! # The tail of a log

`_tail_record` reads backwards in chunks until it is at the start of the file or has two line
feeds.  `tailLoop` is the loop with its turns counted: it says `none` when the turns it is given
do not suffice.  Every turn moves the position back, so a turn for each byte and one more
always do, on every file.

On a log of record lines the buffer it stops with holds the last line whole, wherever the chunk
boundaries fall. -/
namespace ComplianceMcp

open PyJson PyText

/-! ## The loop -/

/-- The loop of `_tail_record`, `none` where it has not ended after as many turns. -/
def tailLoop (fh : Bytes) : Nat → Nat → Bytes → Option Bytes
  | 0, _, _ => none
  | turns + 1, pos, buf =>
    if pos = 0 then some buf
    else
      let step := min 4096 pos
      let pos := pos - step
      let buf := (fh.drop pos).take step ++ buf
      if 2 ≤ buf.count lf then some buf else tailLoop fh turns pos buf

/-- **The loop ends.**  A turn moves the position back by a byte at least. -/
theorem tailLoop_ends (fh : Bytes) {turns fuel pos : Nat} {buf : Bytes} (ht : pos < turns)
    (hf : pos ≤ fuel) :
    tailLoop fh turns pos buf = some (tailBuffer fh fuel pos buf) := by
  induction turns generalizing fuel pos buf with
  | zero => omega
  | succ turns ih =>
    rw [tailLoop]
    by_cases h0 : pos = 0
    · rw [if_pos h0]
      cases fuel with
      | zero => rfl
      | succ fuel => rw [tailBuffer, if_pos h0]
    · rw [if_neg h0]
      cases fuel with
      | zero => omega
      | succ fuel =>
        rw [tailBuffer, if_neg h0]
        dsimp only
        split
        · rfl
        · exact ih (by omega) (by omega)

/-! ## Logs -/

section Logs

variable (rt : Runtime)

/-- A line of a log: its bytes, not blank and without a line feed; what it holds is a record. -/
structure RecordLine where
  bytes : Bytes
  lf_not_mem : lf ∉ bytes
  not_blank : blankBytes bytes = false
  record : ∀ j, loadsBytes rt bytes = .ok j → ∃ d, j = .obj d

/-- The file of the lines, each one terminated. -/
def logFile (ls : List (RecordLine rt)) : Bytes := ls.flatMap (fun l => l.bytes ++ [lf])

/-- What parsing the last line yields, and `None` where there is no line. -/
def lastParsed (ls : List (RecordLine rt)) : Except PyError (Option Json) :=
  match ls.getLast? with
  | some l => (loadsBytes rt l.bytes).map some
  | none => .ok none

/-- `None` is returned; `json.loads` yields it too, for `null`. -/
def ReturnsNone (r : Except PyError (Option Json)) : Prop := r = .ok none ∨ r = .ok (some .null)

variable {rt}

theorem endsLine_logFile (ls : List (RecordLine rt)) : EndsLine (logFile rt ls) := by
  rcases List.eq_nil_or_concat' ls with rfl | ⟨before, l, rfl⟩
  · exact Or.inl rfl
  · refine Or.inr ⟨logFile rt before ++ l.bytes, ?_⟩
    simp only [logFile, List.flatMap_append, List.flatMap_cons, List.flatMap_nil, List.append_nil,
      List.append_assoc]

theorem lastParsed_concat (before : List (RecordLine rt)) (l : RecordLine rt) :
    lastParsed rt (before ++ [l]) = (loadsBytes rt l.bytes).map some := by
  rw [lastParsed, List.getLast?_concat]

/-- What is read back is the last line. -/
theorem tailRecord_logFile (ls : List (RecordLine rt)) :
    tailRecord rt (logFile rt ls) = lastParsed rt ls := by
  rcases List.eq_nil_or_concat' ls with rfl | ⟨before, l, rfl⟩
  · rfl
  · have hfile : logFile rt (before ++ [l]) = logFile rt before ++ (l.bytes ++ [lf]) := by
      simp only [logFile, List.flatMap_append, List.flatMap_cons, List.flatMap_nil, List.append_nil]
    rw [hfile, tailRecord_last rt (endsLine_logFile before) l.lf_not_mem l.not_blank (Or.inr rfl),
      lastParsed_concat]

/-- A log with a line does not read as `None`. -/
theorem returnsNone_lastParsed {ls : List (RecordLine rt)} :
    ReturnsNone (lastParsed rt ls) ↔ ls = [] := by
  rcases List.eq_nil_or_concat' ls with rfl | ⟨before, l, rfl⟩
  · exact iff_of_true (Or.inl rfl) rfl
  · refine iff_of_false (fun h => ?_) (List.append_ne_nil_of_right_ne_nil _ (List.cons_ne_nil _ _))
    rw [lastParsed_concat] at h
    cases hl : loadsBytes rt l.bytes with
    | error e =>
      rw [hl] at h
      rcases h with h | h <;> cases h
    | ok j =>
      obtain ⟨d, rfl⟩ := l.record j hl
      rw [hl] at h
      rcases h with h | h <;> cases h

theorem logFile_eq_nil {ls : List (RecordLine rt)} : logFile rt ls = [] ↔ ls = [] := by
  constructor
  · intro h
    cases ls with
    | nil => rfl
    | cons l ls =>
      rw [logFile, List.flatMap_cons, List.append_assoc] at h
      exact absurd (List.append_eq_nil_iff.mp (List.append_eq_nil_iff.mp h).2).1
        (List.cons_ne_nil _ _)
  · rintro rfl
    rfl

end Logs

/-- **The tail of a log is its last line.**  For every number of lines and all their lengths: the
backward loop ends, `_tail_record` parses the last line, and `None` means that the file is empty. -/
theorem tail_record_last_line (rt : Runtime) (ls : List (RecordLine rt)) :
    (∀ turns, (logFile rt ls).length < turns →
      tailLoop (logFile rt ls) turns (logFile rt ls).length [] =
      some (tailBuffer (logFile rt ls) (logFile rt ls).length (logFile rt ls).length [])) ∧
    tailRecord rt (logFile rt ls) = lastParsed rt ls ∧
    (ReturnsNone (tailRecord rt (logFile rt ls)) ↔ logFile rt ls = []) := by
  refine ⟨fun turns ht => tailLoop_ends _ ht (le_refl _), tailRecord_logFile ls, ?_⟩
  rw [tailRecord_logFile, returnsNone_lastParsed, logFile_eq_nil]

end ComplianceMcp
