import ComplianceMcp.AuditRecord

/-! # Reading the chain head off a file

`AuditLog._tail_record` reads a file backwards in chunks of 4096 bytes until it holds
two line feeds, and parses the last line of what it read that is not blank.  On a
file of whole lines that is the last record (`tailRecord_of_holds`), however long the
records are: a suffix with two line feeds in it holds the last line whole.

`Holds b ds` says that the bytes are the lines of the records `ds`; every way the
writer touches a file keeps it. -/
namespace ComplianceMcp

open PyJson PyText

variable (rt : Runtime)

/-! ## `_tail_record` -/

/-- `json.loads(t)` on text. -/
def loadsText (t : Text) : Except PyError Json :=
  match rt.loads t with
  | some j => .ok j
  | none => .error .jsonDecodeError

/-- `json.loads(b)` on bytes.  A line of JSON the log reads starts with an ASCII
character other than NUL, for which `json.detect_encoding` answers UTF-8. -/
def loadsBytes (b : Bytes) : Except PyError Json :=
  match decodeUtf8 b with
  | some t => loadsText rt t
  | none => .error .unicodeDecodeError

/-- The loop of `_tail_record`: the bytes read once it stops, with `fuel` for its
iterations. -/
def tailBuffer (fh : Bytes) : Nat → Nat → Bytes → Bytes
  | 0, _, buf => buf
  | fuel + 1, pos, buf =>
    if pos = 0 then buf
    else
      let step := min 4096 pos
      let pos := pos - step
      let buf := (fh.drop pos).take step ++ buf
      if 2 ≤ buf.count lf then buf else tailBuffer fh fuel pos buf

/-- The last line of the bytes that is not blank. -/
def lastLine (buf : Bytes) : Option Bytes :=
  ((buf.splitOn lf).filter (fun l => !blankBytes l)).getLast?

/-- `AuditLog._tail_record(fh)` on the content of the file. -/
def tailRecord (fh : Bytes) : Except PyError (Option Json) :=
  let size := fh.length
  if size = 0 then .ok none
  else match lastLine (tailBuffer fh size size []) with
    | some l => (loadsBytes rt l).map some
    | none => .ok none

/-- The truth value of a Python object. -/
def truthy : Json → Bool
  | .null => false
  | .bool b => b
  | .int n => n ≠ 0
  | .float x => !x.isZero
  | .str s => s ≠ ""
  | .arr xs => !xs.isEmpty
  | .obj fs => !fs.isEmpty

/-- `j[k]` with a string key. -/
def getItem (j : Json) (k : String) : Except PyError Json :=
  match j with
  | .obj d => match Json.get d k with
    | some v => .ok v
    | none => .error .keyError
  | _ => .error .typeError

/-- `rec["hash"] if rec else GENESIS`. -/
def hashOrGenesis (rec : Option Json) : Except PyError Json :=
  match rec with
  | some j => if truthy j then getItem j "hash" else .ok (.str GENESIS)
  | none => .ok (.str GENESIS)

/-- `AuditLog.head()` on the content of the active file. -/
def head (fh : Bytes) : Except PyError Json := do
  let rec ← tailRecord rt fh
  hashOrGenesis rec

/-- `seq + 1`. -/
def addOne : Json → Except PyError Json
  | .int n => .ok (.int (n + 1))
  | .bool b => .ok (.int (if b then 2 else 1))
  | .float x => .ok (.float (rt.floatSucc x))
  | _ => .error .typeError

/-- `(tail.get("seq", 0) if tail else 0) + 1`. -/
def nextSeq (tail : Option Json) : Except PyError Json :=
  match tail with
  | some j => if truthy j then
      match j with
      | .obj d => addOne rt ((Json.get d "seq").getD (.int 0))
      | _ => .error .attributeError
    else .ok (.int 1)
  | none => .ok (.int 1)

/-! ## What the backward scan finds -/

/-- The scan ends with a suffix of the file that is the whole file or holds two line
feeds.  The induction is on the fuel; each turn moves the position back. -/
theorem tailBuffer_spec (fh : Bytes) : ∀ (fuel pos : Nat) (buf : Bytes), pos ≤ fuel →
    buf = fh.drop pos →
    ∃ p, tailBuffer fh fuel pos buf = fh.drop p ∧ (p = 0 ∨ 2 ≤ (fh.drop p).count lf)
  | 0, pos, buf, hp, hb => by
    obtain rfl : pos = 0 := Nat.le_zero.mp hp
    exact ⟨0, hb, Or.inl rfl⟩
  | fuel + 1, pos, buf, hp, hb => by
    rw [tailBuffer]
    split
    · next h0 => exact ⟨0, by rw [hb, h0], Or.inl rfl⟩
    · next h0 =>
      have hstep : (fh.drop (pos - min 4096 pos)).take (min 4096 pos) ++ buf =
          fh.drop (pos - min 4096 pos) := by
        have hle : min 4096 pos ≤ pos := Nat.min_le_right _ _
        rw [hb, ← Nat.sub_add_cancel hle, ← List.drop_drop, Nat.sub_add_cancel hle,
          List.take_append_drop]
      simp only [hstep]
      split
      · next h2 => exact ⟨_, rfl, Or.inr h2⟩
      · exact tailBuffer_spec fh fuel _ _ (by omega) rfl

theorem lastLine_nil : lastLine [] = none := rfl

theorem lastLine_append_lf (x y : Bytes) :
    lastLine (x ++ lf :: y) = (lastLine y).or (lastLine x) := by
  rw [lastLine, List.splitOn_append_cons_self, List.filter_append, List.getLast?_append]
  rfl

theorem lastLine_line {l : Bytes} (hl : lf ∉ l) (hb : blankBytes l = false) :
    lastLine l = some l := by
  rw [lastLine, List.splitOn_eq_singleton hl, List.filter_cons_of_pos (by rw [hb]; rfl)]
  rfl

/-- Empty, or ending in a line feed. -/
def EndsLine (pre : Bytes) : Prop := pre = [] ∨ ∃ x, pre = x ++ [lf]

theorem EndsLine.drop {pre : Bytes} (h : EndsLine pre) (p : Nat) : EndsLine (pre.drop p) := by
  rcases h with rfl | ⟨x, rfl⟩
  · exact Or.inl List.drop_nil
  · by_cases hp : p ≤ x.length
    · exact Or.inr ⟨x.drop p, by rw [List.drop_append_of_le_length hp]⟩
    · refine Or.inl (List.drop_eq_nil_of_le ?_)
      rw [List.length_append, List.length_singleton]
      omega

/-- A line at the end of the bytes, terminated or not, is the last line. -/
theorem lastLine_last {pre l e : Bytes} (hpre : EndsLine pre) (hl : lf ∉ l)
    (hb : blankBytes l = false) (he : e = [] ∨ e = [lf]) : lastLine (pre ++ (l ++ e)) = some l := by
  have hline : lastLine (l ++ e) = some l := by
    rcases he with rfl | rfl
    · rw [List.append_nil, lastLine_line hl hb]
    · rw [lastLine_append_lf, lastLine_nil, Option.none_or, lastLine_line hl hb]
  rcases hpre with rfl | ⟨x, rfl⟩
  · exact hline
  · rw [List.append_assoc, List.singleton_append, lastLine_append_lf, hline, Option.some_or]

theorem count_le_one {l e : Bytes} (hl : lf ∉ l) (he : e = [] ∨ e = [lf]) :
    (l ++ e).count lf ≤ 1 := by
  rw [List.count_append, List.count_eq_zero.mpr hl, Nat.zero_add]
  rcases he with rfl | rfl <;> decide

/-- **The scan finds the last line.**  Chunks and the two-line-feed stop do not show:
what `_tail_record` parses is the last line of the file. -/
theorem tailRecord_last {pre l e : Bytes} (hpre : EndsLine pre) (hl : lf ∉ l)
    (hb : blankBytes l = false) (he : e = [] ∨ e = [lf]) :
    tailRecord rt (pre ++ (l ++ e)) = (loadsBytes rt l).map some := by
  have hne : (pre ++ (l ++ e)).length ≠ 0 := by
    intro h0
    have hnil := List.append_eq_nil_iff.mp
      (List.append_eq_nil_iff.mp (List.length_eq_zero_iff.mp h0)).2
    rw [hnil.1] at hb
    cases hb
  obtain ⟨p, hbuf, hp⟩ := tailBuffer_spec (pre ++ (l ++ e)) _ _ [] (le_refl _)
    (List.drop_eq_nil_of_le (le_refl _)).symm
  -- the buffer reaches back to the start of the last line
  have hple : p ≤ pre.length := by
    rcases hp with rfl | hp
    · exact Nat.zero_le _
    · by_contra hlt
      rw [List.drop_append, List.drop_eq_nil_of_le (by omega), List.nil_append] at hp
      have hsub := List.Sublist.count_le lf (List.drop_sublist (p - pre.length) (l ++ e))
      have := count_le_one hl he
      omega
  rw [tailRecord, if_neg hne, hbuf, List.drop_append_of_le_length hple,
    lastLine_last (hpre.drop p) hl hb he]

/-! ## Files of whole records -/

/-- The line is printed JSON that reads back as the record, whatever white space
is around it. -/
structure Recorded (l : Text) (d : Dict) : Prop where
  printable : AllPrintable l
  opens : ∃ t, l = '{' :: t
  parses : ∀ v w : Text, v.all isWs = true → w.all isWs = true →
    rt.loads (v ++ (l ++ w)) = some (.obj d)

/-- The bytes are the lines of the records, each with its line feed. -/
def Holds (b : Bytes) (ds : List Dict) : Prop :=
  ∃ ls : List Text, b = fileOf ls ∧ List.Forall₂ (Recorded rt) ls ds

variable {rt}

theorem Recorded.lf_not_mem {l : Text} {d : Dict} (h : Recorded rt l d) : lf ∉ utf8 l :=
  lf_not_mem_utf8 (h.printable.not_mem (by decide))

theorem Recorded.head_byte {l : Text} {d : Dict} (h : Recorded rt l d) :
    ∃ b, utf8 l = 0x7b :: b := by
  obtain ⟨t, rfl⟩ := h.opens
  exact ⟨utf8 t, rfl⟩

theorem Recorded.not_blankBytes {l : Text} {d : Dict} (h : Recorded rt l d) :
    blankBytes (utf8 l) = false := by
  obtain ⟨b, hb⟩ := h.head_byte
  rw [hb]
  exact blankBytes_false List.mem_cons_self (by decide)

theorem Recorded.not_blank {l : Text} {d : Dict} (h : Recorded rt l d) (w : Text) :
    blank (l ++ w) = false := by
  obtain ⟨t, rfl⟩ := h.opens
  exact blank_false List.mem_cons_self (by decide)

theorem Recorded.loads {l : Text} {d : Dict} (h : Recorded rt l d) :
    rt.loads l = some (.obj d) := by
  have := h.parses [] [] rfl rfl
  rwa [List.append_nil] at this

/-- A printed `dict` reads back with its keys sorted. -/
theorem recorded_dumps (rt : Runtime) (st : Style) {d : Dict}
    (hd : (Json.obj d).distinctKeys = true) :
    Recorded rt (dumps st (.obj d)) (Json.sortedFields d) where
  printable := allPrintable_dumps st _
  opens := dumps_obj_eq_cons st d
  parses := fun v w hv hw => rt.loads_dumps st _ v w hd hv hw

theorem holds_nil : Holds rt [] [] := ⟨[], rfl, List.Forall₂.nil⟩

theorem Holds.append {b : Bytes} {ds : List Dict} (h : Holds rt b ds) {l : Text} {d : Dict}
    (hl : Recorded rt l d) : Holds rt (b ++ utf8 (l ++ ['\n'])) (ds ++ [d]) := by
  obtain ⟨ls, rfl, hls⟩ := h
  refine ⟨ls ++ [l], ?_, List.rel_append hls (List.Forall₂.cons hl List.Forall₂.nil)⟩
  rw [fileOf_append, fileOf_singleton, utf8_append, utf8_newline]

theorem Holds.endsLine {b : Bytes} {ds : List Dict} (h : Holds rt b ds) : EndsLine b := by
  obtain ⟨ls, rfl, -⟩ := h
  exact fileOf_ends ls

/-- A file holds its last record in its last line. -/
theorem Holds.concat {b : Bytes} {ds : List Dict} {d : Dict} (h : Holds rt b (ds ++ [d])) :
    ∃ b' l, Holds rt b' ds ∧ Recorded rt l d ∧ b = b' ++ (utf8 l ++ [lf]) := by
  obtain ⟨ls, rfl, hls⟩ := h
  have hinit := List.forall₂_take_append ls ds [d] hls
  have hlast := List.forall₂_drop_append ls ds [d] hls
  obtain ⟨l, m, hl, hm, hlm⟩ := List.forall₂_cons_right_iff.mp hlast
  obtain rfl := List.forall₂_nil_right_iff.mp hm
  refine ⟨fileOf (ls.take ds.length), l, ⟨_, rfl, hinit⟩, hl, ?_⟩
  rw [← fileOf_singleton, ← fileOf_append, ← hlm, List.take_append_drop]

theorem Holds.eq_nil {b : Bytes} (h : Holds rt b []) : b = [] := by
  obtain ⟨ls, rfl, hls⟩ := h
  cases hls
  rfl

theorem Holds.no_records {ds : List Dict} (h : Holds rt [] ds) : ds = [] := by
  obtain ⟨ls, hb, hls⟩ := h
  cases hls with
  | nil => rfl
  | @cons t d ts ds _ _ =>
    rw [fileOf, unlines_cons] at hb
    have := utf8_eq_nil.mp hb.symm
    exact absurd this (List.append_ne_nil_of_right_ne_nil t (List.cons_ne_nil _ _))

theorem loadsBytes_utf8 (t : Text) : loadsBytes rt (utf8 t) = loadsText rt t := by
  rw [loadsBytes, decodeUtf8_utf8]

/-- **The tail of a file of whole records** is its last record. -/
theorem tailRecord_of_holds {b : Bytes} {ds : List Dict} (h : Holds rt b ds) :
    tailRecord rt b = .ok (ds.getLast?.map .obj) := by
  rcases List.eq_nil_or_concat ds with rfl | ⟨ds, d, rfl⟩
  · rw [h.eq_nil]
    rfl
  · rw [List.concat_eq_append] at h ⊢
    obtain ⟨b', l, hb', hl, rfl⟩ := h.concat
    rw [tailRecord_last rt hb'.endsLine hl.lf_not_mem hl.not_blankBytes (Or.inr rfl),
      loadsBytes_utf8, loadsText, hl.loads, List.getLast?_concat]
    rfl

end ComplianceMcp
