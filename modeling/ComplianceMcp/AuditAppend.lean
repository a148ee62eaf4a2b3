import ComplianceMcp.AuditWrite

/-! # A record after anything

`write` appends a record to whatever the active file holds, and nobody has to have ended its last
line.  `verify` reads the record if what follows the last line end is white space of JSON, and
raises if it is anything else (`fileRecords_append`); `_tail_record` splits at line feeds alone, so
it finds the record if what follows the last line feed is such white space (`tailRecord_append`). -/
namespace ComplianceMcp

open PyJson PyText Files

/-- What follows the last line end in the text of a file is white space of JSON. -/
def Finished (ends : Char → Bool) (content : Bytes) : Prop :=
  ∃ t, decodeUtf8 content = some t ∧ (afterLast ends t).all isWs = true

/-- A line feed, which is where `_tail_record` splits. -/
def isLineFeed (c : Char) : Bool := c == '\n'

variable {rt : Runtime}

theorem finished_utf8 {ends : Char → Bool} {t : Text} :
    Finished ends (utf8 t) ↔ (afterLast ends t).all isWs = true := by
  unfold Finished
  rw [decodeUtf8_utf8]
  constructor
  · rintro ⟨u, hu, h⟩
    obtain rfl := Option.some.inj hu
    exact h
  · exact fun h => ⟨t, rfl, h⟩

/-- The records in lines. -/
def readLines (rt : Runtime) (ls : List Text) : Option (List Json) :=
  (ls.filter (fun l => !blank l)).mapM rt.loads

theorem fileRecords_utf8 (t : Text) :
    fileRecords rt (utf8 t) = readLines rt (lines (universal t)) := by
  rw [fileRecords, textLines, decodeUtf8_utf8]
  rfl

theorem readLines_append (ls ms : List Text) : readLines rt (ls ++ ms) =
    (readLines rt ls).bind (fun js => (readLines rt ms).map (js ++ ·)) := by
  unfold readLines
  rw [List.filter_append, List.mapM_append]
  cases (ls.filter (fun l => !blank l)).mapM rt.loads with
  | none => rfl
  | some js => cases (ms.filter (fun l => !blank l)).mapM rt.loads <;> rfl

theorem readLines_singleton {l : Text} (h : blank l = false) :
    readLines rt [l] = (rt.loads l).map (fun j => [j]) := by
  rw [readLines, List.filter_cons_of_pos (by rw [h]; rfl)]
  cases hl : rt.loads l with
  | none => simp [hl]
  | some j => simp [hl]

theorem readLines_blank {l : Text} (h : blank l = true) : readLines rt [l] = some [] := by
  rw [readLines, List.filter_cons_of_neg (by rw [h]; decide)]
  rfl

/-- A line among those that are read is blank or is read. -/
theorem loads_of_readLines {ls : List Text} {js : List Json}
    (h : readLines rt ls = some js) {l : Text} (hl : l ∈ ls) :
    blank l = true ∨ ∃ j ∈ js, rt.loads l = some j := by
  obtain ⟨before, after, rfl⟩ := List.append_of_mem hl
  rw [← List.singleton_append, readLines_append, readLines_append] at h
  cases hb : blank l with
  | true => exact .inl rfl
  | false =>
    obtain ⟨js₁, -, h₁⟩ := Option.bind_eq_some_iff.mp h
    obtain ⟨js₂, h₂, rfl⟩ := Option.map_eq_some_iff.mp h₁
    obtain ⟨js₃, hone, h₃⟩ := Option.bind_eq_some_iff.mp h₂
    obtain ⟨js₄, -, rfl⟩ := Option.map_eq_some_iff.mp h₃
    rw [readLines_singleton hb] at hone
    obtain ⟨j, hj, rfl⟩ := Option.map_eq_some_iff.mp hone
    exact .inr ⟨j, by simp, hj⟩

theorem isSpace_of_isWs {c : Char} (h : isWs c = true) : isSpace c = true := by
  simp only [isWs, Bool.or_eq_true, beq_iff_eq] at h
  rcases h with ((rfl | rfl) | rfl) | rfl <;> decide

theorem blank_of_ws {w : Text} (h : w.all isWs = true) : blank w = true :=
  List.all_eq_true.mpr fun c hc => isSpace_of_isWs (List.all_eq_true.mp h c hc)

/-- No value starts with white space. -/
theorem not_opensWith_of_isSpace {c : Char} (hc : isSpace c = true) (j : Json) :
    ¬ j.OpensWith c := by
  intro h
  have hvisible : ∀ d : Char, isSpace d = false → c ≠ d := by
    rintro d hd rfl
    rw [hc] at hd
    cases hd
  have hdigit : c.isDigit ≠ true := by
    intro hd
    simp only [Char.isDigit, Bool.and_eq_true, decide_eq_true_eq] at hd
    have hlo : 48 ≤ c.toNat := hd.1
    have hhi : c.toNat ≤ 57 := hd.2
    simp only [isSpace, Bool.or_eq_true, Bool.and_eq_true, decide_eq_true_eq, beq_iff_eq] at hc
    omega
  cases j with
  | null => exact hvisible 'n' (by decide) h
  | bool b =>
    cases b with
    | true => exact hvisible 't' (by decide) h
    | false => exact hvisible 'f' (by decide) h
  | int n | float x =>
    rcases h with h | h | h | h
    · exact hvisible 'N' (by decide) h
    · exact hvisible 'I' (by decide) h
    · exact hvisible '-' (by decide) h
    · exact hdigit h
  | str s => exact hvisible '"' (by decide) h
  | arr xs => exact hvisible '[' (by decide) h
  | obj d => exact hvisible '{' (by decide) h

/-- What opens with a brace is an object. -/
theorem obj_of_opensWith {j : Json} (h : j.OpensWith '{') : ∃ d, j = .obj d := by
  cases j with
  | obj d => exact ⟨d, rfl⟩
  | bool b => cases b <;> simp [Json.OpensWith] at h
  | _ => simp [Json.OpensWith] at h

/-- Text that is not all white space of JSON has a first character that is none. -/
theorem exists_first {w : Text} (h : ¬ w.all isWs = true) :
    ∃ v c r, w = v ++ c :: r ∧ v.all isWs = true ∧ isWs c = false := by
  induction w with
  | nil => exact absurd rfl h
  | cons d w ih =>
    by_cases hd : isWs d = true
    · obtain ⟨v, c, r, rfl, hv, hc⟩ := ih (fun hw => h (by rw [List.all_cons, hd, hw]; rfl))
      exact ⟨d :: v, c, r, rfl, by rw [List.all_cons, hd, hv]; rfl, hc⟩
    · exact ⟨[], d, w, rfl, rfl, Bool.eq_false_iff.mpr hd⟩

/-- Where a text is read as records, what comes first after ended lines and white space of JSON is
other white space, or the brace of a record. -/
theorem space_or_brace {a v r : Text} {c : Char} {ds : List Dict}
    (hread : readLines rt (lines (universal (a ++ (v ++ c :: r)))) = some (ds.map .obj))
    (ha : Ended isLineEnd a) (hv : v.all isWs = true) (hc : isWs c = false) :
    isSpace c = true ∨ c = '{' := by
  obtain ⟨v₁, hsplit, hended, hno⟩ := afterLast_split isLineEnd v
  generalize afterLast isLineEnd v = v₂ at hsplit hno
  subst hsplit
  rw [List.all_append, Bool.and_eq_true] at hv
  have hcEnd : isLineEnd c = false := by
    refine Bool.eq_false_iff.mpr fun h => ?_
    simp only [isLineEnd, Bool.or_eq_true, beq_iff_eq] at h
    rcases h with rfl | rfl <;> cases hc
  have hall : ∀ d ∈ v₂ ++ [c], isLineEnd d = false := by
    intro d hd
    rcases List.mem_append.mp hd with hd | hd
    · exact hno d hd
    · rwa [List.mem_singleton.mp hd]
  have hfirst : Ended isLineEnd (a ++ v₁) := by
    rcases hended with rfl | ⟨b, e, rfl, he⟩
    · rwa [List.append_nil]
    · exact .inr ⟨a ++ b, e, (List.append_assoc ..).symm, he⟩
  have hshape : a ++ (v₁ ++ v₂ ++ c :: r) = a ++ v₁ ++ (v₂ ++ [c] ++ r) := by simp
  have hhead : (v₂ ++ [c] ++ r).head? ≠ some '\n' := by
    obtain ⟨d, u, hu⟩ := List.exists_cons_of_ne_nil (show v₂ ++ [c] ≠ [] by simp)
    rw [hu] at hall ⊢
    intro h
    have hd := hall d List.mem_cons_self
    rw [Option.some.inj h] at hd
    cases hd
  obtain ⟨s, ls, hline⟩ := lines_cons_of_no_end hall (by simp) r
  rw [hshape, hfirst.lines_append hhead, hline] at hread
  rcases loads_of_readLines hread (List.mem_append_right _ List.mem_cons_self) with hb | ⟨j, hj, hl⟩
  · exact .inl (List.all_eq_true.mp hb c (by simp))
  · obtain ⟨d, -, rfl⟩ := List.mem_map.mp hj
    have hopens := rt.loads_opensWith v₂ c s (.obj d) hv.2 hc (by
      rw [← hl, List.append_assoc, List.singleton_append])
    exact .inr hopens

variable {l : Text} {d : Dict} {content : Bytes} {ds : List Dict}

/-- A file whose records are read is UTF-8. -/
theorem exists_text (hread : fileRecords rt content = some (ds.map .obj)) :
    ∃ t, content = utf8 t := by
  obtain ⟨ls, hls, -⟩ := Option.bind_eq_some_iff.mp hread
  obtain ⟨t, ht, -⟩ := Option.map_eq_some_iff.mp hls
  exact ⟨t, (utf8_of_decodeUtf8 ht).symm⟩

/-- **When `verify` reads a record that is appended.** -/
theorem fileRecords_append (hl : Recorded rt l d)
    (hread : fileRecords rt content = some (ds.map .obj)) :
    (Finished isLineEnd content → fileRecords rt (content ++ utf8 (l ++ ['\n'])) =
      some ((ds ++ [d]).map .obj)) ∧
    (¬ Finished isLineEnd content → fileRecords rt (content ++ utf8 (l ++ ['\n'])) = none) := by
  obtain ⟨t, rfl⟩ := exists_text hread
  obtain ⟨l', hbrace⟩ := hl.opens
  have hlf : '\n' ∉ l := hl.printable.not_mem (by decide)
  have hcr : '\r' ∉ l := hl.printable.not_mem (by decide)
  rw [finished_utf8, ← utf8_append, fileRecords_utf8]
  rw [fileRecords_utf8] at hread
  -- the file is what ends a line, and a piece without line ends after it
  obtain ⟨a, hsplit, ha, hno⟩ := afterLast_split isLineEnd t
  generalize afterLast isLineEnd t = w at hsplit hno
  subst hsplit
  have hwlf : '\n' ∉ w := fun h => absurd (hno _ h) (by decide)
  have hwcr : '\r' ∉ w := fun h => absurd (hno _ h) (by decide)
  -- the piece and the appended record come back as one line
  have hnew : lines (universal (w ++ (l ++ ['\n']))) = [w ++ (l ++ ['\n'])] := by
    rw [universal_of_not_mem (by simp [hwcr, hcr]), ← List.append_assoc,
      lines_append (by simp [hwlf, hlf])]
    rfl
  have hhead : ∀ r : Text, (w ++ '\x7b' :: r).head? ≠ some '\n' := by
    intro r h
    cases w with
    | nil => cases h
    | cons c w => exact hwlf (Option.some.inj h ▸ List.mem_cons_self)
  have hnewline : blank (w ++ (l ++ ['\n'])) = false :=
    blank_false (c := '{') (by simp [hbrace]) (by decide)
  have hwhead : w.head? ≠ some '\n' := fun h => hwlf (List.mem_of_mem_head? h)
  have hread' := hread
  rw [ha.lines_append hwhead, universal_of_not_mem hwcr, readLines_append] at hread
  obtain ⟨js₁, hjs₁, hrest⟩ := Option.bind_eq_some_iff.mp hread
  obtain ⟨js₂, hjs₂, hjs⟩ := Option.map_eq_some_iff.mp hrest
  rw [List.append_assoc, ha.lines_append (by rw [hbrace]; exact hhead _), hnew,
    readLines_append, hjs₁, Option.bind_some, readLines_singleton hnewline]
  constructor
  · intro hw
    -- a piece of white space held no record
    have hnone : js₂ = [] := by
      cases w with
      | nil =>
        cases hjs₂
        rfl
      | cons c w =>
        rw [lines_unterminated hwlf (List.cons_ne_nil _ _), readLines_blank (blank_of_ws hw)]
          at hjs₂
        exact (Option.some.inj hjs₂).symm
    rw [hnone, List.append_nil] at hjs
    rw [hl.parses w ['\n'] hw (by decide), hjs, List.map_append]
    rfl
  · intro hw
    obtain ⟨v, c, r, rfl, hv, hc⟩ := exists_first hw
    suffices rt.loads ((v ++ c :: r) ++ (l ++ ['\n'])) = none by rw [this]; rfl
    -- what is no JSON white space opens no value, or the value is an object
    rcases space_or_brace hread' ha hv hc with hspace | rfl
    · cases hj : rt.loads (v ++ c :: r ++ (l ++ ['\n'])) with
      | none => rfl
      | some j =>
        rw [List.append_assoc, List.cons_append] at hj
        exact absurd (rt.loads_opensWith v c _ j hv hc hj) (not_opensWith_of_isSpace hspace j)
    · -- a record that is not ended, and then more than white space
      have hvisible : blank (v ++ '{' :: r) = false := blank_false (c := '{') (by simp) (by decide)
      rw [lines_unterminated hwlf (by simp), readLines_singleton hvisible] at hjs₂
      obtain ⟨j, hj, rfl⟩ := Option.map_eq_some_iff.mp hjs₂
      have hmem : j ∈ ds.map Json.obj := by
        rw [← hjs]
        simp
      obtain ⟨e, -, rfl⟩ := List.mem_map.mp hmem
      rw [hbrace]
      exact rt.loads_extra _ e '{' _ hj (by decide)

/-- **What `_tail_record` makes of a record that is appended.** -/
theorem tailRecord_append (hl : Recorded rt l d)
    (hread : fileRecords rt content = some (ds.map .obj)) :
    (Finished isLineFeed content →
      tailRecord rt (content ++ utf8 (l ++ ['\n'])) = .ok (some (.obj d))) ∧
    (¬ Finished isLineFeed content → ∀ tail, tailRecord rt content = .ok tail →
      ∃ e, tailRecord rt (content ++ utf8 (l ++ ['\n'])) = .error e) := by
  obtain ⟨t, rfl⟩ := exists_text hread
  obtain ⟨l', hbrace⟩ := hl.opens
  have hlf : '\n' ∉ l := hl.printable.not_mem (by decide)
  rw [finished_utf8]
  rw [fileRecords_utf8] at hread
  -- here only a line feed ends a line
  obtain ⟨a, hsplit, ha, hno⟩ := afterLast_split isLineFeed t
  generalize afterLast isLineFeed t = w at hsplit hno
  subst hsplit
  have hwlf : '\n' ∉ w := fun h => absurd (hno _ h) (by decide)
  have hbytes : EndsLine (utf8 a) := by
    rcases ha with rfl | ⟨b, e, rfl, he⟩
    · exact .inl rfl
    · obtain rfl : e = '\n' := by simpa [isLineFeed] using he
      exact .inr ⟨utf8 b, by rw [utf8_append, utf8_newline]⟩
  have hended : Ended isLineEnd a := by
    rcases ha with rfl | ⟨b, e, rfl, he⟩
    · exact .inl rfl
    · exact .inr ⟨b, e, rfl, by rw [isLineEnd, Bool.or_eq_true]; exact .inl he⟩
  have hvisible : ∀ u : Text, '{' ∈ u → blankBytes (utf8 u) = false := by
    intro u hu
    obtain ⟨x, y, rfl⟩ := List.append_of_mem hu
    rw [utf8_append, utf8_cons]
    exact blankBytes_false (x := 0x7b)
      (List.mem_append_right _ (List.mem_append_left _ (by decide)))
      (by decide)
  -- the last line is the piece and the appended record
  have htail : tailRecord rt (utf8 (a ++ w) ++ utf8 (l ++ ['\n'])) =
      (loadsText rt (w ++ l)).map some := by
    rw [utf8_append, utf8_append l, utf8_newline, List.append_assoc, ← List.append_assoc (utf8 w),
      ← utf8_append, tailRecord_last rt hbytes (lf_not_mem_utf8 (by simp [hwlf, hlf]))
        (hvisible _ (by simp [hbrace])) (.inr rfl), loadsBytes_utf8]
  rw [htail, loadsText]
  constructor
  · intro hw
    have hparse := hl.parses w [] hw rfl
    rw [List.append_nil] at hparse
    rw [hparse]
    rfl
  · intro hw tail hok
    obtain ⟨v, c, r, rfl, hv, hc⟩ := exists_first hw
    suffices rt.loads ((v ++ c :: r) ++ l) = none by
      rw [this]
      exact ⟨_, rfl⟩
    rcases space_or_brace hread hended hv hc with hspace | rfl
    · cases hj : rt.loads (v ++ c :: r ++ l) with
      | none => rfl
      | some j =>
        rw [List.append_assoc, List.cons_append] at hj
        exact absurd (rt.loads_opensWith v c _ j hv hc hj) (not_opensWith_of_isSpace hspace j)
    · -- the last piece was read before, as an object
      have hpiece := tailRecord_last rt hbytes (lf_not_mem_utf8 hwlf)
        (hvisible _ (by simp)) (.inl rfl)
      rw [List.append_nil, ← utf8_append, hok, loadsBytes_utf8, loadsText] at hpiece
      cases hj : rt.loads (v ++ '{' :: r) with
      | none =>
        rw [hj] at hpiece
        cases hpiece
      | some j =>
        have hopens := rt.loads_opensWith v '{' r j hv hc hj
        obtain ⟨e, rfl⟩ := obj_of_opensWith hopens
        rw [hbrace]
        exact rt.loads_extra _ e '{' _ hj (by decide)

/-! ## `write` on any file -/

section Write

variable {clock : Nat → String} {log : AuditLog} {c : Call} {w : World} {body : Dict}
  {bytes : Bytes}

theorem opened_content (hc : content = (w.dir.read log.path.active).getD []) :
    ((w.dir.touch log.path.active []).read log.path.active).getD [] = content := by
  rw [Dir.read_touch, if_pos rfl, Option.getD_some, hc]

theorem write_error (hc : content = (w.dir.read log.path.active).getD []) {err : PyError}
    (happ : appendRecord rt log c.entry c.stamp content = .error err) :
    (write rt clock log c w).1 = .error err := by
  simp only [write, opened_content hc, happ]

/-- Below its bound the file has one line more. -/
theorem write_below (hc : content = (w.dir.read log.path.active).getD [])
    (happ : appendRecord rt log c.entry c.stamp content = .ok (body, bytes))
    (hsize : ¬ log.rotateBytes ≤ (content ++ bytes).length) :
    ∃ w', write rt clock log c w = (.ok (AuditRecord.ofBody body), w') ∧
      ∀ n, w'.dir.read n = if n = log.path.active then some (content ++ bytes)
        else w.dir.read n := by
  refine ⟨_, write_of_parts (opened_content hc).symm happ rfl (if_neg hsize), fun n => ?_⟩
  rw [forward_dir, Dir.read_write]
  by_cases hn : n = log.path.active
  · rw [if_pos hn, if_pos hn]
  · rw [if_neg hn, if_neg hn, Dir.read_touch, if_neg hn]

/-- At its bound the file is renamed, and a marker starts the next one. -/
theorem write_rotates (hc : content = (w.dir.read log.path.active).getD [])
    (happ : appendRecord rt log c.entry c.stamp content = .ok (body, bytes))
    (hsize : log.rotateBytes ≤ (content ++ bytes).length) {j : Json}
    (hhead : head rt (content ++ bytes) = .ok j) :
    ∃ w', write rt clock log c w = (.ok (AuditRecord.ofBody body), w') ∧
      ∀ n, w'.dir.read n =
        if n = log.path.active then
          some (markerBytes rt log c.markerStamp (log.path.rotated (clock w.rotations)) j)
        else if n = log.path.rotated (clock w.rotations) then some (content ++ bytes)
        else w.dir.read n := by
  obtain ⟨opened, hopened⟩ :
    ∃ opened, opened = (w.dir.touch log.path.active []).write log.path.active
    (content ++ bytes) := ⟨_, rfl⟩
  have hactive : opened.read log.path.active = some (content ++ bytes) := by
    rw [hopened, Dir.read_write_self]
  cases hren : opened.rename log.path.active (log.path.rotated (clock w.rotations)) with
  | none =>
    rw [Dir.rename_eq_none.mp hren] at hactive
    cases hactive
  | some dir =>
    have hrot : rotate rt clock log c.markerStamp { w with dir := opened } = .ok { w with
        dir := (dir.touch log.path.active []).write log.path.active
          (markerBytes rt log c.markerStamp (log.path.rotated (clock w.rotations)) j)
        rotations := w.rotations + 1 } := by
      simp only [rotate, hactive, hhead, bind, Except.bind, hren]
    refine ⟨_, write_of_parts (opened_content hc).symm happ rfl
      (by rw [if_pos hsize, ← hopened]; exact hrot), fun n => ?_⟩
    rw [forward_dir, Dir.read_write]
    by_cases hn : n = log.path.active
    · rw [if_pos hn, if_pos hn]
    · have hrest : opened.read n = w.dir.read n := by
        rw [hopened, Dir.read_write, if_neg hn, Dir.read_touch, if_neg hn]
      rw [if_neg hn, if_neg hn, Dir.read_touch, if_neg hn, Dir.read_rename hren, hactive,
        if_neg hn, hrest]

/-- A rotation that does not find the head raises. -/
theorem write_not_rotated (hc : content = (w.dir.read log.path.active).getD [])
    (happ : appendRecord rt log c.entry c.stamp content = .ok (body, bytes))
    (hsize : log.rotateBytes ≤ (content ++ bytes).length) {err : PyError}
    (hhead : head rt (content ++ bytes) = .error err) :
    (write rt clock log c w).1 = .error err := by
  simp only [write, opened_content hc, happ, if_pos hsize, rotate, Dir.read_write_self, hhead, bind,
    Except.bind]

end Write
end ComplianceMcp
