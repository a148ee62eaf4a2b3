import ComplianceMcp.AuditSequence
import ComplianceMcp.SplitLines

/-! # The audit excerpt of a pack

`audit_lines_for` reads the active file and keeps the lines that mention a draft.  Writer and
verifier know a line by its line feed and a chain by its files; the excerpt is cut by
`str.splitlines`, which breaks at U+0085, U+2028 and U+2029 too, and is taken from the active
file alone.  Those three characters stand unescaped in a record, and a rotation can come
between the filing of a draft and its export. -/
namespace ComplianceMcp

open PyJson PyText Files

/-- `audit_lines_for(draft_id, audit_file)`. -/
def auditLinesFor (draftId : String) (p : ChainPath) (d : Dir Bytes) : Except PyError (List Text) :=
  match d.read p.active with
  | none => .ok []
  | some content =>
    match decodeUtf8 content with
    | none => .error .unicodeDecodeError
    | some t => .ok ((splitlines (universal t)).filter (fun line => contains line draftId.toList))

/-! ## The lines of a chain -/

/-- A line without the line feed that ends it. -/
def withoutBreak (line : Text) : Text := if line.getLast? = some '\n' then line.dropLast else line

/-- The lines of a file that hold records, as the verifier reads them. -/
def recordLines (content : Bytes) : List Text :=
  (((textLines content).getD []).filter (fun l => !blank l)).map withoutBreak

/-- The lines of the named file of the chain. -/
def linesOf (d : Dir Bytes) (name : String) : List Text := recordLines ((d.read name).getD [])

/-- The lines of the chain that mention the draft, in chain order. -/
def mentioning (draftId : String) (p : ChainPath) (d : Dir Bytes) : List Text :=
  ((chainFiles p d).flatMap (linesOf d)).filter (fun l => contains l draftId.toList)

/-- The excerpt has exactly the records that mention the draft, each as its whole line. -/
def ExcerptWhole (draftId : String) (p : ChainPath) (d : Dir Bytes) : Prop :=
  auditLinesFor draftId p d = .ok (mentioning draftId p d)

/-- No rotated file mentions the draft, and no line that mentions it has a character the
excerpt would break at. -/
structure ExcerptSees (draftId : String) (p : ChainPath) (d : Dir Bytes) : Prop where
  archived : ∀ n ∈ chainFiles p d, n ≠ p.active →
    ∀ l ∈ linesOf d n, contains l draftId.toList = false
  unbroken : ∀ l ∈ linesOf d p.active, contains l draftId.toList = true →
    ∀ c ∈ l, isLineBoundary c = false

/-! ## The excerpt against the chain -/

section Excerpt

variable {m : Text → Bool}

/-- A line that is not kept has no piece that is. -/
theorem pieces_dropped (hm : ∀ {x y : Text}, x <:+: y → m x = true → m y = true) {l : Text}
    (h : '\r' ∉ l) (hl : m l = false) : (pieces l).filter m = [] := by
  obtain ⟨-, -, -, -, hall⟩ := pieces_spec h
  refine List.filter_eq_nil_iff.mpr (fun y hy hk => ?_)
  rw [hm (hall y hy).1 hk] at hl
  cases hl

/-- Where no kept line has a break, the kept pieces are the kept lines. -/
theorem kept_pieces (hm : ∀ {x y : Text}, x <:+: y → m x = true → m y = true) {ls : List Text}
    (h : ∀ l ∈ ls, '\r' ∉ l) (hb : ∀ l ∈ ls, m l = true → ∀ c ∈ l, isLineBoundary c = false) :
    (ls.flatMap pieces).filter m = ls.filter m := by
  induction ls with
  | nil => rfl
  | cons l ls ih =>
    have hrest := ih (fun k hk => h k (List.mem_cons_of_mem _ hk))
      (fun k hk => hb k (List.mem_cons_of_mem _ hk))
    have hl := h l List.mem_cons_self
    rw [List.flatMap_cons, List.filter_append, hrest]
    by_cases hk : m l = true
    · rw [pieces_eq_self hl (hb l List.mem_cons_self hk), List.filter_cons_of_pos hk,
        List.filter_cons_of_pos hk]
      rfl
    · rw [pieces_dropped hm hl (Bool.eq_false_of_not_eq_true hk), List.filter_cons_of_neg hk]
      rfl

/-- The kept pieces of the lines `ls` are the kept lines of `as ++ ls` exactly when nothing
in `as` is kept and no kept line has a break. -/
theorem kept_pieces_iff (hm : ∀ {x y : Text}, x <:+: y → m x = true → m y = true)
    {as ls : List Text} (h : ∀ l ∈ ls, '\r' ∉ l) :
    (ls.flatMap pieces).filter m = (as ++ ls).filter m ↔
      (∀ l ∈ as, m l = false) ∧ ∀ l ∈ ls, m l = true → ∀ c ∈ l, isLineBoundary c = false := by
  constructor
  · intro he
    have hb : ∀ l ∈ ls, m l = true → ∀ c ∈ l, isLineBoundary c = false := by
      intro l hl hk
      have hmem : l ∈ (ls.flatMap pieces).filter m := by
        rw [he]
        exact List.mem_filter.mpr ⟨List.mem_append_right _ hl, hk⟩
      obtain ⟨k, hk', hp⟩ := List.mem_flatMap.mp (List.mem_filter.mp hmem).1
      obtain ⟨-, -, -, -, hall⟩ := pieces_spec (h k hk')
      exact (hall l hp).2
    rw [kept_pieces hm h hb, List.filter_append] at he
    have hnil : as.filter m = [] := List.self_eq_append_left.mp he
    refine ⟨fun l hl => ?_, hb⟩
    exact Bool.eq_false_of_not_eq_true (List.filter_eq_nil_iff.mp hnil l hl)
  · rintro ⟨ha, hb⟩
    have hnil : as.filter m = [] :=
      List.filter_eq_nil_iff.mpr (fun l hl => by rw [ha l hl]; exact Bool.false_ne_true)
    rw [kept_pieces hm h hb, List.filter_append, hnil, List.nil_append]

end Excerpt

section Represented

variable {rt : Runtime} {p : ChainPath} {d : Dir Bytes} {l : Ledger}

theorem withoutBreak_line (x : Text) : withoutBreak (x ++ ['\n']) = x := by
  rw [withoutBreak, List.getLast?_concat, if_pos rfl, List.dropLast_concat]

/-- The lines of a file of records, as the verifier reads them. -/
theorem recordLines_fileOf {ls : List Text} {ds : List Dict}
    (h : List.Forall₂ (Recorded rt) ls ds) :
    recordLines (fileOf ls) = ls := by
  have hp := Recorded.printable_of_forall₂ h
  have hlf : ∀ l ∈ ls, '\n' ∉ l := fun l hl => (hp l hl).not_mem (by decide)
  have hcr : ∀ l ∈ ls, '\r' ∉ l := fun l hl => (hp l hl).not_mem (by decide)
  rw [recordLines, textLines, fileOf, decodeUtf8_utf8, Option.map_some,
    universal_of_not_mem (unlines_not_mem hcr (by decide)), lines_unlines hlf, Option.getD_some]
  clear hp hlf hcr
  induction h with
  | nil => rfl
  | @cons l d ls ds hl _ ih =>
    rw [List.map_cons, List.filter_cons_of_pos (by rw [hl.not_blank]; rfl), List.map_cons,
      withoutBreak_line, ih]

theorem contains_infix {x y k : Text} (h : x <:+: y) (hx : contains x k = true) :
    contains y k = true :=
  contains_iff.mpr ((contains_iff.mp hx).trans h)

/-- **What the excerpt shows of a represented chain.** -/
theorem Represents.excerpt_iff (h : Represents rt p d l) (draftId : String) :
    ExcerptWhole draftId p d ↔ ExcerptSees draftId p d := by
  obtain ⟨ls, hls, hrec⟩ := h.active
  have hcr : ∀ k ∈ ls, '\r' ∉ k := fun k hk =>
    (Recorded.printable_of_forall₂ hrec k hk).not_mem (by decide)
  have hactive : linesOf d p.active = ls := by rw [linesOf, hls, recordLines_fileOf hrec]
  have hexcerpt : auditLinesFor draftId p d =
      .ok ((ls.flatMap pieces).filter (fun k => contains k draftId.toList)) := by
    rw [auditLinesFor]
    cases hr : d.read p.active with
    | none =>
      rw [linesOf, hr, Option.getD_none] at hactive
      rw [← hactive]
      rfl
    | some content =>
      rw [hr, Option.getD_some] at hls
      rw [hls, fileOf]
      dsimp only
      rw [decodeUtf8_utf8]
      dsimp only
      rw [universal_of_not_mem (unlines_not_mem hcr (by decide)), splitlines_unlines hcr]
  have hchain : (chainFiles p d).flatMap (linesOf d) =
      (l.archived.map Prod.fst).flatMap (linesOf d) ++ ls := by
    rw [h.chainFiles_eq, List.flatMap_append]
    cases hr : d.read p.active with
    | none =>
      rw [linesOf, hr, Option.getD_none] at hactive
      rw [← hactive]
      rfl
    | some content =>
      rw [Option.isSome_some, if_pos rfl, List.flatMap_singleton, hactive]
  rw [ExcerptWhole, hexcerpt, mentioning, hchain, Except.ok.injEq,
    kept_pieces_iff (m := fun k => contains k draftId.toList) contains_infix hcr]
  -- the files before the active one are the archived ones
  have hbefore : ∀ n, n ∈ l.archived.map Prod.fst ↔ n ∈ chainFiles p d ∧ n ≠ p.active := by
    intro n
    rw [h.chainFiles_eq, List.mem_append]
    constructor
    · intro hn
      exact ⟨Or.inl hn, h.ne_active_of_mem hn⟩
    · rintro ⟨hn | hn, hne⟩
      · exact hn
      · split at hn
        · exact absurd (List.mem_singleton.mp hn) hne
        · cases hn
  constructor
  · rintro ⟨ha, hb⟩
    refine ⟨fun n hn hne k hk => ha k ?_, by rw [hactive]; exact hb⟩
    exact List.mem_flatMap.mpr ⟨n, (hbefore n).mpr ⟨hn, hne⟩, hk⟩
  · rintro ⟨ha, hb⟩
    rw [hactive] at hb
    refine ⟨fun k hk => ?_, hb⟩
    obtain ⟨n, hn, hk⟩ := List.mem_flatMap.mp hk
    exact ha n ((hbefore n).mp hn).1 ((hbefore n).mp hn).2 k hk

end Represented

/-- **An excerpt shows what is in the active file and on one line.**  After any sequence of
operations through any number of instances, it holds exactly the records that mention the
draft, whole and in chain order, if and only if no rotated file mentions the draft and no
line that does has a character `str.splitlines` breaks at. -/
theorem excerpt_whole_iff (rt : Runtime) (clock : Nat → String) (p : ChainPath) (key : String)
    (ops : List LogOp) (hops : ∀ op ∈ ops, op.log.path = p ∧ op.log.hmacKey = key)
    (hclock : Ascending clock p ops.length) (draftId : String) :
    ExcerptWhole draftId p (runOps rt clock ops World.empty).2.dir ↔
      ExcerptSees draftId p (runOps rt clock ops World.empty).2.dir := by
  obtain ⟨bs, w, l, -, hrun, h, -⟩ :=
    runOps_consistent hclock hops (Consistent.empty rt clock p key)
    (Nat.le_of_eq (Nat.zero_add _))
  rw [hrun]
  exact h.represents.excerpt_iff draftId

/-- The filing of a draft whose title has a line separator in it. -/
def sampleSeparated : Call where
  entry := {
    requester := "ana@firm.example"
    tool := "draft_create"
    args := [("kind", .str "evidence_index"), ("title", .str "Evidence index\u2028AML-TM-04")]
    outcome := "ok"
    resultSummary := "draft d1 (evidence_index) queued for human review"
    sessionId := "s1"
    directoryVersion := "v1"
    args_dict := by decide }
  stamp := ⟨"a", "2025-01-01T00:00:00Z"⟩
  markerStamp := ⟨"a-m", "2025-01-01T00:00:00Z"⟩

theorem excerpt_whole_iff_sample :
    ExcerptWhole "d1" sampleLog.path
        (runOps Runtime.python sampleClock [.write sampleLog sampleSeparated] World.empty).2.dir ↔
      ExcerptSees "d1" sampleLog.path
        (runOps Runtime.python sampleClock [.write sampleLog sampleSeparated]
          World.empty).2.dir := by
  refine excerpt_whole_iff Runtime.python _ sampleLog.path "k" _ ?_ ?_ "d1"
  · intro op hop
    rw [List.mem_singleton.mp hop]
    exact ⟨rfl, rfl⟩
  · intro i j hij hj
    exact absurd (Nat.lt_of_lt_of_le hij (Nat.le_of_lt_succ hj)) (Nat.not_lt_zero i)

/-- The excerpt has the rest of the filing's line after the separator, not the line. -/
theorem separator_cuts_record : ¬ ExcerptWhole "d1" sampleLog.path
    (runOps Runtime.python sampleClock
      [.write { sampleLog with rotateBytes := 50000000 } sampleSeparated]
      World.empty).2.dir := by
  unfold ExcerptWhole
  decide +kernel

end ComplianceMcp
