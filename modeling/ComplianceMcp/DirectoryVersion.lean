import ComplianceMcp.DirectoryRuns
import ComplianceMcp.Steps
import Mathlib.Data.Fintype.Basic

/-! # The version on a record

The record of a call carries the version of the directory, so that a reviewer can tell which
snapshot authorised it.  The version and the user are read by two calls of `_load`, and
users and version are assigned one after the other without the readers' taking the lock.  A
reload that lands between the two reads, or a read between the two assignments, puts the
version of one snapshot beside a decision taken on another. -/
namespace ComplianceMcp

open PyText Steps

variable {P T : Type}

/-! ## The claim and its condition -/

/-- The versions read for a record are those of the snapshots consulted for it. -/
def Attested (rt : Runtime) (r : DirRecord) : Prop :=
  ∀ v ∈ r.versions, ∀ snap ∈ r.consulted, v = versionOf rt snap.raw

/-- The content of the file the users in force were parsed from. -/
def Directory.content (d : Directory) : Option Bytes := d.snapshot.map Snapshot.raw

/-- Users of another content are assigned only while no call of the process has read
anything, and the version is read only when it is that of the users in force. -/
structure ReadsTogether (rt : Runtime) (s : DirState P T) (a : DirAction P T) : Prop where
  assign : ∀ t ∈ a.stepper, ∀ c ∈ s.call t, ∀ snap ∈ c.pc.assigning,
    (s.dir c.proc).content = some snap.raw ∨
      ∀ t', ∀ c' ∈ s.call t', c'.proc = c.proc → c'.versions = [] ∧ c'.consulted = []
  version : ∀ t ∈ a.stepper, ∀ c ∈ s.call t, c.pc.reads = true → c.op = .version →
    (s.dir c.proc).content.map (versionOf rt) = some (s.dir c.proc).version

/-! ## The invariant -/

/-- What a call has read so far agrees with a content of the file. -/
structure Agrees (rt : Runtime) (content : Option Bytes) (c : DirCall P) : Prop where
  versions : ∀ v ∈ c.versions, content.map (versionOf rt) = some v
  consulted : ∀ snap ∈ c.consulted, content = some snap.raw

/-- Whatever a call in progress has read agrees with the users in force. -/
structure Attesting (rt : Runtime) (s : DirState P T) : Prop where
  calls : ∀ t c, s.call t = some c → Agrees rt (s.dir c.proc).content c
  records : ∀ r ∈ s.records, Attested rt r

section Calls

variable {rt : Runtime} {content : Option Bytes} {c : DirCall P}

theorem Agrees.attested (h : Agrees rt content c) : Attested rt ⟨c.versions, c.consulted⟩ := by
  intro v hv snap hs
  have hv := h.versions v hv
  rw [h.consulted snap hs] at hv
  exact (Option.some.inj hv).symm

theorem Agrees.blank (hv : c.versions = []) (hc : c.consulted = []) : Agrees rt content c := by
  constructor
  · rw [hv]
    exact fun _ h => nomatch h
  · rw [hc]
    exact fun _ h => nomatch h

end Calls

section Threads

variable [DecidableEq P] [DecidableEq T]

variable {rt : Runtime} {s s' : DirState P T} {t : T} {c : DirCall P}

omit [DecidableEq P] in
/-- A thread takes a step: the contents other calls have read from stay in force. -/
theorem Attesting.act (h : Attesting rt s) (hcall : ∀ u, u ≠ t → s'.call u = s.call u)
    (hself : ∀ c, s'.call t = some c → Agrees rt (s'.dir c.proc).content c)
    (hdir : ∀ u c, s.call u = some c → (s'.dir c.proc).content = (s.dir c.proc).content ∨
      c.versions = [] ∧ c.consulted = [])
    (hrec : ∀ r ∈ s'.records, Attested rt r) : Attesting rt s' := by
  refine ⟨fun u c hc => ?_, hrec⟩
  by_cases hu : u = t
  · exact hself c (hu ▸ hc)
  rw [hcall u hu] at hc
  rcases hdir u c hc with heq | ⟨hv, hn⟩
  · rw [heq]
    exact h.calls u c hc
  · exact .blank hv hn

omit [DecidableEq P] in
/-- The thread goes on with what it has read. -/
theorem Attesting.goto (h : Attesting rt s) {s₁ : DirState P T}
    (hc : s.call t = some c) (pc : LoadPc) (hcall : s₁.call = s.call)
    (hrec : s₁.records = s.records)
    (hdir : ∀ u c, s.call u = some c → (s₁.dir c.proc).content = (s.dir c.proc).content ∨
      c.versions = [] ∧ c.consulted = []) : Attesting rt (s₁.goto t c pc) := by
  refine h.act (fun u hu => (Function.update_of_ne hu ..).trans (congrFun hcall u))
    (fun c' h' => ?_) hdir (fun r hr => h.records r (hrec ▸ hr))
  rw [DirState.goto_call] at h'
  cases h'
  rcases hdir t c hc with heq | ⟨hv, hn⟩
  · rw [DirState.goto_dir, heq]
    exact ⟨(h.calls t c hc).versions, (h.calls t c hc).consulted⟩
  · exact .blank hv hn

omit [DecidableEq T] in
/-- An assignment that does not touch the users. -/
theorem setDir_content (s : DirState P T) (p : P) (d : Directory)
    (hd : d.snapshot = (s.dir p).snapshot) (q : P) :
    ((s.setDir p d).dir q).content = (s.dir q).content := by
  by_cases hq : q = p
  · subst hq
    rw [DirState.setDir_dir]
    exact congrArg (Option.map Snapshot.raw) hd
  · exact congrArg Directory.content (Function.update_of_ne hq ..)

omit [DecidableEq P] in
/-- The call goes on with the next operation, or is recorded. -/
theorem Attesting.advance (h : Attesting rt s) {w : DirState P T}
    (hcall : w.call = s.call) (hrec : w.records = s.records) (hdir : w.dir = s.dir)
    (hag : Agrees rt (s.dir c.proc).content c) : Attesting rt (w.advance t c) := by
  have hd : (w.advance t c).dir = s.dir := by
    unfold DirState.advance
    split <;> exact hdir
  refine h.act (t := t) (fun u hu => ?_) (fun c' h' => ?_) (fun u c' _ => Or.inl (by rw [hd]))
    (fun r hr => ?_)
  · unfold DirState.advance
    split <;> exact (Function.update_of_ne hu ..).trans (congrFun hcall u)
  · rw [hd]
    rcases advance_call w t c with hn | ⟨op, rest, hn⟩ <;> rw [hn] at h' <;> cases h'
    exact ⟨hag.versions, hag.consulted⟩
  · unfold DirState.advance at hr
    split at hr
    · rcases List.mem_append.mp hr with hold | hnew
      · exact h.records r (hrec ▸ hold)
      · rw [List.mem_singleton.mp hnew]
        exact hag.attested
    · exact h.records r (hrec ▸ hr)

theorem Attesting.abort (h : Attesting rt s) (hc : s.call t = some c) :
    Attesting rt (s.abort t c) := by
  refine h.act (t := t) (fun u hu => Function.update_of_ne hu ..) (fun c' h' => ?_)
    (fun u c' _ => Or.inl rfl) (fun r hr => ?_)
  · unfold DirState.abort at h'
    rw [DirState.finish_call] at h'
    cases h'
  · rcases List.mem_append.mp hr with hold | hnew
    · exact h.records r hold
    · rw [List.mem_singleton.mp hnew]
      exact (h.calls t c hc).attested

omit [DecidableEq P] in
theorem Attesting.use {now : Int} (h : Attesting rt s) (hcond : ReadsTogether rt s (.step t))
    (hc : s.call t = some c) (hpc : c.pc = .use now) : Attesting rt (s.useOf rt t c now) := by
  have hag := h.calls t c hc
  have hadd : ∀ snap, (s.dir c.proc).snapshot = some snap →
      Agrees rt (s.dir c.proc).content { c with consulted := snap :: c.consulted } := by
    intro snap hs
    refine ⟨hag.versions, fun sn hm => ?_⟩
    rcases List.mem_cons.mp hm with rfl | hm
    · exact congrArg (Option.map Snapshot.raw) hs
    · exact hag.consulted sn hm
  obtain ⟨s₁, he, hu⟩ : ∃ s₁, s.useOf rt t c now = s₁ ∧ Used rt s t c now s₁ :=
    ⟨_, rfl, useOf_cases s t c now⟩
  rw [he]
  cases hu with
  | version hop =>
    refine h.advance (c := { c with versions := _ }) rfl rfl rfl ⟨fun v hm => ?_, hag.consulted⟩
    rcases List.mem_cons.mp hm with rfl | hm
    · exact hcond.version t rfl c hc (by rw [hpc]; rfl) hop
    · exact hag.versions v hm
  | nothing => exact h.advance rfl rfl rfl hag
  | refused snap hs => exact h.advance (c := { c with consulted := _ }) rfl rfl rfl (hadd snap hs)
  | answered snap user hs ha =>
    exact h.advance (w := s.answered _) (c := { c with consulted := _ }) rfl rfl rfl (hadd snap hs)

/-- **Every step that keeps reads together keeps the versions attested.** -/
theorem Attesting.step {parse : Bytes → Except PyError (List User)} {ttl : Int} {a : DirAction P T}
    (h : Attesting rt s) (hcond : ReadsTogether rt s a) (hs : dirStep rt parse ttl s a = some s') :
    Attesting rt s' := by
  cases dirStep_cases hs with
  | tick n => exact ⟨h.calls, h.records⟩
  | remove => exact ⟨h.calls, h.records⟩
  | replace f hnew => exact ⟨h.calls, h.records⟩
  | start t p op rest hc =>
    refine h.act (t := t) (fun u hu => Function.update_of_ne hu ..) (fun c' h' => ?_)
      (fun _ _ _ => Or.inl rfl) h.records
    change Function.update s.call t _ t = some c' at h'
    rw [Function.update_self] at h'
    cases h'
    exact .blank rfl rfl
  | move t c pc hc hm => exact h.goto hc pc rfl rfl (fun _ _ _ => Or.inl rfl)
  | acquire t c now hc hpc hfree =>
    exact h.goto hc _ rfl rfl (fun _ c' _ => Or.inl
      (setDir_content (s.lock c.proc t) c.proc { s.dir c.proc with checkedAt := now } rfl c'.proc))
  | confirm t c now f hc hpc hf hop hm => exact h.goto hc _ rfl rfl (fun _ _ _ => Or.inl rfl)
  | abort t c a ha hc hpc => exact h.abort hc
  | assignUsers t c now mtime snap hc hpc =>
    refine h.goto hc _ rfl rfl (fun u c' hu => ?_)
    by_cases hp : c'.proc = c.proc
    · rcases hcond.assign t rfl c hc snap (by rw [hpc]; rfl) with hsame | hnone
      · refine Or.inl ?_
        rw [hp, DirState.setDir_dir, hsame]
        rfl
      · exact Or.inr (hnone u c' hu hp)
    · exact Or.inl (congrArg Directory.content (Function.update_of_ne hp ..))
  | assignVersion t c now mtime snap hc hpc =>
    refine h.goto hc _ rfl rfl (fun _ c' _ => Or.inl ?_)
    rw [DirState.release_dir]
    exact setDir_content s c.proc { s.dir c.proc with version := _, mtime := mtime } rfl c'.proc
  | use t c now hc hpc => exact h.use hcond hc hpc

/-- **A record carries the version of the snapshot that was consulted.**  In every run in
which reloads with another content come between calls, and nobody reads the version between
the two assignments of a reload. -/
theorem records_carry_consulted_version (rt : Runtime) (parse : Bytes → Except PyError (List User))
    (ttl clock : Int) (as : List (DirAction P T)) (s : DirState P T)
    (hm : Meets (dirStep rt parse ttl) (ReadsTogether rt) (DirState.start clock) as)
    (hr : run (dirStep rt parse ttl) (DirState.start clock) as = some s) :
    ∀ r ∈ s.records, Attested rt r :=
  (hm.invariant (fun _ _ _ hi hc hs => Attesting.step hi hc hs)
    ⟨fun _ _ h => (nomatch h), fun _ h => (nomatch h)⟩ hr).records

instance [Fintype T] (rt : Runtime) (s : DirState P T) (a : DirAction P T) :
    Decidable (ReadsTogether rt s a) :=
  @decidable_of_iff _
    ((∀ t ∈ a.stepper, ∀ c ∈ s.call t, ∀ snap ∈ c.pc.assigning,
      (s.dir c.proc).content = some snap.raw ∨
        ∀ t', ∀ c' ∈ s.call t', c'.proc = c.proc → c'.versions = [] ∧ c'.consulted = []) ∧
      ∀ t ∈ a.stepper, ∀ c ∈ s.call t, c.pc.reads = true → c.op = .version →
        (s.dir c.proc).content.map (versionOf rt) = some (s.dir c.proc).version)
    ⟨fun h => ⟨h.1, h.2⟩, fun h => ⟨h.assign, h.version⟩⟩
    (@instDecidableAnd _ _ inferInstance inferInstance)

/-- A tool call right after the construction of the directory, and one that reloads a changed file
before it reads the version. -/
def sampleReloadFirst : List (DirAction Unit Unit) :=
  sampleStartup ++ [.start () () .version [.resolve "0001"]] ++ List.replicate 6 (.step ()) ++
    [.replace (some ⟨2, sampleUsersText false⟩), .tick 60,
      .start () () .version [.resolve "0001"]] ++
    List.replicate 11 (.step ())

theorem records_carry_consulted_version_sample : ∃ s : DirState Unit Unit,
    run (dirStep Runtime.python sampleParse 60) (DirState.start 1000) sampleReloadFirst = some s ∧
    s.records.map (fun r => (r.versions.length, r.consulted.map Snapshot.raw)) =
      [(0, []), (1, [sampleUsersText true]), (1, [sampleUsersText false])] ∧
    ∀ r ∈ s.records, Attested Runtime.python r := by
  have hrun : (run (dirStep Runtime.python sampleParse 60) (DirState.start 1000)
    sampleReloadFirst).map (fun s =>
      s.records.map (fun r => (r.versions.length, r.consulted.map Snapshot.raw))) =
        some [(0, []), (1, [sampleUsersText true]), (1, [sampleUsersText false])] := by
          decide +kernel
  obtain ⟨s, hs, hread⟩ := Option.map_eq_some_iff.mp hrun
  exact ⟨s, hs, hread, records_carry_consulted_version Runtime.python sampleParse 60 1000 _ s
    (by decide +kernel) hs⟩

/-- The ttl runs out between the two reads of a call, and the file has changed. -/
def sampleReloadBetween : List (DirAction Unit Unit) :=
  sampleStartup ++ [.replace (some ⟨2, sampleUsersText false⟩), .tick 59] ++
    [.start () () .version [.resolve "0001"], .step (), .step (), .step ()] ++
    [.tick 1] ++ List.replicate 8 (.step ())

/-- **A reload between the two reads of a call splits its record.** -/
theorem reload_splits_record : ∃ s : DirState Unit Unit, ∃ r,
    run (dirStep Runtime.python sampleParse 60) (DirState.start 1000) sampleReloadBetween = some s ∧
    r ∈ s.records ∧ ¬ Attested Runtime.python r := by
  have hrun : (run (dirStep Runtime.python sampleParse 60) (DirState.start 1000)
    sampleReloadBetween).any (fun s =>
      s.records.any (fun r => r.versions.any (fun v => r.consulted.any (fun snap =>
        v ≠ versionOf Runtime.python snap.raw)))) = true := by decide +kernel
  obtain ⟨s, hs, hany⟩ := (Option.any_eq_true _ _).mp hrun
  obtain ⟨r, hr, hv⟩ := List.any_eq_true.mp hany
  obtain ⟨v, hv, hc⟩ := List.any_eq_true.mp hv
  obtain ⟨snap, hsnap, hne⟩ := List.any_eq_true.mp hc
  exact ⟨s, r, hs, hr, fun h => of_decide_eq_true hne (h v hv snap hsnap)⟩

end Threads

end ComplianceMcp
