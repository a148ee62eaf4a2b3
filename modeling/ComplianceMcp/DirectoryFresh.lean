import ComplianceMcp.DirectoryRuns
import ComplianceMcp.Steps

/-! # How old an answer can be

`_load` notes the time of the check before it looks at the file.  While a check is under
way, and after one that raised, the calls of the next `ttl_seconds` are answered from a
snapshot nobody has compared with the file, so the bound on the age of an answer is lost.
It holds in the runs where every call answered without a look at the file comes after a
check that finished. -/
namespace ComplianceMcp

open PyText Steps

variable {P T : Type}

/-! ## The claim and its condition -/

/-- The user comes from the users of a snapshot that was the content of the file no more
than `ttl` before the time of the answer. -/
structure Fresh (rt : Runtime) (parse : Bytes → Except PyError (List User)) (ttl : Int)
    (a : DirAnswer) : Prop where
  parsed : parse a.snapshot.raw = .ok a.snapshot.users
  user : a.op.answer rt a.snapshot.users = some (.ok a.user)
  seen : ∃ u, a.seen = some u ∧ a.now - ttl ≤ u

/-- A call that is answered without a look at the file comes after a check that finished. -/
def CheckFinished (ttl : Int) (s : DirState P T) (a : DirAction P T) : Prop :=
  ∀ t ∈ a.stepper, ∀ c ∈ s.call t, ∀ now ∈ c.pc.checking, c.op ≠ .construct →
    now - (s.dir c.proc).checkedAt < ttl → s.confirmed c.proc = true

instance (ttl : Int) (s : DirState P T) (a : DirAction P T) : Decidable (CheckFinished ttl s a) :=
  inferInstanceAs (Decidable (∀ t ∈ a.stepper, ∀ c ∈ s.call t, ∀ now ∈ c.pc.checking,
    c.op ≠ .construct →
    now - (s.dir c.proc).checkedAt < ttl → s.confirmed c.proc = true))

/-! ## The history of the file -/

/-- The file had this content at `u` or later. -/
def FileHistory.Since (e : FileHistory) (raw : Bytes) (u : Int) : Prop :=
  ∃ v, e.last raw = some v ∧ u ≤ v

/-- What the history says about itself. -/
structure FileHistory.Kept (e : FileHistory) : Prop where
  past : ∀ raw v, e.last raw = some v → v ≤ e.clock
  current : ∀ f, e.file = some f → f.mtime ∈ e.mtimes ∧ e.last f.raw = some e.clock

/-- What happens to the file leaves of a history. -/
structure FileHistory.Later (e e' : FileHistory) : Prop where
  clock : e.clock ≤ e'.clock
  mtimes : ∀ m, m ∈ e.mtimes → m ∈ e'.mtimes
  since : ∀ raw u, e.Since raw u → e'.Since raw u
  file : ∀ f, e'.file = some f → e.file = some f ∨ f.mtime ∉ e.mtimes

namespace FileHistory

theorem Since.mono {e : FileHistory} {raw : Bytes} {u u' : Int} (h : e.Since raw u) (hu : u' ≤ u) :
    e.Since raw u' := by
  obtain ⟨v, hv, huv⟩ := h
  exact ⟨v, hv, le_trans hu huv⟩

/-- A content that is there now was there at any time up to now. -/
theorem Kept.since {e : FileHistory} (h : e.Kept) {f : UsersFile} (hf : e.file = some f) {u : Int}
    (hu : u ≤ e.clock) : e.Since f.raw u :=
  ⟨e.clock, (h.current f hf).2, hu⟩

/-- Setting the last time of one content to the present. -/
theorem Kept.since_update {e : FileHistory} (h : e.Kept) {clock : Int} (hc : e.clock ≤ clock)
    (new raw : Bytes) {u : Int} (hs : e.Since raw u) :
    ∃ v, Function.update e.last new (some clock) raw = some v ∧ u ≤ v := by
  obtain ⟨v, hv, hu⟩ := hs
  by_cases hr : raw = new
  · subst hr
    refine ⟨clock, Function.update_self .., ?_⟩
    have := h.past raw v hv
    omega
  · exact ⟨v, by rw [Function.update_of_ne hr, hv], hu⟩

theorem Kept.past_update {e : FileHistory} (h : e.Kept) {clock : Int} (hc : e.clock ≤ clock)
    {new raw : Bytes} {v : Int} (hv : Function.update e.last new (some clock) raw = some v) :
    v ≤ clock := by
  by_cases hr : raw = new
  · subst hr
    rw [Function.update_self] at hv
    cases hv
    exact le_refl _
  · rw [Function.update_of_ne hr] at hv
    have := h.past raw v hv
    omega

theorem Kept.tick {e : FileHistory} (h : e.Kept) (n : Nat) :
    (e.tick n).Kept ∧ e.Later (e.tick n) := by
  rcases e with ⟨clock, file, mtimes, last⟩
  have hc : clock ≤ clock + (n : Int) := by omega
  cases file with
  | none =>
    exact ⟨⟨fun raw v hv => le_trans (h.past raw v hv) hc, fun _ h' => nomatch h'⟩,
      hc, fun _ hm => hm, fun _ _ hs => hs, fun _ h' => nomatch h'⟩
  | some f =>
    refine ⟨⟨fun raw v hv => h.past_update hc hv, fun g h' => ?_⟩, hc, fun _ hm => hm,
      fun raw u hs => h.since_update hc _ raw hs, fun g h' => Or.inl h'⟩
    cases h'
    exact ⟨(h.current f rfl).1, Function.update_self ..⟩

theorem Kept.remove {e : FileHistory} (h : e.Kept) : e.remove.Kept ∧ e.Later e.remove :=
  ⟨⟨h.past, fun _ h' => nomatch h'⟩, le_refl _, fun _ hm => hm, fun _ _ hs => hs,
    fun _ h' => nomatch h'⟩

theorem Kept.replace {e : FileHistory} (h : e.Kept) {f : UsersFile} (hf : f.mtime ∉ e.mtimes) :
    (e.replace f).Kept ∧ e.Later (e.replace f) := by
  refine ⟨⟨fun raw v hv => h.past_update (le_refl _) hv, fun g h' => ?_⟩, le_refl _,
    fun _ hm => List.mem_cons_of_mem _ hm, fun raw u hs => h.since_update (le_refl _) _ raw hs,
    fun g h' => ?_⟩
  · cases h'
    exact ⟨List.mem_cons_self, Function.update_self ..⟩
  · cases h'
    exact Or.inr hf

end FileHistory

/-! ## The invariant -/

/-- The snapshot of the directory was the content of the file at `u` or later. -/
def Covers (e : FileHistory) (d : Directory) (u : Int) : Prop :=
  ∀ snap, d.snapshot = some snap → e.Since snap.raw u

/-- A file with the modification time the directory remembers has the content it holds. -/
def Linked (e : FileHistory) (d : Directory) : Prop :=
  ∀ snap, d.snapshot = some snap →
    d.mtime ∈ e.mtimes ∧ ∀ f, e.file = some f → f.mtime = d.mtime → f.raw = snap.raw

/-- What a thread has read between its `stat` and its assignments. -/
structure Loaded (parse : Bytes → Except PyError (List User)) (e : FileHistory) (now mtime : Int)
    (snap : Snapshot) : Prop where
  stamped : mtime ∈ e.mtimes
  linked : ∀ f, e.file = some f → f.mtime = mtime → f.raw = snap.raw
  since : e.Since snap.raw now
  parsed : parse snap.raw = .ok snap.users

/-- What is known at each place of a load. -/
inductive Placed (parse : Bytes → Except PyError (List User)) (ttl : Int) (e : FileHistory)
    (d : Directory) : LoadPc → Prop where
  | begin : Placed parse ttl e d .begin
  | check {n : Int} (hn : n ≤ e.clock) : Placed parse ttl e d (.check n)
  | acquire {n : Int} (hn : n ≤ e.clock) : Placed parse ttl e d (.acquire n)
  | stat {n : Int} (hn : n ≤ e.clock) (hd : d.checkedAt = n) (hl : Linked e d) :
      Placed parse ttl e d (.stat n)
  | read {n m : Int} (hn : n ≤ e.clock) (hd : d.checkedAt = n) (hl : Linked e d)
      (hm : m ∈ e.mtimes) :
      Placed parse ttl e d (.read n m)
  | assignUsers {n m : Int} {snap : Snapshot} (hn : n ≤ e.clock) (hd : d.checkedAt = n)
      (hs : Loaded parse e n m snap) : Placed parse ttl e d (.assignUsers n m snap)
  | assignVersion {n m : Int} {snap : Snapshot} (hn : n ≤ e.clock) (hd : d.checkedAt = n)
      (hs : Loaded parse e n m snap) (hsnap : d.snapshot = some snap) :
      Placed parse ttl e d (.assignVersion n m snap)
  | use {n : Int} (hn : n ≤ e.clock) (hc : Covers e d (n - ttl)) : Placed parse ttl e d (.use n)

/-- What is known of one process. -/
structure ProcOk (parse : Bytes → Except PyError (List User)) (e : FileHistory) (d : Directory)
    (holder : Option T) (confirmed : Bool) : Prop where
  locked : ∀ t, holder = some t → confirmed = false
  covered : confirmed = true → Covers e d d.checkedAt
  linked : holder = none → Linked e d
  parsed : ∀ snap, d.snapshot = some snap → parse snap.raw = .ok snap.users

/-- **The invariant.**  A thread about to assign users it has read has nobody of its process
waiting to read users it could find too old: `waiting` is what keeps an assignment from
spoiling the answer of another thread. -/
structure Timely (rt : Runtime) (parse : Bytes → Except PyError (List User)) (ttl : Int)
    (s : DirState P T) : Prop where
  kept : s.env.Kept
  owner : ∀ t c, s.call t = some c → c.pc.holds = true → s.holder c.proc = some t
  placed : ∀ t c, s.call t = some c → Placed parse ttl s.env (s.dir c.proc) c.pc
  waiting : ∀ t c n m snap, s.call t = some c → c.pc = .assignUsers n m snap →
    ∀ t' c' n', s.call t' = some c' → c'.proc = c.proc → c'.pc = .use n' →
    s.env.Since snap.raw (n' - ttl)
  proc : ∀ p, ProcOk parse s.env (s.dir p) (s.holder p) (s.confirmed p)
  answers : ∀ a ∈ s.answers, Fresh rt parse ttl a

/-! ## What happens to the file -/

section Environment

variable {parse : Bytes → Except PyError (List User)} {ttl : Int} {e e' : FileHistory}
  {d : Directory}

theorem Covers.later (h : Covers e d u) (hl : e.Later e') : Covers e' d u :=
  fun snap hs => hl.since _ _ (h snap hs)

theorem Covers.mono (h : Covers e d u) (hu : u' ≤ u) : Covers e d u' :=
  fun snap hs => (h snap hs).mono hu

theorem Linked.later (h : Linked e d) (hl : e.Later e') : Linked e' d := by
  intro snap hs
  obtain ⟨hm, hf⟩ := h snap hs
  refine ⟨hl.mtimes _ hm, fun f hf' heq => ?_⟩
  rcases hl.file f hf' with hold | hnew
  · exact hf f hold heq
  · exact absurd (heq ▸ hm) hnew

theorem Loaded.later (h : Loaded parse e n m snap) (hl : e.Later e') :
    Loaded parse e' n m snap := by
  refine ⟨hl.mtimes _ h.stamped, fun f hf heq => ?_, hl.since _ _ h.since, h.parsed⟩
  rcases hl.file f hf with hold | hnew
  · exact h.linked f hold heq
  · exact absurd (heq ▸ h.stamped) hnew

theorem Placed.later {pc : LoadPc} (h : Placed parse ttl e d pc) (hl : e.Later e') :
    Placed parse ttl e' d pc := by
  have hc := hl.clock
  cases h with
  | begin => exact .begin
  | check hn => exact .check (le_trans hn hc)
  | acquire hn => exact .acquire (le_trans hn hc)
  | stat hn hd hk => exact .stat (le_trans hn hc) hd (hk.later hl)
  | read hn hd hk hm => exact .read (le_trans hn hc) hd (hk.later hl) (hl.mtimes _ hm)
  | assignUsers hn hd hs => exact .assignUsers (le_trans hn hc) hd (hs.later hl)
  | assignVersion hn hd hs hsnap => exact .assignVersion (le_trans hn hc) hd (hs.later hl) hsnap
  | use hn hk => exact .use (le_trans hn hc) (hk.later hl)

theorem ProcOk.later {holder : Option T} {confirmed : Bool} (h : ProcOk parse e d holder confirmed)
    (hl : e.Later e') : ProcOk parse e' d holder confirmed :=
  ⟨h.locked, fun hc => (h.covered hc).later hl, fun hf => (h.linked hf).later hl, h.parsed⟩

/-- A thread without the lock knows nothing of the directory but how old its users are. -/
theorem Placed.swap {pc : LoadPc} {d' : Directory} (h : Placed parse ttl e d pc)
    (hfree : pc.holds = false) (hc : ∀ n, pc = .use n → Covers e d' (n - ttl)) :
    Placed parse ttl e d' pc := by
  cases h with
  | begin => exact .begin
  | check hn => exact .check hn
  | acquire hn => exact .acquire hn
  | stat hn hd hk => exact absurd hfree (by simp [LoadPc.holds])
  | read hn hd hk hm => exact absurd hfree (by simp [LoadPc.holds])
  | assignUsers hn hd hs => exact absurd hfree (by simp [LoadPc.holds])
  | assignVersion hn hd hs hsnap => exact absurd hfree (by simp [LoadPc.holds])
  | use hn hk => exact .use hn (hc _ rfl)

theorem Timely.later {rt : Runtime} {s : DirState P T} (h : Timely rt parse ttl s) (hk : e'.Kept)
    (hl : s.env.Later e') : Timely rt parse ttl { s with env := e' } where
  kept := hk
  owner := h.owner
  placed := fun t c hc => (h.placed t c hc).later hl
  waiting := fun t c n m snap hc hpc t' c' n' hc' hp hpc' =>
    hl.since _ _ (h.waiting t c n m snap hc hpc t' c' n' hc' hp hpc')
  proc := fun p => (h.proc p).later hl
  answers := h.answers

end Environment

/-! ## What a thread does -/

/-- Only the thread `t` and its process `p` are touched. -/
structure Frame (t : T) (p : P) (s s' : DirState P T) : Prop where
  env : s'.env = s.env
  dir : ∀ q, q ≠ p → s'.dir q = s.dir q
  holder : ∀ q, q ≠ p → s'.holder q = s.holder q
  confirmed : ∀ q, q ≠ p → s'.confirmed q = s.confirmed q
  call : ∀ u, u ≠ t → s'.call u = s.call u

section Threads

variable [DecidableEq P] [DecidableEq T]

variable {rt : Runtime} {parse : Bytes → Except PyError (List User)} {ttl : Int}
  {s s' : DirState P T} {t : T} {p : P}

/-- **A thread acts on its process.**  It holds the lock, or takes it while it is free, or
leaves directory and lock alone. -/
theorem Timely.act (h : Timely rt parse ttl s) (hf : Frame t p s s')
    (hown : s.holder p = none ∨ s.holder p = some t ∨
      (s'.dir p = s.dir p ∧ s'.holder p = s.holder p))
    (hproc : ProcOk parse s.env (s'.dir p) (s'.holder p) (s'.confirmed p))
    (hself : ∀ c, s'.call t = some c → c.proc = p ∧ (c.pc.holds = true → s'.holder p = some t) ∧
      Placed parse ttl s.env (s'.dir p) c.pc)
    (hothers : ∀ t' c n, t' ≠ t → s.call t' = some c → c.proc = p → c.pc = .use n →
      Covers s.env (s'.dir p) (n - ttl))
    (hwait : ∀ c n m snap, s'.call t = some c → c.pc = .assignUsers n m snap →
      ∀ t' c' n', t' ≠ t → s.call t' = some c' → c'.proc = p → c'.pc = .use n' →
        s.env.Since snap.raw (n' - ttl))
    (huse : ∀ c n, s'.call t = some c → c.pc = .use n →
      ∀ t' c', t' ≠ t → s.call t' = some c' → c'.proc = p → c'.pc.holds = false)
    (hans : ∀ a ∈ s'.answers, Fresh rt parse ttl a) : Timely rt parse ttl s' := by
  -- a thread other than `t` that holds the lock of `p` finds directory and lock as they were
  have hkeep : ∀ t' c, t' ≠ t → s.call t' = some c → c.proc = p → c.pc.holds = true →
      s'.dir p = s.dir p ∧ s'.holder p = s.holder p := by
    intro t' c hne hc hp hh
    have ho := hp ▸ h.owner t' c hc hh
    rcases hown with hn | ht | hsame
    · rw [hn] at ho
      cases ho
    · rw [ht] at ho
      exact absurd (Option.some.inj ho).symm hne
    · exact hsame
  -- owner, placed, waiting and proc, each for the acting thread and for the others
  refine ⟨hf.env ▸ h.kept, fun u c hc hh => ?_, fun u c hc => ?_, ?_, fun q => ?_, hans⟩
  · by_cases hu : u = t
    · subst hu
      obtain ⟨hp, ho, -⟩ := hself c hc
      exact hp ▸ ho hh
    · rw [hf.call u hu] at hc
      by_cases hp : c.proc = p
      · have ho := h.owner u c hc hh
        rw [hp] at ho ⊢
        rw [(hkeep u c hu hc hp hh).2, ho]
      · rw [hf.holder _ hp]
        exact h.owner u c hc hh
  · rw [hf.env]
    by_cases hu : u = t
    · subst hu
      obtain ⟨hp, -, hpl⟩ := hself c hc
      exact hp ▸ hpl
    · rw [hf.call u hu] at hc
      have hpl := h.placed u c hc
      by_cases hp : c.proc = p
      · rw [hp] at hpl ⊢
        cases hh : c.pc.holds with
        | true => exact (hkeep u c hu hc hp hh).1 ▸ hpl
        | false => exact hpl.swap hh (fun n hpc => hothers u c n hu hc hp hpc)
      · rw [hf.dir _ hp]
        exact hpl
  · intro u c n m snap hc hpc u' c' n' hc' hp' hpc'
    rw [hf.env]
    by_cases hu : u = t
    · subst hu
      obtain ⟨hp, -, -⟩ := hself c hc
      by_cases hu' : u' = u
      · subst hu'
        rw [hc] at hc'
        cases hc'
        rw [hpc] at hpc'
        cases hpc'
      · rw [hf.call u' hu'] at hc'
        exact hwait c n m snap hc hpc u' c' n' hu' hc' (hp'.trans hp) hpc'
    · rw [hf.call u hu] at hc
      by_cases hu' : u' = t
      · subst hu'
        obtain ⟨hp, -, -⟩ := hself c' hc'
        have hfree := huse c' n' hc' hpc' u c hu hc (hp'.symm.trans hp)
        rw [hpc] at hfree
        cases hfree
      · rw [hf.call u' hu'] at hc'
        exact h.waiting u c n m snap hc hpc u' c' n' hc' hp' hpc'
  · rw [hf.env]
    by_cases hq : q = p
    · subst hq
      exact hproc
    · rw [hf.dir q hq, hf.holder q hq, hf.confirmed q hq]
      exact h.proc q

/-! ### Frames -/

namespace Frame

omit [DecidableEq P] [DecidableEq T] in
theorem refl (t : T) (p : P) (s : DirState P T) : Frame t p s s :=
  ⟨rfl, fun _ _ => rfl, fun _ _ => rfl, fun _ _ => rfl, fun _ _ => rfl⟩

omit [DecidableEq P] in
theorem goto (h : Frame t p s s') (c : DirCall P) (pc : LoadPc) : Frame t p s (s'.goto t c pc) :=
  ⟨h.env, h.dir, h.holder, h.confirmed,
    fun u hu => (Function.update_of_ne hu ..).trans (h.call u hu)⟩

omit [DecidableEq T] in
theorem setDir (h : Frame t p s s') (d : Directory) : Frame t p s (s'.setDir p d) :=
  ⟨h.env, fun q hq => (Function.update_of_ne hq ..).trans (h.dir q hq), h.holder,
    h.confirmed, h.call⟩

omit [DecidableEq T] in
theorem lock (h : Frame t p s s') : Frame t p s (s'.lock p t) :=
  ⟨h.env, h.dir, fun q hq => (Function.update_of_ne hq ..).trans (h.holder q hq),
    fun q hq => (Function.update_of_ne hq ..).trans (h.confirmed q hq), h.call⟩

omit [DecidableEq T] in
theorem release (h : Frame t p s s') (b : Bool) : Frame t p s (s'.release p b) :=
  ⟨h.env, h.dir, fun q hq => (Function.update_of_ne hq ..).trans (h.holder q hq),
    fun q hq => (Function.update_of_ne hq ..).trans (h.confirmed q hq), h.call⟩

omit [DecidableEq P] in
theorem finish (h : Frame t p s s') (c : DirCall P) : Frame t p s (s'.finish t c) :=
  ⟨h.env, h.dir, h.holder, h.confirmed, fun u hu => (Function.update_of_ne hu ..).trans
    (h.call u hu)⟩

omit [DecidableEq P] [DecidableEq T] in
theorem answered (h : Frame t p s s') (a : DirAnswer) : Frame t p s (s'.answered a) :=
  ⟨h.env, h.dir, h.holder, h.confirmed, h.call⟩

omit [DecidableEq P] in
theorem advance (h : Frame t p s s') (c : DirCall P) : Frame t p s (s'.advance t c) := by
  unfold DirState.advance
  split
  · exact h.finish c
  · exact ⟨h.env, h.dir, h.holder, h.confirmed,
      fun u hu => (Function.update_of_ne hu ..).trans (h.call u hu)⟩

end Frame

/-! ### One lemma for each kind of step -/

/-- A step after which the thread stands at `pc`. -/
theorem Timely.next (h : Timely rt parse ttl s) {s₁ : DirState P T} {c : DirCall P} {pc : LoadPc}
    (hf : Frame t c.proc s s₁)
    (hown : s.holder c.proc = none ∨ s.holder c.proc = some t ∨
      (s₁.dir c.proc = s.dir c.proc ∧ s₁.holder c.proc = s.holder c.proc))
    (hproc : ProcOk parse s.env (s₁.dir c.proc) (s₁.holder c.proc) (s₁.confirmed c.proc))
    (hold : pc.holds = true → s₁.holder c.proc = some t)
    (hpl : Placed parse ttl s.env (s₁.dir c.proc) pc)
    (hothers : ∀ t' c' n, s.call t' = some c' → c'.proc = c.proc → c'.pc = .use n →
      Covers s.env (s₁.dir c.proc) (n - ttl))
    (hwait : ∀ n m snap, pc = .assignUsers n m snap →
      ∀ t' c' n', s.call t' = some c' → c'.proc = c.proc → c'.pc = .use n' →
        s.env.Since snap.raw (n' - ttl))
    (huse : ∀ n, pc = .use n →
      ∀ t' c', t' ≠ t → s.call t' = some c' → c'.proc = c.proc → c'.pc.holds = false)
    (hans : ∀ a ∈ s₁.answers, Fresh rt parse ttl a) : Timely rt parse ttl (s₁.goto t c pc) := by
  have hcall : ∀ c', (s₁.goto t c pc).call t = some c' → c' = { c with pc } := by
    intro c' h'
    rw [DirState.goto_call] at h'
    exact (Option.some.inj h').symm
  refine h.act (hf.goto c pc) hown hproc (fun c' h' => ?_)
    (fun t' c' n _ hc' hp hpc => hothers t' c' n hc' hp hpc) (fun c' n m snap h' hpc => ?_)
    (fun c' n h' hpc => ?_) hans
  · rw [hcall c' h']
    exact ⟨rfl, hold, hpl⟩
  · rw [hcall c' h'] at hpc
    exact fun t' c' n' _ => hwait n m snap hpc t' c' n'
  · rw [hcall c' h'] at hpc
    exact huse n hpc

omit [DecidableEq P] [DecidableEq T] in
/-- Nobody else is at work on a process whose lock the thread holds. -/
theorem Timely.alone (h : Timely rt parse ttl s) {c : DirCall P} (hc : s.call t = some c)
    (hh : c.pc.holds = true) :
    ∀ t' c', t' ≠ t → s.call t' = some c' → c'.proc = c.proc → c'.pc.holds = false := by
  intro t' c' hne hc' hp
  cases hh' : c'.pc.holds with
  | false => rfl
  | true =>
    have ho := h.owner t' c' hc' hh'
    rw [hp, h.owner t c hc hh] at ho
    exact absurd (Option.some.inj ho).symm hne

omit [DecidableEq P] [DecidableEq T] in
/-- The users read by a thread waiting to read them are recent enough. -/
theorem Timely.reader (h : Timely rt parse ttl s) {c : DirCall P} (hc : s.call t = some c)
    (hpc : c.pc = .use n) : n ≤ s.env.clock ∧ Covers s.env (s.dir c.proc) (n - ttl) := by
  have hpl := h.placed t c hc
  rw [hpc] at hpl
  cases hpl with
  | use hn hk => exact ⟨hn, hk⟩

/-- A step that changes nothing but the place of the thread. -/
theorem Timely.goto (h : Timely rt parse ttl s) {c : DirCall P} {pc : LoadPc}
    (hold : pc.holds = true → s.holder c.proc = some t)
    (hpl : Placed parse ttl s.env (s.dir c.proc) pc)
    (hwait : ∀ n m snap, pc = .assignUsers n m snap →
      ∀ t' c' n', s.call t' = some c' → c'.proc = c.proc → c'.pc = .use n' →
        s.env.Since snap.raw (n' - ttl))
    (huse : ∀ n, pc = .use n →
      ∀ t' c', t' ≠ t → s.call t' = some c' → c'.proc = c.proc → c'.pc.holds = false) :
    Timely rt parse ttl (s.goto t c pc) :=
  h.next (Frame.refl t c.proc s) (Or.inr (Or.inr ⟨rfl, rfl⟩)) (h.proc c.proc) hold hpl
    (fun _ _ _ hc' hp hpc => hp ▸ (h.reader hc' hpc).2) hwait huse h.answers

theorem Timely.move (httl : 0 ≤ ttl) (h : Timely rt parse ttl s)
    (hcond : CheckFinished ttl s (.step t)) {c : DirCall P} {pc : LoadPc} (hc : s.call t = some c)
    (hm : Moves parse ttl s c pc) : Timely rt parse ttl (s.goto t c pc) := by
  have hpl := h.placed t c hc
  cases hm with
  | begin hpc =>
    exact h.goto (fun hh => nomatch hh) (.check (le_refl _)) (fun _ _ _ h' => nomatch h')
      (fun _ h' => nomatch h')
  | cached now hpc hop ht =>
    have hfin := hcond t rfl c hc now (by rw [hpc]; rfl) hop ht
    rw [hpc] at hpl
    cases hpl with
    | check hn =>
    have hcov := (h.proc c.proc).covered hfin
    refine h.goto (fun hh => nomatch hh) (.use hn (hcov.mono (by omega)))
      (fun _ _ _ h' => nomatch h') (fun n _ t' c' _ hc' hp => ?_)
    -- a thread holding the lock would be in the middle of a check
    cases hh : c'.pc.holds with
    | false => rfl
    | true =>
      have ho := h.owner t' c' hc' hh
      rw [hp] at ho
      rw [(h.proc c.proc).locked t' ho] at hfin
      cases hfin
  | due now hpc =>
    rw [hpc] at hpl
    cases hpl with
    | check hn =>
    exact h.goto (fun hh => nomatch hh) (.acquire hn) (fun _ _ _ h' => nomatch h')
      (fun _ h' => nomatch h')
  | changed now f hpc hf =>
    have ho := h.owner t c hc (by rw [hpc]; rfl)
    rw [hpc] at hpl
    cases hpl with
    | stat hn hd hl =>
    exact h.goto (fun _ => ho) (.read hn hd hl (h.kept.current f hf).1) (fun _ _ _ h' => nomatch h')
      (fun _ h' => nomatch h')
  | loaded now mtime f users hpc hf hp =>
    have ho := h.owner t c hc (by rw [hpc]; rfl)
    rw [hpc] at hpl
    cases hpl with
    | read hn hd hl hm =>
    have hs : Loaded parse s.env now mtime ⟨f.raw, users⟩ := by
      refine ⟨hm, fun g hg hgm => ?_, h.kept.since hf hn, hp⟩
      rw [hf] at hg
      cases hg
      rfl
    refine h.goto (fun _ => ho) (.assignUsers hn hd hs)
      (fun n m snap h' t' c' n' hc' hp' hpc' => ?_)
      (fun _ h' => nomatch h')
    cases h'
    have := (h.reader hc' hpc').1
    exact h.kept.since hf (by omega)

/-- The lock is free: the thread takes it and notes the time. -/
theorem Timely.acquire (h : Timely rt parse ttl s) {c : DirCall P} {now : Int}
    (hc : s.call t = some c) (hpc : c.pc = .acquire now) (hfree : s.holder c.proc = none) :
    Timely rt parse ttl
      (((s.lock c.proc t).setDir c.proc { s.dir c.proc with checkedAt := now }).goto t c
        (.stat now)) := by
  have hpl := h.placed t c hc
  rw [hpc] at hpl
  cases hpl with
  | acquire hn =>
  have hp := h.proc c.proc
  have hl : Linked s.env { s.dir c.proc with checkedAt := now } := hp.linked hfree
  refine h.next (((Frame.refl t c.proc s).lock).setDir _) (Or.inl hfree) ?_
    (fun _ => Function.update_self ..) ?_ (fun t' c' n hc' hp' hpc' => ?_)
    (fun _ _ _ h' => nomatch h')
    (fun _ h' => nomatch h') h.answers
  · rw [DirState.setDir_dir]
    refine ⟨fun _ _ => Function.update_self .., fun hf => ?_, fun _ => hl, hp.parsed⟩
    exact absurd ((Function.update_self ..).symm.trans hf) Bool.false_ne_true
  · rw [DirState.setDir_dir]
    exact .stat hn rfl hl
  · rw [DirState.setDir_dir]
    exact hp' ▸ (h.reader hc' hpc').2

/-- The file has not changed since it was read: the check is done. -/
theorem Timely.confirm (httl : 0 ≤ ttl) (h : Timely rt parse ttl s) {c : DirCall P} {now : Int}
    {f : UsersFile} (hc : s.call t = some c) (hpc : c.pc = .stat now) (hf : s.env.file = some f)
    (hm : f.mtime = (s.dir c.proc).mtime) :
    Timely rt parse ttl ((s.release c.proc true).goto t c (.use now)) := by
  have hh : c.pc.holds = true := by rw [hpc]; rfl
  have ho := h.owner t c hc hh
  have hpl := h.placed t c hc
  rw [hpc] at hpl
  cases hpl with
  | stat hn hd hl =>
  have hcov : Covers s.env (s.dir c.proc) now := by
    intro snap hs
    rw [← (hl snap hs).2 f hf hm]
    exact h.kept.since hf hn
  refine h.next ((Frame.refl t c.proc s).release true) (Or.inr (Or.inl ho)) ?_
    (fun h' => nomatch h') (.use hn (hcov.mono (by omega))) (fun t' c' n hc' hp' hpc' =>
      hp' ▸ (h.reader hc' hpc').2) (fun _ _ _ h' => nomatch h') (fun _ _ => h.alone hc hh) h.answers
  refine ⟨fun t' h' => ?_, fun _ => hd ▸ hcov, fun _ => hl, (h.proc c.proc).parsed⟩
  exact absurd ((Function.update_self ..).symm.trans h') (by simp)

/-- The users are assigned: whoever is about to read them gets recent ones. -/
theorem Timely.assignUsers (h : Timely rt parse ttl s) {c : DirCall P} {now mtime : Int}
    {snap : Snapshot} (hc : s.call t = some c) (hpc : c.pc = .assignUsers now mtime snap) :
    Timely rt parse ttl
      ((s.setDir c.proc { s.dir c.proc with snapshot := some snap }).goto t c
        (.assignVersion now mtime snap)) := by
  have hh : c.pc.holds = true := by rw [hpc]; rfl
  have ho := h.owner t c hc hh
  have hpl := h.placed t c hc
  rw [hpc] at hpl
  cases hpl with
  | assignUsers hn hd hs =>
  have hp := h.proc c.proc
  refine h.next ((Frame.refl t c.proc s).setDir _) (Or.inr (Or.inl ho)) ?_ (fun _ => ho) ?_
    (fun t' c' n hc' hp' hpc' => ?_) (fun _ _ _ h' => nomatch h') (fun _ h' => nomatch h') h.answers
  · rw [DirState.setDir_dir]
    refine ⟨hp.locked, fun hf => ?_, fun hn => ?_, fun sn h' => ?_⟩
    · exact absurd ((hp.locked t ho).symm.trans hf) Bool.false_ne_true
    · exact absurd (ho.symm.trans hn) (by simp)
    · cases h'
      exact hs.parsed
  · rw [DirState.setDir_dir]
    exact .assignVersion hn hd hs rfl
  · rw [DirState.setDir_dir]
    intro sn h'
    cases h'
    exact h.waiting t c now mtime snap hc hpc t' c' n hc' hp' hpc'

/-- Version and modification time are assigned: the check is done. -/
theorem Timely.assignVersion (httl : 0 ≤ ttl) (h : Timely rt parse ttl s) {c : DirCall P}
    {now mtime : Int} {snap : Snapshot} (hc : s.call t = some c)
    (hpc : c.pc = .assignVersion now mtime snap) (version : String) :
    Timely rt parse ttl
      (((s.setDir c.proc { s.dir c.proc with version := version, mtime := mtime }).release
        c.proc true).goto t c (.use now)) := by
  have hh : c.pc.holds = true := by rw [hpc]; rfl
  have ho := h.owner t c hc hh
  have hpl := h.placed t c hc
  rw [hpc] at hpl
  cases hpl with
  | assignVersion hn hd hs hsnap =>
  have hcov : Covers s.env { s.dir c.proc with version := version, mtime := mtime } now := by
    intro sn h'
    rw [hsnap] at h'
    cases h'
    exact hs.since
  refine h.next (((Frame.refl t c.proc s).setDir _).release true) (Or.inr (Or.inl ho)) ?_
    (fun h' => nomatch h') ?_ (fun t' c' n hc' hp' hpc' => ?_) (fun _ _ _ h' => nomatch h')
    (fun _ _ => h.alone hc hh) h.answers
  · rw [DirState.release_dir, DirState.setDir_dir]
    refine ⟨fun t' h' => ?_, fun _ => hd ▸ hcov, fun _ sn h' => ?_, (h.proc c.proc).parsed⟩
    · exact absurd ((Function.update_self ..).symm.trans h') (by simp)
    · rw [hsnap] at h'
      cases h'
      exact ⟨hs.stamped, hs.linked⟩
  · rw [DirState.release_dir, DirState.setDir_dir]
    exact .use hn (hcov.mono (by omega))
  · rw [DirState.release_dir, DirState.setDir_dir]
    exact hp' ▸ (h.reader hc' hpc').2

/-- The load raises: the directory is as the last check that finished has left it. -/
theorem Timely.abort (h : Timely rt parse ttl s) {c : DirCall P} (hc : s.call t = some c)
    (hpc : (∃ now, c.pc = .stat now) ∨ ∃ now mtime, c.pc = .read now mtime) :
    Timely rt parse ttl (s.abort t c) := by
  have hh : c.pc.holds = true := by
    rcases hpc with ⟨now, hpc⟩ | ⟨now, mtime, hpc⟩ <;> rw [hpc] <;> rfl
  have ho := h.owner t c hc hh
  have hl : Linked s.env (s.dir c.proc) := by
    have hpl := h.placed t c hc
    rcases hpc with ⟨now, hpc⟩ | ⟨now, mtime, hpc⟩ <;> rw [hpc] at hpl <;> cases hpl <;> assumption
  have hcall : ∀ c', (s.abort t c).call t ≠ some c' := by
    intro c' h'
    unfold DirState.abort at h'
    rw [DirState.finish_call] at h'
    cases h'
  refine h.act (((Frame.refl t c.proc s).release false).finish c) (Or.inr (Or.inl ho)) ?_
    (fun c' h' => absurd h' (hcall c')) (fun t' c' n _ hc' hp' hpc' => hp' ▸ (h.reader hc' hpc').2)
    (fun c' _ _ _ h' => absurd h' (hcall c')) (fun c' _ h' => absurd h' (hcall c')) h.answers
  refine ⟨fun _ _ => Function.update_self .., fun hf => ?_, fun _ => hl, (h.proc c.proc).parsed⟩
  exact absurd ((Function.update_self ..).symm.trans hf) Bool.false_ne_true

/-- An operation has its result. -/
theorem Timely.advance (h : Timely rt parse ttl s) {s₁ : DirState P T} {c : DirCall P}
    (hf : Frame t c.proc s s₁) (hdir : s₁.dir c.proc = s.dir c.proc)
    (hholder : s₁.holder c.proc = s.holder c.proc)
    (hconf : s₁.confirmed c.proc = s.confirmed c.proc)
    (hans : ∀ a ∈ s₁.answers, Fresh rt parse ttl a) : Timely rt parse ttl (s₁.advance t c) := by
  have hrest : (s₁.advance t c).dir = s₁.dir ∧ (s₁.advance t c).holder = s₁.holder ∧
      (s₁.advance t c).confirmed = s₁.confirmed ∧ (s₁.advance t c).answers = s₁.answers := by
    unfold DirState.advance
    split <;> exact ⟨rfl, rfl, rfl, rfl⟩
  obtain ⟨hd, hh, hco, ha⟩ := hrest
  have hcall : ∀ c', (s₁.advance t c).call t = some c' → c'.proc = c.proc ∧ c'.pc = .begin := by
    intro c' h'
    rcases advance_call s₁ t c with hn | ⟨op, rest, hn⟩ <;> rw [hn] at h' <;> cases h'
    exact ⟨rfl, rfl⟩
  refine h.act (hf.advance c) (Or.inr (Or.inr ?_)) ?_ (fun c' h' => ?_)
    (fun t' c' n _ hc' hp' hpc' => ?_)
    (fun c' n m snap h' hpc => ?_) (fun c' n h' hpc => ?_) (ha ▸ hans)
  · rw [hd, hh]
    exact ⟨hdir, hholder⟩
  · rw [hd, hh, hco, hdir, hholder, hconf]
    exact h.proc c.proc
  · obtain ⟨hp, hpc⟩ := hcall c' h'
    rw [hpc]
    exact ⟨hp, fun hh => absurd hh Bool.false_ne_true, .begin⟩
  · rw [hd, hdir]
    exact hp' ▸ (h.reader hc' hpc').2
  · rw [(hcall c' h').2] at hpc
    cases hpc
  · rw [(hcall c' h').2] at hpc
    cases hpc

/-- Who is answered got a user of a snapshot that is recent enough. -/
theorem Timely.use (h : Timely rt parse ttl s) {c : DirCall P} {now : Int} (hc : s.call t = some c)
    (hpc : c.pc = .use now) : Timely rt parse ttl (s.useOf rt t c now) := by
  have hf := Frame.refl t c.proc s
  obtain ⟨s₁, he, hu⟩ : ∃ s₁, s.useOf rt t c now = s₁ ∧ Used rt s t c now s₁ :=
    ⟨_, rfl, useOf_cases s t c now⟩
  rw [he]
  cases hu with
  | version hop => exact h.advance (c := { c with versions := _ }) hf rfl rfl rfl h.answers
  | nothing => exact h.advance hf rfl rfl rfl h.answers
  | refused snap hs => exact h.advance (c := { c with consulted := _ }) hf rfl rfl rfl h.answers
  | answered snap user hs ha =>
    refine h.advance (c := { c with consulted := _ }) (hf.answered _) rfl rfl rfl (fun a hm => ?_)
    rcases List.mem_append.mp hm with hold | hnew
    · exact h.answers a hold
    · rw [List.mem_singleton.mp hnew]
      obtain ⟨u, hu, hle⟩ := (h.reader hc hpc).2 snap hs
      exact ⟨(h.proc c.proc).parsed snap hs, ha, u, hu, hle⟩

theorem Timely.begin (h : Timely rt parse ttl s) (op : DirOp) (rest : List DirOp) :
    Timely rt parse ttl
      { s with call := Function.update s.call t (some ⟨p, op, rest, .begin, [], []⟩) } := by
  have hcall : ∀ c', Function.update s.call t (some ⟨p, op, rest, .begin, [], []⟩) t = some c' →
      c' = ⟨p, op, rest, .begin, [], []⟩ := by
    intro c' h'
    rw [Function.update_self] at h'
    exact (Option.some.inj h').symm
  refine h.act ⟨rfl, fun _ _ => rfl, fun _ _ => rfl, fun _ _ => rfl,
      fun u hu => Function.update_of_ne hu ..⟩ (Or.inr (Or.inr ⟨rfl, rfl⟩)) (h.proc p)
    (fun c' h' => ?_) (fun t' c' n _ hc' hp' hpc' => hp' ▸ (h.reader hc' hpc').2)
    (fun c' n m snap h' hpc => ?_) (fun c' n h' hpc => ?_) h.answers
  · rw [hcall c' h']
    exact ⟨rfl, fun hh => absurd hh Bool.false_ne_true, .begin⟩
  · rw [hcall c' h'] at hpc
    cases hpc
  · rw [hcall c' h'] at hpc
    cases hpc

/-- **Every step of a checked directory keeps the bound.** -/
theorem Timely.step (httl : 0 ≤ ttl) (h : Timely rt parse ttl s) {a : DirAction P T}
    (hcond : CheckFinished ttl s a) (hs : dirStep rt parse ttl s a = some s') :
    Timely rt parse ttl s' := by
  cases dirStep_cases hs with
  | tick n => exact h.later (h.kept.tick n).1 (h.kept.tick n).2
  | remove => exact h.later h.kept.remove.1 h.kept.remove.2
  | replace f hnew => exact h.later (h.kept.replace hnew).1 (h.kept.replace hnew).2
  | start t p op rest hc => exact h.begin op rest
  | move t c pc hc hm => exact h.move httl hcond hc hm
  | acquire t c now hc hpc hfree => exact h.acquire hc hpc hfree
  | confirm t c now f hc hpc hf hop hm => exact h.confirm httl hc hpc hf hm
  | abort t c a ha hc hpc => exact h.abort hc hpc
  | assignUsers t c now mtime snap hc hpc => exact h.assignUsers hc hpc
  | assignVersion t c now mtime snap hc hpc => exact h.assignVersion httl hc hpc _
  | use t c now hc hpc => exact h.use hc hpc

omit [DecidableEq P] [DecidableEq T] in
theorem Timely.start (clock : Int) : Timely rt parse ttl (DirState.start clock : DirState P T) where
  kept := ⟨fun _ _ h => (nomatch h), fun _ h => (nomatch h)⟩
  owner := fun _ _ h => nomatch h
  placed := fun _ _ h => nomatch h
  waiting := fun _ _ _ _ _ h => nomatch h
  proc := fun _ => ⟨fun _ h => (nomatch h), fun h => (nomatch h), fun _ _ h => (nomatch h),
    fun _ h => (nomatch h)⟩
  answers := fun _ h => nomatch h

end Threads

/-! ## The bound -/

section Bound

variable [DecidableEq P] [DecidableEq T]

/-- **Nobody is answered from users older than the ttl.**  In every run in which a call that
is answered without a look at the file comes after a check that finished. -/
theorem checked_answers_are_fresh (rt : Runtime) (parse : Bytes → Except PyError (List User))
    (ttl : Int) (httl : 0 ≤ ttl) (clock : Int) (as : List (DirAction P T)) (s : DirState P T)
    (hm : Meets (dirStep rt parse ttl) (CheckFinished ttl) (DirState.start clock) as)
    (hr : run (dirStep rt parse ttl) (DirState.start clock) as = some s) :
    ∀ a ∈ s.answers, Fresh rt parse ttl a :=
  (hm.invariant (fun _ _ _ hi hc hs => Timely.step httl hi hc hs) (Timely.start clock) hr).answers

/-- The user is deactivated, and refused once the ttl has expired; reinstated, the user is
answered after the next reload, and again within the ttl from what it read. -/
def sampleReinstated : List (DirAction Unit Unit) :=
  sampleStartup ++ [.replace (some ⟨2, sampleUsersText false⟩), .tick 100,
    .start () () (.resolve "0001") []] ++
    List.replicate 8 (.step ()) ++
    [.replace (some ⟨3, sampleUsersText true⟩), .tick 60, .start () () (.resolve "0001") []] ++
    List.replicate 8 (.step ()) ++
    [.tick 10, .start () () (.resolve "0001") [], .step (), .step (), .step ()]

theorem checked_answers_are_fresh_sample : ∃ s : DirState Unit Unit,
    run (dirStep Runtime.python sampleParse 60) (DirState.start 1000) sampleReinstated = some s ∧
    s.records.length = 4 ∧ s.answers.map DirAnswer.now = [1160, 1170] ∧
    ∀ a ∈ s.answers, Fresh Runtime.python sampleParse 60 a := by
  have hrun : (run (dirStep Runtime.python sampleParse 60) (DirState.start 1000)
    sampleReinstated).any (fun s => s.records.length = 4 && s.answers.map DirAnswer.now =
      [1160, 1170]) = true := by
    decide +kernel
  obtain ⟨s, hs, hfacts⟩ := (Option.any_eq_true _ _).mp hrun
  simp only [Bool.and_eq_true, decide_eq_true_eq] at hfacts
  exact ⟨s, hs, hfacts.1, hfacts.2, checked_answers_are_fresh Runtime.python sampleParse 60
    (by decide) 1000 _ s (by decide +kernel) hs⟩

/-- The user is deactivated; the next check cannot read the file and raises; the call after
it, within the ttl, is answered. -/
def sampleFailedCheck : List (DirAction Unit Unit) :=
  sampleStartup ++ [.replace (some ⟨2, sampleUsersText false⟩), .tick 100] ++
    [.start () () (.resolve "0001") [], .step (), .step (), .step (), .fail ()] ++
    [.tick 10, .start () () (.resolve "0001") [], .step (), .step (), .step ()]

/-- **A check that failed hides a deactivation.** -/
theorem failed_check_hides_change : ∃ s : DirState Unit Unit, ∃ a,
    run (dirStep Runtime.python sampleParse 60) (DirState.start 1000) sampleFailedCheck = some s ∧
    a ∈ s.answers ∧ ¬ Fresh Runtime.python sampleParse 60 a := by
  have hrun : (run (dirStep Runtime.python sampleParse 60) (DirState.start 1000)
    sampleFailedCheck).map DirState.answers =
      some [⟨1110, .resolve "0001", ⟨sampleUsersText true, [sampleUser true]⟩,
        some 1000, sampleUser true⟩] := by decide +kernel
  obtain ⟨s, hs, ha⟩ := Option.map_eq_some_iff.mp hrun
  refine ⟨s, _, hs, ha ▸ List.mem_singleton_self _, fun h => ?_⟩
  obtain ⟨u, hu, hle⟩ := h.seen
  cases hu
  exact absurd hle (by decide)

end Bound

end ComplianceMcp
