import ComplianceMcp.AuditSpool

/-! # Draining the spool

The spool is the retry queue of the forwarder.  Here the loop of a sender meets a sink that refuses
as often as it likes, and the machine is compared with a plain queue: the first file is sent until
the sink has accepted it, and then the next one is.  A sink that accepts often enough empties the
spool, oldest record first, and nothing is sent again once it was accepted. -/
namespace ComplianceMcp

open PyText Files Steps

/-! ## The plain queue -/

/-- What is spooled, oldest first. -/
def spooledFiles (dir : Dir Bytes) : List (String × Bytes) :=
  (dir.sortedNames isSpooled).map (fun n => (n, (dir.read n).getD []))

/-- The requests a queue makes while the sink gives these answers. -/
def requests : List (String × Bytes) → List SinkAnswer → List Post
  | [], _ => []
  | _, [] => []
  | f :: rest, a :: as => ⟨f.1, f.2, a⟩ :: if a.ok then requests rest as
      else requests (f :: rest) as

/-- What is left in the queue after these answers. -/
def leftOver : List (String × Bytes) → List SinkAnswer → List (String × Bytes)
  | [], _ => []
  | files, [] => files
  | f :: rest, a :: as => if a.ok then leftOver rest as else leftOver (f :: rest) as

/-- The back-off after an answer. -/
def backoffAfter (backoff : Nat) (a : SinkAnswer) : Nat := if a.ok then 1 else min (backoff * 2) 60

/-- The answers that the queue waits for: none any more once it is empty. -/
def awaited : List (String × Bytes) → List SinkAnswer → List SinkAnswer
  | [], _ => []
  | _, [] => []
  | f :: rest, a :: as => a :: if a.ok then awaited rest as else awaited (f :: rest) as

/-- As many files leave the queue as the sink accepts. -/
theorem leftOver_eq_drop (files : List (String × Bytes)) (as : List SinkAnswer) :
    leftOver files as = files.drop (as.countP SinkAnswer.ok) := by
  induction as generalizing files with
  | nil => cases files <;> rfl
  | cons a as ih =>
    cases files with
    | nil => rw [leftOver, List.drop_nil]
    | cons f rest =>
      rw [leftOver, List.countP_cons]
      split
      · exact ih rest
      · exact ih (f :: rest)

/-! ## The machine -/

section Machine

variable {P : Type} [DecidableEq P] (s : Spool P) (p : P)

/-- The steps of the loop from one wait to the next: it wakes, lists, reads and posts, and unlinks
what was accepted. -/
def attempt (a : SinkAnswer) : List (SpoolAction P) :=
  List.replicate (if a.ok then 6 else 5) (.advance p a)

theorem move_move (d d' : Dir Bytes) (ps ps' : List Post) (pc pc' : SenderPc) :
    (s.move p d ps pc).move p d' ps' pc' = s.move p d' (ps ++ ps') pc' := by
  unfold Spool.move
  dsimp only
  rw [Function.update_idem, List.append_assoc]

theorem move_self {pc : SenderPc} (h : s.senders p = some pc) : s.move p s.dir [] pc = s := by
  unfold Spool.move
  rw [← h, Function.update_eq_self, List.append_nil]

variable {s p}

theorem run_advance {d d' : Dir Bytes} {ps ps' : List Post} {pc pc' : SenderPc} {a : SinkAnswer}
    (h : senderStep d (s.stopped p) a pc = some (d', ps', pc')) (acts : List (SpoolAction P)) :
    run spoolStep (s.move p d ps pc) (.advance p a :: acts) = run spoolStep
      (s.move p d' (ps ++ ps') pc') acts := by
  have hstep : spoolStep (s.move p d ps pc) (.advance p a) =
      some (s.move p d' (ps ++ ps') pc') := by
    simp only [spoolStep, move_senders_self, Option.bind_some]
    have hsame : (s.move p d ps pc).dir = d ∧ (s.move p d ps pc).stopped = s.stopped := ⟨rfl, rfl⟩
    rw [hsame.1, hsame.2, h, Option.map_some, move_move]
  rw [run, hstep, Option.bind_some]

omit [DecidableEq P] in
theorem spooledFiles_eq_of_names {dir : Dir Bytes} {files : List (String × Bytes)}
    (hn : dir.sortedNames isSpooled = files.map Prod.fst)
    (hr : ∀ f ∈ files, dir.read f.1 = some f.2) :
    spooledFiles dir = files := by
  rw [spooledFiles, hn, List.map_map]
  refine (List.map_congr_left (fun f hf => ?_)).trans (List.map_id files)
  show (f.1, (dir.read f.1).getD []) = f
  rw [hr f hf, Option.getD_some]

/-- The head of the queue, and what is left without it. -/
theorem spooledFiles_cons {dir : Dir Bytes} {f : String × Bytes} {rest : List (String × Bytes)}
    (h : spooledFiles dir = f :: rest) :
    dir.sortedNames isSpooled = f.1 :: rest.map Prod.fst ∧ dir.read f.1 = some f.2 ∧
      spooledFiles (dir.remove f.1) = rest := by
  have hnames : dir.sortedNames isSpooled = (f :: rest).map Prod.fst := by
    rw [← h, spooledFiles, List.map_map]
    exact (List.map_id _).symm
  have hread : ∀ g ∈ f :: rest, dir.read g.1 = some g.2 := by
    intro g hg
    rw [← h] at hg
    obtain ⟨n, hn, rfl⟩ := List.mem_map.mp hg
    obtain ⟨c, hc⟩ := Option.isSome_iff_exists.mp (Dir.mem_sortedNames.mp hn).2
    show dir.read n = some ((dir.read n).getD [])
    rw [hc, Option.getD_some]
  have hsorted : (f.1 :: rest.map Prod.fst).Pairwise (· < ·) :=
    (congrArg (List.Pairwise (· < ·)) hnames).mp (Dir.sortedNames_pairwise dir isSpooled)
  obtain ⟨hfirst, hrest⟩ := List.pairwise_cons.mp hsorted
  refine ⟨hnames, hread f List.mem_cons_self, spooledFiles_eq_of_names ?_ (fun g hg => ?_)⟩
  · refine Dir.sortedNames_eq hrest (fun n => ?_)
    have hmem : n ∈ f.1 :: rest.map Prod.fst ↔ isSpooled n = true ∧ (dir.read n).isSome = true := by
      rw [← List.map_cons, ← hnames]
      exact Dir.mem_sortedNames
    rw [Dir.read_remove]
    by_cases hn : n = f.1
    · subst hn
      rw [if_pos rfl]
      refine iff_of_false (fun hc => lt_irrefl _ (hfirst _ hc)) (fun hc => ?_)
      cases hc.2
    · rw [if_neg hn, ← hmem, List.mem_cons, or_iff_right hn]
  · have hne : g.1 ≠ f.1 := (hfirst g.1 (List.mem_map_of_mem hg)).ne'
    rw [Dir.read_remove, if_neg hne]
    exact hread g (List.mem_cons_of_mem f hg)

/-- What both rounds begin with: the loop wakes, finds the first file and reads it. -/
theorem run_until_post {d : Dir Bytes} {ps : List Post} {b : Nat} {a : SinkAnswer}
    {f : String × Bytes} {rest : List (String × Bytes)} (hs : s.stopped p = false)
    (hf : spooledFiles d = f :: rest) (acts : List (SpoolAction P)) :
    run spoolStep (s.move p d ps (.top b)) (List.replicate 4 (.advance p a) ++ acts) =
      run spoolStep (s.move p d ps (.posting (.loop b) f.1 f.2 (rest.map Prod.fst))) acts := by
  obtain ⟨hnames, hread, -⟩ := spooledFiles_cons hf
  have hwakes : senderStep d (s.stopped p) a (.top b) = some (d, [], .woken b) := by
    rw [hs]
    rfl
  have hlists : senderStep d (s.stopped p) a (.woken b) = some (d, [], .listing (.loop b)) := by
    rw [hs]
    rfl
  have hfound : senderStep d (s.stopped p) a (.listing (.loop b)) =
      some (d, [], .reading (.loop b) f.1 (rest.map Prod.fst)) := by
    simp only [senderStep, hnames]
  have hreads : senderStep d (s.stopped p) a (.reading (.loop b) f.1 (rest.map Prod.fst)) =
      some (d, [], .posting (.loop b) f.1 f.2 (rest.map Prod.fst)) := by
    simp only [senderStep, hread]
  show run spoolStep _ (.advance p a :: .advance p a :: .advance p a :: .advance p a :: acts) = _
  rw [run_advance hwakes, run_advance hlists, run_advance hfound, run_advance hreads]
  simp only [List.append_nil]

/-- The refused round: the file stays, and the wait doubles. -/
theorem run_attempt_refused {d : Dir Bytes} {ps : List Post} {b : Nat} {a : SinkAnswer}
    {f : String × Bytes} {rest : List (String × Bytes)} (hs : s.stopped p = false)
    (hf : spooledFiles d = f :: rest) (ha : a.ok = false) (acts : List (SpoolAction P)) :
    run spoolStep (s.move p d ps (.top b)) (attempt p a ++ acts) =
      run spoolStep (s.move p d (ps ++ [⟨f.1, f.2, a⟩]) (.top (min (b * 2) 60))) acts := by
  have hposts : senderStep d (s.stopped p) a (.posting (.loop b) f.1 f.2 (rest.map Prod.fst)) =
      some (d, [⟨f.1, f.2, a⟩], .top (min (b * 2) 60)) := by
    rw [senderStep, ha]
    rfl
  have hround : attempt p a ++ acts = List.replicate 4 (.advance p a) ++ .advance p a :: acts := by
    rw [attempt, ha]
    rfl
  rw [hround, run_until_post hs hf, run_advance hposts]

/-- The accepted round: the file is gone, and the next wait is the shortest. -/
theorem run_attempt_accepted {d : Dir Bytes} {ps : List Post} {b : Nat} {a : SinkAnswer}
    {f : String × Bytes} {rest : List (String × Bytes)} (hs : s.stopped p = false)
    (hf : spooledFiles d = f :: rest) (ha : a.ok = true) (acts : List (SpoolAction P)) :
    run spoolStep (s.move p d ps (.top b)) (attempt p a ++ acts) =
      run spoolStep (s.move p (d.remove f.1) (ps ++ [⟨f.1, f.2, a⟩]) (.top 1)) acts := by
  have hposts : senderStep d (s.stopped p) a (.posting (.loop b) f.1 f.2 (rest.map Prod.fst)) =
      some (d, [⟨f.1, f.2, a⟩], .unlinking (.loop b) f.1 f.2 (rest.map Prod.fst)) := by
    rw [senderStep, ha]
    rfl
  have hunlinks : senderStep d (s.stopped p) a (.unlinking (.loop b) f.1 f.2 (rest.map Prod.fst)) =
      some (d.remove f.1, [], .top 1) := rfl
  have hround : attempt p a ++ acts =
      List.replicate 4 (.advance p a) ++ .advance p a :: .advance p a :: acts := by
    rw [attempt, ha]
    rfl
  rw [hround, run_until_post hs hf, run_advance hposts, run_advance hunlinks, List.append_nil]

/-- The loop and the queue, from any directory: the induction is on the answers. -/
theorem run_attempts (hs : s.stopped p = false) (as : List SinkAnswer) {d : Dir Bytes}
    {ps : List Post} {b : Nat} :
    ∃ d' b', run spoolStep (s.move p d ps (.top b))
      ((awaited (spooledFiles d) as).flatMap (attempt p)) =
        some (s.move p d' (ps ++ requests (spooledFiles d) as) (.top b')) ∧
      spooledFiles d' = leftOver (spooledFiles d) as ∧
      b' = (awaited (spooledFiles d) as).foldl backoffAfter b := by
  induction as generalizing d ps b with
  | nil =>
    refine ⟨d, b, ?_, ?_, ?_⟩
    · cases hf : spooledFiles d <;> simp only [awaited, requests, List.flatMap_nil, run_nil,
        List.append_nil]
    · cases spooledFiles d <;> rfl
    · cases spooledFiles d <;> rfl
  | cons a as ih =>
    cases hf : spooledFiles d with
    | nil =>
      refine ⟨d, b, ?_, hf, rfl⟩
      simp only [awaited, requests, List.flatMap_nil, run_nil, List.append_nil]
    | cons f rest =>
      rw [awaited, requests, leftOver, List.flatMap_cons, List.foldl_cons]
      cases ha : a.ok with
      | false =>
        obtain ⟨d', b', hrun, hleft, hb⟩ := @ih d (ps ++ [⟨f.1, f.2, a⟩]) (min (b * 2) 60)
        rw [hf] at hrun hleft hb
        refine ⟨d', b', ?_, hleft, ?_⟩
        · rw [run_attempt_refused hs hf ha]
          refine hrun.trans ?_
          rw [List.append_assoc]
          rfl
        · rw [hb, backoffAfter, ha]
          rfl
      | true =>
        obtain ⟨d', b', hrun, hleft, hb⟩ := @ih (d.remove f.1) (ps ++ [⟨f.1, f.2, a⟩]) 1
        rw [(spooledFiles_cons hf).2.2] at hrun hleft hb
        refine ⟨d', b', ?_, hleft, ?_⟩
        · rw [run_attempt_accepted hs hf ha]
          refine hrun.trans ?_
          rw [List.append_assoc]
          rfl
        · rw [hb, backoffAfter, ha]
          rfl

end Machine

/-! ## The loop empties the spool -/

/-- What the sink has accepted is the front of the queue, each file once. -/
theorem requests_accepted (files : List (String × Bytes)) (as : List SinkAnswer) :
    ((requests files as).filter (fun q => q.answer.ok)).map (fun q => (q.name, q.payload)) =
      files.take (as.countP SinkAnswer.ok) := by
  induction as generalizing files with
  | nil => cases files <;> rfl
  | cons a as ih =>
    cases files with
    | nil => rw [requests, List.take_nil]; rfl
    | cons f rest =>
      rw [requests, List.countP_cons]
      cases ha : a.ok with
      | false =>
        rw [List.filter_cons_of_neg (by rw [ha]; decide)]
        exact ih (f :: rest)
      | true =>
        rw [List.filter_cons_of_pos (by rw [ha]), List.map_cons, if_pos rfl, if_pos rfl,
          List.take_succ_cons]
        exact congrArg (f :: ·) (ih rest)

section Drain

variable {P : Type} [DecidableEq P]

/-- **The loop is the plain queue.**  Whatever the sink answers, the loop of a sender that has
the directory to itself makes the requests of the queue and leaves what the queue leaves: the
accepted files are the oldest ones, each accepted once and in order, and with as many
acceptances as there are files nothing is left.  It waits longer after every refusal and starts
anew after an acceptance. -/
theorem loop_drains (s : Spool P) (p : P) (b : Nat) (as : List SinkAnswer)
    (hp : s.senders p = some (.top b)) (hs : s.stopped p = false) :
    ∃ dir, run spoolStep s ((awaited (spooledFiles s.dir) as).flatMap (attempt p)) =
        some (s.move p dir (requests (spooledFiles s.dir) as)
          (.top ((awaited (spooledFiles s.dir) as).foldl backoffAfter b))) ∧
      spooledFiles dir = (spooledFiles s.dir).drop (as.countP SinkAnswer.ok) ∧
      ((requests (spooledFiles s.dir) as).filter (fun q => q.answer.ok)).map
      (fun q => (q.name, q.payload)) =
        (spooledFiles s.dir).take (as.countP SinkAnswer.ok) := by
  obtain ⟨dir, b', hrun, hleft, rfl⟩ := @run_attempts P _ s p hs as s.dir [] b
  rw [move_self s p hp, List.nil_append] at hrun
  rw [leftOver_eq_drop] at hleft
  exact ⟨dir, hrun, hleft, requests_accepted _ as⟩

/-- Two files are spooled. -/
def twoSpooled (pc : SenderPc) : Spool Unit :=
  ⟨(Dir.empty.write "2.json" [2]).write "1.json" [1], fun _ => none, fun _ => some pc,
    fun _ => false, [], []⟩

/-- The sink is down once and then takes both files. -/
theorem loop_drains_sample : ∃ dir, run spoolStep (twoSpooled (.top 1))
      ([SinkAnswer.status 503, .status 200, .status 202].flatMap (attempt ())) =
        some ((twoSpooled (.top 1)).move () dir
          [⟨"1.json", [1], .status 503⟩, ⟨"1.json", [1], .status 200⟩, ⟨"2.json", [2], .status 202⟩]
          (.top 1)) ∧
      spooledFiles dir = [] := by
  obtain ⟨dir, hrun, hleft, -⟩ :=
    loop_drains (twoSpooled (.top 1)) () 1 [.status 503, .status 200, .status 202] rfl rfl
  have hfiles : spooledFiles (twoSpooled (.top 1)).dir = [("1.json", [1]), ("2.json", [2])] := by
    decide +kernel
  rw [hfiles] at hrun hleft
  exact ⟨dir, hrun, hleft⟩

end Drain

/-! ## The back-off -/

/-- How long the loop of this sender waits, where it is one. -/
def SenderPc.backoff : SenderPc → Option Nat
  | .top b | .woken b | .listing (.loop b) | .reading (.loop b) _ _ | .posting (.loop b) _ _ _
  | .unlinking (.loop b) _ _ _ | .left (.loop b) _ => some b
  | .listing (.flush _) | .reading (.flush _) _ _ | .posting (.flush _) _ _ _
  | .unlinking (.flush _) _ _ _
  | .left (.flush _) _ => none

/-- The requests refused in a row, after a step of the sender: one more, or none where a file was
accepted or nothing is spooled. -/
def refusedInARow (dir : Dir Bytes) (answer : SinkAnswer) (k : Nat) : SenderPc → Nat
  | .posting _ _ _ _ => if answer.ok then k else k + 1
  | .unlinking _ _ _ _ => 0
  | .listing _ => if dir.sortedNames isSpooled = [] then 0 else k
  | .top _ | .woken _ | .reading _ _ _ | .left _ _ => k

section Backoff

variable {P : Type} [DecidableEq P]

/-- The machine with a count of the requests of one sender that were refused in a row. -/
def countedStep (p : P) (s : Spool P × Nat) (a : SpoolAction P) : Option (Spool P × Nat) :=
  (spoolStep s.1 a).map (fun t => (t, match a with
    | .advance q answer =>
      if q = p then ((s.1.senders p).map (refusedInARow s.1.dir answer s.2)).getD s.2 else s.2
    | .enqueue _ _ _ | .writeTmp _ _ | .publish _ | .startLoop _ | .startFlush _ | .stop _ => s.2))

/-- The wait is one second doubled for every refusal, up to a minute. -/
def WaitsFor (k : Nat) (pc : SenderPc) : Prop := ∀ b ∈ pc.backoff, b = min (2 ^ k) 60

theorem min_double (k : Nat) : min (min (2 ^ k) 60 * 2) 60 = min (2 ^ (k + 1)) 60 := by
  rw [Nat.pow_succ]
  omega

/-- What one step of the sender does to its wait, whatever the others have made of the directory. -/
theorem WaitsFor.sending {dir dir' : Dir Bytes} {stopped : Bool} {answer : SinkAnswer}
    {pc pc' : SenderPc} {posts : List Post} {k : Nat} (h : WaitsFor k pc)
    (hs : Sending dir stopped answer pc dir' posts pc') :
    WaitsFor (refusedInARow dir answer k pc) pc' := by
  intro b hb
  cases hs with
  | topStopped _ _ | wokenStopped _ _ | wakes _ | lists _ => exact h b hb
  | idles r hempty =>
    rw [refusedInARow, if_pos hempty]
    cases r with
    | loop _ => exact (Option.some.inj hb).symm
    | flush _ => cases hb
  | found r name rest hfound =>
    rw [refusedInARow, if_neg (by rw [hfound]; exact List.cons_ne_nil _ _)]
    cases r with
    | loop _ => exact h b hb
    | flush _ => cases hb
  | vanished r _ _ _ | reads r _ _ _ _ =>
    cases r with
    | loop _ => exact h b hb
    | flush _ => cases hb
  | delivered r _ _ _ ha =>
    rw [refusedInARow, if_pos ha]
    cases r with
    | loop _ => exact h b hb
    | flush _ => cases hb
  | failed r _ _ _ ha =>
    rw [refusedInARow, if_neg (Bool.eq_false_iff.mp ha)]
    cases r with
    | loop b₀ =>
      have hwait : b₀ = min (2 ^ k) 60 := h b₀ rfl
      have hnext : b = min (b₀ * 2) 60 := (Option.some.inj hb).symm
      rw [hnext, hwait, min_double]
    | flush _ => cases hb
  | unlinks r name rest payload =>
    rw [refusedInARow]
    cases r with
    | loop _ => exact (Option.some.inj hb).symm
    | flush n => cases rest <;> cases hb

/-- A sender that has not begun, or waits as long as the count says. -/
def CountFits (p : P) (s : Spool P × Nat) : Prop :=
  (s.1.senders p = none ∧ s.2 = 0) ∨ ∃ pc, s.1.senders p = some pc ∧ WaitsFor s.2 pc

theorem countFits_step (p : P) (s : Spool P × Nat) (a : SpoolAction P) (t : Spool P × Nat)
    (h : CountFits p s) (hstep : countedStep p s a = some t) : CountFits p t := by
  obtain ⟨u, hu, rfl⟩ := Option.map_eq_some_iff.mp hstep
  -- a step of anybody else leaves the sender and its count alone
  have hother : ∀ q dir posts pc, q ≠ p → CountFits p (s.1.move q dir posts pc, s.2) := by
    intro q dir posts pc hq
    unfold CountFits
    rw [move_senders_of_ne s.1 hq.symm]
    exact h
  cases spoolTransition_of_step hu with
  | created _ _ _ _ | grown _ _ _ _ | settled _ _ _ _ _ _ | stops _ => exact h
  | started q hn =>
    by_cases hq : q = p
    · subst hq
      obtain ⟨-, hk⟩ | ⟨pc, hpc, -⟩ := h
      · refine Or.inr ⟨.top 1, move_senders_self s.1 q _ _ _, fun b hb => ?_⟩
        rw [hk]
        exact (Option.some.inj hb).symm
      · rw [hn] at hpc
        cases hpc
    · exact hother q _ _ _ hq
  | flushes q hn =>
    by_cases hq : q = p
    · subst hq
      exact Or.inr ⟨.listing (.flush 0), move_senders_self s.1 q _ _ _, fun b hb => nomatch hb⟩
    · exact hother q _ _ _ hq
  | sends q answer pc dir posts pc' hpc hs =>
    by_cases hq : q = p
    · subst hq
      obtain ⟨hnone, -⟩ | ⟨pc₀, hpc₀, hwaits⟩ := h
      · rw [hnone] at hpc
        cases hpc
      · rw [hpc] at hpc₀
        cases hpc₀
        refine Or.inr ⟨pc', move_senders_self s.1 q _ _ _, ?_⟩
        simp only [if_true, hpc, Option.map_some, Option.getD_some]
        exact hwaits.sending hs
    · simp only [if_neg hq]
      exact hother q _ _ _ hq

/-- Counting does not get in the way of a run. -/
theorem exists_counted (p : P) {s t : Spool P} {as : List (SpoolAction P)}
    (h : run spoolStep s as = some t) (k : Nat) :
    ∃ k', run (countedStep p) (s, k) as = some (t, k') := by
  induction as generalizing s k with
  | nil =>
    cases h
    exact ⟨k, rfl⟩
  | cons a as ih =>
    obtain ⟨u, hu, h⟩ := run_cons.mp h
    have hcount : ∃ k', countedStep p (s, k) a = some (u, k') := ⟨_, congrArg (Option.map _) hu⟩
    obtain ⟨k', hk'⟩ := hcount
    obtain ⟨k'', hk''⟩ := ih h k'
    exact ⟨k'', run_cons.mpr ⟨(u, k'), hk', hk''⟩⟩

/-- **Exponential back-off.**  In every run, with any number of other senders and enqueues in
between, the loop of a sender waits one second doubled for every request refused since the last
acceptance or the last empty listing, and never more than a minute. -/
theorem backoff_doubles (s t : Spool P) (p : P) (as : List (SpoolAction P))
    (pc : SenderPc) (b : Nat) (hs : s.senders p = none) (hr : run spoolStep s as = some t)
    (ht : t.senders p = some pc) (hb : pc.backoff = some b) :
    ∃ k, run (countedStep p) (s, 0) as = some (t, k) ∧ b = min (2 ^ k) 60 := by
  obtain ⟨k, hk⟩ := exists_counted p hr 0
  refine ⟨k, hk, ?_⟩
  have hfits : CountFits p (t, k) := run_invariant (countFits_step p) (Or.inl ⟨hs, rfl⟩) hk
  obtain ⟨hnone, -⟩ | ⟨pc', hpc', hwaits⟩ := hfits
  · rw [hnone] at ht
    cases ht
  · rw [ht] at hpc'
    cases hpc'
    exact hwaits b hb

/-- Six refusals reach the minute. -/
def refusedSixTimes : List (SpoolAction Unit) :=
  [.enqueue () "0" [1], .writeTmp () 1, .publish (), .startLoop ()] ++
    (List.replicate 6 (SinkAnswer.status 503)).flatMap (attempt ())

theorem backoff_doubles_sample : ∃ t, run spoolStep (Spool.empty Unit) refusedSixTimes = some t ∧
    ∃ k, run (countedStep ()) (Spool.empty Unit, 0) refusedSixTimes = some (t, k) ∧
    60 = min (2 ^ k) 60 := by
  obtain ⟨t, ht⟩ := Option.isSome_iff_exists.mp
    (show (run spoolStep (Spool.empty Unit) refusedSixTimes).isSome = true by decide +kernel)
  have hpc : (run spoolStep (Spool.empty Unit) refusedSixTimes).bind (fun t => t.senders ()) =
      some (.top 60) := by decide +kernel
  rw [ht, Option.bind_some] at hpc
  exact ⟨t, ht, backoff_doubles _ t () refusedSixTimes (.top 60) 60 rfl ht hpc rfl⟩

end Backoff

/-! ## `flush_once` -/

/-- The requests of `flush_once`: it stops at the first refusal. -/
def flushed : List (String × Bytes) → List SinkAnswer → List Post
  | [], _ => []
  | _, [] => []
  | f :: rest, a :: as => ⟨f.1, f.2, a⟩ :: if a.ok then flushed rest as else []

/-- How many of them are accepted. -/
def deliveredOf (posts : List Post) : Nat := posts.countP (fun q => q.answer.ok)

section Flush

variable {P : Type} [DecidableEq P]

/-- The steps of one request: the file is read and posted, and unlinked where it was accepted. -/
def flushSteps (p : P) (q : Post) : List (SpoolAction P) :=
  List.replicate (if q.answer.ok then 3 else 2) (.advance p q.answer)

/-- Where `flush_once` is with these files still to send. -/
def flushAt (sent : Nat) : List (String × Bytes) → SenderPc
  | [] => .left (.flush sent) none
  | f :: rest => .reading (.flush sent) f.1 (rest.map Prod.fst)

variable {s : Spool P} {p : P}

/-- The walk over the listing: the induction is on the files that are left. -/
theorem run_flush (files : List (String × Bytes)) (as : List SinkAnswer)
    (hlen : files.length ≤ as.length) {d : Dir Bytes} {ps : List Post} {sent : Nat}
    (hf : spooledFiles d = files) :
    ∃ d', run spoolStep (s.move p d ps (flushAt sent files))
      ((flushed files as).flatMap (flushSteps p)) =
        some (s.move p d' (ps ++ flushed files as)
          (.left (.flush (sent + deliveredOf (flushed files as))) none)) ∧
      spooledFiles d' = files.drop (deliveredOf (flushed files as)) := by
  induction files generalizing as d ps sent with
  | nil =>
    refine ⟨d, ?_, hf⟩
    rw [flushed, List.flatMap_nil, run_nil, List.append_nil]
    rfl
  | cons f rest ih =>
    cases as with
    | nil => exact absurd hlen (Nat.not_succ_le_zero _)
    | cons a as =>
      obtain ⟨-, hread, hremove⟩ := spooledFiles_cons hf
      -- the first file is read and posted
      have hreads : senderStep d (s.stopped p) a (flushAt sent (f :: rest)) =
          some (d, [], .posting (.flush sent) f.1 f.2 (rest.map Prod.fst)) := by
        simp only [flushAt, senderStep, hread]
      rw [flushed, List.flatMap_cons]
      cases ha : a.ok with
      | false =>
        -- refused: the walk ends and the file stays
        have hposts : senderStep d (s.stopped p) a
          (.posting (.flush sent) f.1 f.2 (rest.map Prod.fst)) =
            some (d, [⟨f.1, f.2, a⟩], .left (.flush sent) none) := by
          rw [senderStep, ha]
          rfl
        have hsteps : flushSteps p ⟨f.1, f.2, a⟩ = [.advance p a, .advance p a] := by
          rw [flushSteps, ha]
          rfl
        have hnone : deliveredOf [⟨f.1, f.2, a⟩] = 0 := by
          rw [deliveredOf, List.countP_cons_of_neg (by rw [ha]; decide)]
          rfl
        refine ⟨d, ?_, ?_⟩
        · rw [hsteps, if_neg Bool.false_ne_true, hnone, List.flatMap_nil, List.append_nil]
          rw [run_advance hreads, run_advance hposts, run_nil, List.append_nil]
          rfl
        · rw [if_neg Bool.false_ne_true, hnone, hf, List.drop_zero]
      | true =>
        -- accepted: the file is removed and the walk goes on with the rest
        have hposts : senderStep d (s.stopped p) a
          (.posting (.flush sent) f.1 f.2 (rest.map Prod.fst)) =
            some (d, [⟨f.1, f.2, a⟩], .unlinking (.flush sent) f.1 f.2 (rest.map Prod.fst)) := by
          rw [senderStep, ha]
          rfl
        have hunlinks : senderStep d (s.stopped p) a
          (.unlinking (.flush sent) f.1 f.2 (rest.map Prod.fst)) =
            some (d.remove f.1, [], flushAt (sent + 1) rest) := by
          cases rest <;> rfl
        have hsteps : flushSteps p ⟨f.1, f.2, a⟩ = [.advance p a, .advance p a, .advance p a] := by
          rw [flushSteps, ha]
          rfl
        have hcount : deliveredOf (⟨f.1, f.2, a⟩ :: flushed rest as) = deliveredOf
            (flushed rest as) + 1 := by
          rw [deliveredOf, List.countP_cons_of_pos (by rw [ha])]
          rfl
        obtain ⟨d', hrun, hleft⟩ := @ih as (Nat.le_of_succ_le_succ hlen) (d.remove f.1)
          (ps ++ [⟨f.1, f.2, a⟩]) (sent + 1) hremove
        refine ⟨d', ?_, ?_⟩
        · rw [hsteps, if_pos rfl, hcount]
          refine (run_advance hreads _).trans
            ((run_advance hposts _).trans ((run_advance hunlinks _).trans ?_))
          rw [List.append_nil, List.append_nil]
          refine hrun.trans ?_
          rw [List.append_assoc, Nat.add_assoc, Nat.add_comm 1]
          rfl
        · rw [if_pos rfl, hcount, List.drop_succ_cons]
          exact hleft

omit [DecidableEq P] in
/-- Only the last request can be refused. -/
theorem flushed_dropLast (files : List (String × Bytes)) (as : List SinkAnswer) :
    ∀ q ∈ (flushed files as).dropLast, q.answer.ok = true := by
  induction files generalizing as with
  | nil =>
    intro q hq
    cases hq
  | cons f rest ih =>
    cases as with
    | nil =>
      intro q hq
      cases hq
    | cons a as =>
      rw [flushed]
      intro q hq
      split at hq
      · next ha =>
        cases hrest : flushed rest as with
        | nil =>
          rw [hrest] at hq
          cases hq
        | cons q' qs =>
          rw [hrest, List.dropLast_cons_cons] at hq
          rcases List.mem_cons.mp hq with rfl | hq
          · exact ha
          · refine ih as q ?_
            rw [hrest]
            exact hq
      · cases hq

/-- **`flush_once` delivers a prefix.**  Alone with the directory it sends the spooled files oldest
first and stops at the first that the sink refuses; it returns the number of files that were
accepted, and exactly these are gone. -/
theorem flush_delivers (s : Spool P) (p : P) (as : List SinkAnswer)
    (hp : s.senders p = some (.listing (.flush 0)))
    (hlen : (spooledFiles s.dir).length ≤ as.length) :
    ∃ dir, run spoolStep s (.advance p (.status 200) ::
          (flushed (spooledFiles s.dir) as).flatMap (flushSteps p)) =
        some (s.move p dir (flushed (spooledFiles s.dir) as)
          (.left (.flush (deliveredOf (flushed (spooledFiles s.dir) as))) none)) ∧
      spooledFiles dir = (spooledFiles s.dir).drop (deliveredOf (flushed (spooledFiles s.dir) as)) ∧
      ∀ q ∈ (flushed (spooledFiles s.dir) as).dropLast, q.answer.ok = true := by
  have hnames : s.dir.sortedNames isSpooled = (spooledFiles s.dir).map Prod.fst := by
    rw [spooledFiles, List.map_map]
    exact (List.map_id _).symm
  have hlists : senderStep s.dir (s.stopped p) (.status 200) (.listing (.flush 0)) =
      some (s.dir, [], flushAt 0 (spooledFiles s.dir)) := by
    cases hf : spooledFiles s.dir with
    | nil =>
      rw [hf] at hnames
      simp only [senderStep, hnames, List.map_nil]
      rfl
    | cons f rest =>
      rw [hf] at hnames
      simp only [senderStep, hnames, List.map_cons]
      rfl
  obtain ⟨dir, hrun, hleft⟩ := @run_flush _ _ s p _ as hlen s.dir [] 0 rfl
  refine ⟨dir, ?_, hleft, flushed_dropLast _ as⟩
  rw [Nat.zero_add, List.nil_append] at hrun
  have hstart := @run_advance _ _ s p _ _ [] _ _ _ _ hlists
    ((flushed (spooledFiles s.dir) as).flatMap (flushSteps p))
  rw [move_self s p hp] at hstart
  exact hstart.trans hrun

theorem flush_delivers_sample : ∃ dir, run spoolStep (twoSpooled (.listing (.flush 0)))
      (.advance () (.status 200) ::
        ([⟨"1.json", [1], .status 200⟩, ⟨"2.json", [2], .status 500⟩] : List Post).flatMap
        (flushSteps ())) =
        some ((twoSpooled (.listing (.flush 0))).move () dir
          [⟨"1.json", [1], .status 200⟩, ⟨"2.json", [2], .status 500⟩] (.left (.flush 1) none)) ∧
      spooledFiles dir = [("2.json", [2])] := by
  have hfiles : spooledFiles (twoSpooled (.listing (.flush 0))).dir =
      [("1.json", [1]), ("2.json", [2])] := by
    decide +kernel
  obtain ⟨dir, hrun, hleft, -⟩ := flush_delivers (twoSpooled (.listing (.flush 0))) ()
    [.status 200, .status 500] rfl (by rw [hfiles]; decide)
  rw [hfiles] at hrun hleft
  exact ⟨dir, hrun, hleft⟩

end Flush

end ComplianceMcp
