import ComplianceMcp.AuditRecord
import ComplianceMcp.Files
import ComplianceMcp.Steps
import Mathlib.Data.Fintype.Basic
import Mathlib.Logic.Function.Basic

/-! # The spool

`Forwarder.enqueue` writes a payload to a file of its own under a temporary name and renames
it; senders list the spool directory, read a file, post it and unlink it once the sink has
answered 2xx.  There may be several senders on one directory: the thread of the server, a
`flush_once`, and the thread that `compliance-review export` starts by building a service.
Every one of these steps is a step of the machine below.

A file that one sender has listed can be unlinked by another before it is read.  The read
then raises an exception that `_send` does not catch, and the loop of the sender ends.  What
is spooled is safe all the same: what a file holds is whole from the moment it has its name,
and it goes only after a 2xx. -/
namespace ComplianceMcp

open PyText Files Steps

/-! ## Files and answers -/

/-- `f".{name}.tmp"`. -/
def spoolTmp (name : String) : String := "." ++ name ++ ".tmp"

/-- `glob("*.json")`. -/
def isSpooled (name : String) : Bool := ".json".toList.isSuffixOf name.toList

/-- What `httpx.post` returns or raises.  An error can strike after the sink has taken the
payload. -/
inductive SinkAnswer where
  | status (code : Nat)
  | httpError (taken : Bool)
  deriving DecidableEq

/-- `200 <= resp.status_code < 300`. -/
def SinkAnswer.ok : SinkAnswer → Bool
  | .status code => 200 ≤ code && code < 300
  | .httpError _ => false

/-- Whether the sink has the payload. -/
def SinkAnswer.taken : SinkAnswer → Bool
  | .status code => SinkAnswer.ok (.status code)
  | .httpError taken => taken

/-- One request to the sink. -/
structure Post where
  name : String
  payload : Bytes
  answer : SinkAnswer
  deriving DecidableEq

/-- An `enqueue` under way: `written` bytes of the payload are in the temporary file. -/
structure Enqueue where
  name : String
  payload : Bytes
  written : Nat

/-- Who sends: the thread of a forwarder with its back-off in seconds, or a call of
`flush_once` with the number of records it has delivered. -/
inductive Runner where
  | loop (backoff : Nat)
  | flush (sent : Nat)
  deriving DecidableEq

/-- What a sender does next; `rest` are the files `flush_once` has listed and not reached. -/
inductive SenderPc where
  | top (backoff : Nat)
  | woken (backoff : Nat)
  | listing (r : Runner)
  | reading (r : Runner) (name : String) (rest : List String)
  | posting (r : Runner) (name : String) (payload : Bytes) (rest : List String)
  | unlinking (r : Runner) (name : String) (payload : Bytes) (rest : List String)
  | left (r : Runner) (e : Option PyError)
  deriving DecidableEq

/-! ## The machine -/

/-- How a sender goes on after `_send` has returned `False`. -/
def Runner.failed : Runner → SenderPc
  | .loop backoff => .top (min (backoff * 2) 60)
  | .flush sent => .left (.flush sent) none

/-- How a sender goes on after `_send` has returned `True`. -/
def Runner.succeeded : Runner → List String → SenderPc
  | .loop _, _ => .top 1
  | .flush sent, [] => .left (.flush (sent + 1)) none
  | .flush sent, name :: rest => .reading (.flush (sent + 1)) name rest

/-- How a sender goes on where nothing is spooled. -/
def Runner.idle : Runner → SenderPc
  | .loop _ => .top 1
  | .flush sent => .left (.flush sent) none

/-- One step of a sender: the directory, the posts it makes, and what it does next. -/
def senderStep (dir : Dir Bytes) (stopped : Bool) (answer : SinkAnswer) :
    SenderPc → Option (Dir Bytes × List Post × SenderPc)
  -- `_stop` is looked at before and after the wait.
  | .top backoff => some (dir, [], if stopped then .left (.loop backoff) none else .woken backoff)
  | .woken backoff =>
    some (dir, [], if stopped then .left (.loop backoff) none else .listing (.loop backoff))
  | .listing r => match dir.sortedNames isSpooled with
    | [] => some (dir, [], r.idle)
    | name :: rest => some (dir, [], .reading r name rest)
  -- The name is of an earlier listing; `_send` does not catch that the file has gone.
  | .reading r name rest => match dir.read name with
    | none => some (dir, [], .left r (some .fileNotFoundError))
    | some payload => some (dir, [], .posting r name payload rest)
  -- The rest of a listing is given up at the first post that is refused.
  | .posting r name payload rest =>
    some (dir, [⟨name, payload, answer⟩], if answer.ok then .unlinking r name payload rest
      else r.failed)
  | .unlinking r name _ rest => some (dir.remove name, [], r.succeeded rest)
  | .left _ _ => none

/-- The spool directory and who works on it.  `published` and `posts` are history: what was
enqueued, and every request to the sink. -/
structure Spool (P : Type) where
  dir : Dir Bytes
  enqueues : P → Option Enqueue
  senders : P → Option SenderPc
  stopped : P → Bool
  published : List (String × Bytes)
  posts : List Post

/-- An empty spool. -/
def Spool.empty (P : Type) : Spool P :=
  ⟨Dir.empty, fun _ => none, fun _ => none, fun _ => false, [], []⟩

inductive SpoolAction (P : Type) where
  | enqueue (p : P) (draw : String) (payload : Bytes)
  | writeTmp (p : P) (bytes : Nat)
  | publish (p : P)
  | startLoop (p : P)
  | startFlush (p : P)
  | stop (p : P)
  | advance (p : P) (answer : SinkAnswer)

variable {P : Type} [DecidableEq P]

namespace Spool

variable (s : Spool P)

/-- The temporary file of a new payload is created. -/
def create (p : P) (e : Enqueue) : Spool P :=
  { s with
    dir := s.dir.write (spoolTmp e.name) [], enqueues := Function.update s.enqueues p (some e) }

/-- More of a payload is written. -/
def grow (p : P) (e : Enqueue) : Spool P :=
  { s with
    dir := s.dir.write (spoolTmp e.name) (e.payload.take e.written)
    enqueues := Function.update s.enqueues p (some e) }

/-- A payload has got its name. -/
def settle (p : P) (e : Enqueue) (dir : Dir Bytes) : Spool P :=
  { s with
    dir := dir
    enqueues := Function.update s.enqueues p none
    published := s.published ++ [(e.name, e.payload)] }

/-- A sender has made a step. -/
def move (p : P) (dir : Dir Bytes) (posts : List Post) (pc : SenderPc) : Spool P :=
  { s with dir := dir, senders := Function.update s.senders p (some pc), posts := s.posts ++ posts }

end Spool

theorem move_senders_self (s : Spool P) (p : P) (dir : Dir Bytes) (posts : List Post)
    (pc : SenderPc) :
    (s.move p dir posts pc).senders p = some pc := Function.update_self p _ _

theorem move_senders_of_ne (s : Spool P) {p q : P} (h : q ≠ p) (dir : Dir Bytes) (posts : List Post)
    (pc : SenderPc) : (s.move p dir posts pc).senders q = s.senders q := Function.update_of_ne h _ _

/-- The step function. -/
def spoolStep (s : Spool P) : SpoolAction P → Option (Spool P)
  | .enqueue p draw payload =>
    if (s.enqueues p).isNone then some (s.create p ⟨draw ++ ".json", payload, 0⟩) else none
  | .writeTmp p bytes =>
    (s.enqueues p).map (fun e => s.grow p { e with written := e.written + bytes })
  | .publish p => (s.enqueues p).bind (fun e =>
      if e.payload.length ≤ e.written then (s.dir.rename (spoolTmp e.name) e.name).map
        (s.settle p e) else none)
  | .startLoop p => if (s.senders p).isNone then some (s.move p s.dir [] (.top 1)) else none
  | .startFlush p =>
    if (s.senders p).isNone then some (s.move p s.dir [] (.listing (.flush 0))) else none
  | .stop p => some { s with stopped := Function.update s.stopped p true }
  | .advance p answer => (s.senders p).bind (fun pc =>
      (senderStep s.dir (s.stopped p) answer pc).map (fun r => s.move p r.1 r.2.1 r.2.2))

/-- A name is drawn once: the clock and the `uuid` see to it. -/
def FreshName (s : Spool P) : SpoolAction P → Prop
  | .enqueue _ draw _ =>
    draw ++ ".json" ∉ s.published.map Prod.fst ∧
      ∀ q e, s.enqueues q = some e → e.name ≠ draw ++ ".json"
  | _ => True

/-- The file that the loop of a sender is about to read is still there. -/
def StillThere (s : Spool P) : SpoolAction P → Prop
  | .advance p _ => ∀ backoff name rest, s.senders p = some (.reading (.loop backoff) name rest) →
      s.dir.read name ≠ none
  | _ => True

/-- With finitely many processes the conditions can be checked. -/
instance [Fintype P] (s : Spool P) (a : SpoolAction P) : Decidable (FreshName s a) :=
  match a with
  | .enqueue _ draw _ => decidable_of_iff (draw ++ ".json" ∉ s.published.map Prod.fst ∧
      ∀ q, ∀ e ∈ s.enqueues q, e.name ≠ draw ++ ".json") Iff.rfl
  | .writeTmp _ _ | .publish _ | .startLoop _ | .startFlush _ | .stop _ | .advance _ _ =>
    isTrue trivial

instance (s : Spool P) (a : SpoolAction P) : Decidable (StillThere s a) :=
  match a with
  | .advance p _ => match h : s.senders p with
    | some (.reading (.loop backoff) name rest) => decidable_of_iff (s.dir.read name ≠ none)
        ⟨fun hr b n r hp => by
          rw [h] at hp
          cases hp
          exact hr, fun ha => ha backoff name rest h⟩
    | none | some (.top _) | some (.woken _) | some (.listing _) | some (.reading (.flush _) _ _)
    | some (.posting _ _ _ _) | some (.unlinking _ _ _ _) | some (.left _ _) =>
      isTrue (fun b n r hp => by
        rw [h] at hp
        cases hp)
  | .enqueue _ _ _ | .writeTmp _ _ | .publish _ | .startLoop _ | .startFlush _ | .stop _ =>
    isTrue trivial

/-- What was enqueued is in the spool or has been answered with a 2xx, every post was of a
whole payload, and a loop that has ended was stopped. -/
structure SpoolSafe (s : Spool P) : Prop where
  kept : ∀ e ∈ s.published, s.dir.read e.1 = some e.2 ∨
    ∃ post ∈ s.posts, post.name = e.1 ∧ post.payload = e.2 ∧ post.answer.ok = true
  whole : ∀ post ∈ s.posts, (post.name, post.payload) ∈ s.published
  loops : ∀ p backoff e, s.senders p = some (.left (.loop backoff) e) → e = none ∧
    s.stopped p = true

/-! ## Names -/

theorem isSpooled_draw (draw : String) : isSpooled (draw ++ ".json") = true := by
  rw [isSpooled, String.toList_append, List.isSuffixOf_iff_suffix]
  exact List.suffix_append _ _

theorem isSpooled_tmp (name : String) : isSpooled (spoolTmp name) = false := by
  rw [Bool.eq_false_iff]
  intro h
  obtain ⟨t, ht⟩ := List.isSuffixOf_iff_suffix.mp h
  have hlast : (t ++ ".json".toList).getLast? = (spoolTmp name).toList.getLast? :=
    congrArg List.getLast? ht
  rw [spoolTmp, String.toList_append, List.getLast?_append, List.getLast?_append,
    show ".json".toList.getLast? = some 'n' from rfl,
      show ".tmp".toList.getLast? = some 'p' from rfl, Option.some_or, Option.some_or] at hlast
  exact absurd (Option.some.inj hlast) (by decide)

theorem spoolTmp_injective : Function.Injective spoolTmp := by
  intro n m h
  have hl := congrArg String.toList h
  simp only [spoolTmp, String.toList_append] at hl
  have hr := List.append_cancel_right hl
  exact String.toList_inj.mp (List.append_cancel_left hr)

theorem ne_tmp_of_isSpooled {n m : String} (h : isSpooled n = true) : n ≠ spoolTmp m := by
  rintro rfl
  rw [isSpooled_tmp] at h
  cases h

/-! ## What a step of a sender does -/

/-- The steps of a sender. -/
inductive Sending (dir : Dir Bytes) (stopped : Bool) (answer : SinkAnswer) :
    SenderPc → Dir Bytes → List Post → SenderPc → Prop where
  | topStopped (b : Nat) (h : stopped = true) : Sending dir stopped answer (.top b) dir []
      (.left (.loop b) none)
  | wokenStopped (b : Nat) (h : stopped = true) :
      Sending dir stopped answer (.woken b) dir [] (.left (.loop b) none)
  | wakes (b : Nat) : Sending dir stopped answer (.top b) dir [] (.woken b)
  | lists (b : Nat) : Sending dir stopped answer (.woken b) dir [] (.listing (.loop b))
  | idles (r : Runner) (h : dir.sortedNames isSpooled = []) :
      Sending dir stopped answer (.listing r) dir [] r.idle
  | found (r : Runner) (name : String) (rest : List String)
      (h : dir.sortedNames isSpooled = name :: rest) :
      Sending dir stopped answer (.listing r) dir [] (.reading r name rest)
  | vanished (r : Runner) (name : String) (rest : List String) (h : dir.read name = none) :
      Sending dir stopped answer (.reading r name rest) dir [] (.left r (some .fileNotFoundError))
  | reads (r : Runner) (name : String) (rest : List String) (payload : Bytes)
      (h : dir.read name = some payload) :
      Sending dir stopped answer (.reading r name rest) dir [] (.posting r name payload rest)
  | delivered (r : Runner) (name : String) (rest : List String) (payload : Bytes)
      (h : answer.ok = true) :
      Sending dir stopped answer (.posting r name payload rest) dir [⟨name, payload, answer⟩]
        (.unlinking r name payload rest)
  | failed (r : Runner) (name : String) (rest : List String) (payload : Bytes)
      (h : answer.ok = false) :
      Sending dir stopped answer (.posting r name payload rest) dir
        [⟨name, payload, answer⟩] r.failed
  | unlinks (r : Runner) (name : String) (rest : List String) (payload : Bytes) :
      Sending dir stopped answer (.unlinking r name payload rest) (dir.remove name) []
        (r.succeeded rest)

theorem sending_of_step {dir dir' : Dir Bytes} {stopped : Bool} {answer : SinkAnswer}
    {pc pc' : SenderPc} {posts : List Post}
    (h : senderStep dir stopped answer pc = some (dir', posts, pc')) :
    Sending dir stopped answer pc dir' posts pc' := by
  cases pc with
  | top b =>
    cases h
    split
    · next hs => exact .topStopped b hs
    · exact .wakes b
  | woken b =>
    cases h
    split
    · next hs => exact .wokenStopped b hs
    · exact .lists b
  | listing r =>
    simp only [senderStep] at h
    split at h
    · next hl =>
      cases h
      exact .idles r hl
    · next name rest hl =>
      cases h
      exact .found r name rest hl
  | reading r name rest =>
    simp only [senderStep] at h
    split at h
    · next hr =>
      cases h
      exact .vanished r name rest hr
    · next payload hr =>
      cases h
      exact .reads r name rest payload hr
  | posting r name payload rest =>
    cases h
    split
    · next ha => exact .delivered r name rest payload ha
    · next ha => exact .failed r name rest payload (Bool.eq_false_iff.mpr ha)
  | unlinking r name payload rest =>
    cases h
    exact .unlinks r name rest payload
  | left r e => cases h

/-- What one step of the machine can be. -/
inductive SpoolTransition (s : Spool P) : SpoolAction P → Spool P → Prop where
  | created (p : P) (draw : String) (payload : Bytes) (h : s.enqueues p = none) :
      SpoolTransition s (.enqueue p draw payload) (s.create p ⟨draw ++ ".json", payload, 0⟩)
  | grown (p : P) (bytes : Nat) (e : Enqueue) (h : s.enqueues p = some e) :
      SpoolTransition s (.writeTmp p bytes) (s.grow p { e with written := e.written + bytes })
  | settled (p : P) (e : Enqueue) (dir : Dir Bytes) (h : s.enqueues p = some e)
      (hw : e.payload.length ≤ e.written) (hd : s.dir.rename (spoolTmp e.name) e.name = some dir) :
      SpoolTransition s (.publish p) (s.settle p e dir)
  | started (p : P) (h : s.senders p = none) :
      SpoolTransition s (.startLoop p) (s.move p s.dir [] (.top 1))
  | flushes (p : P) (h : s.senders p = none) :
      SpoolTransition s (.startFlush p) (s.move p s.dir [] (.listing (.flush 0)))
  | stops (p : P) : SpoolTransition s (.stop p)
      { s with stopped := Function.update s.stopped p true }
  | sends (p : P) (answer : SinkAnswer) (pc : SenderPc) (dir : Dir Bytes) (posts : List Post)
      (pc' : SenderPc) (h : s.senders p = some pc)
      (hs : Sending s.dir (s.stopped p) answer pc dir posts pc') :
      SpoolTransition s (.advance p answer) (s.move p dir posts pc')

theorem spoolTransition_of_step {s t : Spool P} {a : SpoolAction P} (h : spoolStep s a = some t) :
    SpoolTransition s a t := by
  cases a with
  | enqueue p draw payload =>
    simp only [spoolStep] at h
    split at h
    case isFalse => cases h
    next hn =>
    cases h
    exact .created p draw payload (Option.isNone_iff_eq_none.mp hn)
  | writeTmp p bytes =>
    obtain ⟨e, he, rfl⟩ := Option.map_eq_some_iff.mp h
    exact .grown p bytes e he
  | publish p =>
    obtain ⟨e, he, h⟩ := Option.bind_eq_some_iff.mp h
    split at h
    case isFalse => cases h
    next hw =>
    obtain ⟨dir, hd, rfl⟩ := Option.map_eq_some_iff.mp h
    exact .settled p e dir he hw hd
  | startLoop p =>
    simp only [spoolStep] at h
    split at h
    case isFalse => cases h
    next hn =>
    cases h
    exact .started p (Option.isNone_iff_eq_none.mp hn)
  | startFlush p =>
    simp only [spoolStep] at h
    split at h
    case isFalse => cases h
    next hn =>
    cases h
    exact .flushes p (Option.isNone_iff_eq_none.mp hn)
  | stop p =>
    cases h
    exact .stops p
  | advance p answer =>
    obtain ⟨pc, hpc, h⟩ := Option.bind_eq_some_iff.mp h
    obtain ⟨⟨dir, posts, pc'⟩, hs, rfl⟩ := Option.map_eq_some_iff.mp h
    exact .sends p answer pc dir posts pc' hpc (sending_of_step hs)

/-! ## The invariant -/

/-- What a sender relies on. -/
def SenderFits (published : List (String × Bytes)) (posts : List Post) : SenderPc → Prop
  | .reading _ name rest => ∀ n ∈ name :: rest, isSpooled n = true
  | .posting _ name payload rest => (name, payload) ∈ published ∧ ∀ n ∈ rest, isSpooled n = true
  | .unlinking _ name payload rest => (name, payload) ∈ published ∧ isSpooled name = true ∧
      (∃ post ∈ posts, post.name = name ∧ post.payload = payload ∧ post.answer.ok = true) ∧
      ∀ n ∈ rest, isSpooled n = true
  | _ => True

theorem SenderFits.mono {published published' : List (String × Bytes)} {posts posts' : List Post}
    {pc : SenderPc} (h : SenderFits published posts pc) (hp : ∀ e ∈ published, e ∈ published')
    (hq : ∀ q ∈ posts, q ∈ posts') : SenderFits published' posts' pc := by
  cases pc with
  | posting r name payload rest => exact ⟨hp _ h.1, h.2⟩
  | unlinking r name payload rest =>
    obtain ⟨hpub, hs, ⟨post, hmem, hpost⟩, hrest⟩ := h
    exact ⟨hp _ hpub, hs, ⟨post, hq _ hmem, hpost⟩, hrest⟩
  | reading r name rest => exact h
  | _ => trivial

/-- The invariant of the spool. -/
structure SpoolInv (s : Spool P) : Prop where
  names : (s.published.map Prod.fst).Nodup
  spooled : ∀ e ∈ s.published, isSpooled e.1 = true
  files : ∀ n c, isSpooled n = true → s.dir.read n = some c → (n, c) ∈ s.published
  writing : ∀ p e, s.enqueues p = some e → isSpooled e.name = true ∧
    e.name ∉ s.published.map Prod.fst ∧
    s.dir.read (spoolTmp e.name) = some (e.payload.take e.written)
  distinct : ∀ p q e f, s.enqueues p = some e → s.enqueues q = some f → e.name = f.name → p = q
  fits : ∀ p pc, s.senders p = some pc → SenderFits s.published s.posts pc
  kept : ∀ e ∈ s.published, s.dir.read e.1 = some e.2 ∨
    ∃ post ∈ s.posts, post.name = e.1 ∧ post.payload = e.2 ∧ post.answer.ok = true
  whole : ∀ post ∈ s.posts, (post.name, post.payload) ∈ s.published

omit [DecidableEq P] in
theorem SpoolInv.empty : SpoolInv (Spool.empty P) where
  names := List.nodup_nil
  spooled := fun _ h => (nomatch h)
  files := fun _ _ _ h => (nomatch h)
  writing := fun _ _ h => (nomatch h)
  distinct := fun _ _ _ _ h => (nomatch h)
  fits := fun _ _ h => (nomatch h)
  kept := fun _ h => (nomatch h)
  whole := fun _ h => (nomatch h)

omit [DecidableEq P] in
/-- One name stands for one payload. -/
theorem SpoolInv.payload_eq {s : Spool P} (hi : SpoolInv s) {n : String} {c c' : Bytes}
    (h : (n, c) ∈ s.published) (h' : (n, c') ∈ s.published) : c = c' :=
  congrArg Prod.snd (List.inj_on_of_nodup_map hi.names h h' rfl)

namespace SpoolInv

variable {s : Spool P} {p : P}

/-- A temporary file is written: of a new payload, or with more of one. -/
theorem write (hi : SpoolInv s) {e : Enqueue} {content : Bytes}
    (hc : content = e.payload.take e.written) (hs : isSpooled e.name = true)
    (hnew : e.name ∉ s.published.map Prod.fst)
    (hother : ∀ q f, q ≠ p → s.enqueues q = some f → f.name ≠ e.name) :
    SpoolInv { s with
      dir := s.dir.write (spoolTmp e.name) content
      enqueues := Function.update s.enqueues p (some e) } := by
  have hbusy : ∀ q f, Function.update s.enqueues p (some e) q = some f →
      (q = p ∧ f = e) ∨ (q ≠ p ∧ s.enqueues q = some f) := by
    intro q f hq
    by_cases hqp : q = p
    · subst hqp
      rw [Function.update_self] at hq
      exact Or.inl ⟨rfl, (Option.some.inj hq).symm⟩
    · rw [Function.update_of_ne hqp] at hq
      exact Or.inr ⟨hqp, hq⟩
  constructor
  case names => exact hi.names
  case spooled => exact hi.spooled
  case files =>
    intro n c hn hr
    rw [Dir.read_write_of_ne _ _ (ne_tmp_of_isSpooled hn)] at hr
    exact hi.files n c hn hr
  case writing =>
    intro q f hq
    rcases hbusy q f hq with ⟨rfl, rfl⟩ | ⟨hqp, hq⟩
    · exact ⟨hs, hnew, by rw [Dir.read_write_self, hc]⟩
    · obtain ⟨hfs, hfn, hfr⟩ := hi.writing q f hq
      refine ⟨hfs, hfn, ?_⟩
      rw [Dir.read_write_of_ne _ _ (fun h => hother q f hqp hq (spoolTmp_injective h))]
      exact hfr
  case distinct =>
    intro q q' f f' hq hq' hff
    rcases hbusy q f hq with ⟨hqp, hf⟩ | ⟨hqp, ho⟩ <;> rcases hbusy q' f' hq'
      with ⟨hqp', hf'⟩ | ⟨hqp', ho'⟩
    · exact hqp.trans hqp'.symm
    · exact absurd (hf ▸ hff.symm) (hother q' f' hqp' ho')
    · exact absurd (hf' ▸ hff) (hother q f hqp ho)
    · exact hi.distinct q q' f f' ho ho' hff
  case fits => exact hi.fits
  case kept =>
    intro g hg
    rw [Dir.read_write_of_ne _ _ (ne_tmp_of_isSpooled (hi.spooled g hg))]
    exact hi.kept g hg
  case whole => exact hi.whole

/-- A payload that is written whole gets its name. -/
theorem settle (hi : SpoolInv s) {e : Enqueue} {dir : Dir Bytes} (he : s.enqueues p = some e)
    (hw : e.payload.length ≤ e.written) (hd : s.dir.rename (spoolTmp e.name) e.name = some dir) :
    SpoolInv (s.settle p e dir) := by
  obtain ⟨hes, hen, her⟩ := hi.writing p e he
  rw [List.take_of_length_le hw] at her
  -- the rename takes the temporary file, which holds the whole payload
  have hread : ∀ m, dir.read m = if m = e.name then some e.payload
      else if m = spoolTmp e.name then none else s.dir.read m := by
    intro m
    rw [Dir.read_rename hd, her]
  have hbusy : ∀ q f, Function.update s.enqueues p none q = some f → q ≠ p ∧
      s.enqueues q = some f := by
    intro q f hq
    by_cases hqp : q = p
    · subst hqp
      rw [Function.update_self] at hq
      cases hq
    · rw [Function.update_of_ne hqp] at hq
      exact ⟨hqp, hq⟩
  constructor
  case names =>
    rw [Spool.settle, List.map_append]
    refine List.nodup_append.mpr ⟨hi.names, List.nodup_singleton _, fun n hn m hm hnm => ?_⟩
    rw [List.map_singleton, List.mem_singleton] at hm
    rw [hnm.trans hm] at hn
    exact hen hn
  case spooled =>
    intro g hg
    rcases List.mem_append.mp hg with hg | hg
    · exact hi.spooled g hg
    · rw [List.mem_singleton.mp hg]
      exact hes
  case files =>
    intro n c hn hr
    replace hr : dir.read n = some c := hr
    rw [hread] at hr
    split at hr
    · next hne =>
      cases hr
      rw [hne]
      exact List.mem_append_right _ List.mem_cons_self
    · rw [if_neg (ne_tmp_of_isSpooled hn)] at hr
      exact List.mem_append_left _ (hi.files n c hn hr)
  case writing =>
    intro q f hq
    obtain ⟨hqp, hq⟩ := hbusy q f hq
    obtain ⟨hfs, hfn, hfr⟩ := hi.writing q f hq
    -- the names of payloads under way are distinct
    have hne : f.name ≠ e.name := fun h => hqp (hi.distinct q p f e hq he h)
    refine ⟨hfs, ?_, ?_⟩
    · rw [Spool.settle, List.map_append, List.mem_append, List.map_singleton, List.mem_singleton]
      rintro (hf | hf)
      · exact hfn hf
      · exact hne hf
    · show dir.read (spoolTmp f.name) = _
      rw [hread, if_neg (fun h => ne_tmp_of_isSpooled hes h.symm),
        if_neg (fun h => hne (spoolTmp_injective h))]
      exact hfr
  case distinct =>
    exact fun q q' f f' hq hq' => hi.distinct q q' f f' (hbusy q f hq).2 (hbusy q' f' hq').2
  case fits =>
    exact fun q pc hq => (hi.fits q pc hq).mono (fun g hg => List.mem_append_left _ hg)
      (fun _ h => h)
  case whole => exact fun post hp => List.mem_append_left _ (hi.whole post hp)
  case kept =>
    intro g hg
    show dir.read g.1 = some g.2 ∨ _
    rw [hread]
    rcases List.mem_append.mp hg with hg | hg
    · have hne : g.1 ≠ e.name := fun h => hen (h ▸ List.mem_map_of_mem hg)
      rw [if_neg hne, if_neg (ne_tmp_of_isSpooled (hi.spooled g hg))]
      exact hi.kept g hg
    · rw [List.mem_singleton.mp hg, if_pos rfl]
      exact Or.inl rfl

/-- A sender moves: it may post what was published whole, and remove what was answered with
a 2xx. -/
theorem move (hi : SpoolInv s) {dir : Dir Bytes} {posts : List Post} {pc : SenderPc}
    (hread : ∀ m, dir.read m = s.dir.read m ∨ dir.read m = none ∧ isSpooled m = true ∧
      ∃ payload, (m, payload) ∈ s.published ∧
        ∃ post ∈ s.posts, post.name = m ∧ post.payload = payload ∧ post.answer.ok = true)
    (hposts : ∀ post ∈ posts, (post.name, post.payload) ∈ s.published)
    (hfits : SenderFits s.published (s.posts ++ posts) pc) :
    SpoolInv (s.move p dir posts pc) where
  names := hi.names
  spooled := hi.spooled
  files := fun n c hn hr => by
    rcases hread n with h | ⟨h, -⟩
    · exact hi.files n c hn (h ▸ hr)
    · rw [Spool.move, h] at hr
      cases hr
  writing := fun q f hq => by
    obtain ⟨hfs, hfn, hfr⟩ := hi.writing q f hq
    refine ⟨hfs, hfn, ?_⟩
    rcases hread (spoolTmp f.name) with h | ⟨-, h, -⟩
    · exact h.trans hfr
    · rw [isSpooled_tmp] at h
      cases h
  distinct := hi.distinct
  fits := fun q pc' hq => by
    by_cases hqp : q = p
    · subst hqp
      rw [move_senders_self] at hq
      cases hq
      exact hfits
    · rw [move_senders_of_ne s hqp] at hq
      exact (hi.fits q pc' hq).mono (fun _ h => h) (fun _ h => List.mem_append_left _ h)
  kept := fun g hg => by
    rcases hread g.1 with h | ⟨h, -, payload, hp, post, hmem, hpost⟩
    · rcases hi.kept g hg with hk | ⟨post, hmem, hpost⟩
      · exact Or.inl (h.trans hk)
      · exact Or.inr ⟨post, List.mem_append_left _ hmem, hpost⟩
    · obtain rfl : payload = g.2 := hi.payload_eq hp hg
      exact Or.inr ⟨post, List.mem_append_left _ hmem, hpost⟩
  whole := fun post hp => by
    rcases List.mem_append.mp hp with hp | hp
    · exact hi.whole post hp
    · exact hposts post hp

/-- **One step of a sender.** -/
theorem sending (hi : SpoolInv s) {answer : SinkAnswer} {pc pc' : SenderPc} {dir : Dir Bytes}
    {posts : List Post} (hpc : s.senders p = some pc)
    (h : Sending s.dir (s.stopped p) answer pc dir posts pc') :
    SpoolInv (s.move p dir posts pc') := by
  have hfit := hi.fits p pc hpc
  -- most steps leave the directory alone and post nothing
  have hsame : ∀ m, s.dir.read m = s.dir.read m ∨ s.dir.read m = none ∧ isSpooled m = true ∧
      ∃ payload, (m, payload) ∈ s.published ∧
        ∃ post ∈ s.posts, post.name = m ∧ post.payload = payload ∧ post.answer.ok = true :=
    fun m => Or.inl rfl
  have hnone : ∀ post ∈ ([] : List Post), (post.name, post.payload) ∈ s.published :=
    fun _ h => (nomatch h)
  cases h with
  | topStopped b h => exact hi.move hsame hnone trivial
  | wokenStopped b h => exact hi.move hsame hnone trivial
  | wakes b => exact hi.move hsame hnone trivial
  | lists b => exact hi.move hsame hnone trivial
  | idles r h =>
    cases r with
    | loop b => exact hi.move hsame hnone trivial
    | flush k => exact hi.move hsame hnone trivial
  | found r name rest h =>
    refine hi.move hsame hnone (fun n hn => ?_)
    rw [← h] at hn
    exact (Dir.mem_sortedNames.mp hn).1
  | vanished r name rest h => exact hi.move hsame hnone trivial
  | reads r name rest payload h =>
    refine hi.move hsame hnone ⟨?_, fun n hn => hfit n (List.mem_cons_of_mem _ hn)⟩
    -- what stands under a name of the spool was published under it
    exact hi.files name payload (hfit name List.mem_cons_self) h
  | delivered r name rest payload h =>
    obtain ⟨hpub, hrest⟩ := hfit
    refine hi.move hsame (fun post hp => ?_) ⟨hpub, hi.spooled _ hpub, ?_, hrest⟩
    · rw [List.mem_singleton.mp hp]
      exact hpub
    · exact ⟨_, List.mem_append_right _ List.mem_cons_self, rfl, rfl, h⟩
  | failed r name rest payload h =>
    obtain ⟨hpub, hrest⟩ := hfit
    have hposts : ∀ post ∈ [(⟨name, payload, answer⟩ : Post)], (post.name, post.payload) ∈
        s.published := by
      intro post hp
      rw [List.mem_singleton.mp hp]
      exact hpub
    cases r with
    | loop b => exact hi.move hsame hposts trivial
    | flush k => exact hi.move hsame hposts trivial
  | unlinks r name rest payload =>
    obtain ⟨hpub, hs, hpost, hrest⟩ := hfit
    -- only a file that was posted and answered with a 2xx is removed
    have hread : ∀ m, (s.dir.remove name).read m = s.dir.read m ∨
        (s.dir.remove name).read m = none ∧ isSpooled m = true ∧
        ∃ payload, (m, payload) ∈ s.published ∧
          ∃ post ∈ s.posts, post.name = m ∧ post.payload = payload ∧ post.answer.ok = true := by
      intro m
      rw [Dir.read_remove]
      split
      · next hm =>
        subst hm
        exact Or.inr ⟨rfl, hs, payload, hpub, hpost⟩
      · exact Or.inl rfl
    cases r with
    | loop b => exact hi.move hread hnone trivial
    | flush k =>
      cases rest with
      | nil => exact hi.move hread hnone trivial
      | cons n rest => exact hi.move hread hnone hrest

/-- **One step of the machine.** -/
theorem step (hi : SpoolInv s) {a : SpoolAction P} {t : Spool P} (hf : FreshName s a)
    (h : spoolStep s a = some t) : SpoolInv t := by
  cases spoolTransition_of_step h with
  | created p draw payload hn =>
    exact hi.write (e := ⟨draw ++ ".json", payload, 0⟩) rfl (isSpooled_draw draw) hf.1
      (fun q f _ hq => hf.2 q f hq)
  | grown p bytes e he =>
    obtain ⟨hes, hen, -⟩ := hi.writing p e he
    exact hi.write (e := { e with written := e.written + bytes }) rfl hes hen
      (fun q f hqp hq hname => hqp (hi.distinct q p f e hq he hname))
  | settled p e dir he hw hd => exact hi.settle he hw hd
  | started p hn => exact hi.move (fun m => Or.inl rfl) (fun _ h => (nomatch h)) trivial
  | flushes p hn => exact hi.move (fun m => Or.inl rfl) (fun _ h => (nomatch h)) trivial
  | stops p =>
    exact ⟨hi.names, hi.spooled, hi.files, hi.writing, hi.distinct, hi.fits, hi.kept, hi.whole⟩
  | sends p answer pc dir posts pc' hpc hs => exact hi.sending hpc hs

end SpoolInv

/-! ## Runs -/

/-- A loop that has ended was stopped. -/
def LoopsStopped (s : Spool P) : Prop :=
  ∀ p backoff e, s.senders p = some (.left (.loop backoff) e) → e = none ∧ s.stopped p = true

/-- The loop of one sender ends by a step of its own only. -/
theorem LoopsStopped.move {s : Spool P} (hl : LoopsStopped s) {p : P} {dir : Dir Bytes}
    {posts : List Post} {pc : SenderPc} (hpc : ∀ b e, pc = .left (.loop b) e → e = none ∧
      s.stopped p = true) :
    LoopsStopped (s.move p dir posts pc) := by
  intro q b e hq
  by_cases hqp : q = p
  · subst hqp
    rw [move_senders_self] at hq
    exact hpc b e (Option.some.inj hq)
  · rw [move_senders_of_ne s hqp] at hq
    exact hl q b e hq

theorem LoopsStopped.step {s t : Spool P} (hl : LoopsStopped s) {a : SpoolAction P}
    (ht : StillThere s a) (hstep : spoolStep s a = some t) : LoopsStopped t := by
  cases spoolTransition_of_step hstep with
  | created p draw payload hn => exact hl
  | grown p bytes e he => exact hl
  | settled p e dir he hw hd => exact hl
  | started p hn => exact hl.move (fun _ _ he => (nomatch he))
  | flushes p hn => exact hl.move (fun _ _ he => (nomatch he))
  | stops p =>
    intro q b e hq
    obtain ⟨he, hstop⟩ := hl q b e hq
    refine ⟨he, ?_⟩
    by_cases hqp : q = p
    · subst hqp
      exact Function.update_self _ _ _
    · exact (Function.update_of_ne hqp _ _).trans hstop
  | sends p answer pc dir posts pc' hpc hs =>
    refine hl.move (fun b e he => ?_)
    subst he
    generalize hleft : SenderPc.left (.loop b) e = pc' at hs
    cases hs with
    | topStopped b' hstop =>
      cases hleft
      exact ⟨rfl, hstop⟩
    | wokenStopped b' hstop =>
      cases hleft
      exact ⟨rfl, hstop⟩
    | vanished r name rest hgone =>
      cases hleft
      exact absurd hgone (ht b name rest hpc)
    | idles r h => cases r <;> cases hleft
    | failed r name rest payload h => cases r <;> cases hleft
    | unlinks r name rest payload => cases r <;> cases rest <;> cases hleft
    | _ => cases hleft

/-- **Nothing spooled is lost, nothing is sent in part, and a loop ends only when it is
stopped**, in every interleaving of enqueues and senders in which a loop that reads a file
finds it where it has listed it. -/
theorem spool_safe (P : Type) [DecidableEq P] (as : List (SpoolAction P)) (s : Spool P)
    (hm : Meets spoolStep (fun s a => FreshName s a ∧ StillThere s a) (Spool.empty P) as)
    (hr : run spoolStep (Spool.empty P) as = some s) : SpoolSafe s := by
  have hinv : SpoolInv s ∧ LoopsStopped s :=
    hm.invariant (P := fun s => SpoolInv s ∧ LoopsStopped s)
    (fun s a t hi hc h => ⟨hi.1.step hc.1 h, hi.2.step hc.2 h⟩) ⟨SpoolInv.empty, fun _ _ _ h =>
      (nomatch h)⟩ hr
  exact ⟨hinv.1.kept, hinv.1.whole, hinv.2⟩

/-! ## Two senders -/

/-- A record is spooled; the server is `true`, an export is `false`. -/
def sampleEnqueue : List (SpoolAction Bool) :=
  [.enqueue true "01750000000000000000-a" [0x7b, 0x7d], .writeTmp true 2, .publish true]

/-- A sender wakes up and lists the spool. -/
def wakesAndLists (p : Bool) : List (SpoolAction Bool) :=
  [.advance p (.status 200), .advance p (.status 200), .advance p (.status 200)]

/-- The threads of the server and of an export list the same record; the server delivers it
and unlinks it, and then the export reads it. -/
def sampleTwoSenders : List (SpoolAction Bool) :=
  sampleEnqueue ++ [.startLoop true, .startLoop false] ++ wakesAndLists true ++
    wakesAndLists false ++ [.advance true (.status 200), .advance true (.status 200),
    .advance true (.status 200), .advance false (.status 200)]

/-- **A sender dies of a file another one has sent.** -/
theorem sender_dies_of_sent_file : ∃ s, run spoolStep (Spool.empty Bool) sampleTwoSenders = some s ∧
    Meets spoolStep FreshName (Spool.empty Bool) sampleTwoSenders ∧ ¬ SpoolSafe s := by
  have hpc : (run spoolStep (Spool.empty Bool) sampleTwoSenders).map (fun s => s.senders false) =
      some (some (.left (.loop 1) (some .fileNotFoundError))) := by decide +kernel
  obtain ⟨s, hs, hleft⟩ := Option.map_eq_some_iff.mp hpc
  refine ⟨s, hs, by decide +kernel, fun hsafe => ?_⟩
  cases (hsafe.loops false 1 _ hleft).1

/-- A second record is spooled. -/
def sampleSecond : List (SpoolAction Bool) :=
  [.enqueue true "01750000000000000001-b" [0x5b, 0x5d], .writeTmp true 2, .publish true]

/-- The sink refuses the server's first request.  While the server waits, `flush_once` sends the
first file; both have read the second one before either sends it, the answer to the server is
lost, and then the server is stopped. -/
def sampleBothSend : List (SpoolAction Bool) :=
  sampleEnqueue ++ sampleSecond ++ .startLoop true :: wakesAndLists true ++
    [.advance true (.status 200), .advance true (.status 503), .startFlush false] ++
    List.replicate 4 (.advance false (.status 200)) ++ wakesAndLists true ++
    .advance true (.status 200) :: List.replicate 3 (.advance false (.status 200)) ++
    [.advance true (.httpError true), .stop true, .advance true (.status 200)]

theorem spool_safe_sample : ∃ s, run spoolStep (Spool.empty Bool) sampleBothSend = some s ∧
    s.posts.length = 4 ∧ s.senders false = some (.left (.flush 2) none) ∧
    s.senders true = some (.left (.loop 4) none) ∧ SpoolSafe s := by
  have hrun : (run spoolStep (Spool.empty Bool) sampleBothSend).map
      (fun s => (s.posts.length, s.senders false, s.senders true)) =
        some (4, some (.left (.flush 2) none), some (.left (.loop 4) none)) := by decide +kernel
  obtain ⟨s, hs, hends⟩ := Option.map_eq_some_iff.mp hrun
  simp only [Prod.mk.injEq] at hends
  obtain ⟨hposts, hflush, hloop⟩ := hends
  exact ⟨s, hs, hposts, hflush, hloop, spool_safe Bool sampleBothSend s (by decide +kernel) hs⟩

end ComplianceMcp
