import ComplianceMcp.AuditSpool
import ComplianceMcp.FirstOccurrence

/-! # The order of delivery

A sender takes the files of the spool in the order of their names, so the sink sees the
records in that order as long as no record gets a name before one that is published
already.  `InOrder` is this condition, on the records alone: an anchor may come at any place.
Then what the sink has taken, with repeats left out, is an initial part of what was
published, in every state and however often the sink fails; once the spool is empty it is
all of it. -/
namespace ComplianceMcp

open PyText Files FirstOccurrence

variable {P : Type}

/-! ## Records in order -/

/-- What the sink has taken, as it came. -/
def Spool.received (s : Spool P) : List (String × Bytes) :=
  (s.posts.filter (fun post => post.answer.taken)).map (fun post => (post.name, post.payload))

section

variable (record : Bytes → Bool)

/-- The records among files. -/
def recordsIn (files : List (String × Bytes)) : List (String × Bytes) :=
  files.filter (fun f => record f.2)

/-- A record gets a name after those of all records that have theirs. -/
def InOrder (s : Spool P) : SpoolAction P → Prop
  | .publish p => ∀ e, s.enqueues p = some e → record e.payload = true →
      ∀ g ∈ recordsIn record s.published, g.1 < e.name
  | _ => True

instance (s : Spool P) (a : SpoolAction P) : Decidable (InOrder record s a) :=
  match a with
  | .publish p => decidable_of_iff (∀ e ∈ s.enqueues p, record e.payload = true →
      ∀ g ∈ recordsIn record s.published, g.1 < e.name) Iff.rfl
  | .enqueue _ _ _ | .writeTmp _ _ | .startLoop _ | .startFlush _ | .stop _ | .advance _ _ =>
    isTrue trivial

/-- The sink has answered a post of the file with a 2xx. -/
def Spool.Answered (s : Spool P) (g : String × Bytes) : Prop :=
  ∃ post ∈ s.posts, post.name = g.1 ∧ post.payload = g.2 ∧ post.answer.ok = true

/-- The files a sender has still to send, in order.  Every record with an earlier name is one
of them or has been answered. -/
structure Queue (s : Spool P) (names : List String) : Prop where
  sorted : names.Pairwise (· < ·)
  published : ∀ n ∈ names, n ∈ s.published.map Prod.fst
  earlier : ∀ n ∈ names, ∀ b, (n, b) ∈ recordsIn record s.published →
    ∀ g ∈ recordsIn record s.published, g.1 < n → g.1 ∈ names ∨ s.Answered g

/-- What a sender has before it. -/
def SenderQueue (s : Spool P) : SenderPc → Prop
  | .reading _ name rest => Queue record s (name :: rest)
  | .posting _ name _ rest => Queue record s (name :: rest)
  | .unlinking _ name _ rest => Queue record s (name :: rest)
  | _ => True

/-- The records are published in order, and the sink has taken an initial part of them. -/
structure OrderInv (s : Spool P) : Prop where
  sorted : (recordsIn record s.published).Pairwise (fun f g => f.1 < g.1)
  queues : ∀ p pc, s.senders p = some pc → SenderQueue record s pc
  delivered : (recordsIn record s.received).eraseDups <+: recordsIn record s.published

theorem OrderInv.empty : OrderInv record (Spool.empty P) where
  sorted := List.Pairwise.nil
  queues := fun _ _ h => (nomatch h)
  delivered := List.prefix_refl _

end

/-! ## What the steps change -/

section Steps

variable {record : Bytes → Bool} {s t : Spool P}

theorem mem_recordsIn {files : List (String × Bytes)} {f : String × Bytes} :
    f ∈ recordsIn record files ↔ f ∈ files ∧ record f.2 = true := List.mem_filter

theorem recordsIn_concat (files : List (String × Bytes)) (f : String × Bytes) :
    recordsIn record (files ++ [f]) = recordsIn record files ++ if record f.2 then [f] else [] := by
  rw [recordsIn, List.filter_append, List.filter_singleton, ← Bool.cond_eq_ite]
  rfl

theorem SinkAnswer.taken_of_ok {answer : SinkAnswer} (h : answer.ok = true) :
    answer.taken = true := by
  cases answer with
  | status code => exact h
  | httpError taken => cases h

theorem Spool.Answered.received {g : String × Bytes} (h : s.Answered g) : g ∈ s.received := by
  obtain ⟨post, hmem, hname, hpayload, hok⟩ := h
  refine List.mem_map.mpr ⟨post, List.mem_filter.mpr ⟨hmem, SinkAnswer.taken_of_ok hok⟩, ?_⟩
  exact Prod.ext hname hpayload

theorem Spool.Answered.mono {g : String × Bytes} (h : s.Answered g)
    (hposts : ∀ q ∈ s.posts, q ∈ t.posts) :
    t.Answered g := by
  obtain ⟨post, hmem, hpost⟩ := h
  exact ⟨post, hposts post hmem, hpost⟩

/-- More is published after the queue was made, and more is answered. -/
theorem Queue.mono {names : List String} (h : Queue record s names)
    (hposts : ∀ q ∈ s.posts, q ∈ t.posts) (hpub : ∀ f ∈ s.published, f ∈ t.published)
    (hlater : ∀ f ∈ t.published, f ∈ s.published ∨ f.1 ∉ s.published.map Prod.fst ∧
      (record f.2 = true → ∀ g ∈ recordsIn record s.published, g.1 < f.1)) : Queue
        record t names where
  sorted := h.sorted
  published := fun n hn => by
    obtain ⟨f, hf, rfl⟩ := List.mem_map.mp (h.published n hn)
    exact List.mem_map_of_mem (hpub f hf)
  earlier := fun n hn b hb g hg hlt => by
    obtain ⟨hbmem, hbrec⟩ := mem_recordsIn.mp hb
    obtain ⟨hgmem, hgrec⟩ := mem_recordsIn.mp hg
    rcases hlater _ hbmem with hold | ⟨hnew, -⟩
    case inr => exact absurd (h.published n hn) hnew
    have hb' : (n, b) ∈ recordsIn record s.published := mem_recordsIn.mpr ⟨hold, hbrec⟩
    rcases hlater g hgmem with hgold | ⟨-, hafter⟩
    · rcases h.earlier n hn b hb' g (mem_recordsIn.mpr ⟨hgold, hgrec⟩) hlt with hin | hans
      · exact Or.inl hin
      · exact Or.inr (hans.mono hposts)
    · -- a record published later has a later name
      exact absurd hlt (lt_asymm (hafter hgrec _ hb'))

theorem SenderQueue.mono {pc : SenderPc} (h : SenderQueue record s pc)
    (hposts : ∀ q ∈ s.posts, q ∈ t.posts) (hpub : ∀ f ∈ s.published, f ∈ t.published)
    (hlater : ∀ f ∈ t.published, f ∈ s.published ∨ f.1 ∉ s.published.map Prod.fst ∧
      (record f.2 = true → ∀ g ∈ recordsIn record s.published, g.1 < f.1)) : SenderQueue
        record t pc := by
  cases pc with
  | reading r name rest => exact Queue.mono h hposts hpub hlater
  | posting r name payload rest => exact Queue.mono h hposts hpub hlater
  | unlinking r name payload rest => exact Queue.mono h hposts hpub hlater
  | _ => trivial

/-- Nothing that is published or sent changes. -/
theorem SenderQueue.congr {pc : SenderPc} (h : SenderQueue record s pc) (hposts : t.posts = s.posts)
    (hpub : t.published = s.published) : SenderQueue record t pc :=
  h.mono (fun _ hq => hposts ▸ hq) (fun _ hf => hpub ▸ hf) (fun _ hf => Or.inl (hpub ▸ hf))

/-- The first file of a queue comes before all records that are not answered. -/
theorem Queue.first {name : String} {rest : List String} {payload : Bytes}
    (h : Queue record s (name :: rest)) (hmem : (name, payload) ∈ recordsIn record s.published)
    {g : String × Bytes} (hg : g ∈ recordsIn record s.published) (hlt : g.1 < name) :
    s.Answered g := by
  rcases h.earlier name List.mem_cons_self payload hmem g hg hlt with hin | hans
  · rcases List.mem_cons.mp hin with heq | hlater
    · exact absurd heq (ne_of_lt hlt)
    · exact absurd (List.rel_of_pairwise_cons h.sorted hlater) (lt_asymm hlt)
  · exact hans

/-- A file that is answered leaves the queue. -/
theorem Queue.tail {name : String} {rest : List String} (h : Queue record s (name :: rest))
    (hans : ∀ g ∈ s.published, g.1 = name → s.Answered g) : Queue record s rest where
  sorted := h.sorted.tail
  published := fun n hn => h.published n (List.mem_cons_of_mem _ hn)
  earlier := fun n hn b hb g hg hlt => by
    rcases h.earlier n (List.mem_cons_of_mem _ hn) b hb g hg hlt with hin | ha
    · rcases List.mem_cons.mp hin with heq | hlater
      · exact Or.inr (hans g (mem_recordsIn.mp hg).1 heq)
      · exact Or.inl hlater
    · exact Or.inr ha

/-- The directory as a sender lists it is a queue. -/
theorem queue_of_listing (hi : SpoolInv s) {names : List String}
    (h : s.dir.sortedNames isSpooled = names) :
    Queue record s names where
  sorted := h ▸ Dir.sortedNames_pairwise _ _
  published := fun n hn => by
    rw [← h] at hn
    obtain ⟨hs, hsome⟩ := Dir.mem_sortedNames.mp hn
    obtain ⟨c, hc⟩ := Option.isSome_iff_exists.mp hsome
    exact List.mem_map.mpr ⟨(n, c), hi.files n c hs hc, rfl⟩
  earlier := fun n _ b _ g hg _ => by
    have hgmem := (mem_recordsIn.mp hg).1
    rcases hi.kept g hgmem with hread | hans
    · left
      rw [← h]
      exact Dir.mem_sortedNames.mpr ⟨hi.spooled g hgmem, by rw [hread]; rfl⟩
    · exact Or.inr hans

/-- Nobody sends, and nothing gets a name. -/
theorem OrderInv.congr (ho : OrderInv record s) (hsenders : t.senders = s.senders)
    (hposts : t.posts = s.posts) (hpub : t.published = s.published) : OrderInv record t where
  sorted := by rw [hpub]; exact ho.sorted
  queues := fun p pc h => (ho.queues p pc (hsenders ▸ h)).congr hposts hpub
  delivered := by
    rw [Spool.received, hposts, hpub]
    exact ho.delivered

variable [DecidableEq P]

theorem received_move (s : Spool P) (p : P) (dir : Dir Bytes) (pc : SenderPc) :
    (s.move p dir [] pc).received = s.received := by
  rw [Spool.received, Spool.move, List.append_nil]
  rfl

theorem received_post (s : Spool P) (p : P) (dir : Dir Bytes) (post : Post) (pc : SenderPc) :
    (s.move p dir [post] pc).received =
      s.received ++ if post.answer.taken then [(post.name, post.payload)] else [] := by
  rw [Spool.received, Spool.move, List.filter_append, List.map_append, List.filter_singleton]
  cases post.answer.taken <;> rfl

/-- A sender moves without a post. -/
theorem OrderInv.move (ho : OrderInv record s) {p : P} {dir : Dir Bytes} {pc : SenderPc}
    (hq : SenderQueue record s pc) : OrderInv record (s.move p dir [] pc) where
  sorted := ho.sorted
  queues := fun q pc' h => by
    have hsame : (s.move p dir [] pc).posts = s.posts := List.append_nil _
    by_cases hqp : q = p
    · subst hqp
      rw [move_senders_self] at h
      cases h
      exact hq.congr hsame rfl
    · rw [move_senders_of_ne s hqp] at h
      exact (ho.queues q pc' h).congr hsame rfl
  delivered := by
    rw [received_move]
    exact ho.delivered

/-- **A post.**  The sink may take the file, and it is the next record or an old one. -/
theorem OrderInv.post (hi : SpoolInv s) (ho : OrderInv record s) {p : P} {r : Runner}
    {name : String} {rest : List String} {payload : Bytes} {answer : SinkAnswer} {pc : SenderPc}
    (hpc : s.senders p = some (.posting r name payload rest))
    (hq : SenderQueue record (s.move p s.dir [⟨name, payload, answer⟩] pc) pc) :
    OrderInv record (s.move p s.dir [⟨name, payload, answer⟩] pc) where
  sorted := ho.sorted
  queues := fun q pc' h => by
    by_cases hqp : q = p
    · subst hqp
      rw [move_senders_self] at h
      cases h
      exact hq
    · rw [move_senders_of_ne s hqp] at h
      exact (ho.queues q pc' h).mono (fun _ hm => List.mem_append_left _ hm) (fun _ hf => hf)
        (fun _ hf => Or.inl hf)
  delivered := by
    have hqueue : Queue record s (name :: rest) := ho.queues p _ hpc
    have hpub : (name, payload) ∈ s.published := (hi.fits p _ hpc).1
    rw [received_post]
    by_cases htaken : answer.taken = true
    case neg =>
      rw [if_neg htaken, List.append_nil]
      exact ho.delivered
    rw [if_pos htaken, recordsIn_concat]
    by_cases hrec : record payload = true
    case neg =>
      rw [if_neg hrec, List.append_nil]
      exact ho.delivered
    rw [if_pos hrec]
    have hmem : (name, payload) ∈ recordsIn record s.published := mem_recordsIn.mpr ⟨hpub, hrec⟩
    refine prefix_concat (fun f => lt_irrefl f.1) ho.sorted ho.delivered hmem (fun g hg hlt => ?_)
    exact mem_recordsIn.mpr ⟨(hqueue.first hmem hg hlt).received, (mem_recordsIn.mp hg).2⟩

/-- A payload gets its name. -/
theorem OrderInv.settle (hi : SpoolInv s) (ho : OrderInv record s) {p : P} {e : Enqueue}
    {dir : Dir Bytes} (he : s.enqueues p = some e)
    (hlt : record e.payload = true → ∀ g ∈ recordsIn record s.published, g.1 < e.name) :
    OrderInv record (s.settle p e dir) := by
  have hpub : recordsIn record (s.settle p e dir).published =
      recordsIn record s.published ++ if record e.payload then [(e.name, e.payload)] else [] :=
    recordsIn_concat s.published (e.name, e.payload)
  constructor
  case sorted =>
    rw [hpub]
    split
    · next hrec =>
      refine List.pairwise_append.mpr ⟨ho.sorted, List.pairwise_singleton _ _, fun g hg f hf => ?_⟩
      rw [List.mem_singleton.mp hf]
      exact hlt hrec g hg
    · rw [List.append_nil]
      exact ho.sorted
  case queues =>
    intro q pc h
    refine (ho.queues q pc h).mono (fun _ hm => hm) (fun _ hf => List.mem_append_left _ hf)
      (fun f hf => ?_)
    rcases List.mem_append.mp hf with hold | hnew
    · exact Or.inl hold
    · rw [List.mem_singleton.mp hnew]
      exact Or.inr ⟨(hi.writing p e he).2.1, hlt⟩
  case delivered =>
    rw [hpub]
    exact ho.delivered.trans (List.prefix_append _ _)

/-- **One step of a sender.** -/
theorem OrderInv.sending (hi : SpoolInv s) (ho : OrderInv record s) {p : P} {answer : SinkAnswer}
    {pc pc' : SenderPc} {dir : Dir Bytes} {posts : List Post} (hpc : s.senders p = some pc)
    (h : Sending s.dir (s.stopped p) answer pc dir posts pc') :
    OrderInv record (s.move p dir posts pc') := by
  have hqueue := ho.queues p pc hpc
  cases h with
  | topStopped b hstop => exact ho.move trivial
  | wokenStopped b hstop => exact ho.move trivial
  | wakes b => exact ho.move trivial
  | lists b => exact ho.move trivial
  | idles r hnone => cases r <;> exact ho.move trivial
  | found r name rest hlist => exact ho.move (queue_of_listing hi hlist)
  | vanished r name rest hgone => exact ho.move trivial
  | reads r name rest payload hread => exact ho.move hqueue
  | delivered r name rest payload hok =>
    refine ho.post hi hpc ?_
    exact Queue.mono hqueue (fun _ hm => List.mem_append_left _ hm) (fun _ hf => hf)
      (fun _ hf => Or.inl hf)
  | failed r name rest payload hno => cases r <;> exact ho.post hi hpc trivial
  | unlinks r name rest payload =>
    obtain ⟨hpub, -, hans, -⟩ := hi.fits p _ hpc
    cases r with
    | loop b => exact ho.move trivial
    | flush sent =>
      cases rest with
      | nil => exact ho.move trivial
      | cons next rest =>
        refine ho.move (Queue.tail hqueue (fun g hg hname => ?_))
        have hpayload : g.2 = payload := hi.payload_eq (n := name) (hname ▸ hg) hpub
        obtain ⟨post, hmem, hn, hp, hok⟩ := hans
        exact ⟨post, hmem, hn.trans hname.symm, hp.trans hpayload.symm, hok⟩

/-- **One step of the machine.** -/
theorem OrderInv.step (hi : SpoolInv s) (ho : OrderInv record s) {a : SpoolAction P}
    (hin : InOrder record s a) (h : spoolStep s a = some t) : OrderInv record t := by
  cases spoolTransition_of_step h with
  | created p draw payload hn => exact ho.congr rfl rfl rfl
  | grown p bytes e he => exact ho.congr rfl rfl rfl
  | settled p e dir he hw hd => exact ho.settle hi he (hin e he)
  | started p hn => exact ho.move trivial
  | flushes p hn => exact ho.move trivial
  | stops p => exact ho.congr rfl rfl rfl
  | sends p answer pc dir posts pc' hpc hs => exact ho.sending hi hpc hs

omit [DecidableEq P] in
/-- **Once the spool is empty the sink has all records, in the order they were published.** -/
theorem OrderInv.all_delivered (hi : SpoolInv s) (ho : OrderInv record s)
    (hempty : s.dir.sortedNames isSpooled = []) :
    (recordsIn record s.received).eraseDups = recordsIn record s.published := by
  refine eq_of_prefix (hi.names.of_map.filter _) ho.delivered (fun g hg => ?_)
  obtain ⟨hmem, hrec⟩ := mem_recordsIn.mp hg
  refine mem_recordsIn.mpr ⟨?_, hrec⟩
  rcases hi.kept g hmem with hread | hans
  · have hlisted : g.1 ∈ s.dir.sortedNames isSpooled :=
      Dir.mem_sortedNames.mpr ⟨hi.spooled g hmem, by rw [hread]; rfl⟩
    rw [hempty] at hlisted
    cases hlisted
  · exact Spool.Answered.received hans

end Steps

end ComplianceMcp
