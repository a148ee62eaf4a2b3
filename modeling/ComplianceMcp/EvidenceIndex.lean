import ComplianceMcp.DraftFiling

/-! # Filing an evidence index

An index cites the hash of a manifest, and it is filed if the hash is that of the manifest of
the control and period in its title.  The tool that hands out manifests checks the period;
the check of the index reads control and period back from the title and computes the
manifest without that.  So the two part for control ids a title cannot carry, and for periods
the tool refuses. -/
namespace ComplianceMcp

open PyText

/-! ## Periods -/

/-- Two real dates in order. -/
structure RealPeriod (s e : String) : Prop where
  start : ∃ d, parseIsoDate s = .ok d
  end_ : ∃ d, parseIsoDate e = .ok d
  ordered : s ≤ e

theorem IsoShape.ne_empty {s : String} (h : IsoShape s) : s ≠ "" := by
  obtain ⟨y₁, y₂, y₃, y₄, m₁, m₂, d₁, d₂, hs, -⟩ := h.shape
  rintro rfl
  cases hs

theorem validateDate_ok_iff {label s : String} (hs : s ≠ "") :
    validateDate label s = .ok () ↔ ∃ d, parseIsoDate s = .ok d := by
  unfold validateDate
  rw [if_neg hs]
  cases parseIsoDate s with
  | ok d => exact ⟨fun _ => ⟨d, rfl⟩, fun _ => rfl⟩
  | error e => exact ⟨fun h => (nomatch h), fun ⟨_, h⟩ => (nomatch h)⟩

/-- **What `_validate_range` lets through.** -/
theorem validateRange_ok_iff {s e : String} (hs : s ≠ "") (he : e ≠ "") :
    validateRange (some s) (some e) = .ok () ↔ RealPeriod s e := by
  have hstart := @validateDate_ok_iff "start" s hs
  have hend := @validateDate_ok_iff "end" e he
  unfold validateRange
  simp only [Option.getD_some]
  cases hvs : validateDate "start" s with
  | error x =>
    refine ⟨fun h => (nomatch h), fun h => ?_⟩
    rw [hstart.mpr h.start] at hvs
    cases hvs
  | ok u =>
    cases hve : validateDate "end" e with
    | error x =>
      refine ⟨fun h => (nomatch h), fun h => ?_⟩
      rw [hend.mpr h.end_] at hve
      cases hve
    | ok v =>
      simp only [bind, Except.bind]
      constructor
      · intro h
        split at h
        · cases h
        next hgt =>
        exact ⟨hstart.mp hvs, hend.mp hve, not_lt.mp (fun hlt => hgt ⟨hs, he, hlt⟩)⟩
      · intro h
        rw [if_neg (fun hgt => absurd hgt.2.2 (not_lt.mpr h.ordered))]

/-! ## Manifests -/

section Manifests

variable {rt : Runtime} {data : Systems} {c s e : String} {m : EvidenceManifest}

/-- Gaps can be looked for unless a control with a cadence has a date that cannot be parsed. -/
theorem detectGaps_ok_iff (f : Frequency) (results : List TestResult) :
    (∃ gaps, detectGaps f results s e = .ok gaps) ↔
      (f ≠ .unset → (∃ d, parseIsoDate s = .ok d) ∧ ∃ d, parseIsoDate e = .ok d) := by
  unfold detectGaps countGap monthsInclusive
  by_cases hf : f = .unset
  · rw [if_pos hf]
    exact ⟨fun _ h => absurd hf h, fun _ => ⟨_, rfl⟩⟩
  rw [if_neg hf]
  cases hs : parseIsoDate s with
  | error x =>
    constructor
    · rintro ⟨gaps, h⟩
      cases h
    · intro h
      obtain ⟨d, hd⟩ := (h hf).1
      cases hd
  | ok ds =>
    cases he : parseIsoDate e with
    | error x =>
      constructor
      · rintro ⟨gaps, h⟩
        cases h
      · intro h
        obtain ⟨d, hd⟩ := (h hf).2
        cases hd
    | ok de => cases f <;> exact ⟨fun _ _ => ⟨⟨ds, rfl⟩, de, rfl⟩, fun _ => ⟨_, rfl⟩⟩

theorem detectGaps_real (h : RealPeriod s e) (f : Frequency) (results : List TestResult) :
    ∃ gaps, detectGaps f results s e = .ok gaps :=
  (detectGaps_ok_iff f results).mpr fun _ => ⟨h.start, h.end_⟩

/-- A known control has a manifest for every real period. -/
theorem computeManifest_real (hc : data.control c ≠ none) (h : RealPeriod s e) :
    ∃ m, computeManifest rt data c s e = .ok (some m) := by
  obtain ⟨ctl, hctl⟩ := Option.ne_none_iff_exists'.mp hc
  obtain ⟨gaps, hgaps⟩ := detectGaps_real h ctl.testFrequency (data.results c s e)
  unfold computeManifest
  rw [hctl]
  simp only [hgaps, bind, Except.bind, pure, Except.pure]
  exact ⟨_, rfl⟩

theorem computeManifest_unknown (hc : data.control c = none) :
    computeManifest rt data c s e = .ok none := by
  unfold computeManifest
  rw [hc]

theorem computeManifest_known (hc : data.control c ≠ none) :
    computeManifest rt data c s e ≠ .ok none := by
  obtain ⟨ctl, hctl⟩ := Option.ne_none_iff_exists'.mp hc
  unfold computeManifest
  rw [hctl]
  simp only [bind, Except.bind]
  intro h
  split at h
  · cases h
  · cases h

/-- The hash of a manifest has 64 hex digits. -/
theorem computeManifest_hash (h : computeManifest rt data c s e = .ok (some m)) :
    IsHash m.manifestSha256.toList := by
  unfold computeManifest at h
  split at h
  · cases h
  simp only [bind, Except.bind] at h
  split at h
  · cases h
  cases h
  exact ⟨(manifestDigest rt _).length_eq, List.all_eq_true.mp (manifestDigest rt _).all_hex⟩

/-- A failure to compute a manifest is a date that cannot be parsed. -/
theorem computeManifest_error {x : PyError} (h : computeManifest rt data c s e = .error x) :
    ∃ message, x = .valueError message := by
  have hparse : ∀ {t y}, parseIsoDate t = .error y → ∃ message, y = .valueError message := by
    intro t y ht
    unfold parseIsoDate at ht
    split at ht
    · split at ht
      · cases ht
      · exact ⟨_, (Except.error.inj ht).symm⟩
    · exact ⟨_, (Except.error.inj ht).symm⟩
  unfold computeManifest at h
  split at h
  · cases h
  simp only [bind, Except.bind] at h
  split at h
  next y hy =>
    cases h
    unfold detectGaps countGap monthsInclusive at hy
    simp only [bind, Except.bind] at hy
    split at hy
    next z hz =>
      cases hy
      split at hz
      · cases hz
      split at hz
      next w hw =>
        cases hz
        split at hw
        next v hv =>
          cases hw
          exact hparse hv
        split at hw
        next v hv =>
          cases hw
          exact hparse hv
        cases hw
      · split at hz <;> cases hz
    · cases hy
  · cases h

/-- **What the tool hands out**: the manifest of a known control over a real period. -/
theorem evidenceBundle_ok_iff (hs : s ≠ "") (he : e ≠ "") :
    (∃ summary, evidenceBundle rt data c s e = .ok (summary, m)) ↔
      RealPeriod s e ∧ computeManifest rt data c s e = .ok (some m) := by
  have hr := validateRange_ok_iff hs he
  unfold evidenceBundle
  cases hv : validateRange (some s) (some e) with
  | error x =>
    constructor
    · rintro ⟨_, h⟩
      cases h
    · rintro ⟨h, -⟩
      rw [hr.mpr h] at hv
      cases hv
  | ok u =>
    cases hm : computeManifest rt data c s e with
    | error x =>
      constructor
      · rintro ⟨_, h⟩
        cases h
      · rintro ⟨-, h⟩
        cases h
    | ok o =>
      cases o with
      | none =>
        constructor
        · rintro ⟨_, h⟩
          cases h
        · rintro ⟨-, h⟩
          cases h
      | some m' =>
        constructor
        · rintro ⟨_, h⟩
          cases h
          exact ⟨hr.mp hv, rfl⟩
        · rintro ⟨-, h⟩
          cases h
          exact ⟨_, rfl⟩

end Manifests

/-! ## The check of an index -/

section Check

variable {rt : Runtime} {alnum : Char → Bool} {data : Systems} {title : String} {body : Text}

/-- The arguments of an index draft. -/
def indexArgs (title body : String) (relatedIds : List String) : DraftArgs :=
  ⟨.evidencePackIndex, title, body, relatedIds⟩

/-- What the check of an index does with title and body. -/
theorem checkArgs_index {body : String} (ht : blank title.toList = false)
    (hb : blank body.toList = false) (ids : List String) :
    checkArgs rt alnum data (indexArgs title body ids) =
      checkEvidencePackIndex alnum body.toList title (recomputeHash rt data) := by
  unfold checkArgs indexArgs
  simp only [ht, hb, Bool.or_self, Bool.false_eq_true, if_false]
  rfl

theorem check_no_period (h : periodFromTitle title = none) : ∃ message,
    checkEvidencePackIndex alnum body title (recomputeHash rt data) =
      .error (.draftRejected message) := by
  unfold checkEvidencePackIndex
  rw [h]
  exact ⟨_, rfl⟩

variable {c s e : String} (hp : periodFromTitle title = some (c, s, e))
include hp

theorem check_no_hash (h : findHashes alnum false 0 body = []) : ∃ message,
    checkEvidencePackIndex alnum body title (recomputeHash rt data) =
      .error (.draftRejected message) := by
  unfold checkEvidencePackIndex
  simp only [hp, h, if_pos]
  exact ⟨_, rfl⟩

theorem check_unknown (h : data.control c = none) : ∃ message,
    checkEvidencePackIndex alnum body title (recomputeHash rt data) =
      .error (.draftRejected message) := by
  by_cases hn : findHashes alnum false 0 body = []
  · exact check_no_hash hp hn
  · unfold checkEvidencePackIndex recomputeHash
    simp only [hp, hn, if_neg, not_false_eq_true, computeManifest_unknown h]
    exact ⟨_, rfl⟩

theorem check_raises {x : PyError} (hn : findHashes alnum false 0 body ≠ [])
    (h : computeManifest rt data c s e = .error x) :
    checkEvidencePackIndex alnum body title (recomputeHash rt data) = .error x := by
  unfold checkEvidencePackIndex recomputeHash
  simp only [hp, hn, if_neg, not_false_eq_true, h]
  rfl

/-- With a manifest for the period of the title the check passes exactly on its hash. -/
theorem check_manifest {m : EvidenceManifest} (h : computeManifest rt data c s e = .ok (some m)) :
    (checkEvidencePackIndex alnum body title (recomputeHash rt data) = .ok () ↔
      Standalone alnum m.manifestSha256.toList body) ∧
    (∀ x, checkEvidencePackIndex alnum body title (recomputeHash rt data) = .error x →
      ∃ message, x = .draftRejected message) := by
  rw [← mem_findHashes_iff]
  by_cases hn : findHashes alnum false 0 body = []
  · obtain ⟨message, hr⟩ : ∃ message,
        checkEvidencePackIndex alnum body title (recomputeHash rt data) =
          .error (.draftRejected message) := check_no_hash hp hn
    rw [hr, hn]
    exact ⟨⟨fun h => (nomatch h), fun h => (nomatch h)⟩, fun x hx =>
      ⟨message, (Except.error.inj hx).symm⟩⟩
  · unfold checkEvidencePackIndex recomputeHash
    simp only [hp, hn, if_neg, not_false_eq_true, h, bind, Except.bind, pure, Except.pure,
      Option.map_some]
    split
    · next hm => exact ⟨⟨fun _ => hm, fun _ => rfl⟩, fun x hx => (nomatch hx)⟩
    · next hm =>
      exact ⟨⟨fun h => (nomatch h), fun h => absurd h hm⟩, fun x hx =>
        ⟨_, (Except.error.inj hx).symm⟩⟩

omit hp in
/-- **What a passed check means.** -/
theorem check_ok (hok : checkEvidencePackIndex alnum body title (recomputeHash rt data) = .ok ()) :
    ∃ c s e m, periodFromTitle title = some (c, s, e) ∧
    computeManifest rt data c s e = .ok (some m) ∧
      Standalone alnum m.manifestSha256.toList body := by
  cases hp : periodFromTitle title with
  | none =>
    obtain ⟨message, hr⟩ := @check_no_period rt alnum data _ body hp
    rw [hr] at hok
    cases hok
  | some p =>
    obtain ⟨c, s, e⟩ := p
    by_cases hk : data.control c = none
    · obtain ⟨message, hr⟩ := @check_unknown rt alnum data _ body _ _ _ hp hk
      rw [hr] at hok
      cases hok
    by_cases hn : findHashes alnum false 0 body = []
    · obtain ⟨message, hr⟩ := @check_no_hash rt alnum data _ body _ _ _ hp hn
      rw [hr] at hok
      cases hok
    cases hm : computeManifest rt data c s e with
    | error x =>
      rw [check_raises hp hn hm] at hok
      cases hok
    | ok o =>
      cases o with
      | none => exact absurd hm (computeManifest_known hk)
      | some m => exact ⟨c, s, e, m, rfl, hm, (check_manifest hp hm).1.mp hok⟩

end Check

/-! ## Index and bundle -/

/-- The hash of a manifest, as a body that cites it and says nothing else. -/
theorem IsHash.standalone {alnum : Char → Bool} {h : Text} (hh : IsHash h) : Standalone alnum h h :=
  ⟨hh, [], [], by rw [List.nil_append, List.append_nil], rfl, rfl⟩

theorem isSpace_of_isHexDigit {c : Char} (h : Sha256.isHexDigit c = true) : isSpace c = false := by
  have hn : (48 ≤ c.toNat ∧ c.toNat ≤ 57) ∨ (97 ≤ c.toNat ∧ c.toNat ≤ 102) := by
    unfold Sha256.isHexDigit Char.isDigit at h
    simp only [Bool.or_eq_true, Bool.and_eq_true, decide_eq_true_eq] at h
    rcases h with ⟨h₁, h₂⟩ | ⟨h₁, h₂⟩
    · exact Or.inl ⟨h₁, h₂⟩
    · exact Or.inr ⟨h₁, h₂⟩
  unfold isSpace
  simp only [Bool.or_eq_false_iff, Bool.and_eq_false_iff, decide_eq_false_iff_not,
    beq_eq_false_iff_ne]
  omega

/-- A text made of one hash cites that hash and no other. -/
theorem standalone_self {alnum : Char → Bool} {h h' : Text} (hh : IsHash h)
    (hs : Standalone alnum h' h) :
    h' = h := by
  obtain ⟨hh', before, after, heq, -⟩ := hs
  have hl := congrArg List.length heq
  rw [List.length_append, List.length_append, hh.length, hh'.length] at hl
  have hb : before = [] := List.eq_nil_of_length_eq_zero (by omega)
  have ha : after = [] := List.eq_nil_of_length_eq_zero (by omega)
  rw [heq, hb, ha, List.nil_append, List.append_nil]

section Agreement

variable (rt : Runtime) (alnum : Char → Bool) (data : Systems) (c s e : String)

/-- The draft of an index with this body is filed exactly when the bundle has a manifest
whose hash it cites, and otherwise refused for its content. -/
structure IndexAgrees (ids : List String) (user draftId created body : String) : Prop where
  filed : (∃ d, draftCreate rt alnum data (indexArgs (indexTitle c s e) body ids) user draftId
    created = .ok d) ↔
    ∃ summary m, evidenceBundle rt data c s e = .ok (summary, m) ∧
      Standalone alnum m.manifestSha256.toList body.toList
  refused : ∀ x, draftCreate rt alnum data (indexArgs (indexTitle c s e) body ids) user draftId
    created = .error x →
    ∃ message, x = .draftRejected message

/-- The body cites, as a token of its own, the hash of the manifest of this control and period. -/
def CitesBundle (body : Text) : Prop :=
  ∃ m, computeManifest rt data c s e = .ok (some m) ∧ Standalone alnum m.manifestSha256.toList body

/-- Where the control has a cadence, both dates can be parsed. -/
def Dated : Prop :=
  ∀ control, data.control c = some control → control.testFrequency ≠ .unset →
    (∃ d, parseIsoDate s = .ok d) ∧ ∃ d, parseIsoDate e = .ok d

/-- What the title is read as, the period and the tokens of the body fit one another. -/
inductive TitleFits (body : Text) : Prop
  /-- The body holds no hash at all. -/
  | noHash (hashless : ∀ h, ¬ Standalone alnum h body)
  /-- A real period, and an id that the title can carry. -/
  | plain (period : RealPeriod s e) (id : PlainId c)
  /-- The title names no control of the library, and the body does not cite the manifest of
  the request. -/
  | unread (unknown : ∀ c' s' e', periodFromTitle (indexTitle c s e) = some (c', s', e') →
      data.control c' = none)
      (uncited : RealPeriod s e → ¬ CitesBundle rt alnum data c s e body)
  /-- The title is read as another control of the library or another period, and the body cites
  both manifests or neither. -/
  | elsewhere {c' s' e' : String} (period : RealPeriod s e)
      (reads : periodFromTitle (indexTitle c s e) = some (c', s', e'))
      (other : (c', s', e') ≠ (c, s, e))
      (known : data.control c' ≠ none) (dated : Dated data c' s' e')
      (both : CitesBundle rt alnum data c' s' e' body ↔ CitesBundle rt alnum data c s e body)
  /-- The tool refuses the period, and the body does not cite the manifest that the check
  computes for it. -/
  | unreal {c' s' e' : String} (period : ¬ RealPeriod s e)
      (reads : periodFromTitle (indexTitle c s e) = some (c', s', e'))
      (known : data.control c' ≠ none) (dated : Dated data c' s' e')
      (uncited : ¬ CitesBundle rt alnum data c' s' e' body)

variable {rt alnum data c s e}

theorem indexTitle_not_blank : blank (indexTitle c s e).toList = false := by
  refine blank_false (c := 'E') ?_ rfl
  unfold indexTitle
  simp [String.toList_append]

/-- Filing goes by the check of the index. -/
theorem indexAgrees_iff {ids : List String} {user draftId created body : String}
    (hb : blank body.toList = false) :
    IndexAgrees rt alnum data c s e ids user draftId created body ↔
      (checkEvidencePackIndex alnum body.toList (indexTitle c s e)
        (recomputeHash rt data) = .ok () ↔
        ∃ summary m, evidenceBundle rt data c s e = .ok (summary, m) ∧
          Standalone alnum m.manifestSha256.toList body.toList) ∧
      ∀ x, checkEvidencePackIndex alnum body.toList (indexTitle c s e)
        (recomputeHash rt data) = .error x →
        ∃ message, x = .draftRejected message := by
  have hc : checkArgs rt alnum data (indexArgs (indexTitle c s e) body ids) =
      checkEvidencePackIndex alnum body.toList (indexTitle c s e) (recomputeHash rt data) :=
    checkArgs_index indexTitle_not_blank hb ids
  constructor
  · rintro ⟨hf, hr⟩
    refine ⟨?_, fun x hx => hr x ?_⟩
    · rw [← hf, draftCreate_ok_iff, hc]
    · rw [draftCreate_error_iff, hc, hx]
  · rintro ⟨hf, hr⟩
    refine ⟨?_, fun x hx => hr x ?_⟩
    · rw [← hf, draftCreate_ok_iff, hc]
    · rw [draftCreate_error_iff, hc] at hx
      exact hx

/-- The bundle has a manifest that the body cites: a real period and the hash of its manifest. -/
theorem bundle_cites_iff {body : Text} (hs : s ≠ "") (he : e ≠ "") :
    (∃ summary m, evidenceBundle rt data c s e = .ok (summary, m) ∧
      Standalone alnum m.manifestSha256.toList body) ↔
      RealPeriod s e ∧ CitesBundle rt alnum data c s e body := by
  constructor
  · rintro ⟨summary, m, hbundle, hst⟩
    obtain ⟨hr, hm⟩ := (evidenceBundle_ok_iff hs he).mp ⟨summary, hbundle⟩
    exact ⟨hr, m, hm, hst⟩
  · rintro ⟨hr, m, hm, hst⟩
    obtain ⟨summary, hbundle⟩ := (evidenceBundle_ok_iff hs he).mpr ⟨hr, hm⟩
    exact ⟨summary, m, hbundle, hst⟩

/-- A known control has a manifest exactly where the dates that count can be parsed. -/
theorem computeManifest_ok_iff (hc : data.control c ≠ none) :
    (∃ m, computeManifest rt data c s e = .ok (some m)) ↔ Dated data c s e := by
  obtain ⟨control, hctl⟩ := Option.ne_none_iff_exists'.mp hc
  have hgaps : (∃ m, computeManifest rt data c s e = .ok (some m)) ↔
      ∃ gaps, detectGaps control.testFrequency (data.results c s e) s e = .ok gaps := by
    unfold computeManifest
    rw [hctl]
    simp only [bind, Except.bind, pure, Except.pure]
    cases detectGaps control.testFrequency (data.results c s e) s e with
    | error x => exact ⟨fun ⟨_, h⟩ => (nomatch h), fun ⟨_, h⟩ => (nomatch h)⟩
    | ok gaps => exact ⟨fun _ => ⟨gaps, rfl⟩, fun _ => ⟨_, rfl⟩⟩
  have hdated : Dated data c s e ↔ (control.testFrequency ≠ .unset →
      (∃ d, parseIsoDate s = .ok d) ∧ ∃ d, parseIsoDate e = .ok d) := by
    constructor
    · intro h
      exact h control hctl
    · intro h control' hctl'
      rw [hctl] at hctl'
      cases hctl'
      exact h
  rw [hgaps, hdated]
  exact detectGaps_ok_iff _ _

/-- With a manifest for what the title is read as, the check passes exactly on a body that
cites it, and refuses every other body for its content. -/
theorem check_reads {body : Text} {c' s' e' : String}
    (hp : periodFromTitle (indexTitle c s e) = some (c', s', e')) (hk : data.control c' ≠ none)
    (hd : Dated data c' s' e') :
    (checkEvidencePackIndex alnum body (indexTitle c s e) (recomputeHash rt data) = .ok () ↔
      CitesBundle rt alnum data c' s' e' body) ∧
    ∀ x, checkEvidencePackIndex alnum body (indexTitle c s e) (recomputeHash rt data) = .error x →
      ∃ message, x = .draftRejected message := by
  obtain ⟨m, hm⟩ := (@computeManifest_ok_iff rt _ _ _ _ hk).mpr hd
  obtain ⟨hok, href⟩ := @check_manifest rt alnum data _ body _ _ _ hp _ hm
  refine ⟨hok.trans ⟨fun hst => ⟨m, hm, hst⟩, ?_⟩, href⟩
  rintro ⟨m', hm', hst⟩
  rw [hm] at hm'
  cases hm'
  exact hst

/-- A title that names no control of the library is refused for its content. -/
theorem check_unread {body : Text} (h : ∀ c' s' e',
    periodFromTitle (indexTitle c s e) = some (c', s', e') → data.control c' = none) :
    ∃ message, checkEvidencePackIndex alnum body (indexTitle c s e) (recomputeHash rt data) =
      .error (.draftRejected message) := by
  cases hp : periodFromTitle (indexTitle c s e) with
  | none => exact check_no_period hp
  | some p => exact check_unknown hp (h _ _ _ hp)

/-- A body without a hash is refused for its content, whatever the title. -/
theorem check_hashless {body : Text} (h : ∀ hash, ¬ Standalone alnum hash body) :
    ∃ message, checkEvidencePackIndex alnum body (indexTitle c s e) (recomputeHash rt data) =
      .error (.draftRejected message) := by
  cases hp : periodFromTitle (indexTitle c s e) with
  | none => exact check_no_period hp
  | some p =>
    refine check_no_hash hp (List.eq_nil_iff_forall_not_mem.mpr fun hash hmem => ?_)
    exact h hash (mem_findHashes_iff.mp hmem)

/-- A body refused for its content, which no manifest of the tool asks for, agrees. -/
theorem indexAgrees_of_rejected {ids : List String} {user draftId created body : String}
    (hs : s ≠ "") (he : e ≠ "") (hb : blank body.toList = false)
    (hrej : ∃ message, checkEvidencePackIndex alnum body.toList (indexTitle c s e)
      (recomputeHash rt data) = .error (.draftRejected message))
    (hno : RealPeriod s e → ¬ CitesBundle rt alnum data c s e body.toList) :
    IndexAgrees rt alnum data c s e ids user draftId created body := by
  obtain ⟨message, hrej⟩ := hrej
  refine (indexAgrees_iff hb).mpr ⟨?_, fun x hx => ?_⟩
  · rw [hrej, bundle_cites_iff hs he]
    exact ⟨fun h => (nomatch h), fun h => absurd h.2 (hno h.1)⟩
  · rw [hrej] at hx
    exact ⟨message, (Except.error.inj hx).symm⟩

/-- **Index and bundle agree on a body** exactly when title, period and body fit: for a real
period and an id of capitals, digits and hyphens always, and else where what the title is
read as leads to the same answer. -/
theorem index_agrees_iff (rt : Runtime) (alnum : Char → Bool) (data : Systems) (c s e : String)
    (hc : data.control c ≠ none) (hs : IsoShape s) (he : IsoShape e) (ids : List String)
    (user draftId created body : String) (hb : blank body.toList = false) :
    IndexAgrees rt alnum data c s e ids user draftId created body ↔
      TitleFits rt alnum data c s e body.toList := by
  have hs' := hs.ne_empty
  have he' := he.ne_empty
  have hbundle := @bundle_cites_iff rt alnum data c s e body.toList hs' he'
  constructor
  · intro h
    obtain ⟨hf, href⟩ := (indexAgrees_iff hb).mp h
    rw [hbundle] at hf
    by_cases hnone : ∀ hash, ¬ Standalone alnum hash body.toList
    · exact .noHash hnone
    by_cases hunknown : ∀ c' s' e', periodFromTitle (indexTitle c s e) = some (c', s', e') →
        data.control c' = none
    · obtain ⟨message, hrej⟩ := @check_unread rt alnum data c s e body.toList hunknown
      rw [hrej] at hf
      exact .unread hunknown fun hr hcites => nomatch hf.mpr ⟨hr, hcites⟩
    push Not at hunknown
    obtain ⟨c', s', e', hp, hk⟩ := hunknown
    -- a body with a hash would make the check raise on a date that cannot be parsed
    have hd : Dated data c' s' e' := by
      cases hm : computeManifest rt data c' s' e' with
      | error x =>
        push Not at hnone
        obtain ⟨hash, hst⟩ := hnone
        obtain ⟨message, rfl⟩ := computeManifest_error hm
        have hn := List.ne_nil_of_mem (mem_findHashes_iff.mpr hst)
        obtain ⟨message', hx⟩ := href _ (check_raises hp hn hm)
        cases hx
      | ok o =>
        cases o with
        | none => exact absurd hm (computeManifest_known hk)
        | some m => exact (computeManifest_ok_iff hk).mp ⟨m, hm⟩
    have hok := (@check_reads rt alnum data c s e body.toList c' s' e' hp hk hd).1
    by_cases hr : RealPeriod s e
    · by_cases hsame : (c', s', e') = (c, s, e)
      · cases hsame
        exact .plain hr (plainId_of_periodFromTitle hp)
      · refine .elsewhere hr hp hsame hk hd (hok.symm.trans (hf.trans ?_))
        exact ⟨And.right, fun hcites => ⟨hr, hcites⟩⟩
    · exact .unreal hr hp hk hd fun hcites => hr (hf.mp (hok.mpr hcites)).1
  · intro h
    cases h with
    | noHash hnone =>
      refine indexAgrees_of_rejected hs' he' hb (check_hashless hnone) fun _ hcites => ?_
      obtain ⟨m, -, hst⟩ := hcites
      exact hnone _ hst
    | plain hr hid =>
      have hd := (@computeManifest_ok_iff rt _ _ _ _ hc).mp (computeManifest_real hc hr)
      obtain ⟨hok, href⟩ := check_reads (periodFromTitle_plain hid hs he) hc hd
      refine (indexAgrees_iff hb).mpr ⟨?_, href⟩
      rw [hbundle, hok]
      exact ⟨fun hcites => ⟨hr, hcites⟩, And.right⟩
    | unread hunknown huncited =>
      exact indexAgrees_of_rejected hs' he' hb (check_unread hunknown) huncited
    | elsewhere hr hp _ hk hd hboth =>
      obtain ⟨hok, href⟩ := check_reads hp hk hd
      refine (indexAgrees_iff hb).mpr ⟨?_, href⟩
      rw [hbundle, hok, hboth]
      exact ⟨fun hcites => ⟨hr, hcites⟩, And.right⟩
    | unreal hr hp hk hd huncited =>
      obtain ⟨hok, href⟩ := check_reads hp hk hd
      refine (indexAgrees_iff hb).mpr ⟨?_, href⟩
      rw [hbundle, hok]
      exact ⟨fun hcites => absurd hcites huncited, fun h => absurd h.1 hr⟩

/-- A library of one control that is tested monthly. -/
def sampleSystems : Systems where
  policies := ⟨[], List.nodup_nil⟩
  controls := [⟨"CTL-1", "Gift pre-clearance", "", "", .monthly, [], [], []⟩]
  tests := []
  tickets := []
  releases := []
  attestations := []

theorem sample_start : IsoShape "2026-01-01" :=
  ⟨⟨'2', '0', '2', '6', '0', '1', '0', '1', rfl, List.all_eq_true.mp (by decide)⟩⟩

theorem sample_end : IsoShape "2026-03-31" :=
  ⟨⟨'2', '0', '2', '6', '0', '3', '3', '1', rfl, List.all_eq_true.mp (by decide)⟩⟩

/-- A body that cites some hash. -/
def sampleIndexBody : String := String.ofList (List.replicate 64 '0')

theorem index_agrees_iff_sample :
    IndexAgrees Runtime.python (fun _ => false) sampleSystems "CTL-1" "2026-01-01" "2026-03-31" []
      "priya@example-am.com" "D-1" "" sampleIndexBody ↔
    TitleFits Runtime.python (fun _ => false) sampleSystems "CTL-1" "2026-01-01" "2026-03-31"
      sampleIndexBody.toList :=
  index_agrees_iff Runtime.python (fun _ => false) sampleSystems "CTL-1" "2026-01-01" "2026-03-31"
    (by decide) sample_start sample_end [] "priya@example-am.com" "D-1" ""
      sampleIndexBody (by decide)

/-- **A title with an impossible date makes the filing fail with an internal error.** -/
theorem impossible_date_raises : ¬ IndexAgrees Runtime.python (fun _ => false) sampleSystems
    "CTL-1" "2026-02-30" "2026-03-31" [] "priya@example-am.com" "D-1" "" sampleIndexBody := by
  intro h
  have hraise : draftCreate Runtime.python (fun _ => false) sampleSystems
      (indexArgs (indexTitle "CTL-1" "2026-02-30" "2026-03-31") sampleIndexBody [])
        "priya@example-am.com"
      "D-1" "" = .error (.valueError "Invalid isoformat string") := by rfl
  obtain ⟨message, hx⟩ := h.refused _ hraise
  cases hx

end Agreement

end ComplianceMcp
