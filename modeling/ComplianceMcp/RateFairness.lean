import ComplianceMcp.RateLimit

/-! # Whom the limiter refuses

`keeps_budget` bounds what a user gets.  The other side is what a user can rely on: a refusal is
always of the user's own making.  Others may call as often as they like, under any identity;
whether a user is ever refused depends on the user's own calls alone, and one wait of a single
refill ends any refusal. -/
namespace ComplianceMcp

open TokenBucket

variable (rt : Runtime) (users : List User)

/-- No call that reaches the limiter as the user is refused. -/
def NeverLimited (l : TokenBucketLimiter) (u : User) (calls : List ToolCall) : Prop :=
  ∀ before c after_, calls = before ++ c :: after_ → Reaches rt users u c →
    (admitUser rt users (limiterAfter rt users l before) c).1 = .ok u

variable {rt users} {u : User}

theorem neverLimited_cons (l : TokenBucketLimiter) (c : ToolCall) (calls : List ToolCall) :
    NeverLimited rt users l u (c :: calls) ↔
    (Reaches rt users u c → (admitUser rt users l c).1 = .ok u) ∧
      NeverLimited rt users (admitUser rt users l c).2 u calls := by
  constructor
  · intro h
    refine ⟨h [] c calls rfl, fun before d after_ hcalls => ?_⟩
    exact h (c :: before) d after_ (congrArg (c :: ·) hcalls)
  · rintro ⟨hfirst, hrest⟩ before d after_ hcalls
    cases before with
    | nil =>
      cases hcalls
      exact hfirst
    | cons b before =>
      obtain ⟨rfl, htail⟩ := List.cons.inj hcalls
      exact hrest before d after_ htail

/-- Nobody else's calls matter: the user's bucket has to admit the user's readings. -/
theorem neverLimited_iff_admitted (hd : DistinctIds rt users) (hu : u ∈ users)
    (calls : List ToolCall) :
    ∀ l : TokenBucketLimiter, NeverLimited rt users l u calls ↔
      admitted l.capacity l.rate (l.buckets u.upn) (readings rt users u calls) =
        readings rt users u calls := by
  induction calls with
  | nil =>
    intro l
    refine iff_of_true (fun before c after_ h => ?_) rfl
    exact absurd h.symm (by simp)
  | cons c calls ih =>
    intro l
    have hih := ih (admitUser rt users l c).2
    rw [(admit_rates l c).1, (admit_rates l c).2] at hih
    rw [neverLimited_cons, hih]
    rcases admit_cases hd hu l c with ⟨hr, hb, ho⟩ | ⟨hr, hb, -⟩
    · rw [hb, readings_cons calls hr, admitted, ho]
      by_cases hc : (TokenBucket.check l.capacity l.rate c.now (l.buckets u.upn)).1 = true
      · simp only [hc, if_true, List.cons.injEq, true_and]
        exact ⟨And.right, fun h => ⟨fun _ => trivial, h⟩⟩
      · simp only [hc, if_false, Bool.false_eq_true]
        refine iff_of_false (fun h => ?_) (fun h => ?_)
        · cases h.1 hr
        · -- one reading fewer cannot be all of them
          have hlen := (@admitted_sublist _ _ _ l.capacity l.rate
            (some (TokenBucket.check l.capacity l.rate c.now (l.buckets u.upn)).2)
            (readings rt users u calls)).length_le
          rw [h, List.length_cons] at hlen
          omega
    · rw [hb, readings_cons_of_not calls hr]
      exact ⟨And.right, fun h => ⟨fun hr' => absurd hr' hr, h⟩⟩

/-- **A user is never refused exactly if the user's own calls keep to the budget**: in no window of
`T` seconds are there more than `perMinute` of them and the refill of that time.  What others do,
and calls that are denied before they reach the limiter, does not matter. -/
theorem never_limited_iff (rt : Runtime) (users : List User) (hd : DistinctIds rt users)
    (perMinute : Int) (hp : 1 ≤ perMinute) (u : User) (hu : u ∈ users) (calls : List ToolCall)
    (hs : (readings rt users u calls).Pairwise (· ≤ ·)) :
    NeverLimited rt users (.new perMinute none) u calls ↔ ∀ start T : ℚ, 0 ≤ T →
      (inWindow start (start + T) (readings rt users u calls) : ℚ) ≤ perMinute +
        perMinute / 60 * T := by
  have hcap : (1 : ℚ) ≤ perMinute := by exact_mod_cast hp
  have hrate : (0 : ℚ) ≤ (perMinute : ℚ) / 60 := by linarith
  have hall := admitted_all_iff hcap hrate (readings rt users u calls) hs
  refine (neverLimited_iff_admitted hd hu calls (.new perMinute none)).trans
    (hall.trans ⟨fun h start T hT => ?_, fun h start end_ hw => ?_⟩)
  · have hwindow := h start (start + T) (by linarith)
    rwa [add_sub_cancel_left] at hwindow
  · have hwindow := h start (end_ - start) (by linarith)
    rwa [add_sub_cancel] at hwindow

/-- **One refill ends a refusal**: a user whose last call is `60 / perMinute` seconds ago is let
through, whatever was refused before, in whatever order the clock readings came to the limiter, and
whatever others have done. -/
theorem waiting_suffices (rt : Runtime) (users : List User) (hd : DistinctIds rt users)
    (perMinute : Int) (hp : 1 ≤ perMinute) (u : User) (hu : u ∈ users) (before : List ToolCall)
    (c : ToolCall) (hr : Reaches rt users u c)
    (hw : ∀ n ∈ readings rt users u before, n + 60 / perMinute ≤ c.now) :
    (admitUser rt users (limiterAfter rt users (.new perMinute none) before) c).1 = .ok u := by
  have hcap : (1 : ℚ) ≤ perMinute := by exact_mod_cast hp
  have hrate : (0 : ℚ) ≤ (perMinute : ℚ) / 60 := by linarith
  have hne : (perMinute : ℚ) ≠ 0 := by linarith
  have hone : (1 : ℚ) ≤ 60 / perMinute * (perMinute / 60) := le_of_eq (by field_simp)
  have hcheck := check_of_wait hcap hrate (readings rt users u before) hone hw
  rcases admit_cases hd hu (limiterAfter rt users (.new perMinute none) before) c
    with ⟨-, -, hout⟩ | ⟨hr', -⟩
  · rw [(limiterAfter_rates before _).1, (limiterAfter_rates before _).2,
      buckets_limiterAfter hd hu] at hout
    exact hout.trans (if_pos hcheck)
  · exact absurd hr hr'

/-- Another user calls all the time. -/
def floodingUser : User := ⟨"U-9", "bot@example-am.com", "Bot", [], true, .service⟩

def sampleFlood : List ToolCall :=
  [⟨"u-9", none, 0⟩, ⟨"u-1", none, 0⟩, ⟨"u-9", none, 0⟩, ⟨"U-1", none, 60⟩]

theorem never_limited_iff_sample :
    NeverLimited Runtime.python [sampleCaller, floodingUser]
      (.new 1 none) sampleCaller sampleFlood ↔
      ∀ start T : ℚ, 0 ≤ T → (inWindow start (start + T)
        (readings Runtime.python [sampleCaller, floodingUser] sampleCaller sampleFlood) :
        ℚ) ≤ (1 : Int) + (1 : Int) / 60 * T :=
  never_limited_iff Runtime.python [sampleCaller, floodingUser] (by decide) 1
    (by decide) sampleCaller (by decide)
    sampleFlood (by decide +kernel)

/-- The user's second call read the clock first. -/
def sampleOvertaken : List ToolCall := [⟨"u-1", none, 30⟩, ⟨"u-9", none, 0⟩, ⟨"U-1", none, 0⟩]

theorem waiting_suffices_sample :
    (admitUser Runtime.python [sampleCaller, floodingUser]
      (limiterAfter Runtime.python [sampleCaller, floodingUser] (.new 1 none) sampleOvertaken)
      ⟨"U-1", none, 90⟩).1 = .ok sampleCaller :=
  waiting_suffices Runtime.python [sampleCaller, floodingUser] (by decide) 1
    (by decide) sampleCaller (by decide)
    sampleOvertaken ⟨"U-1", none, 90⟩ (by decide +kernel) (by decide +kernel)

end ComplianceMcp
