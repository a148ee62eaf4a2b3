import ComplianceMcp.Directory
import ComplianceMcp.TokenBucket
import Mathlib.Data.Rat.Floor

/-! # Rate limits

Every tool call resolves its caller and then takes a token from the bucket of the user's UPN.
Token counts are exact rationals here.  A check reads the clock before it takes the lock, so
the checks of a run, listed as they take the lock, may carry readings in any order.

A user may be named by object id or UPN, in any case and with blanks around it.  The bucket
is keyed by the UPN of the record that was found, so all spellings share it, and when the
ids and UPNs of the directory are distinct nobody else does. -/
namespace ComplianceMcp

open PyText TokenBucket

/-! ## The limiter -/

structure TokenBucketLimiter where
  rate : ℚ
  capacity : ℚ
  buckets : String → Option (Bucket ℚ)

namespace TokenBucketLimiter

/-- `TokenBucketLimiter(per_minute=…, burst=…)`. -/
def new (perMinute : Int) (burst : Option Int) : TokenBucketLimiter where
  rate := perMinute / 60
  capacity := match burst with
    | some b => if b = 0 then perMinute else b
    | none => perMinute
  buckets := fun _ => none

def limitMessage (l : TokenBucketLimiter) (key : String) : String :=
  "rate limit exceeded for '" ++ key ++ "': more than " ++ toString l.capacity.floor ++
    " calls per minute"

/-- `TokenBucketLimiter.check`, for a check that has read `now`. -/
def check (l : TokenBucketLimiter) (key : String) (now : ℚ) :
    Except PyError Unit × TokenBucketLimiter :=
  let r := TokenBucket.check l.capacity l.rate now (l.buckets key)
  (if r.1 then .ok () else .error (.rateLimited (l.limitMessage key)),
    { l with buckets := Function.update l.buckets key (some r.2) })

end TokenBucketLimiter

/-! ## Calls -/

/-- What a tool call presents, and the clock reading its check makes. -/
structure ToolCall where
  requester : String
  group : Option String
  now : ℚ

section Runs

variable (rt : Runtime) (users : List User)

/-- `self._directory.require_group(…) if group else self._directory.resolve(…)`. -/
def authorise (requester : String) (group : Option String) : Except PyError User :=
  match group with
  | none => resolve rt users requester
  | some g => if g = "" then resolve rt users requester else requireGroup rt users requester g

/-- A call up to its body: the user it runs as, or why it is refused. -/
def admitUser (l : TokenBucketLimiter) (c : ToolCall) : Except PyError User × TokenBucketLimiter :=
  match authorise rt users c.requester c.group with
  | .error e => (.error e, l)
  | .ok user => ((l.check user.upn c.now).1.map (fun _ => user), (l.check user.upn c.now).2)

/-- The limiter after the calls. -/
def limiterAfter (l : TokenBucketLimiter) (calls : List ToolCall) : TokenBucketLimiter :=
  calls.foldl (fun l c => (admitUser rt users l c).2) l

/-- The calls that are let through to their bodies. -/
def letThrough (l : TokenBucketLimiter) : List ToolCall → List ToolCall
  | [] => []
  | c :: cs =>
    if (admitUser rt users l c).1.isOk then c :: letThrough (admitUser rt users l c).2 cs
    else letThrough (admitUser rt users l c).2 cs

/-- The call presents an identity of the user, in some spelling. -/
def ToolCall.names (c : ToolCall) (u : User) : Prop :=
  requesterKey rt c.requester = rt.lower u.id ∨ requesterKey rt c.requester = rt.lower u.upn

instance (c : ToolCall) (u : User) : Decidable (c.names rt u) :=
  inferInstanceAs (Decidable (_ ∨ _))

/-- Object ids and UPNs are pairwise distinct, ignoring case. -/
def DistinctIds : Prop := ((indexPairs rt users).map Prod.fst).Nodup

instance : Decidable (DistinctIds rt users) := inferInstanceAs (Decidable (List.Nodup _))

/-- The call reaches the limiter as the user. -/
def Reaches (u : User) (c : ToolCall) : Prop := authorise rt users c.requester c.group = .ok u

instance (u : User) (c : ToolCall) : Decidable (Reaches rt users u c) :=
  match h : authorise rt users c.requester c.group with
  | .ok v =>
    if hv : v = u then isTrue (hv ▸ h) else isFalse (fun hr => hv (Except.ok.inj (h.symm.trans hr)))
  | .error _ => isFalse (fun hr => nomatch h.symm.trans hr)

/-- How many of the user's calls among these have readings in the window. -/
def callsInWindow (u : User) (start end_ : ℚ) (calls : List ToolCall) : Nat :=
  calls.countP (fun c => c.names rt u ∧ start ≤ c.now ∧ c.now ≤ end_)

/-- The user's calls keep to the budget of `capacity` at once and `rate` after that, and none
of them is refused short of it. -/
structure KeepsBudget (perMinute : Int) (u : User) (calls : List ToolCall) : Prop where
  bound : ∀ start T : ℚ, 0 ≤ T →
    (callsInWindow rt u start (start + T) (letThrough rt users (.new perMinute none) calls) : ℚ) ≤
      perMinute + perMinute / 60 * T
  tight : ∀ before c after_, calls = before ++ c :: after_ → c.names rt u →
    ((calls.filter (fun d => (authorise rt users d.requester d.group).isOk)).map
      ToolCall.now).Pairwise (· ≤ ·) →
    ∀ message, (admitUser rt users (limiterAfter rt users (.new perMinute none) before) c).1 =
      .error (.rateLimited message) →
    ∃ T : ℚ, 0 ≤ T ∧ perMinute + perMinute / 60 * T <
      (callsInWindow rt u (c.now - T) c.now
        (letThrough rt users (.new perMinute none) before) : ℚ) + 1

end Runs

/-! ## One user's bucket -/

section Facts

variable {rt : Runtime} {users : List User} {u v : User} {c : ToolCall}

theorem authorise_ok {requester : String} {group : Option String}
    (h : authorise rt users requester group = .ok u) : resolve rt users requester = .ok u := by
  unfold authorise at h
  split at h
  · exact h
  · split at h
    · exact h
    · exact (requireGroup_ok h).1

/-- Who reaches the limiter as a user has named that user. -/
theorem Reaches.names (h : Reaches rt users u c) : u ∈ users ∧ c.names rt u :=
  findUser_mem (resolve_ok (authorise_ok h)).1

theorem mem_indexPairs_id (hu : u ∈ users) : (rt.lower u.id, u) ∈ indexPairs rt users :=
  List.mem_flatMap.mpr ⟨u, hu, List.mem_cons_self⟩

theorem mem_indexPairs_upn (hu : u ∈ users) : (rt.lower u.upn, u) ∈ indexPairs rt users :=
  List.mem_flatMap.mpr ⟨u, hu, List.mem_cons_of_mem _ List.mem_cons_self⟩

theorem mem_indexPairs_of_names (hu : u ∈ users) (h : c.names rt u) :
    (requesterKey rt c.requester, u) ∈ indexPairs rt users := by
  rcases h with h | h <;> rw [h]
  · exact mem_indexPairs_id hu
  · exact mem_indexPairs_upn hu

/-- In such a directory a key belongs to one user. -/
theorem DistinctIds.eq_of_mem (hd : DistinctIds rt users) {key : String}
    (hu : (key, u) ∈ indexPairs rt users) (hv : (key, v) ∈ indexPairs rt users) : u = v :=
  congrArg Prod.snd (List.inj_on_of_nodup_map hd hu hv rfl)

theorem DistinctIds.eq_of_names (hd : DistinctIds rt users) (hu : u ∈ users) (hv : v ∈ users)
    (hcu : c.names rt u) (hcv : c.names rt v) : u = v :=
  hd.eq_of_mem (mem_indexPairs_of_names hu hcu) (mem_indexPairs_of_names hv hcv)

theorem DistinctIds.eq_of_upn (hd : DistinctIds rt users) (hu : u ∈ users) (hv : v ∈ users)
    (h : u.upn = v.upn) : u = v := by
  have hm : (rt.lower v.upn, v) ∈ indexPairs rt users := mem_indexPairs_upn hv
  rw [← h] at hm
  exact hd.eq_of_mem (mem_indexPairs_upn hu) hm

variable (rt users u) in
/-- The readings of the user's checks, in the order they take the lock. -/
def readings (calls : List ToolCall) : List ℚ :=
  (calls.filter (fun c => Reaches rt users u c)).map ToolCall.now

theorem readings_cons (calls : List ToolCall) (h : Reaches rt users u c) :
    readings rt users u (c :: calls) = c.now :: readings rt users u calls := by
  unfold readings
  rw [List.filter_cons, if_pos (decide_eq_true h), List.map_cons]

theorem readings_cons_of_not (calls : List ToolCall) (h : ¬ Reaches rt users u c) :
    readings rt users u (c :: calls) = readings rt users u calls := by
  unfold readings
  rw [List.filter_cons, if_neg (fun hd => h (of_decide_eq_true hd))]

/-- The user's checks are among all checks. -/
theorem readings_sublist (calls : List ToolCall) : (readings rt users u calls).Sublist
    ((calls.filter (fun d => (authorise rt users d.requester d.group).isOk)).map ToolCall.now) := by
  refine List.Sublist.map _ (List.monotone_filter_right calls (fun d hd => ?_))
  have hr : Reaches rt users u d := of_decide_eq_true hd
  unfold Reaches at hr
  rw [hr]
  rfl

theorem readings_append (calls calls' : List ToolCall) :
    readings rt users u (calls ++ calls') = readings rt users u calls ++
      readings rt users u calls' := by
  unfold readings
  rw [List.filter_append, List.map_append]

theorem admit_rates (l : TokenBucketLimiter) (c : ToolCall) :
    (admitUser rt users l c).2.rate = l.rate ∧
    (admitUser rt users l c).2.capacity = l.capacity := by
  unfold admitUser
  split <;> exact ⟨rfl, rfl⟩

theorem limiterAfter_rates (calls : List ToolCall) : ∀ l : TokenBucketLimiter,
    (limiterAfter rt users l calls).rate = l.rate ∧ (limiterAfter rt users l calls).capacity =
      l.capacity := by
  induction calls with
  | nil => exact fun _ => ⟨rfl, rfl⟩
  | cons c calls ih =>
    intro l
    have h := ih (admitUser rt users l c).2
    rw [(admit_rates l c).1, (admit_rates l c).2] at h
    exact h

/-- **What a call does to a user's bucket**: a check of the user's own, or nothing. -/
theorem admit_cases (hd : DistinctIds rt users) (hu : u ∈ users) (l : TokenBucketLimiter)
    (c : ToolCall) :
    (Reaches rt users u c ∧ (admitUser rt users l c).2.buckets u.upn =
        some (TokenBucket.check l.capacity l.rate c.now (l.buckets u.upn)).2 ∧
      (admitUser rt users l c).1 =
      (if (TokenBucket.check l.capacity l.rate c.now (l.buckets u.upn)).1 then .ok u
        else .error (.rateLimited (l.limitMessage u.upn)))) ∨
    (¬ Reaches rt users u c ∧ (admitUser rt users l c).2.buckets u.upn = l.buckets u.upn ∧
      (c.names rt u → ∃ message, (admitUser rt users l c).1 = .error (.accessDenied message))) := by
  unfold admitUser
  cases h : authorise rt users c.requester c.group with
  | error e =>
    refine Or.inr ⟨fun hr => (nomatch h.symm.trans hr), rfl, fun _ => ?_⟩
    unfold authorise at h
    split at h
    · obtain ⟨message, rfl⟩ := resolve_error h
      exact ⟨message, rfl⟩
    · split at h
      · obtain ⟨message, rfl⟩ := resolve_error h
        exact ⟨message, rfl⟩
      · obtain ⟨message, rfl⟩ := requireGroup_error h
        exact ⟨message, rfl⟩
  | ok v =>
    have hv : Reaches rt users v c := h
    by_cases huv : u = v
    · subst huv
      refine Or.inl ⟨hv, ?_, ?_⟩
      · exact Function.update_self ..
      · simp only [TokenBucketLimiter.check]
        split <;> rfl
    · have hne : u.upn ≠ v.upn := fun he => huv (hd.eq_of_upn hu hv.names.1 he)
      refine Or.inr ⟨fun hr => huv (Except.ok.inj (hr.symm.trans hv)), ?_, fun hn => ?_⟩
      · exact Function.update_of_ne hne ..
      · exact absurd (hd.eq_of_names hu hv.names.1 hn hv.names.2) huv

/-- The bucket of a user is one the user's checks alone have worked. -/
theorem buckets_limiterAfter (hd : DistinctIds rt users) (hu : u ∈ users) (calls : List ToolCall) :
    ∀ l : TokenBucketLimiter, (limiterAfter rt users l calls).buckets u.upn =
      after l.capacity l.rate (l.buckets u.upn) (readings rt users u calls) := by
  induction calls with
  | nil => exact fun _ => rfl
  | cons c calls ih =>
    intro l
    have hrec : limiterAfter rt users l (c :: calls) = limiterAfter rt users
        (admitUser rt users l c).2 calls := rfl
    rw [hrec, ih, (admit_rates l c).1, (admit_rates l c).2]
    rcases admit_cases hd hu l c with ⟨hr, hb, -⟩ | ⟨hr, hb, -⟩
    · rw [hb, readings_cons calls hr]
      rfl
    · rw [hb, readings_cons_of_not calls hr]

/-- The user's calls that are let through are those the bucket admits. -/
theorem letThrough_readings (hd : DistinctIds rt users) (hu : u ∈ users) (calls : List ToolCall) :
    ∀ l : TokenBucketLimiter, ((letThrough rt users l calls).filter (fun c => c.names rt u)).map
      ToolCall.now =
      admitted l.capacity l.rate (l.buckets u.upn) (readings rt users u calls) := by
  induction calls with
  | nil => exact fun _ => rfl
  | cons c calls ih =>
    intro l
    have hih := ih (admitUser rt users l c).2
    rw [(admit_rates l c).1, (admit_rates l c).2] at hih
    unfold letThrough
    rcases admit_cases hd hu l c with ⟨hr, hb, ho⟩ | ⟨hr, hb, ho⟩
    · rw [hb] at hih
      rw [readings_cons calls hr, admitted, ho]
      by_cases hc : (TokenBucket.check l.capacity l.rate c.now (l.buckets u.upn)).1 = true
      · simp only [hc, if_true]
        have hok : (Except.ok u : Except PyError User).isOk = true := rfl
        rw [if_pos hok, List.filter_cons, if_pos (decide_eq_true hr.names.2), List.map_cons, hih]
      · simp only [hc, if_false, Bool.false_eq_true]
        rw [if_neg (by exact Bool.false_ne_true), hih]
    · rw [hb] at hih
      rw [readings_cons_of_not calls hr]
      by_cases hn : c.names rt u
      · obtain ⟨message, he⟩ := ho hn
        rw [he, if_neg (by exact Bool.false_ne_true)]
        exact hih
      · split
        · rw [List.filter_cons, if_neg (fun h => hn (of_decide_eq_true h))]
          exact hih
        · exact hih

theorem callsInWindow_eq (hd : DistinctIds rt users) (hu : u ∈ users) (start end_ : ℚ)
    (l : TokenBucketLimiter) (calls : List ToolCall) :
    callsInWindow rt u start end_ (letThrough rt users l calls) =
      inWindow start end_ (admitted l.capacity l.rate (l.buckets u.upn)
        (readings rt users u calls)) := by
  rw [← letThrough_readings hd hu calls l]
  unfold callsInWindow inWindow
  rw [List.countP_map, List.countP_filter]
  refine congrArg (fun p => List.countP p _) (funext fun c => ?_)
  simp only [Function.comp_apply, Bool.decide_and, Bool.and_comm]

/-- **Every user keeps to the budget**, under any spelling of the identity, with any clock
readings, in any order of the checks and whatever others do; and no check made in clock order
is refused short of the budget. -/
theorem keeps_budget (rt : Runtime) (users : List User) (hd : DistinctIds rt users)
    (perMinute : Int) (hp : 1 ≤ perMinute) (u : User) (hu : u ∈ users) (calls : List ToolCall) :
    KeepsBudget rt users perMinute u calls := by
  have hcap : (1 : ℚ) ≤ perMinute := by exact_mod_cast hp
  have hrate : (0 : ℚ) ≤ (perMinute : ℚ) / 60 := by linarith
  constructor
  · intro start T hT
    rw [callsInWindow_eq hd hu]
    have hnonneg : (0 : ℚ) ≤ perMinute := by linarith
    have h := admitted_le hnonneg hrate start (start + T) (by linarith)
      (readings rt users u calls) none
    rwa [add_sub_cancel_left] at h
  · intro before c after_ hcalls hn hsorted message ho
    have hafter := buckets_limiterAfter hd hu before (.new perMinute none)
    rcases admit_cases hd hu (limiterAfter rt users (.new perMinute none) before) c
      with ⟨hr, -, hout⟩ | ⟨-, -, hdenied⟩
    · rw [ho, (limiterAfter_rates before _).1, (limiterAfter_rates before _).2, hafter] at hout
      have hsub : (readings rt users u before ++ [c.now]).Sublist
          ((calls.filter (fun d => (authorise rt users d.requester d.group).isOk)).map
            ToolCall.now) := by
        refine List.Sublist.trans ?_ (readings_sublist (u := u) calls)
        rw [hcalls, readings_append, readings_cons after_ hr]
        exact List.Sublist.append_left (List.Sublist.cons_cons _ (List.nil_sublist _)) _
      split at hout
      case isTrue => cases hout
      next hrefused =>
      obtain ⟨start, hle, hlt⟩ := refused_window hcap _ _ (hsorted.sublist hsub)
        (Bool.eq_false_of_not_eq_true hrefused)
      refine ⟨c.now - start, by linarith, ?_⟩
      rw [callsInWindow_eq hd hu, sub_sub_cancel]
      exact hlt
    · obtain ⟨message', he⟩ := hdenied hn
      rw [ho] at he
      cases he

end Facts

/-! ## An example -/

def sampleCaller : User := ⟨"U-1", "priya@example-am.com", "Priya", [ANALYST_GROUP], true, .person⟩

/-- Three calls by one user under three spellings, two of them at once. -/
def sampleBurst : List ToolCall :=
  [⟨"u-1", none, 0⟩, ⟨" Priya@example-am.com", some ANALYST_GROUP, 0⟩, ⟨"U-1 ", none, 60⟩]

theorem keeps_budget_sample :
    KeepsBudget Runtime.python [sampleCaller] 1 sampleCaller sampleBurst :=
  keeps_budget Runtime.python [sampleCaller] (by decide) 1 (by decide) sampleCaller
    (by decide) sampleBurst

example : (letThrough Runtime.python [sampleCaller] (.new 1 none) sampleBurst).map
    ToolCall.now = [0, 60] := by
  decide +kernel

end ComplianceMcp
