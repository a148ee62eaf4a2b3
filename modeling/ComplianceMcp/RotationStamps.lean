import ComplianceMcp.Decimals
import ComplianceMcp.GapDetection
import ComplianceMcp.AuditSequence

/-! # The names of rotated files

`_rotate` reads the clock twice for one name: `gmtime()` gives the date and the second, then
`time_ns()` the nanoseconds.  Where a second ends between the two readings, the nanoseconds
belong to another second than the one that is shown, and the name of a later rotation can sort
before the name of an earlier one or be the same. -/
namespace ComplianceMcp

open PyText Files Decimals

/-! ## `time.gmtime` -/

/-- The day after. -/
def Date.next (d : Date) : Date :=
  if d.day < daysInMonth d.year d.month then { d with day := d.day + 1 }
  else if d.month < 12 then ⟨d.year, d.month + 1, 1⟩
  else ⟨d.year + 1, 1, 1⟩

/-- The days from the first of January 1677 on; a clock that counts nanoseconds in 64 bits
shows no earlier year. -/
def calendarDay : Nat → Date
  | 0 => ⟨1677, 1, 1⟩
  | n + 1 => (calendarDay n).next

/-- From there to the first of January 1970. -/
def epochDay : Nat := 107015

/-- The seconds from the first day of the calendar on. -/
def calendarSecond (second : Int) : Nat := (second + epochDay * 86400).toNat

/-- `%Y%m%d`. -/
def dateText (d : Date) : Text := padded 4 d.year ++ (padded 2 d.month ++ padded 2 d.day)

/-- `%H%M%S` of a second of the day. -/
def timeText (t : Nat) : Text :=
  padded 2 (t / 3600) ++ (padded 2 (t / 60 % 60) ++ padded 2 (t % 60))

/-- `time.strftime('%Y%m%dT%H%M%S', time.gmtime())` at a second since 1970. -/
def secondText (second : Int) : Text :=
  dateText (calendarDay (calendarSecond second / 86400)) ++ 'T' ::
    timeText (calendarSecond second % 86400)

/-! ## The calendar -/

theorem Date.next_day {d : Date} (h : d.day < daysInMonth d.year d.month) :
    d.next = { d with day := d.day + 1 } := if_pos h

theorem calendarDay_add {n y m k : Nat} (h : calendarDay n = ⟨y, m, 1⟩) (hk : k < daysInMonth y m) :
    calendarDay (n + k) = ⟨y, m, 1 + k⟩ := by
  induction k with
  | zero => exact h
  | succ k ih =>
    rw [← Nat.add_assoc, calendarDay, ih (by omega), Date.next_day (by dsimp only; omega)]
    rfl

theorem daysInMonth_pos (y m : Nat) : 28 ≤ daysInMonth y m := by
  unfold daysInMonth
  split <;> split <;> omega

theorem calendarDay_month {n y m : Nat} (h : calendarDay n = ⟨y, m, 1⟩) :
    calendarDay (n + daysInMonth y m) = if m < 12 then ⟨y, m + 1, 1⟩ else ⟨y + 1, 1, 1⟩ := by
  have hpos := daysInMonth_pos y m
  obtain ⟨k, hk⟩ : ∃ k, daysInMonth y m = k + 1 := ⟨daysInMonth y m - 1, by omega⟩
  rw [hk, ← Nat.add_assoc, calendarDay, calendarDay_add h (by omega), Date.next,
    if_neg (by dsimp only; omega)]

/-- The days of the first months of a year. -/
def daysBefore (y : Nat) : Nat → Nat
  | 0 => 0
  | m + 1 => daysBefore y m + daysInMonth y (m + 1)

theorem calendarDay_months {n y m : Nat} (h : calendarDay n = ⟨y, 1, 1⟩) (hm : m < 12) :
    calendarDay (n + daysBefore y m) = ⟨y, m + 1, 1⟩ := by
  induction m with
  | zero => exact h
  | succ m ih => rw [daysBefore, ← Nat.add_assoc, calendarDay_month (ih (by omega)), if_pos hm]

/-- The days of the first years of the calendar. -/
def daysToYear : Nat → Nat
  | 0 => 0
  | y + 1 => daysToYear y + daysBefore (1677 + y) 12

theorem calendarDay_year (y : Nat) : calendarDay (daysToYear y) = ⟨1677 + y, 1, 1⟩ := by
  induction y with
  | zero => rfl
  | succ y ih =>
    rw [daysToYear, daysBefore, ← Nat.add_assoc,
      calendarDay_month (calendarDay_months ih (by decide)), if_neg (by decide), Nat.add_assoc]

/-- The epoch is the first of January 1970. -/
theorem calendarDay_epochDay : calendarDay epochDay = ⟨1970, 1, 1⟩ := by
  have h : daysToYear 293 = epochDay := by decide +kernel
  rw [← h, calendarDay_year]

/-- The days of the calendar are real, and their years are bounded by their number. -/
structure OnCalendar (n : Nat) (d : Date) : Prop where
  real : d.IsReal
  bound : 336 * d.year + 28 * d.month + d.day ≤ 336 * 1677 + 29 + n

theorem OnCalendar.next {n : Nat} {d : Date} (h : OnCalendar n d) : OnCalendar (n + 1) d.next := by
  obtain ⟨⟨hy, hm, hm', hd, hd'⟩, hb⟩ := h
  have hpos := daysInMonth_pos d.year d.month
  have hpos' := daysInMonth_pos d.year (d.month + 1)
  have hpos'' := daysInMonth_pos (d.year + 1) 1
  unfold Date.next
  split
  · next hlt => exact ⟨⟨hy, hm, hm', by dsimp only; omega, hlt⟩, by dsimp only; omega⟩
  · split
    · next hlt =>
      exact ⟨⟨hy, Nat.succ_pos _, hlt, Nat.le_refl 1, by dsimp only; omega⟩, by dsimp only; omega⟩
    · exact ⟨⟨Nat.succ_pos _, Nat.le_refl 1, Nat.succ_pos 11, Nat.le_refl 1, by dsimp only; omega⟩,
        by dsimp only; omega⟩

theorem onCalendar (n : Nat) : OnCalendar n (calendarDay n) := by
  induction n with
  | zero => exact ⟨by decide, by decide⟩
  | succ n ih => exact ih.next

theorem Date.Before.trans {d e f : Date} (h : d.Before e) (h' : e.Before f) : d.Before f := by
  unfold Date.Before at *
  omega

theorem Date.before_next {d : Date} : d.Before d.next := by
  unfold Date.next
  split
  · exact .inr ⟨rfl, .inr ⟨rfl, Nat.lt_succ_self _⟩⟩
  · split
    · exact .inr ⟨rfl, .inl (Nat.lt_succ_self _)⟩
    · exact .inl (Nat.lt_succ_self _)

/-- **Later days come later in the calendar.** -/
theorem calendarDay_lt {n m : Nat} (h : n < m) : (calendarDay n).Before (calendarDay m) := by
  induction m with
  | zero => cases h
  | succ m ih =>
    rcases Nat.lt_succ_iff_lt_or_eq.mp h with hlt | rfl
    · exact (ih hlt).trans Date.before_next
    · exact Date.before_next

/-! ## Texts of seconds sort as they are -/

theorem dateText_lt {d e : Date} (hd : d.IsReal) (he : e.IsReal) (hyd : d.year < 10000)
    (hye : e.year < 10000) (h : d.Before e) : dateText d < dateText e := by
  have hdays : ∀ y m, daysInMonth y m ≤ 31 := by
    intro y m
    unfold daysInMonth
    split <;> split <;> omega
  obtain ⟨-, -, hmd, -, hdd⟩ := hd
  obtain ⟨-, -, hme, -, hde⟩ := he
  have hdd' := hdays d.year d.month
  have hde' := hdays e.year e.month
  rw [dateText, dateText, append_lt_append_iff (by simp), append_lt_append_iff (by simp),
    padded_lt_iff hyd hye, padded_inj hyd hye, padded_lt_iff (by omega) (by omega),
    padded_inj (by omega) (by omega), padded_lt_iff (by omega) (by omega)]
  exact h

theorem timeText_lt {t u : Nat} (hu : u < 86400) (h : t < u) : timeText t < timeText u := by
  rw [timeText, timeText, append_lt_append_iff (by simp), append_lt_append_iff (by simp),
    padded_lt_iff (by omega) (by omega), padded_inj (by omega) (by omega),
    padded_lt_iff (by omega) (by omega), padded_inj (by omega) (by omega),
    padded_lt_iff (by omega) (by omega)]
  omega

theorem length_secondText (second : Int) : (secondText second).length = 15 := by
  simp [secondText, dateText, timeText]

/-- What a 64-bit clock can show, in seconds. -/
def Shown (second : Int) : Prop := -9223372037 ≤ second ∧ second ≤ 9223372036

/-- **Seconds sort as they are.** -/
theorem secondText_lt {s s' : Int} (hs : Shown s) (hs' : Shown s') (h : s < s') :
    secondText s < secondText s' := by
  obtain ⟨hlo, hhi⟩ := hs
  obtain ⟨hlo', hhi'⟩ := hs'
  have hlt : calendarSecond s < calendarSecond s' := by
    unfold calendarSecond epochDay
    omega
  have hmax : calendarSecond s' / 86400 < 300000 := by
    unfold calendarSecond epochDay
    omega
  have hbound := (onCalendar (calendarSecond s / 86400)).bound
  have hbound' := (onCalendar (calendarSecond s' / 86400)).bound
  have hdiv : calendarSecond s / 86400 ≤ calendarSecond s' / 86400 := Nat.div_le_div_right hlt.le
  rw [secondText, secondText, append_lt_append_iff (by simp [dateText]), cons_lt_cons_self]
  rcases Nat.lt_or_eq_of_le hdiv with hday | hday
  · exact .inl (dateText_lt (onCalendar _).real (onCalendar _).real (by omega) (by omega)
      (calendarDay_lt hday))
  · rw [hday]
    exact .inr ⟨rfl, timeText_lt (Nat.mod_lt _ (by decide)) (by omega)⟩

theorem secondText_lt_iff {s s' : Int} (hs : Shown s) (hs' : Shown s') :
    secondText s < secondText s' ↔ s < s' := by
  refine ⟨fun h => ?_, secondText_lt hs hs'⟩
  rcases lt_trichotomy s s' with hlt | rfl | hlt
  · exact hlt
  · exact absurd h (lt_irrefl _)
  · exact absurd h (lt_asymm (secondText_lt hs' hs hlt))

theorem secondText_inj {s s' : Int} (hs : Shown s) (hs' : Shown s') :
    secondText s = secondText s' ↔ s = s' := by
  refine ⟨fun h => ?_, fun h => congrArg secondText h⟩
  rcases lt_trichotomy s s' with hlt | heq | hlt
  · exact absurd h (ne_of_lt (secondText_lt hs hs' hlt))
  · exact heq
  · exact absurd h (ne_of_gt (secondText_lt hs' hs hlt))

/-! ## Rotations -/

theorem toList_rotated (p : ChainPath) (stamp : String) :
    (p.rotated stamp).toList = p.stem.toList ++ '.' :: (stamp.toList ++ p.suffix.toList) := by
  simp only [ChainPath.rotated, String.toList_append, List.append_assoc]
  rfl

/-- One rotation: what the file holds that it puts aside, and its two readings of the clock, in
nanoseconds since 1970. -/
structure Rotation where
  content : Bytes
  gmtime : Int
  timeNs : Int
  ordered : gmtime < timeNs
  shown : -2 ^ 63 ≤ gmtime ∧ timeNs < 2 ^ 63

namespace Rotation

variable (r r' : Rotation) (p : ChainPath)

/-- The second of the first reading. -/
def second : Int := r.gmtime / 1000000000

/-- `time.time_ns() % 1_000_000_000`. -/
def nanos : Nat := (r.timeNs % 1000000000).toNat

/-- The `stamp` of `_rotate`. -/
def stamp : String := String.ofList (secondText r.second ++ '.' :: (padded 9 r.nanos ++ ['Z']))

/-- The name of the file put aside. -/
def name : String := p.rotated r.stamp

theorem shown_second : Shown r.second := by
  have h := r.shown
  have ho := r.ordered
  unfold Shown second
  omega

theorem nanos_lt : r.nanos < 10 ^ 9 := by
  unfold nanos
  omega

theorem length_stamp : r.stamp.toList.length = 26 := by
  rw [stamp, String.toList_ofList, List.length_append, length_secondText, List.length_cons,
    List.length_append, length_padded, List.length_singleton]

theorem stamp_lt_iff : r.stamp.toList < r'.stamp.toList ↔
    r.second < r'.second ∨ r.second = r'.second ∧ r.nanos < r'.nanos := by
  have hend : ¬ (padded 9 r.nanos = padded 9 r'.nanos ∧ ['Z'] < ['Z']) := fun h => lt_irrefl _ h.2
  rw [stamp, stamp, String.toList_ofList, String.toList_ofList,
    append_lt_append_iff ((length_secondText _).trans (length_secondText _).symm),
    cons_lt_cons_self, append_lt_append_iff ((length_padded _ _).trans (length_padded _ _).symm),
    or_iff_left hend, secondText_lt_iff r.shown_second r'.shown_second,
    secondText_inj r.shown_second r'.shown_second, padded_lt_iff r.nanos_lt r'.nanos_lt]

/-- **Names sort as their stamps do**, by the second and then by the nanoseconds. -/
theorem name_lt_iff : r.name p < r'.name p ↔ r.second < r'.second ∨ r.second = r'.second ∧
    r.nanos < r'.nanos := by
  have hend : ¬ (r.stamp.toList = r'.stamp.toList ∧ p.suffix.toList < p.suffix.toList) :=
    fun h => lt_irrefl _ h.2
  rw [String.lt_iff_toList_lt, name, name, toList_rotated, toList_rotated, append_lt_append_iff rfl,
    cons_lt_cons_self, or_iff_right (lt_irrefl _), and_iff_right rfl,
    append_lt_append_iff ((length_stamp r).trans (length_stamp r').symm),
    or_iff_left hend, stamp_lt_iff]

/-- The later rotation's stamp is later: it shows a later second, or more nanoseconds in the
same. -/
def Apart : Prop := r'.second = r.second → r.nanos < r'.nanos

variable {r r'}

theorem name_lt_iff_apart (h : r.timeNs < r'.gmtime) : r.name p < r'.name p ↔ r.Apart r' := by
  have hsecond : r.second ≤ r'.second := by
    have ho := r.ordered
    unfold second
    omega
  rw [name_lt_iff, Apart]
  constructor
  · rintro (hlt | ⟨-, hn⟩) he
    · omega
    · exact hn
  · intro h
    rcases hsecond.lt_or_eq with hlt | heq
    · exact .inl hlt
    · exact .inr ⟨heq, h heq.symm⟩

/-- Readings that fall in one second keep rotations apart. -/
theorem apart_of_same_second (h : r.timeNs < r'.gmtime) (hr' : r'.timeNs / 1000000000 = r'.second) :
    r.Apart r' := by
  intro he
  have ho := r.ordered
  have ho' := r'.ordered
  unfold second at he hr'
  unfold nanos
  omega

end Rotation

/-- Rotations that do not overlap, on a clock that never stands still. -/
structure Rotations where
  toList : List Rotation
  increasing : toList.Pairwise (fun r r' => r.timeNs < r'.gmtime)

/-- The names in the order of the rotations. -/
def rotatedNames (p : ChainPath) (rs : List Rotation) : List String := rs.map (fun r => r.name p)

theorem names_ascending_iff (p : ChainPath) (rs : Rotations) :
    (rotatedNames p rs.toList).Pairwise (· < ·) ↔ rs.toList.Pairwise Rotation.Apart := by
  rw [rotatedNames, List.pairwise_map]
  constructor
  · exact fun h => (rs.increasing.and h).imp (fun h => (Rotation.name_lt_iff_apart p h.1).mp h.2)
  · exact fun h => (rs.increasing.and h).imp (fun h => (Rotation.name_lt_iff_apart p h.1).mpr h.2)

/-! ## The files -/

/-- `os.replace(self.path, rotated)` and `self.path.touch()`, where the active file holds the
content of the rotation. -/
def rotateFile (p : ChainPath) (d : Dir Bytes) (r : Rotation) : Option (Dir Bytes) :=
  ((d.write p.active r.content).rename p.active (r.name p)).map (fun d => d.touch p.active [])

/-- The files after the rotations of a log that starts with an empty file. -/
def rotateFiles (p : ChainPath) (rs : List Rotation) : Option (Dir Bytes) :=
  rs.foldlM (rotateFile p) (Dir.empty.touch p.active [])

/-- **Every rotation keeps its file, and the files are listed in the order of the rotations.** -/
def KeptInOrder (p : ChainPath) (rs : List Rotation) : Prop :=
  (rotatedNames p rs).Nodup ∧ ∃ d, rotateFiles p rs = some d ∧
  chainFiles p d = rotatedNames p rs ++ [p.active] ∧
    ∀ r ∈ rs, d.read (r.name p) = some r.content

theorem rotateFile_read (p : ChainPath) (d : Dir Bytes) (r : Rotation) :
    ∃ d', rotateFile p d r = some d' ∧
    ∀ n, d'.read n = if n = p.active then some [] else if n = r.name p then some r.content
      else d.read n := by
  have hne : r.name p ≠ p.active := rotated_ne_active p r.stamp
  cases hren : (d.write p.active r.content).rename p.active (r.name p) with
  | none =>
    rw [Dir.rename_eq_none, Dir.read_write_self] at hren
    cases hren
  | some d₁ =>
    have hread := Dir.read_rename hren
    refine ⟨d₁.touch p.active [], by rw [rotateFile, hren, Option.map_some], fun n => ?_⟩
    rw [Dir.read_touch, hread p.active, if_neg hne.symm, if_pos rfl, Option.getD_none]
    by_cases hn : n = p.active
    · rw [if_pos hn, if_pos hn]
    · rw [if_neg hn, if_neg hn, hread n, if_neg hn, Dir.read_write_of_ne _ _ hn,
        Dir.read_write_self]

/-- The files of a log after some rotations. -/
structure SetAside (p : ChainPath) (rs : List Rotation) (d : Dir Bytes) : Prop where
  active : (d.read p.active).isSome = true
  kept : ∀ r ∈ rs, d.read (r.name p) = some r.content
  only : ∀ n, n ≠ p.active → (d.read n).isSome = true → n ∈ rotatedNames p rs

theorem SetAside.start (p : ChainPath) : SetAside p [] (Dir.empty.touch p.active []) where
  active := by
    rw [Dir.read_touch, if_pos rfl]
    rfl
  kept := fun r hr => absurd hr List.not_mem_nil
  only := fun n hn h => by
    rw [Dir.read_touch, if_neg hn] at h
    cases h

/-- A rotation to a new name keeps the files of the earlier ones. -/
theorem SetAside.rotate {p : ChainPath} {rs : List Rotation} {d : Dir Bytes} (h : SetAside p rs d)
    {r : Rotation} (hnew : r.name p ∉ rotatedNames p rs) :
    ∃ d', rotateFile p d r = some d' ∧ SetAside p (rs ++ [r]) d' := by
  obtain ⟨d', hd', hread⟩ := rotateFile_read p d r
  refine ⟨d', hd', ?_, fun r' hr' => ?_, fun n hn hsome => ?_⟩
  · rw [hread, if_pos rfl]
    rfl
  · have hne : r'.name p ≠ p.active := rotated_ne_active p r'.stamp
    rw [hread, if_neg hne]
    rcases List.mem_append.mp hr' with hr' | hr'
    · have hother : r'.name p ≠ r.name p := fun he => hnew (he ▸ List.mem_map_of_mem hr')
      rw [if_neg hother, h.kept r' hr']
    · rw [List.mem_singleton.mp hr', if_pos rfl]
  · rw [hread, if_neg hn] at hsome
    rw [rotatedNames, List.map_append, List.mem_append]
    by_cases he : n = r.name p
    · exact .inr (List.mem_singleton.mpr he)
    · rw [if_neg he] at hsome
      exact .inl (h.only n hn hsome)

theorem rotateFiles_kept {p : ChainPath} {rs : List Rotation} (h : (rotatedNames p rs).Nodup) :
    ∃ d, rotateFiles p rs = some d ∧ SetAside p rs d := by
  induction rs using List.reverseRecOn with
  | nil => exact ⟨_, rfl, SetAside.start p⟩
  | append_singleton rs r ih =>
    rw [rotatedNames, List.map_append, List.nodup_append] at h
    obtain ⟨hnodup, -, hne⟩ := h
    obtain ⟨d, hd, hkept⟩ := ih hnodup
    obtain ⟨d', hd', hkept'⟩ := @SetAside.rotate p rs d hkept r
      (fun hmem => hne _ hmem _ (List.mem_singleton_self _) rfl)
    refine ⟨d', ?_, hkept'⟩
    rw [rotateFiles] at hd ⊢
    rw [List.foldlM_append, hd]
    show (rotateFile p d r).bind (fun d => some d) = some d'
    rw [hd']
    rfl

/-- **The rotated files are kept and listed in order exactly if** every later rotation within one
second has more nanoseconds.  For every log and every sequence of rotations on a clock that never
stands still. -/
theorem kept_in_order_iff (p : ChainPath) (rs : Rotations) :
    KeptInOrder p rs.toList ↔ rs.toList.Pairwise Rotation.Apart := by
  rw [← names_ascending_iff p rs]
  constructor
  · rintro ⟨-, d, -, hchain, -⟩
    have hsorted : ((d.sortedNames p.isRotated).filter (fun n => n ≠ p.active)).Pairwise (· < ·) :=
      (Dir.sortedNames_pairwise d _).sublist List.filter_sublist
    rw [chainFiles] at hchain
    by_cases hactive : (d.read p.active).isSome = true
    · rw [if_pos hactive] at hchain
      rwa [List.append_cancel_right hchain] at hsorted
    · rw [if_neg hactive, List.append_nil] at hchain
      rw [hchain] at hsorted
      exact (List.pairwise_append.mp hsorted).1
  · intro hlt
    have hnodup : (rotatedNames p rs.toList).Nodup := hlt.imp (fun h => ne_of_lt h)
    obtain ⟨d, hd, hkept⟩ := rotateFiles_kept hnodup
    refine ⟨hnodup, d, hd, ?_, hkept.kept⟩
    rw [chainFiles_eq hlt (fun n => ⟨?_, ?_⟩), if_pos hkept.active]
    · rintro ⟨hrot, hsome⟩
      refine hkept.only n ?_ hsome
      rintro rfl
      rw [isRotated_active] at hrot
      cases hrot
    · intro hn
      obtain ⟨r, hr, rfl⟩ := List.mem_map.mp hn
      rw [hkept.kept r hr]
      exact ⟨isRotated_rotated p r.stamp, rfl⟩

/-! ## The rotations of a log -/

/-- `_rotate` moves the files as `rotateFile` does, and then writes its marker. -/
theorem rotate_moves {rt : Runtime} {clock : Nat → String} {log : AuditLog} {s : Stamp}
    {w w' : World} {r : Rotation} (hname : clock w.rotations = r.stamp)
    (hcontent : w.dir.read log.path.active = some r.content)
    (h : rotate rt clock log s w = .ok w') : ∃ d marker, rotateFile log.path w.dir r = some d ∧
      ∀ n, w'.dir.read n = (d.write log.path.active marker).read n := by
  obtain ⟨d, hd, hread⟩ := rotateFile_read log.path w.dir r
  have hne : r.name log.path ≠ log.path.active := rotated_ne_active log.path r.stamp
  rw [rotate, hcontent] at h
  simp only [bind, Except.bind] at h
  cases hhead : head rt r.content with
  | error e =>
    rw [hhead] at h
    cases h
  | ok prev =>
    rw [hhead, hname] at h
    simp only at h
    cases hren : w.dir.rename log.path.active (log.path.rotated r.stamp) with
    | none =>
      rw [hren] at h
      cases h
    | some d₁ =>
      rw [hren] at h
      cases h
      refine ⟨d, markerBytes rt log s (log.path.rotated r.stamp) prev, hd, fun n => ?_⟩
      have hread₁ := Dir.read_rename hren
      rw [Dir.read_write, Dir.read_write, hread n]
      by_cases hn : n = log.path.active
      · rw [if_pos hn, if_pos hn]
      · rw [if_neg hn, if_neg hn, if_neg hn, Dir.read_touch, if_neg hn, hread₁ n,
          if_neg hn, hcontent]
        rfl

/-- The stamps in the order of the rotations. -/
def Rotations.clock (rs : Rotations) (i : Nat) : String :=
  ((rs.toList[i]?).map Rotation.stamp).getD ""

theorem Rotations.clock_eq (rs : Rotations) {i : Nat} (h : i < rs.toList.length) :
    rs.clock i = rs.toList[i].stamp := by
  rw [clock, List.getElem?_eq_getElem h, Option.map_some, Option.getD_some]

/-- Rotations that are apart give a log names that ascend, which is what a run of calls
needs to verify. -/
theorem ascending_of_apart (p : ChainPath) (rs : Rotations)
    (h : rs.toList.Pairwise Rotation.Apart) :
    Ascending rs.clock p rs.toList.length := by
  intro i j hij hj
  have hlt := (names_ascending_iff p rs).mpr h
  rw [rotatedNames, List.pairwise_map, List.pairwise_iff_getElem] at hlt
  rw [rs.clock_eq hj, rs.clock_eq (hij.trans hj)]
  exact hlt i j (hij.trans hj) hj hij

/-! ## A second that ends within a rotation -/

/-- One rotation before the end of a second, and one over it. -/
def overSecond : Rotations where
  toList := [⟨[], 10400000000, 10500000000, by decide, by decide⟩,
    ⟨[], 10900000000, 11500000000, by decide, by decide⟩]
  increasing := by simp

/-- **The second file replaces the first**: both are named for the second and the nanoseconds
19700101T000010.500000000. -/
theorem rotation_replaces_file : ¬ KeptInOrder ⟨"audit", ".jsonl"⟩ overSecond.toList := by
  rintro ⟨hnodup, -⟩
  rw [rotatedNames, overSecond, List.map_cons, List.map_cons, List.nodup_cons] at hnodup
  exact hnodup.1 (List.mem_cons_self ..)

end ComplianceMcp
