import ComplianceMcp.AuditRecord

/-! # Calendar dates

A date is kept as the text `YYYY-MM-DD`.  The pattern of `IsoDate` has checked the shape of
an argument before it arrives; `parse_iso_date` rejects the days no calendar has.  Dates are
compared as texts, which sorts them. -/
namespace ComplianceMcp

open PyText

structure Date where
  year : Nat
  month : Nat
  day : Nat
  deriving DecidableEq

/-- The number a text of decimal digits stands for. -/
def number (t : Text) : Option Nat :=
  if t.all Char.isDigit then some (t.foldl (fun n c => 10 * n + (c.toNat - '0'.toNat)) 0) else none

def isLeap (year : Nat) : Bool := year % 4 = 0 && (year % 100 ≠ 0 || year % 400 = 0)

def daysInMonth (year month : Nat) : Nat :=
  if month = 2 then (if isLeap year then 29 else 28)
  else if month ∈ [4, 6, 9, 11] then 30
  else 31

/-- The days the calendar has. -/
def Date.IsReal (d : Date) : Prop :=
  1 ≤ d.year ∧ 1 ≤ d.month ∧ d.month ≤ 12 ∧ 1 ≤ d.day ∧ d.day ≤ daysInMonth d.year d.month

instance (d : Date) : Decidable d.IsReal :=
  inferInstanceAs (Decidable (_ ∧ _ ∧ _ ∧ _ ∧ _))

/-- The shape `YYYY-MM-DD`. -/
def dateParts (t : Text) : Option Date :=
  match t with
  | [y₁, y₂, y₃, y₄, '-', m₁, m₂, '-', d₁, d₂] => do
    return ⟨← number [y₁, y₂, y₃, y₄], ← number [m₁, m₂], ← number [d₁, d₂]⟩
  | _ => none

/-- `parse_iso_date(value)` on a text of the shape `YYYY-MM-DD`. -/
def parseIsoDate (value : String) : Except PyError Date :=
  match dateParts value.toList with
  | some d => if d.IsReal then .ok d else .error (.valueError "Invalid isoformat string")
  | none => .error (.valueError "Invalid isoformat string")

/-- One argument of `_validate_range`; an empty one is not looked at. -/
def validateDate (label value : String) : Except PyError Unit :=
  if value = "" then .ok ()
  else match parseIsoDate value with
    | .ok _ => .ok ()
    | .error _ => .error (.invalidInput (label ++ " is not a real date: " ++ value))

/-- `_validate_range(start, end)`. -/
def validateRange (start end_ : Option String) : Except PyError Unit := do
  validateDate "start" (start.getD "")
  validateDate "end" (end_.getD "")
  if start.getD "" ≠ "" ∧ end_.getD "" ≠ "" ∧ start.getD "" > end_.getD "" then
    .error (.invalidInput ("start " ++ start.getD "" ++ " is after end " ++ end_.getD ""))
  else .ok ()

/-- `_in_range(day, start, end)`. -/
def inRange (day start end_ : String) : Bool :=
  (start = "" || start ≤ day) && (end_ = "" || day ≤ end_)

/-- `_months_inclusive(start, end)`. -/
def monthsInclusive (start end_ : String) : Except PyError Int := do
  let s ← parseIsoDate start
  let e ← parseIsoDate end_
  return max 1 (((e.year : Int) - s.year) * 12 + e.month - s.month + 1)

example : validateRange (some "2026-02-29") none =
    .error (.invalidInput "start is not a real date: 2026-02-29") := by decide +kernel

end ComplianceMcp
