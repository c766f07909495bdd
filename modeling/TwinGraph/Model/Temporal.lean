import TwinGraph.Text.Blank
import TwinGraph.Text.Digit

/-! The written forms of dates, times and durations that a property can have. -/
namespace TwinGraph.Temporal

def isLeapYear (year : Int) : Bool := year % 4 == 0 && (year % 100 != 0 || year % 400 == 0)

def daysInMonth (year : Int) (month : Nat) : Nat :=
  if month = 2 then (if isLeapYear year then 29 else 28)
  else if month = 4 ∨ month = 6 ∨ month = 9 ∨ month = 11 then 30
  else 31

/-- A day of the calendar, reckoned backwards before it was introduced. -/
def isDay (year : Int) (month day : Nat) : Bool :=
  decide (1 ≤ month ∧ month ≤ 12 ∧ 1 ≤ day ∧ day ≤ daysInMonth year month)

def scanUpTo (most : Nat) (s : Text) : Option (Nat × Text) :=
  let digits := (s.take most).takeWhile Char.isDigit
  if digits.isEmpty then none else some (Text.natValue digits, s.drop digits.length)

def scanAll (s : Text) : Option (Nat × Text) := scanUpTo s.length s

/-- The largest number a signed year may be written with before its range is looked at. -/
def maxWritten : Nat := 0x7fffffffffffffff

/-- A year, with blanks in front: four digits at most, or any number of them behind a sign. -/
def scanYear (s : Text) : Option (Int × Text) :=
  match s.trimLeft with
  | '-' :: s => do
    let (n, s) ← scanAll s
    if maxWritten < n then none
    return (-(n : Int), s)
  | '+' :: s => do
    let (n, s) ← scanAll s
    if maxWritten < n then none
    return ((n : Int), s)
  | s => do
    let (n, s) ← scanUpTo 4 s
    return ((n : Int), s)

def scanPair (s : Text) : Option (Nat × Text) := scanUpTo 2 s.trimLeft

def inCalendar (year : Int) : Bool := decide (-262143 ≤ year ∧ year ≤ 262142)

def date? (s : Text) : Option (Int × Nat × Nat) := do
  let (year, s) ← scanYear s
  let s ← Text.after? ['-'] s
  let (month, s) ← scanPair s
  let s ← Text.after? ['-'] s
  let (day, s) ← scanPair s
  if s.isEmpty then some (year, month, day) else none

def isDate (s : Text) : Bool :=
  match date? s with
  | some (year, month, day) => inCalendar year && isDay year month day
  | none => false

/-- A time of day; sixty seconds are a leap second. -/
def isTimeOfDay (hour minute second : Nat) : Bool :=
  decide (hour ≤ 23 ∧ minute ≤ 59 ∧ second ≤ 60)

def isFraction : Text → Bool
  | [] => true
  | c :: s => c == '.' && !s.isEmpty && s.all Char.isDigit

def time? (s : Text) : Option (Nat × Nat × Nat × Text) := do
  let (hour, s) ← scanPair s
  let s ← Text.after? [':'] s
  let (minute, s) ← scanPair s
  let s ← Text.after? [':'] s
  let (second, s) ← scanPair s
  some (hour, minute, second, s)

def isTime (s : Text) : Bool :=
  match time? s with
  | some (hour, minute, second, rest) => isTimeOfDay hour minute second && isFraction rest
  | none => false

def scanExactly (count : Nat) (s : Text) : Option (Nat × Text) :=
  if (s.take count).length = count ∧ (s.take count).all Char.isDigit then
    some (Text.natValue (s.take count), s.drop count)
  else none

def afterFraction : Text → Option Text
  | '.' :: s => (scanAll s).map (·.2)
  | s => some s

def clock? (s : Text) : Option (Nat × Nat) := do
  let (hours, s) ← scanExactly 2 s
  let s ← Text.after? [':'] s
  let (minutes, s) ← scanExactly 2 s
  if s.isEmpty then some (hours, minutes) else none

/-- Greenwich time, or the distance from it, less than a day, with one of three signs. -/
def isOffset : Text → Bool
  | [] => false
  | [c] => c == 'Z' || c == 'z'
  | sign :: s =>
    (sign == '+' || sign == '-' || sign == '\u2212') &&
      match clock? s with
      | some (hours, minutes) => decide (hours ≤ 23 ∧ minutes ≤ 59)
      | none => false

/-- The day at the front, each number with all its digits. -/
def scanDay (s : Text) : Option ((Nat × Nat × Nat) × Text) := do
  let (year, s) ← scanExactly 4 s
  let s ← Text.after? ['-'] s
  let (month, s) ← scanExactly 2 s
  let s ← Text.after? ['-'] s
  let (day, s) ← scanExactly 2 s
  some ((year, month, day), s)

def scanClock (s : Text) : Option ((Nat × Nat × Nat) × Text) := do
  let (hour, s) ← scanExactly 2 s
  let s ← Text.after? [':'] s
  let (minute, s) ← scanExactly 2 s
  let s ← Text.after? [':'] s
  let (second, s) ← scanExactly 2 s
  let s ← afterFraction s
  some ((hour, minute, second), s)

/-- `2024-02-29T10:30:00.5+01:00` -/
def isDateTime (s : Text) : Bool :=
  match scanDay s with
  | some ((year, month, day), mark :: s) =>
    isDay year month day && (mark == 'T' || mark == 't' || mark == ' ') &&
      match scanClock s with
      | some ((hour, minute, second), rest) => isTimeOfDay hour minute second && isOffset rest
      | none => false
  | _ => false

def afterDigits : Text → Option Text
  | [] => none
  | c :: s => if isDecimalDigit c then some (s.dropWhile isDecimalDigit) else none

/-- The text after a number and its unit, or the same text if it does not start so. -/
def skipComponent (unit : Char) (s : Text) : Text :=
  match afterDigits s with
  | none => s
  | some rest => (Text.after? [unit] rest).getD s

def skipSeconds (s : Text) : Text :=
  match afterDigits s with
  | none => s
  | some rest =>
    match (Text.after? ['.'] rest).bind afterDigits with
    | some fraction => (Text.after? ['S'] fraction).getD s
    | none => (Text.after? ['S'] rest).getD s

/-- `P1Y2M3W4DT5H6M7.8S` with any of the components left out, but not all, and none empty. -/
def isDuration : Text → Bool
  | 'P' :: s =>
    match skipComponent 'D' (skipComponent 'W' (skipComponent 'M' (skipComponent 'Y' s))) with
    | [] => !s.isEmpty
    | 'T' :: t => !t.isEmpty && (skipSeconds (skipComponent 'M' (skipComponent 'H' t))).isEmpty
    | _ => false
  | _ => false

end TwinGraph.Temporal
