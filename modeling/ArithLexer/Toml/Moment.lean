import ArithLexer.Toml.Numeral

/-!
# Dates and times

A moment is a date, a time of day, or a date and a time with an optional
distance from universal time. Only whether a moment is meant matters here, so
its numbers are checked against the calendar and the clock and dropped.
-/

namespace ArithLexer.Toml

/-- A number of exactly `count` decimal digits that lies between two bounds. -/
def readFixed (count low high : Nat) : Reader Nat := fun text => do
  let digits ← (text.take count).mapM decimalDigit?
  let n := ofDigits 10 digits
  if digits.length = count ∧ low ≤ n ∧ n ≤ high then return (n, text.drop count) else none

/-- Whether a year has a day more than others. -/
def isLeapYear (year : Nat) : Bool := year % 4 == 0 && (year % 100 != 0 || year % 400 == 0)

/-- The number of days of a month. -/
def daysIn (year month : Nat) : Nat :=
  if month = 2 then (if isLeapYear year then 29 else 28)
  else if month ∈ [4, 6, 9, 11] then 30 else 31

/-- The text behind a day of the calendar. -/
def date? (text : List Char) : Option (List Char) := do
  let (year, rest) ← readFixed 4 0 9999 text
  let (month, rest) ← readFixed 2 1 12 (← expect '-' rest)
  let (_, rest) ← readFixed 2 1 (daysIn year month) (← expect '-' rest)
  return rest

/-- The text behind the hours and minutes of a clock. -/
def minutes? (text : List Char) : Option (List Char) := do
  let (_, rest) ← readFixed 2 0 23 text
  let (_, rest) ← readFixed 2 0 59 (← expect ':' rest)
  return rest

/-- The text behind a time of day. A minute may have a leap second. -/
def time? (text : List Char) : Option (List Char) := do
  let rest ← minutes? text
  let (_, rest) ← readFixed 2 0 60 (← expect ':' rest)
  match expect '.' rest with
  | some behind =>
    let fraction := behind.takeWhile fun c => (decimalDigit? c).isSome
    return if fraction.isEmpty then rest else behind.drop fraction.length
  | none => return rest

/-- The text behind a distance from universal time. -/
def offset? (text : List Char) : Option (List Char) :=
  match text with
  | 'Z' :: rest | 'z' :: rest => some rest
  | '+' :: rest | '-' :: rest => minutes? rest
  | _ => none

/-- The text behind a moment. -/
def moment? (text : List Char) : Option (List Char) :=
  match date? text with
  | none => time? text
  | some rest =>
    let timed := match rest with
      | 'T' :: behind | 't' :: behind | ' ' :: behind => time? behind
      | _ => none
    match timed with
    | none => some rest
    | some rest => some ((offset? rest).getD rest)

end ArithLexer.Toml
