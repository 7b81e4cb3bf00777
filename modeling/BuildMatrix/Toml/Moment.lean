/-!
# Dates and times of TOML

A moment is a date, a time of day, or a date and a time with an optional distance
from universal time.  A reader returns what follows the moment, since nothing in
this library asks when it was.

A date has a day that its month has in its year.  A time may have a sixtieth
second and a fraction of any length.  Between date and time stands a `T` in either
case or a single blank.  A blank that no time follows ends the date.

Four digits and a dash start a date, two digits and a colon a time, and nothing
else that TOML knows starts so.  `startsMoment` therefore settles what a text is
going to be.
-/

namespace BuildMatrix.Toml

/-! ## Fields of two digits -/

/-- The number that two digits spell, between two bounds, and what follows them. -/
def twoDigits (least greatest : Nat) : List Char → Option (Nat × List Char)
  | a :: b :: rest =>
      let n := (a.toNat - 48) * 10 + (b.toNat - 48)
      if a.isDigit ∧ b.isDigit ∧ least ≤ n ∧ n ≤ greatest then some (n, rest) else none
  | _ => none

/-- What follows a character that has to be there. -/
def expect (c : Char) : List Char → Option (List Char)
  | d :: rest => if c = d then some rest else none
  | [] => none

/-! ## Dates -/

/-- Whether a year has a 29th of February. -/
def isLeap (year : Nat) : Bool := year % 4 = 0 ∧ (year % 100 ≠ 0 ∨ year % 400 = 0)

/-- The number of days of a month. -/
def daysOf (year month : Nat) : Nat :=
  if month = 2 then if isLeap year then 29 else 28
  else if month = 4 ∨ month = 6 ∨ month = 9 ∨ month = 11 then 30
  else 31

/-- Whether a text starts like a date. -/
def startsDate : List Char → Bool
  | a :: b :: c :: d :: '-' :: _ => a.isDigit && b.isDigit && c.isDigit && d.isDigit
  | _ => false

/-- What follows a date. -/
def date? (s : List Char) : Option (List Char) := do
  let (century, s) ← twoDigits 0 99 s
  let (year, s) ← twoDigits 0 99 s
  let s ← expect '-' s
  let (month, s) ← twoDigits 1 12 s
  let s ← expect '-' s
  let (_, s) ← twoDigits 1 (daysOf (century * 100 + year) month) s
  some s

/-! ## Times -/

/-- Whether a text starts like a time. -/
def startsTime : List Char → Bool
  | a :: b :: ':' :: _ => a.isDigit && b.isDigit
  | _ => false

/-- What follows a fraction of a second, if there is one. -/
def secondFraction : List Char → List Char
  | '.' :: c :: rest => if c.isDigit then rest.dropWhile Char.isDigit else '.' :: c :: rest
  | s => s

/-- What follows hours and minutes. -/
def hoursMinutes? (s : List Char) : Option (List Char) := do
  let (_, s) ← twoDigits 0 23 s
  let s ← expect ':' s
  let (_, s) ← twoDigits 0 59 s
  some s

/-- What follows a time. -/
def time? (s : List Char) : Option (List Char) := do
  let s ← hoursMinutes? s
  let s ← expect ':' s
  let (_, s) ← twoDigits 0 60 s
  some (secondFraction s)

/-- What follows a distance from universal time, if there is one. -/
def offset? : List Char → Option (List Char)
  | c :: rest =>
      if c = 'Z' ∨ c = 'z' then some rest
      else if c = '+' ∨ c = '-' then hoursMinutes? rest
      else some (c :: rest)
  | [] => some []

/-! ## Moments -/

/-- Whether a text starts like a moment. -/
def startsMoment (s : List Char) : Bool := startsDate s || startsTime s

/-- What follows a time and its distance from universal time after a date, if there is a time. -/
def timeOfDay? : List Char → Option (List Char)
  | c :: rest =>
      if (c = 'T' ∨ c = 't' ∨ c = ' ') ∧ startsTime rest then time? rest >>= offset?
      else some (c :: rest)
  | [] => some []

/-- What follows a moment. -/
def moment? (s : List Char) : Option (List Char) :=
  if startsDate s then date? s >>= timeOfDay? else time? s

/-! ## Tests -/

example : moment? "1979-05-27 07:32:00.5-07:00#".toList = some ['#'] := by decide +kernel
example : moment? "1979-05-27 # day".toList = some " # day".toList := by decide +kernel
example : moment? "2023-02-29".toList = none ∧ moment? "2024-02-29".toList = some [] := by
  decide +kernel
example : moment? "23:59:60".toList = some [] ∧ moment? "24:00:00".toList = none := by
  decide +kernel

end BuildMatrix.Toml
