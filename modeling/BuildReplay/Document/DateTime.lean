/-!
# Dates and times

The date-times of a document: a date, a time of day, or both, with an offset from universal time
when both are there.
-/

namespace BuildReplay

structure Date where
  year : Nat
  month : Nat
  day : Nat
deriving DecidableEq, Repr

structure Time where
  hour : Nat
  minute : Nat
  second : Nat
  nanosecond : Nat
deriving DecidableEq, Repr

/-- Universal time itself, or a number of minutes ahead of it. -/
inductive Offset where
  | universal
  | minutes (ahead : Int)
deriving DecidableEq, Repr

inductive DateTime where
  | date (date : Date)
  | time (time : Time)
  | civil (date : Date) (time : Time)
  | offset (date : Date) (time : Time) (offset : Offset)
deriving DecidableEq, Repr

/-- A number with zeros in front, `width` digits at least. -/
def padded (width n : Nat) : String :=
  let digits := Nat.toDigits 10 n
  String.ofList (List.replicate (width - digits.length) '0' ++ digits)

namespace Date

def isLeap (year : Nat) : Bool := year % 4 == 0 && (year % 100 != 0 || year % 400 == 0)

/-- The number of days of a month. -/
def daysIn (year month : Nat) : Nat :=
  if month = 2 then (if isLeap year then 29 else 28)
  else if month = 4 ∨ month = 6 ∨ month = 9 ∨ month = 11 then 30
  else 31

def toText (d : Date) : String :=
  padded 4 d.year ++ "-" ++ padded 2 d.month ++ "-" ++ padded 2 d.day

end Date

/-- A time of day; its fraction has no zeros at the end. -/
def Time.toText (t : Time) : String :=
  let fraction := ((padded 9 t.nanosecond).toList.reverse.dropWhile (· == '0')).reverse
  padded 2 t.hour ++ ":" ++ padded 2 t.minute ++ ":" ++ padded 2 t.second
    ++ (if fraction.isEmpty then "" else "." ++ String.ofList fraction)

def Offset.toText : Offset → String
  | .universal => "Z"
  | .minutes ahead =>
    (if ahead < 0 then "-" else "+")
      ++ padded 2 (ahead.natAbs / 60) ++ ":" ++ padded 2 (ahead.natAbs % 60)

/-- A date-time in its normal form, with `T` between date and time. -/
def DateTime.toText : DateTime → String
  | .date d => d.toText
  | .time t => t.toText
  | .civil d t => d.toText ++ "T" ++ t.toText
  | .offset d t o => d.toText ++ "T" ++ t.toText ++ o.toText

end BuildReplay
