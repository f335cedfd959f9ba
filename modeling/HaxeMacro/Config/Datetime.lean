import HaxeMacro.Decimal.Read
import HaxeMacro.Parser.Token

/-! # Dates and times

Days of the calendar and times of the day, alone or together, the latter perhaps with a zone. They
stand in settings files as they are, and inside strings, where the reader allows a little more.
-/

namespace HaxeMacro

structure Date where
  year : Nat
  month : Nat
  day : Nat
  deriving DecidableEq, Repr

structure TimeOfDay where
  hour : Nat
  minute : Nat
  second : Nat
  nanosecond : Nat
  deriving DecidableEq, Repr

inductive Zone where
  | universal
  /-- Minutes before or after universal time. -/
  | minutes (offset : Int)
  deriving DecidableEq, Repr

inductive Datetime where
  | day (d : Date)
  | time (t : TimeOfDay)
  | moment (d : Date) (t : TimeOfDay) (zone : Option Zone)
  deriving DecidableEq, Repr

/-! ## The calendar -/

def isLeap (year : Nat) : Bool := year % 4 == 0 && (year % 100 != 0 || year % 400 == 0)

def daysIn (year month : Nat) : Nat :=
  if month = 2 then (if isLeap year then 29 else 28)
  else if month = 4 ∨ month = 6 ∨ month = 9 ∨ month = 11 then 30 else 31

/-! ## Texts -/

/-- The last `count` decimal digits of `n`. -/
def fixedDigits : (count n : Nat) → List Char
  | 0, _ => []
  | count + 1, n => fixedDigits count (n / 10) ++ [Nat.digitChar (n % 10)]

def dropZerosRight (digits : List Char) : List Char :=
  (digits.reverse.dropWhile (· == '0')).reverse

def Date.chars (d : Date) : List Char :=
  fixedDigits 4 d.year ++ '-' :: fixedDigits 2 d.month ++ '-' :: fixedDigits 2 d.day

/-- The fraction of a second is left out if there is none. -/
def TimeOfDay.chars (t : TimeOfDay) : List Char :=
  fixedDigits 2 t.hour ++ ':' :: fixedDigits 2 t.minute ++ ':' :: fixedDigits 2 t.second ++
    match dropZerosRight (fixedDigits 9 t.nanosecond) with
    | [] => []
    | fraction => '.' :: fraction

def Zone.chars : Zone → List Char
  | universal => ['Z']
  | minutes offset =>
    (if offset < 0 then '-' else '+') :: fixedDigits 2 (offset.natAbs / 60) ++
      ':' :: fixedDigits 2 (offset.natAbs % 60)

def Datetime.chars : Datetime → List Char
  | day d => d.chars
  | time t => t.chars
  | moment d t zone => d.chars ++ 'T' :: t.chars ++ (zone.map Zone.chars).getD []

def Datetime.text (d : Datetime) : String := String.ofList d.chars

/-! ## Reading -/

namespace DatetimeReader

open HaxeMacro.Parser Token Text

/-- The greatest numbers on a clock, where they depend on the place. -/
structure ClockLimits where
  hour : Nat
  zoneHour : Nat
  zoneMinute : Nat

/-- The limits in a settings file. -/
def bare : ClockLimits := ⟨23, 23, 59⟩

/-- The limits inside a string. -/
def quoted : ClockLimits := ⟨24, 99, 99⟩

def number (count low high : Nat) : Parser Nat := fun s =>
  let ds := s.take count
  let n := Decimal.digitsValue 10 ds
  if ds.length = count ∧ ds.all isDigit ∧ low ≤ n ∧ n ≤ high then .done n (s.drop count)
  else .refused s

def date : Parser Date := do
  let year ← number 4 0 9999
  text "-"
  let month ← number 2 1 12
  text "-"
  let day ← number 2 1 (daysIn year month)
  return { year, month, day }

/-- The fraction of a second in nanoseconds; what is smaller is dropped. -/
def fraction : Parser Nat := do
  text "."
  let ds ← span1 isDigit
  return Decimal.digitsValue 10 ((ds ++ List.replicate 9 '0').take 9)

def time (limits : ClockLimits) : Parser TimeOfDay := do
  let hour ← number 2 0 limits.hour
  text ":"
  let minute ← number 2 0 59
  text ":"
  let second ← number 2 0 60
  let nanosecond := (← optional fraction).getD 0
  return { hour, minute, second, nanosecond }

/-- A zone is at most a day away from universal time. -/
def zone (limits : ClockLimits) : Parser Zone := or
  (do let _ ← char fun c => c == 'Z' || c == 'z'; return .universal)
  (do
    let sign ← char fun c => c == '+' || c == '-'
    let hours ← number 2 0 limits.zoneHour
    text ":"
    let minutes ← number 2 0 limits.zoneMinute
    let offset : Int := hours * 60 + minutes
    if offset ≤ 24 * 60 then return .minutes (if sign == '-' then -offset else offset) else refuse)

def datetime (limits : ClockLimits) : Parser Datetime := or
  (do
    let d ← date
    let clock ← optional do
      let _ ← char fun c => c == 'T' || c == 't' || c == ' '
      let t ← time limits
      return (t, ← optional (zone limits))
    return match clock with
      | none => .day d
      | some (t, z) => .moment d t z)
  (do return .time (← time limits))

end DatetimeReader

def Datetime.ofText? (text : String) : Option Datetime :=
  match DatetimeReader.datetime DatetimeReader.quoted text.toList with
  | .done d [] => some d
  | _ => none

end HaxeMacro
