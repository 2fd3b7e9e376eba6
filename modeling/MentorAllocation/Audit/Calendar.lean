import MentorAllocation.Text.Timestamp

namespace Audit
open Text

/-- What is raised, with the texts that the code gives itself. -/
inductive Raised where
  | valueError (message : String)
  | typeError
  | keyError
  | attributeError
  | osError
  | databaseError (message : String)
  | archiveFailure (message : String)
  deriving DecidableEq, Repr

/-- An aware `datetime`: the clock on the wall and the offset of its zone, times in microseconds. -/
structure DateTime where
  year : Nat
  month : Nat
  day : Nat
  time : Nat
  utcoffset : Int
  deriving DecidableEq, Repr

def dayLength : Int := 86400000000

namespace DateTime

/-- The time in UTC, by which values of different zones are compared and subtracted. -/
def instant (t : DateTime) : Int := ordinal t.year t.month t.day * dayLength + t.time - t.utcoffset

def daysSince (t s : DateTime) : Int := (t.instant - s.instant) / dayLength

/-- The months of `plan`, by the years and months on the wall. -/
def monthsSince (t s : DateTime) : Int :=
  ((t.year : Int) - s.year) * 12 + ((t.month : Int) - s.month)

def clock (time : Nat) : String × String × String :=
  (zeroPad 2 (time / 3600000000), zeroPad 2 (time / 60000000 % 60), zeroPad 2 (time / 1000000 % 60))

def fraction (time : Nat) : String :=
  if time % 1000000 = 0 then "" else "." ++ zeroPad 6 (time % 1000000)

def offsetText (offset : Int) : String :=
  let (hours, minutes, seconds) := clock offset.natAbs
  (if offset < 0 then "-" else "+") ++ hours ++ ":" ++ minutes ++
    if offset.natAbs % 60000000 = 0 then "" else ":" ++ seconds ++ fraction offset.natAbs

def isoformat (t : DateTime) : String :=
  let (hours, minutes, seconds) := clock t.time
  zeroPad 4 t.year ++ "-" ++ zeroPad 2 t.month ++ "-" ++ zeroPad 2 t.day ++ "T" ++
    hours ++ ":" ++ minutes ++ ":" ++ seconds ++ fraction t.time ++ offsetText t.utcoffset

end DateTime

/-- A time zone, as far as it is asked for midnights. Its offsets are of less than a day. -/
structure ZoneInfo where
  midnightOffset : (year month day : Nat) → Int
  offset_lt : ∀ year month day, (midnightOffset year month day).natAbs < 86400000000

/-- `datetime(year, month, 1, tzinfo=tz)`. -/
def ZoneInfo.monthStart (tz : ZoneInfo) (year month : Nat) : Except Raised DateTime :=
  if 1 ≤ year ∧ year ≤ 9999 then
    if 1 ≤ month ∧ month ≤ 12 then .ok ⟨year, month, 1, 0, tz.midnightOffset year month 1⟩
    else .error (.valueError "month must be in 1..12")
  else .error (.valueError ("year " ++ zeroPad 0 year ++ " is out of range"))

/-- Inclusive start, exclusive end. -/
structure AuditArchiveWindow where
  monthKey : String
  start : DateTime
  stop : DateTime
  deriving DecidableEq, Repr

/-- `_MONTH_KEY_RE.match`; `$` also matches before a last line break. -/
def isMonthKey (text : String) : Bool :=
  match text.toList with
  | y :: e :: a :: r :: '_' :: m :: o :: rest =>
    [y, e, a, r, m, o].all isDecimal && (rest == [] || rest == ['\n'])
  | _ => false

def intOfPart (cs : List Char) : Except Raised Nat :=
  match parseInt (String.ofList cs) with
  | some n => .ok n.toNat
  | none => .error (.valueError "invalid literal for int() with base 10")

def windowOf (tz : ZoneInfo) (monthKey : String) : Except Raised AuditArchiveWindow := do
  if !isMonthKey monthKey then
    throw (.valueError
      "CONFIG_VALIDATION_ERROR: پیکربندی ماه نامعتبر است؛ مقادیر نگه‌داری را بررسی کنید.")
  let year ← intOfPart (monthKey.toList.take 4)
  let month ← intOfPart ((monthKey.toList.drop 5).take 2)
  let start ← tz.monthStart year month
  let stop ← if month = 12 then tz.monthStart (year + 1) 1 else tz.monthStart year (month + 1)
  return ⟨monthKey, start, stop⟩

end Audit
