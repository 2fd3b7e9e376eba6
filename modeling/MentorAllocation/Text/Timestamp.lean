import Mathlib
import MentorAllocation.Text.Python

namespace Text

/-- One piece of a pattern: its alternatives in the order they are tried, each by the classes
of its characters. -/
abbrev Piece := List (List (Char → Bool))

def range (first last : Char) (c : Char) : Bool := first ≤ c && c ≤ last

/-- A letter of a format matches in either case. -/
def letter (upper : Char) : Piece := [[fun c => c == upper || c == upper.toLower]]

/-- `%Y`. -/
def yearPiece : Piece := [[isDecimal, isDecimal, isDecimal, isDecimal]]

/-- `%m`. -/
def monthPiece : Piece :=
  [[(· == '1'), range '0' '2'], [(· == '0'), range '1' '9'], [range '1' '9']]

/-- `%d`. -/
def dayPiece : Piece :=
  [[(· == '3'), range '0' '1'], [range '1' '2', isDecimal], [(· == '0'), range '1' '9'],
   [range '1' '9'], [(· == ' '), range '1' '9']]

/-- `%H`. -/
def hourPiece : Piece := [[(· == '2'), range '0' '3'], [range '0' '1', isDecimal], [isDecimal]]

/-- `%M`. -/
def minutePiece : Piece := [[range '0' '5', isDecimal], [isDecimal]]

/-- `%S`. -/
def secondPiece : Piece :=
  [[(· == '6'), range '0' '1'], [range '0' '5', isDecimal], [isDecimal]]

def matchClasses : List (Char → Bool) → List Char → Option (List Char × List Char)
  | [], cs => some ([], cs)
  | _ :: _, [] => none
  | p :: ps, c :: cs =>
    if p c then (matchClasses ps cs).map fun found => (c :: found.1, found.2) else none

/-- The first match of the pieces one after the other, and what is left of the text. -/
def matchPieces : List Piece → List Char → Option (List String × List Char)
  | [], cs => some ([], cs)
  | piece :: pieces, cs => piece.findSome? fun classes =>
    (matchClasses classes cs).bind fun found =>
      (matchPieces pieces found.2).map fun later => (String.ofList found.1 :: later.1, later.2)

def isLeap (year : Int) : Bool := year % 4 == 0 && (year % 100 != 0 || year % 400 == 0)

def daysInMonth (year : Int) (month : Nat) : Int :=
  if month == 2 then (if isLeap year then 29 else 28)
  else if [4, 6, 9, 11].contains month then 30
  else 31

/-- Days from the first day of year 1. -/
def ordinal (year : Int) (month : Nat) (day : Int) : Int :=
  365 * (year - 1) + (year - 1) / 4 - (year - 1) / 100 + (year - 1) / 400 +
    ((List.range (month - 1)).map fun m => daysInMonth year (m + 1)).sum + (day - 1)

/-- `datetime.strptime(text, "%Y%m%dT%H%M%SZ")` in microseconds from the start of year 1;
`none` is its `ValueError`. -/
def strptime (text : String) : Option Int :=
  match matchPieces [yearPiece, monthPiece, dayPiece, letter 'T', hourPiece, minutePiece,
      secondPiece, letter 'Z'] text.toList with
  | some ([year, month, day, _, hour, minute, second, _], []) => do
    let year ← parseInt year
    let month ← parseInt month
    let day ← parseInt day
    let hour ← parseInt hour
    let minute ← parseInt minute
    let second ← parseInt second
    if 1 ≤ year ∧ day ≤ daysInMonth year month.toNat ∧ second ≤ 59 then
      some (((ordinal year month.toNat day * 24 + hour) * 60 + minute) * 60 * 1000000 +
        second * 1000000)
    else none
  | _ => none

end Text
