import Mathlib.Data.List.Sort
import MentorAllocation.Text.Python

namespace Text

/-- A JSON value as the standard library sees it. A float is kept as its `repr`. -/
inductive Json where
  | null
  | bool (b : Bool)
  | int (n : Int)
  | float (repr : String)
  | str (s : String)
  | arr (items : List Json)
  | obj (members : List (String × Json))
  deriving Repr

namespace Json

def hexDigit (n : Nat) : Char := (Nat.toDigits 16 n).getLastD '0'

def escape (c : Char) : List Char :=
  if c == '"' then ['\\', '"']
  else if c == '\\' then ['\\', '\\']
  else if c == '\n' then ['\\', 'n']
  else if c == '\r' then ['\\', 'r']
  else if c == '\t' then ['\\', 't']
  else if c.toNat == 0x08 then ['\\', 'b']
  else if c.toNat == 0x0c then ['\\', 'f']
  else if c.toNat < 0x20 then
    ['\\', 'u', '0', '0', hexDigit (c.toNat / 16), hexDigit (c.toNat % 16)]
  else [c]

def quote (s : String) : String :=
  String.ofList ('"' :: s.toList.flatMap escape ++ ['"'])

/-- The keyword arguments of `json.dumps` that the program passes. -/
structure Style where
  itemSeparator : String := ", "
  keySeparator : String := ": "
  sortKeys : Bool := false

/-- `separators=(",", ":")`. -/
def Style.compact : Style := { itemSeparator := ",", keySeparator := ":" }

def ordered (style : Style) (members : List (String × String)) : List (String × String) :=
  if style.sortKeys then members.insertionSort (fun a b => a.1 ≤ b.1) else members

/-- A float as `json.dumps` writes it: its `repr`, but for the three that are not finite. -/
def floatText (repr : String) : String :=
  if repr = "nan" then "NaN" else if repr = "inf" then "Infinity"
  else if repr = "-inf" then "-Infinity" else repr

mutual
/-- `json.dumps(value, ensure_ascii=False, ...)`. -/
def dumps (style : Style) : Json → String
  | .null => "null"
  | .bool true => "true"
  | .bool false => "false"
  | .int n => toString n
  | .float repr => floatText repr
  | .str s => quote s
  | .arr items => "[" ++ style.itemSeparator.intercalate (dumpsItems style items) ++ "]"
  | .obj members =>
    "\x7b" ++ style.itemSeparator.intercalate ((ordered style (dumpsMembers style members)).map
      (fun kv => quote kv.1 ++ style.keySeparator ++ kv.2)) ++ "\x7d"

def dumpsItems (style : Style) : List Json → List String
  | [] => []
  | v :: vs => dumps style v :: dumpsItems style vs

def dumpsMembers (style : Style) : List (String × Json) → List (String × String)
  | [] => []
  | (k, v) :: rest => (k, dumps style v) :: dumpsMembers style rest
end

end Json

end Text
