import MentorAllocation.Data.Dict
import MentorAllocation.Text.Json

namespace Text.Json
open Data

def isBlank (c : Char) : Bool := c == ' ' || c == '\t' || c == '\n' || c == '\r'

def skipBlanks (cs : List Char) : List Char := cs.dropWhile isBlank

def hexValue? (c : Char) : Option Nat :=
  if '0' ≤ c ∧ c ≤ '9' then some (c.toNat - '0'.toNat)
  else if 'a' ≤ c ∧ c ≤ 'f' then some (c.toNat - 'a'.toNat + 10)
  else if 'A' ≤ c ∧ c ≤ 'F' then some (c.toNat - 'A'.toNat + 10)
  else none

def hexFour (a b c d : Char) : Option Nat := do
  return ((← hexValue? a) * 16 + (← hexValue? b)) * 256 + ((← hexValue? c) * 16 + (← hexValue? d))

def unescape? (c : Char) : Option Char :=
  if c == '"' then some '"'
  else if c == '\\' then some '\\'
  else if c == '/' then some '/'
  else if c == 'b' then some (Char.ofNat 0x08)
  else if c == 'f' then some (Char.ofNat 0x0c)
  else if c == 'n' then some '\n'
  else if c == 'r' then some '\r'
  else if c == 't' then some '\t'
  else none

/-- The characters of a string up to its closing quote, and what follows. A pair of surrogates is
one character; a text with a lone one is no text here. -/
def scanString : List Char → Option (List Char × List Char)
  | '"' :: rest => some ([], rest)
  | '\\' :: 'u' :: a :: b :: c :: d :: rest => do
    let n ← hexFour a b c d
    if 0xd800 ≤ n ∧ n < 0xdc00 then
      match rest with
      | '\\' :: 'u' :: a :: b :: c :: d :: rest =>
        let low ← hexFour a b c d
        if 0xdc00 ≤ low ∧ low < 0xe000 then
          (scanString rest).map fun found =>
            (Char.ofNat (0x10000 + (n - 0xd800) * 0x400 + (low - 0xdc00)) :: found.1, found.2)
        else none
      | _ => none
    else if 0xdc00 ≤ n ∧ n < 0xe000 then none
    else (scanString rest).map fun found => (Char.ofNat n :: found.1, found.2)
  | '\\' :: e :: rest => do
    let c ← unescape? e
    (scanString rest).map fun found => (c :: found.1, found.2)
  | c :: rest =>
    if c == '\\' || c.toNat < 0x20 then none
    else (scanString rest).map fun found => (c :: found.1, found.2)
  | [] => none

def isAsciiDigit (c : Char) : Bool := '0' ≤ c && c ≤ '9'

/-- `-?` or `[-+]?` -/
def scanSign (signs : List Char) (cs : List Char) : List Char × List Char :=
  match cs with
  | c :: rest => if signs.contains c then ([c], rest) else ([], cs)
  | [] => ([], [])

/-- `0|[1-9][0-9]*` -/
def scanInteger (cs : List Char) : List Char × List Char :=
  match cs with
  | '0' :: rest => (['0'], rest)
  | cs => (cs.takeWhile isAsciiDigit, cs.dropWhile isAsciiDigit)

/-- `(\.[0-9]+)?` -/
def scanFraction (cs : List Char) : List Char × List Char :=
  match cs with
  | '.' :: rest =>
    if (rest.takeWhile isAsciiDigit).isEmpty then ([], cs)
    else ('.' :: rest.takeWhile isAsciiDigit, rest.dropWhile isAsciiDigit)
  | _ => ([], cs)

/-- `([eE][-+]?[0-9]+)?` -/
def scanExponent (cs : List Char) : List Char × List Char :=
  match cs with
  | e :: rest =>
    if e == 'e' || e == 'E' then
      let (sign, digits) := scanSign ['-', '+'] rest
      if (digits.takeWhile isAsciiDigit).isEmpty then ([], cs)
      else (e :: sign ++ digits.takeWhile isAsciiDigit, digits.dropWhile isAsciiDigit)
    else ([], cs)
  | [] => ([], [])

section
variable (floatRepr : String → String)

/-- A number; `floatRepr` is `repr(float(text))`, and an integer of more than 4300 digits is a
`ValueError`. -/
def scanNumber (cs : List Char) : Option (Json × List Char) :=
  let (sign, rest) := scanSign ['-'] cs
  let (integer, rest) := scanInteger rest
  let (fraction, rest) := scanFraction rest
  let (exponent, rest) := scanExponent rest
  if integer.isEmpty then none
  else if fraction.isEmpty && exponent.isEmpty then
    (parseInt (String.ofList (sign ++ integer))).map fun n => (.int n, rest)
  else some (.float (floatRepr (String.ofList (sign ++ integer ++ fraction ++ exponent))), rest)

mutual
/-- `scan_once`; each turn of the three functions reads a character or is followed by one that
does. -/
def scanOnce : Nat → List Char → Option (Json × List Char)
  | 0, _ => none
  | n + 1, cs => match cs with
    | [] => none
    | c :: rest =>
      if c == '"' then (scanString rest).map fun found => (.str (String.ofList found.1), found.2)
      else if c == '[' then
        if (skipBlanks rest).head? = some ']' then some (.arr [], (skipBlanks rest).tail)
        else (scanItems n (skipBlanks rest)).map fun found => (.arr found.1, found.2)
      else if c == '\x7b' then
        if (skipBlanks rest).head? = some '\x7d' then some (.obj [], (skipBlanks rest).tail)
        else (scanMembers n (skipBlanks rest)).map fun found =>
          (.obj (Dict.ofList found.1).entries, found.2)
      else if ['n', 'u', 'l', 'l'].isPrefixOf cs then some (.null, cs.drop 4)
      else if ['t', 'r', 'u', 'e'].isPrefixOf cs then some (.bool true, cs.drop 4)
      else if ['f', 'a', 'l', 's', 'e'].isPrefixOf cs then some (.bool false, cs.drop 5)
      else if ['N', 'a', 'N'].isPrefixOf cs then some (.float "nan", cs.drop 3)
      else if "Infinity".toList.isPrefixOf cs then some (.float "inf", cs.drop 8)
      else if "-Infinity".toList.isPrefixOf cs then some (.float "-inf", cs.drop 9)
      else scanNumber floatRepr cs

def scanItems : Nat → List Char → Option (List Json × List Char)
  | 0, _ => none
  | n + 1, cs => (scanOnce n cs).bind fun item =>
    match skipBlanks item.2 with
    | ',' :: rest =>
      (scanItems n (skipBlanks rest)).map fun found => (item.1 :: found.1, found.2)
    | ']' :: rest => some ([item.1], rest)
    | _ => none

def scanMembers : Nat → List Char → Option (List (String × Json) × List Char)
  | 0, _ => none
  | n + 1, cs => match cs with
    | '"' :: rest => (scanString rest).bind fun key =>
      match skipBlanks key.2 with
      | ':' :: rest => (scanOnce n (skipBlanks rest)).bind fun value =>
        match skipBlanks value.2 with
        | ',' :: rest => (scanMembers n (skipBlanks rest)).map fun found =>
          ((String.ofList key.1, value.1) :: found.1, found.2)
        | c :: rest => if c == '\x7d' then some ([(String.ofList key.1, value.1)], rest) else none
        | [] => none
      | _ => none
    | _ => none
end

/-- `json.loads`; `none` is a `ValueError`. -/
def loads (text : String) : Option Json :=
  match scanOnce floatRepr (2 * text.toList.length + 1) (skipBlanks text.toList) with
  | some (value, rest) => if (skipBlanks rest).isEmpty then some value else none
  | none => none

end

end Text.Json
