import MentorAllocation.Data.Dict
import MentorAllocation.Export.ExternalSorter
import MentorAllocation.Text.Csv

namespace Export
open Text Data Csv

/-- `"" if value is None else str(value)` -/
def Cell.text : Cell → String
  | .none => ""
  | .str s => s
  | .other text => text

namespace CsvWriter

def formulaPrefixes : List Char := ['=', '+', '-', '@']

def zeroWidthTranslation : List Char := ['\u200b', '\u200c', '\u200d', '\ufeff']

def yaKeTranslation : List (Char × Char) := [('\u064a', 'ی'), ('\u0643', 'ک')]

/-- `normalize_cell`; `nfkc` is `unicodedata.normalize("NFKC", ·)`. -/
def normalizeCell (nfkc : String → String) (value : Cell) : String :=
  let text := nfkc value.text
  let text := Text.translate yaKeTranslation text
  let text := Text.translate easternDigits text
  let text := remove zeroWidthTranslation text
  let text := Text.translate [('\r', ' '), ('\n', ' ')] text
  let text := String.ofList (text.toList.filter fun c => ' ' ≤ c)
  strip text

def guardFormula (nfkc : String → String) (text : String) (raw : Cell) : String :=
  if text.isEmpty then text
  else
    let candidate := remove zeroWidthTranslation (nfkc raw.text)
    match candidate.toList.dropWhile isSpace with
    | [] => text
    | first :: _ => if formulaPrefixes.contains first || first == '\t' then "'" ++ text else text

/-- A row by the names of its columns, or as they come. -/
inductive CsvRow where
  | mapping (row : Dict String Cell)
  | sequence (cells : List Cell)

/-- The raw values of a row under the header. -/
def CsvRow.cells (header : List String) : CsvRow → List Cell
  | .mapping row => header.map fun column => (row.get? column).getD (.str "")
  | .sequence cells => cells

def prepare (nfkc : String → String) (raw : Cell) : String :=
  guardFormula nfkc (normalizeCell nfkc raw) raw

/-- `_ensure_sequence`; the text of its `ValueError`. -/
def ensureSequence (nfkc : String → String) (header : List String) (row : CsvRow) :
    Except String (List String) :=
  match row with
  | .mapping _ => .ok ((row.cells header).map (prepare nfkc))
  | .sequence seq =>
    if seq.length ≠ header.length then .error "Row length does not match header length"
    else .ok (seq.map (prepare nfkc))

def renderValue (value : String) (forceQuote : Bool) : List Char :=
  let escaped := escape value.toList
  if forceQuote || escaped.contains ',' || escaped.contains '\r' || escaped.contains '\n' then
    '"' :: (escaped ++ ['"'])
  else escaped

def serializeRow (values : List String) (quoteMask : List Bool) (newline : String) : List Char :=
  [','].intercalate (List.zipWith renderValue values quoteMask) ++ newline.toList

inductive SensitiveFields where
  | names (fields : List String)
  | indices (listed : List Int)

/-- `idx in sensitive_set`; of two columns of one name only the first is in the set. -/
def SensitiveFields.covers (header : List String) : SensitiveFields → Nat → Bool
  | .names fields, idx => fields.any fun field => header.idxOf? field == some idx
  | .indices listed, idx => listed.contains (idx : Int)

structure CsvOptions where
  includeBom : Bool := true
  newline : String := "\r\n"

def quoteMask (header : List String) (sensitive : SensitiveFields) : List Bool :=
  (List.range header.length).map (sensitive.covers header)

def serializeRows (nfkc : String → String) (header : List String) (sensitive : SensitiveFields)
    (newline : String) : List CsvRow → Except String (List Char)
  | [] => .ok []
  | row :: rows => do
    let ordered ← ensureSequence nfkc header row
    let rest ← serializeRows nfkc header sensitive newline rows
    return serializeRow ordered (quoteMask header sensitive) newline ++ rest

def writeCsvAtomic (nfkc : String → String) (header : List String) (sensitive : SensitiveFields)
    (options : CsvOptions) (rows : List CsvRow) : Except String (List Char) := do
  let bom := if options.includeBom then ['\ufeff'] else []
  let headerLine := serializeRow (header.map fun item => normalizeCell nfkc (.str item))
    (List.replicate header.length true) options.newline
  let lines ← serializeRows nfkc header sensitive options.newline rows
  return bom ++ headerLine ++ lines

def afterBom : List Char → List Char
  | '\ufeff' :: text => text
  | text => text

end CsvWriter

end Export
