import MentorAllocation.Export.ExternalSorter

namespace Xlsx
open Text Export

abbrev Bytes := List UInt8

/-- The library functions that exports go through: the normal forms of `unicodedata`,
`str.lower`, SHA-256 in hexadecimal, the name-based UUIDs of `NAMESPACE_URL` in
hexadecimal, and the workbook that `openpyxl` saves for named sheets of rows. -/
structure Library where
  nfc : String → String
  nfkc : String → String
  lower : String → String
  sha256 : Bytes → String
  uuid5Hex : String → String
  workbook : List (String × List (List String)) → Bytes

def plainLibrary : Library where
  nfc := id
  nfkc := id
  lower := id
  sha256 := fun content => intText content.length
  uuid5Hex := id
  workbook := fun _ => []

def sensitiveColumns : List String :=
  ["national_id", "counter", "mobile", "mentor_id", "school_code"]

def exportColumns : List String :=
  ["national_id", "counter", "first_name", "last_name", "gender", "mobile", "reg_center",
   "reg_status", "group_code", "student_type", "school_code", "mentor_id", "mentor_name",
   "mentor_mobile", "allocation_date", "year_code"]

def zeroWidthPattern : List Char := ['\u200b', '\u200c', '\u200d']

/-- `re.sub(r"\s+", " ", ·)`; `inside` a run of white space. -/
def whitespaceCollapse (inside : Bool) : List Char → List Char
  | [] => []
  | c :: cs =>
    if isSpace c then
      if inside then whitespaceCollapse true cs else ' ' :: whitespaceCollapse true cs
    else c :: whitespaceCollapse false cs

def normalizeText (nfc : String → String) (value : String) : String :=
  let normalized := translate [('\u064a', 'ی'), ('\u0643', 'ک')] (nfc value)
  let normalized := remove zeroWidthPattern normalized
  let normalized := translate [('\r', ' '), ('\n', ' ')] normalized
  let kept := normalized.toList.filter fun c => !controlPattern c
  strip (String.ofList (whitespaceCollapse false kept))

def normalizeDigitsAscii (value : String) : String := translate easternDigits value

def normalizeDigitsFa (value : String) : String :=
  translate [('0', '۰'), ('1', '۱'), ('2', '۲'), ('3', '۳'), ('4', '۴'), ('5', '۵'),
    ('6', '۶'), ('7', '۷'), ('8', '۸'), ('9', '۹')] value

def maxCellLength : Nat := 32767

def riskyPrefixes : List Char := ['=', '+', '-', '@', '\t', '\r', '\n']

def safeCell (text : String) : String :=
  let text := if text.toList.head?.any riskyPrefixes.contains then "'" ++ text else text
  let text := strip (translate [('\r', ' '), ('\n', ' ')] text)
  if maxCellLength < text.length then
    String.ofList (text.toList.take (maxCellLength - 1)) ++ "…"
  else text

def sanitizePhone (nfkc : String → String) (value : String) : String :=
  String.ofList ((Export.normalizeText nfkc value).toList.filter isDigit)

abbrev RawRow := List (String × Cell)

/-- `"" if raw_value is None else str(raw_value)` -/
def rawText (raw : RawRow) (column : String) : String :=
  match raw.lookup column with
  | some (.str text) | some (.other text) => text
  | some .none | none => ""

def prepareValue (L : Library) (column raw : String) : String :=
  let normalized := normalizeText L.nfc raw
  let normalized :=
    if column == "school_code" && !normalized.isEmpty then
      match parseInt normalized with
      | some n => zeroPad 6 n
      | none => normalizeDigitsAscii normalized
    else normalized
  if sensitiveColumns.contains column then
    let asciiValue := normalizeDigitsAscii normalized
    if column == "mobile" then sanitizePhone L.nfkc asciiValue else asciiValue
  else safeCell (normalizeDigitsFa normalized)

def prepareRow (L : Library) (raw : RawRow) : Row :=
  exportColumns.map fun column => (column, prepareValue L column (rawText raw column))

/-- `iter_chunks`, with the batch gathered so far. -/
def iterChunks {α : Type} (chunkSize : Nat) (batch : List α) : List α → List (List α)
  | [] => if batch.isEmpty then [] else [batch]
  | item :: items =>
    let batch := batch ++ [item]
    if batch.length == chunkSize then batch :: iterChunks chunkSize [] items
    else iterChunks chunkSize batch items

def sheetTemplate (index : Nat) : String := "Sheet_" ++ zeroPad 3 index

/-- The sheets of `XLSXStreamWriter.write`, which prepares rows that are prepared
already once more. -/
def sheets (L : Library) (chunkSize : Nat) (rows : List Row) :
    List (String × List (List String)) :=
  let chunks := iterChunks chunkSize [] rows
  let chunks := if chunks.isEmpty then [[]] else chunks
  chunks.zipIdx.map fun (chunk, index) =>
    (sheetTemplate (index + 1), exportColumns :: chunk.map fun row =>
      (prepareRow L (row.map fun (column, text) => (column, .str text))).map Prod.snd)

def rowCounts (sheets : List (String × List (List String))) : List (String × Nat) :=
  sheets.map fun (title, lines) => (title, lines.length - 1)

/-- One line of `csv` with every field quoted. -/
def csvLine (fields : List String) : String :=
  ",".intercalate (fields.map fun field =>
    "\"" ++ String.ofList (field.toList.flatMap fun c => if c == '"' then ['"', '"'] else [c]) ++
      "\"") ++ "\r\n"

def csvText (rows : List Row) : String :=
  String.join ((exportColumns :: rows.map fun row =>
    exportColumns.map fun column => (row.lookup column).getD "").map csvLine)

def utf8 (text : String) : Bytes := text.toUTF8.toList

end Xlsx
