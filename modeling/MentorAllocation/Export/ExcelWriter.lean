import MentorAllocation.Export.Models
import MentorAllocation.Xlsx.Writer

namespace Export
open Text

def exportColumns : List String :=
  ["national_id", "counter", "first_name", "last_name", "gender", "mobile", "reg_center",
   "reg_status", "group_code", "student_type", "school_code", "mentor_id", "mentor_name",
   "mentor_mobile", "allocation_date", "year_code"]

/-- In the order of the columns; the source has a set. -/
def numericColumns : List String :=
  ["national_id", "counter", "gender", "mobile", "reg_center", "reg_status", "group_code",
   "student_type", "school_code", "mentor_id", "mentor_mobile", "year_code"]

def phoneColumns : List String := ["mobile", "mentor_mobile"]

def textColumns : List String :=
  ["national_id", "counter", "first_name", "last_name", "mentor_id", "mentor_name", "year_code"]

def riskyPrefixes : List Char := ['=', '+', '-', '@', '\t', '\x27', '"']

def guardFormula (value : String) : String :=
  match value.toList with
  | [] => value
  | first :: rest =>
    if !riskyPrefixes.contains first then value
    else if first == '\x27' && rest.head?.any riskyPrefixes.contains then value
    else "'" ++ value

def zfill (width : Nat) (text : String) : String :=
  let zeros := List.replicate (width - text.length) '0'
  match text.toList with
  | '+' :: rest => String.ofList ('+' :: (zeros ++ rest))
  | '-' :: rest => String.ofList ('-' :: (zeros ++ rest))
  | cs => String.ofList (zeros ++ cs)

structure ExportWriter where
  sensitive : List String
  newline : String
  includeBom : Bool
  chunkSize : Nat
  formulaGuard : Bool

def sheetName (index : Nat) : String := "Sheet_" ++ zeroPad 3 index

/-- `_chunk_iterable`, with the chunk gathered so far. -/
def chunkIterable {α : Type} (size : Nat) (chunk : List α) : List α → List (List α)
  | [] => if chunk.isEmpty then [] else [chunk]
  | row :: rows =>
    let chunk := chunk ++ [row]
    if size ≤ chunk.length then chunk :: chunkIterable size [] rows
    else chunkIterable size chunk rows

namespace ExportWriter
variable (W : ExportWriter) (nfkc : String → String)

def prepareText (column text : String) : String :=
  let text :=
    if text.toList.all (·.toNat < 128) then text
    else if phoneColumns.contains column then Xlsx.sanitizePhone nfkc text
    else if textColumns.contains column then normalizeText nfkc text
    else text
  let text := if W.formulaGuard then guardFormula text else text
  if column == "school_code" && !text.isEmpty then
    match parseInt text with
    | some n => zeroPad 6 n
    | none => zfill 6 text
  else text

/-- `_prepare_row` for any columns and a raw mapping. -/
def prepareColumns (columns : List String) (raw : Xlsx.RawRow) : List String :=
  columns.map fun column => W.prepareText nfkc column (Xlsx.rawText raw column)

/-- The row of a normalised record under the default columns. -/
def prepareRow (raw : Row) : List String :=
  exportColumns.map fun column => W.prepareText nfkc column ((raw.lookup column).getD "")

def table (rows : List Row) : List (List String) :=
  exportColumns :: rows.map (W.prepareRow nfkc)

def csvSafety : Json :=
  .obj [("normalized", .bool true), ("digit_folded", .bool true),
    ("formula_guard", .bool W.formulaGuard), ("always_quote", .bool !W.sensitive.isEmpty),
    ("always_quote_columns", .arr (W.sensitive.map .str)), ("newline", .str W.newline),
    ("bom", .bool W.includeBom), ("numeric_columns", .arr (numericColumns.map .str))]

def xlsxSafety : Json :=
  .obj [("normalized", .bool true), ("digit_folded", .bool true),
    ("formula_guard", .bool W.formulaGuard),
    ("sensitive_text_columns", .arr (W.sensitive.map .str)),
    ("numeric_columns", .arr (numericColumns.map .str)), ("backend", .str "openpyxl"),
    ("write_only", .bool true), ("rtl", .bool true)]

/-- The sheets of the workbook; without rows there is one with the header alone. -/
def sheets (rows : List Row) : List (String × List (List String)) :=
  let chunks := chunkIterable W.chunkSize [] rows
  let chunks := if chunks.isEmpty then [[]] else chunks
  chunks.zipIdx.map fun (chunk, index) => (sheetName (index + 1), W.table nfkc chunk)

end ExportWriter

def rowCounts (sheets : List (String × List (List String))) : List (String × Nat) :=
  sheets.map fun (title, lines) => (title, lines.length - 1)

/-- `sorted(row_counts.items())`; no two sheets share a title. -/
def sortedCounts (counts : List (String × Nat)) : List (String × Nat) :=
  counts.mergeSort fun a b => a.1 ≤ b.1

end Export
