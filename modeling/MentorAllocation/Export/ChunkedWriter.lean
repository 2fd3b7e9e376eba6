import MentorAllocation.Data.Dict
import MentorAllocation.Export.ExcelWriter

namespace Export
open Text Data

/-- The lines of a file or of a sheet, its header first. -/
abbrev Table := List (List String)

structure ExportedFile where
  path : String
  rowCount : Nat
  sheets : List (String × Nat) := []

structure ExportResult where
  files : List ExportedFile
  totalRows : Nat

structure CsvRun where
  disk : String → Option Table
  files : List ExportedFile := []
  totalRows : Nat := 0

def CsvRun.result (run : CsvRun) : ExportResult := ⟨run.files, run.totalRows⟩

structure XlsxRun where
  worksheets : List (String × Table) := []
  rowCounts : Dict String Nat := .empty
  totalRows : Nat := 0

namespace ExportWriter
variable (W : ExportWriter) (nfkc : String → String) (columns : List String)

def chunkTable (chunk : List Xlsx.RawRow) : Table :=
  columns :: chunk.map (W.prepareColumns nfkc columns)

/-- `_write_csv_chunk` and the record of its file. -/
def writeCsvChunk (pathFactory : Nat → String) (run : CsvRun)
    (numbered : List Xlsx.RawRow × Nat) : CsvRun :=
  let (chunk, index) := numbered
  let path := pathFactory index
  { disk := Function.update run.disk path (some (W.chunkTable nfkc columns chunk))
    files := run.files ++ [{ path, rowCount := chunk.length }]
    totalRows := run.totalRows + chunk.length }

def writeCsv (pathFactory : Nat → String) (disk : String → Option Table)
    (rows : List Xlsx.RawRow) : CsvRun :=
  ((chunkIterable W.chunkSize [] rows).zipIdx 1).foldl
    (W.writeCsvChunk nfkc columns pathFactory) { disk }

variable (writeOnlyCell : String → Option String)

/-- A sheet with a chunk of rows. `writeOnlyCell` is what openpyxl makes of a text. -/
def appendSheet (run : XlsxRun) (numbered : List Xlsx.RawRow × Nat) : Option XlsxRun := do
  let (chunk, index) := numbered
  let table ← (W.chunkTable nfkc columns chunk).mapM fun line => line.mapM writeOnlyCell
  pure {
    worksheets := run.worksheets ++ [(sheetName index, table)]
    rowCounts := run.rowCounts.set (sheetName index) chunk.length
    totalRows := run.totalRows + chunk.length }

/-- The workbook; without rows it has one sheet with the header alone. -/
def workbook (rows : List Xlsx.RawRow) : Option XlsxRun := do
  let run ← ((chunkIterable W.chunkSize [] rows).zipIdx 1).foldlM
    (W.appendSheet nfkc columns writeOnlyCell) {}
  if run.rowCounts.entries.isEmpty then
    let header ← columns.mapM writeOnlyCell
    pure { run with
      worksheets := run.worksheets ++ [(sheetName 1, [header])]
      rowCounts := run.rowCounts.set (sheetName 1) 0 }
  else pure run

/-- The sheets that are saved and the result that lists them; where openpyxl refuses a text
nothing is saved. -/
def writeXlsx (pathFactory : Nat → String) (rows : List Xlsx.RawRow) :
    Option (List (String × Table) × ExportResult) := do
  let run ← W.workbook nfkc columns writeOnlyCell rows
  pure (run.worksheets, {
    files := [{
      path := pathFactory 1, rowCount := run.totalRows
      sheets := sortedCounts run.rowCounts.entries }]
    totalRows := run.totalRows })

end ExportWriter

/-- The files of a result as they are on the disk, each with its recorded count. -/
def CsvRun.listed (run : CsvRun) : List (Table × Nat) :=
  run.files.map fun file => ((run.disk file.path).getD [], file.rowCount)

/-- The sheets of a result as they are in the workbook, each with its recorded count. -/
def listedSheets (worksheets : List (String × Table)) (result : ExportResult) :
    List (Table × Nat) :=
  result.files.flatMap fun file => file.sheets.map fun (title, count) =>
    ((worksheets.lookup title).getD [], count)

end Export
