import Mathlib.Algebra.Order.BigOperators.Group.List
import MentorAllocation.Data.Chunks
import MentorAllocation.Data.Options
import MentorAllocation.Export.ChunkedWriter
import MentorAllocation.Text.Padding

namespace Export
open Text Data ExportWriter

section
variable {α : Type} {size : Nat} {rows : List α}

/-- With a chunk gathered in part, the iterator gives the rest of it and goes on behind it. -/
theorem chunkIterable_gathered (gathered rows : List α) (h : gathered.length < size) :
    chunkIterable size gathered rows =
      if (gathered ++ rows).isEmpty then []
      else (gathered ++ rows).take size :: chunkIterable size []
        ((gathered ++ rows).drop size) := by
  induction rows generalizing gathered with
  | nil =>
    rw [chunkIterable, List.append_nil, List.take_of_length_le h.le, List.drop_of_length_le h.le,
      chunkIterable]
    rfl
  | cons row rows ih =>
    have hne : ¬ (gathered ++ row :: rows).isEmpty = true := by simp
    rw [chunkIterable, if_neg hne]
    have hlength : (gathered ++ [row]).length = gathered.length + 1 := by simp
    have happend : gathered ++ row :: rows = gathered ++ [row] ++ rows := by simp
    split
    · next hfull =>
      have hexact : (gathered ++ [row]).length = size := by omega
      rw [happend, List.take_left' hexact, List.drop_left' hexact]
    · next hpart =>
      rw [ih _ (by omega), if_neg (by simp), happend]

theorem chunkIterable_chunks (hsize : 1 ≤ size) (rows : List α) :
    chunkIterable size [] rows = chunks size rows := by
  induction hn : rows.length using Nat.strongRecOn generalizing rows with
  | ind n ih =>
    rw [chunkIterable_gathered [] rows hsize, List.nil_append, chunks_eq hsize]
    cases rows with
    | nil => rfl
    | cons row rows =>
      have hshorter : ((row :: rows).drop size).length < n := by
        rw [List.length_drop, ← hn]
        exact Nat.sub_lt (Nat.succ_pos _) hsize
      rw [ih _ hshorter _ rfl]

theorem chunkIterable_flatten (size : Nat) (rows : List α) :
    (chunkIterable size [] rows).flatten = rows := by
  suffices h : ∀ gathered, (chunkIterable size gathered rows).flatten = gathered ++ rows from h []
  induction rows with
  | nil =>
    intro gathered
    cases gathered with
    | nil => rfl
    | cons row gathered => simp [chunkIterable]
  | cons row rows ih =>
    intro gathered
    rw [chunkIterable]
    split
    · rw [List.flatten_cons, ih, List.nil_append, List.append_assoc, List.singleton_append]
    · rw [ih, List.append_assoc, List.singleton_append]

end

/-- What a chunked export promises of the files or sheets it lists: their data rows are the
prepared rows in order, all but the last are full, and what is recorded is what was written. -/
structure Faithful (chunkSize : Nat) (prepared : List (List String))
    (listed : List (Table × Nat)) (result : ExportResult) : Prop where
  order : listed.flatMap (fun e => e.1.tail) = prepared
  full : ∀ e ∈ listed.dropLast, e.1.tail.length = chunkSize
  counts : ∀ e ∈ listed, e.2 = e.1.tail.length
  total : result.totalRows = (listed.flatMap fun e => e.1.tail).length

/-- The files that `write_csv` leaves for the rows are faithful. -/
def CsvFaithful (W : ExportWriter) (nfkc : String → String) (columns : List String)
    (pathFactory : Nat → String) (disk : String → Option Table) (rows : List Xlsx.RawRow) : Prop :=
  Faithful W.chunkSize (rows.map (W.prepareColumns nfkc columns))
    (W.writeCsv nfkc columns pathFactory disk rows).listed
    (W.writeCsv nfkc columns pathFactory disk rows).result

/-- `write_xlsx` saves sheets of the rows that are faithful. -/
def XlsxFaithful (W : ExportWriter) (nfkc : String → String) (columns : List String)
    (writeOnlyCell : String → Option String) (pathFactory : Nat → String)
    (rows : List Xlsx.RawRow) : Prop :=
  ∃ written, W.writeXlsx nfkc columns writeOnlyCell pathFactory rows = some written ∧
    Faithful W.chunkSize (rows.map (W.prepareColumns nfkc columns))
      (listedSheets written.1 written.2) written.2

/-- The control characters that openpyxl refuses. -/
def IllegalCharacter (c : Char) : Prop := c.toNat < 32 ∧ c ∉ ['\t', '\n', '\r']

instance : DecidablePred IllegalCharacter := fun _ => inferInstanceAs (Decidable (_ ∧ _))

/-- What openpyxl makes of a text: it is cut at 32767 characters, and an illegal character
among these raises `IllegalCharacterError`. -/
structure WriteOnlyCell (writeOnlyCell : String → Option String) : Prop where
  refused : ∀ text, (∃ c ∈ text.toList.take 32767, IllegalCharacter c) → writeOnlyCell text = none
  stored : ∀ text, (∀ c ∈ text.toList.take 32767, ¬ IllegalCharacter c) →
    writeOnlyCell text = some (String.ofList (text.toList.take 32767))

/-- A text that a cell takes as it is. -/
def FitsCell (text : String) : Prop :=
  text.length ≤ 32767 ∧ ∀ c ∈ text.toList, ¬ IllegalCharacter c

/-- No column name is refused and each prepared text fits its cell. -/
def Storable (W : ExportWriter) (nfkc : String → String) (columns : List String)
    (rows : List Xlsx.RawRow) : Prop :=
  (∀ column ∈ columns, ∀ c ∈ column.toList.take 32767, ¬ IllegalCharacter c) ∧
    ∀ row ∈ rows, ∀ text ∈ W.prepareColumns nfkc columns row, FitsCell text

section
variable {W : ExportWriter} {nfkc : String → String} {columns : List String}
  {pathFactory : Nat → String} {rows : List Xlsx.RawRow}

def chunkTables (table : List Xlsx.RawRow → Table) (chunks : List (List Xlsx.RawRow)) :
    List (Table × Nat) :=
  chunks.map fun chunk => (table chunk, chunk.length)

/-- Chunks that are listed in their order are faithful. -/
theorem faithful_chunkTables (hsize : 1 ≤ W.chunkSize) {result : ExportResult}
    (htotal : result.totalRows = rows.length) {table : List Xlsx.RawRow → Table}
    (htable : ∀ chunk ∈ chunkIterable W.chunkSize [] rows,
      (table chunk).tail = chunk.map (W.prepareColumns nfkc columns)) :
    Faithful W.chunkSize (rows.map (W.prepareColumns nfkc columns))
      (chunkTables table (chunkIterable W.chunkSize [] rows)) result := by
  have horder : (chunkTables table (chunkIterable W.chunkSize [] rows)).flatMap
      (fun e => e.1.tail) = rows.map (W.prepareColumns nfkc columns) := by
    rw [chunkTables, List.flatMap_map, List.flatMap_congr htable]
    conv_rhs => rw [← chunkIterable_flatten W.chunkSize rows]
    rw [List.map_flatten, List.flatMap_def]
  have hlength : ∀ chunk ∈ chunkIterable W.chunkSize [] rows,
      (table chunk).tail.length = chunk.length := by
    intro chunk hchunk
    rw [htable chunk hchunk, List.length_map]
  constructor
  · exact horder
  · intro e he
    rw [chunkTables, ← List.map_dropLast] at he
    obtain ⟨chunk, hchunk, rfl⟩ := List.mem_map.mp he
    rw [hlength chunk (List.mem_of_mem_dropLast hchunk)]
    rw [chunkIterable_chunks hsize] at hchunk
    exact chunks_full hsize hchunk
  · intro e he
    obtain ⟨chunk, hchunk, rfl⟩ := List.mem_map.mp he
    exact (hlength chunk hchunk).symm
  · rw [horder, List.length_map, htotal]

theorem writeCsv_fold (W : ExportWriter) (nfkc : String → String) (columns : List String)
    (pathFactory : Nat → String) (chunks : List (List Xlsx.RawRow)) (first : Nat) (run : CsvRun) :
    ((chunks.zipIdx first).foldl (W.writeCsvChunk nfkc columns pathFactory) run).result =
      ⟨run.files ++ (chunks.zipIdx first).map fun e => ⟨pathFactory e.2, e.1.length, []⟩,
        run.totalRows + chunks.flatten.length⟩ := by
  induction chunks generalizing first run with
  | nil => simp [CsvRun.result]
  | cons chunk chunks ih =>
    rw [List.zipIdx_cons, List.foldl_cons, ih]
    simp [writeCsvChunk, Nat.add_assoc]

/-- A file is written once when every index has a path of its own. -/
theorem writeCsv_disk (hpaths : Function.Injective pathFactory)
    (chunks : List (List Xlsx.RawRow)) (first : Nat) (run : CsvRun) :
    (∀ i < first, ((chunks.zipIdx first).foldl (W.writeCsvChunk nfkc columns pathFactory) run).disk
      (pathFactory i) = run.disk (pathFactory i)) ∧
    ∀ e ∈ chunks.zipIdx first,
      ((chunks.zipIdx first).foldl (W.writeCsvChunk nfkc columns pathFactory) run).disk
        (pathFactory e.2) = some (W.chunkTable nfkc columns e.1) := by
  induction chunks generalizing first run with
  | nil => exact ⟨fun _ _ => rfl, fun _ he => absurd he List.not_mem_nil⟩
  | cons chunk chunks ih =>
    obtain ⟨hframe, hwritten⟩ := ih (first + 1)
      (W.writeCsvChunk nfkc columns pathFactory run (chunk, first))
    rw [List.zipIdx_cons, List.foldl_cons]
    refine ⟨fun i hi => ?_, List.forall_mem_cons.mpr ⟨?_, hwritten⟩⟩
    · rw [hframe i (by omega)]
      exact Function.update_of_ne (fun he => by have := hpaths he; omega) _ _
    · rw [hframe first (by omega)]
      exact Function.update_self _ _ _

theorem chunkTables_zipIdx (table : List Xlsx.RawRow → Table) (chunks : List (List Xlsx.RawRow))
    (first : Nat) : chunkTables table chunks =
      (chunks.zipIdx first).map fun e => (table e.1, e.1.length) := by
  conv_lhs => rw [chunkTables, ← List.zipIdx_map_fst first chunks, List.map_map]
  rfl

theorem writeCsv_result (W : ExportWriter) (nfkc : String → String) (columns : List String)
    (pathFactory : Nat → String) (disk : String → Option Table) (rows : List Xlsx.RawRow) :
    (W.writeCsv nfkc columns pathFactory disk rows).result =
      ⟨((chunkIterable W.chunkSize [] rows).zipIdx 1).map fun e =>
        ⟨pathFactory e.2, e.1.length, []⟩,
        rows.length⟩ := by
  have hfold := writeCsv_fold W nfkc columns pathFactory
    (chunkIterable W.chunkSize [] rows) 1 { disk }
  rwa [chunkIterable_flatten, List.nil_append, Nat.zero_add] at hfold

theorem writeCsv_faithful (hsize : 1 ≤ W.chunkSize) (hpaths : Function.Injective pathFactory)
    (disk : String → Option Table) (rows : List Xlsx.RawRow) :
    CsvFaithful W nfkc columns pathFactory disk rows := by
  have hresult := writeCsv_result W nfkc columns pathFactory disk rows
  have hfiles : (W.writeCsv nfkc columns pathFactory disk rows).files = _ :=
    congrArg ExportResult.files hresult
  have hlisted : (W.writeCsv nfkc columns pathFactory disk rows).listed =
      chunkTables (W.chunkTable nfkc columns) (chunkIterable W.chunkSize [] rows) := by
    rw [CsvRun.listed, hfiles, List.map_map, chunkTables_zipIdx _ _ 1]
    refine List.map_congr_left fun e he => ?_
    have hwritten : (W.writeCsv nfkc columns pathFactory disk rows).disk (pathFactory e.2) =
        some (W.chunkTable nfkc columns e.1) := (writeCsv_disk hpaths _ 1 { disk }).2 e he
    rw [Function.comp_apply, hwritten, Option.getD_some]
  rw [CsvFaithful, hlisted]
  exact faithful_chunkTables hsize (congrArg ExportResult.totalRows hresult) fun _ _ => rfl

theorem sheetName_injective : Function.Injective sheetName := by
  intro i j h
  rw [sheetName, sheetName, ← String.toList_inj, String.toList_append, String.toList_append,
    List.append_cancel_left_eq, String.toList_inj] at h
  exact Int.ofNat_inj.mp (zeroPad_injective 3 h)

/-- Up to 999 the names of the sheets come in the order of their numbers. -/
theorem sheetName_lt {i j : Nat} (h : i < j) (hj : j ≤ 999) : sheetName i < sheetName j := by
  have hfits : KeepsOrder 3 (i : Int) (j : Int) :=
    keepsOrder_of_fits (by omega) ⟨by omega, by omega⟩ ⟨by omega, by omega⟩
  have hpadded := (keepsOrder_iff.mp hfits).mpr (by omega)
  rw [sheetName, sheetName, String.lt_iff_toList_lt, String.toList_append, String.toList_append]
  exact List.append_left_lt (String.lt_iff_toList_lt.mp hpadded)

section
variable {writeOnlyCell : String → Option String}

/-- What a sheet holds of a text that is not refused. -/
def storedText (writeOnlyCell : String → Option String) (text : String) : String :=
  (writeOnlyCell text).getD ""

def storedTable (W : ExportWriter) (nfkc : String → String) (columns : List String)
    (writeOnlyCell : String → Option String) (chunk : List Xlsx.RawRow) : Table :=
  (W.chunkTable nfkc columns chunk).map fun line => line.map (storedText writeOnlyCell)

def Accepted (W : ExportWriter) (nfkc : String → String) (columns : List String)
    (writeOnlyCell : String → Option String) (chunk : List Xlsx.RawRow) : Prop :=
  ∀ line ∈ W.chunkTable nfkc columns chunk, ∀ text ∈ line, writeOnlyCell text ≠ none

def addSheet (W : ExportWriter) (nfkc : String → String) (columns : List String)
    (writeOnlyCell : String → Option String) (run : XlsxRun)
    (numbered : List Xlsx.RawRow × Nat) : XlsxRun where
  worksheets := run.worksheets ++
    [(sheetName numbered.2, storedTable W nfkc columns writeOnlyCell numbered.1)]
  rowCounts := run.rowCounts.set (sheetName numbered.2) numbered.1.length
  totalRows := run.totalRows + numbered.1.length

theorem mapM_line {line line' : List String} : line.mapM writeOnlyCell = some line' ↔
    (∀ text ∈ line, writeOnlyCell text ≠ none) ∧ line' = line.map (storedText writeOnlyCell) := by
  refine mapM_eq_some fun text _ text' => ?_
  cases h : writeOnlyCell text with
  | none => simp
  | some stored => simp [storedText, h, eq_comm]

theorem mapM_table {table table' : Table} :
    (table.mapM fun line => line.mapM writeOnlyCell) = some table' ↔
      (∀ line ∈ table, ∀ text ∈ line, writeOnlyCell text ≠ none) ∧
        table' = table.map fun line => line.map (storedText writeOnlyCell) :=
  mapM_eq_some fun _ _ _ => mapM_line

theorem appendSheet_eq_some {run run' : XlsxRun} {numbered : List Xlsx.RawRow × Nat} :
    W.appendSheet nfkc columns writeOnlyCell run numbered = some run' ↔
      Accepted W nfkc columns writeOnlyCell numbered.1 ∧
        run' = addSheet W nfkc columns writeOnlyCell run numbered := by
  simp only [appendSheet, Option.bind_eq_bind, Option.bind_eq_some_iff, mapM_table,
    Option.pure_def, Option.some.injEq]
  constructor
  · rintro ⟨_, ⟨haccepted, rfl⟩, rfl⟩
    exact ⟨haccepted, rfl⟩
  · rintro ⟨haccepted, rfl⟩
    exact ⟨_, ⟨haccepted, rfl⟩, rfl⟩

theorem addSheet_fold (chunks : List (List Xlsx.RawRow)) (first : Nat) (run : XlsxRun)
    (hfresh : ∀ i, first ≤ i → sheetName i ∉ run.rowCounts.keys) :
    let out := (chunks.zipIdx first).foldl (addSheet W nfkc columns writeOnlyCell) run
    out.worksheets = run.worksheets ++ (chunks.zipIdx first).map (fun e =>
        (sheetName e.2, storedTable W nfkc columns writeOnlyCell e.1)) ∧
      out.rowCounts.entries = run.rowCounts.entries ++
        (chunks.zipIdx first).map (fun e => (sheetName e.2, e.1.length)) ∧
      out.totalRows = run.totalRows + chunks.flatten.length := by
  induction chunks generalizing first run with
  | nil => simp
  | cons chunk chunks ih =>
    have hnext : ∀ i, first + 1 ≤ i →
        sheetName i ∉
          (addSheet W nfkc columns writeOnlyCell run (chunk, first)).rowCounts.keys := by
      intro i hi hmem
      rcases Dict.mem_keys_set.mp hmem with he | hold
      · have := sheetName_injective he
        omega
      · exact hfresh i (by omega) hold
    obtain ⟨hsheets, hcounts, htotal⟩ := ih (first + 1) _ hnext
    rw [List.zipIdx_cons, List.foldl_cons]
    refine ⟨?_, ?_, ?_⟩
    · rw [hsheets, List.map_cons, addSheet, List.append_assoc, List.singleton_append]
    · rw [hcounts, addSheet, Dict.entries_set (hfresh first le_rfl), List.append_assoc,
        List.singleton_append, List.map_cons]
    · rw [htotal, addSheet, List.flatten_cons, List.length_append, Nat.add_assoc]

end

variable (W) (nfkc) (columns) (writeOnlyCell : String → Option String)

def sheetRun (rows : List Xlsx.RawRow) : XlsxRun :=
  ((chunkIterable W.chunkSize [] rows).zipIdx 1).foldl (addSheet W nfkc columns writeOnlyCell) {}

/-- The sheets and their counts in the order in which they were made. -/
theorem sheetRun_rows (rows : List Xlsx.RawRow) :
    let numbered := (chunkIterable W.chunkSize [] rows).zipIdx 1
    let run := sheetRun W nfkc columns writeOnlyCell rows
    run.worksheets = numbered.map (fun e =>
        (sheetName e.2, storedTable W nfkc columns writeOnlyCell e.1)) ∧
      run.rowCounts.entries = numbered.map (fun e => (sheetName e.2, e.1.length)) ∧
      run.totalRows = rows.length := by
  obtain ⟨hsheets, hcounts, htotal⟩ := @addSheet_fold W nfkc columns writeOnlyCell
    (chunkIterable W.chunkSize [] rows) 1 {} fun i _ => List.not_mem_nil
  rw [chunkIterable_flatten, Nat.zero_add] at htotal
  rw [List.nil_append] at hsheets
  have hnil : Dict.entries (.empty : Dict String Nat) = [] := rfl
  rw [hnil, List.nil_append] at hcounts
  exact ⟨hsheets, hcounts, htotal⟩

theorem workbook_eq_some (hrows : rows ≠ []) {run : XlsxRun} :
    W.workbook nfkc columns writeOnlyCell rows = some run ↔
      (∀ chunk ∈ chunkIterable W.chunkSize [] rows, Accepted W nfkc columns writeOnlyCell chunk) ∧
        run = sheetRun W nfkc columns writeOnlyCell rows := by
  have hchunks : chunkIterable W.chunkSize [] rows ≠ [] := by
    intro h
    rw [← chunkIterable_flatten W.chunkSize rows, h] at hrows
    exact hrows rfl
  have hcounted :
      ¬ (sheetRun W nfkc columns writeOnlyCell rows).rowCounts.entries.isEmpty = true := by
    rw [(sheetRun_rows W nfkc columns writeOnlyCell rows).2.1, List.isEmpty_iff,
      List.map_eq_nil_iff, List.zipIdx_eq_nil_iff]
    exact hchunks
  have hnumbered : (∀ e ∈ (chunkIterable W.chunkSize [] rows).zipIdx 1,
      Accepted W nfkc columns writeOnlyCell e.1) ↔
        ∀ chunk ∈ chunkIterable W.chunkSize [] rows,
          Accepted W nfkc columns writeOnlyCell chunk := by
    conv_rhs => rw [← List.zipIdx_map_fst 1 (chunkIterable W.chunkSize [] rows)]
    exact List.forall_mem_map.symm
  have hfold : ∀ run, ((chunkIterable W.chunkSize [] rows).zipIdx 1).foldlM
      (W.appendSheet nfkc columns writeOnlyCell) {} = some run ↔
        (∀ e ∈ (chunkIterable W.chunkSize [] rows).zipIdx 1,
          Accepted W nfkc columns writeOnlyCell e.1) ∧
        run = sheetRun W nfkc columns writeOnlyCell rows :=
    fun run => foldlM_eq_some (f := W.appendSheet nfkc columns writeOnlyCell)
      (g := addSheet W nfkc columns writeOnlyCell) fun _ _ _ => appendSheet_eq_some
  rw [← hnumbered]
  simp only [workbook, Option.bind_eq_bind, Option.bind_eq_some_iff, hfold]
  constructor
  · rintro ⟨_, ⟨haccepted, rfl⟩, hrun⟩
    rw [if_neg hcounted] at hrun
    exact ⟨haccepted, (Option.some.inj hrun).symm⟩
  · rintro ⟨haccepted, rfl⟩
    refine ⟨_, ⟨haccepted, rfl⟩, ?_⟩
    rw [if_neg hcounted]
    rfl

/-- A sheet is found under its name. -/
theorem worksheets_lookup (chunks : List (List Xlsx.RawRow)) (first : Nat)
    {e : List Xlsx.RawRow × Nat} (he : e ∈ chunks.zipIdx first) :
    ((chunks.zipIdx first).map fun e =>
      (sheetName e.2, storedTable W nfkc columns writeOnlyCell e.1)).lookup (sheetName e.2) =
        some (storedTable W nfkc columns writeOnlyCell e.1) := by
  refine (mem_iff_lookup ?_ _ _).mp (List.mem_map.mpr ⟨e, he, rfl⟩)
  have hnames : ((chunks.zipIdx first).map fun e =>
      (sheetName e.2, storedTable W nfkc columns writeOnlyCell e.1)).map Prod.fst =
        (List.range' first chunks.length).map sheetName := by
    rw [← List.zipIdx_map_snd, List.map_map, List.map_map]
    rfl
  rw [hnames]
  exact (List.nodup_range').map sheetName_injective

def sheetResult (pathFactory : Nat → String) (rows : List Xlsx.RawRow) :
    List (String × Table) × ExportResult :=
  let run := sheetRun W nfkc columns writeOnlyCell rows
  (run.worksheets, {
    files := [{
      path := pathFactory 1, rowCount := run.totalRows
      sheets := sortedCounts run.rowCounts.entries }]
    totalRows := run.totalRows })

theorem writeXlsx_eq_some (hrows : rows ≠ []) (pathFactory : Nat → String)
    {written : List (String × Table) × ExportResult} :
    W.writeXlsx nfkc columns writeOnlyCell pathFactory rows = some written ↔
      (∀ chunk ∈ chunkIterable W.chunkSize [] rows, Accepted W nfkc columns writeOnlyCell chunk) ∧
        written = sheetResult W nfkc columns writeOnlyCell pathFactory rows := by
  simp only [writeXlsx, Option.bind_eq_bind, Option.bind_eq_some_iff,
    workbook_eq_some W nfkc columns writeOnlyCell hrows, Option.pure_def, Option.some.injEq]
  constructor
  · rintro ⟨_, ⟨haccepted, rfl⟩, rfl⟩
    exact ⟨haccepted, rfl⟩
  · rintro ⟨haccepted, rfl⟩
    exact ⟨_, ⟨haccepted, rfl⟩, rfl⟩

/-- The result lists the sheets in the order of their names. -/
theorem listedSheets_rows (rows : List Xlsx.RawRow) (pathFactory : Nat → String) :
    let numbered := (chunkIterable W.chunkSize [] rows).zipIdx 1
    let written := sheetResult W nfkc columns writeOnlyCell pathFactory rows
    listedSheets written.1 written.2 =
      (sortedCounts (numbered.map fun e => (sheetName e.2, e.1.length))).map fun (title, count) =>
        (((numbered.map fun e =>
          (sheetName e.2, storedTable W nfkc columns writeOnlyCell e.1)).lookup title).getD [],
            count) := by
  obtain ⟨hsheets, hcounts, -⟩ := sheetRun_rows W nfkc columns writeOnlyCell rows
  dsimp only
  rw [sheetResult, listedSheets, hsheets, hcounts, List.flatMap_singleton]

section
variable {W} {nfkc} {columns} {writeOnlyCell}
variable (hcell : WriteOnlyCell writeOnlyCell)
include hcell

theorem storedText_eq {text : String} (h : writeOnlyCell text ≠ none) :
    (∀ c ∈ text.toList.take 32767, ¬ IllegalCharacter c) ∧
      storedText writeOnlyCell text = String.ofList (text.toList.take 32767) := by
  have hlegal : ∀ c ∈ text.toList.take 32767, ¬ IllegalCharacter c := by
    intro c hc hillegal
    exact h (hcell.refused text ⟨c, hc, hillegal⟩)
  refine ⟨hlegal, ?_⟩
  rw [storedText, hcell.stored text hlegal, Option.getD_some]

theorem storedText_length {text : String} (h : writeOnlyCell text ≠ none) :
    (storedText writeOnlyCell text).length = min 32767 text.length := by
  rw [(storedText_eq hcell h).2, String.length_ofList, List.length_take, String.length_toList]

/-- A text fits its cell exactly if it is neither refused nor cut. -/
theorem fitsCell_iff {text : String} : FitsCell text ↔ writeOnlyCell text = some text := by
  constructor
  · rintro ⟨hlength, hlegal⟩
    have htake : text.toList.take 32767 = text.toList :=
      List.take_of_length_le (by rw [String.length_toList]; exact hlength)
    have hstored := hcell.stored text
    rw [htake, String.ofList_toList] at hstored
    exact hstored hlegal
  · intro h
    have haccepted : writeOnlyCell text ≠ none := by simp [h]
    have hlength := storedText_length hcell haccepted
    rw [storedText, h, Option.getD_some] at hlength
    have hfits : text.length ≤ 32767 := by omega
    refine ⟨hfits, fun c hc => (storedText_eq hcell haccepted).1 c ?_⟩
    rwa [List.take_of_length_le (by rw [String.length_toList]; exact hfits)]

theorem Storable.header (h : Storable W nfkc columns rows) :
    ∀ column ∈ columns, writeOnlyCell column ≠ none := by
  intro column hcolumn hrefused
  rw [hcell.stored column (h.1 column hcolumn)] at hrefused
  cases hrefused

theorem Storable.chunk (h : Storable W nfkc columns rows) {chunk : List Xlsx.RawRow}
    (hchunk : chunk ∈ chunkIterable W.chunkSize [] rows) :
    Accepted W nfkc columns writeOnlyCell chunk ∧
      (storedTable W nfkc columns writeOnlyCell chunk).tail =
        chunk.map (W.prepareColumns nfkc columns) := by
  have hrows : ∀ row ∈ chunk, row ∈ rows := by
    intro row hrow
    rw [← chunkIterable_flatten W.chunkSize rows]
    exact List.mem_flatten.mpr ⟨chunk, hchunk, hrow⟩
  have hkept : ∀ row ∈ chunk, ∀ text ∈ W.prepareColumns nfkc columns row,
      writeOnlyCell text = some text :=
    fun row hrow text htext => (fitsCell_iff hcell).mp (h.2 row (hrows row hrow) text htext)
  constructor
  · intro line hline text htext
    rcases List.mem_cons.mp hline with rfl | hline
    · exact h.header hcell text htext
    · obtain ⟨row, hrow, rfl⟩ := List.mem_map.mp hline
      simp [hkept row hrow text htext]
  · rw [storedTable, chunkTable, List.map_cons, List.tail_cons, List.map_map]
    refine List.map_congr_left fun row hrow => ?_
    conv_rhs => rw [← List.map_id (W.prepareColumns nfkc columns row)]
    refine List.map_congr_left fun text htext => ?_
    rw [storedText, hkept row hrow text htext]
    rfl

theorem writeXlsx_faithful (hsize : 1 ≤ W.chunkSize) (pathFactory : Nat → String)
    (hstorable : Storable W nfkc columns rows) (hfew : rows.length ≤ 999 * W.chunkSize) :
    XlsxFaithful W nfkc columns writeOnlyCell pathFactory rows := by
  by_cases hrows : rows = []
  · subst hrows
    have hheader := mapM_line.mpr ⟨hstorable.header hcell, rfl⟩
    have hwritten : W.writeXlsx nfkc columns writeOnlyCell pathFactory [] =
        some ([(sheetName 1, [columns.map (storedText writeOnlyCell)])],
          { files := [⟨pathFactory 1, 0, [(sheetName 1, 0)]⟩], totalRows := 0 }) := by
      simp [writeXlsx, workbook, chunkIterable, hheader, Dict.empty, Dict.set, upsert, sortedCounts]
    refine ⟨_, hwritten, ?_⟩
    have hlisted : listedSheets [(sheetName 1, [columns.map (storedText writeOnlyCell)])]
        { files := [⟨pathFactory 1, 0, [(sheetName 1, 0)]⟩], totalRows := 0 } =
          [([columns.map (storedText writeOnlyCell)], 0)] := by
      simp [listedSheets]
    dsimp only
    rw [hlisted]
    exact ⟨rfl, fun e he => absurd he List.not_mem_nil,
      fun e he => by rw [List.mem_singleton.mp he]; rfl, rfl⟩
  · have hnumbered : ((chunkIterable W.chunkSize [] rows).zipIdx 1).Pairwise
        fun a b => sheetName a.2 ≤ sheetName b.2 := by
      rw [List.pairwise_iff_getElem]
      intro i j hi hj hij
      rw [List.length_zipIdx] at hj
      have hlength := (length_chunks_le hsize).mpr hfew
      rw [← chunkIterable_chunks hsize] at hlength
      rw [List.getElem_zipIdx, List.getElem_zipIdx]
      exact (sheetName_lt (by omega) (by omega)).le
    have hlisted : listedSheets (sheetResult W nfkc columns writeOnlyCell pathFactory rows).1
        (sheetResult W nfkc columns writeOnlyCell pathFactory rows).2 =
          chunkTables (storedTable W nfkc columns writeOnlyCell)
            (chunkIterable W.chunkSize [] rows) := by
      have hsorted : sortedCounts (((chunkIterable W.chunkSize [] rows).zipIdx 1).map
          fun e => (sheetName e.2, e.1.length)) = _ :=
        List.mergeSort_of_pairwise (List.pairwise_map.mpr (hnumbered.imp decide_eq_true))
      have hsheets := listedSheets_rows W nfkc columns writeOnlyCell rows pathFactory
      dsimp only at hsheets
      rw [hsheets, hsorted, List.map_map, chunkTables_zipIdx _ _ 1]
      refine List.map_congr_left fun e he => ?_
      rw [Function.comp_apply, worksheets_lookup W nfkc columns writeOnlyCell _ 1 he,
        Option.getD_some]
    refine ⟨_, (writeXlsx_eq_some W nfkc columns writeOnlyCell hrows pathFactory).mpr
      ⟨fun chunk hchunk => (hstorable.chunk hcell hchunk).1, rfl⟩, ?_⟩
    rw [hlisted]
    exact faithful_chunkTables hsize (sheetRun_rows W nfkc columns writeOnlyCell rows).2.2
      fun chunk hchunk => (hstorable.chunk hcell hchunk).2

/-- Texts that are stored as they are, but for their order, have all their characters. -/
theorem fitsCell_of_perm {texts : List String}
    (haccepted : ∀ text ∈ texts, writeOnlyCell text ≠ none)
    (hperm : texts.Perm (texts.map (storedText writeOnlyCell))) :
    ∀ text ∈ texts, FitsCell text := by
  intro text htext
  have hsums : (texts.map String.length).sum =
      (texts.map fun text => (storedText writeOnlyCell text).length).sum := by
    have hlengths := (hperm.map String.length).sum_eq
    rwa [List.map_map] at hlengths
  have hlegal := (storedText_eq hcell (haccepted text htext)).1
  by_cases hlength : text.length ≤ 32767
  · refine ⟨hlength, fun c hc => hlegal c ?_⟩
    rwa [List.take_of_length_le (by rw [String.length_toList]; exact hlength)]
  · have hcut : (texts.map fun text => (storedText writeOnlyCell text).length).sum <
        (texts.map String.length).sum := by
      refine List.sum_lt_sum _ _ (fun text htext => ?_) ⟨text, htext, ?_⟩
      · rw [storedText_length hcell (haccepted text htext)]
        exact Nat.min_le_right _ _
      · rw [storedText_length hcell (haccepted text htext)]
        omega
    omega

omit hcell in
/-- The listed rows are the stored ones, in some order. -/
theorem listedSheets_perm (rows : List Xlsx.RawRow) (pathFactory : Nat → String) :
    ((listedSheets (sheetResult W nfkc columns writeOnlyCell pathFactory rows).1
      (sheetResult W nfkc columns writeOnlyCell pathFactory rows).2).flatMap fun e => e.1.tail).Perm
        (rows.map fun row => (W.prepareColumns nfkc columns row).map
          (storedText writeOnlyCell)) := by
  have hsheets := listedSheets_rows W nfkc columns writeOnlyCell rows pathFactory
  dsimp only at hsheets
  have hlisted : (listedSheets (sheetResult W nfkc columns writeOnlyCell pathFactory rows).1
      (sheetResult W nfkc columns writeOnlyCell pathFactory rows).2).Perm
        (((chunkIterable W.chunkSize [] rows).zipIdx 1).map fun e =>
          (storedTable W nfkc columns writeOnlyCell e.1, e.1.length)) := by
    rw [hsheets]
    refine ((List.mergeSort_perm _ _).map _).trans ?_
    rw [List.map_map]
    refine List.Perm.of_eq (List.map_congr_left fun e he => ?_)
    rw [Function.comp_apply, worksheets_lookup W nfkc columns writeOnlyCell _ 1 he,
      Option.getD_some]
  refine (hlisted.flatMap_right fun e => e.1.tail).trans ?_
  rw [← chunkTables_zipIdx (storedTable W nfkc columns writeOnlyCell) _ 1, chunkTables,
    List.flatMap_map]
  conv_rhs => rw [← chunkIterable_flatten W.chunkSize rows]
  rw [List.map_flatten, List.flatMap_def]
  refine List.Perm.of_eq (congrArg List.flatten (List.map_congr_left fun chunk _ => ?_))
  rw [storedTable, chunkTable, List.map_cons, List.tail_cons, List.map_map]
  rfl

/-- What is saved faithfully was neither refused nor cut. -/
theorem XlsxFaithful.storable {pathFactory : Nat → String}
    (h : XlsxFaithful W nfkc columns writeOnlyCell pathFactory rows) :
    Storable W nfkc columns rows := by
  obtain ⟨written, hwritten, hfaithful⟩ := h
  have hlegal : (∀ column ∈ columns, writeOnlyCell column ≠ none) →
      ∀ column ∈ columns, ∀ c ∈ column.toList.take 32767, ¬ IllegalCharacter c :=
    fun h column hcolumn => (storedText_eq hcell (h column hcolumn)).1
  by_cases hrows : rows = []
  · subst hrows
    refine ⟨hlegal ?_, fun _ hrow => absurd hrow List.not_mem_nil⟩
    cases hheader : columns.mapM writeOnlyCell with
    | some header => exact (mapM_line.mp hheader).1
    | none => simp [writeXlsx, workbook, chunkIterable, hheader, Dict.empty] at hwritten
  obtain ⟨haccepted, rfl⟩ :=
    (writeXlsx_eq_some W nfkc columns writeOnlyCell hrows pathFactory).mp hwritten
  have hperm := @listedSheets_perm W nfkc columns writeOnlyCell rows pathFactory
  rw [hfaithful.order] at hperm
  have hline : ∀ chunk ∈ chunkIterable W.chunkSize [] rows, ∀ row ∈ chunk,
      ∀ text ∈ W.prepareColumns nfkc columns row, writeOnlyCell text ≠ none :=
    fun chunk hchunk row hrow => haccepted chunk hchunk _
      (List.mem_cons_of_mem _ (List.mem_map.mpr ⟨row, hrow, rfl⟩))
  refine ⟨hlegal ?_, fun row hrow text htext => ?_⟩
  · obtain ⟨chunk, hchunk⟩ : ∃ chunk, chunk ∈ chunkIterable W.chunkSize [] rows := by
      refine List.exists_mem_of_ne_nil _ fun hnil => hrows ?_
      rw [← chunkIterable_flatten W.chunkSize rows, hnil]
      rfl
    exact haccepted chunk hchunk _ List.mem_cons_self
  · have hprepared : ∀ row ∈ rows, ∀ text ∈ W.prepareColumns nfkc columns row,
        writeOnlyCell text ≠ none := by
      intro row hrow
      rw [← chunkIterable_flatten W.chunkSize rows] at hrow
      obtain ⟨chunk, hchunk, hrow⟩ := List.mem_flatten.mp hrow
      exact hline chunk hchunk row hrow
    have hmapped : (rows.map fun row =>
        (W.prepareColumns nfkc columns row).map (storedText writeOnlyCell)).flatten =
          (rows.map (W.prepareColumns nfkc columns)).flatten.map (storedText writeOnlyCell) := by
      rw [List.map_flatten, List.map_map]
      rfl
    have htexts := hperm.flatten
    rw [hmapped] at htexts
    refine fitsCell_of_perm hcell (fun text htext => ?_) htexts text
      (List.mem_flatten.mpr ⟨_, List.mem_map.mpr ⟨row, hrow, rfl⟩, htext⟩)
    obtain ⟨line, hline, htext⟩ := List.mem_flatten.mp htext
    obtain ⟨row, hrow, rfl⟩ := List.mem_map.mp hline
    exact hprepared row hrow text htext

end

/-- Sheets are listed in the order of their names. -/
theorem listed_by_name {counts : List (String × Nat)} {a b : String × Nat} (ha : a ∈ counts)
    (hb : b ∈ counts) (h : a.1 < b.1) : List.Sublist [a, b] (sortedCounts counts) := by
  have hsorted : (sortedCounts counts).Pairwise fun a b => decide (a.1 ≤ b.1) = true :=
    List.pairwise_mergeSort
      (fun a b c hab hbc => decide_eq_true ((of_decide_eq_true hab).trans (of_decide_eq_true hbc)))
      (fun a b => by simpa using le_total a.1 b.1) counts
  have ha' : a ∈ sortedCounts counts := List.mem_mergeSort.mpr ha
  have hb' : b ∈ sortedCounts counts := List.mem_mergeSort.mpr hb
  obtain ⟨before, after, hsplit⟩ := List.append_of_mem ha'
  rw [hsplit] at hsorted hb' ⊢
  rcases List.mem_append.mp hb' with hbefore | hafter
  · have := (List.pairwise_append.mp hsorted).2.2 b hbefore a List.mem_cons_self
    exact absurd (of_decide_eq_true this) h.not_ge
  · rcases List.mem_cons.mp hafter with rfl | hafter
    · exact absurd h (lt_irrefl _)
    · exact ((List.singleton_sublist.mpr hafter).cons_cons a).trans (List.sublist_append_right _ _)

def uniformRow (columns : List String) (text : String) : Xlsx.RawRow :=
  columns.map fun column => (column, .str text)

theorem uniformRow_raw {column : String} (h : column ∈ columns) (text : String) :
    Xlsx.rawText (uniformRow columns text) column = text := by
  have hlookup : (uniformRow columns text).lookup column = some (.str text) := by
    rw [uniformRow]
    induction columns with
    | nil => cases h
    | cons first rest ih =>
      rw [List.map_cons, List.lookup_cons]
      split
      · rfl
      · next hother =>
        rcases List.mem_cons.mp h with rfl | hrest
        · rw [beq_self_eq_true] at hother
          cases hother
        · exact ih hrest
  rw [Xlsx.rawText, hlookup]

/-- A mark is written as it is, but for the zeros of a school code. -/
theorem prepareText_mark (column : String) {text : String} (h : text ∈ ["1", "2", "3"]) :
    W.prepareText nfkc column text =
      if column == "school_code" then "00000" ++ text else text := by
  have hdigit : text.toList.all (·.toNat < 128) = true ∧ guardFormula text = text ∧
      (!text.isEmpty) = true ∧ ∃ n, parseInt text = some n ∧ zeroPad 6 n = "00000" ++ text := by
    simp only [List.mem_cons, List.not_mem_nil, or_false] at h
    rcases h with rfl | rfl | rfl
    · exact ⟨rfl, rfl, rfl, 1, rfl, rfl⟩
    · exact ⟨rfl, rfl, rfl, 2, rfl, rfl⟩
    · exact ⟨rfl, rfl, rfl, 3, rfl, rfl⟩
  obtain ⟨hascii, hguard, hempty, n, hparse, hpad⟩ := hdigit
  rw [prepareText, if_pos hascii, hguard, ite_self, hempty, Bool.and_true, hparse, ← hpad]

theorem uniformRow_prepared (hcolumns : columns ≠ []) {s t : String} (hs : s ∈ ["1", "2", "3"])
    (ht : t ∈ ["1", "2", "3"])
    (h : W.prepareColumns nfkc columns (uniformRow columns s) =
      W.prepareColumns nfkc columns (uniformRow columns t)) : s = t := by
  obtain ⟨column, rest, rfl⟩ := List.exists_cons_of_ne_nil hcolumns
  have hhead := congrArg List.head? h
  rw [prepareColumns, prepareColumns, List.map_cons, List.map_cons,
    uniformRow_raw _ List.mem_cons_self, uniformRow_raw _ List.mem_cons_self,
    prepareText_mark W nfkc column hs, prepareText_mark W nfkc column ht] at hhead
  have hcell := Option.some.inj hhead
  split at hcell
  · rwa [← String.toList_inj, String.toList_append, String.toList_append,
      List.append_cancel_left_eq, String.toList_inj] at hcell
  · exact hcell

/-- The mark of a row: two are marked, the first of the sheets 101 and 1000. -/
def mark (chunkSize i : Nat) : String :=
  if i = 100 * chunkSize then "2" else if i = 999 * chunkSize then "3" else "1"

def markedRows (columns : List String) (chunkSize n : Nat) : List Xlsx.RawRow :=
  (List.range n).map fun i => uniformRow columns (mark chunkSize i)

/-- The thousandth sheet comes before the hundred and first. -/
theorem sheetName_thousand : sheetName 1000 < sheetName 101 := by
  have hlate : sheetName 1000 = "Sheet_1000" := rfl
  have hearly : sheetName 101 = "Sheet_101" := rfl
  rw [hlate, hearly]
  decide

/-- The first row of a sheet that is there. -/
theorem sheet_first (hsize : 1 ≤ W.chunkSize) {i : Nat} {row : Xlsx.RawRow}
    (h : rows[i * W.chunkSize]? = some row) :
    ∃ e ∈ (chunkIterable W.chunkSize [] rows).zipIdx 1, e.2 = i + 1 ∧ row ∈ e.1 := by
  obtain ⟨hi, hrow⟩ := List.getElem?_eq_some_iff.mp h
  have hchunk := getElem?_chunks hsize rows i
  rw [← chunkIterable_chunks hsize, if_pos hi] at hchunk
  refine ⟨((rows.drop (i * W.chunkSize)).take W.chunkSize, i + 1), ?_, rfl, ?_⟩
  · refine List.mem_iff_getElem?.mpr ⟨i, ?_⟩
    rw [List.getElem?_zipIdx, hchunk, Option.map_some, Nat.add_comm]
  · refine List.mem_of_getElem? (i := 0) ?_
    rw [List.getElem?_take_of_lt (by omega), List.getElem?_drop, Nat.add_zero, h]

theorem mark_mem (chunkSize i : Nat) : mark chunkSize i ∈ ["1", "2", "3"] := by
  rw [mark]
  split
  · decide
  · split
    · decide
    · decide

theorem mark_late {chunkSize i : Nat} (hsize : 1 ≤ chunkSize) :
    mark chunkSize i = mark chunkSize (999 * chunkSize) ↔ i = 999 * chunkSize := by
  have hother : 999 * chunkSize ≠ 100 * chunkSize := by omega
  rw [mark, mark, if_neg hother, if_pos rfl]
  split
  · next hi => exact iff_of_false (by decide) (by omega)
  · split
    · next hi => exact iff_of_true rfl hi
    · next hi => exact iff_of_false (by decide) hi

theorem mark_early {chunkSize i : Nat} :
    mark chunkSize i = mark chunkSize (100 * chunkSize) ↔ i = 100 * chunkSize := by
  rw [mark, mark, if_pos rfl]
  split
  · next hi => exact iff_of_true rfl hi
  · next hi =>
    refine iff_of_false ?_ hi
    split
    · decide
    · decide

/-- Rows are listed in the order of the names of their sheets. -/
theorem rows_by_name (hcell : WriteOnlyCell writeOnlyCell)
    (hstorable : Storable W nfkc columns rows)
    (pathFactory : Nat → String) {a b : List Xlsx.RawRow × Nat} {row next : Xlsx.RawRow}
    (ha : a ∈ (chunkIterable W.chunkSize [] rows).zipIdx 1)
    (hb : b ∈ (chunkIterable W.chunkSize [] rows).zipIdx 1)
    (hname : sheetName a.2 < sheetName b.2) (hrow : row ∈ a.1) (hnext : next ∈ b.1) :
    List.Sublist [W.prepareColumns nfkc columns row, W.prepareColumns nfkc columns next]
      ((listedSheets (sheetResult W nfkc columns writeOnlyCell pathFactory rows).1
        (sheetResult W nfkc columns writeOnlyCell pathFactory rows).2).flatMap
          fun e => e.1.tail) := by
  have hsheets := listedSheets_rows W nfkc columns writeOnlyCell rows pathFactory
  dsimp only at hsheets
  have hcount : ∀ e ∈ (chunkIterable W.chunkSize [] rows).zipIdx 1, (sheetName e.2, e.1.length) ∈
      ((chunkIterable W.chunkSize [] rows).zipIdx 1).map fun e => (sheetName e.2, e.1.length) :=
    fun e he => List.mem_map.mpr ⟨e, he, rfl⟩
  have hstored : ∀ e ∈ (chunkIterable W.chunkSize [] rows).zipIdx 1,
      (storedTable W nfkc columns writeOnlyCell e.1).tail =
        e.1.map (W.prepareColumns nfkc columns) :=
    fun e he => (hstorable.chunk hcell (List.fst_mem_of_mem_zipIdx he)).2
  have hpair := listed_by_name (hcount a ha) (hcount b hb) hname
  rw [hsheets, List.flatMap_map]
  refine List.Sublist.trans ?_ (hpair.flatMap _)
  rw [List.flatMap_cons, List.flatMap_cons, List.flatMap_nil, List.append_nil,
    worksheets_lookup W nfkc columns writeOnlyCell _ 1 ha,
    worksheets_lookup W nfkc columns writeOnlyCell _ 1 hb, Option.getD_some, Option.getD_some,
    hstored a ha, hstored b hb]
  have hsplit : ∀ x y : List String, [x, y] = [x] ++ [y] := fun _ _ => rfl
  rw [hsplit]
  refine (List.singleton_sublist.mpr ?_).append (List.singleton_sublist.mpr ?_)
  · exact List.mem_map.mpr ⟨row, hrow, rfl⟩
  · exact List.mem_map.mpr ⟨next, hnext, rfl⟩

theorem markedRows_storable (hheader : ∀ column ∈ columns,
      ∀ c ∈ column.toList.take 32767, ¬ IllegalCharacter c) (n : Nat) :
    Storable W nfkc columns (markedRows columns W.chunkSize n) := by
  refine ⟨hheader, fun row hrow text htext => ?_⟩
  obtain ⟨i, -, rfl⟩ := List.mem_map.mp hrow
  obtain ⟨column, hcolumn, rfl⟩ := List.mem_map.mp htext
  have hmark := mark_mem W.chunkSize i
  rw [uniformRow_raw columns hcolumn, prepareText_mark W nfkc column hmark]
  generalize mark W.chunkSize i = text at hmark
  simp only [List.mem_cons, List.not_mem_nil, or_false] at hmark
  rcases hmark with rfl | rfl | rfl <;> split <;>
    exact ⟨by decide, by simp [IllegalCharacter]⟩

theorem writeXlsx_unfaithful (hcell : WriteOnlyCell writeOnlyCell) (hsize : 1 ≤ W.chunkSize)
    (hcolumns : columns ≠ []) (hheader : ∀ column ∈ columns,
      ∀ c ∈ column.toList.take 32767, ¬ IllegalCharacter c)
    (pathFactory : Nat → String) {n : Nat} (hmany : 999 * W.chunkSize < n) :
    ¬ XlsxFaithful W nfkc columns writeOnlyCell pathFactory
      (markedRows columns W.chunkSize n) := by
  rintro ⟨written, hwritten, hfaithful⟩
  have hrow : ∀ i < n, (markedRows columns W.chunkSize n)[i]? =
      some (uniformRow columns (mark W.chunkSize i)) := by
    intro i hi
    rw [markedRows, List.getElem?_map, List.getElem?_range hi, Option.map_some]
  have hrows : markedRows columns W.chunkSize n ≠ [] := by
    intro hnil
    have := hrow 0 (by omega)
    rw [hnil] at this
    cases this
  obtain ⟨-, rfl⟩ :=
    (writeXlsx_eq_some W nfkc columns writeOnlyCell hrows pathFactory).mp hwritten
  obtain ⟨late, hlate, hlateIndex, hlateRow⟩ := sheet_first W hsize (hrow (999 * W.chunkSize) hmany)
  obtain ⟨early, hearly, hearlyIndex, hearlyRow⟩ :=
    sheet_first W hsize (hrow (100 * W.chunkSize) (by omega))
  have hname : sheetName late.2 < sheetName early.2 := by
    rw [hlateIndex, hearlyIndex]
    exact sheetName_thousand
  have hpair := rows_by_name W nfkc columns writeOnlyCell hcell
    (markedRows_storable W nfkc columns hheader n) pathFactory hlate hearly hname hlateRow hearlyRow
  rw [hfaithful.order, markedRows, List.map_map, List.sublist_map_iff] at hpair
  obtain ⟨positions, hpositions, hmarks⟩ := hpair
  obtain ⟨i, others, rfl, hi, hothers⟩ := List.map_eq_cons_iff.mp hmarks.symm
  obtain ⟨j, rest, rfl, hj, -⟩ := List.map_eq_cons_iff.mp hothers
  have hordered : i < j :=
    (List.pairwise_cons.mp (List.pairwise_lt_range.sublist hpositions)).1 j List.mem_cons_self
  have hlast := (mark_late hsize).mp
    (uniformRow_prepared W nfkc columns hcolumns (mark_mem _ i) (mark_mem _ _) hi)
  have hfirst := mark_early.mp
    (uniformRow_prepared W nfkc columns hcolumns (mark_mem _ j) (mark_mem _ _) hj)
  omega

end

def chunkedWriter : ExportWriter := ⟨[], "\r\n", false, 1, true⟩

/-- A text cut at 32767 characters, or none where an illegal character is left. -/
def checkString (text : String) : Option String :=
  let kept := text.toList.take 32767
  if kept.any fun c => decide (IllegalCharacter c) then none else some (String.ofList kept)

theorem checkString_writeOnlyCell : WriteOnlyCell checkString := by
  constructor
  · rintro text ⟨c, hc, hillegal⟩
    rw [checkString, if_pos (List.any_eq_true.mpr ⟨c, hc, decide_eq_true hillegal⟩)]
  · intro text h
    rw [checkString, if_neg]
    intro hany
    obtain ⟨c, hc, hillegal⟩ := List.any_eq_true.mp hany
    exact h c hc (of_decide_eq_true hillegal)

/-- The default columns hold no illegal character. -/
theorem exportColumns_legal :
    ∀ column ∈ exportColumns, ∀ c ∈ column.toList.take 32767, ¬ IllegalCharacter c := by
  have h : ∀ column ∈ exportColumns, ∀ c ∈ column.toList, ¬ IllegalCharacter c := by
    simp [exportColumns, IllegalCharacter]
  intro column hcolumn c hc
  exact h column hcolumn c (List.mem_of_mem_take hc)

end Export
