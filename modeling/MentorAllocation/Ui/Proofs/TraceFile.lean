import MentorAllocation.Ui.TraceStorage

namespace Ui.Storage
open Data Text

/-- A row that JSON can write and read back, with no empty ranking key. -/
structure Storable (floatRepr : String → String) (row : TraceViewerRow) : Prop where
  valid : Json.Valid floatRepr row.toSerialisable
  ranked : row.rankingKey ≠ some []

section
variable {builtins : Builtins} {floatRepr : String → String} {row : TraceViewerRow}
  {rows : List TraceViewerRow}

theorem mapM_dictOf (trace : List (Dict String Json)) :
    trace.mapM (dictOf ∘ fun item => .obj item.entries) = some trace := by
  induction trace with
  | nil => rfl
  | cons item trace ih =>
    have hitem : (dictOf ∘ fun item : Dict String Json => .obj item.entries) item = some item :=
      congrArg some (Dict.ofList_entries item)
    rw [List.mapM_cons, hitem, ih]
    rfl

theorem unlessNone_orNull {α : Type} {convert : Json → Option α} {write : α → Json}
    (hconvert : ∀ a, convert (write a) = some a) (hnull : ∀ a, write a ≠ .null) (a : Option α) :
    unlessNone convert (some (orNull write a)) = some a := by
  cases a with
  | none => rfl
  | some a =>
    rw [orNull, unlessNone, hconvert]
    · rfl
    · exact hnull a

/-- The fields of a row are read back from its mapping. -/
theorem fromSerialisable_members (h : row.rankingKey ≠ some []) :
    fromSerialisable builtins row.members = some row := by
  have hratio := unlessNone_orNull builtins.float_float (fun a h => by cases h)
    row.occupancyRatio
  have hload := unlessNone_orNull builtins.int_int (fun a h => by cases h) row.currentLoad
  have hranking : rankingOf (some row.rankingJson) = row.rankingKey := by
    rw [TraceViewerRow.rankingJson]
    cases hkey : row.rankingKey with
    | none => rfl
    | some key =>
      cases key with
      | nil => exact absurd hkey h
      | cons item items => rfl
  simp [fromSerialisable, TraceViewerRow.members, lookup_cons_ite, hratio, hload, hranking,
    mapM_dictOf, builtins.int_int, builtins.str_str, truth]

def lineOf (row : TraceViewerRow) : List Char :=
  (Json.dumps {} row.toSerialisable).toList ++ ['\n']

/-- What a row's line says is the row. -/
theorem rowOfLine_lineOf (h : Storable floatRepr row) :
    rowOfLine builtins floatRepr (lineOf row) = some row := by
  have hloads := Json.loads_dumps_blanks rfl Json.separators_default h.valid
    ['\n'] (by decide)
  rw [rowOfLine, lineOf, hloads]
  exact fromSerialisable_members h.ranked

/-- The text of the file, which has a line for each row. -/
def textOf (rows : List TraceViewerRow) : String := String.ofList (rows.flatMap lineOf)

theorem encode_append (s t : String) : encode (s ++ t) = encode s ++ encode t := by
  rw [encode, String.toList_append, List.flatMap_append]
  rfl

theorem textOf_append (rows others : List TraceViewerRow) :
    textOf (rows ++ others) = textOf rows ++ textOf others := by
  rw [textOf, List.flatMap_append, String.ofList_append]
  rfl

theorem textOf_singleton (row : TraceViewerRow) :
    textOf [row] = Json.dumps {} row.toSerialisable ++ "\n" := by
  rw [← String.toList_inj, textOf, String.toList_ofList, List.flatMap_singleton,
    String.toList_append]
  rfl

/-- The file has the rows line by line, and the offsets tell where each line begins. -/
theorem appendRows_eq (rows : List TraceViewerRow) :
    (TraceViewerStorageWriter.appendRows {} rows).file = encode (textOf rows) ∧
      (TraceViewerStorageWriter.appendRows {} rows).offsets =
        (List.range rows.length).map fun i => (encode (textOf (rows.take i))).length := by
  induction rows using List.reverseRecOn with
  | nil => exact ⟨rfl, rfl⟩
  | append_singleton rows row ih =>
    obtain ⟨hfile, hoffsets⟩ := ih
    have hstep : TraceViewerStorageWriter.appendRows {} (rows ++ [row]) =
        (TraceViewerStorageWriter.appendRows {} rows).appendRow row := by
      rw [TraceViewerStorageWriter.appendRows, List.foldl_append]
      rfl
    constructor
    · rw [hstep, TraceViewerStorageWriter.appendRow, hfile, textOf_append, textOf_singleton,
        encode_append, encode_append, List.append_assoc]
    · rw [hstep, TraceViewerStorageWriter.appendRow, hfile, hoffsets, List.length_append,
        List.length_singleton, List.range_succ, List.map_append, List.map_singleton,
        List.take_left]
      refine congrArg (· ++ _) (List.map_congr_left fun i hi => ?_)
      rw [List.take_append_of_le_length (List.mem_range.mp hi).le]

structure Opened (rows : List TraceViewerRow) (storage : TraceViewerStorage) : Prop where
  file : storage.file = encode (textOf rows)
  offsets : storage.offsets =
    (List.range rows.length).map fun i => (encode (textOf (rows.take i))).length

theorem opened_written (rows : List TraceViewerRow) : Opened rows (written rows).storage :=
  ⟨(appendRows_eq rows).1, (appendRows_eq rows).2⟩

section
variable {storage : TraceViewerStorage}

theorem Opened.length (h : Opened rows storage) : storage.offsets.length = rows.length := by
  rw [h.offsets, List.length_map, List.length_range]

theorem oneLine_row (h : Storable floatRepr row) :
    OneLine (Json.dumps {} row.toSerialisable).toList :=
  Json.oneLine_dumps rfl (by decide) (by decide) _ h.valid

theorem splitLines_textOf (hrows : ∀ row ∈ rows, Storable floatRepr row) :
    splitLines (textOf rows).toList = rows.map lineOf := by
  induction rows with
  | nil => rfl
  | cons row rows ih =>
    obtain ⟨hrow, hrest⟩ := List.forall_mem_cons.mp hrows
    rw [textOf, String.toList_ofList, List.flatMap_cons, lineOf, List.append_assoc,
      List.singleton_append, splitLines_line (oneLine_row hrow), List.map_cons, ← ih hrest,
      textOf, String.toList_ofList]
    rfl

/-- What is read at the offset of a row is the row. -/
theorem Opened.rowAt (h : Opened rows storage) (hrows : ∀ row ∈ rows, Storable floatRepr row)
    (i : Nat) : (storage.offsets[i]?).bind (storage.rowAt builtins floatRepr) = rows[i]? := by
  by_cases hi : i < rows.length
  · have hoffset : storage.offsets[i]? = some (encode (textOf (rows.take i))).length := by
      rw [h.offsets, List.getElem?_map, List.getElem?_range hi, Option.map_some]
    have hfile : storage.file = encode (textOf (rows.take i)) ++ encode (textOf (rows.drop i)) := by
      rw [h.file, ← encode_append, ← textOf_append, List.take_append_drop]
    have hlines := @splitLines_textOf floatRepr (rows.drop i)
      fun row hrow => hrows row (List.mem_of_mem_drop hrow)
    rw [List.drop_eq_getElem_cons hi, List.map_cons] at hlines
    rw [hoffset, Option.bind_some, TraceViewerStorage.rowAt, hfile, List.drop_left, decode_encode,
      Option.bind_some, List.drop_eq_getElem_cons hi, hlines, List.getElem?_eq_getElem hi]
    exact rowOfLine_lineOf (hrows _ (List.getElem_mem hi))
  · have hnone : storage.offsets[i]? = none := by
      rw [List.getElem?_eq_none_iff, h.length]
      exact not_lt.mp hi
    rw [hnone, List.getElem?_eq_none_iff.mpr (not_lt.mp hi)]
    rfl

/-- A line is not blank: it begins with a brace. -/
theorem strip_lineOf (row : TraceViewerRow) :
    (strip (String.ofList (lineOf row))).isEmpty = false := by
  have hline : ∃ rest, lineOf row = '\x7b' :: rest := by
    rw [lineOf, TraceViewerRow.toSerialisable, Json.dumps_obj rfl]
    exact ⟨_, rfl⟩
  obtain ⟨rest, hrest⟩ := hline
  have hhead : ('\x7b' :: rest).dropWhile isSpace = '\x7b' :: rest :=
    List.dropWhile_cons_of_neg (by decide)
  have hlast : ('\x7b' :: rest).reverse.dropWhile isSpace ≠ [] := by
    intro hnil
    exact absurd (List.dropWhile_eq_nil_iff.mp hnil '\x7b' (by simp)) (by decide)
  rw [strip, String.toList_ofList, hrest, hhead, String.isEmpty_eq_false_iff, ne_eq,
    ← String.toList_eq_nil_iff, String.toList_ofList, List.reverse_eq_nil_iff]
  exact hlast

theorem mapM_rowOfLine (hrows : ∀ row ∈ rows, Storable floatRepr row) :
    (rows.map lineOf).mapM (rowOfLine builtins floatRepr) = some rows := by
  induction rows with
  | nil => rfl
  | cons row rows ih =>
    obtain ⟨hrow, hrest⟩ := List.forall_mem_cons.mp hrows
    rw [List.map_cons, List.mapM_cons, rowOfLine_lineOf hrow, ih hrest]
    rfl

/-- All rows are read from the file. -/
theorem Opened.iterRows (h : Opened rows storage)
    (hrows : ∀ row ∈ rows, Storable floatRepr row) :
    storage.iterRows builtins floatRepr = some rows := by
  have hall : ((rows.map lineOf).filter fun line =>
      !(strip (String.ofList line)).isEmpty) = rows.map lineOf := by
    refine List.filter_eq_self.mpr fun line hline => ?_
    obtain ⟨row, -, rfl⟩ := List.mem_map.mp hline
    rw [strip_lineOf row]
    rfl
  rw [TraceViewerStorage.iterRows, h.file, decode_encode, Option.bind_some,
    splitLines_textOf hrows, hall, mapM_rowOfLine hrows]

end

end

end Ui.Storage
