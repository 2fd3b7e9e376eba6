import MentorAllocation.Data.Except
import MentorAllocation.Export.CsvWriter
import MentorAllocation.Text.Normalization

namespace Export
open Text Data Csv CsvWriter

section
variable {nfkc : String → String} {header : List String} {sensitive : SensitiveFields}
  {options : CsvOptions} {rows : List CsvRow} {row : CsvRow} {raw : Cell}

/-- Line breaks do not survive normalisation, nor does any other control character. -/
theorem normalizeCell_unbroken (nfkc : String → String) (raw : Cell) :
    ∀ c ∈ (normalizeCell nfkc raw).toList, isBreak c = false := by
  intro c hc
  have hkept : ' ' ≤ c := by
    have hmem := (strip_part _).subset hc
    rw [String.toList_ofList, List.mem_filter, decide_eq_true_eq] at hmem
    exact hmem.2
  have hge : 32 ≤ c.toNat := hkept
  rw [isBreak, Bool.or_eq_false_iff, beq_eq_false_iff_ne, beq_eq_false_iff_ne]
  constructor
  · rintro rfl
    exact absurd hge (by decide)
  · rintro rfl
    exact absurd hge (by decide)

/-- The guard puts an apostrophe in front, or nothing, and nothing before nothing. -/
theorem guardFormula_cases (nfkc : String → String) (text : String) (raw : Cell) :
    CsvWriter.guardFormula nfkc text raw = text ∨
      text ≠ "" ∧ CsvWriter.guardFormula nfkc text raw = "'" ++ text := by
  rw [CsvWriter.guardFormula]
  split
  · exact .inl rfl
  · next hne =>
    dsimp only
    split
    · exact .inl rfl
    · split
      · exact .inr ⟨fun he => hne (by rw [he]; rfl), rfl⟩
      · exact .inl rfl

theorem mem_prepare {c : Char} (hc : c ≠ '\x27') :
    c ∈ (prepare nfkc raw).toList ↔ c ∈ (normalizeCell nfkc raw).toList := by
  rcases guardFormula_cases nfkc (normalizeCell nfkc raw) raw with h | ⟨-, h⟩
  · rw [prepare, h]
  · rw [prepare, h, String.toList_append, List.mem_append]
    exact or_iff_right fun hmem => hc (List.mem_singleton.mp hmem)

theorem prepare_eq_empty : prepare nfkc raw = "" ↔ normalizeCell nfkc raw = "" := by
  rcases guardFormula_cases nfkc (normalizeCell nfkc raw) raw with h | ⟨hne, h⟩
  · rw [prepare, h]
  · rw [prepare, h]
    exact iff_of_false (by simp) hne

/-- A value as a field: in quotes when they are forced or a comma asks for them. -/
def fieldOf (value : String) (forceQuote : Bool) : Field :=
  ⟨forceQuote || value.toList.contains ',', value⟩

theorem renderValue_eq {value : String} (hvalue : ∀ c ∈ value.toList, isBreak c = false)
    (forceQuote : Bool) : renderValue value forceQuote = (fieldOf value forceQuote).render := by
  have hcontains : ∀ c, (escape value.toList).contains c = value.toList.contains c := by
    intro c
    rw [Bool.eq_iff_iff, List.contains_iff_mem, List.contains_iff_mem, mem_escape]
  have hbreak : ∀ c, isBreak c = true → value.toList.contains c = false := by
    intro c hc
    refine Bool.eq_false_iff.mpr fun hmem => ?_
    rw [hvalue c (List.contains_iff_mem.mp hmem)] at hc
    cases hc
  simp only [renderValue, hcontains, hbreak '\r' rfl, hbreak '\n' rfl, Bool.or_false, fieldOf,
    Field.render]
  rfl

theorem intercalate_render (fields : List Field) :
    [','].intercalate (fields.map Field.render) = renderRow fields := by
  induction fields with
  | nil => rfl
  | cons f rest ih =>
    cases rest with
    | nil => simp [renderRow, List.intercalate]
    | cons g rest => simpa [renderRow, List.intercalate] using ih

theorem serializeRow_eq {values : List String} (mask : List Bool) (newline : String)
    (h : ∀ value ∈ values, ∀ c ∈ value.toList, isBreak c = false) :
    serializeRow values mask newline =
      renderRow (List.zipWith fieldOf values mask) ++ newline.toList := by
  have hrender : List.zipWith renderValue values mask =
      (List.zipWith fieldOf values mask).map Field.render := by
    induction values generalizing mask with
    | nil => simp
    | cons value values ih =>
      obtain ⟨hvalue, hvalues⟩ := List.forall_mem_cons.mp h
      cases mask with
      | nil => rfl
      | cons force mask =>
        rw [List.zipWith_cons_cons, List.zipWith_cons_cons, List.map_cons, ih mask hvalues,
          renderValue_eq hvalue]
  rw [serializeRow, hrender, intercalate_render]

theorem prepare_unbroken (nfkc : String → String) (raw : Cell) :
    ∀ c ∈ (prepare nfkc raw).toList, isBreak c = false := by
  intro c hc
  by_cases he : c = '\x27'
  · rw [he]
    rfl
  · exact normalizeCell_unbroken nfkc raw c ((mem_prepare he).mp hc)

def headerFields (nfkc : String → String) (header : List String) : List Field :=
  List.zipWith fieldOf (header.map fun item => normalizeCell nfkc (.str item))
    (List.replicate header.length true)

def rowFields (nfkc : String → String) (header : List String) (sensitive : SensitiveFields)
    (row : CsvRow) : List Field :=
  List.zipWith fieldOf ((row.cells header).map (prepare nfkc)) (quoteMask header sensitive)

theorem ensureSequence_ok {ordered : List String}
    (h : ensureSequence nfkc header row = .ok ordered) :
    ordered = (row.cells header).map (prepare nfkc) ∧
      (row.cells header).length = header.length := by
  cases row with
  | mapping row =>
    obtain rfl := Except.ok.inj h
    exact ⟨rfl, by rw [CsvRow.cells, List.length_map]⟩
  | sequence seq =>
    rw [ensureSequence] at h
    split at h
    · cases h
    · next hlength =>
      obtain rfl := Except.ok.inj h
      exact ⟨rfl, not_not.mp hlength⟩

def values (nfkc : String → String) (header : List String) (row : CsvRow) : List String :=
  (row.cells header).map (prepare nfkc)

theorem serializeRows_values {newline : String} {lines : List Char}
    (h : serializeRows nfkc header sensitive newline rows = .ok lines) :
    lines = rows.flatMap (fun row =>
      serializeRow (values nfkc header row) (quoteMask header sensitive) newline) ∧
    ∀ row ∈ rows, (row.cells header).length = header.length := by
  induction rows generalizing lines with
  | nil =>
    obtain rfl := Except.ok.inj h
    exact ⟨rfl, fun _ hrow => absurd hrow List.not_mem_nil⟩
  | cons row rows ih =>
    obtain ⟨ordered, hordered, h⟩ := bind_eq_ok.mp h
    obtain ⟨rest, hrest, h⟩ := bind_eq_ok.mp h
    obtain rfl := Except.ok.inj h
    obtain ⟨rfl, hlength⟩ := ensureSequence_ok hordered
    obtain ⟨rfl, hlengths⟩ := ih hrest
    exact ⟨rfl, List.forall_mem_cons.mpr ⟨hlength, hlengths⟩⟩

theorem serializeRow_values (row : CsvRow) (newline : String) :
    serializeRow (values nfkc header row) (quoteMask header sensitive) newline =
      renderRow (rowFields nfkc header sensitive row) ++ newline.toList := by
  refine serializeRow_eq _ _ fun value hvalue => ?_
  obtain ⟨raw, -, rfl⟩ := List.mem_map.mp hvalue
  exact prepare_unbroken nfkc raw

theorem serializeRows_ok {newline : String} {lines : List Char}
    (h : serializeRows nfkc header sensitive newline rows = .ok lines) :
    lines = rows.flatMap (fun row =>
      renderRow (rowFields nfkc header sensitive row) ++ newline.toList) ∧
    ∀ row ∈ rows, (row.cells header).length = header.length := by
  obtain ⟨rfl, hlengths⟩ := serializeRows_values h
  exact ⟨by simp only [serializeRow_values], hlengths⟩

theorem afterBom_of_head {text : List Char} (h : text.head? ≠ some '\ufeff') :
    afterBom text = text := by
  rw [afterBom.eq_def]
  split
  · exact absurd rfl h
  · rfl

/-- The first line begins with a quote, or with the line break when there are no columns. -/
theorem headerLine_head (nfkc : String → String) (header : List String) {newline : List Char}
    (hnewline : Reader.IsNewline newline) (rest : List Char) :
    (renderRow (headerFields nfkc header) ++ newline ++ rest).head? ≠ some '\ufeff' := by
  cases header with
  | nil =>
    rcases hnewline with rfl | rfl
    · simp [headerFields, renderRow]
    · simp [headerFields, renderRow]
  | cons item header =>
    have hquote : ∀ value, (fieldOf value true).render = '"' :: (escape value.toList ++ ['"']) :=
      fun _ => rfl
    cases header with
    | nil => simp [headerFields, renderRow, hquote]
    | cons next header =>
      simp [headerFields, renderRow, hquote, List.replicate_succ]

theorem writeCsvAtomic_ok {text : List Char}
    (h : writeCsvAtomic nfkc header sensitive options rows = .ok text)
    (hnewline : Reader.IsNewline options.newline.toList) :
    afterBom text = (headerFields nfkc header :: rows.map (rowFields nfkc header sensitive)).flatMap
      (fun fields => renderRow fields ++ options.newline.toList) ∧
    ∀ row ∈ rows, (row.cells header).length = header.length := by
  obtain ⟨lines, hlines, h⟩ := bind_eq_ok.mp h
  obtain rfl := Except.ok.inj h
  obtain ⟨rfl, hlengths⟩ := serializeRows_ok hlines
  refine ⟨?_, hlengths⟩
  rw [serializeRow_eq, ← headerFields, List.flatMap_cons, List.flatMap_map]
  · cases options.includeBom with
    | true => rw [if_pos rfl, List.append_assoc, List.singleton_append]; rfl
    | false =>
      rw [if_neg Bool.false_ne_true, List.nil_append]
      exact afterBom_of_head (headerLine_head nfkc header hnewline _)
  · intro value hvalue
    obtain ⟨item, -, rfl⟩ := List.mem_map.mp hvalue
    exact normalizeCell_unbroken nfkc _

theorem fieldOf_plain {value : String} (hvalue : ∀ c ∈ value.toList, isBreak c = false)
    (forceQuote : Bool) : (fieldOf value forceQuote).Plain := by
  intro c hc
  refine ⟨hvalue c hc, ?_⟩
  rintro rfl
  have hcomma : value.toList.contains ',' = true := List.contains_iff_mem.mpr hc
  rw [fieldOf, hcomma, Bool.or_true]

theorem mem_zipWith_fieldOf {values : List String} {mask : List Bool} {f : Field} :
    f ∈ List.zipWith fieldOf values mask ↔ ∃ (i : Nat) (value : String) (forceQuote : Bool),
      values[i]? = some value ∧ mask[i]? = some forceQuote ∧ f = fieldOf value forceQuote := by
  simp only [List.mem_iff_getElem?, List.getElem?_zipWith_eq_some, eq_comm (a := f)]

theorem zipWith_fieldOf_plain {values : List String} {mask : List Bool}
    (h : ∀ value ∈ values, ∀ c ∈ value.toList, isBreak c = false) :
    ∀ f ∈ List.zipWith fieldOf values mask, f.Plain := by
  intro f hf
  obtain ⟨i, value, forceQuote, hvalue, -, rfl⟩ := mem_zipWith_fieldOf.mp hf
  exact fieldOf_plain (h value (List.mem_of_getElem? hvalue)) forceQuote

theorem zipWith_fieldOf_text {values : List String} {mask : List Bool}
    (h : values.length = mask.length) :
    (List.zipWith fieldOf values mask).map Field.text = values := by
  induction values generalizing mask with
  | nil => rfl
  | cons value values ih =>
    cases mask with
    | nil => cases h
    | cons forceQuote mask =>
      rw [List.zipWith_cons_cons, List.map_cons, ih (Nat.succ.inj h)]
      rfl

theorem quoteMask_length (header : List String) (sensitive : SensitiveFields) :
    (quoteMask header sensitive).length = header.length := by
  rw [quoteMask, List.length_map, List.length_range]

theorem mem_rowFields (hlength : (row.cells header).length = header.length) {f : Field} :
    f ∈ rowFields nfkc header sensitive row ↔ ∃ i raw, (row.cells header)[i]? = some raw ∧
      f = fieldOf (prepare nfkc raw) (sensitive.covers header i) := by
  rw [rowFields, mem_zipWith_fieldOf]
  constructor
  · rintro ⟨i, value, forceQuote, hvalue, hforce, rfl⟩
    rw [List.getElem?_map, Option.map_eq_some_iff] at hvalue
    obtain ⟨raw, hraw, rfl⟩ := hvalue
    rw [quoteMask, List.getElem?_map, Option.map_eq_some_iff] at hforce
    obtain ⟨j, hj, rfl⟩ := hforce
    obtain ⟨-, rfl⟩ := List.getElem?_eq_some_iff.mp hj
    rw [List.getElem_range]
    exact ⟨i, raw, hraw, rfl⟩
  · rintro ⟨i, raw, hraw, rfl⟩
    have hi : i < header.length := hlength ▸ (List.getElem?_eq_some_iff.mp hraw).1
    refine ⟨i, _, _, ?_, ?_, rfl⟩
    · rw [List.getElem?_map, hraw]
      rfl
    · rw [quoteMask, List.getElem?_map, List.getElem?_range hi]
      rfl

theorem legible_fieldOf {forceQuote : Bool} :
    (fieldOf (prepare nfkc raw) forceQuote).Legible ↔ forceQuote = true ∨
      ',' ∈ (normalizeCell nfkc raw).toList ∨ '"' ∉ (normalizeCell nfkc raw).toList := by
  rw [← mem_prepare (by decide), ← mem_prepare (by decide), Field.Legible, fieldOf,
    Bool.or_eq_true, List.contains_iff_mem, or_assoc]

/-- What a raw value needs to be read back as it was written: a quoted column, a comma that puts
it in quotes, or no quote in it and, in a table of one column, some text. -/
def ReadsBack (nfkc : String → String) (header : List String) (sensitive : SensitiveFields)
    (i : Nat) (raw : Cell) : Prop :=
  sensitive.covers header i = true ∨ ',' ∈ (normalizeCell nfkc raw).toList ∨
    '"' ∉ (normalizeCell nfkc raw).toList ∧ (header.length = 1 → normalizeCell nfkc raw ≠ "")

/-- The blank line comes of a single column that is not quoted and has no text. -/
theorem rowFields_blank (hlength : (row.cells header).length = header.length) :
    rowFields nfkc header sensitive row = [⟨false, ""⟩] ↔ header.length = 1 ∧
      ∃ raw, (row.cells header)[0]? = some raw ∧ sensitive.covers header 0 = false ∧
        normalizeCell nfkc raw = "" := by
  have hone : header.length = 1 → ∀ raw, (row.cells header)[0]? = some raw →
      rowFields nfkc header sensitive row =
        [fieldOf (prepare nfkc raw) (sensitive.covers header 0)] := by
    intro hlen raw hraw
    obtain ⟨cell, hcell⟩ := List.length_eq_one_iff.mp (hlength.trans hlen)
    rw [hcell] at hraw
    obtain rfl := Option.some.inj hraw
    rw [rowFields, hcell, quoteMask, hlen]
    rfl
  have hblank : ∀ raw forceQuote, fieldOf (prepare nfkc raw) forceQuote = ⟨false, ""⟩ ↔
      forceQuote = false ∧ normalizeCell nfkc raw = "" := by
    intro raw forceQuote
    rw [fieldOf, Field.mk.injEq, Bool.or_eq_false_iff, prepare_eq_empty, and_assoc,
      and_congr_right_iff]
    refine fun _ => and_iff_right_of_imp fun hempty => ?_
    rw [prepare_eq_empty.mpr hempty]
    rfl
  constructor
  · intro h
    have hlen : header.length = 1 := by
      have hfields := congrArg List.length h
      rwa [rowFields, List.length_zipWith, List.length_map, quoteMask_length, hlength,
        Nat.min_self] at hfields
    obtain ⟨raw, hraw⟩ : ∃ raw, (row.cells header)[0]? = some raw :=
      ⟨_, List.getElem?_eq_getElem (by omega)⟩
    rw [hone hlen raw hraw] at h
    exact ⟨hlen, raw, hraw, (hblank raw _).mp (List.cons.inj h).1⟩
  · rintro ⟨hlen, raw, hraw, hempty⟩
    rw [hone hlen raw hraw, (hblank raw _).mpr hempty]

theorem rowLegible_iff (hlength : (row.cells header).length = header.length) :
    RowLegible (rowFields nfkc header sensitive row) ↔
      ∀ i raw, (row.cells header)[i]? = some raw → ReadsBack nfkc header sensitive i raw := by
  rw [RowLegible, Ne, rowFields_blank hlength]
  constructor
  · rintro ⟨hblank, hlegible⟩ i raw hraw
    have hfield := legible_fieldOf.mp (hlegible _ ((mem_rowFields hlength).mpr ⟨i, raw, hraw, rfl⟩))
    by_cases hcovers : sensitive.covers header i = true
    · exact .inl hcovers
    · refine .inr ((hfield.resolve_left hcovers).imp_right fun hquote => ⟨hquote, ?_⟩)
      intro hlen hempty
      have hi : i < (row.cells header).length := (List.getElem?_eq_some_iff.mp hraw).1
      obtain rfl : i = 0 := by omega
      exact hblank ⟨hlen, raw, hraw, Bool.eq_false_iff.mpr hcovers, hempty⟩
  · intro h
    constructor
    · rintro ⟨hlen, raw, hraw, hcovers, hempty⟩
      rcases h 0 raw hraw with hcovered | hcomma | ⟨-, htext⟩
      · rw [hcovered] at hcovers
        cases hcovers
      · rw [hempty] at hcomma
        exact absurd hcomma List.not_mem_nil
      · exact htext hlen hempty
    · intro f hf
      obtain ⟨i, raw, hraw, rfl⟩ := (mem_rowFields hlength).mp hf
      exact legible_fieldOf.mpr ((h i raw hraw).imp_right (Or.imp_right And.left))

theorem headerFields_legible (nfkc : String → String) (header : List String) :
    RowLegible (headerFields nfkc header) := by
  have hquoted : ∀ f ∈ headerFields nfkc header, f.quoted = true := by
    intro f hf
    obtain ⟨i, value, forceQuote, -, hforce, rfl⟩ := mem_zipWith_fieldOf.mp hf
    rw [List.getElem?_replicate] at hforce
    split at hforce
    · obtain rfl := Option.some.inj hforce
      rfl
    · cases hforce
  refine ⟨fun h => ?_, fun f hf => .inl (hquoted f hf)⟩
  have := hquoted ⟨false, ""⟩ (h ▸ List.mem_singleton_self _)
  cases this

/-- The file is read back as the normalised header and the normalised and guarded values exactly
when each value is one that reads back. -/
theorem csv_round_trip_iff {text : List Char}
    (hnewline : options.newline.toList = ['\r', '\n'] ∨ options.newline.toList = ['\n'])
    (h : writeCsvAtomic nfkc header sensitive options rows = .ok text) :
    read (afterBom text) = some (header.map (fun item => normalizeCell nfkc (.str item)) ::
        rows.map fun row => (row.cells header).map (prepare nfkc)) ↔
      ∀ row ∈ rows, ∀ i raw, (row.cells header)[i]? = some raw →
        ReadsBack nfkc header sensitive i raw := by
  obtain ⟨htext, hlengths⟩ := writeCsvAtomic_ok h hnewline
  have hplain : ∀ fields ∈ headerFields nfkc header :: rows.map (rowFields nfkc header sensitive),
      ∀ f ∈ fields, f.Plain := by
    refine List.forall_mem_cons.mpr ⟨zipWith_fieldOf_plain fun value hvalue => ?_, ?_⟩
    · obtain ⟨item, -, rfl⟩ := List.mem_map.mp hvalue
      exact normalizeCell_unbroken nfkc _
    · intro fields hfields
      obtain ⟨row, -, rfl⟩ := List.mem_map.mp hfields
      refine zipWith_fieldOf_plain fun value hvalue => ?_
      obtain ⟨raw, -, rfl⟩ := List.mem_map.mp hvalue
      exact prepare_unbroken nfkc raw
  have htexts : (headerFields nfkc header :: rows.map (rowFields nfkc header sensitive)).map
      (List.map Field.text) = header.map (fun item => normalizeCell nfkc (.str item)) ::
        rows.map fun row => (row.cells header).map (prepare nfkc) := by
    rw [List.map_cons, List.map_map, headerFields, zipWith_fieldOf_text (by simp)]
    refine congrArg _ (List.map_congr_left fun row hrow => zipWith_fieldOf_text ?_)
    rw [List.length_map, quoteMask_length, hlengths row hrow]
  obtain ⟨got, hread, hgot⟩ := read_rows hnewline _ hplain
  rw [htext, hread, Option.some.injEq, ← htexts, hgot, List.forall_mem_cons,
    and_iff_right (headerFields_legible nfkc header), List.forall_mem_map]
  exact forall₂_congr fun row hrow => rowLegible_iff (hlengths row hrow)

end

/-- A table of two columns, the second of them sensitive, and two of its rows. -/
def quotedTable (name : String) : Except String (List Char) :=
  writeCsvAtomic id ["name", "value"] (.names ["value"]) {}
    [.sequence [.str name, .str "a\"b"], .sequence [.str "", .str ""]]

theorem csv_round_trip_iff_sample : ∃ text, quotedTable "x, \"y\"" = .ok text ∧
    (read (afterBom text) = some (["name", "value"].map
      (fun item => normalizeCell id (.str item)) ::
        [CsvRow.sequence [.str "x, \"y\"", .str "a\"b"], .sequence [.str "", .str ""]].map
          fun row => (row.cells ["name", "value"]).map (prepare id)) ↔
      ∀ row ∈ [CsvRow.sequence [.str "x, \"y\"", .str "a\"b"], .sequence [.str "", .str ""]],
        ∀ i raw, (row.cells ["name", "value"])[i]? = some raw →
          ReadsBack id ["name", "value"] (.names ["value"]) i raw) := by
  obtain ⟨text, h⟩ : ∃ text, quotedTable "x, \"y\"" = .ok text := ⟨_, rfl⟩
  exact ⟨text, h, csv_round_trip_iff (.inl rfl) h⟩

/-- A quote in a cell that is not quoted comes back as two. -/
theorem bare_quote_doubled : ∃ text, quotedTable "x\"y" = .ok text ∧
    read (afterBom text) = some [["name", "value"], ["x\"\"y", "a\"b"], ["", ""]] ∧
    read (afterBom text) ≠ some
      (["name", "value"].map (fun item => normalizeCell id (.str item)) ::
        [CsvRow.sequence [.str "x\"y", .str "a\"b"], .sequence [.str "", .str ""]].map
          fun row => (row.cells ["name", "value"]).map (prepare id)) := by
  refine ⟨_, rfl, ?_, ?_⟩
  · decide +kernel
  · decide +kernel

end Export
