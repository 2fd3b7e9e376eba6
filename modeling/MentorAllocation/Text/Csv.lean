import Mathlib.Data.List.Basic
import Mathlib.Data.String.Basic

namespace Csv

inductive ReaderState where
  | startRecord
  | startField
  | inField
  | inQuotedField
  | quoteInQuotedField
  | eatNewline
  | failed
  deriving DecidableEq, Repr

/-- A standard reader: fields are separated by commas, and in a quoted field a quote is doubled. -/
structure Reader where
  state : ReaderState
  field : List Char
  fields : List String

def isBreak (c : Char) : Bool := c == '\r' || c == '\n'

namespace Reader

def fresh : Reader := ⟨.startRecord, [], []⟩

def add (r : Reader) (c : Char) (state : ReaderState) : Reader :=
  ⟨state, r.field ++ [c], r.fields⟩

def save (r : Reader) (state : ReaderState) : Reader :=
  ⟨state, [], r.fields ++ [String.ofList r.field]⟩

def beginField (r : Reader) (c : Char) : Reader :=
  if isBreak c then r.save .eatNewline
  else if c = '"' then { r with state := .inQuotedField }
  else if c = ',' then r.save .startField
  else r.add c .inField

def step (r : Reader) (c : Char) : Reader :=
  match r.state with
  | .startRecord => if isBreak c then { r with state := .eatNewline } else r.beginField c
  | .startField => r.beginField c
  | .inField =>
    if isBreak c then r.save .eatNewline
    else if c = ',' then r.save .startField
    else r.add c .inField
  | .inQuotedField =>
    if c = '"' then { r with state := .quoteInQuotedField } else r.add c .inQuotedField
  | .quoteInQuotedField =>
    if c = '"' then r.add c .inQuotedField
    else if c = ',' then r.save .startField
    else if isBreak c then r.save .eatNewline
    else r.add c .inField
  | .eatNewline => if isBreak c then r else { r with state := .failed }
  | .failed => r

/-- The end of a line, which ends the record outside of quotes. -/
def endLine (r : Reader) : Reader :=
  match r.state with
  | .startField | .inField | .quoteInQuotedField => r.save .startRecord
  | .eatNewline => { r with state := .startRecord }
  | .startRecord | .inQuotedField | .failed => r

def readLine (r : Reader) (line : List Char) : Reader := (line.foldl step r).endLine

end Reader

/-- The records of the lines from here on; `none` is the reader's error. -/
def readLines : Reader → List (List Char) → Option (List (List String))
  | r, [] => if r.state = .inQuotedField then some [(r.save .startRecord).fields] else some []
  | r, line :: lines =>
    let r := r.readLine line
    if r.state = .failed then none
    else if r.state = .startRecord then (readLines .fresh lines).map (r.fields :: ·)
    else readLines r lines

def splitLines : List Char → List (List Char)
  | [] => []
  | '\r' :: '\n' :: rest => ['\r', '\n'] :: splitLines rest
  | c :: rest =>
    if isBreak c then [c] :: splitLines rest
    else match splitLines rest with
      | [] => [[c]]
      | line :: lines => (c :: line) :: lines

def read (text : List Char) : Option (List (List String)) := readLines .fresh (splitLines text)

def escape (text : List Char) : List Char :=
  text.flatMap fun c => if c = '"' then ['"', '"'] else [c]

structure Field where
  quoted : Bool
  text : String

namespace Field

def render (f : Field) : List Char :=
  if f.quoted then '"' :: (escape f.text.toList ++ ['"']) else escape f.text.toList

/-- The text stays on its line, and a comma in it is quoted. -/
def Plain (f : Field) : Prop :=
  ∀ c ∈ f.text.toList, isBreak c = false ∧ (c = ',' → f.quoted = true)

/-- What a field needs to be read back: no quote in it, unless it is quoted itself. -/
def Legible (f : Field) : Prop := f.quoted = true ∨ '"' ∉ f.text.toList

end Field

def renderRow : List Field → List Char
  | [] => []
  | [f] => f.render
  | f :: g :: rest => f.render ++ ',' :: renderRow (g :: rest)

theorem mem_escape {text : List Char} {c : Char} : c ∈ escape text ↔ c ∈ text := by
  rw [escape, List.mem_flatMap]
  constructor
  · rintro ⟨d, hd, hc⟩
    have he : c = d := by
      split at hc
      · next hquote => simpa [hquote] using hc
      · simpa using hc
    exact he ▸ hd
  · intro hc
    refine ⟨c, hc, ?_⟩
    split
    · next he => rw [he]; exact List.mem_cons_self
    · exact List.mem_cons_self

theorem length_escape (text : List Char) :
    (escape text).length = text.length + text.count '"' := by
  induction text with
  | nil => rfl
  | cons c text ih =>
    rw [escape, List.flatMap_cons, ← escape, List.length_append, ih, List.length_cons]
    split
    · next he =>
      rw [he, List.count_cons_self, List.length_cons, List.length_singleton]
      omega
    · next hne =>
      rw [List.count_cons_of_ne hne, List.length_singleton]
      omega

theorem escape_eq_self_iff {text : List Char} : escape text = text ↔ '"' ∉ text := by
  constructor
  · intro h
    have hlength := congrArg List.length h
    rw [length_escape] at hlength
    exact List.count_eq_zero.mp (by omega)
  · intro h
    induction text with
    | nil => rfl
    | cons c text ih =>
      rw [List.mem_cons, not_or] at h
      rw [escape, List.flatMap_cons, ← escape, ih h.2, if_neg (Ne.symm h.1)]
      rfl

namespace Reader
variable {r : Reader} {field : List Char} {fields : List String} {text : List Char}

theorem read_escaped (field : List Char) (text : List Char) :
    (escape text).foldl step ⟨.inQuotedField, field, fields⟩ =
    ⟨.inQuotedField, field ++ text, fields⟩ := by
  induction text generalizing field with
  | nil => rw [List.append_nil]; rfl
  | cons c text ih =>
    rw [escape, List.flatMap_cons, ← escape, List.foldl_append]
    split
    · next he =>
      subst he
      exact (ih (field ++ ['"'])).trans (by rw [List.append_assoc]; rfl)
    · next hne =>
      have hstep : step ⟨.inQuotedField, field, fields⟩ c =
        ⟨.inQuotedField, field ++ [c], fields⟩ :=
        if_neg hne
      rw [List.foldl_cons, List.foldl_nil, hstep, ih, List.append_assoc]
      rfl

/-- Outside of quotes every character but a comma or a line break is taken as it is. -/
theorem read_inField (h : ∀ c ∈ text, isBreak c = false ∧ c ≠ ',') :
    text.foldl step ⟨.inField, field, fields⟩ = ⟨.inField, field ++ text, fields⟩ := by
  induction text generalizing field with
  | nil => rw [List.append_nil]; rfl
  | cons c text ih =>
    obtain ⟨hc, htext⟩ := List.forall_mem_cons.mp h
    have hstep : step ⟨.inField, field, fields⟩ c = ⟨.inField, field ++ [c], fields⟩ := by
      simp only [step, hc.1, Bool.false_eq_true, if_false, if_neg hc.2]
      rfl
    rw [List.foldl_cons, hstep, ih htext, List.append_assoc]
    rfl

/-- A field has been read that the next comma or line break closes. -/
structure HasRead (got : List Char) (fields : List String) (r : Reader) : Prop where
  state : r.state = .startField ∨ r.state = .inField ∨ r.state = .quoteInQuotedField
  field : r.field = got
  fields : r.fields = fields

theorem HasRead.comma (h : HasRead text fields r) :
    r.step ',' = ⟨.startField, [], fields ++ [String.ofList text]⟩ := by
  obtain ⟨state, field, fields'⟩ := r
  obtain ⟨hstate, rfl, rfl⟩ := h
  rcases hstate with rfl | rfl | rfl
  · rfl
  · rfl
  · rfl

def IsNewline (newline : List Char) : Prop := newline = ['\r', '\n'] ∨ newline = ['\n']

theorem HasRead.newline {newline : List Char} (h : HasRead text fields r)
    (hnewline : IsNewline newline) :
    r.readLine newline = ⟨.startRecord, [], fields ++ [String.ofList text]⟩ := by
  obtain ⟨state, field, fields'⟩ := r
  obtain ⟨hstate, rfl, rfl⟩ := h
  rcases hnewline with rfl | rfl
  · rcases hstate with rfl | rfl | rfl
    · rfl
    · rfl
    · rfl
  · rcases hstate with rfl | rfl | rfl
    · rfl
    · rfl
    · rfl

/-- Behind a quote that may end the field, doubled quotes are halved until another character
comes, and from there on none is. -/
theorem read_afterQuote (field : List Char) (fields : List String)
    (h : ∀ c ∈ text, isBreak c = false ∧ c ≠ ',') :
    ∃ got, HasRead (field ++ got) fields
      ((escape text).foldl step ⟨.quoteInQuotedField, field, fields⟩) ∧ got ≠ '"' :: text := by
  induction text generalizing field with
  | nil => exact ⟨[], ⟨.inr (.inr rfl), (List.append_nil _).symm, rfl⟩, (List.cons_ne_nil _ _).symm⟩
  | cons c text ih =>
    obtain ⟨hc, htext⟩ := List.forall_mem_cons.mp h
    rw [escape, List.flatMap_cons, ← escape, List.foldl_append]
    split
    · next he =>
      subst he
      obtain ⟨got, hread, hne⟩ := ih (field ++ ['"']) htext
      refine ⟨'"' :: got, ?_, fun heq => hne (List.cons.inj heq).2⟩
      rw [List.append_assoc] at hread
      exact hread
    · next hne =>
      refine ⟨c :: escape text, ?_, fun heq => hne (List.cons.inj heq).1⟩
      have hstep : step ⟨.quoteInQuotedField, field, fields⟩ c =
          ⟨.inField, field ++ [c], fields⟩ := by
        simp only [step, hc.1, Bool.false_eq_true, if_false, if_neg hc.2, if_neg hne]
        rfl
      rw [List.foldl_cons, List.foldl_nil, hstep,
        read_inField fun c hc => htext c (mem_escape.mp hc), List.append_assoc]
      exact ⟨.inr (.inl rfl), rfl, rfl⟩

/-- A field without quotes around it, unless there is nothing of it. -/
theorem read_bare {state : ReaderState} (hstate : state = .startRecord ∨ state = .startField)
    (h : ∀ c ∈ text, isBreak c = false ∧ c ≠ ',') (hne : text ≠ []) :
    ∃ got, HasRead got fields ((escape text).foldl step ⟨state, [], fields⟩) ∧
      (got = text ↔ '"' ∉ text) := by
  cases text with
  | nil => exact absurd rfl hne
  | cons c text =>
    obtain ⟨hc, htext⟩ := List.forall_mem_cons.mp h
    have hbegin : step ⟨state, [], fields⟩ c = beginField ⟨state, [], fields⟩ c := by
      rcases hstate with rfl | rfl
      · simp only [step, hc.1, Bool.false_eq_true, if_false]
      · rfl
    rw [escape, List.flatMap_cons, ← escape, List.foldl_append]
    split
    · next he =>
      subst he
      obtain ⟨got, hread, hgot⟩ := read_afterQuote [] fields htext
      rw [List.foldl_cons, List.foldl_cons, List.foldl_nil, hbegin]
      exact ⟨got, hread, iff_of_false hgot fun hnot => hnot List.mem_cons_self⟩
    · next hquote =>
      have hstep : beginField ⟨state, [], fields⟩ c = ⟨.inField, [c], fields⟩ := by
        simp only [beginField, hc.1, Bool.false_eq_true, if_false, if_neg hc.2, if_neg hquote]
        rfl
      rw [List.foldl_cons, List.foldl_nil, hbegin, hstep,
        read_inField fun c hc => htext c (mem_escape.mp hc)]
      refine ⟨c :: escape text, ⟨.inr (.inl rfl), rfl, rfl⟩, ?_⟩
      rw [List.cons.injEq, List.mem_cons, not_or, ← escape_eq_self_iff]
      exact and_congr_left fun _ => ⟨fun _ => Ne.symm hquote, fun _ => rfl⟩

/-- A field as it is written, unless a record begins with nothing of it. -/
theorem read_field (fields : List String) {state : ReaderState} {f : Field} (hplain : f.Plain)
    (hstate : state = .startField ∨ state = .startRecord ∧ f.render ≠ []) :
    ∃ got, HasRead got fields (f.render.foldl step ⟨state, [], fields⟩) ∧
      (String.ofList got = f.text ↔ f.Legible) := by
  have hstart : state = .startRecord ∨ state = .startField := hstate.symm.imp And.left id
  have hlegible : ∀ got : List Char, String.ofList got = f.text ↔ got = f.text.toList := by
    intro got
    rw [← String.toList_inj, String.toList_ofList]
  cases hquoted : f.quoted with
  | true =>
    have hopen : step ⟨state, [], fields⟩ '"' = ⟨.inQuotedField, [], fields⟩ := by
      rcases hstart with rfl | rfl
      · rfl
      · rfl
    rw [Field.render, hquoted, if_pos rfl, List.foldl_cons, hopen, List.foldl_append, read_escaped]
    exact ⟨f.text.toList, ⟨.inr (.inr rfl), rfl, rfl⟩,
      iff_of_true ((hlegible _).mpr rfl) (.inl hquoted)⟩
  | false =>
    have hlegible' : f.Legible ↔ '"' ∉ f.text.toList := by
      simp only [Field.Legible, hquoted, Bool.false_eq_true, false_or]
    have hbare : ∀ c ∈ f.text.toList, isBreak c = false ∧ c ≠ ',' := by
      intro c hc
      refine ⟨(hplain c hc).1, fun hcomma => ?_⟩
      rw [(hplain c hc).2 hcomma] at hquoted
      cases hquoted
    have hrender : f.render = escape f.text.toList := by
      rw [Field.render, hquoted]
      rfl
    rw [hrender] at hstate ⊢
    simp only [hlegible, hlegible']
    by_cases hne : f.text.toList = []
    · rw [hne] at hstate ⊢
      have hfield : state = .startField := hstate.resolve_right fun h => h.2 rfl
      subst hfield
      exact ⟨[], ⟨.inl rfl, rfl, rfl⟩, iff_of_true rfl List.not_mem_nil⟩
    · exact read_bare hstart hbare hne

/-- A field and the comma behind it. -/
theorem read_comma (fields : List String) {state : ReaderState} {f : Field} (hplain : f.Plain)
    (hstate : state = .startField ∨ state = .startRecord) :
    ∃ got, (f.render ++ [',']).foldl step ⟨state, [], fields⟩ = ⟨.startField, [], fields ++ [got]⟩ ∧
      (got = f.text ↔ f.Legible) := by
  by_cases hblank : f.render = []
  · obtain ⟨got, hread, hgot⟩ := read_field fields hplain (.inl rfl)
    refine ⟨_, ?_, hgot⟩
    have hcomma := hread.comma
    rw [hblank] at hcomma ⊢
    rcases hstate with rfl | rfl
    · exact hcomma
    · exact hcomma
  · obtain ⟨got, hread, hgot⟩ :=
      read_field fields hplain (hstate.imp_right fun h => ⟨h, hblank⟩)
    exact ⟨_, by rw [List.foldl_append]; exact hread.comma, hgot⟩

/-- The fields of a row come back one for one. -/
theorem read_row (fields : List String) {newline : List Char} (hnewline : IsNewline newline)
    (row : List Field)
    (hplain : ∀ f ∈ row, f.Plain) {state : ReaderState} (hne : row ≠ [])
    (hstate : state = .startField ∨ state = .startRecord ∧ renderRow row ≠ []) :
    ∃ got, readLine ⟨state, [], fields⟩ (renderRow row ++ newline) =
        ⟨.startRecord, [], fields ++ got⟩ ∧
      (got = row.map Field.text ↔ ∀ f ∈ row, f.Legible) := by
  induction row generalizing fields state with
  | nil => exact absurd rfl hne
  | cons f rest ih =>
    obtain ⟨hf, hrest⟩ := List.forall_mem_cons.mp hplain
    cases rest with
    | nil =>
      obtain ⟨got, hread, hgot⟩ := read_field fields hf hstate
      refine ⟨[String.ofList got], ?_, ?_⟩
      · rw [readLine, List.foldl_append]
        exact hread.newline hnewline
      · rw [List.map_cons, List.map_nil, List.cons.injEq, hgot]
        simp
    | cons g rest =>
      obtain ⟨got, hcomma, hgot⟩ :=
        read_comma fields hf (hstate.imp_right And.left)
      obtain ⟨gots, hread, hgots⟩ := ih (fields ++ [got]) hrest (List.cons_ne_nil _ _)
        (.inl rfl)
      refine ⟨got :: gots, ?_, ?_⟩
      · have hsplit : renderRow (f :: g :: rest) ++ newline =
            (f.render ++ [',']) ++ (renderRow (g :: rest) ++ newline) := by
          simp [renderRow]
        rw [readLine, hsplit, List.foldl_append, hcomma]
        rw [List.append_assoc] at hread
        exact hread
      · rw [List.map_cons, List.cons.injEq, hgot, hgots]
        exact List.forall_mem_cons.symm

end Reader

/-- A row comes back as it is when all its fields do; a single empty field without quotes makes
the blank line of a row without fields. -/
def RowLegible (row : List Field) : Prop :=
  row ≠ [⟨false, ""⟩] ∧ ∀ f ∈ row, f.Legible

open Reader

section
variable {newline : List Char}

theorem render_eq_nil {f : Field} : f.render = [] ↔ f = ⟨false, ""⟩ := by
  obtain ⟨quoted, text⟩ := f
  cases quoted with
  | true => simp [Field.render]
  | false =>
    rw [Field.render, if_neg Bool.false_ne_true, Field.mk.injEq, ← List.length_eq_zero_iff,
      length_escape]
    constructor
    · intro h
      have hlength : text.toList.length = 0 := (Nat.add_eq_zero_iff.mp h).1
      exact ⟨rfl, String.toList_eq_nil_iff.mp (List.length_eq_zero_iff.mp hlength)⟩
    · rintro ⟨-, rfl⟩
      rfl

theorem renderRow_eq_nil {row : List Field} :
    renderRow row = [] ↔ row = [] ∨ row = [⟨false, ""⟩] := by
  cases row with
  | nil => simp [renderRow]
  | cons f rest =>
    cases rest with
    | nil => simp [renderRow, render_eq_nil]
    | cons g rest => simp [renderRow]

theorem readLine_row (hnewline : IsNewline newline) {row : List Field}
    (hplain : ∀ f ∈ row, f.Plain) :
    ∃ got, Reader.fresh.readLine (renderRow row ++ newline) = ⟨.startRecord, [], got⟩ ∧
      (got = row.map Field.text ↔ RowLegible row) := by
  by_cases hblank : renderRow row = []
  · have hline : Reader.fresh.readLine newline = ⟨.startRecord, [], []⟩ := by
      rcases hnewline with rfl | rfl
      · rfl
      · rfl
    refine ⟨[], by rw [hblank]; exact hline, ?_⟩
    rcases renderRow_eq_nil.mp hblank with rfl | rfl
    · simp [RowLegible]
    · simp [RowLegible]
  · have hrow : row ≠ [] ∧ row ≠ [⟨false, ""⟩] := by
      rw [renderRow_eq_nil, not_or] at hblank
      exact hblank
    obtain ⟨got, hread, hgot⟩ :=
      read_row [] hnewline row hplain hrow.1 (.inr ⟨rfl, hblank⟩)
    exact ⟨got, hread, hgot.trans (and_iff_right hrow.2).symm⟩

theorem splitLines_line (hnewline : IsNewline newline) {line : List Char}
    (hline : ∀ c ∈ line, isBreak c = false) (rest : List Char) :
    splitLines (line ++ newline ++ rest) = (line ++ newline) :: splitLines rest := by
  induction line with
  | nil =>
    rcases hnewline with rfl | rfl
    · rfl
    · rw [List.nil_append, List.singleton_append, splitLines.eq_def]
      rfl
  | cons c line ih =>
    obtain ⟨hc, hline⟩ := List.forall_mem_cons.mp hline
    have hcr : c ≠ '\r' := by
      rintro rfl
      cases hc
    rw [List.cons_append, List.cons_append, splitLines]
    · rw [hc, ih hline]
      rfl
    · exact fun rest he => absurd he hcr

theorem isBreak_render {f : Field} (hplain : f.Plain) : ∀ c ∈ f.render, isBreak c = false := by
  intro c hc
  rw [Field.render] at hc
  split at hc
  · rcases List.mem_cons.mp hc with rfl | hc
    · rfl
    · rcases List.mem_append.mp hc with hc | hc
      · exact (hplain c (mem_escape.mp hc)).1
      · rw [List.mem_singleton.mp hc]
        rfl
  · exact (hplain c (mem_escape.mp hc)).1

theorem isBreak_renderRow {row : List Field} (hplain : ∀ f ∈ row, f.Plain) :
    ∀ c ∈ renderRow row, isBreak c = false := by
  induction row with
  | nil => exact fun c hc => absurd hc List.not_mem_nil
  | cons f rest ih =>
    obtain ⟨hf, hrest⟩ := List.forall_mem_cons.mp hplain
    cases rest with
    | nil => exact isBreak_render hf
    | cons g rest =>
      intro c hc
      rcases List.mem_append.mp hc with hc | hc
      · exact isBreak_render hf c hc
      · rcases List.mem_cons.mp hc with rfl | hc
        · rfl
        · exact ih hrest c hc

/-- Rows written one a line are read back row by row. -/
theorem read_rows (hnewline : IsNewline newline) (rows : List (List Field))
    (hplain : ∀ row ∈ rows, ∀ f ∈ row, f.Plain) :
    ∃ got, read (rows.flatMap fun row => renderRow row ++ newline) = some got ∧
      (got = rows.map (List.map Field.text) ↔ ∀ row ∈ rows, RowLegible row) := by
  induction rows with
  | nil => exact ⟨[], rfl, iff_of_true rfl fun _ h => absurd h List.not_mem_nil⟩
  | cons row rows ih =>
    obtain ⟨hrow, hrows⟩ := List.forall_mem_cons.mp hplain
    obtain ⟨gots, hread, hgots⟩ := ih hrows
    obtain ⟨got, hline, hgot⟩ := readLine_row hnewline hrow
    refine ⟨got :: gots, ?_, ?_⟩
    · rw [read, List.flatMap_cons, splitLines_line hnewline (isBreak_renderRow hrow), readLines,
        hline]
      rw [read] at hread
      simp only [hread, Option.map_some]
      rfl
    · rw [List.map_cons, List.cons.injEq, hgot, hgots]
      exact List.forall_mem_cons.symm

end

end Csv
