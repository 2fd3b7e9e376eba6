import MentorAllocation.Data.Dict
import MentorAllocation.Text.Formula
import MentorAllocation.Text.Numbers
import MentorAllocation.Xlsx.Writer

namespace Xlsx
open Text Export

section
variable {L : Library} {column raw : String} {c : Char}

/-- Neither white space nor a control character nor one of zero width. -/
def visible (c : Char) : Bool :=
  !zeroWidthPattern.contains c && (!controlPattern c && !isSpace c)

/-- What NFC promises of the formula characters: it makes none of them out of other characters
and moves none of them to the front. -/
def KeepsFormulas (nfc : String → String) : Prop :=
  ∀ s, ∀ c ∈ formulaChars, (nfc s).toList.find? visible = some c → s.toList.find? visible = some c

theorem keepsFormulas_id : KeepsFormulas id := fun _ _ _ h => h

theorem whitespaceCollapse_find? (inside : Bool) (cs : List Char) :
    (whitespaceCollapse inside cs).find? (fun c => !isSpace c) =
      cs.find? fun c => !isSpace c := by
  induction cs generalizing inside with
  | nil => rfl
  | cons c cs ih =>
    rw [whitespaceCollapse]
    cases hc : isSpace c with
    | false =>
      rw [if_neg Bool.false_ne_true, List.find?_cons, List.find?_cons, hc]
      rfl
    | true =>
      have hblank : isSpace ' ' = true := rfl
      cases inside with
      | false => simp [hc, hblank, ih]
      | true => simp [hc, ih]

theorem normalizeText_head (nfc : String → String) (value : String) :
    (normalizeText nfc value).toList.head? =
      (((nfc value).toList.find? visible).map fun c =>
        ([('\u064a', 'ی'), ('\u0643', 'ک')].lookup c).getD c).map fun c =>
          ([('\r', ' '), ('\n', ' ')].lookup c).getD c := by
  rw [normalizeText, strip_head, String.toList_ofList, whitespaceCollapse_find?, find?_keep,
    find?_translate (by decide), find?_remove]
  congr 1
  exact find?_translate (by decide)

theorem normalizeText_begins {nfc : String → String} {value : String} :
    BeginsFormula (normalizeText nfc value) ↔
      ∃ c ∈ formulaChars, (nfc value).toList.find? visible = some c := by
  have hletters : Inert [('\u064a', 'ی'), ('\u0643', 'ک')] := by decide
  have hbreaks : Inert [('\r', ' '), ('\n', ' ')] := by decide
  refine exists_congr fun c => and_congr_right fun hc => ?_
  rw [normalizeText_head]
  constructor
  · intro h
    obtain ⟨d, hd, he⟩ := Option.map_eq_some_iff.mp h
    obtain ⟨e, hfirst, hde⟩ := Option.map_eq_some_iff.mp hd
    rw [(hbreaks.getD_eq hc).mp he] at hde
    rwa [← (hletters.getD_eq hc).mp hde]
  · intro h
    rw [h, Option.map_some, Option.map_some, (hletters.getD_eq hc).mpr rfl,
      (hbreaks.getD_eq hc).mpr rfl]

/-- A normalised text begins with a visible character. -/
theorem normalizeText_visible {nfc : String → String} {value : String}
    (h : (normalizeText nfc value).toList.head? = some c) : visible c = true := by
  rw [normalizeText_head] at h
  obtain ⟨d, hd, rfl⟩ := Option.map_eq_some_iff.mp h
  obtain ⟨e, he, rfl⟩ := Option.map_eq_some_iff.mp hd
  exact (class_translate (by decide) _).trans
    ((class_translate (by decide) e).trans (List.find?_some he))

/-- A text that is cut begins as it did. -/
theorem cut_begins {text : String} (h : BeginsFormula (if maxCellLength < text.length then
    String.ofList (text.toList.take (maxCellLength - 1)) ++ "…" else text)) :
    BeginsFormula text := by
  split at h
  · next hlong =>
    obtain ⟨c, hc, hhead⟩ := h
    refine ⟨c, hc, ?_⟩
    cases htext : text.toList with
    | nil =>
      rw [← String.length_toList, htext] at hlong
      exact absurd hlong (Nat.not_lt_zero _)
    | cons d rest =>
      rw [String.toList_append, String.toList_ofList, htext, maxCellLength,
        List.take_succ_cons] at hhead
      exact hhead
  · exact h

theorem safeCell_safe {text : String} (h : ∀ c, text.toList.head? = some c → isSpace c = false) :
    ¬ BeginsFormula (safeCell text) := by
  have hbreaks : Inert [('\r', ' '), ('\n', ' ')] := by decide
  have hstrip : ∀ t : String, (∀ c, t.toList.head? = some c → isSpace c = false) →
      ¬ BeginsFormula t →
        ¬ BeginsFormula (strip (Text.translate [('\r', ' '), ('\n', ' ')] t)) := by
    rintro t ht hsafe ⟨c, hc, hhead⟩
    rw [strip_head, hbreaks.find?_translate (by decide) hc,
      find?_of_head fun d hd => by rw [ht d hd]; rfl] at hhead
    exact hsafe ⟨c, hc, hhead⟩
  have hguarded : ¬ BeginsFormula (strip (Text.translate [('\r', ' '), ('\n', ' ')]
      (if text.toList.head?.any riskyPrefixes.contains then "'" ++ text else text))) := by
    split
    · refine hstrip _ (fun c hc => ?_) ?_
      · rw [String.toList_append] at hc
        obtain rfl := Option.some.inj hc
        rfl
      · rintro ⟨c, hc, hhead⟩
        rw [String.toList_append] at hhead
        obtain rfl := Option.some.inj hhead
        exact absurd hc (by decide)
    · next hrisky =>
      refine hstrip _ h ?_
      rintro ⟨c, hc, hhead⟩
      refine hrisky ?_
      rw [hhead, Option.any_some, List.contains_iff_mem]
      exact List.mem_append_left ['\t', '\r', '\n'] hc
  exact fun hsafe => hguarded (cut_begins hsafe)

theorem sanitizePhone_safe (nfkc : String → String) (text : String) :
    ¬ BeginsFormula (sanitizePhone nfkc text) := by
  rintro ⟨c, hc, hhead⟩
  have hmem := List.mem_of_head? hhead
  rw [sanitizePhone, String.toList_ofList, List.mem_filter] at hmem
  have hnone : formulaChars.all (fun c => !isDigit c) = true := by rfl
  have := List.all_eq_true.mp hnone c hc
  rw [hmem.2] at this
  cases this

/-- Behind white space and characters that are dropped, a sensitive text begins like a formula; in
a school code it may be a number that is not negative. -/
def Exposed (L : Library) (column raw : String) : Prop :=
  column ∈ sensitiveColumns ∧ column ≠ "mobile" ∧
    (∃ c ∈ formulaChars, (L.nfc raw).toList.find? visible = some c) ∧
    (column = "school_code" → ∀ n, parseInt (normalizeText L.nfc raw) = some n → n < 0)

theorem normalizeDigitsAscii_begins {text : String} :
    BeginsFormula (normalizeDigitsAscii text) ↔ BeginsFormula text :=
  Inert.translate_begins (by decide)

/-- A column that is not sensitive is guarded. -/
theorem prepareValue_plain (h : column ∉ sensitiveColumns) (raw : String) :
    ¬ BeginsFormula (prepareValue L column raw) := by
  have hcolumn : (column == "school_code") = false := by
    refine Bool.eq_false_iff.mpr fun he => h ?_
    rw [eq_of_beq he]
    decide
  rw [prepareValue, hcolumn, if_neg (by rwa [List.contains_iff_mem])]
  refine safeCell_safe fun c hc => ?_
  rw [normalizeDigitsFa, Text.translate, String.toList_ofList, List.head?_map] at hc
  obtain ⟨d, hd, rfl⟩ := Option.map_eq_some_iff.mp hc
  refine (class_translate (by decide) d).trans ?_
  have hvisible := normalizeText_visible hd
  rw [visible, Bool.and_eq_true_iff, Bool.and_eq_true_iff] at hvisible
  exact (Bool.not_eq_true' _).mp hvisible.2.2

theorem prepareValue_schoolCode : BeginsFormula (prepareValue L "school_code" raw) ↔
    BeginsFormula (normalizeText L.nfc raw) ∧
      ∀ n, parseInt (normalizeText L.nfc raw) = some n → n < 0 := by
  have hsensitive : sensitiveColumns.contains "school_code" = true := by decide
  have hmobile : ("school_code" == "mobile") = false := by decide
  rw [prepareValue, hsensitive, hmobile, if_pos rfl, if_neg Bool.false_ne_true,
    beq_self_eq_true, Bool.true_and, normalizeDigitsAscii_begins]
  split
  · split
    · next n hparse =>
      rw [hparse, zeroPad_begins]
      constructor
      · intro hn
        refine ⟨⟨'-', by decide, ?_⟩, fun m hm => Option.some.inj hm ▸ hn⟩
        rw [← parseInt_negative hparse hn, normalizeText, strip_strip]
      · intro h
        exact h.2 n rfl
    · next hparse =>
      rw [hparse, normalizeDigitsAscii_begins]
      exact (and_iff_left fun n hn => by cases hn).symm
  · next hempty =>
    have htext : (normalizeText L.nfc raw).isEmpty = true := by simpa using hempty
    rw [String.isEmpty_iff.mp htext]
    exact ⟨fun h => absurd h (by decide), And.left⟩

/-- The columns whose text is written as it was normalised. -/
theorem prepareValue_sensitive (h : column ∈ sensitiveColumns) (hmobile : column ≠ "mobile")
    (hschool : column ≠ "school_code") :
    prepareValue L column raw = normalizeDigitsAscii (normalizeText L.nfc raw) := by
  rw [prepareValue, beq_eq_false_iff_ne.mpr hschool, beq_eq_false_iff_ne.mpr hmobile,
    if_pos (List.contains_iff_mem.mpr h)]
  rfl

theorem prepareValue_begins :
    BeginsFormula (prepareValue L column raw) ↔ Exposed L column raw := by
  rw [Exposed, ← normalizeText_begins]
  by_cases hsensitive : column ∈ sensitiveColumns
  · by_cases hmobile : column = "mobile"
    · subst hmobile
      exact iff_of_false (sanitizePhone_safe L.nfkc _) fun h => h.2.1 rfl
    · rw [and_iff_right hsensitive, and_iff_right hmobile]
      by_cases hschool : column = "school_code"
      · subst hschool
        rw [prepareValue_schoolCode, imp_iff_right rfl]
      · rw [prepareValue_sensitive hsensitive hmobile hschool, normalizeDigitsAscii_begins]
        exact (and_iff_left fun h => absurd h hschool).symm
  · exact iff_of_false (prepareValue_plain hsensitive raw) fun h => hsensitive h.1

theorem visible_digit (h : c.isDigit = true) : visible c = true := by
  obtain ⟨hlo, hhi⟩ := isDigit_bounds h
  have hwidth : zeroWidthPattern.contains c = false := by
    refine Bool.eq_false_iff.mpr fun hmem => ?_
    have hwide : zeroWidthPattern.all (fun d => decide (57 < d.toNat)) = true := by rfl
    have := of_decide_eq_true (List.all_eq_true.mp hwide c (List.contains_iff_mem.mp hmem))
    omega
  have hcontrol : controlPattern c = false := by
    simp [controlPattern]
    omega
  rw [visible, hwidth, hcontrol, isSpace_digit h]
  rfl

/-- What is written in a sensitive column begins with a visible character. -/
theorem prepareValue_visible (h : column ∈ sensitiveColumns) (hmobile : column ≠ "mobile")
    (hc : (prepareValue L column raw).toList.head? = some c) : visible c = true := by
  have hdigits : ∀ text : String, (∀ d, text.toList.head? = some d → visible d = true) →
      ∀ d, (normalizeDigitsAscii text).toList.head? = some d → visible d = true := by
    intro text htext d hd
    rw [normalizeDigitsAscii, Text.translate, String.toList_ofList, List.head?_map] at hd
    obtain ⟨e, he, rfl⟩ := Option.map_eq_some_iff.mp hd
    exact (class_translate (by decide) e).trans (htext e he)
  have hnormal : ∀ d, (normalizeText L.nfc raw).toList.head? = some d → visible d = true :=
    fun _ => normalizeText_visible
  by_cases hschool : column = "school_code"
  · subst hschool
    have hsensitive : sensitiveColumns.contains "school_code" = true := by decide
    have hother : ("school_code" == "mobile") = false := by decide
    rw [prepareValue, hsensitive, hother, if_pos rfl, if_neg Bool.false_ne_true] at hc
    refine hdigits _ ?_ c hc
    split
    · split
      · next n _ =>
        intro d hd
        rcases zeroPad_chars (List.mem_of_head? hd) with rfl | hdigit
        · rfl
        · exact visible_digit hdigit
      · exact hdigits _ hnormal
    · exact hnormal
  · rw [prepareValue_sensitive h hmobile hschool] at hc
    exact hdigits _ hnormal c hc

/-- A text that is prepared twice is exposed when it was the first time. -/
theorem exposed_again (hnfc : KeepsFormulas L.nfc)
    (h : Exposed L column (prepareValue L column raw)) : Exposed L column raw := by
  obtain ⟨hsensitive, hmobile, ⟨c, hc, hfirst⟩, -⟩ := h
  refine prepareValue_begins.mp ⟨c, hc, ?_⟩
  rw [← find?_of_head fun d hd => prepareValue_visible hsensitive hmobile hd]
  exact hnfc _ c hc hfirst

def csvLines (rows : List Row) : List (List String) :=
  exportColumns :: rows.map fun row => exportColumns.map fun column => (row.lookup column).getD ""

theorem mem_prepareRow {raw : RawRow} {cell : String × String} : cell ∈ prepareRow L raw ↔
    ∃ column ∈ exportColumns, (column, prepareValue L column (rawText raw column)) = cell := by
  rw [prepareRow, List.mem_map]

theorem prepareRow_lookup {raw : RawRow} (h : column ∈ exportColumns) :
    (prepareRow L raw).lookup column = some (prepareValue L column (rawText raw column)) := by
  rw [prepareRow]
  generalize exportColumns = columns at h
  induction columns with
  | nil => cases h
  | cons first rest ih =>
    rw [List.map_cons, List.lookup_cons]
    by_cases he : column = first
    · rw [he, beq_self_eq_true]
    · rw [beq_eq_false_iff_ne.mpr he]
      exact ih ((List.mem_cons.mp h).resolve_left he)

theorem exportColumns_safe : ∀ column ∈ exportColumns, ¬ BeginsFormula column := by
  decide

theorem iterChunks_flatten {α : Type} (chunkSize : Nat) (batch items : List α) :
    (iterChunks chunkSize batch items).flatten = batch ++ items := by
  induction items generalizing batch with
  | nil =>
    rw [iterChunks, List.append_nil]
    cases batch with
    | nil => rfl
    | cons item batch => exact List.append_nil _
  | cons item items ih =>
    rw [iterChunks]
    split
    · rw [List.flatten_cons, ih, List.append_assoc]
      rfl
    · rw [ih, List.append_assoc]
      rfl

/-- Every line of a workbook is the header or a row that is prepared once more. -/
theorem mem_sheets {chunkSize : Nat} {rows : List Row} {sheet : String × List (List String)}
    {line : List String} (hsheet : sheet ∈ sheets L chunkSize rows) (hline : line ∈ sheet.2) :
    line = exportColumns ∨ ∃ row ∈ rows,
      line = (prepareRow L (row.map fun (column, text) => (column, .str text))).map Prod.snd := by
  rw [sheets] at hsheet
  obtain ⟨⟨chunk, index⟩, hchunk, rfl⟩ := List.mem_map.mp hsheet
  refine (List.mem_cons.mp hline).imp_right fun hrow => ?_
  obtain ⟨row, hinside, rfl⟩ := List.mem_map.mp hrow
  refine ⟨row, ?_, rfl⟩
  have hmem := (List.mem_zipIdx hchunk).2.2 ▸ List.getElem_mem _
  split at hmem
  · rw [List.mem_singleton.mp hmem] at hinside
    cases hinside
  · have hflat : row ∈ (iterChunks chunkSize [] rows).flatten :=
      List.mem_flatten_of_mem hmem hinside
    rwa [iterChunks_flatten] at hflat

theorem rawText_prepared {raw : RawRow} (h : column ∈ exportColumns) :
    rawText ((prepareRow L raw).map fun (column, text) => (column, .str text)) column =
      prepareValue L column (rawText raw column) := by
  have hlookup : ((prepareRow L raw).map fun (column, text) => (column, Cell.str text)).lookup
      column = ((prepareRow L raw).lookup column).map Cell.str :=
    Data.lookup_map Cell.str _ column
  rw [rawText, hlookup, prepareRow_lookup h, Option.map_some]

/-- No cell that is prepared, none of the CSV file and none of the workbook begins like a formula
exactly when no raw text of a sensitive column does. -/
theorem workflow_guard_iff (hnfc : KeepsFormulas L.nfc) (chunkSize : Nat) (raws : List RawRow) :
    (∀ raw ∈ raws, ∀ cell ∈ prepareRow L raw, ¬ BeginsFormula cell.2) ∧
    (∀ line ∈ csvLines (raws.map (prepareRow L)), ∀ cell ∈ line, ¬ BeginsFormula cell) ∧
    (∀ sheet ∈ sheets L chunkSize (raws.map (prepareRow L)),
      ∀ line ∈ sheet.2, ∀ cell ∈ line, ¬ BeginsFormula cell) ↔
    ∀ raw ∈ raws, ∀ column ∈ exportColumns, ¬ Exposed L column (rawText raw column) := by
  constructor
  · rintro ⟨hprepared, -, -⟩ raw hraw column hcolumn hexposed
    have hcell : (column, prepareValue L column (rawText raw column)) ∈ prepareRow L raw :=
      mem_prepareRow.mpr ⟨column, hcolumn, rfl⟩
    have hbegins : BeginsFormula (prepareValue L column (rawText raw column)) :=
      prepareValue_begins.mpr hexposed
    exact hprepared raw hraw _ hcell hbegins
  · intro h
    refine ⟨?_, ?_, ?_⟩
    · intro raw hraw cell hcell
      obtain ⟨column, hcolumn, rfl⟩ := mem_prepareRow.mp hcell
      exact fun hbegins => h raw hraw column hcolumn (prepareValue_begins.mp hbegins)
    · refine List.forall_mem_cons.mpr ⟨exportColumns_safe, ?_⟩
      rw [List.forall_mem_map, List.forall_mem_map]
      intro raw hraw cell hcell
      obtain ⟨column, hcolumn, rfl⟩ := List.mem_map.mp hcell
      rw [prepareRow_lookup hcolumn, Option.getD_some, prepareValue_begins]
      exact h raw hraw column hcolumn
    · intro sheet hsheet line hline cell hcell
      rcases mem_sheets hsheet hline with rfl | ⟨row, hrow, rfl⟩
      · exact exportColumns_safe cell hcell
      · obtain ⟨raw, hraw, rfl⟩ := List.mem_map.mp hrow
        rw [prepareRow, List.map_map] at hcell
        obtain ⟨column, hcolumn, rfl⟩ := List.mem_map.mp hcell
        rw [Function.comp_apply, rawText_prepared hcolumn, prepareValue_begins]
        exact fun hexposed => h raw hraw column hcolumn (exposed_again hnfc hexposed)

end

/-- A row with a formula for its national id and a negative school code. -/
def formulaRow : RawRow := [("national_id", .str "=1+1"), ("school_code", .other "-5")]

theorem workflow_guard_iff_sample :
    (∀ raw ∈ [formulaRow, []], ∀ cell ∈ prepareRow plainLibrary raw, ¬ BeginsFormula cell.2) ∧
    (∀ line ∈ csvLines ([formulaRow, []].map (prepareRow plainLibrary)),
      ∀ cell ∈ line, ¬ BeginsFormula cell) ∧
    (∀ sheet ∈ sheets plainLibrary 1 ([formulaRow, []].map (prepareRow plainLibrary)),
      ∀ line ∈ sheet.2, ∀ cell ∈ line, ¬ BeginsFormula cell) ↔
    ∀ raw ∈ [formulaRow, []], ∀ column ∈ exportColumns,
      ¬ Exposed plainLibrary column (rawText raw column) :=
  workflow_guard_iff (L := plainLibrary) keepsFormulas_id 1 [formulaRow, []]

/-- Formulas of sensitive columns reach the prepared row, the CSV file and the workbook. -/
theorem sensitive_unguarded : BeginsFormula "=1+1" ∧ BeginsFormula "-00005" ∧
    ("national_id", "=1+1") ∈ prepareRow plainLibrary formulaRow ∧
    ("school_code", "-00005") ∈ prepareRow plainLibrary formulaRow ∧
    (∃ line ∈ csvLines [prepareRow plainLibrary formulaRow], "=1+1" ∈ line) ∧
    ∃ sheet ∈ sheets plainLibrary 1 [prepareRow plainLibrary formulaRow],
      ∃ line ∈ sheet.2, "=1+1" ∈ line := by
  decide +kernel

end Xlsx
