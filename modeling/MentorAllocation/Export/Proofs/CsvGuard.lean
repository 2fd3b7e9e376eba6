import MentorAllocation.Export.Proofs.CsvRoundTrip
import MentorAllocation.Text.Formula

namespace Export
open Text Data Csv CsvWriter

section
variable {nfkc : String → String} {header : List String} {sensitive : SensitiveFields}
  {options : CsvOptions} {rows : List CsvRow} {raw : Cell} {c : Char}

def candidate (nfkc : String → String) (raw : Cell) : String :=
  remove zeroWidthTranslation (nfkc raw.text)

def visible (c : Char) : Bool := decide (' ' ≤ c) && !isSpace c

/-- The text written begins with the first visible character of the one that is guarded. -/
theorem normalizeCell_head (hc : c ∈ formulaChars) :
    (normalizeCell nfkc raw).toList.head? = some c ↔
      (candidate nfkc raw).toList.find? visible = some c := by
  have hbreaks : Inert [('\r', ' '), ('\n', ' ')] := by decide
  have hdigits : Inert easternDigits := by decide
  have hya : Inert yaKeTranslation := by decide
  rw [normalizeCell, candidate, strip_head, String.toList_ofList, find?_keep]
  change (Text.translate _ _).toList.find? visible = some c ↔ _
  rw [hbreaks.find?_translate (by decide) hc, find?_remove, find?_remove,
    hdigits.find?_translate (by decide) hc, hya.find?_translate (by decide) hc]

/-- The guard answers to the first character behind the white space. -/
theorem guardFormula_begins {text : String} :
    BeginsFormula (CsvWriter.guardFormula nfkc text raw) ↔
      BeginsFormula text ∧ ∀ c ∈ formulaChars,
        (candidate nfkc raw).toList.find? (fun c => !isSpace c) ≠ some c := by
  have hnotText : ¬ BeginsFormula ("'" ++ text) := by
    rintro ⟨c, hc, hhead⟩
    rw [String.toList_append] at hhead
    obtain rfl := Option.some.inj hhead
    exact absurd hc (by decide)
  rw [CsvWriter.guardFormula]
  split
  · next hempty =>
    rw [String.isEmpty_iff.mp hempty]
    exact ⟨fun h => absurd h (by decide), And.left⟩
  · dsimp only
    rw [← candidate, List.find?_eq_head?_dropWhile_not]
    simp only [Bool.not_not]
    split
    · next hdrop =>
      rw [hdrop]
      exact (and_iff_left fun c _ h => by cases h).symm
    · next first rest hdrop =>
      have hspace : isSpace first = false := by
        have := List.head?_dropWhile_not isSpace (candidate nfkc raw).toList
        rw [hdrop] at this
        simpa using this
      rw [hdrop]
      split
      · next hguarded =>
        refine iff_of_false hnotText fun h => ?_
        rcases Bool.or_eq_true_iff.mp hguarded with hfirst | htab
        · exact h.2 first (List.contains_iff_mem.mp hfirst) rfl
        · rw [eq_of_beq htab] at hspace
          cases hspace
      · next hguarded =>
        refine (and_iff_left fun c hc h => hguarded ?_).symm
        obtain rfl := Option.some.inj h
        rw [Bool.or_eq_true_iff]
        exact .inl (List.contains_iff_mem.mpr hc)

/-- Behind its leading white space the text has no control character before a formula character. -/
def Unmasked (nfkc : String → String) (raw : Cell) : Prop :=
  ∀ c ∈ formulaChars, (candidate nfkc raw).toList.find? visible = some c →
    (candidate nfkc raw).toList.find? (fun c => !isSpace c) = some c

theorem prepare_begins : BeginsFormula (prepare nfkc raw) ↔ ¬ Unmasked nfkc raw := by
  have hbegins : BeginsFormula (normalizeCell nfkc raw) ↔
      ∃ c ∈ formulaChars, (candidate nfkc raw).toList.find? visible = some c :=
    exists_congr fun c => and_congr_right normalizeCell_head
  rw [prepare, guardFormula_begins, hbegins]
  constructor
  · rintro ⟨⟨c, hc, hfirst⟩, hunguarded⟩ hmasked
    exact hunguarded c hc (hmasked c hc hfirst)
  · intro hmasked
    rw [Unmasked] at hmasked
    push Not at hmasked
    obtain ⟨c, hc, hfirst, hother⟩ := hmasked
    refine ⟨⟨c, hc, hfirst⟩, fun d hd hspace => hother ?_⟩
    have hd' : visible d = true := List.all_eq_true.mp (by rfl : formulaChars.all visible) d hd
    have hvisible : (candidate nfkc raw).toList.find? visible = some d :=
      find?_narrow (fun _ h => (Bool.and_eq_true_iff.mp h).2) hspace hd'
    rwa [← Option.some.inj (hvisible.symm.trans hfirst)]

/-- The file holds the values of the rows below its header, and none of them begins like a formula
exactly when no raw value hides a formula character behind a control character. -/
theorem csv_guard_iff {text : List Char}
    (h : writeCsvAtomic nfkc header sensitive options rows = .ok text) :
    (∃ top, text = top ++ rows.flatMap fun row =>
      serializeRow (values nfkc header row) (quoteMask header sensitive) options.newline) ∧
    ((∀ row ∈ rows, ∀ value ∈ values nfkc header row, ¬ BeginsFormula value) ↔
      ∀ row ∈ rows, ∀ raw ∈ row.cells header, Unmasked nfkc raw) := by
  constructor
  · obtain ⟨lines, hlines, h⟩ := bind_eq_ok.mp h
    rw [(serializeRows_values hlines).1] at h
    exact ⟨_, (Except.ok.inj h).symm⟩
  · refine forall₂_congr fun row _ => ?_
    simp only [values, List.forall_mem_map, prepare_begins, not_not]

end

theorem csv_guard_iff_sample :
    (∃ top, "\ufeff\"value\"\r\n'=1\r\nx\r\n".toList = top ++
      [CsvRow.sequence [.str " =1"], .sequence [.str "x"]].flatMap fun row =>
        serializeRow (values id ["value"] row) (quoteMask ["value"] (.names [])) "\r\n") ∧
    ((∀ row ∈ [CsvRow.sequence [.str " =1"], .sequence [.str "x"]],
        ∀ value ∈ values id ["value"] row, ¬ BeginsFormula value) ↔
      ∀ row ∈ [CsvRow.sequence [.str " =1"], .sequence [.str "x"]],
        ∀ raw ∈ row.cells ["value"], Unmasked id raw) := by
  have h : writeCsvAtomic id ["value"] (.names []) {}
      [.sequence [.str " =1"], .sequence [.str "x"]] =
        .ok "\ufeff\"value\"\r\n'=1\r\nx\r\n".toList := by rfl
  exact csv_guard_iff h

/-- A control character in front is dropped from the value but not from what is guarded. -/
theorem control_character_unguarded :
    writeCsvAtomic id ["value"] (.names []) {} [.sequence [.str "\x01=1+1"]] =
      .ok "\ufeff\"value\"\r\n=1+1\r\n".toList ∧
    values id ["value"] (.sequence [.str "\x01=1+1"]) = ["=1+1"] ∧ BeginsFormula "=1+1" := by
  refine ⟨by rfl, by rfl, by decide⟩

end Export
