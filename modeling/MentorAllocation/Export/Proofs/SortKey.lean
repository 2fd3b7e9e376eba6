import MentorAllocation.Export.ExporterService
import MentorAllocation.Data.Except
import MentorAllocation.Text.Padding

namespace Export
open Text Data

section
variable {nfkc : String → String} {s : String}

/-- A text of digits and signs is already normalised. -/
theorem normalizeText_number (hascii : KeepsAscii nfkc)
    (h : ∀ c ∈ s.toList, c = '-' ∨ c.isDigit = true) : normalizeText nfkc s = s := by
  have hrange : ∀ c ∈ s.toList, 45 ≤ c.toNat ∧ c.toNat ≤ 57 := by
    intro c hc
    rcases h c hc with rfl | hdigit
    · decide
    · have := isDigit_bounds hdigit
      omega
  have hnfkc : nfkc s = s := by
    refine hascii s fun c hc => ?_
    have := hrange c hc
    omega
  have htranslate : ∀ table : List (Char × Char),
      table.all (fun e => e.1.toNat < 45 || 57 < e.1.toNat) = true →
      Text.translate table s = s := by
    intro table htable
    refine translate_of_none fun c hc => List.lookup_eq_none_iff.mpr fun e he => ?_
    have hkey := List.all_eq_true.mp htable e he
    have hc := hrange c hc
    rw [Bool.or_eq_true, decide_eq_true_eq, decide_eq_true_eq] at hkey
    have hne : c ≠ e.1 := by
      rintro rfl
      omega
    simpa using hne
  have hletters := htranslate [('\u064a', 'ی'), ('\u0643', 'ک')] rfl
  have hdigits := htranslate digitMap rfl
  have hbreaks := htranslate [('\r', ' '), ('\n', ' '), ('\t', ' ')] rfl
  have hremove : stripZeroWidth s = s := by
    refine remove_of_none fun c hc => Bool.eq_false_iff.mpr fun hmem => ?_
    have hzero := List.all_eq_true.mp (show zeroWidthChars.all (57 < ·.toNat) = true from rfl) c
      (List.contains_iff_mem.mp hmem)
    have hc := hrange c hc
    rw [decide_eq_true_eq] at hzero
    omega
  have hcontrol : s.toList.filter (fun c => !controlPattern c) = s.toList := by
    refine List.filter_eq_self.mpr fun c hc => ?_
    have := hrange c hc
    simp only [controlPattern, Bool.not_eq_true', Bool.or_eq_false_iff, Bool.and_eq_false_imp,
      decide_eq_true_eq, decide_eq_false_iff_not, beq_eq_false_iff_ne]
    omega
  have hspace : strip s = s := by
    refine strip_eq_self fun c hc => ?_
    have := hrange c hc
    simp only [isSpace, Bool.or_eq_false_iff, Bool.and_eq_false_imp, decide_eq_true_eq,
      decide_eq_false_iff_not, beq_eq_false_iff_ne]
    omega
  rw [normalizeText]
  split
  · next hempty => exact (String.isEmpty_iff.mp hempty).symm
  · simp only [hnfkc, hletters, hremove, hcontrol, String.ofList_toList, foldDigits, hdigits,
      hbreaks, hspace]

end

def schoolNumber (row : NormalizedStudentRow) : Int := row.schoolCode.getD 999999

section
variable {E : ImportToSabtExporter} {filters : ExportFilters} {chunkSize : Int}
  {row : NormalizedStudentRow} {record : List (String × Cell)} {entry : SortKey × Row}

/-- A text column as the sorter holds it: sanitised by the exporter and by the sorter. -/
def ImportToSabtExporter.sortedText (E : ImportToSabtExporter) (text : String) : String :=
  E.sanitizeText (E.sanitizeText text)

/-- The columns of an admitted row that its key is built from. -/
structure KeyColumns (E : ImportToSabtExporter) (row : NormalizedStudentRow) (sorted : Row) :
    Prop where
  center : row.regCenter ∈ [0, 1, 2]
  yearCode : sorted.lookup "year_code" = some (E.sortedText row.yearCode)
  regCenter : sorted.lookup "reg_center" =
    some (normalizeText E.library.nfkc (intText row.regCenter))
  groupCode : sorted.lookup "group_code" =
    some (normalizeText E.library.nfkc (intText row.groupCode))
  schoolCode : sorted.lookup "school_code" =
    some (normalizeText E.library.nfkc ((row.schoolCode.map (zeroPad 6)).getD ""))
  nationalId : sorted.lookup "national_id" = some (E.sortedText row.nationalId)

theorem keyColumns (h : E.normalizeRow filters row = .ok record) :
    KeyColumns E row (ExternalSorter.normalizeRow E.library.nfkc record) := by
  simp only [ImportToSabtExporter.normalizeRow] at h
  split at h
  · cases h
  · next hcenter =>
    split at h
    · cases h
    · split at h
      · cases h
      · split at h
        · cases h
        · split at h
          · cases h
          · obtain rfl := Except.ok.inj h
            exact ⟨not_not.mp hcenter, rfl, rfl, rfl, rfl, rfl⟩

theorem toInt_zeroPad (hascii : KeepsAscii E.library.nfkc) {width : Nat} {n k default : Int}
    (h : ExternalSorter.toInt (some (normalizeText E.library.nfkc (zeroPad width n))) default =
      .ok k) : k = n := by
  rw [normalizeText_number hascii fun c hc => zeroPad_chars hc] at h
  rw [ExternalSorter.toInt.eq_def] at h
  split at h
  · next heq => cases heq
  · next heq =>
    exact absurd (congrArg String.toList (Option.some.inj heq)) (zeroPad_ne_nil width n)
  · next heq =>
    obtain rfl := Option.some.inj heq
    split at h
    · next hparsed =>
      obtain rfl := Except.ok.inj h
      exact parseInt_zeroPad hparsed
    · cases h

/-- A padded component is the padded number of its column. -/
theorem padded_component (hascii : KeepsAscii E.library.nfkc) {width width' : Nat}
    {n default : Int} {text : String}
    (h : (zeroPad width' ·) <$> ExternalSorter.toInt
      (some (normalizeText E.library.nfkc (zeroPad width n))) default = .ok text) :
    text = zeroPad width' n := by
  cases hk :
      ExternalSorter.toInt (some (normalizeText E.library.nfkc (zeroPad width n))) default with
  | error e =>
    rw [hk] at h
    cases h
  | ok k =>
    rw [hk] at h
    obtain rfl := Except.ok.inj h
    rw [toInt_zeroPad hascii hk]

theorem schoolNumber_component (hascii : KeepsAscii E.library.nfkc) {text : String}
    (h : (zeroPad 6 ·) <$> ExternalSorter.toInt
      (some (normalizeText E.library.nfkc ((row.schoolCode.map (zeroPad 6)).getD ""))) 999999 =
        .ok text) : text = zeroPad 6 (schoolNumber row) := by
  rw [schoolNumber]
  cases hschool : row.schoolCode with
  | none =>
    rw [hschool] at h
    exact (Except.ok.inj h).symm
  | some code =>
    rw [hschool] at h
    exact padded_component hascii h

theorem member_ok {sorted : Row} {name text value : String}
    (hvalue : sorted.lookup name = some value)
    (h : ExternalSorter.member sorted name = .ok text) : text = value := by
  rw [ExternalSorter.member, hvalue] at h
  exact (Except.ok.inj h).symm

theorem entry_key (hascii : KeepsAscii E.library.nfkc)
    (h : E.entry filters chunkSize row = .ok entry) :
    row.regCenter ∈ [0, 1, 2] ∧ entry.1 = [E.sortedText row.yearCode, zeroPad 3 row.regCenter,
      zeroPad 6 row.groupCode, zeroPad 6 (schoolNumber row), E.sortedText row.nationalId] := by
  rw [ImportToSabtExporter.entry] at h
  split at h
  · cases h
  · next record hrecord =>
    have hcolumns := keyColumns hrecord
    split at h
    · cases h
    · next hkeyed =>
      obtain rfl := Except.ok.inj h
      obtain ⟨key, hkey, heq⟩ := bind_eq_ok.mp hkeyed
      obtain rfl := Except.ok.inj heq
      refine ⟨hcolumns.center, ?_⟩
      generalize ExternalSorter.normalizeRow E.library.nfkc record = sorted at *
      change ["year_code", "reg_center", "group_code", "school_code", "national_id"].mapM
        (ExternalSorter.keyComponent sorted) = .ok key at hkey
      obtain ⟨year, key₁, hyear, hkey₁, rfl⟩ := mapM_cons_eq_ok.mp hkey
      obtain ⟨center, key₂, hcenter, hkey₂, rfl⟩ := mapM_cons_eq_ok.mp hkey₁
      obtain ⟨group, key₃, hgroup, hkey₃, rfl⟩ := mapM_cons_eq_ok.mp hkey₂
      obtain ⟨school, key₄, hschool, hkey₄, rfl⟩ := mapM_cons_eq_ok.mp hkey₃
      obtain ⟨nationalId, key₅, hnational, hkey₅, rfl⟩ := mapM_cons_eq_ok.mp hkey₄
      rw [List.mapM_nil] at hkey₅
      obtain rfl := Except.ok.inj hkey₅
      change (zeroPad 3 ·) <$> ExternalSorter.toInt (sorted.lookup "reg_center") 0 = _ at hcenter
      change (zeroPad 6 ·) <$> ExternalSorter.toInt (sorted.lookup "group_code") 0 = _ at hgroup
      change (zeroPad 6 ·) <$> ExternalSorter.toInt (sorted.lookup "school_code") 999999 = _
        at hschool
      rw [hcolumns.regCenter] at hcenter
      rw [hcolumns.groupCode] at hgroup
      rw [hcolumns.schoolCode] at hschool
      rw [member_ok hcolumns.yearCode hyear, padded_component hascii hcenter,
        padded_component hascii hgroup, schoolNumber_component hascii hschool,
        member_ok hcolumns.nationalId hnational]

end

theorem key_cons_le {a b : String} {as bs : SortKey} :
    a :: as ≤ b :: bs ↔ a < b ∨ a = b ∧ as ≤ bs := by
  rw [le_iff_lt_or_eq, List.cons_lt_cons_iff, List.cons.injEq, le_iff_lt_or_eq, or_assoc,
    ← and_or_left]

/-- Entries compared by their heads, then by what follows, agree with others as far as the heads
and what follows do. -/
theorem lex_agree {α β : Type} [Preorder α] [Preorder β] {a a' : α} {b b' : β} {P Q : Prop}
    (heq : a = a' ↔ b = b') : ((a < a' ∨ a = a' ∧ P) ↔ (b < b' ∨ b = b' ∧ Q)) ↔
      (b ≠ b' → (a < a' ↔ b < b')) ∧ (b = b' → (P ↔ Q)) := by
  by_cases h : b = b'
  · obtain rfl := heq.mpr h
    subst h
    simp only [lt_irrefl, false_or, true_and, ne_eq, not_true, false_implies, true_implies]
  · have ha : a ≠ a' := fun he => h (heq.mp he)
    simp only [h, ha, false_and, or_false, ne_eq, not_false_iff, true_implies, false_implies,
      and_true]

section
variable {E : ImportToSabtExporter} {filters : ExportFilters} {chunkSize : Int}
  {row row' : NormalizedStudentRow} {entry entry' : SortKey × Row}

/-- The order that the rows of an export should have. -/
def ImportToSabtExporter.sortTuple (E : ImportToSabtExporter) (row : NormalizedStudentRow) :
    String ×ₗ Int ×ₗ Int ×ₗ Int ×ₗ String :=
  toLex (E.sortedText row.yearCode, toLex (row.regCenter, toLex (row.groupCode,
    toLex (schoolNumber row, E.sortedText row.nationalId))))

/-- Where year and centre do not decide, the group codes keep their order when they are padded,
and behind equal group codes so do the schools. -/
def ImportToSabtExporter.NumbersKeepOrder (E : ImportToSabtExporter)
    (row row' : NormalizedStudentRow) : Prop :=
  E.sortedText row.yearCode = E.sortedText row'.yearCode → row.regCenter = row'.regCenter →
    KeepsOrder 6 row.groupCode row'.groupCode ∧
      (row.groupCode = row'.groupCode → KeepsOrder 6 (schoolNumber row) (schoolNumber row'))

theorem keepsOrder_center {a b : Int} (ha : a ∈ [0, 1, 2]) (hb : b ∈ [0, 1, 2]) :
    KeepsOrder 3 a b := by
  simp only [List.mem_cons, List.not_mem_nil, or_false] at ha hb
  exact keepsOrder_of_fits (by omega) (by omega) (by omega)

theorem keepsOrder_self (width : Nat) (a : Int) : KeepsOrder width a a :=
  ⟨fun h => absurd h (lt_irrefl a), fun h => absurd h (lt_irrefl a)⟩

theorem keepsOrder_of_ne {width : Nat} {a b : Int} :
    (a ≠ b → (zeroPad width a < zeroPad width b ↔ a < b)) ↔ KeepsOrder width a b := by
  rw [← keepsOrder_iff]
  refine ⟨fun h => ?_, fun h _ => h⟩
  by_cases he : a = b
  · subst he
    exact keepsOrder_self width a
  · exact h he

/-- The order of the keys is that of the numbers exactly when padding keeps it. -/
theorem sort_key_numeric_iff (hascii : KeepsAscii E.library.nfkc)
    (h : E.entry filters chunkSize row = .ok entry)
    (h' : E.entry filters chunkSize row' = .ok entry') :
    (entry.1 ≤ entry'.1 ↔ E.sortTuple row ≤ E.sortTuple row') ↔ E.NumbersKeepOrder row row' := by
  obtain ⟨hcenter, hkey⟩ := entry_key hascii h
  obtain ⟨hcenter', hkey'⟩ := entry_key hascii h'
  have hpad : ∀ width (a b : Int), zeroPad width a = zeroPad width b ↔ a = b :=
    fun width a b => (zeroPad_injective width).eq_iff
  rw [hkey, hkey', ImportToSabtExporter.sortTuple, ImportToSabtExporter.sortTuple]
  simp only [key_cons_le, Prod.Lex.toLex_le_toLex, le_refl, and_true, ← le_iff_lt_or_eq]
  rw [lex_agree Iff.rfl, lex_agree (hpad 3 _ _), lex_agree (hpad 6 _ _), lex_agree (hpad 6 _ _),
    keepsOrder_of_ne, keepsOrder_of_ne, keepsOrder_of_ne]
  simp only [iff_self, implies_true, and_true, true_and, keepsOrder_center hcenter hcenter',
    ImportToSabtExporter.NumbersKeepOrder]

end

def longGroup : NormalizedStudentRow := { sampleRow with groupCode := 1000000 }

def shortGroup : NormalizedStudentRow := { sampleRow with groupCode := 999999 }

def sampleFilters : ExportFilters := { year := 1402 }

theorem longGroup_entry : ∃ entry, plainExporter.entry sampleFilters 100 longGroup = .ok entry :=
  ⟨_, rfl⟩

theorem shortGroup_entry : ∃ entry, plainExporter.entry sampleFilters 100 shortGroup = .ok entry :=
  ⟨_, rfl⟩

theorem sort_key_numeric_iff_sample : ∃ entry entry',
    plainExporter.entry sampleFilters 100 sampleRow = .ok entry ∧
    plainExporter.entry sampleFilters 100 shortGroup = .ok entry' ∧
    ((entry.1 ≤ entry'.1 ↔
      plainExporter.sortTuple sampleRow ≤ plainExporter.sortTuple shortGroup) ↔
        plainExporter.NumbersKeepOrder sampleRow shortGroup) := by
  obtain ⟨entry, h⟩ : ∃ entry, plainExporter.entry sampleFilters 100 sampleRow = .ok entry :=
    ⟨_, rfl⟩
  obtain ⟨entry', h'⟩ := shortGroup_entry
  exact ⟨entry, entry', h, h', sort_key_numeric_iff keepsAscii_id h h'⟩

/-- The group 1000000 comes before the group 999999. -/
theorem longer_group_sorted_first : ∃ entry entry',
    plainExporter.entry sampleFilters 100 longGroup = .ok entry ∧
    plainExporter.entry sampleFilters 100 shortGroup = .ok entry' ∧
    ¬ (entry.1 ≤ entry'.1 ↔
      plainExporter.sortTuple longGroup ≤ plainExporter.sortTuple shortGroup) := by
  obtain ⟨entry, h⟩ := longGroup_entry
  obtain ⟨entry', h'⟩ := shortGroup_entry
  refine ⟨entry, entry', h, h', ?_⟩
  rw [(entry_key keepsAscii_id h).2, (entry_key keepsAscii_id h').2,
    ImportToSabtExporter.sortTuple, ImportToSabtExporter.sortTuple]
  have hpad : zeroPad 6 1000000 < zeroPad 6 999999 := by decide
  simp [key_cons_le, Prod.Lex.toLex_le_toLex, longGroup, shortGroup, hpad]

end Export
