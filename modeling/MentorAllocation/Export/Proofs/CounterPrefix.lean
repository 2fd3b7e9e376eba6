import MentorAllocation.Counter.Proofs.Digits
import MentorAllocation.Export.ExporterService

namespace Counter
open Text

def cleaned (value : String) : String :=
  String.ofList ((remove ['\u200c', '\u200d', '\ufeff']
    (Text.translate digitMap value)).toList.filter fun c => !isSpace c)

/-- A text of the given shape, where `_` stands for any character. -/
def fits (shape text : String) : Bool :=
  shape.toList.length == text.toList.length &&
    (shape.toList.zip text.toList).all fun p => p.1 == '_' || p.1 == p.2

/-- The shapes of counters that hold a gender's prefix, but behind the prefix of the other one
or across its edge. -/
def strayShapes (gender : Int) : List String :=
  if gender = 0 then ["37357____", "__357373_", "__357_373"]
  else ["__37357__", "__373357_", "__373_357"]

section
variable {value counter code : String} {gender : Int}

theorem validateCounter_eq (value : String) :
    validateCounter value = if counterRegex (cleaned value) then some (cleaned value) else none :=
  rfl

/-- What the pattern says of a counter, character by character. -/
structure CounterParts (counter : String) (y₁ y₂ p₁ p₂ p₃ s₁ s₂ s₃ s₄ : Char) : Prop where
  text : counter = String.ofList [y₁, y₂, p₁, p₂, p₃, s₁, s₂, s₃, s₄]
  decimal : ∀ c ∈ [y₁, y₂, s₁, s₂, s₃, s₄], isDecimal c = true
  code : [p₁, p₂, p₃] = ['3', '5', '7'] ∨ [p₁, p₂, p₃] = ['3', '7', '3']

theorem counterParts (h : counterRegex counter = true) :
    ∃ y₁ y₂ p₁ p₂ p₃ s₁ s₂ s₃ s₄, CounterParts counter y₁ y₂ p₁ p₂ p₃ s₁ s₂ s₃ s₄ := by
  rw [counterRegex] at h
  split at h
  · next y₁ y₂ p₁ p₂ p₃ s₁ s₂ s₃ s₄ htext =>
    rw [Bool.and_eq_true, Bool.or_eq_true, beq_iff_eq, beq_iff_eq] at h
    refine ⟨y₁, y₂, p₁, p₂, p₃, s₁, s₂, s₃, s₄, ?_, List.all_eq_true.mp h.1, ?_⟩
    · rw [← htext, String.ofList_toList]
    · refine h.2.imp (fun he => ?_) fun he => ?_
      · simpa using congrArg String.toList he
      · simpa using congrArg String.toList he
  · cases h

theorem counter_decimal (h : counterRegex counter = true) :
    ∀ c ∈ counter.toList, isDecimal c = true := by
  obtain ⟨y₁, y₂, p₁, p₂, p₃, s₁, s₂, s₃, s₄, htext, hdecimal, hparts⟩ := counterParts h
  intro c hc
  have hcode : ∀ c ∈ [p₁, p₂, p₃], c.isDigit = true := by
    rcases hparts with he | he
    · rw [he]
      exact List.all_eq_true.mp rfl
    · rw [he]
      exact List.all_eq_true.mp rfl
  rw [htext, String.toList_ofList] at hc
  have hsplit : c ∈ [y₁, y₂, s₁, s₂, s₃, s₄] ∨ c ∈ [p₁, p₂, p₃] := by
    simp only [List.mem_cons, List.not_mem_nil, or_false] at hc ⊢
    tauto
  exact hsplit.elim (hdecimal c) fun hc => (ascii_digit (hcode c hc)).1

/-- A counter that holds the prefix of a gender has it in its place, or is of a stray shape. -/
theorem code_in_place_iff (hregex : counterRegex counter = true)
    (hcode : genderPrefix gender = some code) (hin : contains counter code = true) :
    (counter.toList.drop 2).take 3 = code.toList ↔
      (strayShapes gender).any (fits · counter) = false := by
  obtain ⟨y₁, y₂, p₁, p₂, p₃, s₁, s₂, s₃, s₄, htext, -, hparts⟩ := counterParts hregex
  subst htext
  rcases genderPrefix_cases hcode with ⟨rfl, rfl⟩ | ⟨rfl, rfl⟩
  · rcases hparts with hparts | hparts
    · simp only [List.cons.injEq, and_true] at hparts
      obtain ⟨rfl, rfl, rfl⟩ := hparts
      have hplaces : '3' = y₁ ∧ '7' = y₂ ∨ '3' = s₁ ∧ '7' = s₂ ∧ '3' = s₃ ∨
          '3' = s₂ ∧ '7' = s₃ ∧ '3' = s₄ := by
        simpa [contains, List.isPrefixOf] using hin
      have hstray : (strayShapes 0).any
          (fits · (String.ofList [y₁, y₂, '3', '5', '7', s₁, s₂, s₃, s₄])) = true := by
        rcases hplaces with ⟨rfl, rfl⟩ | ⟨rfl, rfl, rfl⟩ | ⟨rfl, rfl, rfl⟩
        · simp [strayShapes, fits]
        · simp [strayShapes, fits]
        · simp [strayShapes, fits]
      exact iff_of_false (by simp) (by rw [hstray]; exact Bool.noConfusion)
    · simp only [List.cons.injEq, and_true] at hparts
      obtain ⟨rfl, rfl, rfl⟩ := hparts
      simp [strayShapes, fits]
  · rcases hparts with hparts | hparts
    · simp only [List.cons.injEq, and_true] at hparts
      obtain ⟨rfl, rfl, rfl⟩ := hparts
      simp [strayShapes, fits]
    · simp only [List.cons.injEq, and_true] at hparts
      obtain ⟨rfl, rfl, rfl⟩ := hparts
      have hplaces : '5' = s₁ ∧ '7' = s₂ ∨ '3' = s₁ ∧ '5' = s₂ ∧ '7' = s₃ ∨
          '3' = s₂ ∧ '5' = s₃ ∧ '7' = s₄ := by
        simpa [contains, List.isPrefixOf] using hin
      have hstray : (strayShapes 1).any
          (fits · (String.ofList [y₁, y₂, '3', '7', '3', s₁, s₂, s₃, s₄])) = true := by
        rcases hplaces with ⟨rfl, rfl⟩ | ⟨rfl, rfl, rfl⟩ | ⟨rfl, rfl, rfl⟩
        · simp [strayShapes, fits]
        · simp [strayShapes, fits]
        · simp [strayShapes, fits]
      exact iff_of_false (by simp) (by rw [hstray]; exact Bool.noConfusion)

theorem mem_cleaned {c : Char} : c ∈ (cleaned value).toList ↔ (∃ d ∈ value.toList,
    mapped digitMap d = c) ∧ ['\u200c', '\u200d', '\ufeff'].contains c = false ∧
      isSpace c = false := by
  simp only [cleaned, remove, Text.translate, String.toList_ofList, List.mem_filter, List.mem_map,
    Bool.not_eq_true', and_assoc]
  rfl

theorem isDigit_of_lookup {c d : Char} (h : digitMap.lookup c = some d) : d.isDigit = true := by
  have htable : digitMap.all (fun e => e.2.isDigit) = true := rfl
  obtain ⟨before, after, he, -⟩ := List.lookup_eq_some_iff.mp h
  exact List.all_eq_true.mp htable (c, d) (by rw [he]; simp)

/-- Only the Persian and Arabic digits are folded; those of other scripts pass as they are. -/
theorem ascii_counter_iff (hregex : counterRegex (cleaned value) = true) :
    (∀ c ∈ (cleaned value).toList, c.isDigit = true) ↔
      ∀ c ∈ value.toList, isDecimal c = true →
        c.isDigit = true ∨ (digitMap.lookup c).isSome = true := by
  constructor
  · intro h c hc hdec
    cases hlookup : digitMap.lookup c with
    | some d => exact .inr rfl
    | none =>
      have hsame : mapped digitMap c = c := by
        rw [mapped, hlookup]
        rfl
      refine .inl (h c (mem_cleaned.mpr ⟨⟨c, hc, hsame⟩, ?_, isSpace_of_decimal hdec⟩))
      exact (not_zeroWidth_of_decimal hdec).2
  · intro h c hc
    have hdec := counter_decimal hregex c hc
    obtain ⟨⟨d, hd, rfl⟩, -⟩ := mem_cleaned.mp hc
    cases hlookup : digitMap.lookup d with
    | some e =>
      rw [mapped, hlookup]
      exact isDigit_of_lookup hlookup
    | none =>
      rw [mapped, hlookup] at hdec ⊢
      refine (h d hd hdec).resolve_right ?_
      rw [hlookup]
      exact Bool.noConfusion

end

end Counter

namespace Export
open Text

section
variable {E : ImportToSabtExporter} {filters : ExportFilters} {row : NormalizedStudentRow}
  {record : List (String × Cell)}

/-- The exported counter is nine ASCII digits, from the third on those of the row's gender. -/
def CounterOfGender (row : NormalizedStudentRow) (record : List (String × Cell)) : Prop :=
  ∃ counter code, record.lookup "counter" = some (.str counter) ∧
    Counter.genderPrefix row.gender = some code ∧ counter.toList.length = 9 ∧
    (∀ c ∈ counter.toList, c.isDigit = true) ∧ (counter.toList.drop 2).take 3 = code.toList

/-- What an accepted row exports as its counter. -/
theorem accepted_counter (h : E.normalizeRow filters row = .ok record) :
    ∃ code, record.lookup "counter" = some (.str (Counter.cleaned (E.sanitizeText row.counter))) ∧
      Counter.counterRegex (Counter.cleaned (E.sanitizeText row.counter)) = true ∧
      Counter.genderPrefix row.gender = some code ∧
      contains (Counter.cleaned (E.sanitizeText row.counter)) code = true := by
  simp only [ImportToSabtExporter.normalizeRow, Counter.validateCounter_eq] at h
  split at h
  · cases h
  · split at h
    · cases h
    · split at h
      · cases h
      · split at h
        · cases h
        · next counter hcounter =>
          split at h
          · cases h
          · next hcode =>
            obtain rfl := Except.ok.inj h
            split at hcounter
            · next hregex =>
              obtain rfl := Option.some.inj hcounter
              cases hgender : Counter.genderPrefix row.gender with
              | none =>
                rw [hgender] at hcode
                exact absurd rfl hcode
              | some code => exact ⟨code, rfl, hregex, rfl, by simpa [hgender] using hcode⟩
            · cases hcounter

/-- Exactly when the counter of an accepted row is of its gender. -/
theorem counter_of_gender_iff (h : E.normalizeRow filters row = .ok record) :
    CounterOfGender row record ↔
      (∀ c ∈ (E.sanitizeText row.counter).toList, isDecimal c = true →
        c.isDigit = true ∨ (Counter.digitMap.lookup c).isSome = true) ∧
      (Counter.strayShapes row.gender).any
        (Counter.fits · (Counter.cleaned (E.sanitizeText row.counter))) = false := by
  obtain ⟨code, hlookup, hregex, hcode, hin⟩ := accepted_counter h
  rw [← Counter.ascii_counter_iff hregex, ← Counter.code_in_place_iff hregex hcode hin]
  constructor
  · rintro ⟨counter, code', hcounter, hcode', -, hdigits, hplace⟩
    obtain rfl := Cell.str.inj (Option.some.inj (hlookup.symm.trans hcounter))
    obtain rfl := Option.some.inj (hcode.symm.trans hcode')
    exact ⟨hdigits, hplace⟩
  · rintro ⟨hdigits, hplace⟩
    refine ⟨_, code, hlookup, hcode, ?_, hdigits, hplace⟩
    obtain ⟨y₁, y₂, p₁, p₂, p₃, s₁, s₂, s₃, s₄, htext, -⟩ := Counter.counterParts hregex
    rw [htext, String.toList_ofList]
    rfl

end

theorem counter_of_gender_iff_sample : ∃ record,
    plainExporter.normalizeRow { year := 1402 } sampleRow = .ok record ∧
    (CounterOfGender sampleRow record ↔
      (∀ c ∈ (plainExporter.sanitizeText sampleRow.counter).toList, isDecimal c = true →
        c.isDigit = true ∨ (Counter.digitMap.lookup c).isSome = true) ∧
      (Counter.strayShapes sampleRow.gender).any
        (Counter.fits · (Counter.cleaned (plainExporter.sanitizeText sampleRow.counter))) =
          false) := by
  obtain ⟨record, h⟩ : ∃ record,
      plainExporter.normalizeRow { year := 1402 } sampleRow = .ok record := ⟨_, rfl⟩
  exact ⟨record, h, counter_of_gender_iff h⟩

/-- A boy's row with a girl's counter, whose serial number begins with the boys' prefix. -/
def strayRow : NormalizedStudentRow := { sampleRow with counter := "023733570" }

theorem strayRow_counter :
    Counter.cleaned (plainExporter.sanitizeText strayRow.counter) = "023733570" := by
  decide +kernel

/-- A counter of the other gender is exported when its serial number holds the right prefix. -/
theorem stray_prefix_accepted : ∃ record,
    plainExporter.normalizeRow { year := 1402 } strayRow = .ok record ∧
      ¬ CounterOfGender strayRow record := by
  obtain ⟨record, h⟩ : ∃ record,
      plainExporter.normalizeRow { year := 1402 } strayRow = .ok record := ⟨_, rfl⟩
  refine ⟨record, h, ?_⟩
  obtain ⟨code, hlookup, -, hcode, -⟩ := accepted_counter h
  rintro ⟨counter, code', hcounter, hcode', -, -, hplace⟩
  obtain rfl := Cell.str.inj (Option.some.inj (hlookup.symm.trans hcounter))
  obtain rfl := Option.some.inj (hcode'.symm.trans (rfl : Counter.genderPrefix 1 = some "357"))
  rw [strayRow_counter] at hplace
  exact absurd hplace (by decide)

end Export
