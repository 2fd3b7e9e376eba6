import MentorAllocation.Text.Python

namespace Counter
open Text

def digitMap : List (Char × Char) := easternDigits

/-- Female counters start with 373, male ones with 357. -/
def counterPrefixMap : List (Int × String) := [(0, "373"), (1, "357")]

/-- `gender_prefix`; `none` is its `ValueError`. -/
def genderPrefix (genderCode : Int) : Option String := counterPrefixMap.lookup genderCode

/-- `COUNTER_REGEX.fullmatch`: `^\d{2}(357|373)\d{4}$`. -/
def counterRegex (value : String) : Bool :=
  match value.toList with
  | [y₁, y₂, p₁, p₂, p₃, s₁, s₂, s₃, s₄] =>
    [y₁, y₂, s₁, s₂, s₃, s₄].all isDecimal &&
      (String.ofList [p₁, p₂, p₃] == "357" || String.ofList [p₁, p₂, p₃] == "373")
  | _ => false

/-- `validate_counter`; `none` is its `ValueError`. -/
def validateCounter (value : String) : Option String :=
  let normalized := translate digitMap value
  let normalized := remove ['\u200c', '\u200d', '\ufeff'] normalized
  let normalized := String.ofList (normalized.toList.filter (fun c => !isSpace c))
  if counterRegex normalized then some normalized else none

theorem genderPrefix_cases {gender : Int} {code : String} (h : genderPrefix gender = some code) :
    (gender = 0 ∧ code = "373") ∨ (gender = 1 ∧ code = "357") := by
  by_cases h0 : gender = 0
  · subst h0
    exact .inl ⟨rfl, (Option.some.inj h).symm⟩
  · by_cases h1 : gender = 1
    · subst h1
      exact .inr ⟨rfl, (Option.some.inj h).symm⟩
    · have hb0 : (gender == 0) = false := by simpa using h0
      have hb1 : (gender == 1) = false := by simpa using h1
      simp [genderPrefix, counterPrefixMap, List.lookup_cons, hb0, hb1] at h

theorem genderPrefix_inj {gender gender' : Int} {code : String}
    (h : genderPrefix gender = some code) (h' : genderPrefix gender' = some code) :
    gender = gender' := by
  rcases genderPrefix_cases h with ⟨rfl, rfl⟩ | ⟨rfl, rfl⟩ <;>
    rcases genderPrefix_cases h' with ⟨rfl, he⟩ | ⟨rfl, he⟩
  · rfl
  · exact absurd he (by decide)
  · exact absurd he (by decide)
  · rfl

/-- The text of a counter determines what it was made from. -/
theorem counter_inj {yearCode yearCode' code code' : String} {n n' : Nat}
    (hy : yearCode.toList.length = yearCode'.toList.length)
    (hc : code.toList.length = code'.toList.length)
    (h : yearCode ++ code ++ zeroPad 4 n = yearCode' ++ code' ++ zeroPad 4 n') :
    yearCode = yearCode' ∧ code = code' ∧ n = n' := by
  have hl := congrArg String.toList h
  simp only [String.toList_append, List.append_assoc] at hl
  obtain ⟨h₁, hl⟩ := List.append_inj hl hy
  obtain ⟨h₂, h₃⟩ := List.append_inj hl hc
  refine ⟨String.toList_inj.mp h₁, String.toList_inj.mp h₂, ?_⟩
  exact Int.ofNat.inj (zeroPad_injective 4 (String.toList_inj.mp h₃))

theorem genderPrefix_length {gender : Int} {code : String} (h : genderPrefix gender = some code) :
    code.toList.length = 3 := by
  rcases genderPrefix_cases h with ⟨_, rfl⟩ | ⟨_, rfl⟩ <;> rfl

end Counter
