import MentorAllocation.Phase3.Rules
import MentorAllocation.Text.Python

namespace Phase3
open Text

structure NormalizationError where
  ruleCode : RuleCode
  message : String
  details : Details
  deriving DecidableEq, Repr

def zeroWidthChars : List Char := ['\u200c', '\u200f', '\u200e', '\ufeff']

/-- `str(value) if value is not None else ""` -/
def Value.text : Value → String
  | .none => ""
  | .bool true => "True"
  | .bool false => "False"
  | .object str => str

def normalizeStr (text : String) : String :=
  let text := strip text
  let text := remove zeroWidthChars text
  let text := Text.translate [('\u0643', 'ک'), ('\u064a', 'ی')] text
  Text.translate easternDigits text

def normalizeText (value : Value) : String := normalizeStr value.text

/-- `_normalize_int`; without `allowNone` it never returns `None`. -/
def normalizeInt (ruleCode : RuleCode) (fieldName : String) (allowNone : Bool)
    (default : Option Int) (value : Value) : Except NormalizationError (Option Int) :=
  if value = .none then
    if allowNone then .ok default
    else .error ⟨ruleCode, "مقدار " ++ fieldName ++ " نامعتبر است.",
      [("field", .text fieldName), ("value", .value value)]⟩
  else
    let text := normalizeText value
    if text.isEmpty then
      if allowNone then .ok default
      else .error ⟨ruleCode, "مقدار " ++ fieldName ++ " خالی است.", [("field", .text fieldName)]⟩
    else match parseInt text with
      | some n => .ok (some n)
      | none => .error ⟨ruleCode, "امکان تبدیل " ++ fieldName ++ " به عدد وجود ندارد.",
          [("field", .text fieldName), ("value", .text text)]⟩

/-- `_normalize_bool`; `lower` is `str.lower`. -/
def normalizeBool (lower : String → String) (fieldName : String) (value : Value) :
    Except NormalizationError Bool :=
  match value with
  | .bool b => .ok b
  | value =>
    let text := lower (normalizeText value)
    if text ∈ ["true", "1", "yes", "y", "on"] then .ok true
    else if text ∈ ["false", "0", "no", "n", "off"] then .ok false
    else .error ⟨.capacityAvailable, "مقدار بولی " ++ fieldName ++ " قابل تفسیر نیست.",
      [("field", .text fieldName), ("value", .value value)]⟩

def normalizeEnum (ruleCode : RuleCode) (fieldName : String) (allowed : List Int)
    (value : Value) : Except NormalizationError Int := do
  let numeric ← normalizeInt ruleCode fieldName false none value
  match numeric.filter (allowed.contains ·) with
  | some n => return n
  | none => throw ⟨ruleCode, "مقدار " ++ fieldName ++ " خارج از مقادیر مجاز است.",
      [("field", .text fieldName), ("value", .optInt numeric), ("allowed", .ints allowed)]⟩

def normalizeOptionalEnum (ruleCode : RuleCode) (fieldName : String) (allowed : List Int)
    (default : Int) (value : Value) : Except NormalizationError Int :=
  if value = .none ∨ (normalizeText value).isEmpty then .ok default
  else normalizeEnum ruleCode fieldName allowed value

/-- The providers are functions; `lower` and `upper` are those of `str`. -/
structure EligibilityPolicy where
  specialSchools : Int → Option (List Int)
  managerCenters : Int → Option (List Int)
  config : AllocationConfig := {}
  lower : String → String
  upper : String → String

namespace EligibilityPolicy
variable (P : EligibilityPolicy)

def rules : List Rule := allRules ++ [managerCenterGateRule P.managerCenters]

def deriveStudentType (rosterYear schoolCode : Option Int) : Option Int :=
  match rosterYear, schoolCode with
  | some year, some school =>
    (P.specialSchools year).map fun schools => if school ∈ schools then 1 else 0
  | _, _ => none

def normalizeStudent (student : StudentLike) : Except NormalizationError NormalizedStudent := do
  let gender ← normalizeEnum .genderMatch "gender" [0, 1] student.gender
  let groupCode := normalizeText student.groupCode
  if groupCode.isEmpty then
    throw ⟨.groupAllowed, "کد گروه دانش‌آموز خالی است.", [("field", .text "group_code")]⟩
  let regCenter ← normalizeEnum .centerAllowed "reg_center" [0, 1, 2] student.regCenter
  let regStatus ← normalizeEnum .regStatusAllowed "reg_status" [0, 1, 3] student.regStatus
  let eduStatus ← normalizeInt .graduateNotToSchool "edu_status" true (some 0) student.eduStatus
  let schoolCode ← normalizeInt .schoolTypeCompatible "school_code" true none student.schoolCode
  let rosterYear ← normalizeInt .schoolTypeCompatible "roster_year" true none student.rosterYear
  let providedType ←
    normalizeOptionalEnum .schoolTypeCompatible "student_type" [0, 1] 0 student.studentType
  let derivedType := P.deriveStudentType rosterYear schoolCode
  let studentType := derivedType.getD providedType
  return {
    gender, groupCode, regCenter, regStatus
    eduStatus := eduStatus.getD 0
    schoolCode, studentType, rosterYear
    warnings := if studentType ≠ providedType then ["student_type_mismatch_roster"] else [] }

def normalizeMentor (mentor : MentorLike) : Except NormalizationError NormalizedMentor := do
  let mentorId ← normalizeInt .capacityAvailable "mentor_id" false none mentor.mentorId
  let gender ← normalizeEnum .genderMatch "mentor_gender" [0, 1] mentor.gender
  let allowedGroups := mentor.allowedGroups.map normalizeText
  let allowedCenters ←
    mentor.allowedCenters.mapM (normalizeEnum .centerAllowed "allowed_center" [0, 1, 2])
  let capacity ← normalizeInt .capacityAvailable "capacity" false none mentor.capacity
  let currentLoad ← normalizeInt .capacityAvailable "current_load" false none mentor.currentLoad
  let isActive ← normalizeBool P.lower "is_active" mentor.isActive
  let mentorTypeText := P.upper (normalizeText mentor.mentorType)
  let mentorType : MentorType ←
    if mentorTypeText = "NORMAL" then pure .normal
    else if mentorTypeText = "SCHOOL" then pure .school
    else throw ⟨.schoolTypeCompatible, "نوع منتور مجاز نیست.",
      [("mentor_type", .value mentor.mentorType)]⟩
  let specialSchools ← mentor.specialSchools.mapM
    (normalizeInt .schoolTypeCompatible "special_school" false none)
  let managerId ← normalizeInt .managerCenterGate "manager_id" true none mentor.managerId
  return {
    mentorId := mentorId.getD 0, gender, allowedGroups, allowedCenters
    capacity := capacity.getD 0
    currentLoad := currentLoad.getD 0
    isActive, mentorType
    specialSchools := specialSchools.reduceOption
    managerId }

/-- `trace[:limit]` -/
def slice (limit : Int) (trace : List TraceEntry) : List TraceEntry :=
  if 0 ≤ limit then trace.take limit.toNat else trace.take (trace.length - (-limit).toNat)

def checkRules (student : NormalizedStudent) (mentor : NormalizedMentor) (passed : Bool)
    (trace : List TraceEntry) : List Rule → Bool × List TraceEntry
  | [] => (passed, trace)
  | rule :: rules =>
    let result := rule.check student mentor
    let trace := trace ++ [⟨rule.code, result.passed, result.details⟩]
    if result.passed then checkRules student mentor passed trace rules
    else if P.config.fastFail then (false, trace)
    else checkRules student mentor false trace rules

def runRules (student : NormalizedStudent) (mentor : NormalizedMentor) :
    Bool × List TraceEntry :=
  let (passed, trace) := P.checkRules student mentor true [] P.rules
  match P.config.traceLimitRejected with
  | some limit => (passed, if passed then trace else slice limit trace)
  | none => (passed, trace)

end EligibilityPolicy

end Phase3
