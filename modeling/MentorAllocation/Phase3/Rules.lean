import MentorAllocation.Allocation.Rules
import MentorAllocation.Phase3.Contracts

namespace Phase3

structure RuleResult where
  passed : Bool
  details : Details

structure Rule where
  code : RuleCode
  check : NormalizedStudent → NormalizedMentor → RuleResult

def genderMatchRule : Rule where
  code := .genderMatch
  check student mentor :=
    if student.gender = mentor.gender then ⟨true, []⟩
    else ⟨false, [("message", .text "جنسیت دانش‌آموز و منتور هم‌خوان نیست."),
      ("student_gender", .int student.gender), ("mentor_gender", .int mentor.gender)]⟩

def groupAllowedRule : Rule where
  code := .groupAllowed
  check student mentor :=
    if student.groupCode ∈ mentor.allowedGroups then ⟨true, []⟩
    else ⟨false, [("message", .text "گروه دانش‌آموز در فهرست مجاز منتور نیست."),
      ("group_code", .text student.groupCode)]⟩

def centerAllowedRule : Rule where
  code := .centerAllowed
  check student mentor :=
    if student.regCenter ∈ mentor.allowedCenters then ⟨true, []⟩
    else ⟨false, [("message", .text "مرکز ثبت‌نام دانش‌آموز برای این منتور مجاز نیست."),
      ("reg_center", .int student.regCenter)]⟩

def registrationStatusAllowedRule : Rule where
  code := .regStatusAllowed
  check student _ :=
    if student.regStatus ∈ [0, 1, 3] then ⟨true, []⟩
    else ⟨false, [("message", .text "وضعیت ثبت‌نام دانش‌آموز معتبر نیست."),
      ("reg_status", .int student.regStatus)]⟩

def capacityAvailableRule : Rule where
  code := .capacityAvailable
  check _ mentor :=
    if mentor.capacity < 0 ∨ mentor.currentLoad < 0 then
      ⟨false, [("message", .text "ظرفیت یا بار منتور مقدار منفی دارد."),
        ("capacity", .int mentor.capacity), ("current_load", .int mentor.currentLoad)]⟩
    else if !mentor.isActive then ⟨false, [("message", .text "منتور فعال نیست.")]⟩
    else if mentor.capacity ≤ mentor.currentLoad then
      ⟨false, [("message", .text "ظرفیت منتور تکمیل شده است."),
        ("capacity", .int mentor.capacity), ("current_load", .int mentor.currentLoad)]⟩
    else ⟨true, []⟩

/-- A text or a number of JSON, as the details of a trace hold it. -/
def Detail.ofJson : Text.Json → Option Detail
  | .str s => some (.text s)
  | .int n => some (.int n)
  | _ => none

/-- The allocation's form of the rule says of a mentor's columns what this one says. -/
theorem capacityAvailableRule_allocation (student : NormalizedStudent) {mentor : NormalizedMentor}
    {model : Allocation.MentorModel} (hcapacity : model.capacity = mentor.capacity)
    (hload : model.currentLoad = mentor.currentLoad) (hactive : model.isActive = mentor.isActive) :
    (Allocation.capacityAvailableRule model).passed =
        (capacityAvailableRule.check student mentor).passed ∧
      ((Allocation.capacityAvailableRule model).details.map fun e => (e.1, Detail.ofJson e.2)) =
        (capacityAvailableRule.check student mentor).details.map fun e => (e.1, some e.2) := by
  simp only [Allocation.capacityAvailableRule, capacityAvailableRule, hcapacity, hload, hactive,
    Bool.or_eq_true, decide_eq_true_eq, ge_iff_le]
  split
  · exact ⟨rfl, rfl⟩
  · split
    · exact ⟨rfl, rfl⟩
    · split <;> exact ⟨rfl, rfl⟩

def schoolTypeCompatibleRule : Rule where
  code := .schoolTypeCompatible
  check student mentor :=
    let details : Details :=
      if student.warnings.isEmpty then []
      else [("warnings", .texts (student.warnings.insertionSort (· ≤ ·)))]
    if student.studentType = 1 then
      if mentor.mentorType ≠ .school then
        ⟨false, details ++
          [("message", .text "دانش‌آموز ویژه فقط باید به منتور مدارس تخصیص یابد."),
            ("mentor_type", .text "NORMAL")]⟩
      else match student.schoolCode with
        | none => ⟨false, details ++
            [("message", .text "کد مدرسه برای دانش‌آموز ویژه موجود نیست.")]⟩
        | some schoolCode =>
          if schoolCode ∈ mentor.specialSchools then ⟨true, details⟩
          else ⟨false, details ++
            [("message", .text "مدرسه دانش‌آموز در مدارس مجاز منتور نیست."),
              ("school_code", .int schoolCode)]⟩
    else if mentor.mentorType = .school then
      ⟨false, details ++
        [("message", .text "دانش‌آموز عادی نباید به منتور مدارس تخصیص یابد.")]⟩
    else ⟨true, details⟩

def graduateNotToSchoolRule : Rule where
  code := .graduateNotToSchool
  check student mentor :=
    if student.eduStatus = 0 ∧ mentor.mentorType = .school then
      ⟨false, [("message", .text "فارغ‌التحصیل نباید به منتور مدارس تخصیص یابد.")]⟩
    else ⟨true, []⟩

/-- `getAllowedCenters` is the provider of the centers of a manager. -/
def managerCenterGateRule (getAllowedCenters : Int → Option (List Int)) : Rule where
  code := .managerCenterGate
  check student mentor := match mentor.managerId with
    | none => ⟨true, []⟩
    | some managerId => match getAllowedCenters managerId with
      | none => ⟨false, [("message", .text "دسترسی مراکز برای مدیر یافت نشد."),
          ("reason", .text "manager_centers_not_found")]⟩
      | some centers =>
        if student.regCenter ∈ centers then ⟨true, []⟩
        else ⟨false, [("message", .text "مرکز ثبت‌نام دانش‌آموز در سطح مدیر مجاز نیست."),
          ("reg_center", .int student.regCenter)]⟩

def allRules : List Rule :=
  [genderMatchRule, groupAllowedRule, centerAllowedRule, registrationStatusAllowedRule,
    capacityAvailableRule, schoolTypeCompatibleRule, graduateNotToSchoolRule]

end Phase3
