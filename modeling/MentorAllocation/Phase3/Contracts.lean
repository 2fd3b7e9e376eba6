import Mathlib.Data.List.Sort

namespace Phase3

/-- A raw value: `None`, a bool, or any other object, of which `str()` is read. -/
inductive Value where
  | none
  | bool (b : Bool)
  | object (str : String)
  deriving DecidableEq, Repr

inductive RuleCode where
  | genderMatch
  | groupAllowed
  | centerAllowed
  | regStatusAllowed
  | capacityAvailable
  | schoolTypeCompatible
  | graduateNotToSchool
  | managerCenterGate
  deriving DecidableEq, Repr

inductive MentorType where
  | normal
  | school
  deriving DecidableEq, Repr

inductive Detail where
  | value (v : Value)
  | text (s : String)
  | int (n : Int)
  | optInt (n : Option Int)
  | ints (l : List Int)
  | texts (l : List String)
  deriving DecidableEq, Repr

abbrev Details := List (String × Detail)

structure TraceEntry where
  code : RuleCode
  passed : Bool
  details : Details
  deriving DecidableEq, Repr

structure StudentLike where
  gender : Value
  groupCode : Value
  regCenter : Value
  regStatus : Value
  eduStatus : Value
  schoolCode : Value
  studentType : Value
  rosterYear : Value
  deriving DecidableEq, Repr

structure MentorLike where
  mentorId : Value
  gender : Value
  allowedGroups : List Value
  allowedCenters : List Value
  capacity : Value
  currentLoad : Value
  isActive : Value
  mentorType : Value
  specialSchools : List Value
  managerId : Value
  deriving DecidableEq, Repr

structure AllocationConfig where
  fastFail : Bool := false
  traceLimitRejected : Option Int := none

structure NormalizedStudent where
  gender : Int
  groupCode : String
  regCenter : Int
  regStatus : Int
  eduStatus : Int
  schoolCode : Option Int
  studentType : Int
  rosterYear : Option Int
  warnings : List String
  deriving DecidableEq, Repr

/-- Its sets are lists of their members. -/
structure NormalizedMentor where
  mentorId : Int
  gender : Int
  allowedGroups : List String
  allowedCenters : List Int
  capacity : Int
  currentLoad : Int
  isActive : Bool
  mentorType : MentorType
  specialSchools : List Int
  managerId : Option Int
  deriving DecidableEq, Repr

end Phase3
