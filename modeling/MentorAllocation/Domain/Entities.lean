import Mathlib.Init

namespace Domain

inductive Gender where
  | male
  | female
  deriving DecidableEq, Repr

/-- Its sets are lists of their members. -/
structure Mentor where
  mentorId : Int
  gender : Gender
  type : String
  capacity : Int := 60
  currentLoad : Int := 0
  allowedGroups : List Int := []
  allowedCenters : List Int := []
  schoolCodes : List Int := []
  deriving DecidableEq, Repr

end Domain
