namespace Core

/-- A student waiting for a mentor; the fields that rules and engine read. -/
structure Student where
  id : Int
  gender : Int
  gradeLevel : Int
  centerId : Int
  deriving DecidableEq, Repr

structure Mentor where
  id : Int
  gender : Int
  supportedGrades : List Int
  maxCapacity : Int
  currentStudents : Int
  centerId : Int
  primaryGrade : Option Int
  deriving DecidableEq, Repr

def Mentor.remainingCapacity (mentor : Mentor) : Int :=
  mentor.maxCapacity - mentor.currentStudents

structure AllocationRules where
  capacityWeight : Int := 10
  primaryGradeBonus : Int := 100
  sameCenterBonus : Int := 50
  requireSameCenter : Bool := false

namespace AllocationRules
variable (rules : AllocationRules) (student : Student) (mentor : Mentor)

def canAssign : Bool :=
  if student.gender ≠ mentor.gender then false
  else if !mentor.supportedGrades.contains student.gradeLevel then false
  else if mentor.maxCapacity ≤ mentor.currentStudents then false
  else if rules.requireSameCenter ∧ student.centerId ≠ mentor.centerId then false
  else true

def calculatePriority : Int :=
  let priority := 0
  let priority :=
    if mentor.primaryGrade = some student.gradeLevel then priority + rules.primaryGradeBonus
    else priority
  let priority :=
    if student.centerId = mentor.centerId then priority + rules.sameCenterBonus else priority
  let remainingCapacity := mentor.remainingCapacity
  if 0 < rules.capacityWeight ∧ 0 < remainingCapacity then
    priority + remainingCapacity * rules.capacityWeight
  else priority

end AllocationRules

structure Assignment where
  studentId : Int
  mentorId : Int
  priorityScore : Int
  deriving DecidableEq, Repr

structure FailedAssignment where
  studentId : Int
  reason : String
  deriving DecidableEq, Repr

structure Results where
  successful : Nat := 0
  failed : Nat := 0
  assignments : List Assignment := []
  errors : List FailedAssignment := []
  deriving DecidableEq, Repr

structure AllocationEngine where
  rules : AllocationRules
  assignments : List Assignment := []
  failedAssignments : List FailedAssignment := []

/-- The mentor objects are the positions of the list. -/
abbrev Candidate := Mentor × Nat

section
variable (rules : AllocationRules) (student : Student)

/-- The body of the loop of `_find_best_mentor`, on `best` and `best_score`. -/
def consider (found : Option Candidate × Int) (candidate : Candidate) : Option Candidate × Int :=
  let (best, bestScore) := found
  let mentor := candidate.1
  if !rules.canAssign student mentor then found
  else
    let score := rules.calculatePriority student mentor
    if bestScore < score then (some candidate, score)
    else match best with
      | none => found
      | some b =>
        if score ≠ bestScore then found
        else if mentor.currentStudents < b.1.currentStudents then (some candidate, bestScore)
        else if mentor.currentStudents = b.1.currentStudents ∧
            b.1.remainingCapacity < mentor.remainingCapacity then (some candidate, bestScore)
        else if mentor.currentStudents = b.1.currentStudents ∧
            mentor.remainingCapacity = b.1.remainingCapacity ∧ mentor.id < b.1.id then
          (some candidate, bestScore)
        else found

def findBestMentor (mentors : List Mentor) : Option Candidate :=
  (mentors.zipIdx.foldl (consider rules student) (none, -1)).1

end

def getFailureReason (student : Student) (mentors : List Mentor) : String :=
  if mentors.isEmpty then "no mentors available"
  else
    let matchingGender := mentors.filter fun m => m.gender == student.gender
    if matchingGender.isEmpty then "no mentor with matching gender"
    else
      let matchingGrade := matchingGender.filter fun m =>
        m.supportedGrades.contains student.gradeLevel
      if matchingGrade.isEmpty then "grade level not supported"
      else
        let capacityLeft := matchingGrade.filter fun m => m.currentStudents < m.maxCapacity
        if capacityLeft.isEmpty then "no capacity available" else "no mentor matched"

structure Allocation where
  engine : AllocationEngine
  mentors : List Mentor
  results : Results

/-- `mentor.current_students += 1`. -/
def Mentor.takeStudent (mentor : Mentor) : Mentor :=
  { mentor with currentStudents := mentor.currentStudents + 1 }

/-- `_assign_student`, and the successful branch of the loop. -/
def Allocation.assignStudent (a : Allocation) (student : Student) (mentor : Candidate)
    (priority : Int) : Allocation :=
  let assignment := ⟨student.id, mentor.1.id, priority⟩
  { engine := { a.engine with assignments := a.engine.assignments ++ [assignment] }
    mentors := a.mentors.modify mentor.2 Mentor.takeStudent
    results := { a.results with
      successful := a.results.successful + 1
      assignments := a.results.assignments ++ [assignment] } }

def Allocation.failStudent (a : Allocation) (student : Student) : Allocation :=
  let failed := ⟨student.id, getFailureReason student a.mentors⟩
  { a with
    engine := { a.engine with failedAssignments := a.engine.failedAssignments ++ [failed] }
    results := { a.results with
      failed := a.results.failed + 1
      errors := a.results.errors ++ [failed] } }

def Allocation.allocate (a : Allocation) (student : Student) : Allocation :=
  match findBestMentor a.engine.rules student a.mentors with
  | some mentor =>
    a.assignStudent student mentor (a.engine.rules.calculatePriority student mentor.1)
  | none => a.failStudent student

/-- `allocate_students`: its results, the engine it leaves and the mentors' new loads. -/
def AllocationEngine.allocateStudents (E : AllocationEngine) (students : List Student)
    (mentors : List Mentor) : Allocation :=
  students.foldl Allocation.allocate { engine := E, mentors, results := {} }

end Core
