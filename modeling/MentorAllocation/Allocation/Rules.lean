import MentorAllocation.Allocation.Models

namespace Allocation
open Text

structure RuleResult where
  passed : Bool
  details : List (String × Json)

/-- `CapacityAvailableRule.check`; the rule looks at nothing of the student. -/
def capacityAvailableRule (mentor : MentorModel) : RuleResult :=
  if mentor.capacity < 0 || mentor.currentLoad < 0 then
    { passed := false
      details := [
        ("message", .str "ظرفیت یا بار منتور مقدار منفی دارد."),
        ("capacity", .int mentor.capacity),
        ("current_load", .int mentor.currentLoad)] }
  else if !mentor.isActive then
    { passed := false, details := [("message", .str "منتور فعال نیست.")] }
  else if mentor.currentLoad ≥ mentor.capacity then
    { passed := false
      details := [
        ("message", .str "ظرفیت منتور تکمیل شده است."),
        ("capacity", .int mentor.capacity),
        ("current_load", .int mentor.currentLoad)] }
  else { passed := true, details := [] }

theorem capacityAvailableRule_passed (mentor : MentorModel) :
    (capacityAvailableRule mentor).passed = true ↔
      0 ≤ mentor.currentLoad ∧ mentor.isActive = true ∧ mentor.currentLoad < mentor.capacity := by
  unfold capacityAvailableRule
  split
  · rename_i h
    simp only [Bool.or_eq_true, decide_eq_true_eq] at h
    simp only [Bool.false_eq_true, false_iff]
    omega
  · rename_i h
    simp only [Bool.or_eq_true, decide_eq_true_eq, not_or, not_lt] at h
    split
    · simp_all
    · split
      · simp only [Bool.false_eq_true, false_iff]
        omega
      · simp_all

def Database.confirmed (db : Database) (mentorId : Int) : Nat :=
  db.allocations.countP (fun r => r.status == .confirmed && r.mentorId == mentorId)

/-- The mentor's row with `n` more students on its load. -/
def MentorModel.loaded (mentor : MentorModel) (n : Nat) : MentorModel :=
  { mentor with currentLoad := mentor.currentLoad + n }

end Allocation
