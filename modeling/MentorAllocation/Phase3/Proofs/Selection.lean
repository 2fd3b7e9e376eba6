import MentorAllocation.Data.Except
import MentorAllocation.Data.Firsts
import MentorAllocation.Phase3.Engine

namespace Phase3
open Data Sorting

namespace EligibilityPolicy
variable (P : EligibilityPolicy)

/-- The mentor normalises to `normalized`, which passes every rule. -/
structure Passes (student : NormalizedStudent) (mentor : MentorLike)
    (normalized : NormalizedMentor) : Prop where
  normalizes : P.normalizeMentor mentor = .ok normalized
  rules : ∀ rule ∈ P.rules, (rule.check student normalized).passed = true

def normalizedIds (mentors : List MentorLike) : List Int :=
  mentors.filterMap fun mentor => (P.normalizeMentor mentor).toOption.map (·.mentorId)

/-- The rule loop answers whether every rule passes, stopping early or not. -/
theorem checkRules_passed (student : NormalizedStudent) (mentor : NormalizedMentor)
    (passed : Bool) (trace : List TraceEntry) (rules : List Rule) :
    (P.checkRules student mentor passed trace rules).1 =
      (passed && rules.all fun rule => (rule.check student mentor).passed) := by
  induction rules generalizing passed trace with
  | nil => simp [checkRules]
  | cons rule rules ih =>
    unfold checkRules
    cases hrule : (rule.check student mentor).passed with
    | true => simp only [if_true, ih, List.all_cons, hrule, Bool.true_and]
    | false =>
      by_cases hfast : P.config.fastFail = true
      · simp [hfast, hrule]
      · simp [hfast, hrule, ih]

theorem runRules_passed (student : NormalizedStudent) (mentor : NormalizedMentor) :
    (P.runRules student mentor).1 = true ↔
      ∀ rule ∈ P.rules, (rule.check student mentor).passed = true := by
  have hloop : (P.runRules student mentor).1 =
      (P.checkRules student mentor true [] P.rules).1 := by
    unfold runRules
    cases P.config.traceLimitRejected <;> rfl
  rw [hloop, checkRules_passed, Bool.true_and, List.all_eq_true]

theorem evaluateMentor_mentor (student : NormalizedStudent) (mentor : MentorLike) :
    (P.evaluateMentor student mentor).mentor = some mentor := by
  unfold evaluateMentor
  cases P.normalizeMentor mentor <;> rfl

/-- A mentor has a ranking key exactly when it passes, and it is the key of what it normalises
to. -/
theorem evaluateMentor_rankingKey {student : NormalizedStudent} {mentor : MentorLike}
    {key : RankingKey} : (P.evaluateMentor student mentor).rankingKey = some key ↔
      ∃ normalized, P.Passes student mentor normalized ∧ key = normalized.rankingKey := by
  unfold evaluateMentor
  cases hmentor : P.normalizeMentor mentor with
  | error error =>
    simp only [reduceCtorEq, false_iff]
    rintro ⟨normalized, hpasses, -⟩
    rw [hpasses.normalizes] at hmentor
    cases hmentor
  | ok normalized =>
    simp only [Option.ite_none_right_eq_some, Option.some.injEq, runRules_passed]
    constructor
    · rintro ⟨hrules, rfl⟩
      exact ⟨normalized, ⟨hmentor, hrules⟩, rfl⟩
    · rintro ⟨normalized', hpasses, rfl⟩
      obtain rfl : normalized = normalized' :=
        Except.ok.inj (hmentor.symm.trans hpasses.normalizes)
      exact ⟨hpasses.rules, rfl⟩

def candidate (student : NormalizedStudent) (mentor : MentorLike) :
    Option (RankingKey × AllocationTraceEntry) :=
  (P.evaluateMentor student mentor).rankingKey.map (·, P.evaluateMentor student mentor)

theorem candidate_eq_some {student : NormalizedStudent} {mentor : MentorLike}
    {found : RankingKey × AllocationTraceEntry} : P.candidate student mentor = some found ↔
      ∃ normalized, P.Passes student mentor normalized ∧
        found = (normalized.rankingKey, P.evaluateMentor student mentor) := by
  rw [candidate, Option.map_eq_some_iff]
  constructor
  · rintro ⟨key, hkey, rfl⟩
    obtain ⟨normalized, hpasses, rfl⟩ := P.evaluateMentor_rankingKey.mp hkey
    exact ⟨normalized, hpasses, rfl⟩
  · rintro ⟨normalized, hpasses, rfl⟩
    exact ⟨_, P.evaluateMentor_rankingKey.mpr ⟨normalized, hpasses, rfl⟩, rfl⟩

theorem considerMentor_eq (student : NormalizedStudent)
    (found : List AllocationTraceEntry × List (RankingKey × AllocationTraceEntry))
    (mentor : MentorLike) : P.considerMentor student found mentor =
      (found.1 ++ [P.evaluateMentor student mentor],
        found.2 ++ (P.candidate student mentor).toList) := by
  unfold considerMentor candidate
  cases hkey : (P.evaluateMentor student mentor).rankingKey <;> simp [hkey]

theorem foldl_considerMentor (student : NormalizedStudent) (mentors : List MentorLike)
    (found : List AllocationTraceEntry × List (RankingKey × AllocationTraceEntry)) :
    mentors.foldl (P.considerMentor student) found =
      (found.1 ++ mentors.map (P.evaluateMentor student),
        found.2 ++ mentors.filterMap (P.candidate student)) := by
  induction mentors generalizing found with
  | nil => simp
  | cons mentor mentors ih =>
    rw [List.foldl_cons, ih, considerMentor_eq]
    cases hcandidate : P.candidate student mentor <;> simp [hcandidate]

section
variable {student : StudentLike} {normalized : NormalizedStudent}

theorem evaluate_eq (hstudent : P.normalizeStudent student = .ok normalized)
    (mentors : List MentorLike) : P.evaluate student mentors =
      ((stableSort (mentors.filterMap (P.candidate normalized))).head?.bind (·.2.mentor),
        mentors.map (P.evaluateMentor normalized)) := by
  rw [evaluate, hstudent]
  simp only [foldl_considerMentor, List.nil_append]
  cases stableSort (mentors.filterMap (P.candidate normalized)) <;> rfl

theorem mem_candidates {student : NormalizedStudent} {mentors : List MentorLike}
    {found : RankingKey × AllocationTraceEntry} :
    found ∈ mentors.filterMap (P.candidate student) ↔ ∃ mentor ∈ mentors, ∃ normalized,
      P.Passes student mentor normalized ∧
        found = (normalized.rankingKey, P.evaluateMentor student mentor) := by
  simp only [List.mem_filterMap, candidate_eq_some]

theorem evaluate_isSome (hstudent : P.normalizeStudent student = .ok normalized)
    (mentors : List MentorLike) : (P.evaluate student mentors).1.isSome ↔
      ∃ mentor ∈ mentors, ∃ found, P.Passes normalized mentor found := by
  rw [P.evaluate_eq hstudent]
  constructor
  · intro hsome
    obtain ⟨best, hbest⟩ := Option.isSome_iff_exists.mp hsome
    obtain ⟨entry, hhead, -⟩ := Option.bind_eq_some_iff.mp hbest
    obtain ⟨mentor, hmem, found, hpasses, -⟩ := P.mem_candidates.mp (head?_stableSort hhead).1
    exact ⟨mentor, hmem, found, hpasses⟩
  · rintro ⟨mentor, hmem, found, hpasses⟩
    have hin := (stableSort_perm _).mem_iff.mpr
      (P.mem_candidates.mpr ⟨mentor, hmem, found, hpasses, rfl⟩)
    obtain ⟨entry, hhead⟩ := Option.isSome_iff_exists.mp
      (List.isSome_head?.mpr (List.ne_nil_of_mem hin))
    obtain ⟨best, -, found', -, rfl⟩ := P.mem_candidates.mp (head?_stableSort hhead).1
    simp [hhead, evaluateMentor_mentor]

theorem evaluate_least (hstudent : P.normalizeStudent student = .ok normalized)
    {mentors : List MentorLike} {best : MentorLike}
    (hbest : (P.evaluate student mentors).1 = some best) :
    best ∈ mentors ∧ ∃ found, P.Passes normalized best found ∧
      ∀ mentor ∈ mentors, ∀ other, P.Passes normalized mentor other →
        found.rankingKey ≤ other.rankingKey := by
  rw [P.evaluate_eq hstudent] at hbest
  obtain ⟨entry, hhead, hentry⟩ := Option.bind_eq_some_iff.mp hbest
  obtain ⟨hin, hleast⟩ := head?_stableSort hhead
  obtain ⟨mentor, hmem, found, hpasses, rfl⟩ := P.mem_candidates.mp hin
  obtain rfl : mentor = best := Option.some.inj ((P.evaluateMentor_mentor _ _).symm.trans hentry)
  refine ⟨hmem, found, hpasses, fun other hother normalized' hpasses' => ?_⟩
  exact hleast _ (P.mem_candidates.mpr ⟨other, hother, normalized', hpasses', rfl⟩)

end

/-- Of mentors with distinct ids, no two that pass have one ranking key. -/
theorem eq_of_rankingKey {student : NormalizedStudent} {mentors : List MentorLike}
    (hids : (P.normalizedIds mentors).Nodup) {a b : MentorLike} (ha : a ∈ mentors)
    (hb : b ∈ mentors) {m n : NormalizedMentor} (hm : P.Passes student a m)
    (hn : P.Passes student b n) (hkey : m.rankingKey = n.rankingKey) : a = b := by
  have hid : m.mentorId = n.mentorId := congrArg (fun key => (ofLex (ofLex key).2).2) hkey
  refine eq_of_nodup_filterMap hids ha hb (k := m.mentorId) ?_ ?_
  · simp [hm.normalizes, Except.toOption]
  · simp [hn.normalizes, hid, Except.toOption]

/-- The selection among mentors with distinct ids is determined by which pass and by their ranking
keys. -/
theorem evaluate_eq_some {student : StudentLike} {normalized : NormalizedStudent}
    (hstudent : P.normalizeStudent student = .ok normalized) {mentors : List MentorLike}
    (hids : (P.normalizedIds mentors).Nodup) {best : MentorLike} :
    (P.evaluate student mentors).1 = some best ↔
      best ∈ mentors ∧ ∃ found, P.Passes normalized best found ∧
        ∀ mentor ∈ mentors, ∀ other, P.Passes normalized mentor other →
          found.rankingKey ≤ other.rankingKey := by
  refine ⟨P.evaluate_least hstudent, ?_⟩
  rintro ⟨hmem, found, hpasses, hleast⟩
  obtain ⟨chosen, hchosen⟩ := Option.isSome_iff_exists.mp
    ((P.evaluate_isSome hstudent mentors).mpr ⟨best, hmem, found, hpasses⟩)
  obtain ⟨hmem', found', hpasses', hleast'⟩ := P.evaluate_least hstudent hchosen
  have hkey : found.rankingKey = found'.rankingKey :=
    le_antisymm (hleast chosen hmem' found' hpasses') (hleast' best hmem found hpasses)
  rw [hchosen, P.eq_of_rankingKey hids hmem hmem' hpasses hpasses' hkey]

theorem passes_config (config : AllocationConfig) {student : NormalizedStudent}
    {mentor : MentorLike} {normalized : NormalizedMentor} :
    { P with config }.Passes student mentor normalized ↔ P.Passes student mentor normalized :=
  ⟨fun h => ⟨h.normalizes, h.rules⟩, fun h => ⟨h.normalizes, h.rules⟩⟩

/-- Neither the order of the mentors nor the tracing settings change the selection. -/
theorem evaluate_perm {student : StudentLike} {normalized : NormalizedStudent}
    (hstudent : P.normalizeStudent student = .ok normalized) {mentors permuted : List MentorLike}
    (hids : (P.normalizedIds mentors).Nodup) (hperm : permuted.Perm mentors)
    (config : AllocationConfig) :
    ({ P with config }.evaluate student permuted).1 = (P.evaluate student mentors).1 := by
  have hstudent' : { P with config }.normalizeStudent student = .ok normalized := hstudent
  have hids' : ({ P with config }.normalizedIds permuted).Nodup :=
    (hperm.filterMap _).nodup_iff.mpr hids
  refine Option.ext fun best => ?_
  rw [evaluate_eq_some _ hstudent' hids', P.evaluate_eq_some hstudent hids]
  simp only [passes_config, hperm.mem_iff]

end EligibilityPolicy

section
open EligibilityPolicy

def openPolicy : EligibilityPolicy where
  specialSchools _ := none
  managerCenters _ := none
  lower := id
  upper := id

def sampleStudent : StudentLike where
  gender := .object "0"
  groupCode := .object "math"
  regCenter := .object "1"
  regStatus := .object "1"
  eduStatus := .none
  schoolCode := .none
  studentType := .none
  rosterYear := .none

def normalizedSample : NormalizedStudent where
  gender := 0
  groupCode := "math"
  regCenter := 1
  regStatus := 1
  eduStatus := 0
  schoolCode := none
  studentType := 0
  rosterYear := none
  warnings := []

def sampleMentor (mentorId currentLoad capacity : String) : MentorLike where
  mentorId := .object mentorId
  gender := .object "0"
  allowedGroups := [.object "math"]
  allowedCenters := [.object "1"]
  capacity := .object capacity
  currentLoad := .object currentLoad
  isActive := .bool true
  mentorType := .object "NORMAL"
  specialSchools := []
  managerId := .none

def normalizedMentorSample (mentorId currentLoad capacity : Int) : NormalizedMentor where
  mentorId := mentorId
  gender := 0
  allowedGroups := ["math"]
  allowedCenters := [1]
  capacity := capacity
  currentLoad := currentLoad
  isActive := true
  mentorType := .normal
  specialSchools := []
  managerId := none

def third : MentorLike := sampleMentor "1" "1" "3"

def almostThird : MentorLike := sampleMentor "2" "333333333333333333" "1000000000000000000"

theorem normalizeStudent_sample :
    openPolicy.normalizeStudent sampleStudent = .ok normalizedSample := by
  rfl

theorem third_passes :
    openPolicy.Passes normalizedSample third (normalizedMentorSample 1 1 3) :=
  ⟨by rfl, by decide⟩

theorem almostThird_passes : openPolicy.Passes normalizedSample almostThird
    (normalizedMentorSample 2 333333333333333333 1000000000000000000) :=
  ⟨by rfl, by decide⟩

theorem normalizedIds_sample : openPolicy.normalizedIds [third, almostThird] = [1, 2] := by
  rfl

def NormalizedMentor.exactKey (mentor : NormalizedMentor) : RankingKey :=
  toLex (if mentor.capacity ≤ 0 then 1 else (mentor.currentLoad / mentor.capacity : ℚ),
    toLex (mentor.currentLoad, mentor.mentorId))

theorem nearestDouble_third :
    nearestDouble (1 / 3) = nearestDouble (333333333333333333 / 1000000000000000000) := by
  rw [nearestDouble_eq (s := 54) (n := 6004799503160661), nearestDouble_eq (s := 54)
    (n := 6004799503160661)]
  all_goals norm_num

end

end Phase3
