import MentorAllocation.Phase3.Proofs.Decoration
import MentorAllocation.Phase3.Proofs.Selection

namespace Phase3
open Data Text

/-- What `GroupAllowedRule` says of a student and a mentor, when both normalise. -/
def EligibilityPolicy.groupOutcome (P : EligibilityPolicy) (student : StudentLike)
    (mentor : MentorLike) : Except NormalizationError Bool := do
  let student ← P.normalizeStudent student
  let mentor ← P.normalizeMentor mentor
  return (groupAllowedRule.check student mentor).passed

def SameForStudents (s t : String) : Prop :=
  ∀ (P : EligibilityPolicy) (student : StudentLike) (mentor : MentorLike),
  P.groupOutcome { student with groupCode := .object s } mentor =
    P.groupOutcome { student with groupCode := .object t } mentor

/-- A group of the mentor can be either text. -/
def SameForMentors (s t : String) : Prop :=
  ∀ (P : EligibilityPolicy) (student : StudentLike) (mentor : MentorLike)
    (before after : List Value),
    P.groupOutcome student { mentor with allowedGroups := before ++ .object s :: after } =
      P.groupOutcome student { mentor with allowedGroups := before ++ .object t :: after }

theorem sameForStudents_of_eq {s t : String} (h : normalizeStr s = normalizeStr t) :
    SameForStudents s t := by
  intro P student mentor
  have hstudent : P.normalizeStudent { student with groupCode := .object s } =
      P.normalizeStudent { student with groupCode := .object t } := by
    have htext : normalizeText (.object s) = normalizeText (.object t) := h
    rw [EligibilityPolicy.normalizeStudent, EligibilityPolicy.normalizeStudent, htext]
  rw [EligibilityPolicy.groupOutcome, hstudent]
  rfl

theorem sameForMentors_of_eq {s t : String} (h : normalizeStr s = normalizeStr t) :
    SameForMentors s t := by
  intro P student mentor before after
  have hmentor : P.normalizeMentor { mentor with allowedGroups := before ++ .object s :: after } =
      P.normalizeMentor { mentor with allowedGroups := before ++ .object t :: after } := by
    simp only [EligibilityPolicy.normalizeMentor, List.map_append, List.map_cons, normalizeText,
      Value.text, h]
  rw [EligibilityPolicy.groupOutcome, hmentor]
  rfl

theorem normalizeStudent_group (P : EligibilityPolicy) (student : StudentLike) {v : Value}
    (hstudent : (normalizeText student.groupCode).isEmpty = false)
    (hv : (normalizeText v).isEmpty = false) :
    P.normalizeStudent { student with groupCode := v } =
      (fun n => { n with groupCode := normalizeText v }) <$> P.normalizeStudent student := by
  simp only [EligibilityPolicy.normalizeStudent, hstudent, hv, map_bind, map_pure,
    Bool.false_eq_true, if_false]

theorem normalizeMentor_groups (P : EligibilityPolicy) (mentor : MentorLike)
    (groups : List Value) : P.normalizeMentor { mentor with allowedGroups := groups } =
      (fun n => { n with allowedGroups := groups.map normalizeText }) <$>
        P.normalizeMentor mentor := by
  simp only [EligibilityPolicy.normalizeMentor]
  by_cases hnormal : P.upper (normalizeText mentor.mentorType) = "NORMAL"
  · simp only [if_pos hnormal, map_bind, map_pure]
  · by_cases hschool : P.upper (normalizeText mentor.mentorType) = "SCHOOL"
    · simp only [if_neg hnormal, if_pos hschool, map_bind, map_pure]
    · simp only [if_neg hnormal, if_neg hschool, map_bind, map_pure]

theorem normalizeStudent_noGroup (P : EligibilityPolicy) (student : StudentLike) {v : Value}
    (hv : (normalizeText v).isEmpty = true) :
    (P.normalizeStudent { student with groupCode := v }).isOk = false := by
  rw [EligibilityPolicy.normalizeStudent]
  simp only [hv]
  cases normalizeEnum .genderMatch "gender" [0, 1] student.gender <;> rfl

section
variable {s t : String}

theorem groupOutcome_sample (hs : (normalizeStr s).isEmpty = false) :
    openPolicy.groupOutcome { sampleStudent with groupCode := .object s }
      { third with allowedGroups := [.object t] } = .ok (normalizeStr s = normalizeStr t) := by
  have hsample : (normalizeText sampleStudent.groupCode).isEmpty = false := by decide
  have hstudent := normalizeStudent_group openPolicy sampleStudent (v := .object s) hsample hs
  rw [EligibilityPolicy.groupOutcome, hstudent, normalizeStudent_sample, normalizeMentor_groups,
    third_passes.normalizes]
  change Except.ok (groupAllowedRule.check _ _).passed = _
  by_cases heq : normalizeStr s = normalizeStr t <;>
    simp [groupAllowedRule, normalizeText, Value.text, heq]

theorem groupOutcome_noGroup (mentor : MentorLike) (hs : (normalizeStr s).isEmpty = true) :
    (openPolicy.groupOutcome { sampleStudent with groupCode := .object s } mentor).isOk =
      false := by
  have hstudent := normalizeStudent_noGroup openPolicy sampleStudent (v := .object s) hs
  rw [EligibilityPolicy.groupOutcome]
  cases hnorm : openPolicy.normalizeStudent { sampleStudent with groupCode := .object s } with
  | error e => rfl
  | ok normalized =>
    rw [hnorm] at hstudent
    cases hstudent

/-- A student with one of the texts tells them apart when they normalise differently. -/
theorem sameForStudents_iff : SameForStudents s t ↔ normalizeStr s = normalizeStr t := by
  refine ⟨fun h => ?_, sameForStudents_of_eq⟩
  have hsame := h openPolicy sampleStudent { third with allowedGroups := [.object t] }
  cases hs : (normalizeStr s).isEmpty with
  | false =>
    rw [groupOutcome_sample hs] at hsame
    cases ht : (normalizeStr t).isEmpty with
    | false => simpa [groupOutcome_sample ht] using hsame
    | true =>
      have hnone := groupOutcome_noGroup { third with allowedGroups := [.object t] } ht
      rw [← hsame] at hnone
      cases hnone
  | true =>
    have hnone := groupOutcome_noGroup { third with allowedGroups := [.object t] } hs
    cases ht : (normalizeStr t).isEmpty with
    | false =>
      rw [hsame, groupOutcome_sample ht] at hnone
      cases hnone
    | true => rw [String.isEmpty_iff.mp hs, String.isEmpty_iff.mp ht]

/-- So does a mentor with one of the texts, for a student with one of them. -/
theorem sameForMentors_iff : SameForMentors s t ↔ normalizeStr s = normalizeStr t := by
  refine ⟨fun h => ?_, sameForMentors_of_eq⟩
  have hsame : ∀ u, (normalizeStr u).isEmpty = false →
      (normalizeStr u = normalizeStr s ↔ normalizeStr u = normalizeStr t) := by
    intro u hu
    have := h openPolicy { sampleStudent with groupCode := .object u } third [] []
    rw [List.nil_append, List.nil_append, groupOutcome_sample hu, groupOutcome_sample hu] at this
    simpa using this
  cases hs : (normalizeStr s).isEmpty with
  | false => exact (hsame s hs).mp rfl
  | true =>
    cases ht : (normalizeStr t).isEmpty with
    | false => exact ((hsame t ht).mpr rfl).symm
    | true => rw [String.isEmpty_iff.mp hs, String.isEmpty_iff.mp ht]

end

/-- Decoration at the ends of a group text changes neither side's matching exactly when it leaves
the whitespace that is shielded from `strip` as it was; and normalising twice is normalising once
exactly for the texts that shield none. -/
theorem decoration_ignored_iff {before after : String}
    (hbefore : ∀ c ∈ before.toList, decoration c = true)
    (hafter : ∀ c ∈ after.toList, decoration c = true) (s : String) :
    (SameForStudents (before ++ s ++ after) s ↔ SameEnds (before ++ s ++ after) s) ∧
    (SameForMentors (before ++ s ++ after) s ↔ SameEnds (before ++ s ++ after) s) ∧
    (normalizeStr (normalizeStr s) = normalizeStr s ↔ shieldedStart s = [] ∧ shieldedEnd s = []) :=
  ⟨sameForStudents_iff.trans (normalizeStr_decorated hbefore hafter s),
    sameForMentors_iff.trans (normalizeStr_decorated hbefore hafter s), normalizeStr_idem s⟩

theorem decoration_ignored_sample :
    SameForStudents ("  \u200f" ++ "ریاضی" ++ "\ufeff ") "ریاضی" ∧
      ¬ SameForMentors ("\u200c " ++ "ریاضی" ++ "") "ریاضی" := by
  have hplain := @decoration_ignored_iff "  \u200f" "\ufeff " (by decide) (by decide) "ریاضی"
  have hshielding := @decoration_ignored_iff "\u200c " "" (by decide) (by decide) "ریاضی"
  refine ⟨hplain.1.mpr ⟨by decide, by decide⟩, fun h => ?_⟩
  exact absurd (hshielding.2.1.mp h).start (by decide)

/-- A space behind a zero-width non-joiner is kept, and a second normalisation removes it. -/
theorem shielded_space_kept :
    normalizeStr "\u200c abc" = " abc" ∧ normalizeStr (normalizeStr "\u200c abc") = "abc" ∧
      openPolicy.groupOutcome { sampleStudent with groupCode := .object "abc" }
        { third with allowedGroups := [.object "abc"] } = .ok true ∧
      openPolicy.groupOutcome { sampleStudent with groupCode := .object "\u200c abc" }
        { third with allowedGroups := [.object "abc"] } = .ok false ∧
      openPolicy.groupOutcome { sampleStudent with groupCode := .object "abc" }
        { third with allowedGroups := [.object "\u200c abc"] } = .ok false := by
  refine ⟨by decide, by decide, ?_, ?_, ?_⟩ <;> rw [groupOutcome_sample (by decide)] <;> decide

end Phase3
