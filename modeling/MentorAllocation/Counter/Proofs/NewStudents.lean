import MentorAllocation.Counter.Proofs.Chunking

namespace Counter
open Text Data
open SqlAlchemyCounterRepository (fetchStudentCounter)

/-- The rows that get their students a counter, each student's first one. -/
def newRows (s : CounterStore) (rows : List BackfillRow) : List BackfillRow :=
  firstsBy BackfillRow.nationalId (freeRows s rows)

/-- The sequences that the rows take a number from, one after the other. -/
def newKeys (s : CounterStore) (rows : List BackfillRow) : List (String × String) :=
  (newRows s rows).map BackfillRow.seqKey

/-- The counter of a number of a sequence; years in different digits can write the same one. -/
def keyCounter (key : String × String) (n : Int) : String := counterText key.1 key.2 n

/-- Each student in turn finds, among the next numbers of the sequence, one that no student has. -/
def Served (R : SqlAlchemyCounterRepository) (s : CounterStore) (rows : List BackfillRow) : Prop :=
  ∃ numbers, Numbered counterMaxSeq keyCounter R.numbersTried s.taken s.lastSeq (newKeys s rows)
    numbers

/-- The students before find such a number, and one finds all the next numbers taken. -/
def MeetsConflict (R : SqlAlchemyCounterRepository) (s : CounterStore) (rows : List BackfillRow) :
    Prop :=
  Blocked counterMaxSeq keyCounter R.numbersTried s.taken s.lastSeq (newKeys s rows)

section
variable {R : SqlAlchemyCounterRepository} {nfkc : String → String} {s t : CounterStore}
  {row : BackfillRow} {rows : List BackfillRow} {outcome : Except AssignError Unit} {n : Int}

theorem freeRows_cons_known (h : s.hasCounter row.nationalId = true) :
    freeRows s (row :: rows) = freeRows s rows := by
  rw [freeRows, List.filter_cons_of_neg (by simp [h]), freeRows]

theorem newRows_cons_free (h : s.hasCounter row.nationalId = false) : newRows s (row :: rows) =
    row :: (newRows s rows).filter fun r => r.nationalId ≠ row.nationalId := by
  rw [newRows, freeRows, List.filter_cons_of_pos (by simp [h]), firstsBy]
  rfl

theorem hasCounter_bind {yearCode code counter nid : String} {nationalId : String}
    (hself : fetchStudentCounter nfkc (s.bind nationalId yearCode code n) nationalId =
      .ok (some counter)) :
    (s.bind nationalId yearCode code n).hasCounter nid =
      (nid == nationalId || s.hasCounter nid) := by
  by_cases he : nid = nationalId
  · subst he
    have hbound : (s.bind nid yearCode code n).hasCounter nid = true := by
      by_contra hnone
      rw [Bool.not_eq_true, hasCounter_eq_false, hself] at hnone
      cases hnone
    rw [hbound, beq_self_eq_true, Bool.true_or]
  · have hother : fetchStudentCounter nfkc (s.bind nationalId yearCode code n) nid =
        fetchStudentCounter nfkc s nid := fetchStudentCounter_bind_other he
    have hiff : (s.bind nationalId yearCode code n).hasCounter nid = false ↔
        fetchStudentCounter nfkc (s.bind nationalId yearCode code n) nid = .ok none :=
      hasCounter_eq_false
    rw [hother, ← hasCounter_eq_false] at hiff
    rw [beq_eq_false_iff_ne.mpr he, Bool.false_or]
    cases h : s.hasCounter nid with
    | false => exact hiff.mpr h
    | true =>
      by_contra hnone
      rw [Bool.not_eq_true] at hnone
      rw [hiff.mp hnone] at h
      cases h

/-- A student who got a counter needs no further number. -/
theorem newRows_bind {counter : String} (hself : fetchStudentCounter nfkc
      (s.bind row.nationalId row.yearCode row.genderCode n) row.nationalId = .ok (some counter)) :
    newRows (s.bind row.nationalId row.yearCode row.genderCode n) rows =
      (newRows s rows).filter fun r => r.nationalId ≠ row.nationalId := by
  have hfree : freeRows (s.bind row.nationalId row.yearCode row.genderCode n) rows =
      (freeRows s rows).filter fun r => decide (r.nationalId ≠ row.nationalId) := by
    rw [freeRows, freeRows, List.filter_filter]
    refine List.filter_congr fun r _ => ?_
    rw [hasCounter_bind hself, Bool.not_or]
    by_cases he : r.nationalId = row.nationalId
    · simp [he]
    · simp [he]
  rw [newRows, hfree, newRows]
  exact firstsBy_filter (fun nid => decide (nid ≠ row.nationalId)) _

theorem newKeys_known (h : s.hasCounter row.nationalId = true) :
    newKeys s (row :: rows) = newKeys s rows := by
  rw [newKeys, newRows, freeRows_cons_known h, newKeys, newRows]

theorem newKeys_free (h : s.hasCounter row.nationalId = false) {counter : String}
    (hself : fetchStudentCounter nfkc (s.bind row.nationalId row.yearCode row.genderCode n)
      row.nationalId = .ok (some counter)) :
    newKeys s (row :: rows) =
      row.seqKey :: newKeys (s.bind row.nationalId row.yearCode row.genderCode n) rows := by
  rw [newKeys, newRows_cons_free h, newKeys, newRows_bind hself, List.map_cons]

theorem newKeys_head (h : s.hasCounter row.nationalId = false) :
    ∃ keys, newKeys s (row :: rows) = row.seqKey :: keys :=
  ⟨_, by rw [newKeys, newRows_cons_free h, List.map_cons]⟩

theorem lastSeq_seqKey : (s.bind row.nationalId row.yearCode row.genderCode n).lastSeq =
    Function.update s.lastSeq row.seqKey n := by
  funext key
  rw [CounterStore.lastSeq_bind, Function.update_apply]
  rfl

/-- The counter that a student got is taken from then on, and no other. -/
theorem taken_seqKey (hk : s.Keyed) (hrow : row.Valid nfkc s)
    (hfree : fetchStudentCounter nfkc s row.nationalId = .ok none) :
    (s.bind row.nationalId row.yearCode row.genderCode n).taken =
      takenWith keyCounter s.taken row.seqKey n := by
  funext key m
  rw [takenWith, CounterStore.taken, CounterStore.taken, Bool.or_assoc]
  congr 1
  rw [Bool.eq_iff_iff, Bool.or_eq_true, List.any_eq_true, List.any_eq_true, beq_iff_eq]
  have hstudents : (s.bind row.nationalId row.yearCode row.genderCode n).students =
      s.students.map fun student => if student.nationalId == row.nationalId then
        { student with counter := some (keyCounter row.seqKey n) } else student := by
    rw [CounterStore.bind, CounterStore.setCounter, CounterStore.students_withLastSeq]
    rfl
  rw [hstudents]
  constructor
  · rintro ⟨student, hmem, hcounter⟩
    obtain ⟨before, hbefore, rfl⟩ := List.mem_map.mp hmem
    rw [beq_iff_eq] at hcounter
    split at hcounter
    · exact .inr (Option.some.inj hcounter).symm
    · exact .inl ⟨before, hbefore, beq_iff_eq.mpr hcounter⟩
  · rintro (⟨student, hmem, hcounter⟩ | hsame)
    · rw [beq_iff_eq] at hcounter
      refine ⟨student, List.mem_map.mpr ⟨student, hmem, if_neg ?_⟩, beq_iff_eq.mpr hcounter⟩
      rw [beq_iff_eq]
      intro he
      -- a student without a counter has none of a sequence
      have hstored := fetchStudentCounter_none.mp hfree
      rw [← he, hk.lockStudent hmem, Option.bind_some, hcounter,
        CounterStore.truthy_counterText] at hstored
      cases hstored
    · obtain ⟨student, hstudent⟩ := Option.isSome_iff_exists.mp hrow.student
      refine ⟨{ student with counter := some (keyCounter row.seqKey n) },
        List.mem_map.mpr ⟨student, List.mem_of_find?_eq_some hstudent, if_pos ?_⟩,
        beq_iff_eq.mpr (congrArg some hsame.symm)⟩
      rw [CounterStore.lockStudent_key hstudent, beq_self_eq_true]

/-- How the calls for rows end, by the numbers that their students find. -/
theorem Assigns.outcome_cases (h : Assigns R nfkc rows s outcome t) (hk : s.Keyed) :
    outcome = .ok () ∧ Served R s rows ∧ ¬ MeetsConflict R s rows ∨
    (∃ message, outcome = .error (.service (dbConflict message))) ∧ ¬ Served R s rows ∧
      MeetsConflict R s rows ∨
    outcome = .error (.service sequenceExhausted) ∧ ¬ Served R s rows ∧
      ¬ MeetsConflict R s rows := by
  simp only [Served, MeetsConflict, ← drawAll_eq_none, ← drawAll_eq_refused]
  induction h with
  | done s => exact .inl ⟨rfl, rfl, by simp [newKeys, newRows, freeRows, firstsBy, drawAll]⟩
  | @known row rows s t outcome counter hfetch hcall hrest ih =>
    have hbound : s.hasCounter row.nationalId = true := by
      by_contra hnone
      rw [Bool.not_eq_true, hasCounter_eq_false, hfetch] at hnone
      cases hnone
    rw [newKeys_known hbound]
    exact ih hk
  | @failed row rows s t error hfetch hcall hsame hcause =>
    obtain ⟨keys, hkeys⟩ : ∃ keys, newKeys s (row :: rows) = row.seqKey :: keys :=
      newKeys_head (hasCounter_eq_false.mpr hfetch)
    rw [hkeys, drawAll]
    rcases hcause with ⟨hdraw, message, rfl⟩ | ⟨hdraw, rfl⟩
    · rw [CounterStore.drawn] at hdraw
      simp [hdraw]
    · rw [CounterStore.drawn] at hdraw
      simp [hdraw]
  | @assigned row rows s t outcome n counter hvalid hfetch hdraw hcall hself hrest ih =>
    have hrest := ih hk.bind
    rw [taken_seqKey hk hvalid hfetch, lastSeq_seqKey] at hrest
    rw [CounterStore.drawn] at hdraw
    rw [newKeys_free (hasCounter_eq_false.mpr hfetch) hself, drawAll, hdraw]
    exact hrest

end

end Counter
