import Mathlib
import MentorAllocation.Core.AllocationEngine

namespace Core

/-- The first mentor comes before the second: by priority, then by fewer students, then by more
seats left, then by id. -/
def Outranks (rules : AllocationRules) (student : Student) (m m' : Mentor) : Prop :=
  rules.calculatePriority student m' < rules.calculatePriority student m ∨
  rules.calculatePriority student m = rules.calculatePriority student m' ∧
    (m.currentStudents < m'.currentStudents ∨
    m.currentStudents = m'.currentStudents ∧
      (m'.remainingCapacity < m.remainingCapacity ∨
      m.remainingCapacity = m'.remainingCapacity ∧ m.id < m'.id))

/-- The mentor comes before all others who can take the student. -/
structure Best (rules : AllocationRules) (student : Student) (mentors : List Mentor)
    (m : Mentor) : Prop where
  listed : m ∈ mentors
  able : rules.canAssign student m = true
  first : ∀ m' ∈ mentors, rules.canAssign student m' = true → m' = m ∨ Outranks rules student m m'

def rank (rules : AllocationRules) (student : Student) (m : Mentor) : ℤ ×ₗ ℤ ×ₗ ℤ ×ₗ ℤ :=
  toLex (-rules.calculatePriority student m,
    toLex (m.currentStudents, toLex (-m.remainingCapacity, m.id)))

section
variable {rules : AllocationRules} {student : Student} {m m' : Mentor} {mentors : List Mentor}

theorem outranks_iff :
    Outranks rules student m m' ↔ rank rules student m < rank rules student m' := by
  simp only [Outranks, rank, Prod.Lex.toLex_lt_toLex, neg_lt_neg_iff, neg_inj]

theorem Outranks.asymm (h : Outranks rules student m m') : ¬ Outranks rules student m' m := by
  rw [outranks_iff] at h ⊢
  exact lt_asymm h

theorem rank_id (h : rank rules student m = rank rules student m') : m.id = m'.id := by
  simp only [rank, EmbeddingLike.apply_eq_iff_eq, Prod.mk.injEq] at h
  exact h.2.2.2

theorem seat_of_canAssign (h : rules.canAssign student m = true) :
    m.currentStudents < m.maxCapacity := by
  by_contra hfull
  rw [AllocationRules.canAssign] at h
  split_ifs at h
  exact hfull (not_le.mp ‹_›)

theorem calculatePriority_nonneg (hprimary : 0 ≤ rules.primaryGradeBonus)
    (hcenter : 0 ≤ rules.sameCenterBonus) : 0 ≤ rules.calculatePriority student m := by
  have hcapacity : 0 < rules.capacityWeight ∧ 0 < m.remainingCapacity →
      0 ≤ m.remainingCapacity * rules.capacityWeight :=
    fun h => mul_nonneg h.2.le h.1.le
  simp only [AllocationRules.calculatePriority]
  split_ifs with h₁ h₂ h₃ h₃ h₂ h₃ h₃
  all_goals omega

def FoundSoFar (rules : AllocationRules) (student : Student)
    (found : Option Candidate × Int) : Prop :=
  found.2 = match found.1 with
    | none => -1
    | some b => rules.calculatePriority student b.1

theorem consider_eq (hprimary : 0 ≤ rules.primaryGradeBonus) (hcenter : 0 ≤ rules.sameCenterBonus)
    {found : Option Candidate × Int} (hfound : FoundSoFar rules student found)
    (candidate : Candidate) :
    FoundSoFar rules student (consider rules student found candidate) ∧
    (consider rules student found candidate).1 =
      if rules.canAssign student candidate.1 = true then
        List.argAux (fun b c => rank rules student b.1 < rank rules student c.1) found.1 candidate
      else found.1 := by
  have hnonneg : 0 ≤ rules.calculatePriority student candidate.1 :=
    calculatePriority_nonneg hprimary hcenter
  obtain ⟨best, bestScore⟩ := found
  cases hable : rules.canAssign student candidate.1 with
  | false => simp [consider, hable, hfound]
  | true =>
    cases best with
    | none =>
      obtain rfl : bestScore = -1 := hfound
      have hscore : -1 < rules.calculatePriority student candidate.1 := by omega
      simp [consider, hable, hscore, FoundSoFar, List.argAux]
    | some b =>
      obtain rfl : bestScore = rules.calculatePriority student b.1 := hfound
      have hnone : Outranks rules student candidate.1 b.1 ↔
          rank rules student candidate.1 < rank rules student b.1 := outranks_iff
      simp only [consider, hable, Bool.not_true, Bool.false_eq_true, if_false, if_true,
        List.argAux, ← hnone, FoundSoFar, Outranks]
      -- The tests of the cascade, in the order of the code.
      split_ifs
      all_goals first
        | exact ⟨rfl, rfl⟩
        | (refine ⟨?_, rfl⟩; dsimp only; omega)
        | (exfalso; omega)

theorem foldl_consider (hprimary : 0 ≤ rules.primaryGradeBonus)
    (hcenter : 0 ≤ rules.sameCenterBonus) (candidates : List Candidate)
    {found : Option Candidate × Int} (hfound : FoundSoFar rules student found) :
    (candidates.foldl (consider rules student) found).1 =
      (candidates.filter fun c => rules.canAssign student c.1).foldl
        (List.argAux fun b c => rank rules student b.1 < rank rules student c.1) found.1 := by
  induction candidates generalizing found with
  | nil => rfl
  | cons candidate candidates ih =>
    obtain ⟨hnext, hfirst⟩ := consider_eq hprimary hcenter hfound candidate
    rw [List.foldl_cons, ih hnext, hfirst, List.filter_cons]
    split
    · rw [List.foldl_cons]
    · rfl

/-- The single pass finds a mentor of least rank. -/
theorem findBestMentor_eq (hprimary : 0 ≤ rules.primaryGradeBonus)
    (hcenter : 0 ≤ rules.sameCenterBonus) (mentors : List Mentor) :
    findBestMentor rules student mentors =
      (mentors.zipIdx.filter fun c => rules.canAssign student c.1).argmin
        fun c => rank rules student c.1 :=
  foldl_consider hprimary hcenter mentors.zipIdx rfl

theorem findBestMentor_some (hprimary : 0 ≤ rules.primaryGradeBonus)
    (hcenter : 0 ≤ rules.sameCenterBonus) (hids : (mentors.map Mentor.id).Nodup) {c : Candidate}
    (h : findBestMentor rules student mentors = some c) :
    mentors[c.2]? = some c.1 ∧ Best rules student mentors c.1 := by
  rw [findBestMentor_eq hprimary hcenter] at h
  obtain ⟨hmem, hable⟩ := List.mem_filter.mp (List.argmin_mem h)
  have hat : mentors[c.2]? = some c.1 := List.mk_mem_zipIdx_iff_getElem?.mp hmem
  have hlisted : c.1 ∈ mentors := List.mem_of_getElem? hat
  refine ⟨hat, hlisted, hable, fun m' hm' hable' => ?_⟩
  obtain ⟨k, hk⟩ := List.mem_iff_getElem?.mp hm'
  have hcandidate : (m', k) ∈ mentors.zipIdx.filter fun c => rules.canAssign student c.1 :=
    List.mem_filter.mpr ⟨List.mk_mem_zipIdx_iff_getElem?.mpr hk, hable'⟩
  have hnot : ¬ rank rules student m' < rank rules student c.1 :=
    List.not_lt_of_mem_argmin (f := fun c : Candidate => rank rules student c.1) hcandidate h
  rcases eq_or_lt_of_le (not_lt.mp hnot) with he | hlt
  · exact .inl (List.inj_on_of_nodup_map hids hm' hlisted (rank_id he).symm)
  · exact .inr (outranks_iff.mpr hlt)

theorem findBestMentor_none (hprimary : 0 ≤ rules.primaryGradeBonus)
    (hcenter : 0 ≤ rules.sameCenterBonus) :
    findBestMentor rules student mentors = none ↔
      ∀ m ∈ mentors, rules.canAssign student m = false := by
  rw [findBestMentor_eq hprimary hcenter, List.argmin_eq_none, List.filter_eq_nil_iff]
  constructor
  · intro h m hm
    obtain ⟨k, hk⟩ := List.mem_iff_getElem?.mp hm
    simpa using h (m, k) (List.mk_mem_zipIdx_iff_getElem?.mpr hk)
  · intro h c hc
    have hat : mentors[c.2]? = some c.1 := List.mk_mem_zipIdx_iff_getElem?.mp hc
    simp [h c.1 (List.mem_of_getElem? hat)]

theorem Best.unique (h : Best rules student mentors m) (h' : Best rules student mentors m') :
    m = m' := by
  rcases h.first m' h'.listed h'.able with he | hout
  · exact he.symm
  · rcases h'.first m h.listed h.able with he | hout'
    · exact he
    · exact absurd hout' hout.asymm

theorem Best.perm {mentors' : List Mentor} (h : Best rules student mentors m)
    (hperm : mentors.Perm mentors') : Best rules student mentors' m :=
  ⟨hperm.mem_iff.mp h.listed, h.able, fun m' hm' => h.first m' (hperm.mem_iff.mpr hm')⟩

/-- With distinct ids, the mentor at a position is the one with its id. -/
theorem modify_eq_map (hids : (mentors.map Mentor.id).Nodup) {k : Nat}
    (hk : mentors[k]? = some m) : mentors.modify k Mentor.takeStudent =
      mentors.map fun x => if x.id = m.id then x.takeStudent else x := by
  refine List.ext_getElem? fun j => ?_
  rw [List.getElem?_modify, List.getElem?_map]
  cases hj : mentors[j]? with
  | none => rfl
  | some x =>
    by_cases he : k = j
    · subst he
      obtain rfl := Option.some.inj (hk.symm.trans hj)
      simp
    · have hne : x.id ≠ m.id := by
        intro hid
        have hx : (mentors.map Mentor.id)[j]? = some m.id := by simp [hj, hid]
        have hm : (mentors.map Mentor.id)[k]? = some m.id := by simp [hk]
        have hlt : k < (mentors.map Mentor.id).length := by
          obtain ⟨hlt, -⟩ := List.getElem?_eq_some_iff.mp hm
          exact hlt
        exact he ((List.getElem?_inj hlt hids).mp (hm.trans hx.symm))
      simp [he, hne]

end

/-- A student given to a mentor: the assignment recorded, and the mentor's load one higher. -/
def Allocation.give (a : Allocation) (student : Student) (m : Mentor) : Allocation :=
  let assignment := ⟨student.id, m.id, a.engine.rules.calculatePriority student m⟩
  { engine := { a.engine with assignments := a.engine.assignments ++ [assignment] }
    mentors := a.mentors.map fun x => if x.id = m.id then x.takeStudent else x
    results := { a.results with
      successful := a.results.successful + 1
      assignments := a.results.assignments ++ [assignment] } }

section
variable {a a' : Allocation} {student : Student} {m : Mentor}

/-- What a turn does: the best mentor is given the student, or there is none. -/
theorem allocate_cases (student : Student) (hprimary : 0 ≤ a.engine.rules.primaryGradeBonus)
    (hcenter : 0 ≤ a.engine.rules.sameCenterBonus) (hids : (a.mentors.map Mentor.id).Nodup) :
    (∃ m, Best a.engine.rules student a.mentors m ∧ a.allocate student = a.give student m) ∨
      (∀ m ∈ a.mentors, a.engine.rules.canAssign student m = false) ∧
        a.allocate student = a.failStudent student := by
  cases hfind : findBestMentor a.engine.rules student a.mentors with
  | none =>
    refine .inr ⟨(findBestMentor_none hprimary hcenter).mp hfind, ?_⟩
    simp only [Allocation.allocate, hfind]
  | some c =>
    obtain ⟨hat, hbest⟩ := findBestMentor_some hprimary hcenter hids hfind
    refine .inl ⟨c.1, hbest, ?_⟩
    simp only [Allocation.allocate, hfind, Allocation.assignStudent, Allocation.give,
      modify_eq_map hids hat]

end

def Results.assignedTo (r : Results) (id : Int) : Nat :=
  r.assignments.countP fun assignment => assignment.mentorId == id

def Mentor.loaded (m : Mentor) (r : Results) : Mentor :=
  { m with currentStudents := m.currentStudents + r.assignedTo m.id }

/-- The books of a run after so many students. -/
structure Balanced (rules : AllocationRules) (mentors : List Mentor) (students : Nat)
    (a : Allocation) : Prop where
  rules : a.engine.rules = rules
  total : a.results.successful + a.results.failed = students
  loads : a.mentors = mentors.map fun m => m.loaded a.results
  bounded : ∀ m ∈ mentors,
    (m.loaded a.results).currentStudents ≤ max m.currentStudents m.maxCapacity

section
variable {rules : AllocationRules} {mentors : List Mentor} {students : Nat} {a : Allocation}
  {student : Student} {m : Mentor}

theorem Balanced.ids (h : Balanced rules mentors students a) :
    a.mentors.map Mentor.id = mentors.map Mentor.id := by
  rw [h.loads, List.map_map]
  rfl

theorem assignedTo_give (id : Int) : (a.give student m).results.assignedTo id =
    a.results.assignedTo id + if m.id = id then 1 else 0 := by
  simp only [Results.assignedTo, Allocation.give, List.countP_append, List.countP_singleton,
    beq_iff_eq]

theorem Balanced.fail (h : Balanced rules mentors students a) (student : Student) :
    Balanced rules mentors (students + 1) (a.failStudent student) where
  rules := h.rules
  total := by
    simp only [Allocation.failStudent]
    have := h.total
    omega
  loads := h.loads
  bounded := h.bounded

theorem Balanced.give (h : Balanced rules mentors students a) (hids : (mentors.map Mentor.id).Nodup)
    (hbest : Best rules student a.mentors m) :
    Balanced rules mentors (students + 1) (a.give student m) where
  rules := h.rules
  total := by
    simp only [Allocation.give]
    have := h.total
    omega
  loads := by
    have hgive : (a.give student m).mentors =
        a.mentors.map fun x => if x.id = m.id then x.takeStudent else x := rfl
    rw [hgive, h.loads, List.map_map]
    refine List.map_congr_left fun x _ => ?_
    simp only [Function.comp_apply, Mentor.loaded, assignedTo_give, Mentor.takeStudent]
    by_cases hid : x.id = m.id
    · simp [hid, add_assoc]
    · simp [hid, Ne.symm hid]
  bounded := by
    intro x hx
    have hbefore := h.bounded x hx
    simp only [Mentor.loaded, assignedTo_give] at hbefore ⊢
    by_cases hid : m.id = x.id
    · -- The mentor had a seat left before the turn.
      obtain ⟨y, hy, rfl⟩ := List.mem_map.mp (h.loads ▸ hbest.listed)
      obtain rfl : y = x := List.inj_on_of_nodup_map hids hy hx hid
      have hseat := seat_of_canAssign hbest.able
      simp only [Mentor.loaded, if_true] at hseat ⊢
      omega
    · simpa [hid] using hbefore

theorem Balanced.allocate (h : Balanced rules mentors students a)
    (hprimary : 0 ≤ rules.primaryGradeBonus) (hcenter : 0 ≤ rules.sameCenterBonus)
    (hids : (mentors.map Mentor.id).Nodup) (student : Student) :
    Balanced rules mentors (students + 1) (a.allocate student) := by
  obtain ⟨m, hbest, he⟩ | ⟨-, he⟩ := allocate_cases student (h.rules ▸ hprimary)
    (h.rules ▸ hcenter) (h.ids ▸ hids)
  · rw [he]
    exact h.give hids (h.rules ▸ hbest)
  · rw [he]
    exact h.fail student

end

/-- Two runs side by side whose mentors stand in different orders. -/
structure Shuffled (a a' : Allocation) : Prop where
  engine : a'.engine = a.engine
  results : a'.results = a.results
  mentors : a.mentors.Perm a'.mentors

section
variable {a a' : Allocation} {mentors mentors' : List Mentor} {student : Student}

theorem getFailureReason_perm (h : mentors.Perm mentors') :
    getFailureReason student mentors' = getFailureReason student mentors := by
  have hgender := h.filter fun m => m.gender == student.gender
  have hgrade := hgender.filter fun m => m.supportedGrades.contains student.gradeLevel
  have hcapacity := hgrade.filter fun m => decide (m.currentStudents < m.maxCapacity)
  simp only [getFailureReason, h.isEmpty_eq, hgender.isEmpty_eq, hgrade.isEmpty_eq,
    hcapacity.isEmpty_eq]

theorem Shuffled.allocate (h : Shuffled a a') (hprimary : 0 ≤ a.engine.rules.primaryGradeBonus)
    (hcenter : 0 ≤ a.engine.rules.sameCenterBonus) (hids : (a.mentors.map Mentor.id).Nodup)
    (student : Student) : Shuffled (a.allocate student) (a'.allocate student) := by
  have hids' : (a'.mentors.map Mentor.id).Nodup := (h.mentors.map Mentor.id).nodup_iff.mp hids
  obtain ⟨m, hbest, he⟩ | ⟨hnone, he⟩ := allocate_cases student hprimary hcenter hids
  · obtain ⟨m', hbest', he'⟩ | ⟨hnone', -⟩ := allocate_cases student
      (h.engine ▸ hprimary) (h.engine ▸ hcenter) hids'
    · rw [h.engine] at hbest'
      obtain rfl := (hbest.perm h.mentors).unique hbest'
      rw [he, he']
      refine ⟨?_, ?_, h.mentors.map _⟩
      · simp only [Allocation.give, h.engine]
      · simp only [Allocation.give, h.engine, h.results]
    · rw [h.engine] at hnone'
      have hable := hnone' m (h.mentors.mem_iff.mp hbest.listed)
      rw [hbest.able] at hable
      cases hable
  · obtain ⟨m', hbest', -⟩ | ⟨-, he'⟩ := allocate_cases student
      (h.engine ▸ hprimary) (h.engine ▸ hcenter) hids'
    · rw [h.engine] at hbest'
      have hable := hnone m' (h.mentors.mem_iff.mpr hbest'.listed)
      rw [hbest'.able] at hable
      cases hable
    · rw [he, he']
      refine ⟨?_, ?_, h.mentors⟩
      · simp only [Allocation.failStudent, h.engine, getFailureReason_perm h.mentors]
      · simp only [Allocation.failStudent, h.results, getFailureReason_perm h.mentors]

end

structure Turn (rules : AllocationRules) (student : Student) (s t : Allocation) : Prop where
  able : (∃ m ∈ s.mentors, rules.canAssign student m = true) →
    ∃ m, Best rules student s.mentors m
  given : ∀ m, Best rules student s.mentors m → t.results = { s.results with
    successful := s.results.successful + 1
    assignments := s.results.assignments ++
      [⟨student.id, m.id, rules.calculatePriority student m⟩] }
  failed : (∀ m ∈ s.mentors, rules.canAssign student m = false) → t.results = { s.results with
    failed := s.results.failed + 1
    errors := s.results.errors ++ [⟨student.id, getFailureReason student s.mentors⟩] }

theorem turn_allocate {a : Allocation} (student : Student)
    (hprimary : 0 ≤ a.engine.rules.primaryGradeBonus)
    (hcenter : 0 ≤ a.engine.rules.sameCenterBonus) (hids : (a.mentors.map Mentor.id).Nodup) :
    Turn a.engine.rules student a (a.allocate student) := by
  obtain ⟨m, hbest, he⟩ | ⟨hnone, he⟩ := allocate_cases student hprimary hcenter hids
  · refine ⟨fun _ => ⟨m, hbest⟩, fun m' hbest' => ?_, fun hnone => ?_⟩
    · obtain rfl := hbest.unique hbest'
      rw [he]
      rfl
    · have hable := hnone m hbest.listed
      rw [hbest.able] at hable
      cases hable
  · refine ⟨fun hable => ?_, fun m hbest => ?_, fun _ => by rw [he]; rfl⟩
    · obtain ⟨m, hm, hable⟩ := hable
      rw [hnone m hm] at hable
      cases hable
    · have hable := hnone m hbest.listed
      rw [hbest.able] at hable
      cases hable

/-- The records of a run go on from those of its first turns. -/
structure Results.GoesOn (r r' : Results) : Prop where
  assignments : r.assignments <+: r'.assignments
  errors : r.errors <+: r'.errors

theorem goesOn_foldl (students : List Student) (a : Allocation) :
    a.results.GoesOn (students.foldl Allocation.allocate a).results := by
  induction students generalizing a with
  | nil => exact ⟨List.prefix_refl _, List.prefix_refl _⟩
  | cons student students ih =>
    have hstep : a.results.GoesOn (a.allocate student).results := by
      rw [Allocation.allocate]
      split
      · exact ⟨List.prefix_append _ _, List.prefix_refl _⟩
      · exact ⟨List.prefix_refl _, List.prefix_append _ _⟩
    have hrest := ih (a.allocate student)
    exact ⟨hstep.assignments.trans hrest.assignments, hstep.errors.trans hrest.errors⟩

/-- A greedy run: its books balance, each student gets the best mentor of its turn if any can
take it, and the order of the mentors does not matter. -/
structure GreedyRun (E : AllocationEngine) (students : List Student) (mentors : List Mentor)
    (a : Allocation) : Prop where
  total : a.results.successful + a.results.failed = students.length
  loads : a.mentors = mentors.map fun m => m.loaded a.results
  bounded : ∀ m ∈ mentors,
    (m.loaded a.results).currentStudents ≤ max m.currentStudents m.maxCapacity
  turns : ∀ before student after, students = before ++ student :: after →
    Turn E.rules student (E.allocateStudents before mentors)
      (E.allocateStudents (before ++ [student]) mentors)
  records : ∀ before after, students = before ++ after →
    (E.allocateStudents before mentors).results.GoesOn a.results
  order : ∀ mentors', mentors.Perm mentors' →
    (E.allocateStudents students mentors').results = a.results ∧
    a.mentors.Perm (E.allocateStudents students mentors').mentors

section
variable {E : AllocationEngine} {mentors mentors' : List Mentor}
  (hprimary : 0 ≤ E.rules.primaryGradeBonus) (hcenter : 0 ≤ E.rules.sameCenterBonus)
  (hids : (mentors.map Mentor.id).Nodup)
include hprimary hcenter hids

theorem allocateStudents_balanced (students : List Student) :
    Balanced E.rules mentors students.length (E.allocateStudents students mentors) := by
  induction students using List.reverseRecOn with
  | nil => exact ⟨rfl, rfl, by simp [AllocationEngine.allocateStudents, Mentor.loaded,
      Results.assignedTo], by simp [AllocationEngine.allocateStudents, Mentor.loaded,
      Results.assignedTo]⟩
  | append_singleton students student ih =>
    rw [AllocationEngine.allocateStudents, List.foldl_append, List.length_append]
    exact ih.allocate hprimary hcenter hids student

theorem allocateStudents_turn (before : List Student) (student : Student) :
    Turn E.rules student (E.allocateStudents before mentors)
      (E.allocateStudents (before ++ [student]) mentors) := by
  have hbalanced := allocateStudents_balanced hprimary hcenter hids before
  have hturn := turn_allocate student (hbalanced.rules ▸ hprimary)
    (hbalanced.rules ▸ hcenter) (hbalanced.ids ▸ hids)
  rw [hbalanced.rules] at hturn
  rwa [AllocationEngine.allocateStudents, AllocationEngine.allocateStudents, List.foldl_append]

theorem allocateStudents_shuffled (students : List Student) (hperm : mentors.Perm mentors') :
    Shuffled (E.allocateStudents students mentors) (E.allocateStudents students mentors') := by
  induction students using List.reverseRecOn with
  | nil => exact ⟨rfl, rfl, hperm⟩
  | append_singleton students student ih =>
    have hbalanced := allocateStudents_balanced hprimary hcenter hids students
    rw [AllocationEngine.allocateStudents, AllocationEngine.allocateStudents, List.foldl_append,
      List.foldl_append]
    exact ih.allocate (hbalanced.rules ▸ hprimary) (hbalanced.rules ▸ hcenter)
      (hbalanced.ids ▸ hids) student

end

/-- Whatever the rules with bonuses from zero on, the students and the mentors with distinct
ids, the engine's run is greedy. -/
theorem greedy_run (E : AllocationEngine) (students : List Student) (mentors : List Mentor)
    (hprimary : 0 ≤ E.rules.primaryGradeBonus) (hcenter : 0 ≤ E.rules.sameCenterBonus)
    (hids : (mentors.map Mentor.id).Nodup) :
    GreedyRun E students mentors (E.allocateStudents students mentors) := by
  have hbalanced := allocateStudents_balanced hprimary hcenter hids students
  refine ⟨hbalanced.total, hbalanced.loads, hbalanced.bounded,
    fun before student _ _ => allocateStudents_turn hprimary hcenter hids before student,
    fun before after hsplit => ?_, fun mentors' hperm => ?_⟩
  · rw [hsplit, AllocationEngine.allocateStudents, AllocationEngine.allocateStudents,
      List.foldl_append]
    exact goesOn_foldl after _
  · have hshuffled := allocateStudents_shuffled hprimary hcenter hids students hperm
    exact ⟨hshuffled.results, hshuffled.mentors⟩

def sampleMentors : List Mentor :=
  [⟨2, 0, [10, 11], 2, 0, 1, none⟩, ⟨1, 0, [10], 2, 0, 1, none⟩, ⟨3, 1, [10], 1, 0, 2, some 10⟩]

def sampleStudents : List Student :=
  [⟨100, 0, 10, 1⟩, ⟨101, 0, 10, 1⟩, ⟨102, 0, 11, 1⟩, ⟨103, 1, 10, 1⟩, ⟨104, 1, 10, 1⟩]

/-- A tie that the lower id wins, a load that turns the next choice, and a student left over. -/
theorem greedy_run_sample :
    ((AllocationEngine.allocateStudents ⟨{}, [], []⟩ sampleStudents sampleMentors).results =
      ⟨4, 1, [⟨100, 1, 70⟩, ⟨101, 2, 70⟩, ⟨102, 2, 60⟩, ⟨103, 3, 110⟩],
        [⟨104, "no capacity available"⟩]⟩) ∧
    GreedyRun ⟨{}, [], []⟩ sampleStudents sampleMentors
      (AllocationEngine.allocateStudents ⟨{}, [], []⟩ sampleStudents sampleMentors) :=
  ⟨by decide +kernel, greedy_run ⟨{}, [], []⟩ sampleStudents sampleMentors (by decide) (by decide)
    (by decide)⟩

end Core
