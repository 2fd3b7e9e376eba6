import Mathlib.Algebra.Order.BigOperators.Group.Finset
import Mathlib.Data.Fintype.Card
import MentorAllocation.Allocation.Proofs.Path

namespace Allocation
open Text Concurrency

/-- The collaborators of an allocator that numbers its records with
`SimpleAllocationSequenceProvider`. -/
def simpleEnvironment {ω : Type}
    (policyEngine : ω → StudentModel → MentorModel → AllocationRequest → PolicyVerdict)
    (clock : ω → DateTime) (legacyWidth : Nat) : Environment ω where
  policyEngine
  sequenceProvider := fun world allocations _ _ => simpleNext legacyWidth (clock world) allocations
  clock

theorem le_maxId {allocations : List AllocationRecord} {r : AllocationRecord}
    (h : r ∈ allocations) : r.allocationId ≤ maxId allocations := by
  have hm : r.allocationId ∈ allocations.map AllocationRecord.allocationId :=
    List.mem_map_of_mem h
  unfold maxId
  cases hmax : (allocations.map AllocationRecord.allocationId).max? with
  | none =>
    rw [List.max?_eq_none_iff.mp hmax] at hm
    cases hm
  | some n => exact (List.max?_eq_some_iff.mp hmax).2 _ hm

/-- The record numbered next is the highest once it is there. -/
theorem maxId_append {allocations : List AllocationRecord} {r : AllocationRecord}
    (h : r.allocationId = maxId allocations + 1) :
    maxId (allocations ++ [r]) = maxId allocations + 1 := by
  have hmax : ((allocations ++ [r]).map AllocationRecord.allocationId).max? =
      some r.allocationId := by
    apply List.max?_eq_some_iff.mpr
    refine ⟨by simp, ?_⟩
    intro n hn
    obtain ⟨a, ha, rfl⟩ := List.mem_map.mp hn
    rcases List.mem_append.mp ha with ha | ha
    · have := le_maxId ha
      omega
    · rw [List.mem_singleton.mp ha]
  unfold maxId at h ⊢
  rw [hmax]
  simpa using h

theorem yearCodeOf_length (now : DateTime) : (yearCodeOf now).toList.length = 2 :=
  zeroPad_length (by omega) (Nat.mod_lt _ (by omega))

/-- Codes of different numbers differ, whatever their years. -/
theorem issuedCode_injective {now now' : DateTime} {width : Nat} {m n : Int}
    (h : yearCodeOf now ++ zeroPad width m = yearCodeOf now' ++ zeroPad width n) : m = n := by
  have hl := congrArg String.toList h
  simp only [String.toList_append] at hl
  have htail := (List.append_inj hl (by rw [yearCodeOf_length, yearCodeOf_length])).2
  exact zeroPad_injective width (String.toList_inj.mp htail)

section
variable {ι ω : Type} [DecidableEq ι] [Fintype ι] (P : Platform)
  (policyEngine : ω → StudentModel → MentorModel → AllocationRequest → PolicyVerdict)
  (clock : ω → DateTime) (legacyWidth : Nat) (calls : ι → AllocationRequest × Bool)
  (student : ι → StudentModel) (mentor : ι → MentorModel) (db : Database)

def Issued (r : AllocationRecord) : Prop :=
  ∃ now, r.allocationCode = yearCodeOf now ++ zeroPad legacyWidth r.allocationId

/-- A record as call `i` writes it, whatever its number. -/
structure Written (i : ι) (r : AllocationRecord) : Prop where
  key : r.idempotencyKey = (calls i).1.idempotencyKey P
  student : r.studentId = (calls i).1.studentId
  mentor : r.mentorId = (calls i).1.mentorId
  status : r.status = .confirmed
  issued : ∃ world, r.yearCode = yearCodeOf (clock world) ∧
    r.allocationCode = yearCodeOf (clock world) ++ zeroPad legacyWidth r.allocationId

/-- Calls that have nothing to do with each other or with what is committed: real
requests that the policy approves, for different existing students and mentors, under
keys, event ids and years still free. The committed codes are the provider's own, and
no event is too large for the outbox. -/
structure Unrelated : Prop where
  real : ∀ i, (calls i).2 = false
  students : ∀ i, db.getStudent (calls i).1.studentId = some (student i)
  mentors : ∀ i, db.getMentor (calls i).1.mentorId = some (mentor i)
  approved : ∀ i world, (policyEngine world (student i) (mentor i) (calls i).1).approved = true
  studentsApart : ∀ i j, i ≠ j → (calls i).1.studentId ≠ (calls j).1.studentId
  mentorsApart : ∀ i j, i ≠ j → (calls i).1.mentorId ≠ (calls j).1.mentorId
  keysApart : ∀ i j, i ≠ j → (calls i).1.idempotencyKey P ≠ (calls j).1.idempotencyKey P
  eventsApart : ∀ i j, i ≠ j → deriveEventId P ((calls i).1.idempotencyKey P) ≠
    deriveEventId P ((calls j).1.idempotencyKey P)
  keyFree : ∀ i, ∀ r ∈ db.allocations, r.idempotencyKey ≠ (calls i).1.idempotencyKey P
  eventFree : ∀ i, ∀ m ∈ db.outbox,
    m.eventId ≠ deriveEventId P ((calls i).1.idempotencyKey P)
  yearFree : ∀ i world, ∀ r ∈ db.allocations, r.studentId = (calls i).1.studentId →
    r.yearCode ≠ yearCodeOf (clock world)
  issued : ∀ r ∈ db.allocations, Issued legacyWidth r
  fits : ∀ i r world, Written P clock legacyWidth calls i r →
    r.allocationId ≤ maxId db.allocations + Fintype.card ι →
    maxId db.allocations < r.allocationId →
    ∃ message, (allocationEvent P r (clock world)).toModel = .ok message

/-- A call has read its number and not yet committed it. -/
def holdsNumber (c : System ι) (i : ι) : Bool :=
  match (c.threads i).asked? with
  | some .now | some (.flush _) | some .commit => true
  | _ => false

/-- No number is read while another call holds one. -/
def NumbersApart (c : System ι) (l : ι × Choice ω) : Prop :=
  ∀ student mentor, c.Asks l.1 (.nextIdentifiers student mentor) →
    ∀ j, j ≠ l.1 → holdsNumber c j = false

def NoFailure (_ : System ι) (l : ι × Choice ω) : Prop := l.2.fault = .none

def Phase.weight (phase : Phase) : Nat := if phase.committed.isSome then 1 else 0

/-- The event the call is about to write is under its own event id. -/
def Phase.Announced (eventId : String) : Phase → Prop
  | .flushing row | .committing row => row.2.eventId = eventId
  | _ => True

/-- The calls in their phases, and what the store holds in consequence. -/
structure Orderly (phase : ι → Phase) (c : System ι) : Prop where
  left : ∀ i, At P (calls i).1 ((calls i).1.idempotencyKey P) (student i) (mentor i) (phase i)
    (c.threads i)
  students : c.store.db.students = db.students
  mentors : c.store.db.mentors = db.mentors
  written : ∀ i r, (phase i).committed = some r →
    Written P clock legacyWidth calls i r ∧ r ∈ c.store.db.allocations
  numbers : ∀ i j a b, i ≠ j → (phase i).committed = some a → (phase j).committed = some b →
    a.allocationId ≠ b.allocationId
  allocations : ∀ r ∈ c.store.db.allocations,
    r ∈ db.allocations ∨ ∃ i, (phase i).committed = some r
  outbox : ∀ m ∈ c.store.db.outbox, m ∈ db.outbox ∨ ∃ i, (phase i).committed.isSome ∧
    m.eventId = deriveEventId P ((calls i).1.idempotencyKey P)
  drawn : ∀ i r, (phase i).drawn = some r → Written P clock legacyWidth calls i r ∧
    r.allocationId = maxId c.store.db.allocations + 1
  alone : ∀ i j, (phase i).drawn.isSome → (phase j).drawn.isSome → i = j
  announced : ∀ i, (phase i).Announced (deriveEventId P ((calls i).1.idempotencyKey P))
  flushed : ∀ i, (c.store.sessions i).pending = (phase i).flushed
  mentorLock : ∀ i id, (c.store.sessions i).mentorLock = some id → id = (calls i).1.mentorId
  studentLock : ∀ i id, (c.store.sessions i).studentLock = some id →
    id = (calls i).1.studentId
  highest : maxId c.store.db.allocations =
    maxId db.allocations + (∑ i, (phase i).weight : Nat)

end

section
variable {ι ω : Type} [DecidableEq ι] [Fintype ι] {P : Platform}
  {policyEngine : ω → StudentModel → MentorModel → AllocationRequest → PolicyVerdict}
  {clock : ω → DateTime} {legacyWidth : Nat} {calls : ι → AllocationRequest × Bool}
  {student : ι → StudentModel} {mentor : ι → MentorModel} {db : Database}
  {phase : ι → Phase} {c : System ι} {i j : ι}

omit [DecidableEq ι] [Fintype ι] in
theorem Written.toIssued {r : AllocationRecord} (h : Written P clock legacyWidth calls i r) :
    Issued legacyWidth r := by
  obtain ⟨world, _, hcode⟩ := h.issued
  exact ⟨clock world, hcode⟩

theorem sum_update (f : Phase → Nat) (phase : ι → Phase) (i : ι) (next : Phase) :
    (∑ j, f (Function.update phase i next j)) + f (phase i) = (∑ j, f (phase j)) + f next := by
  have hrest : ∑ j ∈ Finset.univ.erase i, f (Function.update phase i next j) =
      ∑ j ∈ Finset.univ.erase i, f (phase j) := by
    apply Finset.sum_congr rfl
    intro j hj
    rw [Function.update_of_ne (Finset.ne_of_mem_erase hj)]
  rw [← Finset.sum_erase_add _ _ (Finset.mem_univ i), hrest,
    ← Finset.sum_erase_add _ (fun j => f (phase j)) (Finset.mem_univ i), Function.update_self]
  omega

/-- A step of `i` that commits nothing. -/
theorem Orderly.advance (h : Orderly P clock legacyWidth calls student mentor db phase c)
    (next : Phase) {p : Program Statement Answer (Except AllocateError AllocationResult)}
    {s : Store ι}
    (left : At P (calls i).1 ((calls i).1.idempotencyKey P) (student i) (mentor i) next p)
    (sameDb : s.db = c.store.db) (others : ∀ j ≠ i, s.sessions j = c.store.sessions j)
    (flushed : (s.sessions i).pending = next.flushed)
    (mentorLock : ∀ id, (s.sessions i).mentorLock = some id → id = (calls i).1.mentorId)
    (studentLock : ∀ id, (s.sessions i).studentLock = some id → id = (calls i).1.studentId)
    (committed : next.committed = (phase i).committed)
    (drawn : ∀ r, next.drawn = some r → Written P clock legacyWidth calls i r ∧
      r.allocationId = maxId c.store.db.allocations + 1 ∧ ∀ j ≠ i, (phase j).drawn = none)
    (announced : next.Announced (deriveEventId P ((calls i).1.idempotencyKey P))) :
    Orderly P clock legacyWidth calls student mentor db (Function.update phase i next)
      ⟨s, Function.update c.threads i p⟩ := by
  have hcommitted : ∀ j, (Function.update phase i next j).committed = (phase j).committed := by
    intro j
    by_cases hj : j = i
    · subst hj
      simpa using committed
    · rw [Function.update_of_ne hj]
  refine ⟨?_, ?_, ?_, ?_, ?_, ?_, ?_, ?_, ?_, ?_, ?_, ?_, ?_, ?_⟩
  · intro j
    by_cases hj : j = i
    · subst hj
      simpa using left
    · simpa [hj] using h.left j
  · exact sameDb ▸ h.students
  · exact sameDb ▸ h.mentors
  · intro j r hr
    exact sameDb ▸ h.written j r (hcommitted j ▸ hr)
  · intro j k a b hjk ha hb
    exact h.numbers j k a b hjk (hcommitted j ▸ ha) (hcommitted k ▸ hb)
  · intro r hr
    rcases h.allocations r (sameDb ▸ hr) with hbase | ⟨j, hj⟩
    · exact .inl hbase
    · exact .inr ⟨j, (hcommitted j).trans hj⟩
  · intro m hm
    rcases h.outbox m (sameDb ▸ hm) with hbase | ⟨j, hj, he⟩
    · exact .inl hbase
    · exact .inr ⟨j, by rwa [hcommitted j], he⟩
  · intro j r hr
    by_cases hj : j = i
    · subst hj
      rw [Function.update_self] at hr
      obtain ⟨hw, hid, _⟩ := drawn r hr
      exact ⟨hw, by rw [sameDb]; exact hid⟩
    · rw [Function.update_of_ne hj] at hr
      exact sameDb ▸ h.drawn j r hr
  · intro j k hj hk
    by_cases hji : j = i
    · by_cases hki : k = i
      · exact hji.trans hki.symm
      · subst hji
        rw [Function.update_self] at hj
        rw [Function.update_of_ne hki] at hk
        obtain ⟨r, hr⟩ := Option.isSome_iff_exists.mp hj
        simp [(drawn r hr).2.2 k hki] at hk
    · by_cases hki : k = i
      · subst hki
        rw [Function.update_self] at hk
        rw [Function.update_of_ne hji] at hj
        obtain ⟨r, hr⟩ := Option.isSome_iff_exists.mp hk
        simp [(drawn r hr).2.2 j hji] at hj
      · rw [Function.update_of_ne hji] at hj
        rw [Function.update_of_ne hki] at hk
        exact h.alone j k hj hk
  · intro j
    by_cases hj : j = i
    · subst hj
      simpa using announced
    · rw [Function.update_of_ne hj]
      exact h.announced j
  · intro j
    by_cases hj : j = i
    · subst hj
      simpa using flushed
    · rw [Function.update_of_ne hj, others j hj]
      exact h.flushed j
  · intro j id hid
    by_cases hj : j = i
    · subst hj
      exact mentorLock id hid
    · exact h.mentorLock j id (others j hj ▸ hid)
  · intro j id hid
    by_cases hj : j = i
    · subst hj
      exact studentLock id hid
    · exact h.studentLock j id (others j hj ▸ hid)
  · have hsum := sum_update Phase.weight phase i next
    have hweight : next.weight = (phase i).weight := by simp only [Phase.weight, committed]
    have hsame : ∑ j, (Function.update phase i next j).weight = ∑ j, (phase j).weight := by
      omega
    simpa [sameDb, hsame] using h.highest

/-- The commit of the one call that holds a number. -/
theorem Orderly.commit (h : Orderly P clock legacyWidth calls student mentor db phase c)
    {row : Row} {p : Program Statement Answer (Except AllocateError AllocationResult)}
    (hi : phase i = .committing row) (left : Closing P row.1 p) :
    Orderly P clock legacyWidth calls student mentor db
      (Function.update phase i (.closing row.1))
      ⟨c.store.apply i, Function.update c.threads i p⟩ := by
  have hpending : (c.store.sessions i).pending = some row := by
    rw [h.flushed i, hi]
    rfl
  have hdb : (c.store.apply i).db = c.store.db.insert row := Store.apply_db_some hpending
  obtain ⟨hwritten, hid⟩ := h.drawn i row.1 (by rw [hi]; rfl)
  have hmax : maxId (c.store.db.insert row).allocations = maxId c.store.db.allocations + 1 :=
    maxId_append hid
  have hothers : ∀ j ≠ i, (phase j).drawn = none := by
    intro j hj
    by_contra hsome
    exact hj (h.alone j i (Option.isSome_iff_ne_none.mpr hsome) (by rw [hi]; rfl))
  refine ⟨?_, ?_, ?_, ?_, ?_, ?_, ?_, ?_, ?_, ?_, ?_, ?_, ?_, ?_⟩
  · intro j
    by_cases hj : j = i
    · subst hj
      simpa [At] using left
    · simpa [hj] using h.left j
  · rw [hdb]
    exact h.students
  · rw [hdb]
    exact h.mentors
  · intro j r hr
    rw [hdb]
    by_cases hj : j = i
    · subst hj
      rw [Function.update_self] at hr
      cases hr
      exact ⟨hwritten, by simp [Database.insert]⟩
    · rw [Function.update_of_ne hj] at hr
      obtain ⟨hw, hm⟩ := h.written j r hr
      exact ⟨hw, List.mem_append_left _ hm⟩
  · have hlower : ∀ j a, j ≠ i → (Function.update phase i (.closing row.1) j).committed = some a →
        a.allocationId < row.1.allocationId := by
      intro j a hj ha
      rw [Function.update_of_ne hj] at ha
      have := le_maxId (h.written j a ha).2
      omega
    intro j k a b hjk ha hb
    by_cases hj : j = i
    · subst hj
      have hb' := hlower k b hjk.symm hb
      rw [Function.update_self] at ha
      cases ha
      omega
    · have ha' := hlower j a hj ha
      by_cases hk : k = i
      · subst hk
        rw [Function.update_self] at hb
        cases hb
        omega
      · rw [Function.update_of_ne hj] at ha
        rw [Function.update_of_ne hk] at hb
        exact h.numbers j k a b hjk ha hb
  · intro r hr
    rw [hdb] at hr
    rcases List.mem_append.mp hr with hr | hr
    · rcases h.allocations r hr with hbase | ⟨j, hj⟩
      · exact .inl hbase
      · refine .inr ⟨j, ?_⟩
        rwa [Function.update_of_ne (by rintro rfl; rw [hi] at hj; cases hj)]
    · rw [List.mem_singleton.mp hr]
      exact .inr ⟨i, by rw [Function.update_self]; rfl⟩
  · intro m hm
    rw [hdb] at hm
    rcases List.mem_append.mp hm with hm | hm
    · rcases h.outbox m hm with hbase | ⟨j, hj, he⟩
      · exact .inl hbase
      · refine .inr ⟨j, ?_, he⟩
        rwa [Function.update_of_ne (by rintro rfl; rw [hi] at hj; cases hj)]
    · rw [List.mem_singleton.mp hm]
      have hannounced := h.announced i
      rw [hi] at hannounced
      exact .inr ⟨i, by rw [Function.update_self]; rfl, hannounced⟩
  · intro j r hr
    by_cases hj : j = i
    · subst hj
      rw [Function.update_self] at hr
      cases hr
    · rw [Function.update_of_ne hj, hothers j hj] at hr
      cases hr
  · intro j k hj _
    by_cases hji : j = i
    · subst hji
      rw [Function.update_self] at hj
      cases hj
    · rw [Function.update_of_ne hji, hothers j hji] at hj
      cases hj
  · intro j
    by_cases hj : j = i
    · subst hj
      rw [Function.update_self]
      trivial
    · rw [Function.update_of_ne hj]
      exact h.announced j
  · intro j
    by_cases hj : j = i
    · subst hj
      simp [Phase.flushed]
    · rw [Function.update_of_ne hj, Store.apply_other hj]
      exact h.flushed j
  · intro j id hid
    by_cases hj : j = i
    · subst hj
      simp at hid
    · exact h.mentorLock j id (Store.apply_other hj ▸ hid)
  · intro j id hid
    by_cases hj : j = i
    · subst hj
      simp at hid
    · exact h.studentLock j id (Store.apply_other hj ▸ hid)
  · have hsum := sum_update Phase.weight phase i (.closing row.1)
    have hbefore : (phase i).weight = 0 := by
      rw [hi]
      rfl
    have hafter : (Phase.closing row.1).weight = 1 := rfl
    have hhighest := h.highest
    rw [hdb, hmax, hhighest]
    omega

omit [DecidableEq ι] in
/-- No committed row stands in the way of the call that holds a number. -/
theorem Orderly.free
    (u : Unrelated P policyEngine clock legacyWidth calls student mentor db)
    (h : Orderly P clock legacyWidth calls student mentor db phase c) {row : Row}
    (hi : phase i = .flushing row) : c.store.db.violates row = false := by
  obtain ⟨hwritten, hid⟩ := h.drawn i row.1 (by rw [hi]; rfl)
  have hevent : row.2.eventId = deriveEventId P ((calls i).1.idempotencyKey P) := by
    have := h.announced i
    rwa [hi] at this
  have hcommitted : ∀ j r, (phase j).committed = some r → i ≠ j := by
    rintro j r hj rfl
    rw [hi] at hj
    cases hj
  apply Database.violates_eq_false.mpr
  constructor
  · intro r hr
    have hlower := le_maxId hr
    have hissued : Issued legacyWidth r := by
      rcases h.allocations r hr with hbase | ⟨j, hj⟩
      · exact u.issued r hbase
      · exact (h.written j r hj).1.toIssued
    have hcode : row.1.allocationCode ≠ r.allocationCode := by
      intro he
      obtain ⟨now, hrow⟩ := hwritten.toIssued
      obtain ⟨now', hr'⟩ := hissued
      have := issuedCode_injective (hrow.symm.trans (he.trans hr'))
      omega
    have hkey : row.1.idempotencyKey ≠ r.idempotencyKey := by
      rw [hwritten.key]
      rcases h.allocations r hr with hbase | ⟨j, hj⟩
      · exact (u.keyFree i r hbase).symm
      · rw [(h.written j r hj).1.key]
        exact u.keysApart i j (hcommitted j r hj)
    have hyear : row.1.studentId = r.studentId → row.1.yearCode ≠ r.yearCode := by
      intro hs
      rw [hwritten.student] at hs
      rcases h.allocations r hr with hbase | ⟨j, hj⟩
      · obtain ⟨world, hw, _⟩ := hwritten.issued
        rw [hw]
        exact (u.yearFree i world r hbase hs.symm).symm
      · rw [(h.written j r hj).1.student] at hs
        exact absurd hs (u.studentsApart i j (hcommitted j r hj))
    have hnumber : row.1.allocationId ≠ r.allocationId := by omega
    simp only [AllocationRecord.clashes, Bool.or_eq_false_iff, beq_eq_false_iff_ne, ne_eq,
      Bool.and_eq_false_imp, beq_iff_eq]
    exact ⟨⟨⟨hnumber, hcode⟩, hkey⟩, hyear⟩
  · intro m hm
    simp only [OutboxMessageModel.clashes, beq_eq_false_iff_ne, hevent]
    rcases h.outbox m hm with hbase | ⟨j, hj, he⟩
    · exact (u.eventFree i m hbase).symm
    · obtain ⟨r, hr⟩ := Option.isSome_iff_exists.mp hj
      rw [he]
      exact u.eventsApart i j (hcommitted j r hr)

/-- The number drawn leaves room for the event. -/
theorem Orderly.numbered (h : Orderly P clock legacyWidth calls student mentor db phase c)
    {r : AllocationRecord} (hr : (phase i).drawn = some r) :
    maxId db.allocations < r.allocationId ∧
      r.allocationId ≤ maxId db.allocations + Fintype.card ι := by
  have hid := (h.drawn i r hr).2
  have hhighest := h.highest
  have hzero : (phase i).weight = 0 := by
    have : (phase i).committed = none := by
      cases hp : phase i <;> simp_all [Phase.drawn, Phase.committed]
    simp [Phase.weight, this]
  have hle : ∑ j ∈ Finset.univ.erase i, (phase j).weight ≤ Fintype.card ι - 1 := by
    have hone : ∀ j ∈ Finset.univ.erase i, (phase j).weight ≤ 1 := by
      intro j _
      unfold Phase.weight
      split <;> omega
    have := Finset.sum_le_card_nsmul _ _ 1 hone
    simpa [Finset.card_erase_of_mem, Finset.card_univ] using this
  have hsum := Finset.sum_erase_add Finset.univ (fun j => (phase j).weight) (Finset.mem_univ i)
  have hcard : 0 < Fintype.card ι := Fintype.card_pos_iff.mpr ⟨i⟩
  omega

section
variable {policyEngine : ω → StudentModel → MentorModel → AllocationRequest → PolicyVerdict}

/-- The call whose turn it is, if unfinished, is granted its statement and moves on. -/
def Grants (E : Environment ω) (P : Platform) (clock : ω → DateTime) (legacyWidth : Nat)
    (calls : ι → AllocationRequest × Bool) (student : ι → StudentModel) (mentor : ι → MentorModel)
    (db : Database) (phase : ι → Phase) (c : System ι) (i : ι) (world : ω) : Prop :=
  ∃ next c', c.next (Store.answer E) (i, { world }) = some c' ∧
    next.index = (phase i).index + 1 ∧
    Orderly P clock legacyWidth calls student mentor db (Function.update phase i next) c'

theorem Orderly.grant_opening (h : Orderly P clock legacyWidth calls student mentor db phase c)
    (world : ω) (hi : phase i = .opening) :
    Grants (simpleEnvironment policyEngine clock legacyWidth) P clock legacyWidth calls student
      mentor db phase c i world := by
  have hleft := h.left i
  rw [hi] at hleft
  obtain ⟨rest, hp, hnext⟩ := hleft
  refine ⟨.looking, _, Config.next_of_ask hp rfl, by rw [hi]; rfl, ?_⟩
  refine h.advance .looking (hnext ()) rfl (fun j hj => Store.setSession_other {} hj)
    ?_ ?_ ?_ ?_ ?_ ?_
  · simp [Phase.flushed]
  · simp
  · simp
  · rw [hi]
    rfl
  · intro r hr
    cases hr
  · trivial

theorem Orderly.grant_looking
    (u : Unrelated P policyEngine clock legacyWidth calls student mentor db)
    (h : Orderly P clock legacyWidth calls student mentor db phase c) (world : ω)
    (hi : phase i = .looking) :
    Grants (simpleEnvironment policyEngine clock legacyWidth) P clock legacyWidth calls student
      mentor db phase c i world := by
  have hleft := h.left i
  rw [hi] at hleft
  obtain ⟨rest, hp, hnext⟩ := hleft
  have hnone : c.store.db.getByIdempotencyKey ((calls i).1.idempotencyKey P) = none := by
    apply List.find?_eq_none.mpr
    intro r hr hkey
    simp only [beq_iff_eq] at hkey
    rcases h.allocations r hr with hbase | ⟨j, hj⟩
    · exact u.keyFree i r hbase hkey
    · have hij : i ≠ j := by
        rintro rfl
        rw [hi] at hj
        cases hj
      exact u.keysApart i j hij (hkey.symm.trans (h.written j r hj).1.key)
  refine ⟨.lockingMentor, _, Config.next_of_ask (x := .ok none) (s := c.store) hp ?_,
    by rw [hi]; rfl, ?_⟩
  · simp [Store.answer, Choice.failure, hnone]
  · refine h.advance .lockingMentor (hnext none rfl) rfl (fun j _ => rfl)
      ?_ ?_ ?_ ?_ ?_ ?_
    · rw [h.flushed i, hi]
      rfl
    · exact h.mentorLock i
    · exact h.studentLock i
    · rw [hi]
      rfl
    · intro r hr
      cases hr
    · trivial

theorem Orderly.grant_lockingMentor
    (u : Unrelated P policyEngine clock legacyWidth calls student mentor db)
    (h : Orderly P clock legacyWidth calls student mentor db phase c) (world : ω)
    (hi : phase i = .lockingMentor) :
    Grants (simpleEnvironment policyEngine clock legacyWidth) P clock legacyWidth calls student
      mentor db phase c i world := by
  have hleft := h.left i
  rw [hi] at hleft
  obtain ⟨rest, hp, hnext⟩ := hleft
  have hmentor : c.store.db.getMentor (calls i).1.mentorId = some (mentor i) := by
    simpa only [Database.getMentor, h.mentors] using u.mentors i
  have hunlocked : ¬ ∃ j, j ≠ i ∧
      (c.store.sessions j).mentorLock = some (calls i).1.mentorId := by
    rintro ⟨j, hj, hlock⟩
    exact u.mentorsApart i j hj.symm (h.mentorLock j _ hlock)
  refine ⟨.lockingStudent, _, Config.next_of_ask (x := .ok (some (mentor i)))
    (s := c.store.setSession i
      { c.store.sessions i with mentorLock := some (calls i).1.mentorId }) hp ?_,
    by rw [hi]; rfl, ?_⟩
  · simp only [Store.answer, Choice.failure, hmentor, if_neg hunlocked]
  · refine h.advance .lockingStudent (hnext _ rfl) rfl (fun j hj => Store.setSession_other _ hj)
      ?_ ?_ ?_ ?_ ?_ ?_
    · rw [Store.setSession_same]
      simp only [h.flushed i, hi]
      rfl
    · intro id hid
      rw [Store.setSession_same] at hid
      exact (Option.some.inj hid).symm
    · intro id hid
      rw [Store.setSession_same] at hid
      exact h.studentLock i id hid
    · rw [hi]
      rfl
    · intro r hr
      cases hr
    · trivial

theorem Orderly.grant_lockingStudent
    (u : Unrelated P policyEngine clock legacyWidth calls student mentor db)
    (h : Orderly P clock legacyWidth calls student mentor db phase c) (world : ω)
    (hi : phase i = .lockingStudent) :
    Grants (simpleEnvironment policyEngine clock legacyWidth) P clock legacyWidth calls student
      mentor db phase c i world := by
  have hleft := h.left i
  rw [hi] at hleft
  obtain ⟨rest, hp, hnext⟩ := hleft
  have hstudent : c.store.db.getStudent (calls i).1.studentId = some (student i) := by
    simpa only [Database.getStudent, h.students] using u.students i
  have hunlocked : ¬ ∃ j, j ≠ i ∧
      (c.store.sessions j).studentLock = some (calls i).1.studentId := by
    rintro ⟨j, hj, hlock⟩
    exact u.studentsApart i j hj.symm (h.studentLock j _ hlock)
  refine ⟨.judging, _, Config.next_of_ask (x := .ok (some (student i)))
    (s := c.store.setSession i
      { c.store.sessions i with studentLock := some (calls i).1.studentId }) hp ?_,
    by rw [hi]; rfl, ?_⟩
  · simp only [Store.answer, Choice.failure, hstudent, if_neg hunlocked]
  · refine h.advance .judging (hnext _ rfl) rfl (fun j hj => Store.setSession_other _ hj)
      ?_ ?_ ?_ ?_ ?_ ?_
    · rw [Store.setSession_same]
      simp only [h.flushed i, hi]
      rfl
    · intro id hid
      rw [Store.setSession_same] at hid
      exact h.mentorLock i id hid
    · intro id hid
      rw [Store.setSession_same] at hid
      exact (Option.some.inj hid).symm
    · rw [hi]
      rfl
    · intro r hr
      cases hr
    · trivial

theorem Orderly.grant_judging
    (u : Unrelated P policyEngine clock legacyWidth calls student mentor db)
    (h : Orderly P clock legacyWidth calls student mentor db phase c) (world : ω)
    (hi : phase i = .judging) :
    Grants (simpleEnvironment policyEngine clock legacyWidth) P clock legacyWidth calls student
      mentor db phase c i world := by
  have hleft := h.left i
  rw [hi] at hleft
  obtain ⟨rest, hp, hnext⟩ := hleft
  refine ⟨.drawing (policyEngine world (student i) (mentor i) (calls i).1), _,
    Config.next_of_ask hp rfl, by rw [hi]; rfl, ?_⟩
  refine h.advance (.drawing _) (hnext _ (u.approved i world)) rfl (fun j _ => rfl)
    ?_ ?_ ?_ ?_ ?_ ?_
  · rw [h.flushed i, hi]
    rfl
  · exact h.mentorLock i
  · exact h.studentLock i
  · rw [hi]
    rfl
  · intro r hr
    cases hr
  · trivial

/-- The number read is the next one, and no other call holds one. -/
theorem Orderly.grant_drawing
    (u : Unrelated P policyEngine clock legacyWidth calls student mentor db)
    (h : Orderly P clock legacyWidth calls student mentor db phase c) (world : ω)
    {verdict : PolicyVerdict} (hi : phase i = .drawing verdict)
    (others : ∀ j ≠ i, (phase j).drawn = none) :
    Grants (simpleEnvironment policyEngine clock legacyWidth) P clock legacyWidth calls student
      mentor db phase c i world := by
  have hleft := h.left i
  rw [hi] at hleft
  obtain ⟨rest, hp, hnext⟩ := hleft
  refine ⟨.timing (newRecord (calls i).1 ((calls i).1.idempotencyKey P) (student i) (mentor i)
    verdict (simpleNext legacyWidth (clock world) c.store.db.allocations)), _,
    Config.next_of_ask hp rfl, by rw [hi]; rfl, ?_⟩
  refine h.advance (.timing _) (hnext _) rfl (fun j _ => rfl) ?_ ?_ ?_ ?_ ?_ ?_
  · rw [h.flushed i, hi]
    rfl
  · exact h.mentorLock i
  · exact h.studentLock i
  · rw [hi]
    rfl
  · intro r hr
    cases hr
    exact ⟨⟨rfl, getStudent_some (u.students i), getMentor_some (u.mentors i), rfl, world, rfl,
      rfl⟩, rfl, others⟩
  · trivial

theorem Orderly.grant_timing
    (u : Unrelated P policyEngine clock legacyWidth calls student mentor db)
    (h : Orderly P clock legacyWidth calls student mentor db phase c) (world : ω)
    {r : AllocationRecord} (hi : phase i = .timing r) :
    Grants (simpleEnvironment policyEngine clock legacyWidth) P clock legacyWidth calls student
      mentor db phase c i world := by
  have hleft := h.left i
  rw [hi] at hleft
  obtain ⟨rest, hp, hnext⟩ := hleft
  have hdrawn : (phase i).drawn = some r := by rw [hi]; rfl
  obtain ⟨hwritten, hid⟩ := h.drawn i r hdrawn
  obtain ⟨hlower, hupper⟩ := h.numbered hdrawn
  obtain ⟨message, hm⟩ := u.fits i r world hwritten hupper hlower
  refine ⟨.flushing (r, message), _, Config.next_of_ask hp rfl, by rw [hi]; rfl, ?_⟩
  refine h.advance (.flushing (r, message)) (hnext _ message hm) rfl (fun j _ => rfl)
    ?_ ?_ ?_ ?_ ?_ ?_
  · rw [h.flushed i, hi]
    rfl
  · exact h.mentorLock i
  · exact h.studentLock i
  · rw [hi]
    rfl
  · intro r' hr'
    cases hr'
    refine ⟨hwritten, hid, fun j hj => ?_⟩
    by_contra hsome
    exact hj (h.alone j i (Option.isSome_iff_ne_none.mpr hsome) (by rw [hdrawn]; rfl))
  · exact (toModel_announces hm).1.trans (by rw [hwritten.key])

theorem Orderly.grant_flushing
    (u : Unrelated P policyEngine clock legacyWidth calls student mentor db)
    (h : Orderly P clock legacyWidth calls student mentor db phase c) (world : ω)
    {row : Row} (hi : phase i = .flushing row) :
    Grants (simpleEnvironment policyEngine clock legacyWidth) P clock legacyWidth calls student
      mentor db phase c i world := by
  have hleft := h.left i
  rw [hi] at hleft
  obtain ⟨rest, hp, hnext⟩ := hleft
  have hdrawn : (phase i).drawn = some row.1 := by rw [hi]; rfl
  obtain ⟨hwritten, hid⟩ := h.drawn i row.1 hdrawn
  have hothers : ∀ j ≠ i, (phase j).drawn = none := by
    intro j hj
    by_contra hsome
    exact hj (h.alone j i (Option.isSome_iff_ne_none.mpr hsome) (by rw [hdrawn]; rfl))
  have hwaits : ¬ ∃ j, j ≠ i ∧ (c.store.sessions j).pending.any (rowsClash row) = true := by
    rintro ⟨j, hj, hany⟩
    have hnone : (phase j).flushed = none := by
      have := hothers j hj
      cases hp : phase j <;> simp_all [Phase.drawn, Phase.flushed]
    simp [h.flushed j, hnone] at hany
  refine ⟨.committing row, _, Config.next_of_ask (x := .ok ())
    (s := c.store.setSession i { c.store.sessions i with pending := some row }) hp ?_,
    by rw [hi]; rfl, ?_⟩
  · simp only [Store.answer, Choice.failure, h.free u hi, Bool.false_eq_true, if_false,
      if_neg hwaits]
  · refine h.advance (.committing row) (hnext ()) rfl
      (fun j hj => Store.setSession_other _ hj) ?_ ?_ ?_ ?_ ?_ ?_
    · rw [Store.setSession_same]
      rfl
    · intro id hid
      rw [Store.setSession_same] at hid
      exact h.mentorLock i id hid
    · intro id hid
      rw [Store.setSession_same] at hid
      exact h.studentLock i id hid
    · rw [hi]
      rfl
    · intro r hr
      cases hr
      exact ⟨hwritten, hid, hothers⟩
    · have hannounced := h.announced i
      rw [hi] at hannounced
      exact hannounced

theorem Orderly.grant_committing
    (h : Orderly P clock legacyWidth calls student mentor db phase c) (world : ω)
    {row : Row} (hi : phase i = .committing row) :
    Grants (simpleEnvironment policyEngine clock legacyWidth) P clock legacyWidth calls student
      mentor db phase c i world := by
  have hleft := h.left i
  rw [hi] at hleft
  obtain ⟨rest, hp, hnext⟩ := hleft
  exact ⟨.closing row.1, _, Config.next_of_ask hp rfl, by rw [hi]; rfl, h.commit hi (hnext ())⟩

theorem Orderly.grant_closing
    (h : Orderly P clock legacyWidth calls student mentor db phase c) (world : ω)
    {r : AllocationRecord} (hi : phase i = .closing r) :
    Grants (simpleEnvironment policyEngine clock legacyWidth) P clock legacyWidth calls student
      mentor db phase c i world := by
  have hleft := h.left i
  rw [hi] at hleft
  obtain ⟨rest, hp, hnext⟩ := hleft
  refine ⟨.done r, _, Config.next_of_ask hp rfl, by rw [hi]; rfl, ?_⟩
  refine h.advance (.done r) (hnext ()) rfl (fun j hj => Store.setSession_other {} hj)
    ?_ ?_ ?_ ?_ ?_ ?_
  · simp [Phase.flushed]
  · simp
  · simp
  · rw [hi]
    rfl
  · intro r' hr'
    cases hr'
  · trivial

omit [DecidableEq ι] in
/-- Whoever holds a number is about to write it. -/
theorem Orderly.holdsNumber (h : Orderly P clock legacyWidth calls student mentor db phase c) :
    holdsNumber c i = (phase i).drawn.isSome := by
  have hleft := h.left i
  cases hi : phase i <;> rw [hi] at hleft
  case done r =>
    simp only [At, Done] at hleft
    simp [Allocation.holdsNumber, Program.asked?, hleft, Phase.drawn]
  all_goals
    obtain ⟨rest, hp, _⟩ := hleft
    simp [Allocation.holdsNumber, Program.asked?, hp, Phase.drawn]

/-- An unfinished call is granted its statement, unless it is to read a number while
another call holds one. -/
theorem Orderly.grant
    (u : Unrelated P policyEngine clock legacyWidth calls student mentor db)
    (h : Orderly P clock legacyWidth calls student mentor db phase c) (world : ω)
    (unfinished : ∀ r, phase i ≠ .done r)
    (apart : ∀ verdict, phase i = .drawing verdict → ∀ j ≠ i, (phase j).drawn = none) :
    Grants (simpleEnvironment policyEngine clock legacyWidth) P clock legacyWidth calls student
      mentor db phase c i world := by
  cases hi : phase i with
  | opening => exact h.grant_opening world hi
  | looking => exact h.grant_looking u world hi
  | lockingMentor => exact h.grant_lockingMentor u world hi
  | lockingStudent => exact h.grant_lockingStudent u world hi
  | judging => exact h.grant_judging u world hi
  | drawing verdict => exact h.grant_drawing u world hi (apart verdict hi)
  | timing r => exact h.grant_timing u world hi
  | flushing row => exact h.grant_flushing u world hi
  | committing row => exact h.grant_committing world hi
  | closing r => exact h.grant_closing world hi
  | done r => exact absurd hi (unfinished r)

omit [DecidableEq ι] in
theorem Orderly.start
    (u : Unrelated P policyEngine clock legacyWidth calls student mentor db) (maxRetries : Nat) :
    Orderly P clock legacyWidth calls student mentor db (fun _ => .opening)
      (System.start P maxRetries calls db) where
  left := by
    intro i
    have hreal := u.real i
    simp only [System.start, hreal]
    exact opening_allocate maxRetries
  students := rfl
  mentors := rfl
  written := by
    intro i r hr
    cases hr
  numbers := by
    intro i j a b _ ha
    cases ha
  allocations := fun r hr => .inl hr
  outbox := fun m hm => .inl hm
  drawn := by
    intro i r hr
    cases hr
  alone := by
    intro i j hi
    cases hi
  announced := fun _ => trivial
  flushed := fun _ => rfl
  mentorLock := by
    intro i id hid
    cases hid
  studentLock := by
    intro i id hid
    cases hid
  highest := by simp [System.start, Phase.weight, Phase.committed]

/-- Along a run without failures whose numbers are read apart, the calls stay in phase. -/
theorem run_orderly (u : Unrelated P policyEngine clock legacyWidth calls student mentor db)
    {maxRetries : Nat} {trace : List (System ι × (ι × Choice ω))}
    (h : Run (System.Step (simpleEnvironment policyEngine clock legacyWidth))
      (System.start P maxRetries calls db) trace c)
    (calm : EachStep NoFailure trace) (apart : EachStep NumbersApart trace) :
    ∃ phase, Orderly P clock legacyWidth calls student mentor db phase c ∧
      trace.length = ∑ i, (phase i).index := by
  induction h with
  | nil => exact ⟨_, .start u maxRetries, by simp [Phase.index]⟩
  | @snoc trace s t l before last ih =>
    obtain ⟨hcalm, hfault⟩ := (eachStep_snoc _).mp calm
    obtain ⟨hapart, hnumbers⟩ := (eachStep_snoc _).mp apart
    obtain ⟨phase, hphase, hlength⟩ := ih hcalm hapart
    obtain ⟨i, world, fault⟩ := l
    simp only [NoFailure] at hfault
    subst hfault
    have hgrant := hphase.grant u world (i := i) ?_ ?_
    · obtain ⟨next, c', hnext, hindex, horderly⟩ := hgrant
      have hsame : c' = t := Option.some.inj (hnext.symm.trans last)
      refine ⟨_, hsame ▸ horderly, ?_⟩
      have hsum := sum_update Phase.index phase i next
      simp only [List.length_append, List.length_singleton]
      omega
    · intro r hr
      have hleft := hphase.left i
      rw [hr] at hleft
      obtain ⟨r', rest, x, s', hask, _⟩ := Config.step_cases last
      simp only [At, Done] at hleft
      rw [hleft] at hask
      cases hask
    · intro verdict hi j hj
      have hleft := hphase.left i
      rw [hi] at hleft
      obtain ⟨rest, hp, _⟩ := hleft
      have hholds := hnumbers (student i) (mentor i) ((Config.asks_iff hp).mpr rfl) j hj
      rw [hphase.holdsNumber] at hholds
      simpa using hholds

omit [DecidableEq ι] in
/-- A call that has ended has gone all the way. -/
theorem Orderly.ended (h : Orderly P clock legacyWidth calls student mentor db phase c)
    {x : Except AllocateError AllocationResult} (hx : c.threads i = .ret x) :
    ∃ r, phase i = .done r ∧ x = .ok (allocated P r) := by
  have hleft := h.left i
  cases hi : phase i <;> rw [hi] at hleft
  case done r =>
    simp only [At, Done, hx] at hleft
    exact ⟨r, rfl, Program.ret.inj hleft⟩
  all_goals
    obtain ⟨rest, hp, _⟩ := hleft
    rw [hx] at hp
    cases hp

/-- As long as a call is unfinished, some call can go on with its number apart. -/
theorem Orderly.progress
    (u : Unrelated P policyEngine clock legacyWidth calls student mentor db)
    (h : Orderly P clock legacyWidth calls student mentor db phase c) :
    (∀ i, ∃ x, c.threads i = .ret x) ∨ ∃ i, ∀ world, NumbersApart c (i, { world }) ∧
      ∃ c', System.Step (simpleEnvironment policyEngine clock legacyWidth) c (i, { world }) c' := by
  by_cases hdrawn : ∃ i, (phase i).drawn.isSome
  · obtain ⟨i, hi⟩ := hdrawn
    refine .inr ⟨i, fun world => ⟨?_, ?_⟩⟩
    · intro student' mentor' hask
      have hholds := h.holdsNumber.trans hi
      simp only [Config.Asks] at hask
      simp [Allocation.holdsNumber, hask] at hholds
    · obtain ⟨next, c', hnext, _⟩ := h.grant u world (i := i)
        (by rintro r hr; rw [hr] at hi; cases hi)
        (by rintro verdict hv; rw [hv] at hi; cases hi)
      exact ⟨c', hnext⟩
  · simp only [not_exists, Bool.not_eq_true, Option.isSome_eq_false_iff,
      Option.isNone_iff_eq_none] at hdrawn
    by_cases hdone : ∀ i, ∃ r, phase i = .done r
    · refine .inl fun i => ?_
      obtain ⟨r, hr⟩ := hdone i
      have hleft := h.left i
      rw [hr] at hleft
      exact ⟨_, hleft⟩
    · simp only [not_forall, not_exists] at hdone
      obtain ⟨i, hi⟩ := hdone
      refine .inr ⟨i, fun world => ⟨?_, ?_⟩⟩
      · intro _ _ _ j _
        rw [h.holdsNumber, hdrawn j]
        rfl
      · obtain ⟨next, c', hnext, _⟩ := h.grant u world hi fun _ _ j _ => hdrawn j
        exact ⟨c', hnext⟩

/-- What a call that succeeds has returned and left in the tables. -/
def Succeeded (request : AllocationRequest) (key : String) (result : AllocationResult)
    (db : Database) : Prop :=
  result.status = "OK" ∧ ∃ r ∈ db.allocations, r.idempotencyKey = key ∧
    r.studentId = request.studentId ∧ r.mentorId = request.mentorId ∧
    result.allocationId = some r.allocationId ∧ result.allocationCode = some r.allocationCode

/-- Unrelated calls whose numbers are read apart never conflict: in every state of a run
each call that has ended has succeeded, two of them under different numbers and codes; and
the run, which has at most ten steps for each call, can go on until all have ended. -/
theorem unrelated_calls_succeed (P : Platform)
    (policyEngine : ω → StudentModel → MentorModel → AllocationRequest → PolicyVerdict)
    (clock : ω → DateTime) (legacyWidth maxRetries : Nat) (calls : ι → AllocationRequest × Bool)
    (student : ι → StudentModel) (mentor : ι → MentorModel) (db : Database)
    (u : Unrelated P policyEngine clock legacyWidth calls student mentor db)
    (trace : List (System ι × (ι × Choice ω))) (c : System ι)
    (h : Run (System.Step (simpleEnvironment policyEngine clock legacyWidth))
      (System.start P maxRetries calls db) trace c)
    (calm : EachStep NoFailure trace) (apart : EachStep NumbersApart trace) :
    (∀ i x, c.threads i = .ret x → ∃ result, x = .ok result ∧
      Succeeded (calls i).1 ((calls i).1.idempotencyKey P) result c.store.db) ∧
    (∀ i j a b, i ≠ j → c.threads i = .ret (.ok a) → c.threads j = .ret (.ok b) →
      a.allocationId ≠ b.allocationId ∧ a.allocationCode ≠ b.allocationCode) ∧
    trace.length ≤ 10 * Fintype.card ι ∧
    ((∀ i, ∃ x, c.threads i = .ret x) ∨ ∃ i, ∀ world, NumbersApart c (i, { world }) ∧
      ∃ c', System.Step (simpleEnvironment policyEngine clock legacyWidth) c
        (i, { world }) c') := by
  obtain ⟨phase, hphase, hlength⟩ := run_orderly u h calm apart
  refine ⟨?_, ?_, ?_, hphase.progress u⟩
  · intro i x hx
    obtain ⟨r, hr, rfl⟩ := hphase.ended hx
    obtain ⟨hwritten, hm⟩ := hphase.written i r (by rw [hr]; rfl)
    exact ⟨_, rfl, rfl, r, hm, hwritten.key, hwritten.student, hwritten.mentor, rfl, rfl⟩
  · intro i j a b hij ha hb
    obtain ⟨r, hr, hra⟩ := hphase.ended ha
    obtain ⟨r', hr', hrb⟩ := hphase.ended hb
    cases hra
    cases hrb
    have hnumber := hphase.numbers i j r r' hij (by rw [hr]; rfl) (by rw [hr']; rfl)
    refine ⟨by simpa [allocated] using hnumber, ?_⟩
    intro hcode
    obtain ⟨now, hnow⟩ := (hphase.written i r (by rw [hr]; rfl)).1.toIssued
    obtain ⟨now', hnow'⟩ := (hphase.written j r' (by rw [hr']; rfl)).1.toIssued
    have hsame : r.allocationCode = r'.allocationCode := by simpa [allocated] using hcode
    exact hnumber (issuedCode_injective (hnow.symm.trans (hsame.trans hnow')))
  · have hten : ∀ i ∈ Finset.univ, (phase i).index ≤ 10 := by
      intro i _
      cases phase i <;> simp [Phase.index]
    have := Finset.sum_le_card_nsmul _ _ 10 hten
    simp only [Finset.card_univ, Nat.nsmul_eq_mul] at this
    omega

end

end

def sampleStrands : Caller → AllocationRequest × Bool :=
  fun i => (sampleRequest (if i = .first then "0012345678" else "0012345679")
    (if i = .first then 42 else 43)
    none [], false)

/-- The record of such a call, as far as its event shows it. -/
def sampleRecord (i : Caller) (allocationId : Int) : AllocationRecord where
  allocationId
  allocationCode := yearCodeOf sampleNow ++ zeroPad 8 allocationId
  yearCode := yearCodeOf sampleNow
  studentId := (sampleStrands i).1.studentId
  mentorId := (sampleStrands i).1.mentorId
  idempotencyKey := (sampleStrands i).1.idempotencyKey samplePlatform
  requestId := none
  status := .confirmed
  policyCode := none
  metadataJson := none

theorem sampleStrands_unrelated : Unrelated samplePlatform sampleEnvironment.policyEngine
    sampleEnvironment.clock 8 sampleStrands
    (fun i => sampleStudent (sampleStrands i).1.studentId)
    (fun i => sampleMentor (sampleStrands i).1.mentorId 10) (sampleDatabase 10) where
  real := fun _ => rfl
  students := by decide
  mentors := by decide
  approved := by decide
  studentsApart := by decide
  mentorsApart := by decide
  keysApart := by decide +kernel
  eventsApart := by decide +kernel
  keyFree := by simp [sampleDatabase]
  eventFree := by simp [sampleDatabase]
  yearFree := by simp [sampleDatabase]
  issued := by simp [sampleDatabase]
  fits := by
    intro i r world hr hupper hlower
    obtain ⟨_, hyear, hcode⟩ := hr.issued
    have hnumber : r.allocationId = 1 ∨ r.allocationId = 2 := by
      simp only [sampleDatabase, maxId, List.map_nil, List.max?_nil, Option.getD_none,
        show Fintype.card Caller = 2 from rfl] at hupper hlower
      omega
    have hevent : allocationEvent samplePlatform r sampleNow =
        allocationEvent samplePlatform (sampleRecord i r.allocationId) sampleNow := by
      simp only [allocationEvent, allocationPayload, hr.key, hr.student, hr.mentor, hr.status,
        hyear, hcode]
      rfl
    have hall : ∀ i : Caller, ∀ n ∈ [(1 : Int), 2],
        (allocationEvent samplePlatform (sampleRecord i n) sampleNow).toModel.toOption.isSome := by
      decide +kernel
    have hsome := hall i r.allocationId (by simpa using hnumber)
    change ∃ message, (allocationEvent samplePlatform r sampleNow).toModel = .ok message
    rw [hevent]
    cases hm :
        (allocationEvent samplePlatform (sampleRecord i r.allocationId) sampleNow).toModel with
    | error e =>
      rw [hm] at hsome
      cases hsome
    | ok message => exact ⟨message, rfl⟩

/-- The step meets no failure and reads no number while another call holds one. -/
def undisputed (p : System Caller × (Caller × Choice Unit)) : Bool :=
  p.2.2.fault == .none && match (p.1.threads p.2.1).asked? with
    | some (.nextIdentifiers _ _) => decide (∀ j, j ≠ p.2.1 → holdsNumber p.1 j = false)
    | _ => true

/-- One call after the other. -/
theorem unrelated_calls_succeed_in_turn : ∃ c,
    sampleRun 10 sampleStrands rivalsOrder = some c ∧
    ∀ i x, c.threads i = .ret x → ∃ result, x = .ok result ∧
      Succeeded (sampleStrands i).1 ((sampleStrands i).1.idempotencyKey samplePlatform) result
        c.store.db := by
  have hrun : (sampleRun 10 sampleStrands rivalsOrder).isSome ∧
      (sampleTrail 10 sampleStrands rivalsOrder).all undisputed = true := by
    decide +kernel
  obtain ⟨c, hc⟩ := Option.isSome_iff_exists.mp hrun.1
  refine ⟨c, hc, (unrelated_calls_succeed samplePlatform sampleEnvironment.policyEngine
    sampleEnvironment.clock 8 3 sampleStrands _ _ (sampleDatabase 10) sampleStrands_unrelated _ c
    (run_of_sample hc) ?_ ?_).1⟩
  · refine eachStep_of_all (C := NoFailure) hrun.2 ?_
    intro s l hcheck
    simp only [undisputed, Bool.and_eq_true, beq_iff_eq] at hcheck
    exact hcheck.1
  · refine eachStep_of_all (C := NumbersApart) hrun.2 ?_
    intro s l hcheck student mentor hask
    simp only [Config.Asks] at hask
    simp only [undisputed, hask, Bool.and_eq_true, decide_eq_true_eq] at hcheck
    exact hcheck.2

/-- The second call reads its number before the first one commits, and its insert fails
on the first one's number. -/
theorem unrelated_calls_conflict : Unrelated samplePlatform sampleEnvironment.policyEngine
      sampleEnvironment.clock 8 sampleStrands
      (fun i => sampleStudent (sampleStrands i).1.studentId)
      (fun i => sampleMentor (sampleStrands i).1.mentorId 10) (sampleDatabase 10) ∧
    ∃ trace c, Run (System.Step sampleEnvironment) (sampleStart 10 sampleStrands) trace c ∧
      EachStep NoFailure trace ∧ c.threads .second = .ret (.error (.database .integrity)) := by
  refine ⟨sampleStrands_unrelated, ?_⟩
  let order := List.replicate 6 Caller.first ++ List.replicate 6 Caller.second ++
    List.replicate 4 Caller.first ++ List.replicate 7 Caller.second
  have hrun : (sampleRun 10 sampleStrands order).map (fun c => (c.threads .second).result?) =
        some (some (.error (.database .integrity))) ∧
      (sampleTrail 10 sampleStrands order).all (fun p => p.2.2.fault == .none) = true := by
    decide +kernel
  obtain ⟨c, hc, hresult⟩ := Option.map_eq_some_iff.mp hrun.1
  refine ⟨_, c, run_of_sample hc, ?_, Program.result?_eq_some.mp hresult⟩
  refine eachStep_of_all (C := NoFailure) hrun.2 ?_
  intro s l hcheck
  exact beq_iff_eq.mp hcheck

end Allocation
