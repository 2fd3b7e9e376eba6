import MentorAllocation.Allocation.Proofs.OutboxConsistency

namespace Allocation
open Concurrency

/-- The bound: the load a mentor started with and its committed confirmed records. -/
def WithinCapacity (db : Database) : Prop :=
  ∀ mentorId mentor, db.getMentor mentorId = some mentor →
    mentor.currentLoad + db.confirmed mentorId ≤ mentor.capacity

/-- The rule would still pass on the mentor's row if that row counted the records
already committed. -/
def CapacityLeft (db : Database) (record : AllocationRecord) : Prop :=
  ∀ mentor, db.getMentor record.mentorId = some mentor →
    (capacityAvailableRule (mentor.loaded (db.confirmed record.mentorId))).passed = true

/-- A step that commits a record has capacity left for it. -/
def CommitsWithCapacity {ι ω : Type} (c : System ι) (l : ι × Choice ω) : Prop :=
  c.Asks l.1 .commit → ∀ row, (c.store.sessions l.1).pending = some row →
    l.2.failure = none → CapacityLeft c.store.db row.1

/-- What a policy that includes the rule ensures of the records written. -/
def ApprovedRecord (db : Database) (record : AllocationRecord) : Prop :=
  record.status = .confirmed ∧ ∀ mentor, db.getMentor record.mentorId = some mentor →
    (capacityAvailableRule mentor).passed = true

theorem confirmed_insert (db : Database) (row : Row) (mentorId : Int)
    (hs : row.1.status = .confirmed) :
    (db.insert row).confirmed mentorId =
      db.confirmed mentorId + if row.1.mentorId = mentorId then 1 else 0 := by
  simp [Database.confirmed, Database.insert, List.countP_append, List.countP_singleton, hs]

/-- One committed record keeps the bound exactly when it had capacity left. -/
theorem withinCapacity_insert {db base : Database} {row : Row} (hm : db.mentors = base.mentors)
    (hr : ApprovedRecord base row.1) (hp : WithinCapacity db) :
    WithinCapacity (db.insert row) ↔ CapacityLeft db row.1 := by
  have hget : ∀ mentorId, db.getMentor mentorId = base.getMentor mentorId := by
    intro mentorId
    simp only [Database.getMentor, hm]
  constructor
  · intro h mentor hmentor
    obtain ⟨hload, hactive, _⟩ :=
      (capacityAvailableRule_passed mentor).mp (hr.2 mentor (hget _ ▸ hmentor))
    have hbound := h row.1.mentorId mentor hmentor
    rw [confirmed_insert db row _ hr.1, if_pos rfl] at hbound
    apply (capacityAvailableRule_passed _).mpr
    simp only [MentorModel.loaded]
    exact ⟨by omega, hactive, by omega⟩
  · intro h mentorId mentor hmentor
    have hbefore := hp mentorId mentor hmentor
    rw [confirmed_insert db row _ hr.1]
    split
    · rename_i he
      subst he
      obtain ⟨_, _, hleft⟩ := (capacityAvailableRule_passed _).mp (h mentor hmentor)
      simp only [MentorModel.loaded] at hleft
      omega
    · simpa using hbefore

section
variable {ι ω : Type} [DecidableEq ι] [Fintype ι]

theorem answer_commit_effective {E : Environment ω} {ch : Choice ω} {i : ι} {s t : Store ι}
    {x : Answer .commit} (h : Store.answer E ch i .commit s = some (x, t)) :
    t = if ch.failure = none then s.apply i else s.release i := by
  simp only [Store.answer] at h
  split at h <;> cases h <;> simp [Choice.failure, *]

/-- One step keeps the bound exactly when it commits with capacity left. -/
theorem withinCapacity_step {E : Environment ω} {P : Platform} {base : Database}
    {c c' : System ι} {l : ι × Choice ω} (hs : Sound P (ApprovedRecord base) base c.store)
    (hp : WithinCapacity c.store.db) (h : System.Step E c l c') :
    WithinCapacity c'.store.db ↔ CommitsWithCapacity c l := by
  obtain ⟨r, rest, x, s, ht, ha, rfl⟩ := Config.step_cases h
  simp only
  by_cases hr : r = .commit
  · subst hr
    rw [CommitsWithCapacity, Config.asks_iff ht, answer_commit_effective ha]
    cases hrow : (c.store.sessions l.1).pending with
    | none =>
      have hsame : (if l.2.failure = none then c.store.apply l.1 else c.store.release l.1).db =
          c.store.db := by
        split
        · exact Store.apply_db_none hrow
        · rfl
      simp [hsame, hp]
    | some row =>
      by_cases hf : l.2.failure = none
      · rw [if_pos hf, Store.apply_db_some hrow]
        simpa [hf] using withinCapacity_insert hs.mentors (hs.written l.1 row hrow) hp
      · simp [hf, hp]
  · have hdb : s.db = c.store.db := by
      cases Store.answer_effect ha with
      | flush row _ _ _ result => exact result ▸ rfl
      | commit asked _ => exact absurd asked hr
      | quiet db _ _ => exact db
    rw [hdb]
    refine ⟨fun _ hask => ?_, fun _ => hp⟩
    exact absurd ((Config.asks_iff ht).mp hask).symm hr

/-- Under a policy that approves only where the rule passes on the mentor's row, a run
stays within capacity exactly when it starts there and each commit has capacity left. -/
theorem within_capacity_iff (E : Environment ω) (P : Platform)
    (hpolicy : ∀ world student mentor request,
      (E.policyEngine world student mentor request).approved = true →
        (capacityAvailableRule mentor).passed = true)
    (maxRetries : Nat) (calls : ι → AllocationRequest × Bool) (db : Database)
    (hdb : Consistent P db) (trace : List (System ι × (ι × Choice ω))) (c : System ι)
    (h : Run (System.Step E) (System.start P maxRetries calls db) trace c) :
    Throughout (fun c => WithinCapacity c.store.db) trace c ↔
      WithinCapacity db ∧ EachStep CommitsWithCapacity trace := by
  have contracts : ∀ i, Contract E P (ApprovedRecord db) (fun _ => True) db
      (fun _ _ _ _ => True) i (calls i).1 ((calls i).1.idempotencyKey P) := by
    intro i
    refine ⟨by simp, by simp, by simp, ?_⟩
    intro world student mentor identifiers _ hmentor happroved
    refine ⟨rfl, ?_⟩
    intro mentor' hmentor'
    simp only [newRecord, getMentor_some hmentor, hmentor, Option.some.injEq] at hmentor'
    exact hmentor' ▸ hpolicy world student mentor (calls i).1 happroved
  refine h.throughout_iff (I := (ledger E P (ApprovedRecord db) db (fun _ _ _ _ => True)).Secure
    fun i x s => ∀ result, x = .ok result →
      callPost P (fun _ => True) ((calls i).1.idempotencyKey P) result s) ?_ ?_ ?_
  · exact ⟨.initial hdb, fun i => returns_allocate (contracts i)⟩
  · intro s l t hs hl
    refine (hs.step ?_ (fun _ _ _ => trivial) hl).1
    rintro i x s t ⟨hg, _⟩ hpost result hx
    exact (hpost result hx).mono fun r hr => hg.allocations.subset hr
  · intro s l t hs hp hl
    exact withinCapacity_step hs.1 hp hl

end

theorem sampleEnvironment_checks_capacity (world : Unit) (student : StudentModel)
    (mentor : MentorModel) (request : AllocationRequest)
    (h : (sampleEnvironment.policyEngine world student mentor request).approved = true) :
    (capacityAvailableRule mentor).passed = true := h

theorem within_capacity_iff_rivals : ∃ trace c,
    Run (System.Step sampleEnvironment) (sampleStart 2 sampleRivals) trace c ∧
    c.store.db.confirmed 42 = 2 ∧
    (Throughout (fun c => WithinCapacity c.store.db) trace c ↔
      WithinCapacity (sampleDatabase 2) ∧ EachStep CommitsWithCapacity trace) := by
  have hrun : (sampleRun 2 sampleRivals rivalsOrder).map
      (fun c => c.store.db.confirmed 42) = some 2 := by
    decide +kernel
  obtain ⟨c, hc, hcount⟩ := Option.map_eq_some_iff.mp hrun
  exact ⟨_, c, run_of_sample hc, hcount, within_capacity_iff sampleEnvironment samplePlatform
    sampleEnvironment_checks_capacity 3 sampleRivals (sampleDatabase 2)
    (sampleDatabase_consistent _ 2) _ c (run_of_sample hc)⟩

/-- A mentor with room for one student is given two: the stored load never moves. -/
theorem over_capacity : WithinCapacity (sampleDatabase 1) ∧
    (∀ world student mentor request,
      (sampleEnvironment.policyEngine world student mentor request).approved = true →
        (capacityAvailableRule mentor).passed = true) ∧
    ∃ trace c, Run (System.Step sampleEnvironment) (sampleStart 1 sampleRivals) trace c ∧
      ¬ WithinCapacity c.store.db := by
  refine ⟨?_, sampleEnvironment_checks_capacity, ?_⟩
  · intro mentorId mentor hm
    obtain hm := List.mem_of_find?_eq_some hm
    simp only [sampleDatabase, List.mem_cons, List.not_mem_nil, or_false] at hm
    rcases hm with rfl | rfl <;> simp [sampleDatabase, sampleMentor, Database.confirmed]
  · have hrun : (sampleRun 1 sampleRivals rivalsOrder).map
        (fun c => (c.store.db.confirmed 42, c.store.db.getMentor 42)) =
        some (2, some (sampleMentor 42 1)) := by
      decide +kernel
    obtain ⟨c, hc, hdb⟩ := Option.map_eq_some_iff.mp hrun
    refine ⟨_, c, run_of_sample hc, fun hbound => ?_⟩
    simp only [Prod.mk.injEq] at hdb
    have := hbound 42 _ hdb.2
    rw [hdb.1] at this
    simp [sampleMentor] at this

end Allocation
