import MentorAllocation.Allocation.Proofs.OutboxConsistency

namespace Allocation
open Concurrency

/-- The event a result names is in the outbox and speaks of the result's allocation. -/
def EventReported (result : AllocationResult) (db : Database) : Prop :=
  ∀ eventId, result.outboxEventId = some eventId → ∃ m ∈ db.outbox, m.eventId = eventId ∧
    ∃ r ∈ db.allocations, result.allocationId = some r.allocationId ∧
      m.aggregateId = toString r.allocationId ∧ PayloadAgrees r m

/-- The allocation a result names is committed, for `studentId`. -/
def OwnAllocation (studentId : String) (result : AllocationResult) (db : Database) : Prop :=
  ∀ allocationId, result.allocationId = some allocationId →
    (∃ r ∈ db.allocations, r.allocationId = allocationId) ∧
      ∀ r ∈ db.allocations, r.allocationId = allocationId → r.studentId = studentId

theorem Reports.eventReported {P : Platform} {key : String} {db : Database}
    {result : AllocationResult} (hdb : Consistent P db)
    (h : Reports P (fun r => r.idempotencyKey = key) key (· ∈ db.allocations) result) :
    EventReported result db := by
  intro eventId he
  rcases h with ⟨_, hnone⟩ | ⟨r, hr, hkey, hid, hevent⟩
  · rw [hnone] at he
    cases he
  · obtain ⟨m, hm, ha⟩ := hdb.announced r hr
    refine ⟨m, hm, ?_, r, hr, hid, ha.2.1, ha.payloadAgrees⟩
    rw [hevent] at he
    rw [ha.1, hkey]
    exact Option.some.inj he

theorem Reports.ownAllocation {P : Platform} {key studentId : String} {db : Database}
    {result : AllocationResult} (hdb : Consistent P db)
    (h : Reports P (fun r => r.studentId = studentId) key (· ∈ db.allocations) result) :
    OwnAllocation studentId result db := by
  intro allocationId ha
  rcases h with ⟨hnone, _⟩ | ⟨r, hr, hstudent, hid, _⟩
  · rw [hnone] at ha
    cases ha
  · rw [hid] at ha
    have hid := Option.some.inj ha
    refine ⟨⟨r, hr, hid⟩, fun r' hr' hid' => ?_⟩
    have hsame : r' = r := hdb.unique hr' hr (by simp [AllocationRecord.clashes, hid, hid'])
    exact hsame ▸ hstudent

section
variable {ι ω : Type} [DecidableEq ι] [Fintype ι]

/-- The step is no lookup by student and year that finds a record of another key. -/
def FindsOwnKey (P : Platform) (calls : ι → AllocationRequest × Bool) (c : System ι)
    (l : ι × Choice ω) : Prop :=
  ∀ studentId yearCode r, c.Asks l.1 (.getByStudentYear studentId yearCode) →
    l.2.failure = none → c.store.db.getByStudentYear studentId yearCode = some r →
      r.idempotencyKey = (calls l.1).1.idempotencyKey P

/-- As long as the conflict branch finds only records of the call's own key, in every
state of a run each returned call has named an event of the outbox. -/
theorem events_reported (E : Environment ω) (P : Platform) (maxRetries : Nat)
    (calls : ι → AllocationRequest × Bool) (db : Database) (hdb : Consistent P db)
    (trace : List (System ι × (ι × Choice ω))) (c : System ι)
    (h : Run (System.Step E) (System.start P maxRetries calls db) trace c)
    (own : EachStep (FindsOwnKey P calls) trace) :
    Throughout (fun c => ∀ i result, c.threads i = .ret (.ok result) →
      EventReported result c.store.db) trace c := by
  have hsecure := run_sound (fun _ => True)
    (fun i r => r.idempotencyKey = (calls i).1.idempotencyKey P)
    (fun ch i r s => ∀ studentId yearCode found,
      r = .getByStudentYear studentId yearCode → ch.failure = none →
      s.db.getByStudentYear studentId yearCode = some found →
        found.idempotencyKey = (calls i).1.idempotencyKey P) hdb ?_ h ?_
  · apply hsecure.imp
    intro c hc i result hi
    exact (hc.outcome hi result rfl).eventReported hc.1.consistent
  · intro i
    refine ⟨?_, ?_, fun r hkey _ => hkey, by simp⟩
    · intro s ch r _ _ _ hr
      exact (getByIdempotencyKey_some hr).2
    · intro s ch yearCode r _ hallowed hf hr
      exact hallowed _ yearCode r rfl hf hr
  · rintro ⟨c, l⟩ hp r rest ht studentId yearCode found rfl hf hfound
    exact own _ hp studentId yearCode found ((Config.asks_iff ht).mpr rfl) hf hfound

/-- The step is no key lookup while a record of a call for another student stands
committed whose joined text is the same. -/
def TextApart (P : Platform) (calls : ι → AllocationRequest × Bool) (c : System ι)
    (l : ι × Choice ω) : Prop :=
  ∀ key, c.Asks l.1 (.getByIdempotencyKey key) → l.2.failure = none →
    ∀ j, ∀ r ∈ c.store.db.allocations, r.idempotencyKey = (calls j).1.idempotencyKey P →
      r.studentId = (calls j).1.studentId →
      (calls j).1.material P = (calls l.1).1.material P →
        (calls j).1.studentId = (calls l.1).1.studentId

/-- As long as no key is looked up beside a record of another student with the same
joined text, in every state of a run each returned call has named its own student's record. -/
theorem own_allocations (E : Environment ω) (P : Platform)
    (hsha : Function.Injective P.sha256) (maxRetries : Nat)
    (calls : ι → AllocationRequest × Bool) (db : Database) (hdb : Consistent P db)
    (hempty : db.allocations = []) (trace : List (System ι × (ι × Choice ω))) (c : System ι)
    (h : Run (System.Step E) (System.start P maxRetries calls db) trace c)
    (apart : EachStep (TextApart P calls) trace) :
    Throughout (fun c => ∀ i result, c.threads i = .ret (.ok result) →
      OwnAllocation (calls i).1.studentId result c.store.db) trace c := by
  have hsecure := run_sound
    (fun r => ∃ j, r.idempotencyKey = (calls j).1.idempotencyKey P ∧
      r.studentId = (calls j).1.studentId)
    (fun i r => r.studentId = (calls i).1.studentId)
    (fun ch i r s => ∀ key, r = .getByIdempotencyKey key → ch.failure = none →
      ∀ j, ∀ r ∈ s.db.allocations, r.idempotencyKey = (calls j).1.idempotencyKey P →
        r.studentId = (calls j).1.studentId →
        (calls j).1.material P = (calls i).1.material P →
          (calls j).1.studentId = (calls i).1.studentId) hdb ?_ h ?_
  · apply hsecure.imp
    intro c hc i result hi
    exact (hc.outcome hi result rfl).ownAllocation hc.1.consistent
  · intro i
    refine ⟨?_, ?_, fun r _ hstudent => hstudent, ?_⟩
    · intro s ch r hs hallowed hf hr
      obtain ⟨hmem, hkey⟩ := getByIdempotencyKey_some hr
      rcases hs.origin r hmem with hbase | ⟨j, hj, hstudent⟩
      · rw [hempty] at hbase
        cases hbase
      · have htext : (calls j).1.material P = (calls i).1.material P :=
          hsha (hj.symm.trans hkey)
        exact hstudent.trans (hallowed _ rfl hf j r hmem hj hstudent htext)
    · intro s ch yearCode r _ _ _ hr
      exact (getByStudentYear_some hr).2.1
    · intro world student mentor identifiers hstudent _ _
      exact ⟨i, rfl, getStudent_some hstudent⟩
  · rintro ⟨c, l⟩ hp r rest ht key rfl hf
    exact apart _ hp key ((Config.asks_iff ht).mpr rfl) hf

end

/-- The step looks no record up by its student and year. -/
def yearSpared (p : System Caller × (Caller × Choice Unit)) : Bool :=
  match (p.1.threads p.2.1).asked? with
  | some (.getByStudentYear _ _) => false
  | _ => true

theorem events_reported_twins : ∃ c, sampleRun 10 sampleTwins twinsOrder = some c ∧
    Throughout (fun c => ∀ i result, c.threads i = .ret (.ok result) →
      EventReported result c.store.db) (sampleTrail 10 sampleTwins twinsOrder) c := by
  have hrun : (sampleRun 10 sampleTwins twinsOrder).isSome ∧
      (sampleTrail 10 sampleTwins twinsOrder).all yearSpared = true := by
    decide +kernel
  obtain ⟨c, hc⟩ := Option.isSome_iff_exists.mp hrun.1
  refine ⟨c, hc, events_reported sampleEnvironment samplePlatform 3 sampleTwins
    (sampleDatabase 10) (sampleDatabase_consistent _ 10) _ c (run_of_sample hc) ?_⟩
  refine eachStep_of_all (C := FindsOwnKey _ _) hrun.2 ?_
  intro s l hcheck studentId yearCode r hask
  simp only [Config.Asks] at hask
  simp [yearSpared, hask] at hcheck

/-- A student asks twice in one year, with payloads that differ. -/
def sampleRepeat : Caller → AllocationRequest × Bool :=
  fun i => (sampleRequest "0012345678" 42 none
    (if i = .first then [] else [("cycle", .int 2)]), false)

/-- The second answer names the first record under an event id that no message bears. -/
theorem event_not_reported : ∃ trace c,
    Run (System.Step sampleEnvironment) (sampleStart 10 sampleRepeat) trace c ∧
    ∃ result, c.threads .second = .ret (.ok result) ∧ ¬ EventReported result c.store.db := by
  have hrun : (sampleRun 10 sampleRepeat
      (List.replicate 10 Caller.first ++ List.replicate 12 Caller.second)).map (fun c =>
        ((c.threads .second).result?.map fun x => x.toOption.map AllocationResult.outboxEventId,
        c.store.db.outbox.map OutboxMessageModel.eventId)) =
      some (some (some (some "b82e961f-413c-5e4b-b68a-3706b4681d1e")),
        ["9973d5dc-3669-527a-b5c0-c4cc2897bc7c"]) := by
    decide +kernel
  obtain ⟨c, hc, hout⟩ := Option.map_eq_some_iff.mp hrun
  simp only [Prod.mk.injEq, Option.map_eq_some_iff] at hout
  obtain ⟨⟨x, hx, result, hresult, hevent⟩, houtbox⟩ := hout
  cases x with
  | error e => cases hresult
  | ok result' =>
    cases hresult
    refine ⟨_, c, run_of_sample hc, result, Program.result?_eq_some.mp hx, fun hreported => ?_⟩
    obtain ⟨m, hm, hid, _⟩ := hreported _ hevent
    have hmem := List.mem_map_of_mem (f := OutboxMessageModel.eventId) hm
    rw [houtbox, hid] at hmem
    simp at hmem

/-- The joined texts of the two students differ. -/
theorem rivals_material (i j : Caller) (h : (sampleRivals i).1.material samplePlatform =
    (sampleRivals j).1.material samplePlatform) :
    (sampleRivals i).1.studentId = (sampleRivals j).1.studentId := by
  cases i <;> cases j
  · rfl
  · exact absurd h (by decide +kernel)
  · exact absurd h (by decide +kernel)
  · rfl

theorem own_allocations_rivals : ∃ c, sampleRun 10 sampleRivals rivalsOrder = some c ∧
    c.store.db.allocations.map AllocationRecord.studentId = ["0012345678", "0012345679"] ∧
    Throughout (fun c => ∀ i result, c.threads i = .ret (.ok result) →
      OwnAllocation (sampleRivals i).1.studentId result c.store.db)
      (sampleTrail 10 sampleRivals rivalsOrder) c := by
  have hrun : (sampleRun 10 sampleRivals rivalsOrder).map
      (fun c => c.store.db.allocations.map AllocationRecord.studentId) =
      some ["0012345678", "0012345679"] := by
    decide +kernel
  obtain ⟨c, hc, hstudents⟩ := Option.map_eq_some_iff.mp hrun
  exact ⟨c, hc, hstudents, own_allocations sampleEnvironment samplePlatform (Equiv.injective _) 3
    sampleRivals (sampleDatabase 10) (sampleDatabase_consistent _ 10) rfl _ c (run_of_sample hc)
    (fun _ _ _ _ _ j _ _ _ _ hmaterial => rivals_material j _ hmaterial)⟩

/-- Two students whose joined texts are both `0012345678|42|2|req`. -/
def sampleStrangers : Caller → AllocationRequest × Bool :=
  fun i => (if i = .first then sampleRequest "0012345678" 42 (some "2|req") []
    else sampleRequest "0012345678|42" 2 (some "req") [], false)

/-- The second call is told of the first student's record. -/
theorem allocation_of_another : ∃ trace c,
    Run (System.Step sampleEnvironment) (sampleStart 10 sampleStrangers) trace c ∧
    AllocationRequest.validate samplePlatform (.str "0012345678|42") (.int 2) (.str "req")
      .none .none none = .ok (sampleStrangers .second).1 ∧
    ∃ result, c.threads .second = .ret (.ok result) ∧
      ¬ OwnAllocation (sampleStrangers .second).1.studentId result c.store.db := by
  have hrun : (sampleRun 10 sampleStrangers
      (List.replicate 10 Caller.first ++ List.replicate 4 Caller.second)).map (fun c =>
        ((c.threads .second).result?.map fun x => x.toOption.map AllocationResult.allocationId,
        c.store.db.allocations.map fun r => (r.allocationId, r.studentId))) =
      some (some (some (some 1)), [(1, "0012345678")]) := by
    decide +kernel
  obtain ⟨c, hc, hout⟩ := Option.map_eq_some_iff.mp hrun
  simp only [Prod.mk.injEq, Option.map_eq_some_iff] at hout
  obtain ⟨⟨x, hx, result, hresult, hid⟩, hrecords⟩ := hout
  cases x with
  | error e => cases hresult
  | ok result' =>
    cases hresult
    refine ⟨_, c, run_of_sample hc, rfl, result, Program.result?_eq_some.mp hx, fun hown => ?_⟩
    obtain ⟨r, hr, hrest⟩ := List.map_eq_singleton_iff.mp hrecords
    simp only [Prod.mk.injEq] at hrest
    have hstudent := (hown 1 hid).2 r (by simp [hr]) hrest.1
    rw [hrest.2] at hstudent
    revert hstudent
    decide

end Allocation
