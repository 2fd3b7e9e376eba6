import Mathlib
import MentorAllocation.Allocation.Proofs.Safety
import MentorAllocation.Allocation.Rules

namespace Allocation
open Text Concurrency

def isEventOf (P : Platform) (record : AllocationRecord) (message : OutboxMessageModel) : Bool :=
  message.eventType == "MentorAssigned" &&
    message.eventId == deriveEventId P record.idempotencyKey

def PayloadAgrees (record : AllocationRecord) (message : OutboxMessageModel) : Prop :=
  ∃ eventId occurredAt : String, message.payloadJson = Json.dumps {} (.obj [
    ("event_id", .str eventId),
    ("allocation_id", .int record.allocationId),
    ("allocation_code", .str record.allocationCode),
    ("year_code", .str record.yearCode),
    ("student_id", .str record.studentId),
    ("mentor_id", .int record.mentorId),
    ("idempotency_key", .str record.idempotencyKey),
    ("status", .str record.status.text),
    ("occurred_at", .str occurredAt)])

/-- Records and assignment messages, one to one, and no key stored twice. -/
structure OneToOne (P : Platform) (db : Database) : Prop where
  announced : ∀ r ∈ db.allocations, db.outbox.countP (isEventOf P r) = 1
  grounded : ∀ m ∈ db.outbox, m.eventType = "MentorAssigned" →
    db.allocations.countP (fun r => isEventOf P r m) = 1
  agrees : ∀ r ∈ db.allocations, ∀ m ∈ db.outbox, isEventOf P r m = true → PayloadAgrees r m
  byKey : ∀ key, db.allocations.countP (fun r => r.idempotencyKey == key) ≤ 1
  byStudentYear : ∀ studentId yearCode,
    db.allocations.countP (fun r => r.studentId == studentId && r.yearCode == yearCode) ≤ 1

theorem countP_le_one {α : Type} {R : α → α → Prop} {p : α → Bool} {l : List α}
    (h : l.Pairwise R) (hp : ∀ a b, R a b → p a = true → p b = true → False) :
    l.countP p ≤ 1 := by
  induction h with
  | nil => simp
  | @cons a l ha _ ih =>
    cases hpa : p a with
    | false => simpa [List.countP_cons, hpa] using ih
    | true =>
      have hnone : l.countP p = 0 := by
        apply List.countP_eq_zero.mpr
        intro b hb hpb
        exact hp a b (ha b hb) hpa hpb
      simp [hpa, hnone]

theorem countP_eq_one {α : Type} {R : α → α → Prop} {p : α → Bool} {l : List α} {a : α}
    (h : l.Pairwise R) (hp : ∀ a b, R a b → p a = true → p b = true → False)
    (ha : a ∈ l) (hpa : p a = true) : l.countP p = 1 := by
  have hle := countP_le_one h hp
  have hpos : 0 < l.countP p := List.countP_pos_iff.mpr ⟨a, ha, hpa⟩
  omega

theorem Announces.isEventOf {P : Platform} {m : OutboxMessageModel} {r : AllocationRecord}
    (h : Announces P m r) : isEventOf P r m = true := by
  obtain ⟨hid, _, htype, _⟩ := h
  simp [Allocation.isEventOf, hid, htype]

theorem Announces.payloadAgrees {P : Platform} {m : OutboxMessageModel} {r : AllocationRecord}
    (h : Announces P m r) : PayloadAgrees r m := by
  obtain ⟨_, _, _, now, hpayload⟩ := h
  exact ⟨deriveEventId P r.idempotencyKey, now.isoformat, hpayload⟩

/-- Distinct keys in each table and injective event ids make the correspondence one to one. -/
theorem Consistent.oneToOne {P : Platform} {db : Database} (h : Consistent P db)
    (huuid : Function.Injective (P.uuid5 idempotencyNamespace)) : OneToOne P db where
  announced := by
    intro r hr
    obtain ⟨m, hm, ha⟩ := h.announced r hr
    refine countP_eq_one h.messages ?_ hm ha.isEventOf
    intro a b hab hpa hpb
    simp_all [isEventOf, OutboxMessageModel.clashes]
  grounded := by
    intro m hm ht
    obtain ⟨r, hr, ha⟩ := h.grounded m hm ht
    refine countP_eq_one h.records ?_ hr ha.isEventOf
    intro a b hab hpa hpb
    have hkey : a.idempotencyKey = b.idempotencyKey := by
      apply huuid
      simp only [isEventOf, deriveEventId, Bool.and_eq_true, beq_iff_eq] at hpa hpb
      exact hpa.2.symm.trans hpb.2
    simp [AllocationRecord.clashes, hkey] at hab
  agrees := by
    intro r hr m hm he
    simp only [isEventOf, Bool.and_eq_true, beq_iff_eq] at he
    obtain ⟨r', hr', ha⟩ := h.grounded m hm he.1
    have hkey : r.idempotencyKey = r'.idempotencyKey := huuid (he.2.symm.trans ha.1)
    have hsame : r = r' := h.unique hr hr' (by simp [AllocationRecord.clashes, hkey])
    exact hsame ▸ ha.payloadAgrees
  byKey := by
    intro key
    refine countP_le_one h.records ?_
    intro a b hab ha hb
    simp_all [AllocationRecord.clashes]
  byStudentYear := by
    intro studentId yearCode
    refine countP_le_one h.records ?_
    intro a b hab ha hb
    simp_all [AllocationRecord.clashes]

section
variable {ι ω : Type} [DecidableEq ι] [Fintype ι] {E : Environment ω} {P : Platform}
  {maxRetries : Nat} {calls : ι → AllocationRequest × Bool} {db : Database}
  {trace : List (System ι × (ι × Choice ω))} {c : System ι}

abbrev System.Step (E : Environment ω) : System ι → ι × Choice ω → System ι → Prop :=
  Config.Step (Store.answer E)

/-- In each state of a run the store is sound and the calls are still safe. -/
theorem run_sound (Q : AllocationRecord → Prop) (Hit : ι → AllocationRecord → Prop)
    (allowed : Choice ω → ι → Statement → Store ι → Prop) (hdb : Consistent P db)
    (contracts : ∀ i, Contract E P Q (Hit i) db allowed i (calls i).1
      ((calls i).1.idempotencyKey P))
    (h : Run (System.Step E) (System.start P maxRetries calls db) trace c)
    (permits : EachStep (ledger E P Q db allowed).Permitted trace) :
    Throughout ((ledger E P Q db allowed).Secure fun i x s => ∀ result, x = .ok result →
      callPost P (Hit i) ((calls i).1.idempotencyKey P) result s) trace c := by
  apply Protocol.run_secure h _ _ permits
  · exact ⟨.initial hdb, fun i => returns_allocate (contracts i)⟩
  · rintro i x s t ⟨hg, _⟩ hpost result hx
    exact (hpost result hx).mono fun r hr => hg.allocations.subset hr

/-- In every committed state reachable by any calls in any interleaving, whatever fails,
records and assignment messages correspond one to one. -/
theorem outbox_one_to_one (E : Environment ω) (P : Platform)
    (huuid : Function.Injective (P.uuid5 idempotencyNamespace))
    (maxRetries : Nat) (calls : ι → AllocationRequest × Bool) (db : Database)
    (hdb : Consistent P db) (trace : List (System ι × (ι × Choice ω))) (c : System ι)
    (h : Run (System.Step E) (System.start P maxRetries calls db) trace c) :
    Throughout (fun c => OneToOne P c.store.db) trace c := by
  have hsound := run_sound (fun _ => True) (fun _ _ => True) (fun _ _ _ _ => True) hdb
    (fun i => ⟨by simp, by simp, by simp, by simp⟩) h
    (fun _ _ _ _ _ => trivial)
  exact hsound.imp fun c hc => hc.1.consistent.oneToOne huuid

end

def tabulated (table : List (String × String)) : Equiv.Perm String :=
  table.foldr (fun entry rest => (Equiv.swap entry.1 entry.2).trans rest) (Equiv.refl String)

/-- The digests of the texts below; NFKC leaves ASCII alone. -/
def samplePlatform : Platform where
  nfkc := id
  sha256 := tabulated [
    ("0012345678|42|\x7b\x7d",
      "a5f9a70aa4aa2a6ece32a03d86c53c9c1b8f3cf67eb467b9383d06c288d3d862"),
    ("0012345679|42|\x7b\x7d",
      "d32016185e8ad51050497fd61f0e6a04af3a065e1972d08427a53ae5cbdf69fb"),
    ("0012345679|43|\x7b\x7d",
      "f62aa0c21eb4ef2a20468d090f1aaa60ea6c996897408962cb6e657c0e7babd8"),
    ("0012345678|42|\x7b\"cycle\":2\x7d",
      "ad3ed0a075d4d07a87029c8ba56a16e845a6bcb6546c61134111f08ece4d2442"),
    ("0012345678|42|2|req",
      "8e8d02bb17b61ad27f95ec02ca2b0200698bd103e9758642acbfd9b7473fefbd")]
  uuid5 := fun _ => tabulated [
    ("a5f9a70aa4aa2a6ece32a03d86c53c9c1b8f3cf67eb467b9383d06c288d3d862",
      "9973d5dc-3669-527a-b5c0-c4cc2897bc7c"),
    ("d32016185e8ad51050497fd61f0e6a04af3a065e1972d08427a53ae5cbdf69fb",
      "82dde9ab-c6ce-518e-8b58-0e12d1111a6a"),
    ("f62aa0c21eb4ef2a20468d090f1aaa60ea6c996897408962cb6e657c0e7babd8",
      "6f2a8a0b-c910-56d4-a0df-a06a739bf391"),
    ("ad3ed0a075d4d07a87029c8ba56a16e845a6bcb6546c61134111f08ece4d2442",
      "b82e961f-413c-5e4b-b68a-3706b4681d1e"),
    ("8e8d02bb17b61ad27f95ec02ca2b0200698bd103e9758642acbfd9b7473fefbd",
      "55a66a24-711a-58cc-87ca-6466120c8557")]

def sampleStudent (nationalId : String) : StudentModel where
  nationalId
  gender := 1
  eduStatus := 1
  regCenter := 1
  regStatus := 1
  groupCode := 101
  schoolCode := some 5001
  studentType := some 0

def sampleMentor (mentorId capacity : Int) : MentorModel where
  mentorId
  gender := 1
  type := "عادی"
  capacity
  currentLoad := 0
  managerId := none
  isActive := true

def sampleDatabase (capacity : Int) : Database where
  students := [sampleStudent "0012345678", sampleStudent "0012345679"]
  mentors := [sampleMentor 42 capacity, sampleMentor 43 capacity]
  allocations := []
  outbox := []

theorem sampleDatabase_consistent (P : Platform) (capacity : Int) :
    Consistent P (sampleDatabase capacity) := by
  constructor <;> simp [sampleDatabase]

def sampleNow : DateTime where
  instant := 1735689600
  year := 2025
  isoformat := "2025-01-01T00:00:00+00:00"

def sampleEnvironment : Environment Unit where
  policyEngine := fun _ _ mentor _ =>
    { approved := (capacityAvailableRule mentor).passed, code := "POLICY_OK" }
  sequenceProvider := fun _ allocations _ _ => simpleNext 8 sampleNow allocations
  clock := fun _ => sampleNow

def sampleRequest (studentId : String) (mentorId : Int) (requestId : Option String)
    (payload : List (String × Json)) : AllocationRequest where
  studentId
  mentorId
  requestId
  payload
  metadata := []
  yearCode := none

inductive Caller where
  | first
  | second
  deriving DecidableEq

instance : Fintype Caller where
  elems := {.first, .second}
  complete := by
    intro i
    cases i <;> decide

def sampleStart (capacity : Int) (calls : Caller → AllocationRequest × Bool) : System Caller :=
  System.start samplePlatform 3 calls (sampleDatabase capacity)

/-- Two calls without failures, by whose turn it is at each step. -/
def sampleRun (capacity : Int) (calls : Caller → AllocationRequest × Bool) (order : List Caller) :
    Option (System Caller) :=
  replay (fun c l => c.next (Store.answer sampleEnvironment) l) (sampleStart capacity calls)
    (order.map fun i => (i, { world := () }))

def sampleTrail (capacity : Int) (calls : Caller → AllocationRequest × Bool)
    (order : List Caller) : List (System Caller × (Caller × Choice Unit)) :=
  trail (fun c l => c.next (Store.answer sampleEnvironment) l) (sampleStart capacity calls)
    (order.map fun i => (i, { world := () }))

theorem run_of_sample {capacity : Int} {calls : Caller → AllocationRequest × Bool}
    {order : List Caller} {c : System Caller} (h : sampleRun capacity calls order = some c) :
    Run (System.Step sampleEnvironment) (sampleStart capacity calls)
      (sampleTrail capacity calls order) c :=
  run_of_replay h

def sampleTwins : Caller → AllocationRequest × Bool :=
  fun _ => (sampleRequest "0012345678" 42 none [], false)

/-- The second call has looked its key up before the first one commits. -/
def twinsOrder : List Caller :=
  [.first, .first, .second, .second] ++ List.replicate 8 .first ++ List.replicate 9 .second

/-- Two students, one after the other, for the same mentor. -/
def sampleRivals : Caller → AllocationRequest × Bool :=
  fun i => (sampleRequest (if i = .first then "0012345678" else "0012345679") 42 none [], false)

def rivalsOrder : List Caller := List.replicate 10 .first ++ List.replicate 10 .second

theorem outbox_one_to_one_twins : ∃ trace c,
    Run (System.Step sampleEnvironment) (sampleStart 10 sampleTwins) trace c ∧
    c.store.db.allocations.length = 1 ∧
    Throughout (fun c => OneToOne samplePlatform c.store.db) trace c := by
  have hrun : (sampleRun 10 sampleTwins twinsOrder).map
      (fun c => c.store.db.allocations.length) = some 1 := by
    decide +kernel
  obtain ⟨c, hc, hlen⟩ := Option.map_eq_some_iff.mp hrun
  exact ⟨_, c, run_of_sample hc, hlen, outbox_one_to_one sampleEnvironment samplePlatform
    (Equiv.injective _) 3 sampleTwins (sampleDatabase 10) (sampleDatabase_consistent _ 10)
    _ c (run_of_sample hc)⟩

end Allocation
