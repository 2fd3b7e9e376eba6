import MentorAllocation.Outbox.Proofs.Lifecycle

namespace Outbox
open Text Allocation

section
variable {F : Type} (L : Library F) (D : OutboxDispatcher F) (s : Surroundings F)

/-- A failure of the message can be written down: it is the last one allowed, or the
time of the next attempt can be represented. -/
def Reschedulable (m : Message) : Prop :=
  D.backoff.allowed ≤ m.retryCount ∨
    (Message.computeNextAvailableAt L { m with retryCount := m.retryCount + 1 } D.backoff
      (s.readings m.eventId)).isSome = true

def delivery (m : Message) (members : List (String × Json)) : Delivery :=
  ⟨m.eventType, .obj members, [("x-event-id", m.eventId), ("x-aggregate-id", m.aggregateId),
    ("x-idempotency-key", ((members.lookup "idempotency_key").map L.str).getD "")]⟩

/-- The payload is no JSON at all or a JSON object, and the publisher returns or raises an
exception that can be recorded. -/
def Handled (m : Message) : Prop :=
  match L.loads m.payloadJson with
  | .decodeError _ => Reschedulable L D s m
  | .value (.obj members) =>
    match (s.readings m.eventId).publish (delivery L m members) with
    | .returns => True
    | .raises text => text.isSome = true ∧ Reschedulable L D s m
    | .escapes => False
  | _ => False

/-- The call commits, and every message of its batch ends as it would alone. -/
def Isolated (table : List Message) : Prop :=
  ∃ table' n, D.dispatchOnce L s table = .ok (table', n) ∧
    (∀ m ∈ table, m ∉ D.batch s table → m ∈ table') ∧
    ∀ m ∈ D.batch s table, ∃ m' ∈ table', m'.eventId = m.eventId ∧
      ∃ published, D.dispatchOnce L s [m] = .ok ([m'], published) ∧
        (published = 1 ∧ m'.status = .sent ∨
          published = 0 ∧ m'.retryCount = m.retryCount + 1)

end

section
variable {F : Type} {L : Library F} {D : OutboxDispatcher F} {s : Surroundings F}
  {m : Message} {table : List Message}

theorem scheduleNext_ok_iff {text : Option String} :
    (∃ m', scheduleNext L D.backoff m text (s.readings m.eventId) = .ok m') ↔
      text.isSome = true ∧ Reschedulable L D s m := by
  unfold scheduleNext Reschedulable
  simp only [lt_retry_iff]
  by_cases hle : D.backoff.allowed ≤ m.retryCount
  · cases text <;> simp [hle]
  · simp only [hle, if_false, false_or]
    cases Message.computeNextAvailableAt L { m with retryCount := m.retryCount + 1 } D.backoff
      (s.readings m.eventId) with
    | none => simp
    | some next => cases text <;> simp

theorem rescheduled_ok_iff {x : Except Raised Message} :
    (∃ d, (x >>= fun y => pure (y, false) : Except Raised (Message × Bool)) = .ok d) ↔
      ∃ m', x = .ok m' := by
  cases x with
  | error e => simp [bind, Except.bind]
  | ok y => simp [bind, Except.bind, pure, Except.pure]

/-- A turn of the loop ends normally exactly when it can handle its message. -/
theorem dispatchMessage_ok_iff :
    (∃ d, dispatchMessage L D.backoff m (s.readings m.eventId) = .ok d) ↔ Handled L D s m := by
  unfold Handled dispatchMessage extractIdempotencyKey
  cases L.loads m.payloadJson with
  | decodeError text =>
    refine rescheduled_ok_iff.trans (scheduleNext_ok_iff.trans ?_)
    simp
  | raises text => simp [bind, Except.bind]
  | value v =>
    cases v with
    | obj members =>
      simp only [delivery, bind, Except.bind]
      generalize (s.readings m.eventId).publish _ = outcome
      cases outcome with
      | escapes => simp
      | raises text => exact rescheduled_ok_iff.trans scheduleNext_ok_iff
      | returns => simp [pure, Except.pure]
    | _ => simp [bind, Except.bind]

/-- Alone in the table, a message that is taken up is the whole batch. -/
theorem batch_alone (h : m ∈ D.batch s table) : D.batch s [m] = [m] := by
  unfold OutboxDispatcher.batch listDueForUpdate at h ⊢
  have hlimit : D.batchSize ≠ 0 := by
    intro hz
    simp [hz] at h
  have hdue := List.mem_of_mem_take h
  simp only [Sorting.stableSort, List.mem_map, List.mem_insertionSort, List.mem_filter] at hdue
  obtain ⟨_, ⟨a, ⟨-, hdue⟩, rfl⟩, rfl⟩ := hdue
  obtain ⟨n, hn⟩ := Nat.exists_eq_succ_of_ne_zero hlimit
  rw [hn]
  simp [hdue, Sorting.stableSort]

/-- A call over one message makes one turn. -/
theorem dispatchOnce_alone {m' : Message} {published : Bool} (h : m ∈ D.batch s table)
    (hturn : dispatchMessage L D.backoff m (s.readings m.eventId) = .ok (m', published)) :
    D.dispatchOnce L s [m] = .ok ([m'], if published then 1 else 0) := by
  refine dispatchOnce_eq_ok.mpr ⟨[(m', published)], ?_, ?_, ?_⟩
  · rw [batch_alone h]
    exact dispatchBatch_cons.mpr ⟨_, [], hturn, rfl, rfl⟩
  · simp [flush, dispatchMessage_eventId hturn]
  · cases published <;> rfl

end

def arrayLibrary : Library Int :=
  { plainLibrary with
    loads := fun text => if text == "[]" then .value (.arr []) else plainLibrary.loads text }

/-- A due message whose payload is an array, in front of one in good order. -/
def poisonedTable : List Message :=
  [{ plainMessage with payloadJson := "[]" }, { plainMessage with eventId := "e2" }]

theorem poisoned_distinct : Distinct poisonedTable := by decide

/-- Three due messages, the first of which has a payload that is no JSON. -/
def mixedTable : List Message :=
  [{ plainMessage with payloadJson := "[" }, { plainMessage with eventId := "e2" },
    { plainMessage with eventId := "e3" }]

/-- The bus is down for the second of them. -/
def mixedCall : Surroundings Int where
  now := moment 10
  locked _ := false
  readings eventId := ⟨moment 11,
    fun _ => if eventId = "e2" then .raises (some "down") else .returns, 0, moment 11, 0, moment 11⟩

end Outbox
