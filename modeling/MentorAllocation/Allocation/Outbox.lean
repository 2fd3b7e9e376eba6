import MentorAllocation.Allocation.Models

namespace Allocation
open Text

def maxPayloadBytes : Nat := 32768

structure OutboxEvent where
  eventId : String
  aggregateType : String
  aggregateId : String
  eventType : String
  payload : Json
  occurredAt : DateTime
  availableAt : DateTime
  retryCount : Int := 0
  status : OutboxStatus := .pending

/-- The row for an event. The status check of the source is the type of `status`. -/
def OutboxEvent.toModel (event : OutboxEvent) : Except String OutboxMessageModel :=
  let payloadJson := Json.dumps {} event.payload
  if payloadJson.utf8ByteSize > maxPayloadBytes then
    .error "PAYLOAD_TOO_LARGE|اندازه محتوای رویداد بیش از حد مجاز است"
  else if event.retryCount < 0 then
    .error "NEGATIVE_RETRY_COUNT|تعداد تلاش نباید منفی باشد"
  else .ok {
    eventId := event.eventId
    aggregateType := event.aggregateType
    aggregateId := event.aggregateId
    eventType := event.eventType
    payloadJson
    occurredAt := event.occurredAt
    availableAt := event.availableAt
    retryCount := event.retryCount.toNat
    status := event.status }

/-- The payload written for a record, under the event id of its idempotency key. -/
def allocationPayload (P : Platform) (record : AllocationRecord) (now : DateTime) : Json :=
  .obj [
    ("event_id", .str (deriveEventId P record.idempotencyKey)),
    ("allocation_id", .int record.allocationId),
    ("allocation_code", .str record.allocationCode),
    ("year_code", .str record.yearCode),
    ("student_id", .str record.studentId),
    ("mentor_id", .int record.mentorId),
    ("idempotency_key", .str record.idempotencyKey),
    ("status", .str record.status.text),
    ("occurred_at", .str now.isoformat)]

def allocationEvent (P : Platform) (record : AllocationRecord) (now : DateTime) : OutboxEvent where
  eventId := deriveEventId P record.idempotencyKey
  aggregateType := "Allocation"
  aggregateId := toString record.allocationId
  eventType := "MentorAssigned"
  payload := allocationPayload P record now
  occurredAt := now
  availableAt := now

/-- A message announces a record: it bears the record's event id and a payload
rendered from the record's own fields. -/
def Announces (P : Platform) (message : OutboxMessageModel) (record : AllocationRecord) : Prop :=
  message.eventId = deriveEventId P record.idempotencyKey ∧
    message.aggregateId = toString record.allocationId ∧
    message.eventType = "MentorAssigned" ∧
    ∃ now, message.payloadJson = Json.dumps {} (allocationPayload P record now)

theorem toModel_announces {P : Platform} {record : AllocationRecord} {now : DateTime}
    {message : OutboxMessageModel} (h : (allocationEvent P record now).toModel = .ok message) :
    Announces P message record := by
  unfold OutboxEvent.toModel at h
  simp only at h
  split at h
  · cases h
  · split at h
    · cases h
    · cases h
      exact ⟨rfl, rfl, rfl, now, rfl⟩

end Allocation
