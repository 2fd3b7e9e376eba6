import Mathlib
import MentorAllocation.Allocation.Models
import MentorAllocation.Sorting.Stable

namespace Outbox
open Text Allocation

/-- A row of `outbox_messages` with the columns that only the dispatcher writes. -/
structure Message extends OutboxMessageModel where
  publishedAt : Option DateTime := none
  lastError : Option String := none
  deriving DecidableEq, Repr

/-- What `json.loads` makes of a text. -/
inductive Loaded where
  | value (v : Json)
  | decodeError (text : String)
  /-- Any other exception: too deep a nesting, too long an integer. -/
  | raises (text : String)

/-- The library functions of the dispatcher: JSON, `str` of a value, and the floating
point arithmetic on seconds, where `none` is an `OverflowError`. -/
structure Library (F : Type) where
  loads : String → Loaded
  str : Json → String
  /-- `x * 2 ** n` -/
  timesPowerOfTwo : F → Nat → Option F
  add : F → F → F
  sub : F → F → F
  lt : F → F → Bool
  nonpositive : F → Bool
  /-- `wall + timedelta(seconds=x)` -/
  later : DateTime → F → Option DateTime

structure BackoffPolicy (F : Type) where
  baseSeconds : F
  capSeconds : F
  maxRetries : Int := 12

structure Delivery where
  eventType : String
  payload : Json
  headers : List (String × String)

/-- How a call of the publisher ends. An exception comes with its `str`, if that does
not raise in turn; what escapes is no `Exception` at all, an interrupt for one. -/
inductive Publish where
  | returns
  | raises (text : Option String)
  | escapes

/-- What the surroundings show to the treatment of one message. -/
structure Readings (F : Type) where
  wall : DateTime
  publish : Delivery → Publish
  monoBefore : F
  wallBefore : DateTime
  monoAfter : F
  wallAfter : DateTime

/-- What they show to one call: the clock as the query reads it, the rows that other
transactions hold, and the readings for each message by its event id. -/
structure Surroundings (F : Type) where
  now : DateTime
  locked : String → Bool
  readings : String → Readings F

inductive Raised where
  | attributeError
  | json (text : String)
  | unprintable
  | overflowError
  | escaped
  deriving DecidableEq, Repr

section
variable {F : Type} (L : Library F)

def BackoffPolicy.nextDelay (policy : BackoffPolicy F) (retryCount : Nat) : Option F :=
  let attempt := max retryCount 1
  (L.timesPowerOfTwo policy.baseSeconds (attempt - 1)).map fun delay =>
    let delay := if L.lt delay policy.baseSeconds then policy.baseSeconds else delay
    if L.lt policy.capSeconds delay then policy.capSeconds else delay

/-- The instant of the next attempt; the other results only go to the log. -/
def Message.computeNextAvailableAt (message : Message) (policy : BackoffPolicy F)
    (r : Readings F) : Option DateTime :=
  (policy.nextDelay L message.retryCount).bind fun delay =>
    let targetMono := L.add r.monoBefore delay
    let remaining := L.sub targetMono r.monoAfter
    let remaining := if L.nonpositive remaining then policy.baseSeconds else remaining
    L.later r.wallAfter remaining

/-- `f"{code}:{exc}"[:256]` -/
def errorText (code text : String) : String := ((code ++ ":" ++ text).take 256).toString

def scheduleNext (policy : BackoffPolicy F) (message : Message) (text : Option String)
    (r : Readings F) : Except Raised Message :=
  let message := { message with retryCount := message.retryCount + 1 }
  if policy.maxRetries < message.retryCount then
    match text with
    | none => .error .unprintable
    | some text => .ok { message with
        status := .failed, lastError := some (errorText "MAX_RETRIES_REACHED" text) }
  else match message.computeNextAvailableAt L policy r with
    | none => .error .overflowError
    | some next => match text with
      | none => .error .unprintable
      | some text => .ok { message with
          availableAt := next, lastError := some (errorText "RETRYING" text) }

/-- `_extract_idempotency_key`: only what cannot be decoded counts as absent. -/
def extractIdempotencyKey (payloadJson : String) : Except Raised String :=
  match L.loads payloadJson with
  | .decodeError _ => .ok ""
  | .raises text => .error (.json text)
  | .value (.obj members) => .ok (((members.lookup "idempotency_key").map L.str).getD "")
  | .value _ => .error .attributeError

/-- One turn of the loop: the message as it leaves it, and whether it was published.
The headers are built before the `try`. -/
def dispatchMessage (policy : BackoffPolicy F) (message : Message) (r : Readings F) :
    Except Raised (Message × Bool) := do
  let key ← extractIdempotencyKey L message.payloadJson
  let headers := [("x-event-id", message.eventId), ("x-aggregate-id", message.aggregateId),
    ("x-idempotency-key", key)]
  match L.loads message.payloadJson with
  | .decodeError text | .raises text =>
    return (← scheduleNext L policy message (some text) r, false)
  | .value payload => match r.publish ⟨message.eventType, payload, headers⟩ with
    | .escapes => .error .escaped
    | .raises text => return (← scheduleNext L policy message text r, false)
    | .returns =>
      return ({ message with status := .sent, publishedAt := some r.wall, lastError := none },
        true)

def dispatchBatch (policy : BackoffPolicy F) (readings : String → Readings F) :
    List Message → Except Raised (List (Message × Bool))
  | [] => .ok []
  | message :: rest => do
    let done ← dispatchMessage L policy message (readings message.eventId)
    let others ← dispatchBatch policy readings rest
    return done :: others

end

/-- `list_due_for_update`. Rows that become due at one instant come in table order. -/
def listDueForUpdate (table : List Message) (now : DateTime) (locked : String → Bool)
    (limit : Nat) : List Message :=
  let due := table.filter fun m =>
    m.status == .pending && m.availableAt.instant ≤ now.instant && !locked m.eventId
  ((Sorting.stableSort (due.map fun m => (m.availableAt.instant, m))).map Prod.snd).take limit

structure OutboxDispatcher (F : Type) where
  backoff : BackoffPolicy F
  batchSize : Nat := 50

def flush (changed : List (Message × Bool)) (table : List Message) : List Message :=
  table.map fun row => match changed.find? (·.1.eventId == row.eventId) with
    | some (message, _) => message
    | none => row

/-- `dispatch_once`: the table its commit leaves and the number of messages published.
An exception ends it before the commit. -/
def OutboxDispatcher.dispatchOnce {F : Type} (L : Library F) (D : OutboxDispatcher F)
    (s : Surroundings F) (table : List Message) : Except Raised (List Message × Nat) := do
  let batch := listDueForUpdate table s.now s.locked D.batchSize
  let done ← dispatchBatch L D.backoff s.readings batch
  return (flush done table, done.countP (·.2))

end Outbox
