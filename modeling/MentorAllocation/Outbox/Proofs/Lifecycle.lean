import MentorAllocation.Concurrency.Run
import MentorAllocation.Outbox.Proofs.Turns

namespace Outbox
open Text Allocation Concurrency

/-- One turn of the loop, as an observer notes it. -/
structure Attempt where
  eventId : String
  availableAt : DateTime
  /-- The clock as the query that chose the message read it. -/
  queriedAt : DateTime
  /-- The clock as the turn itself read it. -/
  wall : DateTime
  published : Bool
  deriving DecidableEq, Repr

/-- The committed table and every attempt made so far. -/
structure History where
  table : List Message
  attempts : List Attempt
  deriving DecidableEq, Repr

namespace History

def empty : History := ⟨[], []⟩

def of (h : History) (eventId : String) : List Attempt :=
  h.attempts.filter (·.eventId == eventId)

def successes (h : History) (eventId : String) : Nat := (h.of eventId).countP (·.published)

def failures (h : History) (eventId : String) : Nat := (h.of eventId).countP (!·.published)

end History

/-- What happens to an outbox: a new message is written to it, or a dispatcher's call
runs and commits. -/
inductive Event (F : Type) where
  | enqueue (message : Message)
  | dispatch (surroundings : Surroundings F)

section
variable {F : Type} (L : Library F) (D : OutboxDispatcher F)

def attempt (s : Surroundings F) (m : Message) : Attempt where
  eventId := m.eventId
  availableAt := m.availableAt
  queriedAt := s.now
  wall := (s.readings m.eventId).wall
  published := match dispatchMessage L D.backoff m (s.readings m.eventId) with
    | .ok (_, published) => published
    | .error _ => false

def next (h : History) : Event F → Option History
  | .enqueue m =>
    if m.status = .pending ∧ m.retryCount = 0 ∧ h.table.all (·.eventId != m.eventId) then
      some ⟨h.table ++ [m], h.attempts⟩
    else none
  | .dispatch s => match D.dispatchOnce L s h.table with
    | .ok (table, _) => some ⟨table, h.attempts ++ (D.batch s h.table).map (attempt L D s)⟩
    | .error _ => none

/-- Messages that are done with stay as they are and are not attempted again. -/
def Kept (h h' : History) : Prop :=
  ∀ m ∈ h.table, m.status ≠ .pending → m ∈ h'.table ∧ h'.of m.eventId = h.of m.eventId

/-- What one state says of retries and times, for a given number of retries and a given
notion of the time of an attempt. -/
structure Sound (retries : Int) (time : Attempt → DateTime) (h : History) : Prop where
  publishedOnce : ∀ eventId, h.successes eventId ≤ 1
  counted : ∀ m ∈ h.table, m.retryCount = h.failures m.eventId
  bounded : ∀ m ∈ h.table, (m.retryCount : Int) ≤ retries + 1
  failedExactly : ∀ m ∈ h.table,
    m.status = .failed ↔ (h.failures m.eventId : Int) = retries + 1
  timely : ∀ a ∈ h.attempts, a.availableAt.instant ≤ (time a).instant

structure Contract (retries : Int) (time : Attempt → DateTime)
    (trace : List (History × Event F)) (h : History) : Prop where
  terminal : (trace.map Prod.fst ++ [h]).Pairwise Kept
  sound : Throughout (Sound retries time) trace h

structure Tracked (policy : BackoffPolicy F) (h : History) (m : Message) : Prop where
  counted : m.retryCount = h.failures m.eventId
  state : match m.status with
    | .pending => h.successes m.eventId = 0 ∧ m.retryCount ≤ policy.allowed
    | .sent => h.successes m.eventId = 1 ∧ m.retryCount ≤ policy.allowed
    | .failed => h.successes m.eventId = 0 ∧ m.retryCount = policy.allowed + 1

structure Consistent (h : History) : Prop where
  distinct : Distinct h.table
  known : ∀ a ∈ h.attempts, ∃ m ∈ h.table, m.eventId = a.eventId
  tracked : ∀ m ∈ h.table, Tracked D.backoff h m
  timely : ∀ a ∈ h.attempts, a.availableAt.instant ≤ a.queriedAt.instant

end

section
variable {F : Type} {L : Library F} {D : OutboxDispatcher F} {h h' : History}

theorem consistent_empty : Consistent D History.empty := by
  constructor
  · exact List.nodup_nil
  · simp [History.empty]
  · simp [History.empty]
  · simp [History.empty]

/-- A call attempts each message of its batch once. -/
theorem batch_of {s : Surroundings F} {table : List Message} {m : Message}
    (hd : Distinct table) (hm : m ∈ table) :
    ((D.batch s table).map (attempt L D s)).filter (·.eventId == m.eventId) =
      if m ∈ D.batch s table then [attempt L D s m] else [] := by
  have hnodup : (D.batch s table).Nodup := (listDue_distinct hd).of_map
  have hfilter : (D.batch s table).filter (fun a => a.eventId == m.eventId) =
      (D.batch s table).filter (· == m) := by
    refine List.filter_congr fun a ha => ?_
    by_cases he : a = m
    · simp [he]
    · have hid : a.eventId ≠ m.eventId := fun hid =>
        he (hd.eq_of_id (listDue_mem ha).1 hm hid)
      simp [he, hid]
  rw [List.filter_map]
  change ((D.batch s table).filter fun a => a.eventId == m.eventId).map _ = _
  rw [hfilter, List.filter_beq, hnodup.count]
  split <;> simp

theorem Consistent.of_eq_nil (hc : Consistent D h) {eventId : String}
    (hno : ∀ m ∈ h.table, m.eventId ≠ eventId) : h.of eventId = [] := by
  refine List.filter_eq_nil_iff.mpr fun a ha he => ?_
  obtain ⟨m, hm, hid⟩ := hc.known a ha
  exact hno m hm (hid.trans (by simpa using he))

theorem Consistent.successes_le (hc : Consistent D h) (eventId : String) :
    h.successes eventId ≤ 1 := by
  by_cases hm : ∃ m ∈ h.table, m.eventId = eventId
  · obtain ⟨m, hm, rfl⟩ := hm
    have hs := (hc.tracked m hm).state
    split at hs <;> omega
  · have hnil := hc.of_eq_nil fun m hm' he => hm ⟨m, hm', he⟩
    simp [History.successes, hnil]

theorem Consistent.sound (hc : Consistent D h) :
    Sound (max D.backoff.maxRetries 0) (·.queriedAt) h := by
  have hallowed : (D.backoff.allowed : Int) = max D.backoff.maxRetries 0 := by
    unfold BackoffPolicy.allowed
    omega
  constructor
  · exact hc.successes_le
  · exact fun m hm => (hc.tracked m hm).counted
  · intro m hm
    have hs := (hc.tracked m hm).state
    rw [← hallowed]
    split at hs <;> omega
  · intro m hm
    obtain ⟨hcount, hs⟩ := hc.tracked m hm
    rw [← hallowed, ← hcount]
    cases hstatus : m.status with
    | pending =>
      simp only [hstatus] at hs
      simp only [reduceCtorEq, false_iff]
      omega
    | sent =>
      simp only [hstatus] at hs
      simp only [reduceCtorEq, false_iff]
      omega
    | failed =>
      simp only [hstatus] at hs
      simp only [true_iff]
      omega
  · exact hc.timely

/-- A turn carries a pending message on: published, failed once more, or given up. -/
theorem Tracked.turn {s : Surroundings F} {m m' : Message} {published : Bool}
    (ht : Tracked D.backoff h m) (hp : m.status = .pending)
    (hturn : dispatchMessage L D.backoff m (s.readings m.eventId) = .ok (m', published))
    (hof : h'.of m.eventId = h.of m.eventId ++ [attempt L D s m]) :
    Tracked D.backoff h' m' := by
  have hpublished : (attempt L D s m).published = published := by simp [attempt, hturn]
  have hid := dispatchMessage_eventId hturn
  obtain ⟨hcount, hs⟩ := ht
  simp only [hp] at hs
  unfold History.failures at hcount
  unfold History.successes at hs
  rcases dispatchMessage_cases hturn with ⟨rfl, rfl⟩ | ⟨rfl, text, hsched⟩
  · constructor
    · simp [History.failures, hof, List.countP_append, hpublished, hcount]
    · simp [History.successes, hof, List.countP_append, hpublished, hs]
  · rcases scheduleNext_cases hsched with ⟨hle, error, rfl⟩ | ⟨hlt, next, error, rfl⟩
    · constructor
      · simp [History.failures, hof, List.countP_append, hpublished, hcount]
      · simp only [History.successes, hof, List.countP_append, hs.1]
        simp [hpublished]
        omega
    · constructor
      · simp [History.failures, hof, List.countP_append, hpublished, hcount]
      · simp only [hp, History.successes, hof, List.countP_append, hs.1]
        simp [hpublished]
        omega

/-- What a committed call does, row by row: most stay, the messages of the batch have
one attempt more. -/
theorem dispatch_rows {s : Surroundings F} (hc : Consistent D h)
    (hn : next L D h (.dispatch s) = some h') :
    ∃ f : Message → Message, h'.table = h.table.map f ∧
      h'.attempts = h.attempts ++ (D.batch s h.table).map (attempt L D s) ∧
      ∀ m ∈ h.table, (f m).eventId = m.eventId ∧
        ((f m = m ∧ h'.of m.eventId = h.of m.eventId) ∨
          (m.status = .pending ∧ Tracked D.backoff h' (f m))) := by
  unfold next at hn
  cases hcall : D.dispatchOnce L s h.table with
  | error e => simp [hcall] at hn
  | ok x =>
    obtain ⟨table, n⟩ := x
    simp only [hcall, Option.some.injEq] at hn
    subst hn
    obtain ⟨f, rfl, hrows⟩ := dispatchOnce_cases hc.distinct hcall
    refine ⟨f, rfl, rfl, fun m hm => ?_⟩
    have hof : History.of ⟨h.table.map f, h.attempts ++ (D.batch s h.table).map (attempt L D s)⟩
        m.eventId = h.of m.eventId ++
          if m ∈ D.batch s h.table then [attempt L D s m] else [] := by
      rw [History.of, List.filter_append, batch_of hc.distinct hm]
      rfl
    rcases hrows m hm with ⟨hb, hf⟩ | ⟨hb, published, hturn⟩
    · rw [if_neg hb, List.append_nil] at hof
      exact ⟨by rw [hf], .inl ⟨hf, hof⟩⟩
    · rw [if_pos hb] at hof
      exact ⟨dispatchMessage_eventId hturn,
        .inr ⟨(listDue_mem hb).2.1, (hc.tracked m hm).turn (listDue_mem hb).2.1 hturn hof⟩⟩

theorem Tracked.of_eq {m : Message} (ht : Tracked D.backoff h m)
    (hof : h'.of m.eventId = h.of m.eventId) : Tracked D.backoff h' m := by
  obtain ⟨hcount, hs⟩ := ht
  constructor
  · simpa [History.failures, hof] using hcount
  · simpa [History.successes, hof] using hs

theorem next_enqueue {m : Message} (hn : next L D h (.enqueue m) = some h') :
    m.status = .pending ∧ m.retryCount = 0 ∧ (∀ row ∈ h.table, row.eventId ≠ m.eventId) ∧
      h' = ⟨h.table ++ [m], h.attempts⟩ := by
  simp only [next, List.all_eq_true, bne_iff_ne] at hn
  split at hn
  · rename_i hok
    exact ⟨hok.1, hok.2.1, hok.2.2, (Option.some.inj hn).symm⟩
  · cases hn

theorem next_consistent (hc : Consistent D h) {e : Event F} (hn : next L D h e = some h') :
    Consistent D h' := by
  cases e with
  | enqueue m =>
    obtain ⟨hp, hr, hnew, rfl⟩ := next_enqueue hn
    constructor
    · unfold Distinct
      rw [List.map_append, List.nodup_append]
      refine ⟨hc.distinct, List.nodup_singleton _, ?_⟩
      rintro a ha b hb rfl
      obtain ⟨row, hrow, rfl⟩ := List.mem_map.mp ha
      exact hnew row hrow (by simpa using hb)
    · intro a ha
      obtain ⟨row, hrow, hid⟩ := hc.known a ha
      exact ⟨row, List.mem_append_left _ hrow, hid⟩
    · intro row hrow
      rcases List.mem_append.mp hrow with hrow | hrow
      · exact (hc.tracked row hrow).of_eq rfl
      · obtain rfl := List.mem_singleton.mp hrow
        have hnil : h.of row.eventId = [] := hc.of_eq_nil hnew
        constructor
        · change row.retryCount = (h.of row.eventId).countP _
          simp [hnil, hr]
        · rw [hp]
          change (h.of row.eventId).countP _ = 0 ∧ _
          simp [hnil, hr]
    · exact hc.timely
  | dispatch s =>
    obtain ⟨f, htable, hattempts, hrows⟩ := dispatch_rows hc hn
    constructor
    · have hids : (h.table.map f).map (·.eventId) = h.table.map (·.eventId) := by
        rw [List.map_map]
        exact List.map_congr_left fun m hm => (hrows m hm).1
      unfold Distinct
      rw [htable, hids]
      exact hc.distinct
    · intro a ha
      rw [hattempts] at ha
      have hid : ∃ m ∈ h.table, m.eventId = a.eventId := by
        rcases List.mem_append.mp ha with ha | ha
        · exact hc.known a ha
        · obtain ⟨m, hm, rfl⟩ := List.mem_map.mp ha
          exact ⟨m, (listDue_mem hm).1, rfl⟩
      obtain ⟨m, hm, hid⟩ := hid
      exact ⟨f m, htable ▸ List.mem_map_of_mem hm, (hrows m hm).1.trans hid⟩
    · intro row hrow
      rw [htable] at hrow
      obtain ⟨m, hm, rfl⟩ := List.mem_map.mp hrow
      rcases (hrows m hm).2 with ⟨hf, hof⟩ | ⟨-, ht⟩
      · rw [hf]
        exact (hc.tracked m hm).of_eq hof
      · exact ht
    · intro a ha
      rw [hattempts] at ha
      rcases List.mem_append.mp ha with ha | ha
      · exact hc.timely a ha
      · obtain ⟨m, hm, rfl⟩ := List.mem_map.mp ha
        exact (listDue_mem hm).2.2

theorem next_kept (hc : Consistent D h) {e : Event F} (hn : next L D h e = some h') :
    Kept h h' := by
  cases e with
  | enqueue m =>
    obtain ⟨-, -, -, rfl⟩ := next_enqueue hn
    exact fun row hrow _ => ⟨List.mem_append_left _ hrow, rfl⟩
  | dispatch s =>
    obtain ⟨f, htable, -, hrows⟩ := dispatch_rows hc hn
    intro m hm hstatus
    rcases (hrows m hm).2 with ⟨hf, hof⟩ | ⟨hp, -⟩
    · exact ⟨htable ▸ List.mem_map.mpr ⟨m, hm, hf⟩, hof⟩
    · exact absurd hp hstatus

theorem Kept.trans {a b c : History} (hab : Kept a b) (hbc : Kept b c) : Kept a c := by
  intro m hm hstatus
  obtain ⟨hb, hof⟩ := hab m hm hstatus
  obtain ⟨hc, hof'⟩ := hbc m hb hstatus
  exact ⟨hc, hof'.trans hof⟩

end

def moment (n : Int) : DateTime := ⟨n, 2024, toString n⟩

/-- Whole seconds, and a parser that knows the empty object. -/
def plainLibrary : Library Int where
  loads text := if text == "\x7b\x7d" then .value (.obj []) else .decodeError "Expecting value"
  str _ := ""
  timesPowerOfTwo x n := some (x * 2 ^ n)
  add := (· + ·)
  sub := (· - ·)
  lt x y := x < y
  nonpositive x := x ≤ 0
  later wall x := some (moment (wall.instant + x))

def plainDispatcher (maxRetries : Int) : OutboxDispatcher Int where
  backoff := { baseSeconds := 1, capSeconds := 300, maxRetries }

def plainMessage : Message where
  eventId := "e1"
  aggregateType := "Allocation"
  aggregateId := "1"
  eventType := "MentorAssigned"
  payloadJson := "\x7b\x7d"
  occurredAt := moment 10
  availableAt := moment 10
  retryCount := 0
  status := .pending

/-- A call at second ten, whose turns read the clock at `wall`. -/
def plainCall (wall : Int) (publish : Publish) : Surroundings Int where
  now := moment 10
  locked _ := false
  readings _ := ⟨moment wall, fun _ => publish, 0, moment wall, 0, moment wall⟩

def plainEvents (wall : Int) (publish : Publish) : List (Event Int) :=
  [.enqueue plainMessage, .dispatch (plainCall wall publish)]

end Outbox
