import MentorAllocation.Outbox.Dispatcher

namespace Outbox
open Text Allocation

section
variable {F : Type} {L : Library F} {policy : BackoffPolicy F} {m m' : Message}
  {r : Readings F}

/-- Failures a message may have before it is given up: none for a negative bound. -/
def BackoffPolicy.allowed (policy : BackoffPolicy F) : Nat := policy.maxRetries.toNat

theorem lt_retry_iff (n : Nat) :
    policy.maxRetries < ((n + 1 : Nat) : Int) ↔ policy.allowed ≤ n := by
  unfold BackoffPolicy.allowed
  omega

/-- A failure counts once more, and gives up or sets the time of another attempt. -/
theorem scheduleNext_cases {text : Option String}
    (h : scheduleNext L policy m text r = .ok m') :
    (policy.allowed ≤ m.retryCount ∧ ∃ error, m' = { m with
      retryCount := m.retryCount + 1, status := .failed, lastError := some error }) ∨
    (m.retryCount < policy.allowed ∧ ∃ next error, m' = { m with
      retryCount := m.retryCount + 1, availableAt := next, lastError := some error }) := by
  unfold scheduleNext at h
  simp only [lt_retry_iff] at h
  split at h
  · rename_i hle
    cases text with
    | none => cases h
    | some text =>
      cases h
      exact .inl ⟨hle, _, rfl⟩
  · rename_i hlt
    split at h
    · cases h
    · cases text with
      | none => cases h
      | some text =>
        cases h
        exact .inr ⟨Nat.lt_of_not_le hlt, _, _, rfl⟩

theorem rescheduled_ok {x : Except Raised Message} {published : Bool} :
    (x >>= fun y => pure (y, false) : Except Raised (Message × Bool)) = .ok (m', published) ↔
      published = false ∧ x = .ok m' := by
  cases x with
  | error e => simp [bind, Except.bind]
  | ok y => simp [bind, Except.bind, pure, Except.pure, and_comm, eq_comm]

/-- All that a turn of the loop can do to a message. -/
theorem dispatchMessage_cases {published : Bool}
    (h : dispatchMessage L policy m r = .ok (m', published)) :
    (published = true ∧
      m' = { m with status := .sent, publishedAt := some r.wall, lastError := none }) ∨
    (published = false ∧ ∃ text, scheduleNext L policy m text r = .ok m') := by
  unfold dispatchMessage at h
  cases hkey : extractIdempotencyKey L m.payloadJson with
  | error e =>
    rw [hkey] at h
    cases h
  | ok key =>
    simp only [hkey, bind, Except.bind] at h
    cases hload : L.loads m.payloadJson with
    | decodeError text =>
      rw [hload] at h
      exact .inr ((rescheduled_ok.mp h).imp id fun hs => ⟨_, hs⟩)
    | raises text =>
      rw [hload] at h
      exact .inr ((rescheduled_ok.mp h).imp id fun hs => ⟨_, hs⟩)
    | value payload =>
      simp only [hload] at h
      split at h
      · cases h
      · exact .inr ((rescheduled_ok.mp h).imp id fun hs => ⟨_, hs⟩)
      · cases h
        exact .inl ⟨rfl, rfl⟩

theorem dispatchMessage_eventId {published : Bool}
    (h : dispatchMessage L policy m r = .ok (m', published)) : m'.eventId = m.eventId := by
  rcases dispatchMessage_cases h with ⟨-, rfl⟩ | ⟨-, text, hs⟩
  · rfl
  · rcases scheduleNext_cases hs with ⟨-, error, rfl⟩ | ⟨-, next, error, rfl⟩ <;> rfl

end

section
variable {F : Type} {L : Library F} {policy : BackoffPolicy F}
  {readings : String → Readings F}

theorem dispatchBatch_cons {m : Message} {batch : List Message} {done : List (Message × Bool)} :
    dispatchBatch L policy readings (m :: batch) = .ok done ↔
      ∃ d ds, dispatchMessage L policy m (readings m.eventId) = .ok d ∧
        dispatchBatch L policy readings batch = .ok ds ∧ done = d :: ds := by
  change (dispatchMessage L policy m (readings m.eventId) >>= fun d =>
    dispatchBatch L policy readings batch >>= fun ds => pure (d :: ds)) = _ ↔ _
  cases dispatchMessage L policy m (readings m.eventId) with
  | error e => simp [bind, Except.bind]
  | ok d =>
    cases dispatchBatch L policy readings batch with
    | error e => simp [bind, Except.bind]
    | ok ds => simp [bind, Except.bind, pure, Except.pure, eq_comm]

/-- The loop ends normally exactly when each of its turns does. -/
theorem dispatchBatch_ok_iff {batch : List Message} :
    (∃ done, dispatchBatch L policy readings batch = .ok done) ↔
      ∀ m ∈ batch, ∃ d, dispatchMessage L policy m (readings m.eventId) = .ok d := by
  induction batch with
  | nil => simp [dispatchBatch]
  | cons m batch ih =>
    simp only [dispatchBatch_cons, List.forall_mem_cons, ← ih]
    constructor
    · rintro ⟨_, d, ds, hd, hds, rfl⟩
      exact ⟨⟨d, hd⟩, ds, hds⟩
    · rintro ⟨⟨d, hd⟩, ds, hds⟩
      exact ⟨_, d, ds, hd, hds, rfl⟩

/-- What the loop leaves are the outcomes of its turns. -/
theorem dispatchBatch_mem {batch : List Message} {done : List (Message × Bool)}
    (h : dispatchBatch L policy readings batch = .ok done) :
    (∀ m ∈ batch, ∃ d ∈ done, dispatchMessage L policy m (readings m.eventId) = .ok d) ∧
      ∀ d ∈ done, ∃ m ∈ batch, dispatchMessage L policy m (readings m.eventId) = .ok d := by
  induction batch generalizing done with
  | nil =>
    cases h
    simp
  | cons m batch ih =>
    obtain ⟨d, ds, hd, hds, rfl⟩ := dispatchBatch_cons.mp h
    obtain ⟨hto, hfrom⟩ := ih hds
    constructor
    · intro a ha
      rcases List.mem_cons.mp ha with rfl | ha
      · exact ⟨d, List.mem_cons_self, hd⟩
      · obtain ⟨e, he, hea⟩ := hto a ha
        exact ⟨e, List.mem_cons_of_mem _ he, hea⟩
    · intro e he
      rcases List.mem_cons.mp he with rfl | he
      · exact ⟨m, List.mem_cons_self, hd⟩
      · obtain ⟨a, ha, hea⟩ := hfrom e he
        exact ⟨a, List.mem_cons_of_mem _ ha, hea⟩

end

section
variable {table batch : List Message} {now : DateTime} {locked : String → Bool} {limit : Nat}
  {m : Message}

/-- Event ids tell the rows of the table apart. -/
def Distinct (table : List Message) : Prop := (table.map (·.eventId)).Nodup

instance (table : List Message) : Decidable (Distinct table) :=
  inferInstanceAs (Decidable (List.Nodup _))

theorem Distinct.eq_of_id {m m' : Message} (h : Distinct table) (hm : m ∈ table)
    (hm' : m' ∈ table) (he : m.eventId = m'.eventId) : m = m' :=
  List.inj_on_of_nodup_map h hm hm' he

theorem listDue_mem (h : m ∈ listDueForUpdate table now locked limit) :
    m ∈ table ∧ m.status = .pending ∧ m.availableAt.instant ≤ now.instant := by
  have hsorted := List.mem_of_mem_take h
  simp only [Sorting.stableSort, List.mem_map, List.mem_insertionSort, List.mem_filter,
    Bool.and_eq_true, beq_iff_eq, decide_eq_true_eq] at hsorted
  obtain ⟨_, ⟨a, ⟨hm, ⟨hp, ha⟩, -⟩, rfl⟩, rfl⟩ := hsorted
  exact ⟨hm, hp, ha⟩

theorem listDue_distinct (h : Distinct table) :
    Distinct (listDueForUpdate table now locked limit) := by
  unfold Distinct listDueForUpdate
  refine List.Nodup.sublist ((List.take_sublist _ _).map _) ?_
  have hperm := (List.perm_insertionSort Sorting.ByKey
    ((table.filter fun m => m.status == .pending &&
      m.availableAt.instant ≤ now.instant && !locked m.eventId).map
      fun m => (m.availableAt.instant, m))).map Prod.snd
  refine ((hperm.map (·.eventId)).nodup_iff).mpr ?_
  simp only [List.map_map]
  exact List.Nodup.sublist (List.filter_sublist.map _) h

end

section
variable {F : Type} {L : Library F} {D : OutboxDispatcher F} {s : Surroundings F}
  {table table' : List Message} {n : Nat}

def OutboxDispatcher.batch (D : OutboxDispatcher F) (s : Surroundings F)
    (table : List Message) : List Message :=
  listDueForUpdate table s.now s.locked D.batchSize

theorem dispatchOnce_eq_ok :
    D.dispatchOnce L s table = .ok (table', n) ↔
      ∃ done, dispatchBatch L D.backoff s.readings (D.batch s table) = .ok done ∧
        table' = flush done table ∧ n = done.countP (·.2) := by
  change (dispatchBatch L D.backoff s.readings (D.batch s table) >>= fun done =>
    pure (flush done table, done.countP (·.2))) = _ ↔ _
  cases dispatchBatch L D.backoff s.readings (D.batch s table) with
  | error e => simp [bind, Except.bind]
  | ok done => simp [bind, Except.bind, pure, Except.pure, eq_comm]

/-- The row that a flush leaves for a message of the batch. -/
theorem flush_row (hd : Distinct table) {done : List (Message × Bool)} {m : Message}
    (h : dispatchBatch L D.backoff s.readings (D.batch s table) = .ok done) (hm : m ∈ table) :
    (m ∉ D.batch s table ∧ done.find? (·.1.eventId == m.eventId) = none) ∨
      (m ∈ D.batch s table ∧ ∃ d, done.find? (·.1.eventId == m.eventId) = some d ∧
        dispatchMessage L D.backoff m (s.readings m.eventId) = .ok d) := by
  obtain ⟨hto, hfrom⟩ := dispatchBatch_mem h
  have hown : ∀ d ∈ done, d.1.eventId = m.eventId →
      m ∈ D.batch s table ∧ dispatchMessage L D.backoff m (s.readings m.eventId) = .ok d := by
    intro d hdone he
    obtain ⟨a, ha, hturn⟩ := hfrom d hdone
    have hid : a.eventId = m.eventId := (dispatchMessage_eventId hturn).symm.trans he
    obtain rfl : a = m := hd.eq_of_id (listDue_mem ha).1 hm hid
    exact ⟨ha, hturn⟩
  cases hf : done.find? (·.1.eventId == m.eventId) with
  | none =>
    refine .inl ⟨fun hb => ?_, rfl⟩
    obtain ⟨d, hdone, hturn⟩ := hto m hb
    have hno := List.find?_eq_none.mp hf d hdone
    simp [dispatchMessage_eventId hturn] at hno
  | some d =>
    have he : d.1.eventId = m.eventId := by simpa using List.find?_some hf
    obtain ⟨hb, hturn⟩ := hown d (List.mem_of_find?_eq_some hf) he
    exact .inr ⟨hb, d, rfl, hturn⟩

/-- What a call that commits makes of the table, row by row. -/
theorem dispatchOnce_cases (hd : Distinct table)
    (h : D.dispatchOnce L s table = .ok (table', n)) :
    ∃ f : Message → Message, table' = table.map f ∧ ∀ m ∈ table,
      (m ∉ D.batch s table ∧ f m = m) ∨
        (m ∈ D.batch s table ∧ ∃ published,
          dispatchMessage L D.backoff m (s.readings m.eventId) = .ok (f m, published)) := by
  obtain ⟨done, hdone, rfl, -⟩ := dispatchOnce_eq_ok.mp h
  refine ⟨_, rfl, fun m hm => ?_⟩
  rcases flush_row hd hdone hm with ⟨hb, hf⟩ | ⟨hb, d, hf, hturn⟩
  · exact .inl ⟨hb, by rw [hf]⟩
  · exact .inr ⟨hb, d.2, by rw [hf]; exact hturn⟩

end

end Outbox
