import MentorAllocation.Allocation.Proofs.Sound

namespace Allocation
open Concurrency

/-- What a result may report: no allocation, or a known record with `Hit`, under the
event id of the call's key. -/
def Reports (P : Platform) (Hit : AllocationRecord → Prop) (key : String)
    (known : AllocationRecord → Prop) (result : AllocationResult) : Prop :=
  (result.allocationId = none ∧ result.outboxEventId = none) ∨
    ∃ r, known r ∧ Hit r ∧ result.allocationId = some r.allocationId ∧
      result.outboxEventId = some (deriveEventId P key)

theorem Reports.mono {P : Platform} {Hit : AllocationRecord → Prop} {key : String}
    {known known' : AllocationRecord → Prop} {result : AllocationResult}
    (h : Reports P Hit key known result) (hk : ∀ r, known r → known' r) :
    Reports P Hit key known' result := by
  rcases h with h | ⟨r, hr, h⟩
  · exact .inl h
  · exact .inr ⟨r, hk r hr, h⟩

theorem getByIdempotencyKey_some {db : Database} {key : String} {r : AllocationRecord}
    (h : db.getByIdempotencyKey key = some r) : r ∈ db.allocations ∧ r.idempotencyKey = key :=
  ⟨List.mem_of_find?_eq_some h, by simpa using List.find?_some h⟩

theorem getByStudentYear_some {db : Database} {studentId yearCode : String}
    {r : AllocationRecord} (h : db.getByStudentYear studentId yearCode = some r) :
    r ∈ db.allocations ∧ r.studentId = studentId ∧ r.yearCode = yearCode :=
  ⟨List.mem_of_find?_eq_some h, by simpa using List.find?_some h⟩

theorem getStudent_some {db : Database} {studentId : String} {student : StudentModel}
    (h : db.getStudent studentId = some student) : student.nationalId = studentId := by
  simpa using List.find?_some h

theorem getMentor_some {db : Database} {mentorId : Int} {mentor : MentorModel}
    (h : db.getMentor mentorId = some mentor) : mentor.mentorId = mentorId := by
  simpa using List.find?_some h

section
variable {ι ω : Type} [DecidableEq ι] [Fintype ι] {E : Environment ω} {P : Platform}
  {Q Hit : AllocationRecord → Prop} {base : Database}
  {allowed : Choice ω → ι → Statement → Store ι → Prop} {i : ι} {request : AllocationRequest}
  {key : String}

/-- What a call for `request` under `key` owes: the records it finds or writes have
`Hit`, and those it writes have `Q`. -/
structure Contract (E : Environment ω) (P : Platform) (Q Hit : AllocationRecord → Prop)
    (base : Database) (allowed : Choice ω → ι → Statement → Store ι → Prop) (i : ι)
    (request : AllocationRequest) (key : String) : Prop where
  found : ∀ s ch r, Sound P Q base s → allowed ch i (.getByIdempotencyKey key) s →
    ch.failure = none → s.db.getByIdempotencyKey key = some r → Hit r
  duplicate : ∀ s ch yearCode r, Sound P Q base s →
    allowed ch i (.getByStudentYear request.studentId yearCode) s →
    ch.failure = none → s.db.getByStudentYear request.studentId yearCode = some r → Hit r
  fresh : ∀ r : AllocationRecord, r.idempotencyKey = key → r.studentId = request.studentId → Hit r
  writes : ∀ world student mentor identifiers,
    base.getStudent request.studentId = some student →
    base.getMentor request.mentorId = some mentor →
    (E.policyEngine world student mentor request).approved = true →
    Q (newRecord request key student mentor (E.policyEngine world student mentor request)
      identifiers)

/-- A statement is safe when the row it flushes, if any, is announced. -/
theorem returns_execute {r : Statement} {post : Value r → Store ι → Prop} {s : Store ι}
    (hrow : ∀ row, r = .flush row → Announces P row.2 row.1 ∧ Q row.1)
    (hok : ∀ s₁ ch a s₂, s.db.Grows s₁.db → s₁.sessions i = s.sessions i → Sound P Q base s₁ →
      allowed ch i r s₁ → Store.answer E ch i r s₁ = some (.ok a, s₂) → post a s₂) :
    (ledger E P Q base allowed).Returns i post (execute r) s := by
  intro s₁ hr hi ch x s₂ ha hx
  have he := Store.answer_effect hx
  refine ⟨hi.step he hrow, fun j hj => ⟨he.grows, he.others hj⟩, ?_⟩
  cases x with
  | ok a =>
    intro b hb
    cases hb
    exact hok s₁ ch a s₂ hr.1 hr.2 hi ha hx
  | error e =>
    intro b hb
    cases hb

/-- The same for a statement whose value does not matter. -/
theorem returns_quiet {r : Statement} {s : Store ι} (hrow : ∀ row, r ≠ .flush row) :
    (ledger E P Q base allowed).Returns i (fun _ _ => True) (execute r) s :=
  returns_execute (fun row h => absurd h (hrow row)) (fun _ _ _ _ _ _ _ _ _ => trivial)

/-- Reads leave the store as it is. -/
theorem answer_getByIdempotencyKey {ch : Choice ω} {s t : Store ι}
    {v : Option AllocationRecord}
    (h : Store.answer E ch i (.getByIdempotencyKey key) s = some (.ok v, t)) :
    ch.failure = none ∧ v = s.db.getByIdempotencyKey key ∧ t = s := by
  simp only [Store.answer] at h
  split at h
  · cases h
  · cases h
    exact ⟨by assumption, rfl, rfl⟩

theorem answer_getByStudentYear {ch : Choice ω} {s t : Store ι} {studentId yearCode : String}
    {v : Option AllocationRecord}
    (h : Store.answer E ch i (.getByStudentYear studentId yearCode) s = some (.ok v, t)) :
    ch.failure = none ∧ v = s.db.getByStudentYear studentId yearCode ∧ t = s := by
  simp only [Store.answer] at h
  split at h
  · cases h
  · cases h
    exact ⟨by assumption, rfl, rfl⟩

theorem answer_getMentorForUpdate {ch : Choice ω} {s t : Store ι} {mentorId : Int}
    {mentor : MentorModel}
    (h : Store.answer E ch i (.getMentorForUpdate mentorId) s = some (.ok (some mentor), t)) :
    s.db.getMentor mentorId = some mentor := by
  simp only [Store.answer] at h
  split at h
  · cases h
  · split at h
    · cases h
    · split at h
      · cases h
      · cases h
        assumption

theorem answer_getStudentForUpdate {ch : Choice ω} {s t : Store ι} {studentId : String}
    {student : StudentModel}
    (h : Store.answer E ch i (.getStudentForUpdate studentId) s = some (.ok (some student), t)) :
    s.db.getStudent studentId = some student := by
  simp only [Store.answer] at h
  split at h
  · cases h
  · split at h
    · cases h
    · split at h
      · cases h
      · cases h
        assumption

theorem answer_flush {ch : Choice ω} {s t : Store ι} {row : Row} {u : Unit}
    (h : Store.answer E ch i (.flush row) s = some (.ok u, t)) :
    (t.sessions i).pending = some row := by
  simp only [Store.answer] at h
  split at h
  · cases h
  · split at h
    · cases h
    · split at h
      · cases h
      · cases h
        simp

theorem answer_commit {ch : Choice ω} {s t : Store ι} {u : Unit}
    (h : Store.answer E ch i .commit s = some (.ok u, t)) : t = s.apply i := by
  simp only [Store.answer] at h
  split at h <;> cases h
  rfl

/-- The outcome of a body: what it reports is committed, or flushed and not skipped. -/
def bodyPost (P : Platform) (Hit : AllocationRecord → Prop) (key : String) (i : ι)
    (out : AllocationResult × Bool) (s : Store ι) : Prop :=
  Reports P Hit key (fun r => r ∈ s.db.allocations ∨
    (out.2 = false ∧ ∃ m, (s.sessions i).pending = some (r, m))) out.1

omit [DecidableEq ι] [Fintype ι] in
theorem bodyPost_refused {s : Store ι} {key' status message errorCode : String} :
    bodyPost P Hit key i (refused key' status message errorCode, false) s :=
  .inl ⟨rfl, rfl⟩

omit [DecidableEq ι] [Fintype ι] in
theorem bodyPost_duplicate {s : Store ι} {r : AllocationRecord} {message : String} {skip : Bool}
    (hr : r ∈ s.db.allocations) (hh : Hit r) :
    bodyPost P Hit key i (alreadyAssigned P r key message, skip) s :=
  .inr ⟨r, .inl hr, hh, rfl, rfl⟩

theorem returns_getByIdempotencyKey {s : Store ι}
    (c : Contract E P Q Hit base allowed i request key) :
    (ledger E P Q base allowed).Returns i
      (fun v s => ∀ r, v = some r → r ∈ s.db.allocations ∧ Hit r)
      (execute (.getByIdempotencyKey key)) s := by
  apply returns_execute (by simp)
  intro s₁ ch v s₂ _ _ hs ha hx r hr
  obtain ⟨hf, rfl, rfl⟩ := answer_getByIdempotencyKey hx
  exact ⟨(getByIdempotencyKey_some hr).1, c.found _ ch r hs ha hf hr⟩

theorem returns_getByStudentYear {s : Store ι} {yearCode : String}
    (c : Contract E P Q Hit base allowed i request key) :
    (ledger E P Q base allowed).Returns i
      (fun v s => ∀ r, v = some r → r ∈ s.db.allocations ∧ Hit r)
      (execute (.getByStudentYear request.studentId yearCode)) s := by
  apply returns_execute (by simp)
  intro s₁ ch v s₂ _ _ hs ha hx r hr
  obtain ⟨hf, rfl, rfl⟩ := answer_getByStudentYear hx
  exact ⟨(getByStudentYear_some hr).1, c.duplicate _ ch yearCode r hs ha hf hr⟩

theorem returns_insertRows {s : Store ι} {record : AllocationRecord} (hq : Q record) :
    (ledger E P Q base allowed).Returns i
      (fun _ s => ∃ m, (s.sessions i).pending = some (record, m)) (insertRows P record) s := by
  refine (returns_quiet (by simp)).bind ?_
  intro now s _
  cases hm : (allocationEvent P record now).toModel with
  | error message => exact .raise
  | ok message =>
    apply returns_execute
    · intro row hrow
      cases hrow
      exact ⟨toModel_announces hm, hq⟩
    · intro s₁ ch u s₂ _ _ _ _ hx
      exact ⟨message, answer_flush hx⟩

theorem returns_resolveConflict {s : Store ι} {record : AllocationRecord}
    (c : Contract E P Q Hit base allowed i request key)
    (hkey : record.idempotencyKey = key) (hstudent : record.studentId = request.studentId) :
    (ledger E P Q base allowed).Returns i (bodyPost P Hit key i)
      (resolveConflict P record) s := by
  subst hkey
  refine (returns_quiet (by simp)).bind fun _ s _ => ?_
  refine (returns_getByIdempotencyKey c).bind fun v s hv => ?_
  cases v with
  | some r => exact .ok (bodyPost_duplicate (hv r rfl).1 (hv r rfl).2)
  | none =>
    simp only
    split
    · exact .raise
    · rw [hstudent]
      refine (returns_getByStudentYear c).bind fun v s hv => ?_
      cases v with
      | some r => exact .ok (bodyPost_duplicate (hv r rfl).1 (hv r rfl).2)
      | none => exact .raise

theorem returns_recordAllocation {s : Store ι} {record : AllocationRecord}
    (c : Contract E P Q Hit base allowed i request key) (hq : Q record)
    (hkey : record.idempotencyKey = key) (hstudent : record.studentId = request.studentId) :
    (ledger E P Q base allowed).Returns i (bodyPost P Hit key i)
      (recordAllocation P record) s := by
  refine (returns_insertRows hq).handle ?_ ?_
  · rintro _ s ⟨m, hm⟩
    exact .ok (.inr ⟨record, .inr ⟨rfl, m, hm⟩, c.fresh record hkey hstudent, rfl, by
      rw [← hkey]; rfl⟩)
  · intro e s
    unfold recover
    split
    · exact returns_resolveConflict c hkey hstudent
    · exact .raise

theorem returns_assign {s : Store ι} {dryRun : Bool} {mentor : MentorModel}
    {student : StudentModel} (c : Contract E P Q Hit base allowed i request key)
    (hm : base.getMentor request.mentorId = some mentor)
    (hs : base.getStudent request.studentId = some student) :
    (ledger E P Q base allowed).Returns i (bodyPost P Hit key i)
      (assign P request dryRun key mentor student) s := by
  apply Protocol.Returns.bind
    (M := fun verdict _ => ∃ world, verdict = E.policyEngine world student mentor request)
  · apply returns_execute (by simp)
    intro s₁ ch verdict s₂ _ _ _ _ hx
    cases hx
    exact ⟨ch.world, rfl⟩
  · rintro _ s ⟨world, rfl⟩
    split
    · exact .ok bodyPost_refused
    · rename_i ha
      split
      · exact .ok (.inl ⟨rfl, rfl⟩)
      · refine (returns_quiet (by simp)).bind fun identifiers s _ => ?_
        exact returns_recordAllocation c
          (c.writes world student mentor identifiers hs hm (by simpa using ha)) rfl
          (getStudent_some hs)

theorem returns_executeBody {s : Store ι} {dryRun : Bool}
    (c : Contract E P Q Hit base allowed i request key) :
    (ledger E P Q base allowed).Returns i (bodyPost P Hit key i)
      (executeBody P request dryRun key) s := by
  refine (returns_getByIdempotencyKey c).bind fun v s hv => ?_
  cases v with
  | some r => exact .ok (bodyPost_duplicate (hv r rfl).1 (hv r rfl).2)
  | none =>
    apply Protocol.Returns.bind
      (M := fun v _ => ∀ m, v = some m → base.getMentor request.mentorId = some m)
    · apply returns_execute (by simp)
      intro s₁ ch v s₂ _ _ hs _ hx m hv
      subst hv
      rw [← answer_getMentorForUpdate hx]
      simp only [Database.getMentor, hs.mentors]
    · intro v s hm
      cases v with
      | none => exact .ok bodyPost_refused
      | some mentor =>
        apply Protocol.Returns.bind
          (M := fun v _ => ∀ m, v = some m → base.getStudent request.studentId = some m)
        · apply returns_execute (by simp)
          intro s₁ ch v s₂ _ _ hs _ hx m hv
          subst hv
          rw [← answer_getStudentForUpdate hx]
          simp only [Database.getStudent, hs.students]
        · intro v s hs
          cases v with
          | none => exact .ok bodyPost_refused
          | some student => exact returns_assign c (hm mentor rfl) (hs student rfl)

/-- The outcome of a call: what it reports is committed. -/
def callPost (P : Platform) (Hit : AllocationRecord → Prop) (key : String)
    (result : AllocationResult) (s : Store ι) : Prop :=
  Reports P Hit key (· ∈ s.db.allocations) result

theorem returns_ensuring {α : Type} {s : Store ι} {p : Tx α} {q : Tx Unit}
    {post : α → Store ι → Prop}
    (hp : (ledger E P Q base allowed).Returns i post p s)
    (hq : ∀ a s, post a s → (ledger E P Q base allowed).Returns i (fun _ s => post a s) q s)
    (hq' : ∀ s, (ledger E P Q base allowed).Returns i (fun _ _ => True) q s) :
    (ledger E P Q base allowed).Returns i post (ensuring p q) s := by
  refine hp.handle ?_ ?_
  · intro a s ha
    exact (hq a s ha).bind fun _ s hs => .ok hs
  · intro e s
    exact (hq' s).bind fun _ s _ => .raise

theorem returns_executeOnce {s : Store ι} {dryRun : Bool}
    (c : Contract E P Q Hit base allowed i request (request.idempotencyKey P)) :
    (ledger E P Q base allowed).Returns i (callPost P Hit (request.idempotencyKey P))
      (executeOnce P request dryRun) s := by
  refine (returns_quiet (by simp)).bind fun _ s _ => ?_
  refine (returns_executeBody c).handle ?_ ?_
  · rintro ⟨result, skip⟩ s hb
    apply Protocol.Returns.bind (M := fun _ s => callPost P Hit (request.idempotencyKey P) result s)
    · apply returns_ensuring
      · cases skip with
        | true =>
          apply Protocol.Returns.ok
          apply hb.mono
          simp
        | false =>
          apply Protocol.Returns.handle
            (M := fun _ s => callPost P Hit (request.idempotencyKey P) result s)
          · apply returns_execute (by simp)
            intro s₁ ch u s₂ hg hp _ _ hx
            rw [answer_commit hx]
            apply hb.mono
            rintro r (hr | ⟨_, m, hm⟩)
            · have hr := hg.allocations.subset hr
              cases hq : (s₁.sessions i).pending with
              | none => rwa [Store.apply_db_none hq]
              | some row => exact Store.apply_db_some hq ▸ List.mem_append_left _ hr
            · rw [Store.apply_db_some ((congrArg Session.pending hp).trans hm)]
              simp [Database.insert]
          · exact fun _ s h => .ok h
          · exact fun e s => (returns_quiet (by simp)).bind fun _ s _ => .raise
      · intro _ s hs
        apply returns_execute (by simp)
        intro s₁ ch u s₂ hg _ _ _ hx
        cases hx
        exact hs.mono fun r hr => hg.allocations.subset hr
      · exact fun s => returns_quiet (by simp)
    · exact fun _ s hs => .ok hs
  · intro e s
    refine Protocol.Returns.bind (M := fun _ _ => True) ?_ fun _ s _ => .raise
    exact returns_ensuring (returns_quiet (by simp)) (fun _ s _ => returns_quiet (by simp))
      (fun s => returns_quiet (by simp))

/-- Whatever is retried, a call reports only what is committed. -/
theorem returns_allocate {s : Store ι} {maxRetries : Nat} {dryRun : Bool}
    (c : Contract E P Q Hit base allowed i request (request.idempotencyKey P)) :
    (ledger E P Q base allowed).Returns i (callPost P Hit (request.idempotencyKey P))
      (allocate P maxRetries request dryRun) s := by
  unfold allocate
  induction maxRetries generalizing s with
  | zero => exact returns_executeOnce c
  | succ n ih =>
    refine (returns_executeOnce c).handle (fun _ s h => .ok h) ?_
    intro e s
    split
    · exact ih
    · exact .raise

end

end Allocation
