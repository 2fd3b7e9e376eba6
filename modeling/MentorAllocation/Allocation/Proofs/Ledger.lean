import Mathlib.Data.List.Pairwise
import MentorAllocation.Allocation.Backend

namespace Allocation

/-- The committed tables: rows with distinct keys, each record announced by a message
of its own and each assignment message grounded in a record. -/
structure Consistent (P : Platform) (db : Database) : Prop where
  records : db.allocations.Pairwise (fun a b => a.clashes b = false)
  messages : db.outbox.Pairwise (fun a b => a.clashes b = false)
  announced : ∀ r ∈ db.allocations, ∃ m ∈ db.outbox, Announces P m r
  grounded : ∀ m ∈ db.outbox, m.eventType = "MentorAssigned" →
    ∃ r ∈ db.allocations, Announces P m r

theorem AllocationRecord.clashes_comm (a b : AllocationRecord) : a.clashes b = b.clashes a := by
  simp only [clashes, Bool.beq_comm (a := a.allocationId), Bool.beq_comm (a := a.allocationCode),
    Bool.beq_comm (a := a.idempotencyKey), Bool.beq_comm (a := a.studentId),
    Bool.beq_comm (a := a.yearCode)]

theorem OutboxMessageModel.clashes_comm (a b : OutboxMessageModel) :
    a.clashes b = b.clashes a := by
  simp only [clashes, Bool.beq_comm (a := a.eventId)]

theorem rowsClash_comm (a b : Row) : rowsClash a b = rowsClash b a := by
  simp only [rowsClash, AllocationRecord.clashes_comm a.1, OutboxMessageModel.clashes_comm a.2]

theorem Database.violates_eq_false {db : Database} {row : Row} :
    db.violates row = false ↔ (∀ r ∈ db.allocations, row.1.clashes r = false) ∧
      ∀ m ∈ db.outbox, row.2.clashes m = false := by
  simp only [violates, Bool.or_eq_false_iff, List.any_eq_false, Bool.not_eq_true]

theorem Database.violates_insert {db : Database} {row other : Row} :
    (db.insert row).violates other = false ↔
      db.violates other = false ∧ rowsClash other row = false := by
  simp only [violates, insert, rowsClash, List.any_append, List.any_cons, List.any_nil,
    Bool.or_false, Bool.or_eq_false_iff]
  tauto

/-- Two committed records that share a key are the same. -/
theorem Consistent.unique {P : Platform} {db : Database} (h : Consistent P db)
    {a b : AllocationRecord} (ha : a ∈ db.allocations) (hb : b ∈ db.allocations)
    (hc : a.clashes b = true) : a = b := by
  have symm : Std.Symm (fun a b : AllocationRecord => a.clashes b = false) :=
    ⟨fun a b h => by rwa [AllocationRecord.clashes_comm]⟩
  by_contra hne
  have := h.records.forall ha hb hne
  simp [hc] at this

/-- An announced row that breaks no key keeps the tables consistent. -/
theorem Consistent.insert {P : Platform} {db : Database} {row : Row} (h : Consistent P db)
    (hr : Announces P row.2 row.1) (hv : db.violates row = false) :
    Consistent P (db.insert row) := by
  obtain ⟨hrecords, hmessages⟩ := Database.violates_eq_false.mp hv
  constructor
  · apply List.pairwise_append.mpr
    refine ⟨h.records, List.pairwise_singleton _ _, ?_⟩
    intro a ha b hb
    rw [List.mem_singleton.mp hb, AllocationRecord.clashes_comm]
    exact hrecords a ha
  · apply List.pairwise_append.mpr
    refine ⟨h.messages, List.pairwise_singleton _ _, ?_⟩
    intro a ha b hb
    rw [List.mem_singleton.mp hb, OutboxMessageModel.clashes_comm]
    exact hmessages a ha
  · intro r hm
    rcases List.mem_append.mp hm with hm | hm
    · obtain ⟨m, hmo, ha⟩ := h.announced r hm
      exact ⟨m, List.mem_append_left _ hmo, ha⟩
    · rw [List.mem_singleton.mp hm]
      exact ⟨row.2, by simp [Database.insert], hr⟩
  · intro m hm ht
    rcases List.mem_append.mp hm with hm | hm
    · obtain ⟨r, hro, ha⟩ := h.grounded m hm ht
      exact ⟨r, List.mem_append_left _ hro, ha⟩
    · rw [List.mem_singleton.mp hm]
      exact ⟨row.1, by simp [Database.insert], hr⟩

namespace Store
variable {ι ω : Type} [DecidableEq ι] {s t : Store ι} {i j : ι}

@[simp] theorem setSession_db (session : Session) : (s.setSession i session).db = s.db := rfl

@[simp] theorem setSession_same (session : Session) :
    (s.setSession i session).sessions i = session := by
  simp [setSession]

theorem setSession_other (session : Session) (hj : j ≠ i) :
    (s.setSession i session).sessions j = s.sessions j := by
  simp [setSession, hj]

@[simp] theorem release_db : (s.release i).db = s.db := rfl

@[simp] theorem release_same : (s.release i).sessions i = {} := setSession_same {}

@[simp] theorem apply_same : (s.apply i).sessions i = {} := setSession_same {}

theorem apply_other (hj : j ≠ i) : (s.apply i).sessions j = s.sessions j :=
  setSession_other {} hj

/-- What one statement of `i` can do to the store: flush a row, commit the flushed row,
or neither; in the last case it may still drop the flushed row or take a lock. -/
inductive Effect (i : ι) (r : Statement) (s t : Store ι) : Prop where
  | flush (row : Row) (asked : r = .flush row) (free : s.db.violates row = false)
      (apart : ∀ j ≠ i, ∀ other, (s.sessions j).pending = some other → rowsClash row other = false)
      (result : t = s.setSession i { s.sessions i with pending := some row })
  | commit (asked : r = .commit) (result : t = s.apply i)
  | quiet (db : t.db = s.db) (others : ∀ j ≠ i, t.sessions j = s.sessions j)
      (own : (t.sessions i).pending = (s.sessions i).pending ∨ (t.sessions i).pending = none)

theorem quiet_self {r : Statement} : Effect i r s s := .quiet rfl (fun _ _ => rfl) (.inl rfl)

theorem quiet_release {r : Statement} : Effect i r s (s.release i) :=
  .quiet rfl (fun _ hj => setSession_other {} hj) (.inr (by simp))

theorem answer_effect [Fintype ι] {E : Environment ω} {ch : Choice ω} {r : Statement}
    {x : Answer r} (h : Store.answer E ch i r s = some (x, t)) : Effect i r s t := by
  cases r with
  | openSession | rollback | close =>
    cases h
    exact quiet_release
  | evaluate student mentor request =>
    cases h
    exact quiet_self
  | now =>
    cases h
    exact quiet_self
  | getByIdempotencyKey key =>
    simp only [answer] at h
    split at h <;> cases h <;> exact quiet_self
  | getByStudentYear studentId yearCode =>
    simp only [answer] at h
    split at h <;> cases h <;> exact quiet_self
  | nextIdentifiers student mentor =>
    simp only [answer] at h
    split at h <;> cases h <;> exact quiet_self
  | getMentorForUpdate mentorId =>
    simp only [answer] at h
    split at h
    · cases h
      exact quiet_self
    · split at h
      · cases h
        exact quiet_self
      · split at h
        · cases h
        · cases h
          exact .quiet rfl (fun _ hj => setSession_other _ hj) (.inl (by simp))
  | getStudentForUpdate studentId =>
    simp only [answer] at h
    split at h
    · cases h
      exact quiet_self
    · split at h
      · cases h
        exact quiet_self
      · split at h
        · cases h
        · cases h
          exact .quiet rfl (fun _ hj => setSession_other _ hj) (.inl (by simp))
  | flush row =>
    simp only [answer] at h
    split at h
    · cases h
      exact quiet_self
    · split at h
      · cases h
        exact quiet_self
      · rename_i hv
        split at h
        · cases h
        · rename_i hc
          cases h
          refine .flush row rfl (by simpa using hv) ?_ rfl
          intro j hj other ho
          by_contra hclash
          exact hc ⟨j, hj, by simpa [ho] using hclash⟩
  | commit =>
    simp only [answer] at h
    split at h <;> cases h
    · exact quiet_release
    · exact quiet_release
    · exact .commit rfl rfl
    · exact .commit rfl rfl

end Store

end Allocation
