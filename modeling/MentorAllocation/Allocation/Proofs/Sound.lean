import MentorAllocation.Allocation.Proofs.Ledger
import MentorAllocation.Concurrency.Protocol

namespace Allocation
open Concurrency

/-- The store between two statements: consistent tables, and flushed rows that are
announced, free of the committed keys and apart from each other. `Q` is what the calls
ensure of the records they write. -/
structure Sound {ι : Type} (P : Platform) (Q : AllocationRecord → Prop) (base : Database)
    (s : Store ι) : Prop where
  consistent : Consistent P s.db
  students : s.db.students = base.students
  mentors : s.db.mentors = base.mentors
  origin : ∀ r ∈ s.db.allocations, r ∈ base.allocations ∨ Q r
  announced : ∀ i row, (s.sessions i).pending = some row → Announces P row.2 row.1
  written : ∀ i row, (s.sessions i).pending = some row → Q row.1
  free : ∀ i row, (s.sessions i).pending = some row → s.db.violates row = false
  apart : ∀ i j, i ≠ j → ∀ a b, (s.sessions i).pending = some a →
    (s.sessions j).pending = some b → rowsClash a b = false

structure Database.Grows (a b : Database) : Prop where
  students : a.students = b.students
  mentors : a.mentors = b.mentors
  allocations : a.allocations <+: b.allocations
  outbox : a.outbox <+: b.outbox

theorem Database.Grows.refl (a : Database) : a.Grows a :=
  ⟨rfl, rfl, List.prefix_refl _, List.prefix_refl _⟩

theorem Database.Grows.trans {a b c : Database} (hab : a.Grows b) (hbc : b.Grows c) :
    a.Grows c :=
  ⟨hab.students.trans hbc.students, hab.mentors.trans hbc.mentors,
    hab.allocations.trans hbc.allocations, hab.outbox.trans hbc.outbox⟩

theorem Database.grows_insert (db : Database) (row : Row) : db.Grows (db.insert row) :=
  ⟨rfl, rfl, List.prefix_append _ _, List.prefix_append _ _⟩

section
variable {ι ω : Type} [DecidableEq ι] {P : Platform} {Q : AllocationRecord → Prop}
  {base : Database} {s t : Store ι} {i j : ι} {r : Statement}

theorem Store.apply_db_some {row : Row} (h : (s.sessions i).pending = some row) :
    (s.apply i).db = s.db.insert row := by
  simp [Store.apply, h]

theorem Store.apply_db_none (h : (s.sessions i).pending = none) : (s.apply i).db = s.db := by
  simp [Store.apply, h]

theorem Store.Effect.grows (h : Store.Effect i r s t) : s.db.Grows t.db := by
  cases h with
  | flush row _ _ _ result =>
    subst result
    exact .refl _
  | commit _ result =>
    subst result
    cases hp : (s.sessions i).pending with
    | none => exact Store.apply_db_none hp ▸ .refl _
    | some row => exact Store.apply_db_some hp ▸ s.db.grows_insert row
  | quiet db _ _ => exact db ▸ .refl _

theorem Store.Effect.others (h : Store.Effect i r s t) (hj : j ≠ i) :
    t.sessions j = s.sessions j := by
  cases h with
  | flush row _ _ _ result =>
    subst result
    exact setSession_other _ hj
  | commit _ result =>
    subst result
    exact apply_other hj
  | quiet _ others _ => exact others j hj

omit [DecidableEq ι] in
/-- Without new committed rows, fewer flushed rows are as sound as more. -/
theorem Sound.drop (h : Sound P Q base s) (hdb : t.db = s.db)
    (hp : ∀ j row, (t.sessions j).pending = some row → (s.sessions j).pending = some row) :
    Sound P Q base t where
  consistent := hdb ▸ h.consistent
  students := hdb ▸ h.students
  mentors := hdb ▸ h.mentors
  origin := hdb ▸ h.origin
  announced := fun j row hj => h.announced j row (hp j row hj)
  written := fun j row hj => h.written j row (hp j row hj)
  free := fun j row hj => hdb ▸ h.free j row (hp j row hj)
  apart := fun i j hij a b ha hb => h.apart i j hij a b (hp i a ha) (hp j b hb)

theorem Sound.flush {row : Row} (h : Sound P Q base s) (ha : Announces P row.2 row.1)
    (hq : Q row.1) (free : s.db.violates row = false)
    (apart : ∀ j ≠ i, ∀ other, (s.sessions j).pending = some other →
      rowsClash row other = false) :
    Sound P Q base (s.setSession i { s.sessions i with pending := some row }) := by
  have hcases : ∀ j other,
      ((s.setSession i { s.sessions i with pending := some row }).sessions j).pending =
        some other →
      (j = i ∧ other = row) ∨ (j ≠ i ∧ (s.sessions j).pending = some other) := by
    intro j other hj
    by_cases hji : j = i
    · subst hji
      simp only [Store.setSession_same, Option.some.injEq] at hj
      exact .inl ⟨rfl, hj.symm⟩
    · rw [Store.setSession_other _ hji] at hj
      exact .inr ⟨hji, hj⟩
  refine ⟨h.consistent, h.students, h.mentors, h.origin, ?_, ?_, ?_, ?_⟩
  · intro j other hj
    rcases hcases j other hj with ⟨_, rfl⟩ | ⟨_, hj⟩
    · exact ha
    · exact h.announced j other hj
  · intro j other hj
    rcases hcases j other hj with ⟨_, rfl⟩ | ⟨_, hj⟩
    · exact hq
    · exact h.written j other hj
  · intro j other hj
    rcases hcases j other hj with ⟨_, rfl⟩ | ⟨_, hj⟩
    · exact free
    · exact h.free j other hj
  · intro j k hjk a b hj hk
    rcases hcases j a hj with ⟨rfl, rfl⟩ | ⟨hji, hs⟩
    · rcases hcases k b hk with ⟨rfl, _⟩ | ⟨hki, hk⟩
      · exact absurd rfl hjk
      · exact apart k hki b hk
    · rcases hcases k b hk with ⟨rfl, rfl⟩ | ⟨_, hk⟩
      · rw [rowsClash_comm]
        exact apart j hji a hs
      · exact h.apart j k hjk a b hs hk

theorem Sound.commit (h : Sound P Q base s) : Sound P Q base (s.apply i) := by
  cases hp : (s.sessions i).pending with
  | none =>
    apply h.drop (Store.apply_db_none hp)
    intro j row hj
    by_cases hji : j = i
    · subst hji
      simp at hj
    · rwa [Store.apply_other hji] at hj
  | some row =>
    have hothers : ∀ j other, ((s.apply i).sessions j).pending = some other →
        j ≠ i ∧ (s.sessions j).pending = some other := by
      intro j other hj
      by_cases hji : j = i
      · subst hji
        simp at hj
      · rw [Store.apply_other hji] at hj
        exact ⟨hji, hj⟩
    have hdb := Store.apply_db_some hp
    refine ⟨?_, by rw [hdb]; exact h.students, by rw [hdb]; exact h.mentors, ?_, ?_, ?_, ?_, ?_⟩
    · rw [hdb]
      exact h.consistent.insert (h.announced i row hp) (h.free i row hp)
    · rw [hdb]
      intro r hr
      rcases List.mem_append.mp hr with hr | hr
      · exact h.origin r hr
      · rw [List.mem_singleton.mp hr]
        exact .inr (h.written i row hp)
    · intro j other hj
      exact h.announced j other (hothers j other hj).2
    · intro j other hj
      exact h.written j other (hothers j other hj).2
    · intro j other hj
      obtain ⟨hji, hj⟩ := hothers j other hj
      rw [hdb, Database.violates_insert]
      exact ⟨h.free j other hj, h.apart j i hji other row hj hp⟩
    · intro j k hjk a b hj hk
      exact h.apart j k hjk a b (hothers j a hj).2 (hothers k b hk).2

/-- Every statement keeps the store sound, provided the rows flushed are announced. -/
theorem Sound.step (h : Sound P Q base s) (he : Store.Effect i r s t)
    (hr : ∀ row, r = .flush row → Announces P row.2 row.1 ∧ Q row.1) : Sound P Q base t := by
  cases he with
  | flush row asked free apart result =>
    subst result
    obtain ⟨ha, hq⟩ := hr row asked
    exact h.flush ha hq free apart
  | commit _ result =>
    subst result
    exact h.commit
  | quiet db others own =>
    apply h.drop db
    intro j row hj
    by_cases hji : j = i
    · subst hji
      rcases own with own | own
      · rwa [own] at hj
      · simp [own] at hj
    · rwa [others j hji] at hj

omit [DecidableEq ι] in
/-- No transaction is open at the start. -/
theorem Sound.initial {db : Database} (h : Consistent P db) :
    Sound P Q db ({ db, sessions := fun _ => {} } : Store ι) where
  consistent := h
  students := rfl
  mentors := rfl
  origin := fun _ hr => .inl hr
  announced := by simp
  written := by simp
  free := by simp
  apart := by simp

/-- The calls of `allocate` as threads of a protocol. What one call may count on is
that committed rows stay and that its own transaction is left alone. -/
def ledger [Fintype ι] (E : Environment ω) (P : Platform) (Q : AllocationRecord → Prop)
    (base : Database) (allowed : Choice ω → ι → Statement → Store ι → Prop) :
    Protocol (Choice ω) ι (Store ι) Statement Answer where
  answer := Store.answer E
  inv := Sound P Q base
  rely i s t := s.db.Grows t.db ∧ t.sessions i = s.sessions i
  allowed
  rely_refl _ s := ⟨.refl s.db, rfl⟩
  rely_trans _ _ _ _ h k := ⟨h.1.trans k.1, k.2.trans h.2⟩

end

end Allocation
