import MentorAllocation.Allocation.Proofs.OutboxConsistency

namespace Allocation
open Concurrency

/-- One call alone on its database: the statements it has made so far are counted, and
those that raised an `OperationalError` are kept. -/
structure Solo where
  store : Store Unit
  position : Nat
  struck : List Statement

def Solo.start (db : Database) : Solo where
  store := { db, sessions := fun _ => {} }
  position := 0
  struck := []

/-- The statements struck so far, after `r` was answered by `x`. -/
def noteFailure (r : Statement) (x : Answer r) (struck : List Statement) : List Statement :=
  match x with
  | .error .operational => struck ++ [r]
  | _ => struck

/-- A schedule settles, for each statement in turn, the readings and whether it fails. -/
def Solo.answer {ω : Type} (E : Environment ω) (schedule : Nat → Choice ω) (r : Statement)
    (s : Solo) : Option (Answer r × Solo) :=
  (s.store.answer E (schedule s.position) () r).map fun xt =>
    (xt.1, ⟨xt.2, s.position + 1, noteFailure r xt.1 s.struck⟩)

def soloCall {ω : Type} (E : Environment ω) (P : Platform) (maxRetries : Nat)
    (request : AllocationRequest) (dryRun : Bool) (schedule : Nat → Choice ω) (db : Database) :
    Option (Except AllocateError AllocationResult × Solo) :=
  (allocate P maxRetries request dryRun).alone (Solo.answer E schedule) (.start db)

/-- The readings of a schedule from position `k` on, without its failures. -/
def calm {ω : Type} (schedule : Nat → Choice ω) (k : Nat) : Nat → Choice ω :=
  fun n => { world := (schedule (k + n)).world }

def Transient {ω : Type} (schedule : Nat → Choice ω) : Prop :=
  ∀ n, (schedule n).fault = .none ∨ (schedule n).fault = .operational

/-- What the outcome of a call must be: that of a call without failures after at most
`maxRetries` of them, and an exception without effect after more. -/
def Absorbed {ω : Type} (E : Environment ω) (P : Platform) (maxRetries : Nat)
    (request : AllocationRequest) (dryRun : Bool) (schedule : Nat → Choice ω) (db : Database)
    (x : Except AllocateError AllocationResult) (s : Solo) : Prop :=
  (s.struck.length ≤ maxRetries → ∃ k s',
    soloCall E P maxRetries request dryRun (calm schedule k) db = some (x, s') ∧
      s'.store.db = s.store.db) ∧
  (maxRetries < s.struck.length → (∃ e, x = .error e) ∧ s.store.db = db)

section
variable {ω α β : Type} {E : Environment ω} {P : Platform} {schedule : Nat → Choice ω}
  {r : Statement} {s t : Solo}

theorem noteFailure_of_ne {x : Answer r} (h : x ≠ .error .operational)
    (struck : List Statement) : noteFailure r x struck = struck := by
  unfold noteFailure
  split
  · exact absurd rfl h
  · rfl

/-- An outcome that neither the retry loop nor a failed commit produces. -/
def Regular (x : Except AllocateError α) : Prop :=
  ∀ e, x = .error e → e ≠ .database .operational ∧ ∀ message, e ≠ .unitOfWork message

theorem regular_ok (a : α) : Regular (.ok a : Except AllocateError α) := by
  intro e he
  cases he

theorem regular_value (message : String) :
    Regular (.error (.value message) : Except AllocateError α) := by
  intro e he
  cases he
  simp

theorem regular_database {e : DatabaseError} (h : e ≠ .operational) :
    Regular (.error (.database e) : Except AllocateError α) := by
  rintro _ ⟨⟩
  simpa using h

/-- The two ways a piece of a transaction ends: no statement failed and its outcome is
its own, or one statement failed, other than a commit, and its error is what leaves. -/
inductive Outcome (s t : Solo) (x : Except AllocateError α) : Prop where
  | calm (struck : t.struck = s.struck) (regular : Regular x)
  | struck (r : Statement) (other : r ≠ .commit) (struck : t.struck = s.struck ++ [r])
      (raised : x = .error (.database .operational))

theorem Outcome.after {u : Solo} {x : Except AllocateError α} (h : Outcome t u x)
    (ht : t.struck = s.struck) : Outcome s u x := by
  cases h with
  | calm struck regular => exact .calm (struck.trans ht) regular
  | struck r other struck raised => exact .struck r other (ht ▸ struck) raised

/-- A piece of a transaction that commits nothing and swallows no failure. -/
def Settles (E : Environment ω) (schedule : Nat → Choice ω) (p : Tx α) : Prop :=
  ∀ s, ∃ x t, Program.alone (Solo.answer E schedule) p s = some (x, t) ∧
    t.store.db = s.store.db ∧ Outcome s t x

theorem Settles.ret {x : Except AllocateError α} (h : Regular x) :
    Settles E schedule (Program.ret x) :=
  fun s => ⟨x, s, rfl, rfl, .calm rfl h⟩

theorem Settles.handle {p : Tx α} {f : α → Tx β} {h : AllocateError → Tx β}
    (hp : Settles E schedule p) (hok : ∀ a, Settles E schedule (f a))
    (herr : ∀ e, Regular (.error e : Except AllocateError α) → Settles E schedule (h e))
    (hop : h (.database .operational) = Fallible.raise (.database .operational)) :
    Settles E schedule (Fallible.handle p f h) := by
  intro s
  obtain ⟨x, t, hrun, hdb, hx⟩ := hp s
  rw [Fallible.alone_handle, hrun]
  simp only [Option.bind_some]
  cases hx with
  | calm struck regular =>
    cases x with
    | ok a =>
      obtain ⟨y, u, hrun', hdb', hy⟩ := hok a t
      exact ⟨y, u, hrun', hdb'.trans hdb, hy.after struck⟩
    | error e =>
      obtain ⟨y, u, hrun', hdb', hy⟩ := herr e regular t
      exact ⟨y, u, hrun', hdb'.trans hdb, hy.after struck⟩
  | struck r other struck raised =>
    subst raised
    simp only [hop]
    exact ⟨.error (.database .operational), t, rfl, hdb, .struck r other struck rfl⟩

theorem Settles.bind {p : Tx α} {f : α → Tx β} (hp : Settles E schedule p)
    (hf : ∀ a, Settles E schedule (f a)) : Settles E schedule (p >>= f) :=
  hp.handle hf (fun _ h => .ret fun e' he' => h e' (by cases he'; rfl)) rfl

/-- Alone, a call never waits. -/
theorem answer_alone (ch : Choice ω) (r : Statement) (s : Store Unit) :
    ∃ x t, Store.answer E ch () r s = some (x, t) := by
  cases r <;> simp only [Store.answer] <;> repeat' split
  all_goals simp_all

theorem settles_execute (h : r ≠ .commit) : Settles E schedule (execute r) := by
  intro s
  obtain ⟨x, t, hx⟩ := answer_alone (E := E) (schedule s.position) r s.store
  have hdb : t.db = s.store.db := by
    cases Store.answer_effect hx with
    | flush row _ _ _ result => exact result ▸ rfl
    | commit asked _ => exact absurd asked h
    | quiet db _ _ => exact db
  simp only [execute, Program.alone, Solo.answer, hx, Option.map_some, Option.bind_some]
  cases x with
  | ok a => exact ⟨_, _, rfl, hdb, .calm rfl (regular_ok a)⟩
  | error e =>
    cases e with
    | operational => exact ⟨_, _, rfl, hdb, .struck r h rfl rfl⟩
    | integrity => exact ⟨_, _, rfl, hdb, .calm rfl (regular_database (by simp))⟩
    | other => exact ⟨_, _, rfl, hdb, .calm rfl (regular_database (by simp))⟩

theorem settles_resolveConflict (record : AllocationRecord) :
    Settles E schedule (resolveConflict P record) := by
  refine (settles_execute (by simp)).bind fun _ => ?_
  refine (settles_execute (by simp)).bind fun v => ?_
  cases v with
  | some existing => exact .ret (regular_ok _)
  | none =>
    simp only
    split
    · exact .ret (regular_database (by simp))
    · refine (settles_execute (by simp)).bind fun v => ?_
      cases v with
      | some existing => exact .ret (regular_ok _)
      | none => exact .ret (regular_database (by simp))

theorem settles_recordAllocation (record : AllocationRecord) :
    Settles E schedule (recordAllocation P record) := by
  have hinsert : Settles E schedule (insertRows P record) := by
    refine (settles_execute (by simp)).bind fun now => ?_
    split
    · exact .ret (regular_value _)
    · exact settles_execute (by simp)
  refine hinsert.handle (fun _ => .ret (regular_ok _)) ?_ rfl
  intro e he
  unfold recover
  split
  · exact settles_resolveConflict record
  · exact .ret fun e' he' => he e' (by cases he'; rfl)

theorem settles_executeBody (request : AllocationRequest) (dryRun : Bool) (key : String) :
    Settles E schedule (executeBody P request dryRun key) := by
  refine (settles_execute (by simp)).bind fun v => ?_
  cases v with
  | some existing => exact .ret (regular_ok _)
  | none =>
    refine (settles_execute (by simp)).bind fun v => ?_
    cases v with
    | none => exact .ret (regular_ok _)
    | some mentor =>
      refine (settles_execute (by simp)).bind fun v => ?_
      cases v with
      | none => exact .ret (regular_ok _)
      | some student =>
        refine (settles_execute (by simp)).bind fun verdict => ?_
        split
        · exact .ret (regular_ok _)
        · split
          · exact .ret (regular_ok _)
          · exact (settles_execute (by simp)).bind fun _ => settles_recordAllocation _

def Store.idle (db : Database) : Store Unit := { db, sessions := fun _ => {} }

theorem release_idle (s : Store Unit) : s.release () = Store.idle s.db := by
  simp only [Store.release, Store.setSession, Store.idle, Store.mk.injEq, true_and]
  funext i
  simp

def Solo.ended (s : Solo) : Solo :=
  { s with store := Store.idle s.store.db, position := s.position + 1 }

theorem alone_ending (E : Environment ω) (schedule : Nat → Choice ω) (s : Solo)
    (h : r = .openSession ∨ r = .rollback ∨ r = .close) :
    ∃ u, Program.alone (Solo.answer E schedule) (execute r) s = some (.ok u, s.ended) := by
  rcases h with rfl | rfl | rfl <;>
    exact ⟨(), by simp [execute, Program.alone, Solo.answer, Store.answer, release_idle,
      Solo.ended, noteFailure]⟩

theorem alone_ensuring_ok {p : Tx α} {a : α}
    (hp : Program.alone (Solo.answer E schedule) p s = some (.ok a, t)) :
    Program.alone (Solo.answer E schedule) (ensuring p (execute .close)) s =
      some (.ok a, t.ended) := by
  obtain ⟨u, hclose⟩ := alone_ending E schedule t (r := .close) (by simp)
  rw [ensuring, Fallible.alone_handle_ok hp, Fallible.alone_bind_ok hclose]
  rfl

theorem alone_ensuring_error {p : Tx α} {e : AllocateError}
    (hp : Program.alone (Solo.answer E schedule) p s = some (.error e, t)) :
    Program.alone (Solo.answer E schedule) (ensuring p (execute .close)) s =
      some (.error e, t.ended) := by
  obtain ⟨u, hclose⟩ := alone_ending E schedule t (r := .close) (by simp)
  rw [ensuring, Fallible.alone_handle_error hp, Fallible.alone_bind_ok hclose]
  rfl

/-- How an attempt ends: by itself, by a failed statement that leaves no trace, or by a
failed commit, which leaves as another exception. -/
inductive Attempt (s t : Solo) (x : Except AllocateError α) : Prop where
  | calm (struck : t.struck = s.struck) (regular : Regular x)
  | struck (r : Statement) (other : r ≠ .commit) (struck : t.struck = s.struck ++ [r])
      (raised : x = .error (.database .operational)) (undone : t.store = Store.idle s.store.db)
  | commit (struck : t.struck = s.struck ++ [.commit])
      (raised : x = .error (.unitOfWork "COMMIT_FAILED"))
      (undone : t.store = Store.idle s.store.db)

theorem alone_commit (h : Transient schedule) (s : Solo) : ∃ t,
    (Program.alone (Solo.answer E schedule) commitUnitOfWork s = some (.ok (), t) ∧
      t.struck = s.struck) ∨
    (Program.alone (Solo.answer E schedule) commitUnitOfWork s =
        some (.error (.unitOfWork "COMMIT_FAILED"), t) ∧
      t.struck = s.struck ++ [.commit] ∧ t.store.db = s.store.db) := by
  rcases h s.position with hf | hf
  · refine ⟨⟨s.store.apply (), s.position + 1, s.struck⟩, .inl ⟨?_, rfl⟩⟩
    have hcommit : Program.alone (Solo.answer E schedule) (execute .commit) s =
        some (.ok (), ⟨s.store.apply (), s.position + 1, s.struck⟩) := by
      simp [execute, Program.alone, Solo.answer, Store.answer, noteFailure, hf]
    rw [commitUnitOfWork, Fallible.alone_handle_ok hcommit]
    rfl
  · have hcommit : Program.alone (Solo.answer E schedule) (execute .commit) s =
        some (.error (.database .operational),
          ⟨s.store.release (), s.position + 1, s.struck ++ [.commit]⟩) := by
      simp [execute, Program.alone, Solo.answer, Store.answer, noteFailure, hf]
    obtain ⟨u, hrollback⟩ := alone_ending E schedule
      ⟨s.store.release (), s.position + 1, s.struck ++ [.commit]⟩ (r := .rollback) (by simp)
    refine ⟨Solo.ended ⟨s.store.release (), s.position + 1, s.struck ++ [.commit]⟩,
      .inr ⟨?_, rfl, rfl⟩⟩
    rw [commitUnitOfWork, Fallible.alone_handle_error hcommit, Fallible.alone_bind_ok hrollback]
    rfl

theorem alone_withUnitOfWork {body : Tx (α × Bool)} (h : Transient schedule)
    (hbody : Settles E schedule body) (s : Solo) : ∃ x t,
    Program.alone (Solo.answer E schedule) (withUnitOfWork body) s = some (x, t) ∧
      Attempt s t x := by
  obtain ⟨u, hopen⟩ := alone_ending E schedule s (r := .openSession) (by simp)
  obtain ⟨x, t, hrun, hdb, hx⟩ := hbody s.ended
  rw [withUnitOfWork, Fallible.alone_bind_ok hopen]
  cases x with
  | error e =>
    obtain ⟨u, hrollback⟩ := alone_ending E schedule t (r := .rollback)
      (by simp)
    rw [Fallible.alone_handle_error hrun, abandon,
      Fallible.alone_bind_ok (alone_ensuring_ok hrollback)]
    refine ⟨.error e, t.ended.ended, rfl, ?_⟩
    cases hx with
    | calm struck regular => exact .calm struck fun e' he' => regular e' (by cases he'; rfl)
    | struck r other struck raised =>
      cases raised
      exact .struck r other struck rfl (congrArg Store.idle hdb)
  | ok out =>
    obtain ⟨value, skip⟩ := out
    rw [Fallible.alone_handle_ok hrun, leave]
    have hstruck : t.struck = s.struck := by
      cases hx with
      | calm struck _ => exact struck
      | struck _ _ _ raised => cases raised
    cases skip with
    | true =>
      have hskip : Program.alone (Solo.answer E schedule) (pure () : Tx Unit) t =
        some (.ok (), t) := rfl
      simp only [if_true]
      rw [Fallible.alone_bind_ok (alone_ensuring_ok hskip)]
      exact ⟨.ok value, t.ended, rfl, .calm hstruck (regular_ok value)⟩
    | false =>
      simp only [Bool.false_eq_true, if_false]
      obtain ⟨w, ⟨hcommit, hw⟩ | ⟨hcommit, hw, hwdb⟩⟩ := alone_commit (E := E) h t
      · rw [Fallible.alone_bind_ok (alone_ensuring_ok hcommit)]
        exact ⟨.ok value, w.ended, rfl, .calm (hw.trans hstruck) (regular_ok value)⟩
      · rw [Fallible.alone_bind_error (alone_ensuring_error hcommit)]
        refine ⟨_, w.ended, rfl, .commit ?_ rfl (congrArg Store.idle (hwdb.trans hdb))⟩
        rw [← hstruck]
        exact hw

/-- A statement that a transient failure spared answers as it does without failures. -/
theorem answer_spared {ch : Choice ω} {u v : Store Unit} {x : Answer r}
    (h : ch.fault = .none ∨ ch.fault = .operational)
    (hx : Store.answer E ch () r u = some (x, v)) (hne : x ≠ .error .operational) :
    Store.answer E { world := ch.world } () r u = some (x, v) := by
  obtain ⟨world, fault⟩ := ch
  simp only at h
  rcases h with rfl | rfl
  · exact hx
  · cases r with
    | openSession | rollback | close | now | evaluate => exact hx
    | commit =>
      cases hx
      exact absurd rfl hne
    | getByIdempotencyKey | getByStudentYear | nextIdentifiers | getMentorForUpdate
      | getStudentForUpdate | flush =>
      simp only [Store.answer, Choice.failure, Option.some.injEq, Prod.mk.injEq] at hx
      exact absurd hx.1.symm hne

theorem answer_unstruck {ch : Choice ω} {u v : Store Unit} {x : Answer r}
    (h : ch.fault = .none) (hx : Store.answer E ch () r u = some (x, v)) :
    x ≠ .error .operational := by
  rintro rfl
  cases r <;> simp only [Store.answer, Choice.failure, h] at hx <;> grind

theorem struck_grows {p : Program Statement Answer α} {x : α}
    (h : p.alone (Solo.answer E schedule) s = some (x, t)) : s.struck <+: t.struck := by
  induction p generalizing s with
  | ret a =>
    cases h
    exact List.prefix_refl _
  | ask r rest ih =>
    simp only [Program.alone, Solo.answer, Option.bind_eq_some_iff, Option.map_eq_some_iff] at h
    obtain ⟨_, ⟨⟨y, u⟩, _, rfl⟩, hrest⟩ := h
    refine List.IsPrefix.trans ?_ (ih _ hrest)
    simp only [noteFailure]
    split
    · exact List.prefix_append _ _
    · exact List.prefix_refl _

/-- What no failure struck runs the same without failures. -/
theorem alone_spared {p : Program Statement Answer α} {x : α} {k m : Nat} {store : Store Unit}
    {struck : List Statement} (h : Transient schedule)
    (hp : p.alone (Solo.answer E schedule) ⟨store, k + m, struck⟩ = some (x, t))
    (ht : t.struck = struck) (struck' : List Statement) :
    ∃ t', p.alone (Solo.answer E (calm schedule k)) ⟨store, m, struck'⟩ = some (x, t') ∧
      t'.store = t.store := by
  induction p generalizing store m struck' with
  | ret a =>
    cases hp
    exact ⟨_, rfl, rfl⟩
  | ask r rest ih =>
    simp only [Program.alone, Solo.answer, Option.bind_eq_some_iff, Option.map_eq_some_iff] at hp
    obtain ⟨_, ⟨⟨y, u⟩, hy, rfl⟩, hrest⟩ := hp
    have hne : y ≠ .error .operational := by
      rintro rfl
      have := (struck_grows hrest).length_le
      simp [ht, noteFailure] at this
    simp only [noteFailure_of_ne hne] at hrest
    have hspared := answer_spared (h (k + m)) hy hne
    simp only [Program.alone, Solo.answer, calm, hspared, Option.map_some, Option.bind_some]
    exact ih y (by rw [← Nat.add_assoc]; exact hrest) _

theorem alone_unstruck {p : Program Statement Answer α} {x : α} {k : Nat}
    (h : p.alone (Solo.answer E (calm schedule k)) s = some (x, t)) : t.struck = s.struck := by
  induction p generalizing s with
  | ret a =>
    cases h
    rfl
  | ask r rest ih =>
    simp only [Program.alone, Solo.answer, Option.bind_eq_some_iff, Option.map_eq_some_iff] at h
    obtain ⟨_, ⟨⟨y, u⟩, hy, rfl⟩, hrest⟩ := h
    rw [ih _ hrest]
    exact noteFailure_of_ne (answer_unstruck (by rfl) hy) _

theorem calm_transient (k : Nat) : Transient (calm schedule k) := fun _ => .inl rfl

/-- Retrying returns or raises at once what is not an `OperationalError`. -/
theorem alone_retrying_regular {once : Tx α} {x : Except AllocateError α} (hx : Regular x)
    (h : Program.alone (Solo.answer E schedule) once s = some (x, t)) (n : Nat) :
    Program.alone (Solo.answer E schedule) (retrying once n) s = some (x, t) := by
  cases n with
  | zero => exact h
  | succ n =>
    rw [retrying]
    cases x with
    | ok a =>
      rw [Fallible.alone_handle_ok h]
      rfl
    | error e =>
      rw [Fallible.alone_handle_error h]
      split
      · exact absurd rfl (hx _ rfl).1
      · rfl

/-- How the retry loop ends after the given failures: with the outcome of an attempt
without failures, out of retries, or on a failed commit. -/
inductive Ending (E : Environment ω) (schedule : Nat → Choice ω) (once : Tx α) (db : Database)
    (n : Nat) (x : Except AllocateError α) (t : Solo) (failures : List Statement) : Prop where
  | calm (few : failures.length ≤ n) (spared : ∀ r ∈ failures, r ≠ .commit) (regular : Regular x)
      (same : ∃ k s', Program.alone (Solo.answer E (calm schedule k)) once (.start db) =
        some (x, s') ∧ s'.store.db = t.store.db)
  | spent (many : failures.length = n + 1) (spared : ∀ r ∈ failures, r ≠ .commit)
      (raised : x = .error (.database .operational)) (undone : t.store.db = db)
  | commit (before : List Statement) (few : before.length ≤ n)
      (spared : ∀ r ∈ before, r ≠ .commit) (last : failures = before ++ [.commit])
      (raised : x = .error (.unitOfWork "COMMIT_FAILED")) (undone : t.store.db = db)

theorem Ending.retry {once : Tx α} {db : Database} {n : Nat} {x : Except AllocateError α}
    {failures : List Statement} (h : Ending E schedule once db n x t failures)
    (hr : r ≠ .commit) : Ending E schedule once db (n + 1) x t (r :: failures) := by
  cases h with
  | calm few spared regular same =>
    exact .calm (by simpa using few) (List.forall_mem_cons.mpr ⟨hr, spared⟩) regular same
  | spent many spared raised undone =>
    exact .spent (by simpa using many) (List.forall_mem_cons.mpr ⟨hr, spared⟩) raised undone
  | commit before few spared last raised undone =>
    exact .commit (r :: before) (by simpa using few) (List.forall_mem_cons.mpr ⟨hr, spared⟩)
      (by simp [last]) raised undone

/-- One attempt, as an ending of the loop where the loop goes no further. -/
theorem Attempt.ending {once : Tx α} {db : Database} {x : Except AllocateError α}
    (h : Transient schedule) (hs : s.store = Store.idle db)
    (hrun : Program.alone (Solo.answer E schedule) once s = some (x, t)) (hx : Attempt s t x)
    (n : Nat) (hn : n = 0 ∨ x ≠ .error (.database .operational)) :
    ∃ failures, t.struck = s.struck ++ failures ∧ Ending E schedule once db n x t failures := by
  cases hx with
  | calm struck regular =>
    obtain ⟨store, position, struck'⟩ := s
    simp only at hs struck
    subst hs
    obtain ⟨t', hcalm, hstore⟩ := alone_spared (k := position) (m := 0) h hrun struck []
    exact ⟨[], by simpa using struck,
      .calm (by simp) (by simp) regular ⟨position, t', hcalm, by rw [hstore]⟩⟩
  | struck r other struck raised undone =>
    rcases hn with rfl | hn
    · refine ⟨[r], struck, .spent rfl (by simpa using other) raised ?_⟩
      rw [undone, hs]
      rfl
    · exact absurd raised hn
  | commit struck raised undone =>
    refine ⟨[.commit], struck, .commit [] (by simp) (by simp) rfl raised ?_⟩
    rw [undone, hs]
    rfl

/-- The retry loop, attempt by attempt. -/
theorem alone_retrying {once : Tx α} (h : Transient schedule)
    (honce : ∀ s, ∃ x t, Program.alone (Solo.answer E schedule) once s = some (x, t) ∧
      Attempt s t x) (n : Nat) (db : Database) (hs : s.store = Store.idle db) :
    ∃ x t failures, Program.alone (Solo.answer E schedule) (retrying once n) s = some (x, t) ∧
      t.struck = s.struck ++ failures ∧ Ending E schedule once db n x t failures := by
  induction n generalizing s with
  | zero =>
    obtain ⟨x, t, hrun, hx⟩ := honce s
    obtain ⟨failures, hstruck, hend⟩ := hx.ending h hs hrun 0 (.inl rfl)
    exact ⟨x, t, failures, hrun, hstruck, hend⟩
  | succ n ih =>
    obtain ⟨x, t, hrun, hx⟩ := honce s
    rw [retrying]
    by_cases hop : x = .error (.database .operational)
    · subst hop
      rw [Fallible.alone_handle_error hrun]
      cases hx with
      | calm struck regular => exact absurd rfl (regular _ rfl).1
      | struck r other struck raised undone =>
        obtain ⟨y, u, failures, hloop, hstruck, hend⟩ :=
          ih (s := t) (by rw [undone, hs]; rfl)
        exact ⟨y, u, r :: failures, hloop, by rw [hstruck, struck]; simp, hend.retry other⟩
      | commit struck raised undone => cases raised
    · obtain ⟨failures, hstruck, hend⟩ := hx.ending h hs hrun (n + 1) (.inr hop)
      refine ⟨x, t, failures, ?_, hstruck, hend⟩
      cases x with
      | ok a =>
        rw [Fallible.alone_handle_ok hrun]
        rfl
      | error e =>
        rw [Fallible.alone_handle_error hrun]
        split
        · exact absurd rfl hop
        · rfl

end

def failingAt (position : Nat) : Nat → Choice Unit :=
  fun n => { world := (), fault := if n = position then .operational else .none }

theorem failingAt_transient (position : Nat) : Transient (failingAt position) := by
  intro n
  by_cases h : n = position
  · exact .inr (if_pos h)
  · exact .inl (if_neg h)

def soloSample (schedule : Nat → Choice Unit) :
    Option (Except AllocateError AllocationResult × Solo) :=
  soloCall sampleEnvironment samplePlatform 3 (sampleRequest "0012345678" 42 none []) false
    schedule (sampleDatabase 10)

end Allocation
