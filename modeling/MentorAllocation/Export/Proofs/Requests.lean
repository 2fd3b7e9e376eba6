import MentorAllocation.Export.RunJob

namespace Export
open Concurrency Files

theorem attempt_eq_some {α ω : Type} {ch : Choice} {s t : ω} {x : Except Refusal α}
    {y : Except Refusal α × ω} (h : ch.attempt s y = some (x, t)) :
    (x, t) = y ∨ (∃ fault, x = .error (.fault fault)) ∧ t = s := by
  unfold Choice.attempt at h
  split at h
  · exact .inl (Option.some.inj h).symm
  · next fault _ =>
    obtain ⟨rfl, rfl⟩ := Prod.mk.inj (Option.some.inj h)
    exact .inr ⟨⟨fault, rfl⟩, rfl⟩

section
variable {ι : Type} {L : Library} {ch : Choice} {i : ι} {s t : World ι}

/-- The job runner is left alone, but by the two requests that are made of it. -/
theorem answer_runner {r : SystemCall} {x : r.Response} (h : World.answer L ch i r s = some (x, t))
    (hsubmit : ∀ submission, r ≠ .submit submission)
    (hupdate : ∀ jobId update, r ≠ .updateJob jobId update) :
    t.runner = s.runner ∧ t.journal = s.journal := by
  cases r with
  | submit submission => exact absurd rfl (hsubmit submission)
  | updateJob jobId update => exact absurd rfl (hupdate jobId update)
  | write handle content =>
    simp only [World.answer] at h
    split at h
    · obtain ⟨-, rfl⟩ := Prod.mk.inj (Option.some.inj h)
      exact ⟨rfl, rfl⟩
    · obtain ⟨-, rfl⟩ := Prod.mk.inj (Option.some.inj h)
      split <;> exact ⟨rfl, rfl⟩
  | mkstemp target =>
    simp only [World.answer] at h
    split at h
    · cases h
    · rcases attempt_eq_some h with h | ⟨-, rfl⟩
      · obtain ⟨-, rfl⟩ := Prod.mk.inj h
        exact ⟨rfl, rfl⟩
      · exact ⟨rfl, rfl⟩
  | replace source target =>
    rcases attempt_eq_some h with h | ⟨-, rfl⟩
    · split at h <;> (obtain ⟨-, rfl⟩ := Prod.mk.inj h; exact ⟨rfl, rfl⟩)
    · exact ⟨rfl, rfl⟩
  | unlink path =>
    rcases attempt_eq_some h with h | ⟨-, rfl⟩
    · split at h <;> (obtain ⟨-, rfl⟩ := Prod.mk.inj h; exact ⟨rfl, rfl⟩)
    · exact ⟨rfl, rfl⟩
  | glob | «exists» path | openBlank path | stat path | sha256 path | mkdtemp =>
    rcases attempt_eq_some h with h | ⟨-, rfl⟩
    · obtain ⟨-, rfl⟩ := Prod.mk.inj h
      exact ⟨rfl, rfl⟩
    · exact ⟨rfl, rfl⟩
  | discard path | rmtree workspace | fetchRows filters snapshot | now =>
    obtain ⟨-, rfl⟩ := Prod.mk.inj (Option.some.inj h)
    exact ⟨rfl, rfl⟩

def Submission.job (submission : Submission) (now : Moment) : ExportJob where
  id := submission.jobId
  status := .pending
  filters := submission.filters
  options := submission.options
  snapshot := ⟨"snapshot-" ++ submission.jobId, now⟩
  nameSpace := submission.nameSpace
  correlationId := submission.correlationId
  queuedAt := now

theorem submit_refused {runner : ExportJobRunner} {filters : ExportFilters}
    {options : ExportOptions} {idempotencyKey nameSpace correlationId jobId : String} {now : Moment}
    (h : (runner.redis.store (ExportJobRunner.redisKey nameSpace idempotencyKey)).isSome = true) :
    (runner.submit filters options idempotencyKey nameSpace correlationId jobId now).2 =
      runner := by
  simp only [ExportJobRunner.submit, DeterministicRedis.setnx, if_pos h, Bool.not_false, if_true]
  split <;> rfl

theorem submit_makes {runner : ExportJobRunner} (submission : Submission) (now : Moment)
    (h : ¬ (runner.redis.store (ExportJobRunner.redisKey submission.nameSpace
      submission.idempotencyKey)).isSome = true) :
    ∃ redis, runner.submit submission.filters submission.options submission.idempotencyKey
        submission.nameSpace submission.correlationId submission.jobId now =
      (.ok (submission.job now), {
        redis
        jobs := fun id => if id = submission.jobId then some (submission.job now)
          else runner.jobs id
        threads := fun id => if id = submission.jobId then
            some (ExportJobRunner.redisKey submission.nameSpace submission.idempotencyKey)
          else runner.threads id }) := by
  simp only [ExportJobRunner.submit, DeterministicRedis.setnx, if_neg h]
  exact ⟨_, rfl⟩

structure SameTable (s t : World ι) : Prop where
  jobs : t.runner.jobs = s.runner.jobs
  threads : t.runner.threads = s.runner.threads

/-- A submission makes a job with an entry in the journal, or leaves the table alone. -/
theorem answer_submit {submission : Submission} {x : Option ExportJob}
    (h : World.answer L ch i (.submit submission) s = some (x, t)) :
    t.directory = s.directory ∧ t.fetches = s.fetches ∧
      ((x = none ∧ SameTable s t ∧ t.journal = s.journal) ∨
      (x = some (submission.job ch.now) ∧
        t.journal = s.journal ++ [(submission.jobId, .pending)] ∧
        (t.runner.jobs = fun id => if id = submission.jobId then some (submission.job ch.now)
          else s.runner.jobs id) ∧
        ∃ key, t.runner.threads = fun id => if id = submission.jobId then some key
          else s.runner.threads id)) := by
  simp only [World.answer] at h
  split at h
  · next htaken =>
    obtain ⟨rfl, rfl⟩ := Prod.mk.inj (Option.some.inj h)
    have hsame : (s.runner.submit submission.filters submission.options submission.idempotencyKey
        submission.nameSpace submission.correlationId submission.jobId ch.now).2 = s.runner :=
      submit_refused htaken
    exact ⟨rfl, rfl, .inl ⟨rfl, ⟨congrArg _ hsame, congrArg _ hsame⟩, rfl⟩⟩
  · next hnew =>
    obtain ⟨rfl, rfl⟩ := Prod.mk.inj (Option.some.inj h)
    obtain ⟨redis, hmade⟩ := submit_makes submission ch.now hnew
    rw [hmade]
    exact ⟨rfl, rfl, .inr ⟨rfl, rfl, rfl, _, rfl⟩⟩

end

end Export
