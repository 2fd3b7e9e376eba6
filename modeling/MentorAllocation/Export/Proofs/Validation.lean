import MentorAllocation.Export.Proofs.Requests

namespace Export
open Text Concurrency Files

/-- The exporter's row validation rejects a row, or there are none at all. -/
def Fetch.Invalid (E : ImportToSabtExporter) (filters : ExportFilters) (fetch : Fetch) : Prop :=
  (∃ row ∈ fetch.rows, ∃ e, E.normalizeRow filters row = .error e) ∨
    (fetch.rows = [] ∧ fetch.ending = none)

/-- An `OSError` or the exporter's own kind. -/
def Raised.isIoFailure (e : Raised) : Prop := e.isOSError = true ∨ ∃ message, e = .exportIo message

section
variable {ι : Type}

/-- The job is recorded as failed with an error of this code. -/
def Failed (s : World ι) (jobId code : String) : Prop :=
  ∃ job error, s.runner.jobs jobId = some job ∧ job.status = .failed ∧ job.error = some error ∧
    error.errorCode = code

/-- Invalid rows end in `ExportValidationError` once they have been fetched. -/
def ValidationStays (E : ImportToSabtExporter) (filters : ExportFilters) (s : World ι)
    (result : Except Raised ExportManifest) : Prop :=
  (∃ fetch ∈ s.fetches, fetch.Invalid E filters) →
    s.fetches.length = 1 ∧ ∃ message, result = .error (.exportValidation message)

/-- The same of a job, whose error code then says so; that of input and output says it of
an export that input and output made fail. -/
structure JobReports (E : ImportToSabtExporter) (submission : Submission) (s : World ι)
    (outcome : Except Raised ExportManifest) : Prop where
  raised : ValidationStays E submission.filters s outcome
  validation : (∃ fetch ∈ s.fetches, fetch.Invalid E submission.filters) →
    Failed s submission.jobId "EXPORT_VALIDATION_ERROR"
  io : ∀ e, outcome = .error e → e.root.isIoFailure → Failed s submission.jobId "EXPORT_IO_ERROR"

end

def Raised.Unvalidated (e : Raised) : Prop := ∀ message, e ≠ .exportValidation message

theorem raised_unvalidated (refusal : Refusal) : refusal.raised.Unvalidated := by
  intro message
  cases refusal with
  | missing name => simp [Refusal.raised]
  | fault fault => cases fault <;> simp [Refusal.raised]

theorem wrapped_unvalidated {F : Raised → Prop} {e : Raised} (h : Wrapped F e) :
    e.Unvalidated := by
  intro message
  rcases h with rfl | ⟨lastError, -, rfl⟩ <;> simp

section
variable {α : Type} {F : Raised → Prop}

theorem raises_raising (answer : Except Refusal α) :
    (raising answer).Raises Raised.Unvalidated := by
  cases answer with
  | ok a => trivial
  | error refusal => exact raised_unvalidated refusal

theorem raises_anything (p : Call α) : p.Raises fun _ => True := by
  induction p with
  | ret x => cases x <;> trivial
  | ask r rest ih => exact ih

theorem raises_ignoringMissing {p : Call Unit} (h : p.Raises Raised.Unvalidated) :
    (ignoringMissing p).Raises Raised.Unvalidated := by
  refine h.handle (fun _ => .pure ()) fun e he => ?_
  split
  · exact .pure ()
  · exact .raise he

theorem raises_unlink (path : Path) : (unlink path).Raises Raised.Unvalidated :=
  fun answer => raises_raising answer

theorem raises_exists (path : Path) : (exists? path).Raises Raised.Unvalidated :=
  fun answer => raises_raising answer

theorem raises_unlinkAll (paths : List Path) : (unlinkAll paths).Raises Raised.Unvalidated := by
  induction paths with
  | nil => exact .pure ()
  | cons path paths ih =>
    exact (raises_ignoringMissing (raises_unlink path)).bind fun _ => ih

theorem raises_glob : glob.Raises Raised.Unvalidated := fun answer => raises_raising answer

theorem raises_cleanupPartials : cleanupPartials.Raises Raised.Unvalidated :=
  raises_glob.bind raises_unlinkAll

theorem raises_removeManifest : removeManifest.Raises Raised.Unvalidated := by
  refine (raises_exists manifestPath).bind fun found => ?_
  split
  · exact raises_ignoringMissing (raises_unlink manifestPath)
  · exact .pure ()

theorem raises_discardAll (paths : List Path) : (discardAll paths).Raises F := by
  induction paths with
  | nil => exact .pure ()
  | cons path paths ih => exact (Fallible.Raises.call _).bind fun _ => ih

theorem raises_cleanup (workspace : Nat) (paths : List Path) :
    (cleanup workspace paths).Raises F :=
  (raises_discardAll paths).bind fun _ => .call _

end

section
variable {E : ImportToSabtExporter} {filters : ExportFilters} {options : ExportOptions}
  {snapshot : ExportSnapshot} {clockNow : Moment} {correlationId : String}

/-- Once a run has begun to work, the retry helper comes between it and what its validation
raises. -/
theorem raises_run (h : 0 < options.chunkSize) :
    (E.run filters options snapshot clockNow correlationId).Raises Raised.Unvalidated := by
  unfold ImportToSabtExporter.run
  rw [if_neg (by omega)]
  refine raises_cleanupPartials.bind fun _ => raises_removeManifest.bind fun _ => ?_
  refine ((raises_executeWithRetry (raises_anything _) _).mono fun _ => wrapped_unvalidated).bind
    fun queried => ?_
  refine (((raises_executeWithRetry (raises_anything _) _).mono
    fun _ => wrapped_unvalidated).ensure (raises_cleanup _ _)).bind fun files => ?_
  exact ((raises_executeWithRetry (raises_anything _) _).mono
    fun _ => wrapped_unvalidated).bind fun _ => .pure _

theorem run_chunkSize (h : options.chunkSize ≤ 0) :
    E.run filters options snapshot clockNow correlationId =
      Fallible.raise (.exportValidation "EXPORT_VALIDATION_ERROR:chunk_size") := by
  unfold ImportToSabtExporter.run
  rw [if_pos h]

theorem execute_raise {Req α : Type} {Resp : Req → Type} {retryable : Raised → Bool} {e : Raised}
    (h : retryable e = false) (n : Nat) :
    execute retryable (Fallible.raise e : Fallible Req Resp Raised α) n = Fallible.raise e := by
  cases n with
  | zero => rfl
  | succ n =>
    simp only [execute, Fallible.raise, Fallible.handle_error, h]
    rfl

variable {ι : Type} {i : ι} {choices : List Choice} {s t : World ι} {jobId : String}
  {result : Except Raised ExportManifest}

/-- A run that ends in `ExportValidationError` has fetched nothing. -/
theorem validation_fetches_nothing {n : Nat}
    (h : (execute Raised.isOSError
      (E.run filters options snapshot clockNow correlationId) n).played
      (fun ch => World.answer E.library ch i) choices s = some (result, t)) {message : String}
    (hresult : result = .error (.exportValidation message)) : t.fetches = s.fetches := by
  subst hresult
  by_cases hc : options.chunkSize ≤ 0
  · rw [run_chunkSize hc, execute_raise (by rfl)] at h
    obtain ⟨-, rfl⟩ := Prod.mk.inj (Option.some.inj h)
    rfl
  · exact absurd rfl ((raises_execute (raises_run (by omega)) n).played h message)

theorem validationStays_iff_of_quiet (hquiet : ∀ message,
    result = .error (.exportValidation message) → t.fetches = []) :
    ValidationStays E filters t result ↔ ∀ fetch ∈ t.fetches, ¬ fetch.Invalid E filters := by
  constructor
  · intro h fetch hfetch hinvalid
    obtain ⟨-, message, hresult⟩ := h ⟨fetch, hfetch, hinvalid⟩
    rw [hquiet message hresult] at hfetch
    cases hfetch
  · rintro h ⟨fetch, hfetch, hinvalid⟩
    exact absurd hinvalid (h fetch hfetch)

/-- The runner has the job and the thread it was started with. -/
def Registered (s : World ι) (jobId : String) : Prop :=
  (∃ job, s.runner.jobs jobId = some job) ∧ ∃ key, s.runner.threads jobId = some key

theorem registered_updateJob {runner : ExportJobRunner} {id : String}
    {update : ExportJobRunner.JobUpdate}
    (h : (∃ job, runner.jobs jobId = some job) ∧ ∃ key, runner.threads jobId = some key) :
    (∃ job, (runner.updateJob id update).jobs jobId = some job) ∧
      ∃ key, (runner.updateJob id update).threads jobId = some key := by
  obtain ⟨⟨job, hjob⟩, key, hkey⟩ := h
  unfold ExportJobRunner.updateJob
  split
  · refine ⟨?_, key, hkey⟩
    by_cases hid : jobId = id
    · exact ⟨_, if_pos hid⟩
    · exact ⟨job, (if_neg hid).trans hjob⟩
  · exact ⟨⟨job, hjob⟩, key, hkey⟩

theorem registered_answer {r : SystemCall} {ch : Choice} {x : r.Response}
    (h : World.answer E.library ch i r s = some (x, t)) (hs : Registered s jobId) :
    Registered t jobId := by
  cases r with
  | submit submission =>
    obtain ⟨⟨job, hjob⟩, key, hkey⟩ := hs
    obtain ⟨-, -, h⟩ := answer_submit h
    rcases h with ⟨-, hsame, -⟩ | ⟨-, -, hjobs, key', hthreads⟩
    · exact ⟨⟨job, hsame.jobs ▸ hjob⟩, key, hsame.threads ▸ hkey⟩
    · unfold Registered
      rw [hjobs, hthreads]
      by_cases hid : jobId = submission.jobId
      · exact ⟨⟨_, if_pos hid⟩, _, if_pos hid⟩
      · exact ⟨⟨job, (if_neg hid).trans hjob⟩, key, (if_neg hid).trans hkey⟩
  | updateJob id update =>
    obtain ⟨-, rfl⟩ := Prod.mk.inj (Option.some.inj h)
    exact registered_updateJob hs
  | glob | «exists» | unlink | openBlank | mkstemp | write | replace | stat | sha256 | mkdtemp
  | discard | rmtree | fetchRows | now =>
    have hrunner := (answer_runner h (by simp) (by simp)).1
    unfold Registered
    rw [hrunner]
    exact hs

/-- A failure is recorded under the code of its exception. -/
theorem failed_updateJob (hs : Registered s jobId) (finishedAt : Moment) (e : Raised)
    (ht : t.runner = s.runner.updateJob jobId
      { status := .failed, finishedAt := some finishedAt, error := some e.errorPayload }) :
    Failed t jobId e.errorPayload.errorCode := by
  obtain ⟨⟨job, hjob⟩, key, hkey⟩ := hs
  let update : ExportJobRunner.JobUpdate :=
    { status := .failed, finishedAt := some finishedAt, error := some e.errorPayload }
  refine ⟨update.apply job, e.errorPayload, ?_, rfl, rfl, rfl⟩
  rw [ht]
  simp only [ExportJobRunner.updateJob, hjob, hkey, if_true]
  rfl

/-- What a thread has done: the outcome of its export, and how it was recorded. -/
theorem runJob_played {maxRetries : Nat} {job : ExportJob}
    {outcome : Except Raised ExportManifest}
    (hs : Registered s job.id)
    (h : (runJob E maxRetries job).played (fun ch => World.answer E.library ch i) choices s =
      some (.ok outcome, t)) :
    ∃ startTime u v chs, u.fetches = s.fetches ∧ v.fetches = t.fetches ∧
      (execute Raised.isOSError (E.run job.filters job.options job.snapshot startTime
          job.correlationId) (maxRetries - 1)).played
        (fun ch => World.answer E.library ch i) chs u = some (outcome, v) ∧
      ∀ e, outcome = .error e → Failed t job.id e.errorPayload.errorCode := by
  unfold runJob at h
  obtain ⟨_, _, startTime, s₁, h₁, h⟩ := Fallible.played_call h
  obtain ⟨-, rfl⟩ := Prod.mk.inj (Option.some.inj h₁)
  obtain ⟨_, chs, _, u, h₂, h⟩ := Fallible.played_call h
  have hu : Registered u job.id := registered_answer h₂ hs
  obtain ⟨-, hu'⟩ := Prod.mk.inj (Option.some.inj h₂)
  obtain ⟨result, v, rest, hrun, h⟩ := Fallible.played_handle h
  have hv : Registered v job.id := by
    refine Program.played_keeps (I := fun w => Registered w job.id) ?_ hrun hu
    exact fun _ _ _ _ _ => registered_answer
  refine ⟨startTime, u, v, chs, by rw [← hu'], ?_⟩
  rcases h with ⟨manifest, rfl, h⟩ | ⟨e, rfl, h⟩
  · obtain ⟨_, _, finishedAt, v₁, h₃, h⟩ := Fallible.played_call h
    obtain ⟨-, rfl⟩ := Prod.mk.inj (Option.some.inj h₃)
    obtain ⟨_, _, _, w, h₄, h⟩ := Fallible.played_call h
    obtain ⟨-, rfl⟩ := Prod.mk.inj (Option.some.inj h₄)
    obtain ⟨houtcome, rfl⟩ := Prod.mk.inj (Option.some.inj h)
    obtain rfl := Except.ok.inj houtcome
    exact ⟨rfl, hrun, fun e he => by cases he⟩
  · obtain ⟨_, _, finishedAt, v₁, h₃, h⟩ := Fallible.played_call h
    obtain ⟨-, rfl⟩ := Prod.mk.inj (Option.some.inj h₃)
    obtain ⟨_, _, _, w, h₄, h⟩ := Fallible.played_call h
    obtain ⟨-, rfl⟩ := Prod.mk.inj (Option.some.inj h₄)
    obtain ⟨houtcome, rfl⟩ := Prod.mk.inj (Option.some.inj h)
    obtain rfl := Except.ok.inj houtcome
    refine ⟨rfl, hrun, fun e' he => ?_⟩
    obtain rfl := Except.error.inj he
    exact failed_updateJob hv finishedAt e rfl

theorem exportJob_played {maxRetries : Nat} {submission : Submission}
    {outcome : Except Raised ExportManifest}
    (h : (exportJob E maxRetries submission).played (fun ch => World.answer E.library ch i)
      choices s = some (.ok (some outcome), t)) :
    ∃ snapshot startTime u v chs, u.fetches = s.fetches ∧ v.fetches = t.fetches ∧
      (execute Raised.isOSError (E.run submission.filters submission.options snapshot startTime
          submission.correlationId) (maxRetries - 1)).played
        (fun ch => World.answer E.library ch i) chs u = some (outcome, v) ∧
      ∀ e, outcome = .error e → Failed t submission.jobId e.errorPayload.errorCode := by
  unfold exportJob at h
  obtain ⟨ch, _, started, s₁, h₁, h⟩ := Fallible.played_call h
  obtain ⟨-, hfetches, h₁⟩ := answer_submit h₁
  rcases h₁ with ⟨rfl, -, -⟩ | ⟨rfl, -, hjobs, key, hthreads⟩
  · cases h
  · have hreg : Registered s₁ submission.jobId := by
      unfold Registered
      rw [hjobs, hthreads]
      exact ⟨⟨_, if_pos rfl⟩, _, if_pos rfl⟩
    obtain ⟨result, u, _, hrun, h⟩ := Fallible.played_handle h
    rcases h with ⟨ran, rfl, h⟩ | ⟨e, rfl, h⟩
    · obtain ⟨houtcome, rfl⟩ := Prod.mk.inj (Option.some.inj h)
      obtain rfl := Option.some.inj (Except.ok.inj houtcome)
      obtain ⟨startTime, u', v, chs, hu, hv, hexecute, hfailed⟩ := runJob_played hreg hrun
      exact ⟨_, startTime, u', v, chs, hu.trans hfetches, hv, hexecute, hfailed⟩
    · cases h

theorem errorCode_of_io {e : Raised} (h : e.root.isIoFailure) :
    e.errorPayload.errorCode = "EXPORT_IO_ERROR" := by
  cases e with
  | exportValidation message => simp [Raised.root, Raised.isIoFailure, Raised.isOSError] at h
  | exportIo | retryExhausted | valueError | assertion | fileNotFound | os | other => rfl

/-- Validation failures of an export stay validation failures exactly where there are none:
the retry helper takes the exception of validation for one of its own. -/
theorem validation_stays_iff {submission : Submission} {maxRetries : Nat}
    {run : Except Raised ExportManifest} {outcome : Except Raised ExportManifest}
    {u : World ι} {chs : List Choice} (hs : s.fetches = [])
    (hrun : (E.run filters options snapshot clockNow correlationId).played
      (fun ch => World.answer E.library ch i) choices s = some (run, t))
    (hjob : (exportJob E maxRetries submission).played
      (fun ch => World.answer E.library ch i) chs s = some (.ok (some outcome), u)) :
    (ValidationStays E filters t run ↔ ∀ fetch ∈ t.fetches, ¬ fetch.Invalid E filters) ∧
      (JobReports E submission u outcome ↔
        ∀ fetch ∈ u.fetches, ¬ fetch.Invalid E submission.filters) := by
  constructor
  · exact validationStays_iff_of_quiet fun message hresult =>
      (validation_fetches_nothing (n := 0) hrun hresult).trans hs
  · obtain ⟨snapshot, startTime, v, w, _, hv, hw, hexecute, hfailed⟩ := exportJob_played hjob
    have hstays : ValidationStays E submission.filters u outcome ↔
        ∀ fetch ∈ u.fetches, ¬ fetch.Invalid E submission.filters :=
      validationStays_iff_of_quiet fun message hresult => by
        rw [← hw, validation_fetches_nothing hexecute hresult, hv, hs]
    constructor
    · exact fun h => hstays.mp h.raised
    · intro h
      refine ⟨hstays.mpr h, ?_, fun e he hio => errorCode_of_io hio ▸ hfailed e he⟩
      rintro ⟨fetch, hfetch, hinvalid⟩
      exact absurd hinvalid (h fetch hfetch)

end

def sampleSubmission : Submission where
  filters := { year := 1402, center := some 1 }
  options := { outputFormat := .csv }
  idempotencyKey := "key-1"
  nameSpace := "1:1402:csv"
  correlationId := "rid-1"
  jobId := "job-1"

/-- What a job meets whose data source answers its fetch, and that has no trouble. -/
def calmJob (fetch : Fetch) : List Choice := List.replicate 40 { fetch }

/-- The counter of a girl on a boy's row. -/
def mismatched : Fetch := { rows := [{ sampleRow with counter := "223733333" }] }

theorem mismatched_job : ((exportJob plainExporter 3 sampleSubmission).played
    (fun ch => World.answer plainLibrary ch ()) (calmJob mismatched) {}).map
      (fun x => (x.1.toOption, x.2.fetches)) =
    some (some (some (.error (.retryExhausted
      (.exportValidation "EXPORT_VALIDATION_ERROR:counter_prefix")))), [mismatched]) := by
  decide +kernel

theorem mismatched_rejected : plainExporter.normalizeRow sampleSubmission.filters
    { sampleRow with counter := "223733333" } =
      .error (.exportValidation "EXPORT_VALIDATION_ERROR:counter_prefix") := by
  decide +kernel

theorem mismatched_invalid : mismatched.Invalid plainExporter sampleSubmission.filters :=
  .inl ⟨_, List.mem_singleton_self _, _, mismatched_rejected⟩

/-- A row that validation rejects makes the job fail with the code of input and output. -/
theorem rejected_row_fails_as_io : ∃ outcome t,
    (exportJob plainExporter 3 sampleSubmission).played
      (fun ch => World.answer plainLibrary ch ()) (calmJob mismatched) {} =
        some (.ok (some outcome), t) ∧
      Failed t "job-1" "EXPORT_IO_ERROR" ∧
      ¬ JobReports plainExporter sampleSubmission t outcome := by
  obtain ⟨⟨result, t⟩, hplayed, hx⟩ := Option.map_eq_some_iff.mp mismatched_job
  obtain ⟨hresult, hfetches⟩ := Prod.mk.inj hx
  cases result with
  | error e => cases hresult
  | ok started =>
    obtain rfl := Option.some.inj hresult
    obtain ⟨_, _, _, _, _, _, _, _, hfailed⟩ := exportJob_played (E := plainExporter) hplayed
    refine ⟨_, t, hplayed, hfailed _ rfl, fun h => ?_⟩
    obtain ⟨-, message, hmessage⟩ := h.raised
      ⟨mismatched, by rw [hfetches]; simp, mismatched_invalid⟩
    cases hmessage

def matching : Fetch := { rows := [sampleRow] }

theorem validation_stays_iff_matching : ∃ run outcome t u,
    (plainExporter.run sampleSubmission.filters sampleSubmission.options
        ⟨"snapshot-job-1", ⟨0, "", ""⟩⟩ ⟨0, "", ""⟩ "rid-1").played
      (fun ch => World.answer plainLibrary ch ()) (calmJob matching) {} = some (run, t) ∧
    (exportJob plainExporter 3 sampleSubmission).played
      (fun ch => World.answer plainLibrary ch ()) (calmJob matching) {} =
        some (.ok (some outcome), u) ∧
    (ValidationStays plainExporter sampleSubmission.filters t run ↔
      ∀ fetch ∈ t.fetches, ¬ fetch.Invalid plainExporter sampleSubmission.filters) ∧
    (JobReports plainExporter sampleSubmission u outcome ↔
      ∀ fetch ∈ u.fetches, ¬ fetch.Invalid plainExporter sampleSubmission.filters) := by
  have hrun : ((plainExporter.run sampleSubmission.filters sampleSubmission.options
      ⟨"snapshot-job-1", ⟨0, "", ""⟩⟩ ⟨0, "", ""⟩ "rid-1").played
      (fun ch => World.answer plainLibrary ch ()) (calmJob matching) {}).isSome = true := by
    decide +kernel
  have hjob : (((exportJob plainExporter 3 sampleSubmission).played
      (fun ch => World.answer plainLibrary ch ()) (calmJob matching) {}).bind
        (fun x => x.1.toOption.join)).isSome = true := by
    decide +kernel
  obtain ⟨⟨run, t⟩, hrun⟩ := Option.isSome_iff_exists.mp hrun
  obtain ⟨outcome, hjob⟩ := Option.isSome_iff_exists.mp hjob
  obtain ⟨⟨result, u⟩, hplayed, hresult⟩ := Option.bind_eq_some_iff.mp hjob
  cases result with
  | error e => cases hresult
  | ok started =>
    obtain rfl : started = some outcome := by
      cases started with
      | none => cases hresult
      | some o => exact hresult
    exact ⟨run, outcome, t, u, hrun, hplayed,
      validation_stays_iff (E := plainExporter) rfl hrun hplayed⟩

end Export
