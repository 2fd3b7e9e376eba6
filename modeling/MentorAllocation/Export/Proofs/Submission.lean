import MentorAllocation.Concurrency.Run
import MentorAllocation.Export.Proofs.RedisKey

namespace Export
open Text Concurrency

structure Receipt where
  request : Request
  jobId : String
  started : Bool
  deriving DecidableEq, Repr

structure Desk where
  runner : ExportJobRunner := {}
  receipts : List Receipt := []

/-- A request arrives, or a thread of the runner gets on. -/
inductive Action where
  | submit (request : Request) (random jobId : String) (now : Moment)
  | progress (jobId : String) (update : ExportJobRunner.JobUpdate)

structure Identity where
  year : Int
  center : Option Int
  format : OutputFormat
  delta : Option ExportDeltaWindow
  idempotencyKey : String
  deriving DecidableEq, Repr

section
variable (digest : String → String)

def identity (request : Request) : Identity :=
  ⟨request.year, request.center, request.options.outputFormat, request.delta,
    deriveIdempotencyKey digest request⟩

def keyOf (request : Request) : String :=
  ExportJobRunner.redisKey
    (buildNamespace request.year request.center request.options.outputFormat request.delta)
    (deriveIdempotencyKey digest request)

/-- The ids of `uuid4` are new. -/
def next (d : Desk) : Action → Option Desk
  | .submit request random jobId now =>
    if (d.runner.jobs jobId).isSome ∨ jobId.isEmpty then none
    else match submitJob digest d.runner request random jobId now with
      | (.ok job, runner) =>
        some ⟨runner, d.receipts ++ [⟨request, job.id, (runner.jobs jobId).isSome⟩]⟩
      | (.error _, runner) => some ⟨runner, d.receipts⟩
  | .progress jobId update => some { d with runner := d.runner.updateJob jobId update }

def requested (trace : List (Desk × Action)) : List Request :=
  trace.filterMap fun p => match p.2 with
    | .submit request _ _ _ => some request
    | .progress _ _ => none

/-- Jobs are shared by requests that agree, and by no others. -/
structure Identified (d : Desk) : Prop where
  distinct : ∀ r ∈ d.receipts, ∀ r' ∈ d.receipts,
    identity digest r.request ≠ identity digest r'.request → r.jobId ≠ r'.jobId
  carried : ∀ r ∈ d.receipts, ∃ job, d.runner.jobs r.jobId = some job ∧
    job.filters = r.request.filters ∧ job.options.outputFormat = r.request.options.outputFormat
  once : ∀ id : Identity, (d.receipts.filter fun r =>
    r.started && identity digest r.request == id).length ≤ 1

/-- No two of the requests agree on year, center and format and have windows and keys
that differ and yet run together to one text. -/
def Unambiguous (requests : List Request) : Prop :=
  ∀ r ∈ requests, ∀ r' ∈ requests, r.center = r'.center → r.year = r'.year →
    r.options.outputFormat = r'.options.outputFormat →
    tailText r.delta (deriveIdempotencyKey digest r) =
      tailText r'.delta (deriveIdempotencyKey digest r') →
    r.delta = r'.delta ∧ deriveIdempotencyKey digest r = deriveIdempotencyKey digest r'

/-- The books of a runner: Redis keys, jobs and receipts belong together. -/
structure Served (d : Desk) : Prop where
  keyed : ∀ r ∈ d.receipts, (d.runner.redis.store (keyOf digest r.request)).isSome = true ∧
    d.runner.redis.hash (keyOf digest r.request) "job_id" = some r.jobId
  taken : ∀ key, (d.runner.redis.store key).isSome = true →
    ∃ r ∈ d.receipts, keyOf digest r.request = key
  named : ∀ r ∈ d.receipts, r.jobId.isEmpty = false
  table : ∀ r ∈ d.receipts, ∃ job, d.runner.jobs r.jobId = some job ∧ job.id = r.jobId ∧
    ∃ s ∈ d.receipts, keyOf digest s.request = keyOf digest r.request ∧
      job.filters = s.request.filters ∧ job.options = s.request.options
  apart : ∀ r ∈ d.receipts, ∀ r' ∈ d.receipts, r.jobId = r'.jobId →
    keyOf digest r.request = keyOf digest r'.request
  once : ∀ key, (d.receipts.filter fun r =>
    r.started && keyOf digest r.request == key).length ≤ 1

end

section
variable {digest : String → String} {d d' : Desk}

theorem served_start : Served digest {} := by
  constructor <;> simp

theorem updateJob_store (runner : ExportJobRunner) (jobId : String)
    (update : ExportJobRunner.JobUpdate) :
    (runner.updateJob jobId update).redis.store = runner.redis.store := by
  unfold ExportJobRunner.updateJob
  split <;> rfl

theorem updateJob_hash (runner : ExportJobRunner) (jobId key : String)
    (update : ExportJobRunner.JobUpdate) :
    (runner.updateJob jobId update).redis.hash key "job_id" = runner.redis.hash key "job_id" := by
  unfold ExportJobRunner.updateJob
  split
  · simp only [DeterministicRedis.hset]
    split
    · cases update.error <;> simp [List.lookup_cons]
    · rfl
  · rfl

theorem updateJob_jobs (runner : ExportJobRunner) (jobId id : String)
    (update : ExportJobRunner.JobUpdate) {job : ExportJob} (h : runner.jobs id = some job) :
    ∃ job', (runner.updateJob jobId update).jobs id = some job' ∧ job'.id = job.id ∧
      job'.filters = job.filters ∧ job'.options = job.options := by
  unfold ExportJobRunner.updateJob
  split
  · rename_i j key hj hk
    by_cases hid : id = jobId
    · subst hid
      obtain rfl : j = job := Option.some.inj (hj.symm.trans h)
      exact ⟨update.apply j, by simp, rfl, rfl, rfl⟩
    · exact ⟨job, by simpa [hid] using h, rfl, rfl, rfl⟩
  · exact ⟨job, h, rfl, rfl, rfl⟩

theorem served_progress (h : Served digest d) (jobId : String)
    (update : ExportJobRunner.JobUpdate) :
    Served digest { d with runner := d.runner.updateJob jobId update } := by
  constructor
  · intro r hr
    rw [updateJob_store, updateJob_hash]
    exact h.keyed r hr
  · intro key hkey
    rw [updateJob_store] at hkey
    exact h.taken key hkey
  · exact h.named
  · intro r hr
    obtain ⟨job, hjob, hid, s, hs, hkey, hfilters, hoptions⟩ := h.table r hr
    obtain ⟨job', hjob', hid', hfilters', hoptions'⟩ := updateJob_jobs d.runner jobId _ update hjob
    exact ⟨job', hjob', hid'.trans hid, s, hs, hkey, hfilters'.trans hfilters,
      hoptions'.trans hoptions⟩
  · exact h.apart
  · exact h.once

theorem submit_taken {runner : ExportJobRunner} {filters : ExportFilters}
    {options : ExportOptions} {idempotencyKey nameSpace id : String} {job : ExportJob}
    (hstore : (runner.redis.store
      (ExportJobRunner.redisKey nameSpace idempotencyKey)).isSome = true)
    (hhash : runner.redis.hash (ExportJobRunner.redisKey nameSpace idempotencyKey) "job_id" =
      some id)
    (hid : id.isEmpty = false) (hjob : runner.jobs id = some job)
    (correlationId jobId : String) (now : Moment) :
    runner.submit filters options idempotencyKey nameSpace correlationId jobId now =
      (.ok job, runner) := by
  have hne : ¬ id = "" := by simpa using hid
  simp [ExportJobRunner.submit, DeterministicRedis.setnx, DeterministicRedis.hgetall, hstore,
    hhash, Option.filter, hne, hjob]

def started (runner : ExportJobRunner) (key : String) (job : ExportJob) : ExportJobRunner where
  redis := {
    store := fun k => if k = key then some "RUNNING" else runner.redis.store k
    hash := fun k field => if k = key then
        ([("job_id", job.id), ("status", "PENDING")].lookup field).or (runner.redis.hash k field)
      else runner.redis.hash k field }
  jobs := fun id => if id = job.id then some job else runner.jobs id
  threads := fun id => if id = job.id then some key else runner.threads id

theorem submit_new {runner : ExportJobRunner} {filters : ExportFilters} {options : ExportOptions}
    {idempotencyKey nameSpace : String}
    (hstore : runner.redis.store (ExportJobRunner.redisKey nameSpace idempotencyKey) = none)
    (correlationId jobId : String) (now : Moment) :
    ∃ job : ExportJob, job.id = jobId ∧ job.filters = filters ∧ job.options = options ∧
      runner.submit filters options idempotencyKey nameSpace correlationId jobId now =
        (.ok job, started runner (ExportJobRunner.redisKey nameSpace idempotencyKey) job) := by
  refine ⟨{
    id := jobId
    status := .pending
    filters
    options
    snapshot := ⟨"snapshot-" ++ jobId, now⟩
    nameSpace
    correlationId
    queuedAt := now }, rfl, rfl, rfl, ?_⟩
  simp [ExportJobRunner.submit, DeterministicRedis.setnx, DeterministicRedis.hset, hstore,
    started, ExportJobStatus.text]

/-- The two ways a submission ends: with the job that the key already has, or with a
new one. -/
theorem submitJob_cases (h : Served digest d) (request : Request) (random jobId : String)
    (now : Moment) :
    (∃ r ∈ d.receipts, keyOf digest r.request = keyOf digest request ∧
      ∃ job, d.runner.jobs r.jobId = some job ∧ job.id = r.jobId ∧
        submitJob digest d.runner request random jobId now = (.ok job, d.runner)) ∨
    ((∀ r ∈ d.receipts, keyOf digest r.request ≠ keyOf digest request) ∧
      ∃ job : ExportJob, job.id = jobId ∧ job.filters = request.filters ∧
        job.options = request.options ∧
        submitJob digest d.runner request random jobId now =
          (.ok job, started d.runner (keyOf digest request) job)) := by
  cases hstore : d.runner.redis.store (keyOf digest request) with
  | some value =>
    obtain ⟨r, hr, hkey⟩ := h.taken (keyOf digest request) (by simp [hstore])
    obtain ⟨job, hjob, hid, -⟩ := h.table r hr
    have hhash := (h.keyed r hr).2
    rw [hkey] at hhash
    exact .inl ⟨r, hr, hkey, job, hjob, hid,
      submit_taken (by rw [← keyOf, hstore]; rfl) hhash (h.named r hr) hjob _ jobId now⟩
  | none =>
    refine .inr ⟨fun r hr hkey => ?_, submit_new hstore _ jobId now⟩
    have hsome := (h.keyed r hr).1
    rw [hkey, hstore] at hsome
    cases hsome

/-- A receipt for a job that is there already. -/
theorem served_again (h : Served digest d) {r : Receipt} (hr : r ∈ d.receipts)
    {request : Request} (hkey : keyOf digest r.request = keyOf digest request) :
    Served digest { d with receipts := d.receipts ++ [⟨request, r.jobId, false⟩] } := by
  have hold : ∀ x ∈ d.receipts ++ [⟨request, r.jobId, false⟩], ∃ y ∈ d.receipts,
      y.jobId = x.jobId ∧ keyOf digest y.request = keyOf digest x.request := by
    intro x hx
    rcases List.mem_append.mp hx with hx | hx
    · exact ⟨x, hx, rfl, rfl⟩
    · rw [List.mem_singleton.mp hx]
      exact ⟨r, hr, rfl, hkey⟩
  constructor
  · intro x hx
    obtain ⟨y, hy, hid, hk⟩ := hold x hx
    rw [← hid, ← hk]
    exact h.keyed y hy
  · intro key hk
    obtain ⟨y, hy, hyk⟩ := h.taken key hk
    exact ⟨y, List.mem_append_left _ hy, hyk⟩
  · intro x hx
    obtain ⟨y, hy, hid, -⟩ := hold x hx
    rw [← hid]
    exact h.named y hy
  · intro x hx
    obtain ⟨y, hy, hid, hk⟩ := hold x hx
    obtain ⟨job, hjob, hjid, s, hs, hsk, hrest⟩ := h.table y hy
    exact ⟨job, hid ▸ hjob, hjid.trans hid, s, List.mem_append_left _ hs, hsk.trans hk, hrest⟩
  · intro x hx x' hx' he
    obtain ⟨y, hy, hid, hk⟩ := hold x hx
    obtain ⟨y', hy', hid', hk'⟩ := hold x' hx'
    rw [← hk, ← hk']
    exact h.apart y hy y' hy' (by rw [hid, hid', he])
  · intro key
    rw [List.filter_append]
    simpa using h.once key

/-- A receipt for a job that its request starts. -/
theorem served_started (h : Served digest d) {request : Request} {job : ExportJob}
    (hnew : ∀ r ∈ d.receipts, keyOf digest r.request ≠ keyOf digest request)
    (hfresh : d.runner.jobs job.id = none) (hname : job.id.isEmpty = false)
    (hfilters : job.filters = request.filters) (hoptions : job.options = request.options) :
    Served digest ⟨started d.runner (keyOf digest request) job,
      d.receipts ++ [⟨request, job.id, true⟩]⟩ := by
  have hother : ∀ r ∈ d.receipts, r.jobId ≠ job.id := by
    intro r hr he
    obtain ⟨j, hj, -⟩ := h.table r hr
    rw [he, hfresh] at hj
    cases hj
  constructor
  · intro x hx
    rcases List.mem_append.mp hx with hx | hx
    · simpa [started, hnew x hx] using h.keyed x hx
    · rw [List.mem_singleton.mp hx]
      simp [started, List.lookup_cons]
  · intro key hk
    by_cases hkey : key = keyOf digest request
    · exact ⟨_, List.mem_append_right _ (List.mem_singleton_self _), hkey.symm⟩
    · obtain ⟨y, hy, hyk⟩ := h.taken key (by simpa [started, hkey] using hk)
      exact ⟨y, List.mem_append_left _ hy, hyk⟩
  · intro x hx
    rcases List.mem_append.mp hx with hx | hx
    · exact h.named x hx
    · rw [List.mem_singleton.mp hx]
      exact hname
  · intro x hx
    rcases List.mem_append.mp hx with hx | hx
    · obtain ⟨j, hj, hid, s, hs, hrest⟩ := h.table x hx
      exact ⟨j, by simpa [started, hother x hx] using hj, hid, s,
        List.mem_append_left _ hs, hrest⟩
    · rw [List.mem_singleton.mp hx]
      exact ⟨job, by simp [started], rfl, _,
        List.mem_append_right _ (List.mem_singleton_self _), rfl, hfilters, hoptions⟩
  · intro x hx x' hx' he
    rcases List.mem_append.mp hx with hx | hx <;> rcases List.mem_append.mp hx' with hx' | hx'
    · exact h.apart x hx x' hx' he
    · rw [List.mem_singleton.mp hx'] at he
      exact absurd he (hother x hx)
    · rw [List.mem_singleton.mp hx] at he
      exact absurd he.symm (hother x' hx')
    · rw [List.mem_singleton.mp hx, List.mem_singleton.mp hx']
  · intro key
    rw [List.filter_append]
    by_cases hkey : keyOf digest request = key
    · have hnil : d.receipts.filter (fun r => r.started && keyOf digest r.request == key) = [] := by
        refine List.filter_eq_nil_iff.mpr fun r hr => ?_
        simp [← hkey, hnew r hr]
      rw [hnil]
      exact List.length_filter_le _ _
    · simpa [hkey] using h.once key

/-- One step keeps the books, and a submission leaves its receipt. -/
theorem next_served (h : Served digest d) {action : Action} (hnext : next digest d action = some d')
    (before : List (Desk × Action)) (hreceipts : d.receipts.map (·.request) = requested before) :
    Served digest d' ∧ d'.receipts.map (·.request) = requested (before ++ [(d, action)]) := by
  cases action with
  | progress jobId update =>
    obtain rfl := Option.some.inj hnext
    exact ⟨served_progress h jobId update, by simpa [requested] using hreceipts⟩
  | submit request random jobId now =>
    simp only [next] at hnext
    split at hnext
    · cases hnext
    · rename_i hid
      obtain ⟨hfresh, hname⟩ : d.runner.jobs jobId = none ∧ jobId.isEmpty = false := by
        simpa using hid
      have hmore : requested (before ++ [(d, .submit request random jobId now)]) =
          d.receipts.map (·.request) ++ [request] := by
        rw [hreceipts]
        simp [requested]
      rw [hmore]
      rcases submitJob_cases h request random jobId now with
        ⟨r, hr, hkey, job, hjob, hjid, heq⟩ | ⟨hnew, job, hjid, hfilters, hoptions, heq⟩
      · simp only [heq, hjid, hfresh, Option.some.injEq, Option.isSome_none] at hnext
        subst hnext
        exact ⟨served_again h hr hkey, by simp⟩
      · subst hjid
        simp only [heq, Option.some.injEq, started, if_pos, Option.isSome_some] at hnext
        subst hnext
        exact ⟨served_started h hnew hfresh hname hfilters hoptions, by simp⟩

theorem run_served {trace : List (Desk × Action)}
    (h : Run (fun d a d' => next digest d a = some d') {} trace d) :
    Served digest d ∧ d.receipts.map (·.request) = requested trace := by
  induction h with
  | nil => exact ⟨served_start, rfl⟩
  | snoc before last ih => exact next_served ih.1 last _ ih.2

/-- Requests with one Redis key agree in all that tells exports apart, where none is
ambiguous. -/
theorem keyOf_inj {r r' : Request} {requests : List Request} (h : Unambiguous digest requests)
    (hr : r ∈ requests) (hr' : r' ∈ requests) (hkey : keyOf digest r = keyOf digest r') :
    identity digest r = identity digest r' := by
  obtain ⟨hcenter, hyear, hformat, htail⟩ := redisKey_inj.mp hkey
  obtain ⟨hdelta, hid⟩ := h r hr r' hr' hcenter hyear hformat htail
  simp [identity, hcenter, hyear, hformat, hdelta, hid]

theorem keyOf_congr {r r' : Request} (h : identity digest r = identity digest r') :
    keyOf digest r = keyOf digest r' := by
  simp only [identity, Identity.mk.injEq] at h
  obtain ⟨hyear, hcenter, hformat, hdelta, hkey⟩ := h
  simp [keyOf, hyear, hcenter, hformat, hdelta, hkey]

theorem identified_of_unambiguous (h : Served digest d)
    (hu : Unambiguous digest (d.receipts.map (·.request))) : Identified digest d := by
  have hmem : ∀ r ∈ d.receipts, r.request ∈ d.receipts.map (·.request) :=
    fun r hr => List.mem_map_of_mem hr
  constructor
  · intro r hr r' hr' hne hid
    exact hne (keyOf_inj hu (hmem r hr) (hmem r' hr') (h.apart r hr r' hr' hid))
  · intro r hr
    obtain ⟨job, hjob, -, s, hs, hkey, hfilters, hoptions⟩ := h.table r hr
    have hid := keyOf_inj hu (hmem s hs) (hmem r hr) hkey
    simp only [identity, Identity.mk.injEq] at hid
    obtain ⟨hyear, hcenter, hformat, hdelta, -⟩ := hid
    refine ⟨job, hjob, ?_, ?_⟩
    · rw [hfilters]
      simp [Request.filters, hyear, hcenter, hdelta]
    · rw [hoptions, hformat]
  · intro id
    rcases List.eq_nil_or_concat (d.receipts.filter fun r =>
        r.started && identity digest r.request == id) with hnil | ⟨_, r, hr⟩
    · simp [hnil]
    · have hmemr : r ∈ d.receipts.filter fun r =>
          r.started && identity digest r.request == id := by
        rw [hr]
        simp
      have hid : identity digest r.request = id := by
        have hr' := (List.mem_filter.mp hmemr).2
        simp only [Bool.and_eq_true, beq_iff_eq] at hr'
        exact hr'.2
      refine le_trans ?_ (h.once (keyOf digest r.request))
      refine List.Sublist.length_le (List.monotone_filter_right _ fun s hs => ?_)
      simp only [Bool.and_eq_true, beq_iff_eq] at hs ⊢
      exact ⟨hs.1, keyOf_congr (hs.2.trans hid.symm)⟩

theorem unambiguous_of_identified (h : Served digest d) (hi : Identified digest d) :
    Unambiguous digest (d.receipts.map (·.request)) := by
  intro q hq q' hq' hcenter hyear hformat htail
  obtain ⟨r, hr, rfl⟩ := List.mem_map.mp hq
  obtain ⟨r', hr', rfl⟩ := List.mem_map.mp hq'
  have hkey : keyOf digest r.request = keyOf digest r'.request :=
    redisKey_inj.mpr ⟨hcenter, hyear, hformat, htail⟩
  have hid : r.jobId = r'.jobId := by
    have hhash := (h.keyed r hr).2
    rw [hkey, (h.keyed r' hr').2] at hhash
    exact (Option.some.inj hhash).symm
  have hsame : identity digest r.request = identity digest r'.request := by
    by_contra hne
    exact hi.distinct r hr r' hr' hne hid
  simp only [identity, Identity.mk.injEq] at hsame
  exact ⟨hsame.2.2.2.1, hsame.2.2.2.2⟩

end

def firstMoment : Moment := ⟨0, "2024-03-20T08:00:00+03:30", "20240320080000"⟩

/-- All of year 1403, under a key that looks like a window. -/
def wholeYear : Request where
  correlationId := none
  requestId := none
  year := 1403
  center := none
  candidate := some "delta:2024-03-01T00:00:00+03:30:5:abc"
  delta := none
  options := {}

def changedOnly : Request :=
  { wholeYear with
    candidate := some "abc"
    delta := some ⟨"2024-03-01T00:00:00+03:30", 5⟩ }

def twoSubmissions : List Action :=
  [.submit wholeYear "r1" "job-1" firstMoment, .submit changedOnly "r2" "job-2" firstMoment]

theorem twoSubmissions_replay : (replay (next id) {} twoSubmissions).isSome = true := by
  decide +kernel

theorem twoSubmissions_requested :
    requested (trail (next id) {} twoSubmissions) = [wholeYear, changedOnly] := by
  decide +kernel

end Export
