import MentorAllocation.Export.Models

namespace Export
open Text

/-- `DeterministicRedis`: texts and hashes share their keys. Its keys live. -/
structure DeterministicRedis where
  store : String → Option String := fun _ => none
  hash : String → String → Option String := fun _ _ => none

namespace DeterministicRedis

def setnx (redis : DeterministicRedis) (key value : String) : Bool × DeterministicRedis :=
  if (redis.store key).isSome then (false, redis)
  else (true, { redis with store := fun k => if k = key then some value else redis.store k })

def hset (redis : DeterministicRedis) (key : String) (mapping : List (String × String)) :
    DeterministicRedis :=
  { redis with hash := fun k field =>
      if k = key then (mapping.lookup field).or (redis.hash k field) else redis.hash k field }

def hgetall (redis : DeterministicRedis) (key : String) : String → Option String := redis.hash key

end DeterministicRedis

/-- The state of an `ExportJobRunner`: its jobs by id, and the Redis key each job's
thread was started with. -/
structure ExportJobRunner where
  redis : DeterministicRedis := {}
  jobs : String → Option ExportJob := fun _ => none
  threads : String → Option String := fun _ => none

namespace ExportJobRunner

def redisKey (nameSpace idempotencyKey : String) : String :=
  "phase6:exports:" ++ nameSpace ++ ":" ++ idempotencyKey

/-- `submit`. The id is what `uuid4` gives and the moment what the clock reads, where they
are asked. -/
def submit (runner : ExportJobRunner) (filters : ExportFilters) (options : ExportOptions)
    (idempotencyKey nameSpace correlationId : String) (jobId : String) (now : Moment) :
    Except String ExportJob × ExportJobRunner :=
  let key := redisKey nameSpace idempotencyKey
  let (taken, redis) := runner.redis.setnx key "RUNNING"
  if !taken then
    let existing := ((redis.hgetall key "job_id").filter (!·.isEmpty)).bind runner.jobs
    match existing with
    | some job => (.ok job, runner)
    | none => (.error "EXPORT_DUPLICATE", runner)
  else
    let job : ExportJob := {
      id := jobId
      status := .pending
      filters
      options
      snapshot := ⟨"snapshot-" ++ jobId, now⟩
      nameSpace
      correlationId
      queuedAt := now }
    let redis := redis.hset key [("job_id", jobId), ("status", ExportJobStatus.pending.text)]
    (.ok job, {
      redis
      jobs := fun id => if id = jobId then some job else runner.jobs id
      threads := fun id => if id = jobId then some key else runner.threads id })

structure JobUpdate where
  status : ExportJobStatus
  startedAt : Option Moment := none
  finishedAt : Option Moment := none
  manifest : Option ExportManifest := none
  error : Option ErrorPayload := none

def JobUpdate.apply (update : JobUpdate) (job : ExportJob) : ExportJob :=
  { job with
    status := update.status
    startedAt := update.startedAt.or job.startedAt
    finishedAt := update.finishedAt.or job.finishedAt
    manifest := update.manifest.or job.manifest
    error := update.error.or job.error }

/-- A thread of the runner records where its job is, in the table and in Redis. -/
def updateJob (runner : ExportJobRunner) (jobId : String) (update : JobUpdate) :
    ExportJobRunner :=
  match runner.jobs jobId, runner.threads jobId with
  | some job, some key => { runner with
      jobs := fun id => if id = jobId then some (update.apply job) else runner.jobs id
      redis := runner.redis.hset key (("status", update.status.text) ::
        update.error.toList.map fun error => ("error", error.errorCode)) }
  | _, _ => runner

end ExportJobRunner

end Export
