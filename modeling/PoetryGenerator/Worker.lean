/-
# The workers (`api/app/worker_gpu.py`, `api/app/worker_tts.py`)

`ImageWorker` and `AudioWorker` run the same code on their own job type, with
one difference: the audio worker catches `UnsupportedLanguageError`.  A worker
is a program counter `Pc t` that holds the local variables of `run`,
`run_once`, `process`, `reap_stuck` and `reconcile_orphans` between two
operations; `workerStep` performs the next operation with the outcome its
label names.  Being killed is enabled everywhere.

`Pc.dead` waits for a start, `Pc.pop` is the head of the `while True` loop.  An
exception leaves `run` in the startup pass, and inside the loop it is logged
and the loop goes on.
-/

import PoetryGenerator.WorkerCommon

namespace PoetryGenerator

open Numerals

/-- What the environment of a deployment fixes. -/
structure Config where
  /-- `JOB_MAX_RETRIES`. -/
  maxRetries : ℤ
  /-- `DATA_DIR`. -/
  dataDir : Path
  /-- `int(raw.decode())` for an element that is not ASCII text: an error, or
  the value of other decimal digits of Unicode. -/
  intOfNonAscii : Raw → Option ℤ

/-- The `job_id` of `run_once`, nothing for an invalid list element. -/
def Config.jobId (cfg : Config) (raw : Raw) : Option ℤ :=
  if raw.all (· < 128) then decodeInt raw else cfg.intOfNonAscii raw

/-- Which call of `reap_stuck` and `reconcile_orphans` is running. -/
inductive Phase
  | startup
  | maintenance
deriving DecidableEq, Repr

/-- The `statuses` its reconciler looks for. -/
def Phase.statuses : Phase → List JobStatus
  | .startup => startupStatuses
  | .maintenance => maintenanceStatuses

/-- The objects a call of `process` holds in its session, and the list element
it was called for. -/
structure Session (t : JobType) where
  raw : Raw
  jobId : ℤ
  job : Tracked Job
  asset : Tracked (Asset t)

namespace Session

variable {t : JobType}

/-- `session.commit()`: `none` is a `StaleDataError`, an update of a row that
is gone. -/
def commit (s : Session t) (db : Db) : Option Db :=
  (Tracked.flush Job.write db.jobs s.jobId s.job).bind fun jobs =>
    (Tracked.flush Asset.write (db.assets t) s.job.loaded.refId s.asset).map fun rows =>
      { db with jobs }.withAssets t rows

/-- The session after a commit (`expire_on_commit=False`). -/
def committed (s : Session t) : Session t :=
  { s with job := s.job.committed, asset := s.asset.committed }

/-- The rows of a session before its first commit: both set to running. -/
def start (raw : Raw) (id : ℤ) (job : Job) (asset : Asset t) : Session t :=
  { raw := raw
    jobId := id
    job := ⟨job, { job with status := .running }⟩
    asset := ⟨asset, { asset with status := .running }⟩ }

/-- The columns the processor set on the asset object. -/
def withAttrs (s : Session t) (attrs : Attrs t) : Session t :=
  { s with asset := ⟨s.asset.loaded, { s.asset.cur with attrs }⟩ }

/-- The objects with the values an attempt leaves in them. -/
def withRows (s : Session t) (job : Job) (asset : Asset t) : Session t :=
  { s with job := ⟨s.job.loaded, job⟩, asset := ⟨s.asset.loaded, asset⟩ }

end Session

/-- Where a worker is, between two operations. -/
inductive Pc (t : JobType)
  /-- Not running. -/
  | dead
  /-- `reap_stuck`, before an `LMOVE`. -/
  | reap (ph : Phase)
  /-- `reconcile_orphans`, before `LRANGE jobs:<type>`. -/
  | readQueue (ph : Phase)
  /-- Before `LRANGE jobs:<type>:processing`; `seen` is `in_redis` so far. -/
  | readProcessing (ph : Phase) (seen : List ℤ)
  /-- Before the query. -/
  | select (ph : Phase) (seen : List ℤ)
  /-- Before the `RPUSH` of the first of the selected ids left to push. -/
  | reenqueue (ph : Phase) (ids : List ℤ)
  /-- The head of the loop, before the `BLMOVE` of `run_once`. -/
  | pop
  /-- `process`, before `session.get(Job, job_id)`. -/
  | getJob (raw : Raw) (id : ℤ)
  /-- Before `session.get(Image, job.ref_id)`. -/
  | getAsset (raw : Raw) (id : ℤ) (job : Job)
  /-- Before the commit of a job without an asset. -/
  | commitMissing (raw : Raw) (id : ℤ) (job : Tracked Job)
  /-- Before the commit of `RUNNING`. -/
  | commitRunning (s : Session t)
  /-- Calling the processor. -/
  | call (s : Session t)
  /-- `handle_job_failure`, before `INCR`. -/
  | incr (s : Session t) (exc : Str)
  /-- Before `EXPIRE`; `n` is what `INCR` returned. -/
  | expire (s : Session t) (exc : Str) (n : ℕ)
  /-- Before the last commit of `process`, which then returns `requeue`. -/
  | commitFinal (s : Session t) (e : Ending) (requeue : Bool)
  /-- `run_once`, before the `RPUSH` of a retry. -/
  | requeue (raw : Raw) (id : ℤ)
  /-- Before the `LREM` of `ack`. -/
  | ack (raw : Raw)
  /-- After `run_once`, before the clock is compared. -/
  | tick

/-- What a worker's next operation meets. -/
inductive Act (t : JobType)
  /-- The process is started. -/
  | start
  /-- The process is killed. -/
  | kill
  /-- The outcome of a Redis command or a database operation. -/
  | reply (r : Reply)
  /-- The answer of the reconciler's query, in the order the database gives. -/
  | rows (ids : List ℤ)
  /-- The processor returned a path; `attrs` are the columns it set on the
  asset, `wrote` the files it wrote. -/
  | returns (path : Str) (attrs : Attrs t) (wrote : List Path)
  /-- It raised. -/
  | raises (exc : Str) (attrs : Attrs t) (wrote : List Path)
  /-- It raised `UnsupportedLanguageError`. -/
  | unsupported (exc : Str) (attrs : Attrs t) (wrote : List Path)
  /-- Whether the maintenance interval is over. -/
  | due (b : Bool)

namespace Pc

variable {t : JobType}

/-- Where an exception in a maintenance function leads. -/
def raised : Phase → Pc t
  | .startup => dead
  | .maintenance => pop

/-- The ids left to push, or the loop when none is. -/
def reenqueueRest (ph : Phase) : List ℤ → Pc t
  | [] => pop
  | ids => reenqueue ph ids

/-- After `BLMOVE` was answered. -/
def popped (cfg : Config) : Option Raw → Pc t
  | none => tick
  | some raw =>
    match cfg.jobId raw with
    | none => ack raw
    | some id => getJob raw id

/-- After the job was read: an unknown job and a job already done are skipped. -/
def gotJob (raw : Raw) (id : ℤ) : Option Job → Pc t
  | none => ack raw
  | some job => if job.status = .done then ack raw else getAsset raw id job

/-- `"image not found"` and `"audio not found"`. -/
def notFound : JobType → Str
  | .image => "image not found".toList
  | .audio => "audio not found".toList

/-- After the asset was read. -/
def gotAsset (raw : Raw) (id : ℤ) (job : Job) : Option (Asset t) → Pc t
  | none => commitMissing raw id ⟨job, { job with status := .failed, error := some (notFound t) }⟩
  | some a => commitRunning (Session.start raw id job a)

/-- The end of an attempt: its rows are set and wait for the commit. -/
def ended (cfg : Config) (s : Session t) (e : Ending) : Pc t :=
  let rows := e.rows cfg.maxRetries s.job.cur s.asset.cur
  commitFinal (s.withRows rows.1 rows.2.1) e rows.2.2

/-- After `UnsupportedLanguageError`: the audio worker does not retry it, to the
image worker it is an exception as any other. -/
def afterUnsupported (cfg : Config) (s : Session t) (exc : Str) : Pc t :=
  match t with
  | .image => incr s exc
  | .audio => ended cfg s (.unsupported exc)

/-- After `process` returned. -/
def processed (raw : Raw) (id : ℤ) (again : Bool) : Pc t :=
  if again then requeue raw id else ack raw

end Pc

/-- The next operation of the worker of type `t`. -/
def workerStep (cfg : Config) (t : JobType) (w : World) : Pc t → Act t → Option (World × Pc t)
  | _, .kill => some (w, .dead)
  | .dead, .start => some (w, .reap .startup)
  | .reap ph, .reply r =>
    let (moved, redis) := w.redis.lmove t
    some (w.command r redis,
      if r = .ok then (if moved.isSome then .reap ph else .readQueue ph) else .raised ph)
  | .readQueue ph, .reply r =>
    some (w, if r = .ok then .readProcessing ph (idsOf (w.redis.queue t)) else .raised ph)
  | .readProcessing ph seen, .reply r =>
    some (w, if r = .ok then .select ph (seen ++ idsOf (w.redis.processing t)) else .raised ph)
  | .select ph seen, .rows ids =>
    if ids.Perm (w.db.jobIds t ph.statuses) then
      some (w, .reenqueueRest ph (ids.filter (· ∉ seen)))
    else none
  | .select ph _, .reply r => if r = .ok then none else some (w, .raised ph)
  | .reenqueue ph (id :: ids), .reply r =>
    some (w.rpush r t id, if r = .ok then .reenqueueRest ph ids else .raised ph)
  | .pop, .reply r =>
    let (moved, redis) := w.redis.blmove t
    some (w.command r redis,
      match r with
      | .ok => .popped cfg moved
      | .before .timeout | .after .timeout => .tick
      | _ => .pop)
  | .getJob raw id, .reply r => some (w, if r = .ok then .gotJob raw id (w.db.job id) else .pop)
  | .getAsset raw id job, .reply r =>
    some (w, if r = .ok then .gotAsset raw id job (w.db.asset t job.refId) else .pop)
  | .commitMissing raw id job, .reply r =>
    match Tracked.flush Job.write w.db.jobs id job with
    | none => some (w, .pop)
    | some jobs => some (w.commit r { w.db with jobs }, if r = .ok then .ack raw else .pop)
  | .commitRunning s, .reply r =>
    match s.commit w.db with
    | none => some (w, .pop)
    | some db => some (w.commit r db, if r = .ok then .call s.committed else .pop)
  | .call s, .returns path attrs wrote =>
    some (w.write wrote, .ended cfg (s.withAttrs attrs) (.finished path))
  | .call s, .raises exc attrs wrote => some (w.write wrote, .incr (s.withAttrs attrs) exc)
  | .call s, .unsupported exc attrs wrote =>
    some (w.write wrote, .afterUnsupported cfg (s.withAttrs attrs) exc)
  | .incr s exc, .reply r =>
    some (w.command r (w.redis.incr t s.jobId),
      if r = .ok then .expire s exc (w.redis.retry t s.jobId + 1)
      else .ended cfg s (.failed exc none))
  | .expire s exc n, .reply r =>
    some (w, .ended cfg s (.failed exc (if r = .ok then some n else none)))
  | .commitFinal s _ again, .reply r =>
    match s.commit w.db with
    | none => some (w, .pop)
    | some db =>
      some (w.commit r db, if r = .ok then .processed s.raw s.jobId again else .pop)
  | .requeue raw id, .reply r => some (w.rpush r t id, if r = .ok then .ack raw else .pop)
  | .ack raw, .reply r =>
    some (w.command r (w.redis.lrem t raw), if r = .ok then .tick else .pop)
  | .tick, .due b => some (w, if b then .reap .maintenance else .pop)
  | _, _ => none

end PoetryGenerator
