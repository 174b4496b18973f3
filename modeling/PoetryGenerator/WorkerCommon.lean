/-
# Shared worker mechanics (`api/app/worker_common.py`)

What the two workers have in common, as functions: the reaper, the reconciler
and the bookkeeping of a failed attempt.  They are stated here as they run with
nobody else stepping and no operation failing; `PoetryGenerator.Worker` splits
them into single operations.
-/

import PoetryGenerator.World

namespace PoetryGenerator

open Numerals

/-- `reap_stuck`: moves ids from the processing list to the queue until none is
left, and counts them. -/
def reapStuck (r : Redis) (t : JobType) (recovered : ℕ := 0) : Redis × ℕ :=
  match _h : r.lmove t with
  | (none, _) => (r, recovered)
  | (some _, r') => reapStuck r' t (recovered + 1)
termination_by (r.processing t).length
decreasing_by
  rcases r.lmove_cases t with ⟨-, he⟩ | ⟨raw, rest, hp, he⟩
  · rw [he] at _h
    cases _h
  · rw [he] at _h
    obtain ⟨-, rfl⟩ := Prod.mk.inj _h
    rw [Redis.processing_setLists, hp, List.length_cons]
    exact Nat.lt_succ_self _

/-- The ids a list denotes; malformed elements are skipped. -/
def idsOf (l : List Raw) : List ℤ := l.filterMap decodeInt

/-- The default `statuses` of `reconcile_orphans`. -/
def startupStatuses : List JobStatus := [.queued, .running]

/-- The `statuses` of the periodic call. -/
def maintenanceStatuses : List JobStatus := [.queued]

/-- `SELECT jobs.id FROM jobs WHERE type = t AND status IN statuses`. -/
def Db.jobIds (db : Db) (t : JobType) (statuses : List JobStatus) : List ℤ :=
  db.jobs.selectKeys fun _ job => job.type = t && job.status ∈ statuses

/-- The pushes of `reconcile_orphans`, `rows` being the answer of its query in
the order the database gave it. -/
def reconcileRows (r : Redis) (t : JobType) (seen : List ℤ) : List ℤ → Redis × ℕ
  | [] => (r, 0)
  | id :: rows =>
    if id ∈ seen then reconcileRows r t seen rows
    else
      let rest := reconcileRows (r.rpush t id) t seen rows
      (rest.1, rest.2 + 1)

/-- `reconcile_orphans`: pushes the selected jobs that no list element denotes,
and counts them. -/
def reconcileOrphans (r : Redis) (t : JobType) (rows : List ℤ) : Redis × ℕ :=
  reconcileRows r t (idsOf (r.queue t) ++ idsOf (r.processing t)) rows

theorem mem_idsOf {l : List Raw} {id : ℤ} : id ∈ idsOf l ↔ ∃ raw ∈ l, Denotes raw id :=
  List.mem_filterMap

theorem Db.mem_jobIds {db : Db} {t : JobType} {statuses : List JobStatus} {id : ℤ} :
    id ∈ db.jobIds t statuses ↔ ∃ job, db.job id = some job ∧ job.type = t ∧ job.status ∈ statuses := by
  rw [Db.jobIds, Table.mem_selectKeys]
  simp only [Bool.and_eq_true, decide_eq_true_eq]
  rfl

/-! ### A failed attempt -/

/-- `[:500]`. -/
def errorText (s : Str) : Str := s.take 500

/-- How an attempt of `process` ends before its last commit. -/
inductive Ending
  /-- The processor returned a path. -/
  | finished (path : Str)
  /-- It raised `UnsupportedLanguageError` (audio worker). -/
  | unsupported (exc : Str)
  /-- It raised; `attempts` is what `INCR` returned, nothing if the bookkeeping
  in Redis raised. -/
  | failed (exc : Str) (attempts : Option ℕ)
deriving DecidableEq, Repr

/-- `handle_job_failure`: the rows and whether to enqueue again. -/
def handleJobFailure {t : JobType} (maxRetries : ℤ) (exc : Str) (attempts : Option ℕ)
    (job : Job) (asset : Asset t) : Job × Asset t × Bool :=
  match attempts with
  | none =>
    ({ job with
        status := .failed
        error := some (errorText (exc ++ " [retry tracking unavailable]".toList)) },
      { asset with status := .failed }, false)
  | some n =>
    if (n : ℤ) ≤ maxRetries then
      ({ job with
          status := .queued
          error := some (errorText ("retry ".toList ++ strOfInt n ++ "/".toList ++
            strOfInt maxRetries ++ ": ".toList ++ exc)) },
        { asset with status := .pending }, true)
    else
      ({ job with status := .failed, error := some (errorText exc) },
        { asset with status := .failed }, false)

/-- The rows an attempt commits at its end, and whether to enqueue again. -/
def Ending.rows {t : JobType} (maxRetries : ℤ) (e : Ending) (job : Job) (asset : Asset t) :
    Job × Asset t × Bool :=
  match e with
  | .finished path =>
    ({ job with status := .done, error := none },
      { asset with path := some path, status := .done }, false)
  | .unsupported exc =>
    ({ job with status := .failed, error := some (errorText exc) },
      { asset with status := .failed }, false)
  | .failed exc attempts => handleJobFailure maxRetries exc attempts job asset

end PoetryGenerator
