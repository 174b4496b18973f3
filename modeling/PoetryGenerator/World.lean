/-
# What the processes share

The database, Redis and the asset files, with the outcomes an operation on them
can have.  A Redis command or a commit is answered, or it raises before or
after it took effect (a lost connection looks the same from outside).

`redis_from_url` has redis-py send a command again, up to three times, when the
connection is lost.  All that is sent for one call is one command here, and takes
effect at most once: that a resent `RPUSH` or `INCR` counts twice is left out.

`History` is kept for the specification: the rows that were ever inserted, from
which the sequences never give a key again, and the ids that were ever pushed.
-/

import PoetryGenerator.Redis
import PoetryGenerator.Repository

namespace PoetryGenerator

/-- What an exception is to `reliable_pop`: `RedisTimeoutError`, or another. -/
inductive Exn
  | timeout
  | other
deriving DecidableEq, Repr

/-- The outcome of one Redis command or one database operation. -/
inductive Reply
  | ok
  | before (e : Exn)
  | after (e : Exn)
deriving DecidableEq, Repr

/-- The operation took effect. -/
def Reply.takesEffect : Reply → Bool
  | .before _ => false
  | _ => true

/-- What ran so far: the poems and the jobs (id, type and `ref_id`) ever
inserted, and the job ids ever pushed to a queue. -/
structure History where
  poems : List ℤ := []
  jobs : List (ℤ × JobType × ℤ) := []
  pushed : List ℤ := []

/-- The keys of a call are new: a sequence gives no value twice. -/
def History.Fresh (h : History) (ids : NewIds) : Prop :=
  ids.poem ∉ h.poems ∧ ids.job .image ≠ ids.job .audio ∧
    ∀ t, ∀ x ∈ h.jobs, x.1 ≠ ids.job t ∧ x.2 ≠ (t, ids.asset t)

instance (h : History) (ids : NewIds) : Decidable (h.Fresh ids) :=
  inferInstanceAs (Decidable (_ ∧ _ ∧ _))

/-- The shared state. -/
structure World where
  db : Db
  redis : Redis
  files : Finset Path
  hist : History

namespace World

/-- Nothing stored yet. -/
def empty : World := ⟨.empty, .empty, ∅, {}⟩

/-- The effect of a Redis command, unless it raised before it. -/
def command (w : World) (r : Reply) (redis : Redis) : World :=
  if r.takesEffect then { w with redis } else w

/-- `RPUSH jobs:<type> id`, unless it raised before its effect. -/
def rpush (w : World) (r : Reply) (t : JobType) (id : ℤ) : World :=
  if r.takesEffect then
    { w with redis := w.redis.rpush t id, hist := { w.hist with pushed := id :: w.hist.pushed } }
  else w

/-- The effect of a commit, unless it raised before it. -/
def commit (w : World) (r : Reply) (db : Db) : World :=
  if r.takesEffect then { w with db } else w

/-- The files a processor wrote. -/
def write (w : World) (wrote : List Path) : World := { w with files := w.files ∪ wrote.toFinset }

/-- The commit of `persist_poem`. -/
def persist (w : World) (a : PersistArgs) (ids : NewIds) : World :=
  { w with
    db := (persistPoem w.db a ids).1
    hist :=
      { w.hist with
        poems := ids.poem :: w.hist.poems
        jobs := (([.image, .audio].filter a.wants).map fun t => (ids.job t, t, ids.asset t)) ++
          w.hist.jobs } }

section
variable (w : World) (r : Reply) (redis : Redis) (db' : Db) (t : JobType) (id : ℤ) (l : List Path)

@[simp] theorem db_command : (w.command r redis).db = w.db := by
  unfold command; split_ifs <;> rfl

@[simp] theorem hist_command : (w.command r redis).hist = w.hist := by
  unfold command; split_ifs <;> rfl

theorem redis_command : (w.command r redis).redis = if r.takesEffect then redis else w.redis := by
  unfold command; split_ifs <;> rfl

theorem command_self : w.command r w.redis = w := by
  unfold command; split_ifs <;> rfl

@[simp] theorem db_rpush : (w.rpush r t id).db = w.db := by
  unfold rpush; split_ifs <;> rfl

@[simp] theorem poems_rpush : (w.rpush r t id).hist.poems = w.hist.poems := by
  unfold rpush; split_ifs <;> rfl

@[simp] theorem jobs_rpush : (w.rpush r t id).hist.jobs = w.hist.jobs := by
  unfold rpush; split_ifs <;> rfl

theorem redis_rpush :
    (w.rpush r t id).redis = if r.takesEffect then w.redis.rpush t id else w.redis := by
  unfold rpush; split_ifs <;> rfl

theorem pushed_rpush : (w.rpush r t id).hist.pushed =
    if r.takesEffect then id :: w.hist.pushed else w.hist.pushed := by
  unfold rpush; split_ifs <;> rfl

theorem queue_rpush (u : JobType) : (w.rpush r t id).redis.queue u =
    if r.takesEffect = true ∧ u = t then w.redis.queue u ++ [Numerals.encodeInt id]
    else w.redis.queue u := by
  rw [redis_rpush]
  by_cases hr : r.takesEffect = true
  · by_cases hu : u = t
    · subst hu
      simp [hr]
    · simp [hr, hu, Redis.rpush, Redis.queue_setLists_of_ne]
  · simp [hr]

@[simp] theorem processing_rpush (u : JobType) :
    (w.rpush r t id).redis.processing u = w.redis.processing u := by
  rw [redis_rpush]
  split_ifs
  · by_cases hu : u = t
    · subst hu
      exact Redis.processing_rpush ..
    · exact Redis.processing_setLists_of_ne _ _ _ _ hu
  · rfl

@[simp] theorem redis_commit : (w.commit r db').redis = w.redis := by
  unfold commit; split_ifs <;> rfl

@[simp] theorem hist_commit : (w.commit r db').hist = w.hist := by
  unfold commit; split_ifs <;> rfl

@[simp] theorem files_command : (w.command r redis).files = w.files := by
  unfold command; split_ifs <;> rfl

@[simp] theorem files_rpush : (w.rpush r t id).files = w.files := by
  unfold rpush; split_ifs <;> rfl

@[simp] theorem files_commit : (w.commit r db').files = w.files := by
  unfold commit; split_ifs <;> rfl

theorem commit_eq (hr : r.takesEffect = true) : w.commit r db' = { w with db := db' } := if_pos hr

theorem commit_eq_self (hr : r.takesEffect = false) : w.commit r db' = w := by
  rw [commit, hr]; rfl

end

end World
end PoetryGenerator
