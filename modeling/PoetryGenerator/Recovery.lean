/-
# Startup recovery

`reap_stuck` and `reconcile_orphans` over any database and any content of the
two lists.  Each has a closed form (`reapStuck_eq`, `reconcileOrphans_eq`): the
reaper puts the processing list, reversed, before the queue, and the reconciler
appends the selected ids that no element denotes.  What recovery restores, what
it leaves alone and that it is idempotent follow from these.

`passActs` are the operations of a pass that nobody disturbs; `run_passActs` says
that the worker performs them and ends at the head of its loop with the lists the
two functions compute.
-/

import PoetryGenerator.Steps

namespace PoetryGenerator

open Numerals

variable {cfg : Config} {w : World} {r : Redis} {t : JobType}

/-! ### reap_stuck -/

@[simp] theorem Redis.setLists_self (r : Redis) (t : JobType) :
    r.setLists t (r.queue t) (r.processing t) = r := by
  simp [Redis.setLists]

@[simp] theorem Redis.setLists_setLists (r : Redis) (t : JobType) (q p q' p' : List Raw) :
    (r.setLists t q p).setLists t q' p' = r.setLists t q' p' := by
  simp [Redis.setLists]

/-- **`reap_stuck` in closed form.** -/
theorem reapStuck_eq (r : Redis) (t : JobType) (n : ℕ) : reapStuck r t n =
    (r.setLists t ((r.processing t).reverse ++ r.queue t) [], n + (r.processing t).length) := by
  induction hp : r.processing t generalizing r n with
  | nil =>
      have hl : r.lmove t = (none, r) := by rw [Redis.lmove, hp]
      rw [reapStuck, hl, List.reverse_nil, List.nil_append, ← hp, Redis.setLists_self, hp]
      rfl
  | cons raw rest ih =>
      have hl : r.lmove t = (some raw, r.setLists t (raw :: r.queue t) rest) := by
        rw [Redis.lmove, hp]
      rw [reapStuck, hl]
      show reapStuck (r.setLists t (raw :: r.queue t) rest) t (n + 1) = _
      rw [ih _ _ (Redis.processing_setLists ..), Redis.queue_setLists, Redis.setLists_setLists,
        List.reverse_cons, List.append_assoc, List.singleton_append, List.length_cons, Nat.add_assoc,
        Nat.add_comm 1]

/-! ### reconcile_orphans -/

theorem reconcileRows_eq (r : Redis) (t : JobType) (seen rows : List ℤ) :
    reconcileRows r t seen rows =
      (r.setLists t (r.queue t ++ (rows.filter (· ∉ seen)).map encodeInt) (r.processing t),
        (rows.filter (· ∉ seen)).length) := by
  induction rows generalizing r with
  | nil => simp [reconcileRows]
  | cons id rows ih =>
      rw [reconcileRows]
      split_ifs with hseen
      · rw [ih, List.filter_cons_of_neg (by simpa using hseen)]
      · simp only
        rw [ih, List.filter_cons_of_pos (by simpa using hseen), List.map_cons, List.length_cons,
          Redis.queue_rpush, Redis.processing_rpush, List.append_assoc, List.singleton_append,
          Redis.rpush, Redis.setLists_setLists]

/-- The selected ids that no element of the lists denotes. -/
def orphans (r : Redis) (t : JobType) (rows : List ℤ) : List ℤ :=
  rows.filter (· ∉ idsOf (r.entries t))

/-- **`reconcile_orphans` in closed form.** -/
theorem reconcileOrphans_eq (r : Redis) (t : JobType) (rows : List ℤ) :
    reconcileOrphans r t rows =
      (r.setLists t (r.queue t ++ (orphans r t rows).map encodeInt) (r.processing t),
        (orphans r t rows).length) := by
  rw [reconcileOrphans, reconcileRows_eq, orphans, Redis.entries, idsOf, idsOf, idsOf,
    List.filterMap_append]

theorem mem_orphans {rows : List ℤ} {id : ℤ} :
    id ∈ orphans r t rows ↔ id ∈ rows ∧ ∀ raw ∈ r.entries t, ¬ Denotes raw id := by
  rw [orphans, List.mem_filter, decide_eq_true_eq, mem_idsOf]
  simp only [not_exists, not_and]

/-! ### Both -/

/-- The lists after `reap_stuck` and `reconcile_orphans`. -/
def recover (r : Redis) (t : JobType) (rows : List ℤ) : Redis :=
  (reconcileOrphans (reapStuck r t).1 t rows).1

/-- The reaper does not change which ids the lists hold. -/
theorem orphans_reapStuck (r : Redis) (t : JobType) (rows : List ℤ) :
    orphans (reapStuck r t).1 t rows = orphans r t rows := by
  refine List.filter_congr fun id _ => ?_
  rw [decide_eq_decide, mem_idsOf, mem_idsOf, reapStuck_eq]
  simp only [Redis.entries, Redis.queue_setLists, Redis.processing_setLists, List.append_nil,
    List.mem_append, List.mem_reverse, or_comm]

theorem recover_eq (r : Redis) (t : JobType) (rows : List ℤ) : recover r t rows =
    r.setLists t
      ((r.processing t).reverse ++ r.queue t ++ (orphans r t rows).map encodeInt) [] := by
  rw [recover, reconcileOrphans_eq, orphans_reapStuck, reapStuck_eq, Redis.queue_setLists,
    Redis.processing_setLists, Redis.setLists_setLists]

/-- The elements that were on the lists, and the orphans. -/
theorem queue_recover_perm (r : Redis) (t : JobType) (rows : List ℤ) :
    ((recover r t rows).queue t).Perm (r.entries t ++ (orphans r t rows).map encodeInt) := by
  rw [recover_eq, Redis.queue_setLists]
  refine List.Perm.append_right _ ?_
  exact (List.perm_append_comm).trans ((List.reverse_perm _).append_left _)

theorem entries_recover (r : Redis) (t : JobType) (rows : List ℤ) :
    (recover r t rows).entries t = (recover r t rows).queue t := by
  rw [Redis.entries, recover_eq, Redis.processing_setLists, List.append_nil]

/-- Every selected id is denoted by an element afterwards. -/
theorem exists_denotes_recover {rows : List ℤ} {id : ℤ} (h : id ∈ rows) (hkey : IsKey id) :
    ∃ raw ∈ (recover r t rows).queue t, Denotes raw id := by
  by_cases hold : ∃ raw ∈ r.entries t, Denotes raw id
  · obtain ⟨raw, hraw, hd⟩ := hold
    exact ⟨raw, (queue_recover_perm r t rows).mem_iff.2 (List.mem_append_left _ hraw), hd⟩
  · have hid : id ∈ orphans r t rows :=
      mem_orphans.2 ⟨h, fun raw hraw hd => hold ⟨raw, hraw, hd⟩⟩
    exact ⟨encodeInt id, (queue_recover_perm r t rows).mem_iff.2
      (List.mem_append_right _ (List.mem_map_of_mem hid)), denotes_encodeInt hkey⟩

/-- An element keeps its multiplicity: what is added denotes something new. -/
theorem count_recover {rows : List ℤ} {raw : Raw} (hkeys : ∀ id ∈ rows, IsKey id) (h : raw ∈ r.entries t) :
    ((recover r t rows).queue t).count raw = (r.entries t).count raw := by
  rw [(queue_recover_perm r t rows).count_eq, List.count_append, Nat.add_eq_left,
    List.count_eq_zero]
  intro hmem
  obtain ⟨id, hid, rfl⟩ := List.mem_map.1 hmem
  exact (mem_orphans.1 hid).2 _ h (denotes_encodeInt (hkeys id (mem_orphans.1 hid).1))

/-- **A second pass changes nothing.** -/
theorem recover_idem {rows rows' : List ℤ} (hkeys : ∀ id ∈ rows, IsKey id) (h : ∀ id ∈ rows', id ∈ rows) :
    recover (recover r t rows) t rows' = recover r t rows := by
  have hnone : orphans (recover r t rows) t rows' = [] := by
    refine List.filter_eq_nil_iff.2 fun id hid => ?_
    obtain ⟨raw, hraw, hd⟩ := exists_denotes_recover (r := r) (t := t) (h id hid) (hkeys id (h id hid))
    rw [decide_eq_true_eq, not_not, mem_idsOf]
    exact ⟨raw, entries_recover r t rows ▸ hraw, hd⟩
  rw [recover_eq (recover r t rows), hnone, List.map_nil, List.append_nil, recover_eq r,
    Redis.processing_setLists, Redis.queue_setLists, Redis.setLists_setLists, List.reverse_nil,
    List.nil_append]

/-! ### The worker performs them -/

/-- A worker that nobody disturbs. -/
def soloStep (cfg : Config) (t : JobType) (x : World × Pc t) (a : Act t) : Option (World × Pc t) :=
  workerStep cfg t x.1 x.2 a

/-- The ids pushed one after the other. -/
def World.pushAll (w : World) (t : JobType) (ids : List ℤ) : World :=
  ids.foldl (fun w id => w.rpush .ok t id) w

theorem World.pushAll_spec (w : World) (t : JobType) (ids : List ℤ) :
    (w.pushAll t ids).db = w.db ∧ (w.pushAll t ids).files = w.files ∧
      (w.pushAll t ids).redis =
        w.redis.setLists t (w.redis.queue t ++ ids.map encodeInt) (w.redis.processing t) := by
  induction ids generalizing w with
  | nil => exact ⟨rfl, rfl, by simp [World.pushAll]⟩
  | cons id ids ih =>
      obtain ⟨hdb, hfiles, hredis⟩ := ih (w.rpush .ok t id)
      refine ⟨hdb, hfiles, hredis.trans ?_⟩
      show (w.redis.rpush t id).setLists t _ _ = _
      rw [World.redis_rpush]
      simp [Reply.takesEffect, Redis.rpush]

/-- The operations of a pass: one `LMOVE` for each element and one more, two
`LRANGE`, the query, and one `RPUSH` for each orphan. -/
def passActs (r : Redis) (t : JobType) (rows : List ℤ) : List (Act t) :=
  List.replicate ((r.processing t).length + 1) (.reply .ok) ++
    ([.reply .ok, .reply .ok, .rows rows] ++
      List.replicate (orphans r t rows).length (.reply .ok))

theorem run_reap (w : World) (ph : Phase) :
    Runs.run (soloStep cfg t) (w, .reap ph)
        (List.replicate ((w.redis.processing t).length + 1) (.reply .ok)) =
      some ({ w with redis := (reapStuck w.redis t).1 }, .readQueue ph) := by
  induction hp : w.redis.processing t generalizing w with
  | nil =>
      have hl : w.redis.lmove t = (none, w.redis) := by rw [Redis.lmove, hp]
      rw [reapStuck_eq, hp, List.reverse_nil, List.nil_append, ← hp, Redis.setLists_self, hp]
      simp [Runs.run, soloStep, workerStep, hl, World.command, Reply.takesEffect]
  | cons raw rest ih =>
      have hl : w.redis.lmove t = (some raw, w.redis.setLists t (raw :: w.redis.queue t) rest) := by
        rw [Redis.lmove, hp]
      have hstep : soloStep cfg t (w, .reap ph) (.reply .ok) =
          some ({ w with redis := w.redis.setLists t (raw :: w.redis.queue t) rest }, .reap ph) := by
        simp [soloStep, workerStep, hl, World.command, Reply.takesEffect]
      have hreap : (reapStuck (w.redis.setLists t (raw :: w.redis.queue t) rest) t).1 =
          (reapStuck w.redis t).1 := by
        rw [reapStuck_eq, reapStuck_eq, hp]
        simp
      rw [List.length_cons, List.replicate_succ, Runs.run_cons, hstep, Option.bind_some,
        ih _ (Redis.processing_setLists ..), hreap]

theorem run_reenqueue (w : World) (ph : Phase) (ids : List ℤ) :
    Runs.run (soloStep cfg t) (w, .reenqueueRest ph ids) (List.replicate ids.length (.reply .ok)) =
      some (w.pushAll t ids, .pop) := by
  induction ids generalizing w with
  | nil => rfl
  | cons id ids ih =>
      have hstep : soloStep cfg t (w, .reenqueueRest ph (id :: ids)) (.reply .ok) =
          some (w.rpush .ok t id, .reenqueueRest ph ids) := rfl
      rw [List.length_cons, List.replicate_succ, Runs.run_cons, hstep, Option.bind_some, ih]
      rfl

/-- **A pass that nobody disturbs computes `recover`**, leaves the database and
the files alone, and ends at the head of the loop. -/
theorem run_passActs (cfg : Config) (w : World) (ph : Phase) {rows : List ℤ}
    (h : rows.Perm (w.db.jobIds t ph.statuses)) : ∃ w',
      Runs.run (soloStep cfg t) (w, .reap ph) (passActs w.redis t rows) = some (w', .pop) ∧
      w'.redis = recover w.redis t rows ∧ w'.db = w.db ∧ w'.files = w.files := by
  let w₁ : World := { w with redis := (reapStuck w.redis t).1 }
  have hmid : Runs.run (soloStep cfg t) (w₁, .readQueue ph) [.reply .ok, .reply .ok, .rows rows] =
      some (w₁, .reenqueueRest ph (orphans w.redis t rows)) := by
    have hids : rows.filter (· ∉ idsOf (w₁.redis.queue t) ++ idsOf (w₁.redis.processing t)) =
        orphans w.redis t rows := by
      rw [← orphans_reapStuck, orphans, Redis.entries, idsOf, idsOf, idsOf, List.filterMap_append]
    have h₁ : rows.Perm (w₁.db.jobIds t ph.statuses) := h
    simp [Runs.run, soloStep, workerStep, h₁, ← hids]
  obtain ⟨hdb, hfiles, hredis⟩ := w₁.pushAll_spec t (orphans w.redis t rows)
  refine ⟨w₁.pushAll t (orphans w.redis t rows), ?_, ?_, hdb, hfiles⟩
  · rw [passActs, Runs.run_append, run_reap, Option.bind_some, Runs.run_append]
    show (Runs.run _ (w₁, _) _).bind _ = _
    rw [hmid, Option.bind_some, run_reenqueue]
  · rw [hredis, recover_eq]
    simp [w₁, reapStuck_eq]

/-- **Startup recovery is complete, exact and idempotent.**  Over any database, its ids
being values of their column, and any content of the lists a startup pass that nobody disturbs ends, leaves
the database alone, and leaves the lists that `reap_stuck` and
`reconcile_orphans` compute: no element on the processing list, an element for
each queued or running job, every element that was there as often as it was, and
otherwise one element for each job of the type, queued or running, that no
element denoted.  A second pass changes nothing. -/
theorem startup_recovery (cfg : Config) (w : World) (t : JobType) {rows : List ℤ}
    (hids : ∀ id job, w.db.job id = some job → IsKey id)
    (hrows : rows.Perm (w.db.jobIds t startupStatuses)) :
    let r := (reconcileOrphans (reapStuck w.redis t).1 t rows).1
    (∃ acts w', (∀ a ∈ acts, a = .reply .ok ∨ a = .rows rows) ∧
      Runs.run (soloStep cfg t) (w, .reap .startup) acts = some (w', .pop) ∧
      w'.redis = r ∧ w'.db = w.db ∧ w'.files = w.files) ∧
    r.processing t = [] ∧
    (∀ id job, w.db.job id = some job → job.type = t → job.status = .queued ∨ job.status = .running →
      ∃ raw ∈ r.queue t, Denotes raw id) ∧
    (∀ raw ∈ w.redis.entries t, (r.queue t).count raw = (w.redis.entries t).count raw) ∧
    (∃ added : List ℤ, (r.queue t).Perm (w.redis.entries t ++ added.map encodeInt) ∧ added.Nodup ∧
      ∀ id ∈ added, (∀ raw ∈ w.redis.entries t, ¬ Denotes raw id) ∧ ∃ job, w.db.job id = some job ∧
        job.type = t ∧ (job.status = .queued ∨ job.status = .running)) ∧
    (∀ u, u ≠ t → r.queue u = w.redis.queue u ∧ r.processing u = w.redis.processing u) ∧
    r.retry = w.redis.retry ∧
    ∀ rows', rows'.Perm (w.db.jobIds t startupStatuses) →
      (reconcileOrphans (reapStuck r t).1 t rows').1 = r := by
  have hmem : ∀ id, id ∈ rows ↔ ∃ job, w.db.job id = some job ∧ job.type = t ∧
      (job.status = .queued ∨ job.status = .running) := by
    intro id
    rw [hrows.mem_iff, Db.mem_jobIds]
    simp [startupStatuses]
  have hkeys : ∀ id ∈ rows, IsKey id := fun id hid => by
    obtain ⟨job, hj, -⟩ := (hmem id).1 hid
    exact hids id job hj
  have hnodup : rows.Nodup := hrows.nodup_iff.2 (Table.nodup_selectKeys ..)
  intro r
  have hr : r = recover w.redis t rows := rfl
  refine ⟨?_, ?_, fun id job hj ht hst => ?_, fun raw hraw => ?_, ?_, fun u hu => ?_, ?_,
    fun rows' hrows' => ?_⟩
  · obtain ⟨w', hrun, hredis, hdb, hfiles⟩ := run_passActs cfg w .startup hrows
    refine ⟨passActs w.redis t rows, w', fun a ha => ?_, hrun, hredis, hdb, hfiles⟩
    simp only [passActs, List.mem_append, List.mem_replicate, List.mem_cons, List.not_mem_nil] at ha
    tauto
  · rw [hr, recover_eq, Redis.processing_setLists]
  · rw [hr]
    exact exists_denotes_recover ((hmem id).2 ⟨job, hj, ht, hst⟩) (hids id job hj)
  · exact count_recover hkeys hraw
  · refine ⟨orphans w.redis t rows, queue_recover_perm .., hnodup.filter _, fun id hid => ?_⟩
    obtain ⟨hid, hnew⟩ := mem_orphans.1 hid
    exact ⟨hnew, (hmem id).1 hid⟩
  · rw [hr, recover_eq, Redis.queue_setLists_of_ne _ _ _ _ hu,
      Redis.processing_setLists_of_ne _ _ _ _ hu]
    exact ⟨rfl, rfl⟩
  · rw [hr, recover_eq, Redis.retry_setLists]
  · exact recover_idem hkeys fun id hid => hrows.mem_iff.2 (hrows'.mem_iff.1 hid)

/-- A queued image job that is on neither list, next to a malformed element and
two copies of the id of a job that does not exist. -/
def Sample.lost : World :=
  { World.empty.persist Sample.args Sample.ids with
    redis := Redis.empty.setLists .image ["x".toList.map fun c => c.toNat.toUInt8, encodeInt 7]
      [encodeInt 7] }

theorem startup_recovery_lost :
    let r := (reconcileOrphans (reapStuck Sample.lost.redis .image).1 .image [1]).1
    r.processing .image = [] ∧ (∃ raw ∈ r.queue .image, Denotes raw 1) ∧
      (r.queue .image).count (encodeInt 7) = 2 := by
  have hids : ∀ id job, Sample.lost.db.job id = some job → IsKey id := fun id job hj => by
    rcases (job_persistPoem .empty Sample.args Sample.ids (by decide)).1 hj with ⟨u, -, rfl, -⟩ | ⟨-, hj⟩
    · exact Sample.ids.job_isKey u
    · cases hj
  obtain ⟨-, hproc, hjobs, hcount, -⟩ := startup_recovery (Sample.config 1) Sample.lost .image hids
    (show [1].Perm _ by decide)
  have hjob : Sample.lost.db.job 1 = some (newJob Sample.ids .image) := rfl
  exact ⟨hproc, hjobs 1 _ hjob rfl (.inl rfl), hcount _ (by decide)⟩

end PoetryGenerator
