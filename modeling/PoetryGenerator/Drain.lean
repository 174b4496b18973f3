/-
# A restarted worker finishes its jobs

Whatever happened before, a worker that is restarted and then left alone, with
no operation raising, works off its queue: after a number of operations that can
be read off the state both lists of its type are empty and every job of the type
is done or failed.  Left alone means that no request, no deletion and nobody
else steps; what the processor does with each job is still open.

`Pc.Alone` is what the worker knows beyond `Pc.Ok` then: its processing list is
the element in hand, and after the startup pass every job still to do is on the
queue or in hand.  `workLeft` is the measure each operation decreases.
-/

import Mathlib.Algebra.Order.BigOperators.Group.List
import Mathlib.Algebra.Order.Monoid.NatCast
import PoetryGenerator.Lib.RunLaws
import PoetryGenerator.NoLoss
import PoetryGenerator.RetryBudget

namespace PoetryGenerator

open Numerals

variable {cfg : Config} {t : JobType} {w w' : World} {pc pc' : Pc t} {a : Act t} {id : ℤ}

/-- The operation is answered: it does not raise, and the worker is not killed. -/
def Act.answered : Act t → Bool
  | .kill => false
  | .reply r => r = .ok
  | _ => true

/-- The operation is answered, and the processor returns. -/
def Act.succeeds : Act t → Bool
  | .raises .. | .unsupported .. => false
  | a => a.answered

theorem Act.answered_of_succeeds (h : a.succeeds = true) : a.answered = true := by
  cases a <;> first | exact h | rfl

/-- The jobs of a type that are queued or running. -/
def World.openIds (w : World) (t : JobType) : List ℤ := w.db.jobIds t startupStatuses

/-- Every open job is on the queue, or among `ids`. -/
def World.Queued (w : World) (t : JobType) (ids : List ℤ) : Prop :=
  ∀ id ∈ w.openIds t, encodeInt id ∈ w.redis.queue t ∨ id ∈ ids

/-- What a worker knows when nobody else has stepped since its start. -/
def Pc.Alone (w : World) : Pc t → Prop
  | dead | reap .startup => True
  | readQueue .startup => w.redis.processing t = []
  | readProcessing .startup seen | select .startup seen =>
    w.redis.processing t = [] ∧ seen = idsOf (w.redis.queue t)
  | reenqueue .startup ids => (w.redis.processing t = [] ∧ w.Queued t ids) ∧ ids ≠ []
  | pop | tick | reap .maintenance | readQueue .maintenance =>
    w.redis.processing t = [] ∧ w.Queued t []
  | readProcessing .maintenance seen | select .maintenance seen =>
    (w.redis.processing t = [] ∧ w.Queued t []) ∧ seen = idsOf (w.redis.queue t)
  | reenqueue .maintenance _ => False
  | getJob raw id | requeue raw id => w.redis.processing t = [raw] ∧ w.Queued t [id]
  | getAsset raw id _ | commitMissing raw id _ =>
    (w.redis.processing t = [raw] ∧ w.Queued t [id]) ∧ (w.db.job id).isSome
  | commitRunning s | call s | incr s _ | expire s _ _ | commitFinal s _ _ =>
    (w.redis.processing t = [s.raw] ∧ w.Queued t [s.jobId]) ∧ (w.db.job s.jobId).isSome
  | ack raw => w.redis.processing t = [raw] ∧ w.Queued t []

/-! ### The open jobs -/

namespace World

theorem command_ok (redis : Redis) : w.command .ok redis = { w with redis } := rfl

theorem mem_openIds : id ∈ w.openIds t ↔ ∃ job, w.db.job id = some job ∧ job.type = t ∧
    (job.status = .queued ∨ job.status = .running) := by
  rw [openIds, Db.mem_jobIds]
  simp [startupStatuses]

/-- A step that leaves the rows alone and the queue at least as it is. -/
theorem Queued.of_db {ids : List ℤ} (h : w.Queued t ids) (hdb : w'.db = w.db)
    (hq : w.redis.queue t ⊆ w'.redis.queue t) : w'.Queued t ids := by
  intro id hid
  rw [openIds, hdb] at hid
  exact (h id hid).imp_left fun hmem => hq hmem

/-- A job that is not open need not be named. -/
theorem Queued.drop (h : w.Queued t [id]) (hid : id ∉ w.openIds t) : w.Queued t [] := by
  refine fun i hi => (h i hi).imp_right fun hmem => absurd hi ?_
  rwa [List.mem_singleton.1 hmem]

/-- Nor one that is on the queue. -/
theorem Queued.drop_queued {ids : List ℤ} (h : w.Queued t (id :: ids))
    (hid : encodeInt id ∈ w.redis.queue t) : w.Queued t ids := by
  intro i hi
  rcases h i hi with hq | hmem
  · exact .inl hq
  · rcases List.mem_cons.1 hmem with rfl | hmem
    · exact .inl hid
    · exact .inr hmem

/-- The list elements of a type that denote an id are the one the program pushed for it. -/
theorem ListsOk.mem_queue (hl : w.ListsOk) (hid : id ∈ idsOf (w.redis.queue t)) :
    encodeInt id ∈ w.redis.queue t := by
  obtain ⟨raw, hraw, hd⟩ := mem_idsOf.1 hid
  obtain ⟨i, -, rfl⟩ := World.typed_iff.1 (hl t) raw (List.mem_append_left _ hraw)
  rwa [eq_of_decodeInt_encodeInt hd]

/-- A commit of a session changes what is open in its own job at most. -/
theorem mem_openIds_rewrites {db : Db} {i ref : ℤ} {job : Job} {asset : Asset t}
    (h : w.db.Rewrites db t i ref job asset) (hne : id ≠ i)
    (hid : id ∈ ({ w with db } : World).openIds t) : id ∈ w.openIds t := by
  obtain ⟨row, hrow, ht, hst⟩ := mem_openIds.1 hid
  exact mem_openIds.2 ⟨row, ((h.job id).trans (if_neg hne)).symm.trans hrow, ht, hst⟩

end World

namespace Pc

/-- The worker waits at the head of the loop, or is in a maintenance pass. -/
def isIdle : Pc t → Bool
  | pop | tick | reap .maintenance | readQueue .maintenance | readProcessing .maintenance _
  | select .maintenance _ => true
  | _ => false

theorem Alone.idle (h : pc.Alone w) (hi : pc.isIdle = true) :
    w.redis.processing t = [] ∧ w.Queued t [] := by
  cases pc with
  | pop | tick => exact h
  | reap ph | readQueue ph =>
      cases ph with
      | startup => cases hi
      | maintenance => exact h
  | readProcessing ph seen | select ph seen =>
      cases ph with
      | startup => cases hi
      | maintenance => exact h.1
  | _ => cases hi

/-- The ids left to push after the startup query. -/
theorem alone_reenqueueRest {ids : List ℤ} (hp : w.redis.processing t = [])
    (h : w.Queued t ids) : (reenqueueRest .startup ids : Pc t).Alone w := by
  cases ids with
  | nil => exact ⟨hp, h⟩
  | cons id ids => exact ⟨⟨hp, h⟩, List.cons_ne_nil _ _⟩

end Pc

/-- A session over rows that are there finds them at its commit. -/
theorem Session.Ok.commit_ne_none {s : Session t} (h : s.Ok w) (hw : w.RowsOk)
    (hj : (w.db.job s.jobId).isSome) : s.commit w.db ≠ none := by
  intro hc
  have ha := (hw.job_isSome_iff h.known).1 hj
  rcases Session.commit_eq_none_iff.1 hc with ⟨-, hnone⟩ | ⟨-, hnone⟩
  · rw [hnone] at hj; cases hj
  · rw [hnone] at ha; cases ha

/-- And its job is there after it. -/
theorem Session.Ok.isSome_commit {s : Session t} (h : s.Ok w) {db : Db}
    (hc : s.commit w.db = some db) (hj : (w.db.job s.jobId).isSome) :
    (db.job s.jobId).isSome := by
  rw [(h.rewrites hc).job, if_pos rfl, Option.isSome_map]
  exact hj

/-- A commit of its session leaves the other open jobs on the queue. -/
theorem Session.Ok.queued_commit {s : Session t} (h : s.Ok w) {db : Db}
    (hc : s.commit w.db = some db) (hq : w.Queued t [s.jobId]) :
    ({ w with db } : World).Queued t [s.jobId] := by
  intro i hi
  by_cases he : i = s.jobId
  · exact .inr (List.mem_singleton.2 he)
  · exact hq i (World.mem_openIds_rewrites (h.rewrites hc) he hi)

namespace Performs

/-- **An answered operation keeps what a worker on its own knows.** -/
theorem alone (h : Performs cfg t w pc a w' pc') (ha : a.answered = true) (hw : w.RowsOk)
    (hl : w.ListsOk) (hpc : pc.Ok cfg w) (hal : pc.Alone w) : pc'.Alone w' := by
  cases h with
  | kill => cases ha
  | start => trivial
  | @reap ph r raw rest hp =>
      obtain rfl : r = .ok := of_decide_eq_true ha
      cases ph with
      | startup => trivial
      | maintenance =>
          obtain ⟨hproc, -⟩ := hal
          rw [hp] at hproc
          cases hproc
  | @drained ph r hp =>
      obtain rfl : r = .ok := of_decide_eq_true ha
      cases ph with
      | startup => exact hp
      | maintenance => exact hal
  | @readQueue ph r =>
      obtain rfl : r = .ok := of_decide_eq_true ha
      cases ph with
      | startup => exact ⟨hal, rfl⟩
      | maintenance => exact ⟨hal, rfl⟩
  | @readProcessing ph seen r =>
      obtain rfl : r = .ok := of_decide_eq_true ha
      have hseen : w.redis.processing t = [] → seen ++ idsOf (w.redis.processing t) = seen :=
        fun hp => by rw [hp]; exact List.append_nil _
      cases ph with
      | startup => exact ⟨hal.1, (hseen hal.1).trans hal.2⟩
      | maintenance => exact ⟨hal.1, (hseen hal.1.1).trans hal.2⟩
  | @select ph seen ids hp =>
      cases ph with
      | startup =>
          obtain ⟨hproc, rfl⟩ := hal
          refine Pc.alone_reenqueueRest hproc fun i hi => ?_
          by_cases hmem : i ∈ idsOf (w.redis.queue t)
          · exact .inl (hl.mem_queue hmem)
          · exact .inr (List.mem_filter.2 ⟨hp.mem_iff.2 hi, decide_eq_true hmem⟩)
      | maintenance =>
          -- what the query finds is on the queue already
          obtain ⟨⟨hproc, hq⟩, rfl⟩ := hal
          have hnone : ids.filter (· ∉ idsOf (w.redis.queue t)) = [] := by
            refine List.filter_eq_nil_iff.2 fun i hi => ?_
            obtain ⟨job, hj, ht, hst⟩ := Db.mem_jobIds.1 (hp.mem_iff.1 hi)
            have hopen : i ∈ w.openIds t :=
              World.mem_openIds.2 ⟨job, hj, ht, .inl (List.mem_singleton.1 hst)⟩
            have hmem := (hq i hopen).resolve_right (List.not_mem_nil)
            simpa using mem_idsOf.2 ⟨_, hmem, denotes_encodeInt (hw.isKey ⟨_, hw.job_known hj⟩)⟩
          rw [hnone]
          exact ⟨hproc, hq⟩
  | selectRaised hr => exact absurd (of_decide_eq_true ha) hr
  | @reenqueue ph i ids r =>
      obtain rfl : r = .ok := of_decide_eq_true ha
      cases ph with
      | maintenance => exact hal.elim
      | startup =>
          refine Pc.alone_reenqueueRest ((World.processing_rpush ..).trans hal.1.1) ?_
          refine World.Queued.drop_queued (hal.1.2.of_db (World.db_rpush ..) ?_) ?_
          · exact World.queue_subset_rpush _ _ _
          · rw [World.queue_rpush, if_pos ⟨rfl, rfl⟩]
            exact List.mem_append_right _ (List.mem_singleton_self _)
  | @pop r raw rest hq =>
      obtain rfl : r = .ok := of_decide_eq_true ha
      obtain ⟨i, hc, rfl⟩ := World.typed_iff.1 (hl t) raw (by simp [Redis.entries, hq])
      show (Pc.popped cfg (some (encodeInt i)) : Pc t).Alone _
      rw [Pc.popped, cfg.jobId_encodeInt (hw.isKey hc)]
      refine ⟨by rw [World.command_ok, Redis.processing_setLists, hal.1]; rfl, fun j hj => ?_⟩
      have hmem := (hal.2 j hj).resolve_right List.not_mem_nil
      rw [hq] at hmem
      rcases List.mem_cons.1 hmem with he | hrest
      · exact .inr (List.mem_singleton.2 (encodeInt_injective he))
      · exact .inl (by rwa [World.command_ok, Redis.queue_setLists])
  | @popEmpty r hq =>
      obtain rfl : r = .ok := of_decide_eq_true ha
      exact hal
  | @getJob raw i r =>
      obtain rfl : r = .ok := of_decide_eq_true ha
      rw [if_pos rfl]
      cases hj : w.db.job i with
      | none =>
          refine ⟨hal.1, hal.2.drop fun hopen => ?_⟩
          obtain ⟨job, hsome, -⟩ := World.mem_openIds.1 hopen
          rw [hj] at hsome
          cases hsome
      | some job =>
          simp only [Pc.gotJob]
          split_ifs with hd
          · refine ⟨hal.1, hal.2.drop fun hopen => ?_⟩
            obtain ⟨row, hsome, -, hst⟩ := World.mem_openIds.1 hopen
            obtain rfl := Option.some.inj (hj.symm.trans hsome)
            rw [hd] at hst
            rcases hst with hst | hst <;> cases hst
          · exact ⟨hal, by rw [hj]; rfl⟩
  | @getAsset raw i job r =>
      obtain rfl : r = .ok := of_decide_eq_true ha
      rw [if_pos rfl]
      obtain ⟨-, hx, -⟩ := hpc
      obtain ⟨asset, hasset⟩ :=
        Option.isSome_iff_exists.1 ((hw.job_isSome_iff hx).1 hal.2)
      rw [hasset]
      exact hal
  | commitMissing =>
      obtain ⟨-, -, hnone⟩ := hpc
      have hsome := hal.2
      rw [hnone] at hsome
      cases hsome
  | staleMissing => exact False.elim (by simpa [hpc.2.2] using hal.2)
  | @commitRunning s r db hc =>
      obtain rfl : r = .ok := of_decide_eq_true ha
      rw [if_pos rfl, World.commit_eq _ _ _ rfl]
      exact ⟨⟨hal.1.1, hpc.1.queued_commit hc hal.1.2⟩, hpc.1.isSome_commit hc hal.2⟩
  | staleRunning hc => exact absurd hc (hpc.1.commit_ne_none hw hal.2)
  | returns => exact hal
  | raises => exact hal
  | unsupported => cases t <;> exact hal
  | @incr s exc r =>
      obtain rfl : r = .ok := of_decide_eq_true ha
      exact hal
  | @expire s exc n r =>
      obtain rfl : r = .ok := of_decide_eq_true ha
      exact hal
  | @commitFinal s e again r db hc =>
      obtain rfl : r = .ok := of_decide_eq_true ha
      have hok := hpc.final.1
      have hq := hok.queued_commit hc hal.1.2
      rw [if_pos rfl, World.commit_eq _ _ _ rfl]
      cases again with
      | true => exact ⟨hal.1.1, hq⟩
      | false =>
          -- the job is done or failed now
          refine ⟨hal.1.1, hq.drop fun hopen => ?_⟩
          obtain ⟨job, hj, -, hst⟩ := World.mem_openIds.1 hopen
          have hj : db.job s.jobId = some job := hj
          rw [(hok.rewrites hc).job, if_pos rfl] at hj
          obtain ⟨_, -, rfl⟩ := Option.map_eq_some_iff.1 hj
          rcases hpc.settled with hs | hs <;> simp [hs] at hst
  | staleFinal hc => exact absurd hc (hpc.final.1.commit_ne_none hw hal.2)
  | @requeue raw i r =>
      obtain rfl : r = .ok := of_decide_eq_true ha
      refine ⟨(World.processing_rpush ..).trans hal.1,
        World.Queued.drop_queued (hal.2.of_db (World.db_rpush ..) ?_) ?_⟩
      · exact World.queue_subset_rpush _ _ _
      · obtain rfl := hpc.1
        rw [World.queue_rpush, if_pos ⟨rfl, rfl⟩]
        exact List.mem_append_right _ (List.mem_singleton_self _)
  | @ack raw r =>
      obtain rfl : r = .ok := of_decide_eq_true ha
      refine ⟨?_, hal.2.of_db rfl ?_⟩
      · rw [World.command_ok, Redis.processing_lrem, hal.1, List.erase_cons_head]
      · rw [World.command_ok, Redis.queue_lrem]
        exact List.Subset.refl _
  | @tick b => cases b <;> exact hal

end Performs

/-! ### The measure -/

/-- The failures of jobs of a type that would still be followed by a retry. -/
def World.budget (cfg : Config) (w : World) (t : JobType) : ℕ :=
  ((w.hist.jobs.filter fun x => x.2.1 = t).map fun x =>
    (cfg.maxRetries + 1 - w.redis.retry t x.1).toNat).sum

/-- The operations to the next visit of the loop's head, where a retry counts the element it
will push, and the startup pass the moves and pushes it has left. -/
def Pc.work (cfg : Config) (w : World) : Pc t → ℕ
  | dead => 33 * ((w.redis.processing t).length + (w.openIds t).length) + 5
  | reap .startup => 33 * ((w.redis.processing t).length + (w.openIds t).length) + 4
  | readQueue .startup => 33 * (w.openIds t).length + 3
  | readProcessing .startup _ => 33 * (w.openIds t).length + 2
  | select .startup _ => 33 * (w.openIds t).length + 1
  | reenqueue _ ids => 33 * ids.length
  | pop => 0
  | select .maintenance _ => 1
  | readProcessing .maintenance _ => 2
  | readQueue .maintenance => 3
  | reap .maintenance => 4
  | tick => 5
  | ack _ => 6
  | commitMissing .. => 7
  | commitFinal _ _ again => if again then 40 else 7
  | requeue .. => 39
  | expire _ _ n => if (n : ℤ) ≤ cfg.maxRetries then 41 else 8
  | incr .. => 9
  | call _ => 10
  | commitRunning _ => 11
  | getAsset .. => 12
  | getJob .. => 13

/-- **What is left to do.**  An element of the queue is worth the operations of an attempt, a
failure that can be retried those of the attempt and of another element. -/
def workLeft (cfg : Config) (w : World) (pc : Pc t) : ℕ :=
  64 * w.budget cfg t + 32 * (w.redis.queue t).length + pc.work cfg w

theorem World.budget_congr (hjobs : w'.hist.jobs = w.hist.jobs)
    (hretry : w'.redis.retry = w.redis.retry) : w'.budget cfg t = w.budget cfg t := by
  rw [budget, budget, hjobs, hretry]

@[simp] theorem World.budget_setLists (u : JobType) (q p : List Raw) :
    ({ w with redis := w.redis.setLists u q p } : World).budget cfg t = w.budget cfg t :=
  budget_congr rfl rfl

@[simp] theorem World.budget_rpush (u : JobType) (i : ℤ) :
    (w.rpush .ok u i).budget cfg t = w.budget cfg t :=
  budget_congr (jobs_rpush ..) rfl

variable (cfg) in
/-- **Counting a failure uses up a retry**, if there was one left. -/
theorem World.budget_incr (hid : w.Created t id) :
    ({ w with redis := w.redis.incr t id } : World).budget cfg t +
      (if ((w.redis.retry t id + 1 : ℕ) : ℤ) ≤ cfg.maxRetries then 1 else 0) ≤ w.budget cfg t := by
  obtain ⟨ref, hx⟩ := hid
  have hx : (id, t, ref) ∈ w.hist.jobs.filter fun x => x.2.1 = t :=
    List.mem_filter.2 ⟨hx, decide_eq_true rfl⟩
  have hretry : ∀ i, (w.redis.incr t id).retry t i =
      if i = id then w.redis.retry t id + 1 else w.redis.retry t i := by
    intro i
    rw [Redis.incr, Redis.retry_setRetry]
    simp only [true_and]
  have hle : ∀ x ∈ w.hist.jobs.filter fun x => x.2.1 = t,
      (cfg.maxRetries + 1 - ((w.redis.incr t id).retry t x.1 : ℤ)).toNat ≤
        (cfg.maxRetries + 1 - (w.redis.retry t x.1 : ℤ)).toNat := by
    intro x _
    rw [hretry]
    split_ifs with hi
    · rw [hi]; omega
    · exact le_rfl
  simp only [budget]
  split_ifs with hmax
  · refine Nat.succ_le_of_lt (List.sum_lt_sum _ _ hle ⟨_, hx, ?_⟩)
    simp only [hretry, if_true]
    omega
  · exact List.sum_le_sum hle

/-- Nothing is left for the worker, which goes round the loop. -/
def Quiet (w : World) (pc : Pc t) : Prop := w.redis.queue t = [] ∧ pc.isIdle = true

/-- A worker with nothing to do finds nothing to do. -/
theorem Performs.quiet (h : Performs cfg t w pc a w' pc') (ha : a.answered = true)
    (hal : pc.Alone w) (hal' : pc'.Alone w') (hq : Quiet w pc) : Quiet w' pc' := by
  obtain ⟨hqueue, hidle⟩ := hq
  have hproc := (hal.idle hidle).1
  cases h with
  | kill => cases ha
  | reap hp => rw [hp] at hproc; cases hproc
  | pop hp => rw [hp] at hqueue; cases hqueue
  | @drained ph r | @readQueue ph r | @readProcessing ph seen r =>
      obtain rfl : r = .ok := of_decide_eq_true ha
      cases ph with
      | startup => cases hidle
      | maintenance => exact ⟨hqueue, rfl⟩
  | @popEmpty r =>
      obtain rfl : r = .ok := of_decide_eq_true ha
      exact ⟨hqueue, rfl⟩
  | @select ph seen ids hp =>
      cases ph with
      | startup => cases hidle
      | maintenance =>
          cases hids : ids.filter (· ∉ seen) with
          | nil => exact ⟨hqueue, rfl⟩
          | cons i rest => rw [hids] at hal'; exact hal'.elim
  | selectRaised hr => exact absurd (of_decide_eq_true ha) hr
  | @tick b => cases b <;> exact ⟨hqueue, rfl⟩
  | _ => cases hidle

/-- **Every answered operation leaves less to do**, unless nothing is left. -/
theorem Performs.workLeft_lt (h : Performs cfg t w pc a w' pc') (ha : a.answered = true)
    (hpc : pc.Ok cfg w) (hal : pc.Alone w) (hal' : pc'.Alone w') (hq : ¬ Quiet w pc) :
    workLeft cfg w' pc' < workLeft cfg w pc := by
  have hrest : ∀ (v : World) (ids : List ℤ),
      (Pc.reenqueueRest .startup ids : Pc t).work cfg v = 33 * ids.length :=
    fun v ids => by cases ids <;> rfl
  cases h with
  | kill => cases ha
  | start => exact Nat.lt_succ_self _
  | @reap ph r raw rest hp =>
      obtain rfl : r = .ok := of_decide_eq_true ha
      cases ph with
      | startup =>
          have hopen : ({ w with redis := w.redis.setLists t (raw :: w.redis.queue t) rest } :
              World).openIds t = w.openIds t := rfl
          rw [World.command_ok, if_pos rfl, workLeft, workLeft, World.budget_setLists]
          simp only [Pc.work, hopen, hp, Redis.queue_setLists, Redis.processing_setLists,
            List.length_cons]
          omega
      | maintenance =>
          obtain ⟨hproc, -⟩ := hal
          rw [hp] at hproc
          cases hproc
  | @drained ph r hp =>
      obtain rfl : r = .ok := of_decide_eq_true ha
      rw [if_pos rfl, workLeft, workLeft]
      cases ph <;> simp only [Pc.work] <;> omega
  | @readQueue ph r | @readProcessing ph seen r =>
      obtain rfl : r = .ok := of_decide_eq_true ha
      rw [if_pos rfl, workLeft, workLeft]
      cases ph <;> simp only [Pc.work] <;> omega
  | @select ph seen ids hp =>
      cases ph with
      | startup =>
          have hlen : (ids.filter (· ∉ seen)).length ≤ (w.openIds t).length :=
            (List.length_filter_le ..).trans hp.length_eq.le
          rw [workLeft, workLeft, hrest, Pc.work]
          omega
      | maintenance =>
          cases hids : ids.filter (· ∉ seen) with
          | nil => exact Nat.lt_succ_self _
          | cons i rest => rw [hids] at hal'; exact hal'.elim
  | selectRaised hr => exact absurd (of_decide_eq_true ha) hr
  | @reenqueue ph i ids r =>
      obtain rfl : r = .ok := of_decide_eq_true ha
      cases ph with
      | maintenance => exact hal.elim
      | startup =>
          rw [if_pos rfl, workLeft, workLeft, hrest, World.queue_rpush, if_pos ⟨rfl, rfl⟩,
            World.budget_rpush]
          simp only [Pc.work, List.length_append, List.length_cons, List.length_nil]
          omega
  | @pop r raw rest hp =>
      obtain rfl : r = .ok := of_decide_eq_true ha
      show workLeft cfg _ (Pc.popped cfg (some raw)) < _
      have hwork : (Pc.popped cfg (some raw) : Pc t).work cfg
          { w with redis := w.redis.setLists t rest (w.redis.processing t ++ [raw]) } ≤ 13 := by
        rw [Pc.popped]
        cases cfg.jobId raw <;> simp only [Pc.work, le_refl, Nat.reduceLeDiff]
      rw [World.command_ok, workLeft, workLeft, World.budget_setLists, Redis.queue_setLists, hp,
        List.length_cons, show (Pc.pop : Pc t).work cfg w = 0 from rfl]
      omega
  | popEmpty hp => exact absurd ⟨hp, rfl⟩ hq
  | @getJob raw i r =>
      obtain rfl : r = .ok := of_decide_eq_true ha
      have hwork : (Pc.gotJob raw i (w.db.job i) : Pc t).work cfg w ≤ 12 := by
        cases w.db.job i with
        | none => exact (by decide : 6 ≤ 12)
        | some job =>
            simp only [Pc.gotJob]
            split_ifs
            · exact (by decide : 6 ≤ 12)
            · exact le_rfl
      rw [if_pos rfl, workLeft, workLeft, Pc.work]
      omega
  | @getAsset raw i job r =>
      obtain rfl : r = .ok := of_decide_eq_true ha
      have hwork : (Pc.gotAsset raw i job (w.db.asset t job.refId) : Pc t).work cfg w ≤ 11 := by
        cases w.db.asset t job.refId with
        | none => exact (by decide : 7 ≤ 11)
        | some a => exact le_rfl
      rw [if_pos rfl, workLeft, workLeft, Pc.work]
      omega
  | @commitMissing raw i job r jobs hc =>
      obtain rfl : r = .ok := of_decide_eq_true ha
      exact Nat.lt_succ_self _
  | staleMissing | staleRunning => exact Nat.add_lt_add_left (Nat.succ_pos _) _
  | @staleFinal s e again r hc => cases again <;> exact Nat.add_lt_add_left (Nat.succ_pos _) _
  | @commitRunning s r db hc =>
      obtain rfl : r = .ok := of_decide_eq_true ha
      exact Nat.lt_succ_self _
  | returns => exact Nat.add_lt_add_left (by decide : 7 < 10) _
  | raises => exact Nat.lt_succ_self _
  | unsupported =>
      cases t with
      | image => exact Nat.lt_succ_self _
      | audio => exact Nat.add_lt_add_left (by decide : 7 < 10) _
  | @incr s exc r =>
      obtain rfl : r = .ok := of_decide_eq_true ha
      have hbudget := World.budget_incr cfg (w := w) ⟨_, hpc.1.known⟩
      rw [if_pos rfl, World.command_ok, workLeft, workLeft]
      simp only [Pc.work]
      show 64 * _ + 32 * (w.redis.queue t).length + _ < _
      split_ifs at hbudget ⊢ <;> omega
  | @expire s exc n r =>
      obtain rfl : r = .ok := of_decide_eq_true ha
      rw [if_pos rfl, workLeft, workLeft]
      refine Nat.add_lt_add_left ?_ _
      simp only [Pc.ended, Ending.rows, Pc.work]
      rcases handleJobFailure_cases cfg.maxRetries exc (some n) s.job.cur s.asset.cur with
        ⟨-, -, hagain, m, hm, hle⟩ | ⟨-, -, hagain⟩
      · obtain rfl := Option.some.inj hm
        rw [hagain, if_pos hle]
        decide
      · rw [hagain, if_neg Bool.false_ne_true]
        split_ifs <;> decide
  | @commitFinal s e again r db hc =>
      obtain rfl : r = .ok := of_decide_eq_true ha
      cases again <;> exact Nat.lt_succ_self _
  | @requeue raw i r =>
      obtain rfl : r = .ok := of_decide_eq_true ha
      rw [if_pos rfl, workLeft, workLeft, World.queue_rpush, if_pos ⟨rfl, rfl⟩, World.budget_rpush]
      simp only [Pc.work, List.length_append, List.length_cons, List.length_nil]
      omega
  | @ack raw r =>
      obtain rfl : r = .ok := of_decide_eq_true ha
      rw [if_pos rfl, World.command_ok, workLeft, workLeft, Redis.queue_lrem]
      exact Nat.lt_succ_self _
  | @tick b =>
      cases b with
      | false => exact Nat.add_lt_add_left (by decide : 0 < 5) _
      | true => exact Nat.lt_succ_self _

/-! ### The run after a restart -/

variable (cfg) in
/-- Some answered operation is always next: the worker is never stuck. -/
theorem Pc.Alone.exists_workerStep (hal : pc.Alone w) :
    ∃ a : Act t, a.answered = true ∧ (workerStep cfg t w pc a).isSome := by
  cases pc with
  | dead => exact ⟨.start, rfl, rfl⟩
  | select ph seen =>
      refine ⟨.rows (w.db.jobIds t ph.statuses), rfl, ?_⟩
      rw [workerStep, if_pos (List.Perm.refl _)]
      rfl
  | reenqueue ph ids =>
      cases ids with
      | nil =>
          cases ph with
          | startup => exact absurd rfl hal.2
          | maintenance => exact hal.elim
      | cons i ids => exact ⟨.reply .ok, rfl, rfl⟩
  | call s => exact ⟨.returns [] s.asset.cur.attrs [], rfl, rfl⟩
  | tick => exact ⟨.due false, rfl, rfl⟩
  | commitMissing raw i job =>
      refine ⟨.reply .ok, rfl, ?_⟩
      simp only [workerStep]
      cases Tracked.flush Job.write w.db.jobs i job <;> rfl
  | commitRunning s | commitFinal s e again =>
      refine ⟨.reply .ok, rfl, ?_⟩
      simp only [workerStep]
      cases s.commit w.db <;> rfl
  | _ => exact ⟨.reply .ok, rfl, rfl⟩

/-- The system while only the worker of a type steps. -/
abbrev aloneStep (cfg : Config) (t : JobType) (s : Sys) (a : Act t) : Option Sys :=
  step cfg s (.worker t a)

/-- The operations of the worker of a type, in the system. -/
theorem performs_of_aloneStep {s s' : Sys} (h : aloneStep cfg t s a = some s') :
    Performs cfg t s.world (s.workers t) a s'.world (s'.workers t) := by
  rcases (moves_of_step h).worker_cases t with ⟨b, hb, hp⟩ | ⟨hne, -⟩
  · cases hb
    exact hp
  · exact absurd rfl (hne a)

/-- What holds while the worker is alone. -/
def Sys.OkAlone (cfg : Config) (t : JobType) (s : Sys) : Prop :=
  s.Ok cfg ∧ (s.workers t).Alone s.world

/-- **Step lemma.** -/
theorem Sys.OkAlone.step {s s' : Sys} (hs : s.OkAlone cfg t) (ha : a.answered = true)
    (h : aloneStep cfg t s a = some s') : s'.OkAlone cfg t :=
  ⟨(moves_of_step h).ok hs.1,
    (performs_of_aloneStep h).alone ha hs.1.rows hs.1.lists (hs.1.workers t) hs.2⟩

/-- The operations a restarted worker needs at most. -/
def World.drainBound (cfg : Config) (w : World) (t : JobType) : ℕ :=
  workLeft cfg w (.reap .startup : Pc t)

/-- The worker of a type is restarted. -/
def restart (t : JobType) : List (Act t) := [.kill, .start]

/-- A restart leads to the startup pass and changes nothing else. -/
theorem run_restart (s : Sys) : run cfg s ((restart t).map (.worker t)) =
    some { s with workers := Function.update s.workers t (.reap .startup) } := by
  have hk : ∀ pc : Pc t, workerStep cfg t s.world pc .kill = some (s.world, .dead) :=
    fun pc => by cases pc <;> rfl
  have hst : workerStep cfg t s.world .dead .start = some (s.world, .reap .startup) := rfl
  simp [run, restart, Runs.run, step, hk, hst, Function.update_idem]

/-- A run of the restarted worker ends where what it knows on its own holds. -/
theorem okAlone_of_restart {s s' : Sys} (hs : s.Ok cfg) {acts : List (Act t)}
    (hacts : ∀ a ∈ acts, a.answered = true)
    (hr : run cfg s ((restart t ++ acts).map (.worker t)) = some s') :
    ∃ s₁ : Sys, s₁.world = s.world ∧ s₁.workers t = .reap .startup ∧ s₁.OkAlone cfg t ∧
      Runs.run (aloneStep cfg t) s₁ acts = some s' ∧ s'.OkAlone cfg t := by
  have hok : ({ s with workers := Function.update s.workers t (.reap .startup) } : Sys).Ok cfg :=
    Runs.run_invariant (P := fun _ _ => True) (fun _ _ _ hs _ h => (moves_of_step h).ok hs) hs
      (Runs.along_of_forall fun _ _ _ => trivial) (run_restart s)
  rw [List.map_append, run, Runs.run_append, ← run, run_restart, Option.bind_some,
    run, Runs.run_map_labels] at hr
  have halone : Sys.OkAlone cfg t
      { s with workers := Function.update s.workers t (.reap .startup) } := by
    refine ⟨hok, ?_⟩
    show (Function.update s.workers t (.reap .startup) t).Alone _
    rw [Function.update_self]
    trivial
  refine ⟨{ s with workers := Function.update s.workers t (.reap .startup) }, rfl,
    Function.update_self .., halone, hr, ?_⟩
  exact Runs.run_invariant (P := fun _ a => a.answered = true)
    (fun _ _ _ hs ha h => hs.step ha h) halone (Runs.along_of_forall fun _ a ha => hacts a ha) hr

/-- Once a worker is quiet that knows what it does on its own, its jobs are settled. -/
theorem Pc.Alone.settled (hal : pc.Alone w) (hq : Quiet w pc) :
    w.redis.queue t = [] ∧ w.redis.processing t = [] ∧
      ∀ id job, w.db.job id = some job → job.type = t → job.status = .done ∨ job.status = .failed := by
  obtain ⟨hproc, hqueued⟩ := hal.idle hq.2
  refine ⟨hq.1, hproc, fun id job hj ht => ?_⟩
  have hopen : id ∉ w.openIds t := by
    intro hopen
    have hmem := (hqueued id hopen).resolve_right List.not_mem_nil
    rw [hq.1] at hmem
    cases hmem
  cases hst : job.status with
  | done => exact .inl rfl
  | failed => exact .inr rfl
  | queued => exact absurd (World.mem_openIds.2 ⟨job, hj, ht, .inl hst⟩) hopen
  | running => exact absurd (World.mem_openIds.2 ⟨job, hj, ht, .inr hst⟩) hopen

/-- **Run lemma.**  After `drainBound` operations of a restarted worker its jobs are settled. -/
theorem settled_of_restart {s s' : Sys} (hs : s.Ok cfg) {acts : List (Act t)}
    (hacts : ∀ a ∈ acts, a.answered = true)
    (hr : run cfg s ((restart t ++ acts).map (.worker t)) = some s')
    (hlen : s.world.drainBound cfg t < acts.length) :
    s'.world.redis.queue t = [] ∧ s'.world.redis.processing t = [] ∧
      ∀ id job, s'.world.db.job id = some job → job.type = t →
        job.status = .done ∨ job.status = .failed := by
  obtain ⟨s₁, hworld, hpc, hs₁, hrun, hs'⟩ := okAlone_of_restart hs hacts hr
  refine hs'.2.settled ?_
  refine Runs.run_reaches (I := Sys.OkAlone cfg t) (P := fun _ a => a.answered = true)
    (Q := fun s => Quiet s.world (s.workers t))
    (m := fun s => workLeft cfg s.world (s.workers t))
    (fun s a s' hs ha h => hs.step ha h) (fun s a s' hs ha hq h => ?_)
    (fun s a s' hs ha hq h => ?_) hs₁ (Runs.along_of_forall fun _ a ha => hacts a ha) hrun ?_
  · exact (performs_of_aloneStep h).quiet ha hs.2 (hs.step ha h).2 hq
  · exact (performs_of_aloneStep h).workLeft_lt ha (hs.1.workers t) hs.2 (hs.step ha h).2 hq
  · rw [hworld, hpc]
    exact hlen

/-- The image worker that was killed while it called the processor is restarted: it takes the
job from the processing list, makes the image, and goes round the loop. -/
def Sample.remade : List (Act .image) :=
  [.reply .ok, .reply .ok, .reply .ok, .reply .ok, .rows [1], .reply .ok, .reply .ok, .reply .ok,
    .reply .ok, .returns "/data/images/2_a.png".toList Sample.attrs [], .reply .ok, .reply .ok,
    .due false]

/-- Rounds of the loop over an empty queue. -/
def Sample.rounds : ℕ → List (Act .image)
  | 0 => []
  | n + 1 => .reply .ok :: .due false :: rounds n

theorem Sample.length_rounds (n : ℕ) : (rounds n).length = 2 * n := by
  induction n with
  | zero => rfl
  | succ n ih => rw [rounds, List.length_cons, List.length_cons, ih]; omega

theorem Sample.succeeds_rounds (n : ℕ) : ∀ a ∈ rounds n, a.succeeds = true := by
  induction n with
  | zero => exact fun _ h => nomatch h
  | succ n ih =>
      rw [rounds, List.forall_mem_cons, List.forall_mem_cons]
      exact ⟨rfl, rfl, ih⟩

theorem Sample.run_rounds {s : Sys} (hpc : s.workers .image = .pop)
    (hq : s.world.redis.queue .image = []) (n : ℕ) :
    run cfg s ((rounds n).map (.worker .image)) = some s := by
  have hpop : workerStep cfg .image s.world .pop (.reply .ok) = some (s.world, .tick) := by
    rw [workerStep, Redis.blmove, hq]
    rfl
  have htick : workerStep cfg .image s.world .tick (.due false) = some (s.world, .pop) := rfl
  have hround : run cfg s [.worker .image (.reply .ok), .worker .image (.due false)] = some s := by
    have hself : Function.update s.workers .image .pop = s.workers :=
      Function.update_eq_iff.2 ⟨hpc.symm, fun _ _ => rfl⟩
    simp [run, Runs.run, step, hpc, hpop, htick, Function.update_idem, hself]
  induction n with
  | zero => rfl
  | succ n ih =>
      have hsplit : (rounds (n + 1)).map (Label.worker .image) =
          [.worker .image (.reply .ok), .worker .image (.due false)] ++
            (rounds n).map (Label.worker .image) := rfl
      rw [hsplit, run, Runs.run_append, ← run, hround, Option.bind_some, ih]

/-- The restarted worker makes the image, and the rounds are as many as the bound asks for. -/
theorem Sample.run_remade : ∃ s s' job job', run (config 0) Sys.init killed = some s ∧
    run (config 0) s ((restart .image ++ (remade ++ rounds 64)).map (.worker .image)) = some s' ∧
    s.world.drainBound (config 0) .image < (remade ++ rounds 64).length ∧
    s.world.db.job 1 = some job ∧ job.type = .image ∧ job.status ≠ .failed ∧
    s'.world.db.job 1 = some job' ∧ job'.type = .image := by
  have hkilled : ∃ s s' job job', run (config 0) Sys.init killed = some s ∧
      run (config 0) s ((restart .image ++ remade).map (.worker .image)) = some s' ∧
      s.world.db.job 1 = some job ∧ job.type = .image ∧ job.status ≠ .failed ∧
      s'.world.db.job 1 = some job' ∧ job'.type = .image ∧ s'.workers .image = .pop ∧
      s'.world.redis.queue .image = [] ∧ s.world.drainBound (config 0) .image = 134 :=
    ⟨_, _, _, _, rfl, rfl, rfl, rfl, by decide, rfl, rfl, rfl, rfl, by decide⟩
  obtain ⟨s, s', job, job', hr, hr', hj, ht, hf, hj', ht', hpc, hq, hbound⟩ := hkilled
  refine ⟨s, s', job, job', hr, ?_, ?_, hj, ht, hf, hj', ht'⟩
  · rw [← List.append_assoc, List.map_append, run, Runs.run_append, ← run, hr', Option.bind_some,
      run_rounds hpc hq]
  · rw [hbound, List.length_append, length_rounds]
    decide

theorem Sample.succeeds_remade : ∀ a ∈ remade ++ rounds 64, a.succeeds = true :=
  List.forall_mem_append.2 ⟨by decide, succeeds_rounds 64⟩

/-- **A restarted worker finishes its jobs.**  From every reachable state, in every run of a
restarted worker that is the only one to act, with no operation raising, some operation is
always next, and after `drainBound` of them both lists are empty and every job of the type is
done or failed. -/
theorem restart_finishes_of_run {s s' : Sys} {ls : List Label}
    (hr : run cfg Sys.init ls = some s) {acts : List (Act t)}
    (hacts : ∀ a ∈ acts, a.answered = true)
    (hr' : run cfg s ((restart t ++ acts).map (.worker t)) = some s') :
    (∃ a : Act t, a.answered = true ∧ (step cfg s' (.worker t a)).isSome) ∧
      (s.world.drainBound cfg t < acts.length →
        s'.world.redis.queue t = [] ∧ s'.world.redis.processing t = [] ∧
          ∀ id job, s'.world.db.job id = some job → job.type = t →
            job.status = .done ∨ job.status = .failed) := by
  obtain ⟨-, -, -, -, -, hs'⟩ := okAlone_of_restart (run_ok hr) hacts hr'
  refine ⟨?_, fun hlen => settled_of_restart (run_ok hr) hacts hr' hlen⟩
  obtain ⟨a, ha, hstep⟩ := hs'.2.exists_workerStep cfg
  refine ⟨a, ha, ?_⟩
  rw [step, Option.isSome_map]
  exact hstep

/-- The image worker that was killed in the call is restarted. -/
theorem restart_finishes_killed : ∃ s s' job, run (Sample.config 0) Sys.init Sample.killed = some s ∧
    run (Sample.config 0) s
      ((restart .image ++ (Sample.remade ++ Sample.rounds 64)).map (.worker .image)) = some s' ∧
    s'.world.db.job 1 = some job ∧ s'.world.redis.processing .image = [] ∧
    (job.status = .done ∨ job.status = .failed) := by
  obtain ⟨s, s', -, job, hr, hr', hlen, -, -, -, hj, ht⟩ := Sample.run_remade
  have hans : ∀ a ∈ Sample.remade ++ Sample.rounds 64, a.answered = true := fun a ha =>
    Act.answered_of_succeeds (Sample.succeeds_remade a ha)
  obtain ⟨-, hproc, hjobs⟩ := (restart_finishes_of_run hr hans hr').2 hlen
  exact ⟨s, s', job, hr, hr', hj, hproc, hjobs 1 job hj ht⟩

/-! ### A processor that does not raise -/

/-- The attempt in hand has not failed. -/
def Pc.Succeeding : Pc t → Prop
  | incr .. | expire .. => False
  | commitFinal s _ _ => s.job.cur.status = .done
  | _ => True

/-- Since `w₀` no job of the type is gone, and none has failed. -/
structure World.NoneFailed (t : JobType) (w₀ w : World) : Prop where
  jobs : w₀.hist.jobs ⊆ w.hist.jobs
  kept : ∀ id job, w₀.db.job id = some job → job.type = t → (w.db.job id).isSome
  failed : ∀ id job, w.db.job id = some job → job.type = t → job.status = .failed →
    w₀.db.job id = some job

theorem Pc.succeeding (h : pc.inProcess = false) : pc.Succeeding := by
  cases pc with
  | incr | expire | commitFinal => cases h
  | _ => trivial

theorem Performs.succeeding (h : Performs cfg t w pc a w' pc') (ha : a.succeeds = true)
    (hs : pc.Succeeding) : pc'.Succeeding := by
  rcases h.processes with hout | hin
  · exact Pc.succeeding hout
  · cases hin with
    | loaded | started | running => trivial
    | returns => rfl
    | raises | unsupported => cases ha
    | counted | uncounted | expire => exact hs.elim

/-- An operation after which no job has failed that had not. -/
theorem Performs.noneFailed {w₀ : World} (h : Performs cfg t w pc a w' pc') (hpc : pc.Ok cfg w)
    (hs : pc.Succeeding) (hn : World.NoneFailed t w₀ w) : World.NoneFailed t w₀ w' := by
  have hjobs : w₀.hist.jobs ⊆ w'.hist.jobs := by
    rw [(h.hist hpc).2.1]
    exact hn.jobs
  rcases h.db hpc with hdb | ⟨s, db, hcom, hc, rfl⟩
  · exact ⟨hjobs, by rw [hdb]; exact hn.kept, by rw [hdb]; exact hn.failed⟩
  · have hrw := (hpc.committing hcom).rewrites hc
    have hst : s.job.cur.status ≠ .failed := by
      cases pc <;> simp only [Pc.committing, Option.some.injEq, reduceCtorEq] at hcom
      case commitRunning =>
        obtain rfl := hcom
        rw [hpc.2.2]
        decide
      case commitFinal session e again =>
        obtain rfl := hcom
        rw [show session.job.cur.status = .done from hs]
        decide
    refine ⟨hjobs, fun id job hj ht => ?_, fun id job hj ht hf => ?_⟩
    · have hsome := hn.kept id job hj ht
      show (db.job id).isSome
      rw [hrw.job]
      split_ifs with hid
      · rw [Option.isSome_map, ← hid]
        exact hsome
      · exact hsome
    · have hj : db.job id = some job := hj
      rw [hrw.job] at hj
      split_ifs at hj
      · obtain ⟨_, -, rfl⟩ := Option.map_eq_some_iff.1 hj
        exact absurd hf hst
      · exact hn.failed id job hj ht hf

/-- **A restarted worker delivers.**  If moreover the processor raises for none of the jobs,
every job of the type that had not failed is done after `drainBound` operations, and its asset
has a path. -/
theorem restart_delivers_of_run {s s' : Sys} {ls : List Label}
    (hr : run cfg Sys.init ls = some s) {acts : List (Act t)}
    (hacts : ∀ a ∈ acts, a.succeeds = true)
    (hr' : run cfg s ((restart t ++ acts).map (.worker t)) = some s')
    (hlen : s.world.drainBound cfg t < acts.length) {id : ℤ} {job : Job}
    (hj : s.world.db.job id = some job) (ht : job.type = t) (hf : job.status ≠ .failed) :
    ∃ job' asset, s'.world.db.job id = some job' ∧ job'.status = .done ∧
      s'.world.db.asset t job.refId = some asset ∧ asset.status = .done ∧ asset.path.isSome := by
  have hans : ∀ a ∈ acts, a.answered = true := fun a ha => Act.answered_of_succeeds (hacts a ha)
  obtain ⟨s₁, hworld, hpc, hs₁, hrun, hs'⟩ := okAlone_of_restart (run_ok hr) hans hr'
  have hn : (s'.workers t).Succeeding ∧ World.NoneFailed t s.world s'.world := by
    refine (Runs.run_invariant (I := fun x => x.OkAlone cfg t ∧ (x.workers t).Succeeding ∧
        World.NoneFailed t s.world x.world) (P := fun _ a => a.succeeds = true)
      (fun x a x' hx ha h => ⟨hx.1.step (Act.answered_of_succeeds ha) h,
        (performs_of_aloneStep h).succeeding ha hx.2.1,
        (performs_of_aloneStep h).noneFailed (hx.1.1.workers t) hx.2.1 hx.2.2⟩)
      ⟨hs₁, ?_, ?_⟩ (Runs.along_of_forall fun _ a ha => hacts a ha) hrun).2
    · rw [hpc]
      trivial
    · rw [hworld]
      exact ⟨List.Subset.refl _, fun id job hj _ => by rw [hj]; rfl, fun id job hj _ _ => hj⟩
  obtain ⟨job', hj'⟩ := Option.isSome_iff_exists.1 (hn.2.kept id job hj ht)
  have hx : (id, t, job.refId) ∈ s'.world.hist.jobs :=
    hn.2.jobs (ht ▸ (run_ok hr).rows.job_known hj)
  obtain ⟨ht', href⟩ := hs'.1.rows.job_eq hx hj'
  have hdone : job'.status = .done := by
    rcases (settled_of_restart (run_ok hr) hans hr' hlen).2.2 id job' hj' ht' with hd | hfail
    · exact hd
    · have hold := hn.2.failed id job' hj' ht' hfail
      rw [hj] at hold
      exact absurd (Option.some.inj hold ▸ hfail) hf
  obtain ⟨asset, hasset⟩ :=
    Option.isSome_iff_exists.1 ((hs'.1.rows.job_isSome_iff hx).1 (by rw [hj']; rfl))
  have hagree := hs'.1.rows.agree hx hj' hasset
  have hstatus : asset.status = .done := by rw [hagree.status, hdone]; rfl
  exact ⟨job', asset, hj', hdone, hasset, hstatus, hagree.path.2 hstatus⟩

theorem restart_delivers_killed : ∃ s s' job', run (Sample.config 0) Sys.init Sample.killed = some s ∧
    run (Sample.config 0) s
      ((restart .image ++ (Sample.remade ++ Sample.rounds 64)).map (.worker .image)) = some s' ∧
    s'.world.db.job 1 = some job' ∧ job'.status = .done := by
  obtain ⟨s, s', job, -, hr, hr', hlen, hj, ht, hf, -⟩ := Sample.run_remade
  obtain ⟨job', -, hj', hdone, -⟩ :=
    restart_delivers_of_run hr Sample.succeeds_remade hr' hlen hj ht hf
  exact ⟨s, s', job', hr, hr', hj', hdone⟩

end PoetryGenerator
