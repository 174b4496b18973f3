/-
# No job is lost

While a job waits for a worker (`World.Waits`: it is `RUNNING`, or `QUEUED` and
its id was pushed), its id is on one of the two Redis lists of its type.  The
environment may drop retry counters, but not list elements.

What carries the invariant is the element a worker has in hand (`Pc.Parked`):
it stays on the processing list until the acknowledgement, and when the
acknowledgement is due either the job waits no longer or another copy of its id
is on the queue.  Copies of an id may be around in any number; `LREM` removes
one.
-/

import PoetryGenerator.Reachable

namespace PoetryGenerator

open Numerals

variable {cfg : Config} {w w' : World} {s s' : Sys} {l : Label} {t : JobType} {id : ℤ} {job : Job}

/-- The job is to be delivered to a worker. -/
def World.Waits (w : World) (id : ℤ) (job : Job) : Prop :=
  w.db.job id = some job ∧ (job.status = .running ∨ job.status = .queued ∧ id ∈ w.hist.pushed)

/-- The list element a worker has taken and not yet acknowledged. -/
def Pc.inHand : Pc t → Option Raw
  | getJob raw _ | getAsset raw _ _ | commitMissing raw _ _ | requeue raw _ | ack raw => some raw
  | commitRunning s | call s | incr s _ | expire s _ _ | commitFinal s _ _ => some s.raw
  | _ => none

/-- The element in hand is parked on the processing list, and one that is about
to be acknowledged is not needed there. -/
structure Pc.Parked (w : World) (pc : Pc t) : Prop where
  inHand : ∀ raw, pc.inHand = some raw → raw ∈ w.redis.processing t
  ack : ∀ id job, pc = .ack (encodeInt id) → w.Waits id job → encodeInt id ∈ w.redis.queue t

/-- **The invariant.** -/
structure Sys.Delivers (s : Sys) : Prop where
  jobs : ∀ id job, s.world.Waits id job → encodeInt id ∈ s.world.redis.entries job.type
  workers : ∀ t, (s.workers t).Parked s.world

section
variable {pc : Pc t}

theorem Pc.parked_of_idle (hh : pc.inHand = none) : pc.Parked w where
  inHand raw hraw := by rw [hh] at hraw; cases hraw
  ack _ _ h := by rw [h] at hh; cases hh

theorem Pc.parked_raised (ph : Phase) : (raised ph : Pc t).Parked w := by
  cases ph <;> exact parked_of_idle rfl

theorem Pc.parked_reenqueueRest (ph : Phase) (ids : List ℤ) :
    (reenqueueRest ph ids : Pc t).Parked w := by
  cases ids <;> exact parked_of_idle rfl

/-- The worker is about to acknowledge. -/
def Pc.isAck : Pc t → Bool
  | ack _ => true
  | _ => false

/-- An element in hand is parked when it is on the processing list. -/
theorem Pc.parked_of_inHand {raw : Raw} (hh : pc.inHand = some raw) (hack : pc.isAck = false)
    (hraw : raw ∈ w.redis.processing t) : pc.Parked w where
  inHand raw' h := by rwa [← Option.some.inj (hh.symm.trans h)]
  ack _ _ h := by rw [h] at hack; cases hack

/-- An element may be acknowledged when its job waits for no delivery, or for
one of another copy. -/
theorem Pc.parked_ack (hraw : encodeInt id ∈ w.redis.processing t)
    (h : ∀ job, w.Waits id job → encodeInt id ∈ w.redis.queue t) :
    (ack (encodeInt id) : Pc t).Parked w where
  inHand _ hh := by rwa [← Option.some.inj hh]
  ack id' job he hwaits := by
    obtain rfl := encodeInt_injective (Pc.ack.inj he)
    exact h job hwaits

end

/-! ### Steps of others -/

/-- What others do to the lists of a type: the processing list stays, ids may be
added to the queue, and a job of the type that starts to wait is on it. -/
structure World.Feeds (t : JobType) (w w' : World) : Prop where
  processing : w'.redis.processing t = w.redis.processing t
  queue : w.redis.queue t ⊆ w'.redis.queue t
  waits : ∀ id job, job.type = t → w'.Waits id job →
    w.Waits id job ∨ encodeInt id ∈ w'.redis.queue t

theorem World.Feeds.entries (h : w.Feeds t w') : w.redis.entries t ⊆ w'.redis.entries t := by
  intro raw hraw
  rw [Redis.entries, List.mem_append] at hraw ⊢
  exact hraw.imp (fun hq => h.queue hq) fun hp => h.processing ▸ hp

theorem Pc.Parked.feeds {pc : Pc t} (h : pc.Parked w) (hpc : pc.Ok cfg w) (hw' : w'.RowsOk)
    (hk : w.Keeps t w') (hf : w.Feeds t w') : pc.Parked w' where
  inHand raw hraw := hf.processing ▸ h.inHand raw hraw
  ack id job hack hwaits := by
    subst hack
    obtain ⟨id', hraw, ref, hx⟩ := hpc
    obtain rfl := encodeInt_injective hraw
    have ht := (hw'.job_eq (hk.jobs hx) hwaits.1).1
    rcases hf.waits id job ht hwaits with hold | hnew
    · exact hf.queue (h.ack id job rfl hold)
    · exact hnew

/-- A step that changes neither the lists nor what waits. -/
theorem World.Feeds.congr (hq : w'.redis.queue t = w.redis.queue t)
    (hp : w'.redis.processing t = w.redis.processing t)
    (hw : ∀ id job, job.type = t → w'.Waits id job → w.Waits id job) : w.Feeds t w' :=
  ⟨hp, hq ▸ List.Subset.refl _, fun id job ht h => .inl (hw id job ht h)⟩

theorem World.queue_subset_rpush (r : Reply) (u : JobType) (i : ℤ) :
    w.redis.queue t ⊆ (w.rpush r u i).redis.queue t := by
  rw [World.queue_rpush]
  split_ifs
  · exact List.subset_append_left ..
  · exact List.Subset.refl _

/-- A push makes the job wait whose id it puts on the queue, and no other. -/
theorem World.waits_rpush {r : Reply} {u : JobType} {i : ℤ} (h : (w.rpush r u i).Waits id job) :
    w.Waits id job ∨ id = i ∧ encodeInt id ∈ (w.rpush r u i).redis.queue u := by
  obtain ⟨hj, hst⟩ := h
  rw [World.db_rpush] at hj
  rw [World.pushed_rpush] at hst
  split_ifs at hst with hr
  · by_cases hid : id = i
    · refine .inr ⟨hid, ?_⟩
      rw [World.queue_rpush, if_pos ⟨hr, rfl⟩, hid]
      exact List.mem_append_right _ (List.mem_singleton_self _)
    · refine .inl ⟨hj, hst.imp_right fun h => ⟨h.1, ?_⟩⟩
      exact (List.mem_cons.1 h.2).resolve_left hid
  · exact .inl ⟨hj, hst⟩

/-- A push of the id of a created job. -/
theorem World.Feeds.rpush (hw : w.RowsOk) (r : Reply) {u : JobType} (hc : w.Created u id) :
    w.Feeds t (w.rpush r u id) where
  processing := World.processing_rpush ..
  queue := World.queue_subset_rpush ..
  waits id' job ht hwaits := by
    rcases World.waits_rpush hwaits with hold | ⟨rfl, hq⟩
    · exact .inl hold
    · have hj := hwaits.1
      rw [World.db_rpush] at hj
      obtain ⟨ref, hx⟩ := hc
      obtain rfl : u = t := (hw.job_eq hx hj).1.symm.trans ht
      exact .inr hq

/-- A worker feeds the lists of the other type trivially. -/
theorem Performs.feeds {pc pc' : Pc t} {a : Act t} (h : Performs cfg t w pc a w' pc')
    (hpc : pc.Ok cfg w) (hw : w.RowsOk) {u : JobType} (hu : u ≠ t) : w.Feeds u w' := by
  obtain ⟨hq, hp⟩ := h.lists_other hu
  refine .congr hq hp fun id job ht hwaits => ?_
  have hj := ((h.others hpc hw hu).2 id job ht).1 hwaits.1
  refine ⟨hj, hwaits.2.imp_right fun hst => ⟨hst.1, ?_⟩⟩
  rcases (h.hist hpc).2.2 id hst.2 with hold | ⟨ref, hx⟩
  · exact hold
  · exact absurd (ht.symm.trans (hw.job_eq hx hj).1) hu

/-- **Whoever is not the worker of a type only feeds its lists.** -/
theorem Moves.feeds (h : Moves cfg s l s') (hs : s.Ok cfg) (hl : ∀ a, l ≠ .worker t a)
    (hkept : l.keepsLists = true) : s.world.Feeds t s'.world := by
  cases h with
  | @persist a ids r hf hr =>
      refine .congr rfl rfl fun id job _ hwaits => ?_
      rcases (World.job_persist hf).1 hwaits.1 with ⟨u, -, rfl, rfl⟩ | ⟨-, hj⟩
      · -- a new job is queued, and its id was never pushed
        rcases hwaits.2 with hst | ⟨-, hp⟩
        · cases hst
        · obtain ⟨x, hx, he⟩ := hs.rows.hist.pushed _ hp
          exact absurd he (hf.2.2 u x hx).1
      · exact ⟨hj, hwaits.2⟩
  | push hi =>
      exact .rpush hs.rows _ (hs.requests _ (List.mem_of_getElem? hi) _ (List.mem_cons_self ..))
  | @deleteOp i r pc w next hi hd =>
      obtain ⟨hredis, hhist, hrows, -, hk, -⟩ :=
        hd.ok hs.rows (hs.deletes _ (List.mem_of_getElem? hi))
      have hjob : ∀ id job, w.db.job id = some job → s.world.db.job id = some job :=
        fun id job hj => (hk job.type).job (hhist ▸ hrows.job_known hj) hj
      exact .congr (congrArg (Redis.queue · t) hredis) (congrArg (Redis.processing · t) hredis)
        fun id job _ hwaits => ⟨hjob id job hwaits.1, hhist ▸ hwaits.2⟩
  | @worker u a w pc hw =>
      refine hw.feeds (hs.workers u) hs.rows ?_
      rintro rfl
      exact hl a rfl
  | replaceLists => cases hkept
  | _ => exact .congr rfl rfl fun _ _ _ h => h

/-! ### The worker's own steps -/

section Own
variable {pc pc' : Pc t} {a : Act t}

theorem World.Waits.of_db (hdb : w'.db = w.db) (hp : ∀ i ∈ w'.hist.pushed, i ∈ w.hist.pushed)
    (h : w'.Waits id job) : w.Waits id job :=
  ⟨hdb ▸ h.1, h.2.imp_right fun hst => ⟨hst.1, hp id hst.2⟩⟩

/-- A waiting job is on the lists after a command that leaves its elements there. -/
theorem World.mem_entries_command {r : Reply} {redis : Redis}
    (hold : w.Waits id job → encodeInt id ∈ w.redis.entries t)
    (hsub : w.redis.entries t ⊆ redis.entries t) (hwaits : (w.command r redis).Waits id job) :
    encodeInt id ∈ (w.command r redis).redis.entries t := by
  have hmem := hold (hwaits.of_db (World.db_command ..) fun i hi => by simpa using hi)
  rw [World.redis_command]
  split_ifs
  · exact hsub hmem
  · exact hmem

/-- After a push a waiting job is on the lists. -/
theorem World.mem_entries_rpush {r : Reply} {i : ℤ}
    (hold : w.Waits id job → encodeInt id ∈ w.redis.entries t)
    (hwaits : (w.rpush r t i).Waits id job) : encodeInt id ∈ (w.rpush r t i).redis.entries t := by
  rcases World.waits_rpush hwaits with hbefore | ⟨-, hq⟩
  · rcases List.mem_append.1 (hold hbefore) with hq | hp
    · exact List.mem_append_left _ (World.queue_subset_rpush _ _ _ hq)
    · refine List.mem_append_right _ ?_
      rwa [World.processing_rpush]
  · exact List.mem_append_left _ hq

/-- After a commit of its worker a waiting job is on the lists: the one the worker has in hand
is on the processing list. -/
theorem Pc.Ok.mem_entries_commit (hpc : pc.Ok cfg w) (hp : pc.Parked w) {session : Session t}
    {r : Reply} {db : Db} (hold : w.Waits id job → encodeInt id ∈ w.redis.entries t)
    (hsession : pc.committing = some session) (hhand : pc.inHand = some session.raw)
    (hc : session.commit w.db = some db) (hwaits : (w.commit r db).Waits id job) :
    encodeInt id ∈ (w.commit r db).redis.entries t := by
  have hok := hpc.committing hsession
  rw [World.redis_commit]
  cases hr : r.takesEffect with
  | false =>
      rw [World.commit_eq_self _ _ _ hr] at hwaits
      exact hold hwaits
  | true =>
      rw [World.commit_eq _ _ _ hr] at hwaits
      by_cases hid : id = session.jobId
      · rw [hid, ← hok.raw]
        exact List.mem_append_right _ (hp.inHand _ hhand)
      · have hj : db.job id = some job := hwaits.1
        rw [(hok.rewrites hc).job, if_neg hid] at hj
        exact hold ⟨hj, hwaits.2⟩

/-- **After an operation of its worker a waiting job is still on the lists.** -/
theorem Performs.delivers (h : Performs cfg t w pc a w' pc') (hpc : pc.Ok cfg w)
    (hp : pc.Parked w) (hold : ∀ id job, w.Waits id job → encodeInt id ∈ w.redis.entries job.type)
    (ht : job.type = t) (hwaits : w'.Waits id job) : encodeInt id ∈ w'.redis.entries t := by
  have hold : w.Waits id job → encodeInt id ∈ w.redis.entries t := fun h => ht ▸ hold id job h
  have hrows := h.db hpc
  cases h with
  | reap hproc =>
      refine World.mem_entries_command hold (fun x hx => ?_) hwaits
      rw [Redis.entries, Redis.queue_setLists, Redis.processing_setLists]
      rw [Redis.entries, hproc, List.mem_append, List.mem_cons] at hx
      rw [List.mem_append, List.mem_cons]
      tauto
  | pop hq =>
      refine World.mem_entries_command hold (fun x hx => ?_) hwaits
      rw [Redis.entries, Redis.queue_setLists, Redis.processing_setLists]
      rw [Redis.entries, hq, List.mem_append, List.mem_cons] at hx
      rw [List.mem_append, List.mem_append, List.mem_singleton]
      tauto
  | incr => exact World.mem_entries_command hold (List.Subset.refl _) hwaits
  | @ack raw r =>
      have hold' : w.Waits id job :=
        hwaits.of_db (World.db_command ..) fun i hi => by simpa using hi
      have hmem := hold hold'
      rw [World.redis_command]
      split_ifs
      · rw [Redis.entries, Redis.queue_lrem, Redis.processing_lrem, List.mem_append]
        by_cases hraw : encodeInt id = raw
        · exact .inl (hp.ack id job (by rw [hraw]) hold')
        · rw [List.mem_erase_of_ne hraw]
          exact List.mem_append.1 hmem
      · exact hmem
  | reenqueue | requeue => exact World.mem_entries_rpush hold hwaits
  | commitMissing hc =>
      rcases hrows with hdb | ⟨_, _, hnone, -⟩
      · rw [World.redis_commit]
        refine hold (hwaits.of_db hdb fun i hi => ?_)
        rwa [World.hist_commit] at hi
      · cases hnone
  | commitRunning hc => exact hpc.mem_entries_commit hp hold rfl rfl hc hwaits
  | commitFinal hc => exact hpc.mem_entries_commit hp hold rfl rfl hc hwaits
  | _ => exact hold hwaits

/-- An attempt that is not enqueued again leaves its job done or failed. -/
theorem Ending.rows_settled (e : Ending) (maxRetries : ℤ) (job : Job) (asset : Asset t)
    (h : (e.rows maxRetries job asset).2.2 = false) :
    (e.rows maxRetries job asset).1.status = .done ∨
      (e.rows maxRetries job asset).1.status = .failed := by
  cases e with
  | finished => exact .inl rfl
  | unsupported => exact .inr rfl
  | failed exc attempts =>
      rw [Ending.rows] at h ⊢
      unfold handleJobFailure at h ⊢
      split at h
      · exact .inr rfl
      · split_ifs at h ⊢
        exact .inr rfl

theorem Pc.Ok.settled {session : Session t} {e : Ending}
    (h : (Pc.commitFinal session e false).Ok cfg w) :
    session.job.cur.status = .done ∨ session.job.cur.status = .failed := by
  obtain ⟨s₀, -, -, he⟩ := h
  obtain ⟨rfl, -, hagain⟩ := Pc.commitFinal.inj he
  exact e.rows_settled cfg.maxRetries s₀.job.cur s₀.asset.cur hagain.symm

/-- **An operation of a worker leaves the element it has in hand parked.** -/
theorem Performs.parked (h : Performs cfg t w pc a w' pc') (hw : w.RowsOk) (hpc : pc.Ok cfg w)
    (hl : w.ListsOk) (hp : pc.Parked w) : pc'.Parked w' := by
  have hrows := h.db hpc
  cases h with
  | kill | start | staleMissing | staleRunning | staleFinal => exact Pc.parked_of_idle rfl
  | reap | drained | readQueue | readProcessing =>
      split_ifs
      · exact Pc.parked_of_idle rfl
      · exact Pc.parked_raised _
  | select => exact Pc.parked_reenqueueRest _ _
  | selectRaised => exact Pc.parked_raised _
  | reenqueue =>
      split_ifs
      · exact Pc.parked_reenqueueRest _ _
      · exact Pc.parked_raised _
  | @pop r raw rest hq =>
      rcases r with _ | (_ | _) | (_ | _)
      · obtain ⟨id, hc, rfl⟩ := World.typed_iff.1 (hl t) raw (by simp [Redis.entries, hq])
        have hpop : (Pc.popped cfg (some (encodeInt id)) : Pc t) = .getJob (encodeInt id) id := by
          rw [Pc.popped, cfg.jobId_encodeInt (hw.isKey hc)]
        show (Pc.popped cfg (some (encodeInt id)) : Pc t).Parked _
        rw [hpop]
        exact Pc.parked_of_inHand rfl rfl (by simp [World.redis_command, Reply.takesEffect])
      all_goals exact Pc.parked_of_idle rfl
  | @popEmpty r => rcases r with _ | (_ | _) | (_ | _) <;> exact Pc.parked_of_idle rfl
  | @getJob raw id r =>
      obtain ⟨rfl, -⟩ := hpc
      split_ifs
      · have hnot : ∀ job, w.db.job id = some job → job.status = .done →
            ∀ row, w.Waits id row → encodeInt id ∈ w.redis.queue t := by
          intro job hj hd row hwaits
          rw [Option.some.inj (hj.symm.trans hwaits.1)] at hd
          rcases hwaits.2 with hst | hst
          · rw [hst] at hd; cases hd
          · rw [hst.1] at hd; cases hd
        cases hj : w.db.job id with
        | none =>
            refine Pc.parked_ack (hp.inHand _ rfl) fun job hwaits => ?_
            exact absurd (hj.symm.trans hwaits.1) (by simp)
        | some job =>
            simp only [Pc.gotJob]
            split_ifs with hd
            · exact Pc.parked_ack (hp.inHand _ rfl) (hnot job hj hd)
            · exact Pc.parked_of_inHand rfl rfl (hp.inHand _ rfl)
      · exact Pc.parked_of_idle rfl
  | @getAsset raw id job r =>
      split_ifs
      · cases w.db.asset t job.refId with
        | none => exact Pc.parked_of_inHand rfl rfl (hp.inHand _ rfl)
        | some a => exact Pc.parked_of_inHand rfl rfl (hp.inHand _ rfl)
      · exact Pc.parked_of_idle rfl
  | commitMissing =>
      obtain ⟨rfl, -, hnone⟩ := hpc
      split_ifs
      · rcases hrows with hdb | ⟨_, _, hc, -⟩
        · refine Pc.parked_ack (by rw [World.redis_commit]; exact hp.inHand _ rfl) fun job hwaits => ?_
          have hj := hwaits.1
          rw [hdb, hnone] at hj
          cases hj
        · cases hc
      · exact Pc.parked_of_idle rfl
  | commitRunning =>
      split_ifs
      · refine Pc.parked_of_inHand rfl rfl ?_
        rw [World.redis_commit]
        exact hp.inHand _ rfl
      · exact Pc.parked_of_idle rfl
  | returns => exact Pc.parked_of_inHand rfl rfl (hp.inHand _ rfl)
  | raises => exact Pc.parked_of_inHand rfl rfl (hp.inHand _ rfl)
  | unsupported => cases t <;> exact Pc.parked_of_inHand rfl rfl (hp.inHand _ rfl)
  | @incr s exc r =>
      have hkept : s.raw ∈ (w.command r (w.redis.incr t s.jobId)).redis.processing t := by
        rw [World.redis_command]
        split_ifs <;> exact hp.inHand _ rfl
      split_ifs <;> exact Pc.parked_of_inHand rfl rfl hkept
  | expire => exact Pc.parked_of_inHand rfl rfl (hp.inHand _ rfl)
  | @commitFinal s e again r db hc =>
      have hok := hpc.final.1
      split_ifs with hr
      · cases again with
        | true =>
            refine Pc.parked_of_inHand rfl rfl ?_
            rw [World.redis_commit]
            exact hp.inHand _ rfl
        | false =>
            -- the job is done or failed now
            rw [Pc.processed, if_neg Bool.false_ne_true, hok.raw]
            refine Pc.parked_ack ?_ fun job hwaits => ?_
            · rw [World.redis_commit, ← hok.raw]
              exact hp.inHand _ rfl
            obtain ⟨hj, hst⟩ := hwaits
            rw [hr, World.commit_eq _ _ _ rfl] at hj
            have hj : db.job s.jobId = some job := hj
            rw [(hok.rewrites hc).job, if_pos rfl] at hj
            obtain ⟨_, -, rfl⟩ := Option.map_eq_some_iff.1 hj
            rcases hpc.settled with hs | hs <;> simp [hs] at hst
      · exact Pc.parked_of_idle rfl
  | @requeue raw id r =>
      obtain ⟨rfl, -⟩ := hpc
      split_ifs with hr
      · subst hr
        refine Pc.parked_ack (by rw [World.processing_rpush]; exact hp.inHand _ rfl) fun job _ => ?_
        rw [World.queue_rpush, if_pos ⟨rfl, rfl⟩]
        exact List.mem_append_right _ (List.mem_singleton_self _)
      · exact Pc.parked_of_idle rfl
  | ack | tick => split_ifs <;> exact Pc.parked_of_idle rfl

end Own

/-! ### Runs -/

theorem Sys.delivers_init : Sys.init.Delivers where
  jobs _ _ h := by cases h.1
  workers _ := Pc.parked_of_idle rfl

/-- **Step lemma.** -/
theorem Moves.delivers (h : Moves cfg s l s') (hs : s.Ok cfg)
    (hkept : l.keepsLists = true) (hd : s.Delivers) : s'.Delivers where
  jobs id job hwaits := by
    have hfed : s.world.Feeds job.type s'.world → encodeInt id ∈ s'.world.redis.entries job.type := by
      intro hf
      rcases hf.waits id job rfl hwaits with hold | hnew
      · exact hf.entries (hd.jobs id job hold)
      · exact List.mem_append_left _ hnew
    rcases h.worker_cases job.type with ⟨a, -, hw⟩ | ⟨hl, -⟩
    · exact hw.delivers (hs.workers _) (hd.workers _) hd.jobs rfl hwaits
    · exact hfed (h.feeds hs hl hkept)
  workers t := by
    rcases h.worker_cases t with ⟨a, -, hw⟩ | ⟨hl, hsame⟩
    · exact hw.parked hs.rows (hs.workers t) hs.lists (hd.workers t)
    · rw [hsame]
      exact (hd.workers t).feeds (hs.workers t) (h.ok hs).rows (h.keeps hs hl) (h.feeds hs hl hkept)

/-- **No job is lost.**  In every state a run reaches in which no list element
is lost, a job that is running, or queued and once pushed, is on one of the two
lists of its type. -/
theorem no_job_lost_of_run {ls : List Label} (hr : run cfg Sys.init ls = some s)
    (hkept : ∀ l ∈ ls, l.keepsLists = true)
    (hj : s.world.db.job id = some job)
    (hst : job.status = .running ∨ job.status = .queued ∧ id ∈ s.world.hist.pushed) :
    encodeInt id ∈ s.world.redis.queue job.type ∨
      encodeInt id ∈ s.world.redis.processing job.type := by
  have hI := Runs.run_invariant (I := fun s => s.Ok cfg ∧ s.Delivers)
    (P := fun _ l => l.keepsLists = true)
    (fun s l s' hI hl h => ⟨(moves_of_step h).ok hI.1, (moves_of_step h).delivers hI.1 hl hI.2⟩)
    ⟨Sys.ok_init, Sys.delivers_init⟩ (Runs.along_of_forall fun _ l hl => hkept l hl) hr
  exact List.mem_append.1 (hI.2.jobs id job ⟨hj, hst⟩)

/-- The worker is killed while it calls the processor: the running job is parked. -/
theorem no_job_lost_killed : ∃ s job, run (Sample.config 1) Sys.init Sample.killed = some s ∧
    s.world.db.job 1 = some job ∧ job.status = .running ∧ s.workers .image = .dead ∧
    (encodeInt 1 ∈ s.world.redis.queue job.type ∨
      encodeInt 1 ∈ s.world.redis.processing job.type) := by
  have hkilled : ∃ s job, run (Sample.config 1) Sys.init Sample.killed = some s ∧
      s.world.db.job 1 = some job ∧ job.status = .running ∧ s.workers .image = .dead :=
    ⟨_, _, rfl, rfl, rfl, rfl⟩
  obtain ⟨s, job, hr, hj, hst, hdead⟩ := hkilled
  exact ⟨s, job, hr, hj, hst, hdead, no_job_lost_of_run hr (by decide) hj (.inl hst)⟩

end PoetryGenerator
