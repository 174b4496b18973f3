/-
# The retry budget

`handle_job_failure` counts the failures of a job in Redis and moves the job
back to queued while the count is within `max_retries`; the commit, the push and
the acknowledgement come later and can each be lost or repeated.  Over a whole
run in which no counter is lost a job is moved from running back to queued at
most `max_retries` times: each such commit uses up a value that `INCR` returned,
no value twice (`Spent`).

The other two results are about one attempt: what the last commit of an attempt
whose processor raised leaves in the rows, and that an unsupported language is
never retried nor counted.
-/

import PoetryGenerator.Lifecycle

namespace PoetryGenerator

open Numerals

variable {cfg : Config} {w w' : World} {s s' : Sys} {l : Label} {t : JobType} {id : ℤ}

/-! ### One attempt -/

/-- What `handle_job_failure` leaves: queued again within the budget, else failed. -/
theorem handleJobFailure_cases (maxRetries : ℤ) (exc : Str) (attempts : Option ℕ) (job : Job)
    (asset : Asset t) :
    ((handleJobFailure maxRetries exc attempts job asset).1.status = .queued ∧
        (handleJobFailure maxRetries exc attempts job asset).2.1.status = .pending ∧
        (handleJobFailure maxRetries exc attempts job asset).2.2 = true ∧
        ∃ n, attempts = some n ∧ (n : ℤ) ≤ maxRetries) ∨
      ((handleJobFailure maxRetries exc attempts job asset).1.status = .failed ∧
        (handleJobFailure maxRetries exc attempts job asset).2.1.status = .failed ∧
        (handleJobFailure maxRetries exc attempts job asset).2.2 = false) := by
  cases attempts with
  | none => exact .inr ⟨rfl, rfl, rfl⟩
  | some n =>
      by_cases hn : (n : ℤ) ≤ maxRetries
      · rw [handleJobFailure, if_pos hn]
        exact .inl ⟨rfl, rfl, rfl, n, rfl, hn⟩
      · rw [handleJobFailure, if_neg hn]
        exact .inr ⟨rfl, rfl, rfl⟩

/-- Only a failure within the budget leaves a job queued. -/
theorem Ending.failed_of_queued {e : Ending} {maxRetries : ℤ} {job : Job} {asset : Asset t}
    (h : (e.rows maxRetries job asset).1.status = .queued) :
    ∃ exc n, e = .failed exc (some n) ∧ (n : ℤ) ≤ maxRetries ∧
      (e.rows maxRetries job asset).2.2 = true := by
  cases e with
  | finished | unsupported => cases h
  | failed exc attempts =>
      rcases handleJobFailure_cases maxRetries exc attempts job asset with
        ⟨-, -, hagain, n, rfl, hn⟩ | ⟨hf, -⟩
      · exact ⟨exc, n, rfl, hn, hagain⟩
      · rw [Ending.rows, hf] at h
        cases h

/-- **The last commit of an attempt leaves the session's rows**, if it finds
them and takes effect. -/
theorem Performs.final_rows {session : Session t} {e : Ending} {again : Bool} {r : Reply}
    {pc' : Pc t} (h : Performs cfg t w (.commitFinal session e again) (.reply r) w' pc')
    (hw : w.RowsOk) (hpc : (Pc.commitFinal session e again).Ok cfg w) (hr : r.takesEffect = true)
    {job : Job} (hj : w'.db.job session.jobId = some job) {asset : Asset t}
    (ha : w'.db.asset t job.refId = some asset) :
    job = session.job.cur ∧ asset = session.asset.cur := by
  have hok := hpc.final.1
  cases h with
  | commitFinal hc =>
      rw [World.commit_eq _ _ _ hr] at hj ha
      have hrw := hok.rewrites hc
      change Db.job _ _ = _ at hj
      rw [hrw.job, if_pos rfl] at hj
      obtain ⟨_, -, rfl⟩ := Option.map_eq_some_iff.1 hj
      change Db.asset _ _ _ = _ at ha
      rw [hok.refId, hrw.asset, if_pos rfl] at ha
      obtain ⟨_, -, rfl⟩ := Option.map_eq_some_iff.1 ha
      exact ⟨rfl, rfl⟩
  | staleFinal hc =>
      -- the rows are there, so the commit is not stale
      obtain ⟨-, hrefId⟩ := hw.job_eq hok.known hj
      rw [hrefId] at ha
      rcases Session.commit_eq_none_iff.1 hc with ⟨-, hnone⟩ | ⟨-, hnone⟩
      · rw [hj] at hnone; cases hnone
      · rw [ha] at hnone; cases hnone

/-- The rows a session is about to commit, in terms of how its attempt ended. -/
theorem Pc.Ok.final_cur {session : Session t} {e : Ending} {again : Bool}
    (h : (Pc.commitFinal session e again).Ok cfg w) : ∃ job, ∃ asset : Asset t,
      session.job.cur = (e.rows cfg.maxRetries job asset).1 ∧
        session.asset.cur = (e.rows cfg.maxRetries job asset).2.1 ∧
          again = (e.rows cfg.maxRetries job asset).2.2 := by
  obtain ⟨s₀, -, -, he⟩ := h
  obtain ⟨rfl, -, rfl⟩ := Pc.commitFinal.inj he
  exact ⟨_, _, rfl, rfl, rfl⟩

/-! ### The values in flight -/

/-- The value of `INCR` that an attempt for the job is going by. -/
def Pc.attempts : Pc t → ℤ → Option ℕ
  | expire s _ n, id => if s.jobId = id then some n else none
  | commitFinal s (.failed _ n) _, id => if s.jobId = id then n else none
  | _, _ => none

/-- **The invariant.**  `n` moves back to queued so far have used up values of the
counter; the value in flight is the counter's, and not used up yet. -/
structure Spent (cfg : Config) (id : ℤ) (n : ℕ) (s : Sys) : Prop where
  fresh : (∀ t, ¬ s.world.Created t id) → n = 0
  budget : (n : ℤ) ≤ max 0 cfg.maxRetries
  counter : ∀ t, s.world.Created t id → n ≤ s.world.redis.retry t id
  inFlight : ∀ t v, (s.workers t).attempts id = some v → v = s.world.redis.retry t id ∧ n < v

theorem Pc.attempts_eq_none {pc : Pc t} (h : pc.inProcess = false) : pc.attempts id = none := by
  cases pc <;> first | rfl | cases h

/-- The value in flight after an operation is the one before it, or the one `INCR`
has just returned. -/
theorem Performs.attempts {pc pc' : Pc t} {a : Act t} (h : Performs cfg t w pc a w' pc') {v : ℕ}
    (hv : pc'.attempts id = some v) :
    (pc.attempts id = some v ∧ w'.redis = w.redis) ∨
      v = w.redis.retry t id + 1 ∧ w'.redis.retry t id = v := by
  rcases h.processes with hout | hin
  · exact absurd ((Pc.attempts_eq_none hout).symm.trans hv) (Option.some_ne_none v).symm
  cases hin with
  | @counted session exc =>
      simp only [Pc.attempts] at hv
      split_ifs at hv with hid
      subst hid
      obtain rfl := Option.some.inj hv
      refine .inr ⟨rfl, ?_⟩
      rw [World.redis_command, if_pos (by rfl), Redis.incr, Redis.retry_setRetry, if_pos ⟨rfl, rfl⟩]
  | uncounted =>
      simp only [Pc.ended, Pc.attempts, ite_self, reduceCtorEq] at hv
  | @expire session exc n r =>
      simp only [Pc.ended, Pc.attempts] at hv
      split_ifs at hv with hr hid
      exact .inl ⟨(if_pos hid).trans hv, rfl⟩
  | unsupported => cases t <;> cases hv
  | _ => cases hv

/-- **Only `INCR` changes a counter**, in a step that loses none. -/
theorem Moves.retry (h : Moves cfg s l s') (hs : s.Ok cfg) (hkept : l.keepsRetry = true)
    (u : JobType) (i : ℤ) : s'.world.redis.retry u i = s.world.redis.retry u i ∨
      (∃ a, l = .worker u a) ∧ s'.world.redis.retry u i = s.world.redis.retry u i + 1 := by
  cases h with
  | @worker t a w pc hw =>
      cases hw.sends with
      | nothing hr => exact .inl (congrArg (Redis.retry · u i) hr)
      | @count r session exc _ he =>
          subst he
          rw [World.redis_command]
          split_ifs
          · rw [Redis.incr, Redis.retry_setRetry]
            split_ifs with hc
            · obtain ⟨rfl, rfl⟩ := hc
              exact .inr ⟨⟨_, rfl⟩, rfl⟩
            · exact .inl rfl
          · exact .inl rfl
      | lists _ he =>
          subst he
          rw [World.redis_command]
          split_ifs <;> exact .inl rfl
      | push _ he =>
          subst he
          rw [World.redis_rpush]
          split_ifs <;> exact .inl rfl
  | push =>
      rw [World.redis_rpush]
      split_ifs <;> exact .inl rfl
  | deleteOp hi hd =>
      exact .inl (by rw [(hd.ok hs.rows (hs.deletes _ (List.mem_of_getElem? hi))).1])
  | dropRetry => cases hkept
  | _ => exact .inl rfl

theorem Moves.retry_mono (h : Moves cfg s l s') (hs : s.Ok cfg) (hkept : l.keepsRetry = true)
    (u : JobType) (i : ℤ) : s.world.redis.retry u i ≤ s'.world.redis.retry u i := by
  rcases h.retry hs hkept u i with he | ⟨-, he⟩ <;> omega

/-- A value in flight is for a job of the worker's type. -/
theorem Pc.Ok.created_of_attempts {pc : Pc t} (h : pc.Ok cfg w) {v : ℕ}
    (hv : pc.attempts id = some v) : w.Created t id := by
  cases pc with
  | expire session exc n =>
      simp only [Pc.attempts] at hv
      split_ifs at hv with hid
      exact hid ▸ ⟨_, h.1.known⟩
  | commitFinal session e again =>
      cases e <;> simp only [Pc.attempts, reduceCtorEq] at hv
      split_ifs at hv with hid
      exact hid ▸ ⟨_, h.final.1.known⟩
  | _ => cases hv

/-! ### Runs -/

/-- The step moves the job from running back to queued. -/
def requeues (id : ℤ) (s : Sys) (_ : Label) (s' : Sys) : Bool :=
  (s.world.db.job id).any (fun job => job.status = .running) &&
    (s'.world.db.job id).any fun job => job.status = .queued

theorem spent_init : Spent cfg id 0 Sys.init :=
  ⟨fun _ => rfl, le_max_left .., fun _ _ => Nat.zero_le _, fun _ _ h => by cases h⟩

/-- **A move back to queued uses up the value in flight.** -/
theorem Moves.value_of_requeues (h : Moves cfg s l s') (hs : s.Ok cfg)
    (hre : requeues id s l s' = true) : ∃ t v, s.world.Created t id ∧
      (s.workers t).attempts id = some v ∧ (v : ℤ) ≤ cfg.maxRetries ∧
      (s'.workers t).attempts id = none := by
  rw [requeues, Bool.and_eq_true, Option.any_eq_true, Option.any_eq_true] at hre
  obtain ⟨⟨job, hj, hrunning⟩, job', hj', hqueued⟩ := hre
  rw [decide_eq_true_eq] at hrunning hqueued
  have hx := hs.rows.job_known hj
  rcases h.job_cases hs hx with ⟨hkeep, -⟩ | ⟨session, a, rfl, hc, rfl, hcommit, -⟩
  · rw [Option.some.inj ((hkeep _ hj').symm.trans hj), hrunning] at hqueued
    cases hqueued
  · obtain ⟨rfl, -⟩ := hcommit _ hj'
    have hok := hs.workers job.type
    cases h with
    | @worker _ _ w' pc' hw =>
        refine ⟨job.type, ?_⟩
        show ∃ v, _ ∧ _ ∧ _ ∧ (Function.update s.workers job.type pc' job.type).attempts _ = none
        rw [Function.update_self]
        generalize s.workers job.type = pc at hc hok hw
        cases pc <;> simp only [Pc.committing, Option.some.injEq, reduceCtorEq] at hc
        case commitRunning =>
          subst hc
          rw [hok.2.2] at hqueued
          cases hqueued
        case commitFinal e again =>
          subst hc
          obtain ⟨_, _, hcur, -, -⟩ := hok.final_cur
          rw [hcur] at hqueued
          obtain ⟨exc, v, rfl, hv, -⟩ := Ending.failed_of_queued hqueued
          refine ⟨v, ⟨_, hx⟩, if_pos rfl, hv, ?_⟩
          cases hw with
          | kill | staleFinal => rfl
          | commitFinal =>
              refine Pc.attempts_eq_none ?_
              split_ifs
              · exact Pc.inProcess_processed ..
              · rfl

/-- **Step lemma.** -/
theorem Moves.spent {n : ℕ} (h : Moves cfg s l s') (hs : s.Ok cfg) (hkept : l.keepsRetry = true)
    (hn : Spent cfg id n s) : Spent cfg id (n + (requeues id s l s').toNat) s' := by
  have hs' := h.ok hs
  have hjobs := (h.evolves hs).jobs
  have hle : ∀ u, s'.world.Created u id → n ≤ s.world.redis.retry u id := by
    intro u hu
    by_cases hold : ∃ t, s.world.Created t id
    · obtain ⟨t, ref, hx⟩ := hold
      obtain ⟨ref', hy⟩ := hu
      obtain rfl : t = u :=
        congrArg (fun x => x.2.1) (hs'.rows.hist.jobs_id _ (hjobs hx) _ hy rfl)
      exact hn.counter t ⟨ref, hx⟩
    · exact (hn.fresh fun t hc => hold ⟨t, hc⟩).trans_le (Nat.zero_le _)
  have hunique : ∀ t u, s'.world.Created t id → s'.world.Created u id → t = u := by
    rintro t u ⟨ref, hx⟩ ⟨ref', hy⟩
    exact congrArg (fun x => x.2.1) (hs'.rows.hist.jobs_id _ hx _ hy rfl)
  cases hre : requeues id s l s' with
  | true =>
      obtain ⟨t, v, hc, hv, hmax, hafter⟩ := h.value_of_requeues hs hre
      obtain ⟨hretry, hlt⟩ := hn.inFlight t v hv
      rw [Bool.toNat_true]
      refine ⟨fun hnew => absurd (hc.mono hjobs) (hnew t), by omega, fun u hu => ?_, fun u v' hv' => ?_⟩
      · obtain rfl := hunique _ _ (hc.mono hjobs) hu
        have := h.retry_mono hs hkept t id
        omega
      · obtain rfl := hunique _ _ (hc.mono hjobs) ((hs'.workers u).created_of_attempts hv')
        rw [hafter] at hv'
        cases hv'
  | false =>
      rw [Bool.toNat_false, Nat.add_zero]
      refine ⟨fun hnew => hn.fresh fun t hc => hnew t (hc.mono hjobs), hn.budget, fun u hu => ?_,
        fun u v hv => ?_⟩
      · exact (hle u hu).trans (h.retry_mono hs hkept u id)
      · have hcreated := (hs'.workers u).created_of_attempts hv
        rcases h.worker_cases u with ⟨a, -, hw⟩ | ⟨hl, hsame⟩
        · rcases hw.attempts hv with ⟨hv, hredis⟩ | ⟨hv, hredis⟩
          · obtain ⟨hretry, hlt⟩ := hn.inFlight u v hv
            exact ⟨by rw [hretry, hredis], hlt⟩
          · have := hle u hcreated
            exact ⟨hredis.symm, by omega⟩
        · rw [hsame] at hv
          obtain ⟨hretry, hlt⟩ := hn.inFlight u v hv
          rcases h.retry hs hkept u id with he | ⟨⟨a, ha⟩, -⟩
          · exact ⟨hretry.trans he.symm, hlt⟩
          · exact absurd ha (hl a)

theorem spent_of_run {ls : List Label} (hkept : ∀ l ∈ ls, l.keepsRetry = true)
    (hr : run cfg Sys.init ls = some s) (id : ℤ) :
    Spent cfg id (Runs.countRun (step cfg) (requeues id) Sys.init ls) s :=
  (Runs.countRun_invariant (J := fun n s => s.Ok cfg ∧ Spent cfg id n s)
    (P := fun _ l => l.keepsRetry = true)
    (fun _ _ _ _ hJ hl h => ⟨(moves_of_step h).ok hJ.1, (moves_of_step h).spent hJ.1 hl hJ.2⟩)
    ⟨Sys.ok_init, spent_init⟩ (Runs.along_of_forall fun _ l hl => hkept l hl) hr).2

/-- **The last commit of an attempt whose processor raised.** -/
theorem Moves.failed_attempt {session : Session t} {exc : Str} {attempts : Option ℕ}
    {again : Bool} {r : Reply} (h : Moves cfg s (.worker t (.reply r)) s') (hs : s.Ok cfg)
    (hpc : s.workers t = .commitFinal session (.failed exc attempts) again)
    (hr : r.takesEffect = true) {job : Job} (hj : s'.world.db.job session.jobId = some job)
    {asset : Asset t} (ha : s'.world.db.asset t job.refId = some asset) :
    (job.status = .queued ∧ asset.status = .pending ∧
        ∃ n, attempts = some n ∧ (n : ℤ) ≤ cfg.maxRetries) ∨
      (job.status = .failed ∧ asset.status = .failed) := by
  cases h with
  | worker hw =>
      have hok := hs.workers t
      rw [hpc] at hw hok
      obtain ⟨rfl, rfl⟩ := hw.final_rows hs.rows hok hr hj ha
      obtain ⟨job₀, asset₀, hjob, hasset, -⟩ := hok.final_cur
      rw [hjob, hasset, Ending.rows]
      rcases handleJobFailure_cases cfg.maxRetries exc attempts job₀ asset₀ with
        ⟨hq, hp, -, hn⟩ | ⟨hf, hf', -⟩
      · exact .inl ⟨hq, hp, hn⟩
      · exact .inr ⟨hf, hf'⟩

/-- While its worker does not step, a worker stays where it is and the counters
of its type stay as they are. -/
theorem run_others {ls : List Label} (hs : s.Ok cfg)
    (hl : ∀ l ∈ ls, l.keepsRetry = true ∧ ∀ a, l ≠ .worker t a) (hr : run cfg s ls = some s') :
    s'.workers t = s.workers t ∧ s'.world.redis.retry t = s.world.redis.retry t := by
  have hI := Runs.run_invariant
    (I := fun s₁ => s₁.Ok cfg ∧ s₁.workers t = s.workers t ∧
      s₁.world.redis.retry t = s.world.redis.retry t)
    (P := fun _ l => l.keepsRetry = true ∧ ∀ a, l ≠ .worker t a)
    (fun s₁ l s₂ hI hl h => ?_) ⟨hs, rfl, rfl⟩ (Runs.along_of_forall fun _ l h => hl l h) hr
  · exact hI.2
  · have hm := moves_of_step h
    refine ⟨hm.ok hI.1, ?_, ?_⟩
    · rw [← hI.2.1]
      cases hm with
      | @worker u a w pc hw =>
          exact Function.update_of_ne (fun ht => by subst ht; exact hl.2 a rfl) ..
      | _ => rfl
    · rw [← hI.2.2]
      funext i
      rcases hm.retry hI.1 hl.1 t i with he | ⟨⟨a, ha⟩, -⟩
      · exact he
      · exact absurd ha (hl.2 a)

/-- **An unsupported language fails the audio at once**, whatever others do in
between, and is not counted. -/
theorem unsupported_fails {session : Session .audio} {exc : Str} {attrs : Attrs .audio}
    {wrote : List Path} {s₁ s₂ s₃ : Sys} {ls : List Label} {r : Reply} (hs : s.Ok cfg)
    (hpc : s.workers .audio = .call session)
    (h₁ : step cfg s (.worker .audio (.unsupported exc attrs wrote)) = some s₁)
    (hl : ∀ l ∈ ls, l.keepsRetry = true ∧ ∀ a, l ≠ .worker .audio a)
    (h₂ : run cfg s₁ ls = some s₂) (h₃ : step cfg s₂ (.worker .audio (.reply r)) = some s₃) :
    s₃.world.redis.retry .audio = s.world.redis.retry .audio ∧
      (r.takesEffect = true → ∀ job, s₃.world.db.job session.jobId = some job →
        ∀ asset, s₃.world.db.asset .audio job.refId = some asset →
          job.status = .failed ∧ asset.status = .failed) := by
  have hs₁ := (moves_of_step h₁).ok hs
  obtain ⟨hsame, hretry⟩ := run_others hs₁ hl h₂
  have hs₂ : s₂.Ok cfg := Runs.run_invariant (P := fun _ _ => True)
    (fun _ _ _ hs _ h => (moves_of_step h).ok hs) hs₁ (Runs.along_of_forall fun _ _ _ => trivial) h₂
  cases moves_of_step h₁ with
  | @worker _ _ w₁ pc₁ hw₁ =>
      rw [hpc] at hw₁
      cases hw₁ with
      | unsupported =>
          have hfinal : s₂.workers .audio =
              .ended cfg (session.withAttrs attrs) (.unsupported exc) :=
            hsame.trans (Function.update_self JobType.audio
              (Pc.afterUnsupported cfg (session.withAttrs attrs) exc) s.workers)
          cases moves_of_step h₃ with
          | @worker _ _ w₃ pc₃ hw₃ =>
              have hok := hs₂.workers .audio
              rw [hfinal, Pc.ended] at hw₃ hok
              constructor
              · refine Eq.trans ?_ hretry
                cases hw₃ with
                | commitFinal => exact congrArg (Redis.retry · JobType.audio) (World.redis_commit ..)
                | staleFinal => rfl
              · intro hr job hj asset ha
                obtain ⟨rfl, rfl⟩ := hw₃.final_rows hs₂.rows hok hr hj ha
                exact ⟨rfl, rfl⟩

/-- **Retry budget.**  In a run that loses no counter a job goes from running
back to queued at most `max(0, max_retries)` times; an attempt whose processor
raised leaves job and asset queued and pending, then by the value its `INCR`
returned, or both failed; and an unsupported language leaves both failed without
touching the counter. -/
theorem retry_budget_of_run {ls : List Label} (hkept : ∀ l ∈ ls, l.keepsRetry = true)
    (hr : run cfg Sys.init ls = some s) :
    (∀ id, (Runs.countRun (step cfg) (requeues id) Sys.init ls : ℤ) ≤ max 0 cfg.maxRetries) ∧
    (∀ t (session : Session t) exc attempts again r s',
      s.workers t = .commitFinal session (.failed exc attempts) again →
      step cfg s (.worker t (.reply r)) = some s' → r.takesEffect = true →
      ∀ job, s'.world.db.job session.jobId = some job →
      ∀ asset, s'.world.db.asset t job.refId = some asset →
        (job.status = .queued ∧ asset.status = .pending ∧ ∃ n, attempts = some n ∧
          n = s.world.redis.retry t session.jobId ∧ (n : ℤ) ≤ cfg.maxRetries) ∨
        (job.status = .failed ∧ asset.status = .failed)) ∧
    ∀ session exc attrs wrote s₁ ls₁ s₂ r s₃, s.workers .audio = .call session →
      step cfg s (.worker .audio (.unsupported exc attrs wrote)) = some s₁ →
      (∀ l ∈ ls₁, l.keepsRetry = true ∧ ∀ a, l ≠ .worker .audio a) →
      run cfg s₁ ls₁ = some s₂ → step cfg s₂ (.worker .audio (.reply r)) = some s₃ →
        s₃.world.redis.retry .audio = s.world.redis.retry .audio ∧
          (r.takesEffect = true → ∀ job, s₃.world.db.job session.jobId = some job →
            ∀ asset, s₃.world.db.asset .audio job.refId = some asset →
              job.status = .failed ∧ asset.status = .failed) := by
  have hs := run_ok hr
  refine ⟨fun id => (spent_of_run hkept hr id).budget, ?_, ?_⟩
  · intro t session exc attempts again r s' hpc h heffect job hj asset ha
    rcases (moves_of_step h).failed_attempt hs hpc heffect hj ha with ⟨hq, hp, n, rfl, hn⟩ | hf
    · have hv : (s.workers t).attempts session.jobId = some n := by
        rw [hpc]
        exact if_pos rfl
      exact .inl ⟨hq, hp, n, rfl,
        ((spent_of_run hkept hr session.jobId).inFlight t n hv).1, hn⟩
    · exact .inr hf
  · intro session exc attrs wrote s₁ ls₁ s₂ r s₃ hpc h₁ hl h₂ h₃
    exact unsupported_fails hs hpc h₁ hl h₂ h₃

/-- The first failure of a job that has one retry: it is queued again, by the
value 1. -/
theorem retry_budget_counted : ∃ s s' session job, ∃ asset : Asset .image,
    run (Sample.config 1) Sys.init Sample.counted = some s ∧
    s.workers .image = .commitFinal session (.failed "no GPU".toList (some 1)) true ∧
    step (Sample.config 1) s Sample.ok = some s' ∧
    s'.world.db.job session.jobId = some job ∧ s'.world.db.asset .image job.refId = some asset ∧
    job.status = .queued ∧
    (Runs.countRun (step (Sample.config 1)) (requeues 1) Sys.init Sample.counted : ℤ) ≤ max 0 1 ∧
    ((job.status = .queued ∧ asset.status = .pending ∧ ∃ n, some 1 = some n ∧
        n = s.world.redis.retry .image session.jobId ∧ (n : ℤ) ≤ 1) ∨
      (job.status = .failed ∧ asset.status = .failed)) := by
  have hcounted : ∃ s s' session job, ∃ asset : Asset .image,
      run (Sample.config 1) Sys.init Sample.counted = some s ∧
      s.workers .image = .commitFinal session (.failed "no GPU".toList (some 1)) true ∧
      step (Sample.config 1) s Sample.ok = some s' ∧
      s'.world.db.job session.jobId = some job ∧
      s'.world.db.asset .image job.refId = some asset ∧ job.status = .queued :=
    ⟨_, _, _, _, _, rfl, rfl, rfl, rfl, rfl, rfl⟩
  obtain ⟨s, s', session, job, asset, hr, hpc, h, hj, ha, hq⟩ := hcounted
  obtain ⟨hbudget, hattempt, -⟩ := retry_budget_of_run (by decide) hr
  exact ⟨s, s', session, job, asset, hr, hpc, h, hj, ha, hq, hbudget 1,
    hattempt .image session _ _ _ _ s' hpc h rfl job hj asset ha⟩

end PoetryGenerator
