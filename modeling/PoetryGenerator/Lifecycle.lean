/-
# The life of a job (`docs/ARCHITECTURE.md`, state diagram)

The documented diagram has the edges queued → running, running → done,
running → queued (a retry) and running → failed, and none out of done or failed
(`JobStatus.Edge`).  Here it is compared with the code over whole runs.

`Moves.job_cases` says what one step can do to one job: nothing but remove it,
or commit the session its worker holds for it.  From it follows that a job with
a settled status stays as it is as long as no worker loads it for another
attempt (`Frozen.moves`).  A done job is never loaded, because `process` checks
for it.  A failed job is loaded whenever its id is delivered again, so that
`FAILED` is final exactly on the runs where that does not happen.
-/

import PoetryGenerator.Reachable

namespace PoetryGenerator

open Numerals

variable {cfg : Config} {w w' : World} {s s' : Sys} {l : Label} {t : JobType} {id ref : ℤ}

/-- The edges of the documented state diagram, for the status of a job. -/
inductive JobStatus.Edge : JobStatus → JobStatus → Prop
  | taken : Edge queued running
  | made : Edge running done
  | retried : Edge running queued
  | deadLettered : Edge running failed

/-- The worker has read the job's row for an attempt that is not over. -/
def Pc.Holds : Pc t → ℤ → Prop
  | getAsset _ i _, id => i = id
  | commitRunning s, id | call s, id | incr s _, id | expire s _ _, id | commitFinal s _ _, id =>
    s.jobId = id
  | _, _ => False

section Holds

theorem Pc.not_holds {pc : Pc t} (h : pc.inProcess = false) : ¬ pc.Holds id := by
  cases pc <;> first | exact not_false | cases h

/-- What a worker reads when it takes a job up: the row is there and not done. -/
structure Sys.Loads (s : Sys) (l : Label) (t : JobType) (id : ℤ) (job : Job) : Prop where
  label : l = .worker t (.reply .ok)
  pc : ∃ raw, s.workers t = .getJob raw id
  row : s.world.db.job id = some job
  status : job.status ≠ .done

/-- A worker comes to hold a job only by loading it. -/
theorem Performs.holds {pc pc' : Pc t} {a : Act t} (h : Performs cfg t w pc a w' pc')
    (hh : pc'.Holds id) : pc.Holds id ∨ a = .reply .ok ∧ (∃ raw, pc = .getJob raw id) ∧
      ∃ job, w.db.job id = some job ∧ job.status ≠ .done := by
  rcases h.processes with hout | hin
  · exact absurd hh (Pc.not_holds hout)
  cases hin with
  | @loaded raw i job hj hd =>
      obtain rfl : i = id := hh
      exact .inr ⟨rfl, ⟨raw, rfl⟩, job, hj, hd⟩
  | unsupported => cases t <;> exact .inl hh
  | _ => exact .inl hh

/-- A worker that commits a session holds its job. -/
theorem Pc.holds_of_committing {pc : Pc t} {session : Session t} (h : pc.committing = some session) :
    pc.Holds session.jobId := by
  cases pc <;> simp only [Pc.committing, Option.some.injEq, reduceCtorEq] at h
  all_goals exact congrArg Session.jobId h

end Holds

/-! ### One step of one job -/

/-- **What one step can do to one job.**  Either the job and its asset stay as
they are or are removed, or the worker commits the session it holds for them. -/
theorem Moves.job_cases (h : Moves cfg s l s') (hs : s.Ok cfg)
    (hx : (id, t, ref) ∈ s.world.hist.jobs) :
    ((∀ job, s'.world.db.job id = some job → s.world.db.job id = some job) ∧
      ∀ a, s'.world.db.asset t ref = some a → s.world.db.asset t ref = some a) ∨
    ∃ session a, l = .worker t a ∧ (s.workers t).committing = some session ∧
      session.jobId = id ∧
      (∀ job, s'.world.db.job id = some job →
        job = session.job.cur ∧ s.world.db.job id = some session.job.loaded) ∧
      ∀ a, s'.world.db.asset t ref = some a →
        a = session.asset.cur ∧ s.world.db.asset t ref = some session.asset.loaded := by
  by_cases hl : ∃ a, l = .worker t a
  · obtain ⟨a, rfl⟩ := hl
    cases h with
    | worker hw =>
        rcases hw.db (hs.workers t) with hdb | ⟨session, db, hsession, hc, rfl⟩
        · exact .inl ⟨fun job hj => hdb ▸ hj, fun b hb => hdb ▸ hb⟩
        · have hok := (hs.workers t).committing hsession
          have hrw := hok.rewrites hc
          by_cases hi : id = session.jobId
          · subst hi
            obtain rfl : ref = session.job.loaded.refId :=
              congrArg (fun x => x.2.2) (hs.rows.hist.jobs_id _ hx _ hok.known rfl)
            refine .inr ⟨session, a, rfl, hsession, rfl, fun job hj => ?_, fun b hb => ?_⟩
            · have hj : db.job session.jobId = some job := hj
              rw [hrw.job, if_pos rfl] at hj
              obtain ⟨old, hold, rfl⟩ := Option.map_eq_some_iff.1 hj
              exact ⟨rfl, hok.job old hold ▸ hold⟩
            · have hb : db.asset t session.job.loaded.refId = some b := hb
              rw [hrw.asset, if_pos rfl] at hb
              obtain ⟨old, hold, rfl⟩ := Option.map_eq_some_iff.1 hb
              exact ⟨rfl, hok.asset old hold ▸ hold⟩
          · have hr : ref ≠ session.job.loaded.refId := fun he =>
              hi (congrArg Prod.fst (hs.rows.hist.jobs_ref _ hx _ hok.known (by rw [he])))
            refine .inl ⟨fun job hj => ?_, fun b hb => ?_⟩
            · exact ((hrw.job id).trans (if_neg hi)).symm.trans hj
            · exact ((hrw.asset ref).trans (if_neg hr)).symm.trans hb
  · have hk := h.keeps hs (t := t) fun a ha => hl ⟨a, ha⟩
    exact .inl ⟨fun job hj => hk.job hx hj, fun b hb => hk.asset hx hb⟩

/-! ### Settled jobs -/

/-- The job and its asset are `job` and `asset` unless they are gone, and no
worker has the job in hand. -/
structure Frozen (s : Sys) (t : JobType) (id ref : ℤ) (job : Job) (asset : Asset t) : Prop where
  known : (id, t, ref) ∈ s.world.hist.jobs
  job : ∀ row, s.world.db.job id = some row → row = job
  asset : ∀ row, s.world.db.asset t ref = some row → row = asset
  held : ∀ u, ¬ (s.workers u).Holds id

/-- **Step lemma.**  A frozen job stays frozen unless a worker loads it. -/
theorem Frozen.moves {job : Job} {asset : Asset t} (hf : Frozen s t id ref job asset)
    (hs : s.Ok cfg) (h : Moves cfg s l s') (hload : ∀ u, ¬ s.Loads l u id job) :
    Frozen s' t id ref job asset where
  known := (h.evolves hs).jobs hf.known
  job row hj := by
    rcases h.job_cases hs hf.known with ⟨hjob, -⟩ | ⟨session, a, -, hc, hid, -⟩
    · exact hf.job row (hjob row hj)
    · exact absurd (hid ▸ Pc.holds_of_committing hc) (hf.held t)
  asset row ha := by
    rcases h.job_cases hs hf.known with ⟨-, hasset⟩ | ⟨session, a, -, hc, hid, -⟩
    · exact hf.asset row (hasset row ha)
    · exact absurd (hid ▸ Pc.holds_of_committing hc) (hf.held t)
  held u hh := by
    rcases h.worker_cases u with ⟨a, rfl, hw⟩ | ⟨-, hsame⟩
    · rcases hw.holds hh with hold | ⟨rfl, hpc, row, hrow, hst⟩
      · exact hf.held u hold
      · obtain rfl := hf.job row hrow
        exact hload u ⟨rfl, hpc, hrow, hst⟩
    · exact hf.held u (hsame ▸ hh)

/-- Rows are removed by `delete_poem` only. -/
theorem Moves.job_stays (h : Moves cfg s l s') (hs : s.Ok cfg) (hl : ∀ i r, l ≠ .deleteOp i r)
    (hj : s.world.db.job id ≠ none) : s'.world.db.job id ≠ none := by
  obtain ⟨job, hj⟩ := Option.ne_none_iff_exists'.1 hj
  have hsome : ∀ {db : Db} {row : Job}, db.job id = some row → db.job id ≠ none := fun h =>
    ne_of_eq_of_ne h (Option.some_ne_none _)
  cases h with
  | persist hf hr =>
      refine hsome ((World.job_persist hf).2 (.inr ⟨fun u _ => ?_, hj⟩))
      exact (hf.2.2 u _ (hs.rows.job_known hj)).1
  | push => exact hsome ((congrArg (Db.job · id) (World.db_rpush ..)).trans hj)
  | deleteOp => exact absurd rfl (hl _ _)
  | worker hw =>
      rcases hw.db (hs.workers _) with hdb | ⟨session, db, hsession, hc, rfl⟩
      · exact hsome (hdb ▸ hj)
      · have hrw := ((hs.workers _).committing hsession).rewrites hc
        show db.job id ≠ none
        rw [hrw.job]
        split_ifs with hi
        · rw [← hi, hj]
          exact Option.some_ne_none _
        · exact hsome hj
  | _ => exact hsome hj

theorem job_stays_of_run {ls : List Label} (hs : s.Ok cfg) (hr : run cfg s ls = some s')
    (hl : ∀ i r, Label.deleteOp i r ∉ ls) (hj : s.world.db.job id ≠ none) :
    s'.world.db.job id ≠ none := by
  have hP : Runs.Along (step cfg) (fun _ l => ∀ i r, l ≠ .deleteOp i r) s ls :=
    Runs.along_of_forall fun _ l hmem i r he => hl i r (he ▸ hmem)
  refine (Runs.run_invariant (I := fun s => s.Ok cfg ∧ s.world.db.job id ≠ none)
    (fun s l s' hI hl h => ?_) ⟨hs, hj⟩ hP hr).2
  have hm := moves_of_step h
  exact ⟨hm.ok hI.1, hm.job_stays hI.1 hl hI.2⟩

/-- A frozen job is unchanged, or it was deleted. -/
theorem Frozen.rows {job : Job} {asset : Asset t} (hf : Frozen s t id ref job asset)
    (hs : s.Ok cfg) :
    (s.world.db.job id = some job ∧ s.world.db.asset t ref = some asset) ∨
      s.world.db.job id = none ∧ s.world.db.asset t ref = none := by
  have hsome := hs.rows.job_isSome_iff hf.known
  cases hj : s.world.db.job id with
  | none =>
      rw [hj, Option.isSome_none, Option.isSome_iff_ne_none] at hsome
      exact .inr ⟨rfl, by simpa using hsome⟩
  | some row =>
      rw [hj] at hsome
      obtain ⟨a, ha⟩ := Option.isSome_iff_exists.1 (hsome.1 rfl)
      exact .inl ⟨by rw [hf.job row hj], by rw [ha, hf.asset a ha]⟩

/-- What a worker that holds a job read in its row. -/
theorem Pc.Ok.status_of_holds {pc : Pc t} (h : pc.Ok cfg w) (hh : pc.Holds id) {job : Job}
    (hj : w.db.job id = some job) : job.status ≠ .done := by
  cases pc with
  | getAsset raw i row =>
      obtain rfl : i = id := hh
      exact h.2.2.2.2 job hj ▸ h.2.2.2.1
  | commitRunning session =>
      obtain rfl : session.jobId = id := hh
      exact h.1.job job hj ▸ h.2.1
  | call session | incr session | expire session =>
      obtain rfl : session.jobId = id := hh
      rw [h.1.job job hj, h.2.status]
      decide
  | commitFinal session =>
      obtain rfl : session.jobId = id := hh
      rw [h.final.1.job job hj, h.final.2]
      decide
  | _ => exact hh.elim

/-! ### DONE is final -/

theorem not_calling_of_frozen {job : Job} {asset : Asset t} (hf : Frozen s t id ref job asset)
    (u : JobType) : ¬ s.Calling u id := by
  rintro ⟨session, hc, hid⟩
  have hh : (Pc.call session).Holds id := hid
  exact hf.held u (hc ▸ hh)

/-- **Run lemma.**  A frozen job that no worker loads is neither processed nor
changed; it can only be deleted. -/
theorem Frozen.run {ls : List Label} {job : Job} {asset : Asset t}
    (hf : Frozen s t id ref job asset) (hs : s.Ok cfg) (hj : s.world.db.job id = some job)
    (hload : Runs.Along (step cfg) (fun s l => ∀ u, ¬ s.Loads l u id job) s ls)
    (hr : PoetryGenerator.run cfg s ls = some s') :
    (∀ u, ¬ s'.Calling u id) ∧
      ((s'.world.db.job id = some job ∧ s'.world.db.asset t ref = some asset) ∨
        (s'.world.db.job id = none ∧ s'.world.db.asset t ref = none ∧
          ∃ i r, Label.deleteOp i r ∈ ls)) := by
  obtain ⟨hs', hf'⟩ := Runs.run_invariant (I := fun s => s.Ok cfg ∧ Frozen s t id ref job asset)
    (fun s l s' hI hl h => ⟨(moves_of_step h).ok hI.1, hI.2.moves hI.1 (moves_of_step h) hl⟩)
    ⟨hs, hf⟩ hload hr
  refine ⟨not_calling_of_frozen hf', (hf'.rows hs').imp_right fun hgone => ⟨hgone.1, hgone.2, ?_⟩⟩
  by_contra hdel
  refine job_stays_of_run hs hr (fun i r hm => hdel ⟨i, r, hm⟩) ?_ hgone.1
  exact ne_of_eq_of_ne hj (Option.some_ne_none _)

/-- The rows of a job that no worker has in hand. -/
theorem Sys.Ok.frozen (hs : s.Ok cfg) {job : Job} (hj : s.world.db.job id = some job)
    {asset : Asset job.type} (ha : s.world.db.asset job.type job.refId = some asset)
    (held : ∀ u, ¬ (s.workers u).Holds id) : Frozen s job.type id job.refId job asset where
  known := hs.rows.job_known hj
  job _ hrow := Option.some.inj (hrow.symm.trans hj)
  asset _ hrow := Option.some.inj (hrow.symm.trans ha)
  held := held

/-- **Finished work is never redone or overwritten.** -/
theorem done_final_of_run {ls ls' : List Label} (hr : run cfg Sys.init ls = some s) {job : Job}
    (hj : s.world.db.job id = some job) (hd : job.status = .done) {asset : Asset job.type}
    (ha : s.world.db.asset job.type job.refId = some asset) (hr' : run cfg s ls' = some s') :
    (∀ t, ¬ s'.Calling t id) ∧
      ((s'.world.db.job id = some job ∧ s'.world.db.asset job.type job.refId = some asset) ∨
        (s'.world.db.job id = none ∧ s'.world.db.asset job.type job.refId = none ∧
          ∃ i r, Label.deleteOp i r ∈ ls')) := by
  have hs := run_ok hr
  have hf := hs.frozen hj ha fun u hh => (hs.workers u).status_of_holds hh hj hd
  exact hf.run hs hj (Runs.along_of_forall fun _ _ _ _ hload => hload.status hd) hr'

/-- A done job delivered twice more: it is acknowledged, and its row is as it was. -/
theorem done_final_redelivered : ∃ s s' job, ∃ asset : Asset job.type,
    run (Sample.config 1) Sys.init Sample.made = some s ∧ s.world.db.job 1 = some job ∧
      job.status = .done ∧ s.world.db.asset job.type job.refId = some asset ∧
      run (Sample.config 1) s Sample.redelivered = some s' ∧
      s'.world.redis.processing .image = [encodeInt 1] ∧
      (∀ t, ¬ s'.Calling t 1) ∧
        ((s'.world.db.job 1 = some job ∧ s'.world.db.asset job.type job.refId = some asset) ∨
          (s'.world.db.job 1 = none ∧ s'.world.db.asset job.type job.refId = none ∧
            ∃ i r, Label.deleteOp i r ∈ Sample.redelivered)) := by
  have hmade : ∃ s s' job, ∃ asset : Asset job.type,
      run (Sample.config 1) Sys.init Sample.made = some s ∧ s.world.db.job 1 = some job ∧
        job.status = .done ∧ s.world.db.asset job.type job.refId = some asset ∧
        run (Sample.config 1) s Sample.redelivered = some s' ∧
        s'.world.redis.processing .image = [encodeInt 1] :=
    ⟨_, _, _, _, rfl, rfl, rfl, rfl, rfl, rfl⟩
  obtain ⟨s, s', job, asset, hr, hj, hd, ha, hr', hp⟩ := hmade
  exact ⟨s, s', job, asset, hr, hj, hd, ha, hr', hp, done_final_of_run hr hj hd ha hr'⟩

/-! ### FAILED is final when no failed job is loaded -/

/-- The step reads, to process it, a job that is `FAILED`. -/
def Sys.loadsFailed (s : Sys) : Label → Bool
  | .worker t (.reply .ok) =>
    match s.workers t with
    | .getJob _ id => (s.world.db.job id).any fun job => job.status = .failed
    | _ => false
  | _ => false

/-- No job in hand was `FAILED` when it was read. -/
def Pc.NoneFailed : Pc t → Prop
  | getAsset _ _ job => job.status ≠ .failed
  | commitRunning s => s.job.loaded.status ≠ .failed
  | _ => True

theorem Sys.Loads.loadsFailed {job : Job} (h : s.Loads l t id job) (hf : job.status = .failed) :
    s.loadsFailed l = true := by
  obtain ⟨rfl, ⟨raw, hpc⟩, hrow, -⟩ := h
  simp only [Sys.loadsFailed, hpc, hrow, Option.any_some, hf, decide_true]

theorem Pc.noneFailed {pc : Pc t} (h : pc.inProcess = false) : pc.NoneFailed := by
  cases pc <;> trivial

theorem Moves.noneFailed (h : Moves cfg s l s') (hn : ∀ t, (s.workers t).NoneFailed)
    (hl : s.loadsFailed l = false) (t : JobType) : (s'.workers t).NoneFailed := by
  rcases h.worker_cases t with ⟨a, rfl, hw⟩ | ⟨-, hsame⟩
  · rcases hw.processes with hout | hin
    · exact Pc.noneFailed hout
    have hpc := hn t
    generalize s'.world = w' at hin
    generalize s'.workers t = new at hin ⊢
    generalize hold : s.workers t = old at hin hpc
    cases hin with
    | loaded hj =>
        simp only [Sys.loadsFailed, hold, hj, Option.any_some, decide_eq_false_iff_not] at hl
        exact hl
    | started => exact hpc
    | unsupported => cases t <;> trivial
    | _ => trivial
  · exact hsame ▸ hn t

/-- A failed job is in no worker's hands. -/
theorem Pc.Ok.not_holds_failed {pc : Pc t} (h : pc.Ok cfg w) (hn : pc.NoneFailed) {job : Job}
    (hj : w.db.job id = some job) (hf : job.status = .failed) : ¬ pc.Holds id := by
  intro hh
  cases pc with
  | getAsset raw i row =>
      obtain rfl : i = id := hh
      exact hn (h.2.2.2.2 job hj ▸ hf)
  | commitRunning session =>
      obtain rfl : session.jobId = id := hh
      exact hn (h.1.job job hj ▸ hf)
  | call session | incr session | expire session =>
      obtain rfl : session.jobId = id := hh
      rw [h.1.job job hj, h.2.status] at hf
      cases hf
  | commitFinal session =>
      obtain rfl : session.jobId = id := hh
      rw [h.final.1.job job hj, h.final.2] at hf
      cases hf
  | _ => exact hh.elim

theorem noneFailed_of_run {ls : List Label} (hr : run cfg Sys.init ls = some s)
    (hload : Runs.Along (step cfg) (fun s l => s.loadsFailed l = false) Sys.init ls) (t : JobType) :
    (s.workers t).NoneFailed :=
  Runs.run_invariant (I := fun s => ∀ t, (s.workers t).NoneFailed)
    (fun _ _ _ hI hl h => (moves_of_step h).noneFailed hI hl) (fun _ => trivial) hload hr t

/-- A job that was dead-lettered runs again: it is failed, with its image, the
worker is killed before the acknowledgement, and the next delivery calls the
processor. -/
theorem failed_runs_again : ∃ s s', run (Sample.config 0) Sys.init Sample.deadLettered = some s ∧
    (s.world.db.job 1).map Job.status = some .failed ∧
    (s.world.db.asset .image 1).map Asset.status = some .failed ∧
    run (Sample.config 0) s Sample.restarted = some s' ∧
    (s'.world.db.job 1).map Job.status = some .running ∧
    (s'.world.db.asset .image 1).map Asset.status = some .running ∧ s'.Calling .image 1 :=
  ⟨_, _, rfl, rfl, rfl, rfl, rfl, rfl, _, rfl, rfl⟩

/-- **Dead-lettering is final on the runs that load no failed job.** -/
theorem failed_final_of_run {ls ls' : List Label} (hr : run cfg Sys.init ls = some s)
    (hr' : run cfg s ls' = some s')
    (hload : Runs.Along (step cfg) (fun s l => s.loadsFailed l = false) Sys.init (ls ++ ls'))
    {job : Job} (hj : s.world.db.job id = some job) (hf : job.status = .failed)
    {asset : Asset job.type} (ha : s.world.db.asset job.type job.refId = some asset) :
    (∀ t, ¬ s'.Calling t id) ∧
      ((s'.world.db.job id = some job ∧ s'.world.db.asset job.type job.refId = some asset) ∨
        (s'.world.db.job id = none ∧ s'.world.db.asset job.type job.refId = none ∧
          ∃ i r, Label.deleteOp i r ∈ ls')) := by
  obtain ⟨hbefore, hafter⟩ := (Runs.along_append hr).1 hload
  have hs := run_ok hr
  have hfrozen := hs.frozen hj ha fun u =>
    (hs.workers u).not_holds_failed (noneFailed_of_run hr hbefore u) hj hf
  refine hfrozen.run hs hj (hafter.mono fun s l hl u hu => ?_) hr'
  rw [hu.loadsFailed hf] at hl
  cases hl

/-- The job is failed, acknowledged, and stays failed through a maintenance pass. -/
theorem failed_final_acknowledged : ∃ s s' job, ∃ asset : Asset job.type,
    run (Sample.config 0) Sys.init Sample.deadLettered = some s ∧
      run (Sample.config 0) s Sample.maintained = some s' ∧ s.world.db.job 1 = some job ∧
      job.status = .failed ∧ s.world.db.asset job.type job.refId = some asset ∧
      s'.workers .image = .pop ∧ (∀ t, ¬ s'.Calling t 1) ∧
        ((s'.world.db.job 1 = some job ∧ s'.world.db.asset job.type job.refId = some asset) ∨
          (s'.world.db.job 1 = none ∧ s'.world.db.asset job.type job.refId = none ∧
            ∃ i r, Label.deleteOp i r ∈ Sample.maintained)) := by
  have hfailed : ∃ s s' job, ∃ asset : Asset job.type,
      run (Sample.config 0) Sys.init Sample.deadLettered = some s ∧
        run (Sample.config 0) s Sample.maintained = some s' ∧ s.world.db.job 1 = some job ∧
        job.status = .failed ∧ s.world.db.asset job.type job.refId = some asset ∧
        s'.workers .image = .pop :=
    ⟨_, _, _, _, rfl, rfl, rfl, rfl, rfl, rfl⟩
  obtain ⟨s, s', job, asset, hr, hr', hj, hf, ha, hp⟩ := hfailed
  exact ⟨s, s', job, asset, hr, hr', hj, hf, ha, hp,
    failed_final_of_run hr hr' (by decide) hj hf ha⟩

/-! ### The documented diagram -/

/-- A session commits along an edge. -/
theorem Pc.Ok.edge {pc : Pc t} (h : pc.Ok cfg w) (hn : pc.NoneFailed) {session : Session t}
    (hc : pc.committing = some session) :
    session.job.cur.status = session.job.loaded.status ∨
      JobStatus.Edge session.job.loaded.status session.job.cur.status := by
  cases pc <;> simp only [Pc.committing, Option.some.injEq, reduceCtorEq] at hc
  case commitRunning session' =>
    subst hc
    obtain ⟨-, hd, hrunning⟩ := h
    have hf : session'.job.loaded.status ≠ .failed := hn
    rw [hrunning]
    cases hst : session'.job.loaded.status with
    | queued => exact .inr .taken
    | running => exact .inl rfl
    | done => exact absurd hst hd
    | failed => exact absurd hst hf
  case commitFinal session' e again =>
    subst hc
    rw [h.final.2]
    cases session'.job.cur.status with
    | queued => exact .inr .retried
    | running => exact .inl rfl
    | done => exact .inr .made
    | failed => exact .inr .deadLettered

/-- **One step of a job is an edge of the diagram**, where no failed job is in
hand. -/
theorem Moves.status_edge (h : Moves cfg s l s') (hs : s.Ok cfg)
    (hn : ∀ t, (s.workers t).NoneFailed) {job job' : Job} (hj : s.world.db.job id = some job)
    (hj' : s'.world.db.job id = some job') :
    job'.status = job.status ∨ JobStatus.Edge job.status job'.status := by
  rcases h.job_cases hs (hs.rows.job_known hj) with ⟨hkeep, -⟩ | ⟨session, a, -, hc, rfl, hcommit, -⟩
  · exact .inl (congrArg Job.status (Option.some.inj ((hkeep _ hj').symm.trans hj)))
  · obtain ⟨rfl, hloaded⟩ := hcommit _ hj'
    have hstatus : job.status = session.job.loaded.status :=
      congrArg Job.status (Option.some.inj (hj.symm.trans hloaded))
    rw [hstatus]
    exact (hs.workers job.type).edge (hn job.type) hc

/-- **The code refines the documented diagram** on the runs that load no failed
job: from any state to any later one a job takes edges of the diagram only. -/
theorem status_documented_of_run {ls ls' : List Label} (hr : run cfg Sys.init ls = some s)
    (hr' : run cfg s ls' = some s')
    (hload : Runs.Along (step cfg) (fun s l => s.loadsFailed l = false) Sys.init (ls ++ ls'))
    {job job' : Job} (hj : s.world.db.job id = some job) (hj' : s'.world.db.job id = some job') :
    Relation.ReflTransGen JobStatus.Edge job.status job'.status := by
  obtain ⟨hbefore, hafter⟩ := (Runs.along_append hr).1 hload
  have hI := Runs.run_invariant
    (I := fun s₁ => s₁.Ok cfg ∧ (∀ t, (s₁.workers t).NoneFailed) ∧
      (∃ x ∈ s₁.world.hist.jobs, x.1 = id) ∧
      ∀ row, s₁.world.db.job id = some row → Relation.ReflTransGen JobStatus.Edge job.status row.status)
    (fun s₁ l s₂ hI hl h => ?_)
    ⟨run_ok hr, noneFailed_of_run hr hbefore, ⟨_, (run_ok hr).rows.job_known hj, rfl⟩,
      fun row hrow => by rw [Option.some.inj (hrow.symm.trans hj)]⟩ hafter hr'
  · exact hI.2.2.2 job' hj'
  · obtain ⟨hs, hn, ⟨x, hx, hid⟩, hrow⟩ := hI
    have hm := moves_of_step h
    refine ⟨hm.ok hs, hm.noneFailed hn hl, ⟨x, (hm.evolves hs).jobs hx, hid⟩, fun row' hrow' => ?_⟩
    rcases (hm.evolves hs).job hrow' with hnew | ⟨row, hold, -⟩
    · exact absurd hid (hnew x hx)
    · rcases hm.status_edge hs hn hold hrow' with he | he
      · exact he ▸ hrow row hold
      · exact (hrow row hold).tail he

end PoetryGenerator
