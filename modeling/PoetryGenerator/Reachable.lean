/-
# The invariant of the system

`Sys.Ok` puts together what holds of the rows, the lists, the pending requests,
the `delete_poem` calls and the workers.  `Moves.ok` is its step lemma and
`run_ok` its run lemma: `Sys.Ok` holds in every state that any interleaving
reaches, whatever dies, raises or is lost on the way.

Three results about every reachable state are read off it: a job and its asset
agree, `(type, ref_id)` is a bijection from jobs to assets, and the lists of a
type hold only ids of jobs of that type, so that no worker touches the other
type.
-/

import PoetryGenerator.WorkerState

namespace PoetryGenerator

open Numerals

variable {cfg : Config} {w w' : World} {s s' : Sys} {l : Label}

/-! ### What a delete_poem call knows -/

/-- The assets of a type it has loaded are the poem's. -/
structure LoadedOk (w : World) (p : ℤ) (loaded : JobType → List (ℤ × Option Str)) (t : JobType) :
    Prop where
  poem : p ∈ w.hist.poems
  known : ∀ ref ∈ (loaded t).map Prod.fst, ∃ id, (id, t, ref) ∈ w.hist.jobs
  exact : ∀ ref a, w.db.asset t ref = some a → (ref ∈ (loaded t).map Prod.fst ↔ a.poemId = p)

/-- What a call knows at a program counter. -/
def DeletePc.Ok (w : World) : DeletePc → Prop
  | getPoem _ => True
  | load p .image _ => p ∈ w.hist.poems
  | load p .audio loaded | unlink p .image loaded _ => LoadedOk w p loaded .image
  | unlink p .audio loaded _ | commit p loaded => ∀ t, LoadedOk w p loaded t

/-- A poem gets no asset after it was created. -/
theorem LoadedOk.evolves {p : ℤ} {loaded : JobType → List (ℤ × Option Str)} {t : JobType}
    (h : LoadedOk w p loaded t) (he : w.Evolves w') : LoadedOk w' p loaded t where
  poem := he.poems h.poem
  known ref hr := (h.known ref hr).imp fun _ hx => he.jobs hx
  exact ref a' ha := by
    rcases he.asset ha with ⟨hnew, hpoem⟩ | ⟨a, ha, hp⟩
    · refine iff_of_false (fun hr => ?_) fun hp => hpoem (hp ▸ h.poem)
      obtain ⟨id, hx⟩ := h.known ref hr
      exact hnew _ hx rfl
    · rw [← hp]
      exact h.exact ref a ha

theorem DeletePc.Ok.evolves {pc : DeletePc} (h : pc.Ok w) (he : w.Evolves w') : pc.Ok w' := by
  match pc with
  | getPoem _ => trivial
  | load _ .image _ => exact he.poems h
  | load _ .audio _ | unlink _ .image .. => exact LoadedOk.evolves h he
  | unlink _ .audio .. | commit .. => exact fun t => (h t).evolves he

/-- Once the assets of a type are loaded the call goes on with what it knows. -/
theorem DeletePc.ok_unlinkRest {p : ℤ} {loaded : JobType → List (ℤ × Option Str)} {t : JobType}
    {l : List (Option Str)} (h : (unlink p t loaded l).Ok w) (left : List (Option Str)) :
    (unlinkRest p t loaded left).Ok w := by
  cases left <;> cases t <;> exact h

/-- **An operation of a `delete_poem` call.**  It leaves Redis and the history
alone, and keeps the rows consistent and its own knowledge valid. -/
theorem Deletes.ok {r : Reply} {pc : DeletePc} {next : Option DeletePc}
    (h : Deletes cfg w r pc w' next) (hw : w.RowsOk) (hpc : pc.Ok w) :
    w'.redis = w.redis ∧ w'.hist = w.hist ∧ w'.RowsOk ∧ w.Evolves w' ∧ (∀ t, w.Keeps t w') ∧
      ∀ pc' ∈ next, pc'.Ok w' := by
  have hsame : w.RowsOk ∧ w.Evolves w ∧ ∀ t, w.Keeps t w :=
    ⟨hw, .congr rfl rfl rfl, fun _ => .congr rfl rfl⟩
  cases h with
  | getPoem hp =>
      refine ⟨rfl, rfl, hsame.1, hsame.2.1, hsame.2.2, fun pc' hpc' => ?_⟩
      split_ifs at hpc'
      · obtain rfl := Option.some.inj hpc'
        exact hw.poem_known hp
      · cases hpc'
  | noPoem => exact ⟨rfl, rfl, hsame.1, hsame.2.1, hsame.2.2, fun _ hpc' => by cases hpc'⟩
  | @load p t loaded =>
      refine ⟨rfl, rfl, hsame.1, hsame.2.1, hsame.2.2, fun pc' hpc' => ?_⟩
      split_ifs at hpc'
      · obtain rfl := Option.some.inj hpc'
        have hp : p ∈ w.hist.poems := by
          cases t
          · exact hpc
          · exact LoadedOk.poem hpc
        have hnew : LoadedOk w p (Function.update loaded t (w.db.assetsOf t p)) t := by
          refine ⟨hp, fun ref hr => ?_, fun ref a ha => ?_⟩
          · rw [Function.update_self, Db.mem_assetsOf_keys] at hr
            obtain ⟨a, ha, -⟩ := hr
            obtain ⟨id, job, hj, rfl, rfl⟩ := hw.asset_job ha
            exact ⟨id, hw.job_known hj⟩
          · rw [Function.update_self, Db.mem_assetsOf_keys]
            refine ⟨?_, fun hap => ⟨a, ha, hap⟩⟩
            rintro ⟨b, hb, hbp⟩
            rwa [Option.some.inj (ha.symm.trans hb)]
        cases t with
        | image => exact DeletePc.ok_unlinkRest (t := .image) (l := []) hnew _
        | audio =>
            refine DeletePc.ok_unlinkRest (t := .audio) (l := []) (fun u => ?_) _
            cases u with
            | image =>
                have hold : LoadedOk w p loaded .image := hpc
                refine ⟨hp, ?_, ?_⟩
                all_goals rw [Function.update_of_ne (by decide)]
                · exact hold.known
                · exact hold.exact
            | audio => exact hnew
      · cases hpc'
  | unlink =>
      refine ⟨rfl, rfl, hw.congr rfl rfl rfl hw.hist.pushed, .congr rfl rfl rfl,
        fun _ => .congr rfl rfl, fun pc' hpc' => ?_⟩
      obtain rfl := Option.some.inj hpc'
      exact (DeletePc.ok_unlinkRest hpc _).evolves (.congr rfl rfl rfl)
  | @commit p loaded =>
      have hl : w.db.Loaded p fun t => (loaded t).map Prod.fst := fun t => (hpc t).exact
      cases hr : r.takesEffect with
      | false =>
          rw [w.commit_eq_self r _ hr]
          exact ⟨rfl, rfl, hsame.1, hsame.2.1, hsame.2.2, fun _ hpc' => by cases hpc'⟩
      | true =>
          rw [w.commit_eq r _ hr]
          exact ⟨rfl, rfl, hw.deleteRows hl, .deleteRows, fun _ => .deleteRows,
            fun _ hpc' => by cases hpc'⟩

/-! ### The invariant -/

/-- **The invariant of the system.** -/
structure Sys.Ok (cfg : Config) (s : Sys) : Prop where
  rows : s.world.RowsOk
  lists : s.world.ListsOk
  requests : ∀ request ∈ s.requests, ∀ x ∈ request, s.world.Created x.1 x.2
  deletes : ∀ pc ∈ s.deletes, pc.Ok s.world
  workers : ∀ t, (s.workers t).Ok cfg s.world

theorem Sys.ok_init : Sys.init.Ok cfg where
  rows := .empty
  lists t := by simp [World.Typed, Redis.entries, Sys.init, World.empty, Redis.empty]
  requests := by simp [Sys.init]
  deletes := by simp [Sys.init]
  workers _ := trivial

theorem World.ListsOk.of_entries (h : w.ListsOk) (hjobs : w.hist.jobs ⊆ w'.hist.jobs)
    (he : ∀ t, ∀ raw ∈ w'.redis.entries t, raw ∈ w.redis.entries t ∨
      ∃ id, w'.Created t id ∧ raw = encodeInt id) : w'.ListsOk := by
  refine fun t => World.typed_iff.2 fun raw hraw => ?_
  rcases he t raw hraw with hold | hnew
  · obtain ⟨id, hc, hid⟩ := World.typed_iff.1 (h t) raw hold
    exact ⟨id, hc.mono hjobs, hid⟩
  · exact hnew

/-- **No step gives a row a new key or takes what it references.** -/
theorem Moves.evolves (h : Moves cfg s l s') (hs : s.Ok cfg) : s.world.Evolves s'.world := by
  cases h with
  | persist hf hr => exact .persist hf
  | push => exact .congr (World.db_rpush ..) (World.poems_rpush ..) (World.jobs_rpush ..)
  | deleteOp hi hd => exact (hd.ok hs.rows (hs.deletes _ (List.mem_of_getElem? hi))).2.2.2.1
  | worker hw => exact hw.evolves (hs.workers _) hs.rows
  | _ => exact .congr rfl rfl rfl

/-- **Only a step of its worker changes the rows of a type.** -/
theorem Moves.keeps (h : Moves cfg s l s') (hs : s.Ok cfg) {t : JobType}
    (hl : ∀ a, l ≠ .worker t a) : s.world.Keeps t s'.world := by
  cases h with
  | persist hf hr => exact .persist hf
  | push => exact .congr (World.db_rpush ..) (World.jobs_rpush ..)
  | deleteOp hi hd => exact (hd.ok hs.rows (hs.deletes _ (List.mem_of_getElem? hi))).2.2.2.2.1 t
  | @worker u a w pc hw =>
      refine hw.keeps (hs.workers u) hs.rows ?_
      rintro rfl
      exact hl a rfl
  | _ => exact .congr rfl rfl

theorem Moves.rowsOk (h : Moves cfg s l s') (hs : s.Ok cfg) : s'.world.RowsOk := by
  cases h with
  | persist hf hr => exact hs.rows.persist hf
  | @push i r t id rest hi =>
      refine hs.rows.congr (World.db_rpush ..) (World.poems_rpush ..) (World.jobs_rpush ..) ?_
      intro id' hid'
      rw [World.pushed_rpush] at hid'
      split_ifs at hid'
      · rcases List.mem_cons.1 hid' with rfl | hid'
        · obtain ⟨ref, hx⟩ := hs.requests _ (List.mem_of_getElem? hi) _ (List.mem_cons_self ..)
          exact ⟨_, hx, rfl⟩
        · exact hs.rows.hist.pushed id' hid'
      · exact hs.rows.hist.pushed id' hid'
  | deleteOp hi hd => exact (hd.ok hs.rows (hs.deletes _ (List.mem_of_getElem? hi))).2.2.1
  | worker hw => exact hw.rowsOk (hs.workers _) hs.rows
  | dropRetry | replaceLists => exact hs.rows.congr rfl rfl rfl hs.rows.hist.pushed
  | _ => exact hs.rows

theorem Moves.listsOk (h : Moves cfg s l s') (hs : s.Ok cfg) : s'.world.ListsOk := by
  refine hs.lists.of_entries (h.evolves hs).jobs fun t raw hraw => ?_
  cases h with
  | @push i r u id rest hi =>
      rcases World.entries_rpush hraw with hraw | ⟨rfl, rfl⟩
      · exact .inl hraw
      · have hc := hs.requests _ (List.mem_of_getElem? hi) _ (List.mem_cons_self ..)
        exact .inr ⟨id, hc.mono (World.jobs_rpush .. ▸ List.Subset.refl _), rfl⟩
  | deleteOp hi hd =>
      rw [(hd.ok hs.rows (hs.deletes _ (List.mem_of_getElem? hi))).1] at hraw
      exact .inl hraw
  | worker hw =>
      rcases hw.entries (hs.workers _) hraw with hraw | ⟨rfl, id, hc, rfl⟩
      · exact .inl hraw
      · exact .inr ⟨id, hc.mono ((hw.hist (hs.workers _)).2.1 ▸ List.Subset.refl _), rfl⟩
  | @replaceLists u queue processing ht =>
      by_cases hu : t = u
      · subst hu
        refine .inr (World.typed_iff.1 ht raw ?_)
        simpa [Redis.entries] using hraw
      · rw [Redis.entries, Redis.queue_setLists_of_ne _ _ _ _ hu,
          Redis.processing_setLists_of_ne _ _ _ _ hu] at hraw
        exact .inl hraw
  | _ => exact .inl hraw

/-- **Step lemma.**  Every step of the system keeps the invariant. -/
theorem Moves.ok (h : Moves cfg s l s') (hs : s.Ok cfg) : s'.Ok cfg where
  rows := h.rowsOk hs
  lists := h.listsOk hs
  requests request hrequest x hx := by
    have hold : request ∈ s.requests → s'.world.Created x.1 x.2 := fun hr =>
      (hs.requests request hr x hx).mono (h.evolves hs).jobs
    cases h with
    | @persist a ids r hf hr =>
        split_ifs at hrequest
        · rcases List.mem_append.1 hrequest with hrequest | hrequest
          · exact hold hrequest
          · obtain rfl := List.mem_singleton.1 hrequest
            obtain ⟨hw, he⟩ := mem_persistPoem_jobs.1 (show (x.1, x.2) ∈ _ from hx)
            exact ⟨_, (World.mem_jobs_persist ..).2 (.inl ⟨x.1, hw, by rw [he]⟩)⟩
        · exact hold hrequest
    | @push i r t id rest hi =>
        split_ifs at hrequest
        · rcases List.mem_or_eq_of_mem_set hrequest with hrequest | rfl
          · exact hold hrequest
          · exact (hs.requests _ (List.mem_of_getElem? hi) x (List.mem_cons_of_mem _ hx)).mono
              (World.jobs_rpush .. ▸ List.Subset.refl _)
        · exact hold (List.mem_of_mem_eraseIdx hrequest)
    | abandon => exact hold (List.mem_of_mem_eraseIdx hrequest)
    | _ => exact hold hrequest
  deletes pc hpc := by
    have hold : pc ∈ s.deletes → pc.Ok s'.world := fun hp => (hs.deletes pc hp).evolves (h.evolves hs)
    cases h with
    | delete =>
        rcases List.mem_append.1 hpc with hpc | hpc
        · exact hold hpc
        · obtain rfl := List.mem_singleton.1 hpc
          trivial
    | @deleteOp i r pc₀ w next hi hd =>
        have hok := (hd.ok hs.rows (hs.deletes _ (List.mem_of_getElem? hi))).2.2.2.2.2
        cases next with
        | none => exact hold (List.mem_of_mem_eraseIdx hpc)
        | some pc' =>
            rcases List.mem_or_eq_of_mem_set hpc with hpc | rfl
            · exact hold hpc
            · exact hok _ rfl
    | abandonDelete => exact hold (List.mem_of_mem_eraseIdx hpc)
    | _ => exact hold hpc
  workers t := by
    rcases h.worker_cases t with ⟨a, -, hw⟩ | ⟨hl, hsame⟩
    · exact hw.ok hs.rows hs.lists (hs.workers t)
    · rw [hsame]
      exact (hs.workers t).keeps (h.keeps hs hl)

/-- **Run lemma.**  The invariant holds in every state a run reaches. -/
theorem run_ok {ls : List Label} (hr : run cfg Sys.init ls = some s) : s.Ok cfg :=
  Runs.run_invariant (P := fun _ _ => True) (fun _ _ _ hs _ h => (moves_of_step h).ok hs) Sys.ok_init
    (Runs.along_of_forall fun _ _ _ => trivial) hr

/-! ### Jobs and assets -/

/-- **A job and its asset agree in every reachable state.** -/
theorem rows_agree_of_run {ls : List Label} (hr : run cfg Sys.init ls = some s) {id : ℤ} {job : Job}
    (hj : s.world.db.job id = some job) {asset : Asset job.type}
    (ha : s.world.db.asset job.type job.refId = some asset) :
    (job.status, asset.status) ∈
        [(JobStatus.queued, AssetStatus.pending), (.running, .running), (.done, .done),
          (.failed, .failed)] ∧
      (asset.path.isSome ↔ asset.status = .done) ∧
      (job.status = .done → job.error = none) ∧ (job.status = .failed → job.error ≠ none) := by
  have hs := run_ok hr
  have hagree := hs.rows.agree (hs.rows.job_known hj) hj ha
  refine ⟨?_, hagree.path, hagree.done_error, hagree.failed_error⟩
  rw [hagree.status]
  cases job.status <;> decide

/-- An image that was made: the job and the image are done. -/
theorem rows_agree_made : ∃ s job, ∃ asset : Asset job.type,
    run (Sample.config 1) Sys.init Sample.made = some s ∧ s.world.db.job 1 = some job ∧
      s.world.db.asset job.type job.refId = some asset ∧ job.status = .done ∧
        (asset.path.isSome ↔ asset.status = .done) ∧ job.error = none := by
  have hmade : ∃ s job, ∃ asset : Asset job.type,
      run (Sample.config 1) Sys.init Sample.made = some s ∧ s.world.db.job 1 = some job ∧
        s.world.db.asset job.type job.refId = some asset ∧ job.status = .done :=
    ⟨_, _, _, rfl, rfl, rfl, rfl⟩
  obtain ⟨s, job, asset, hr, hj, ha, hd⟩ := hmade
  have h := rows_agree_of_run hr hj ha
  exact ⟨s, job, asset, hr, hj, ha, hd, h.2.1, h.2.2.1 hd⟩

/-- `(type, ref_id)` is a bijection from the jobs to the assets. -/
theorem World.RowsOk.refs_bijOn (h : w.RowsOk) :
    Set.BijOn (fun x : ℤ × Job => (x.2.type, x.2.refId)) {x | w.db.job x.1 = some x.2}
      {y | w.db.asset y.1 y.2 ≠ none} := by
  refine ⟨fun x hx => ?_, fun x hx y hy he => ?_, fun y hy => ?_⟩
  · obtain ⟨a, ha, -⟩ := h.job_asset hx
    exact ne_of_eq_of_ne ha (Option.some_ne_none a)
  · have hid : x.1 = y.1 :=
      (Prod.mk.inj (h.hist.jobs_ref _ (h.job_known hx) _ (h.job_known hy) he)).1
    have hrow : some x.2 = some y.2 := hx.symm.trans ((congrArg w.db.job hid).trans hy)
    exact Prod.ext hid (Option.some.inj hrow)
  · obtain ⟨a, ha⟩ := Option.ne_none_iff_exists'.1 hy
    obtain ⟨id, job, hj, ht, hr⟩ := h.asset_job ha
    exact ⟨(id, job), hj, Prod.ext ht hr⟩

/-! ### The two types -/

/-- `db'` has the rows of a type as they are; the rows of the other type may be
anything under keys that are not of this type. -/
structure World.SameFor (w : World) (t : JobType) (db' : Db) : Prop where
  job : ∀ id, w.Created t id → db'.job id = w.db.job id
  created : ∀ id job, db'.job id = some job → job.type = t → w.Created t id
  asset : ∀ ref, db'.asset t ref = w.db.asset t ref

theorem World.SameFor.jobIds {t : JobType} {db' : Db} (h : w.SameFor t db') (hw : w.RowsOk)
    (statuses : List JobStatus) : (db'.jobIds t statuses).Perm (w.db.jobIds t statuses) := by
  refine (List.perm_ext_iff_of_nodup (Table.nodup_selectKeys ..) (Table.nodup_selectKeys ..)).2
    fun id => ?_
  rw [← Db.jobIds, ← Db.jobIds, Db.mem_jobIds, Db.mem_jobIds]
  constructor
  · rintro ⟨job, hj, ht, hst⟩
    exact ⟨job, h.job id (h.created id job hj ht) ▸ hj, ht, hst⟩
  · rintro ⟨job, hj, ht, hst⟩
    exact ⟨job, (h.job id ⟨job.refId, ht ▸ hw.job_known hj⟩).trans hj, ht, hst⟩

/-- What a commit finds of its session's rows decides whether it is stale. -/
theorem Session.commit_eq_none_iff {t : JobType} {s : Session t} {db : Db} :
    s.commit db = none ↔ (s.job.cur ≠ s.job.loaded ∧ db.job s.jobId = none) ∨
      (s.asset.cur ≠ s.asset.loaded ∧ db.asset t s.job.loaded.refId = none) := by
  have hjob : Tracked.flush Job.write db.jobs s.jobId s.job = none ↔ _ := Tracked.flush_eq_none_iff
  have hasset : Tracked.flush Asset.write (db.assets t) s.job.loaded.refId s.asset = none ↔ _ :=
    Tracked.flush_eq_none_iff
  rw [Db.job, Db.asset, ← hjob, ← hasset, Session.commit, Option.bind_eq_none_iff]
  constructor
  · intro h
    cases hj : Tracked.flush Job.write db.jobs s.jobId s.job with
    | none => exact .inl rfl
    | some jobs => exact .inr (Option.map_eq_none_iff.1 (h jobs hj))
  · rintro (hj | ha) jobs hjobs
    · rw [hj] at hjobs; cases hjobs
    · rw [ha, Option.map_none]

/-- Two results that fail together. -/
theorem none_or_some {α β : Type*} {x : Option α} {y : Option β} (h : x = none ↔ y = none) :
    (x = none ∧ y = none) ∨ ∃ a b, x = some a ∧ y = some b := by
  cases x with
  | none => exact .inl ⟨rfl, h.1 rfl⟩
  | some a =>
      obtain ⟨b, hb⟩ := Option.ne_none_iff_exists'.1 fun hy => Option.some_ne_none a (h.2 hy)
      exact .inr ⟨a, b, rfl, hb⟩

/-- **A worker reads nothing of the other type.**  Its next operation and what
that sends to Redis depend only on the rows of its own type. -/
theorem workerStep_sameFor {t : JobType} {pc : Pc t} (hw : w.RowsOk) (hpc : pc.Ok cfg w) {db' : Db}
    (h : w.SameFor t db') (a : Act t) :
    (workerStep cfg t { w with db := db' } pc a).map (fun x => (x.1.redis, x.2)) =
      (workerStep cfg t w pc a).map fun x => (x.1.redis, x.2) := by
  have hcommit : ∀ s : Session t, s.Ok w → (s.commit db' = none ↔ s.commit w.db = none) := by
    intro s hs
    rw [Session.commit_eq_none_iff, Session.commit_eq_none_iff, h.job _ ⟨_, hs.known⟩, h.asset]
  cases pc with
  | select ph seen =>
      cases a with
      | rows ids =>
          have hp : ids.Perm (db'.jobIds t ph.statuses) ↔ ids.Perm (w.db.jobIds t ph.statuses) :=
            ⟨fun hp => hp.trans (h.jobIds hw _), fun hp => hp.trans (h.jobIds hw _).symm⟩
          simp only [workerStep, hp]
          split_ifs <;> rfl
      | reply r =>
          simp only [workerStep]
          split_ifs <;> rfl
      | _ => rfl
  | getJob raw id =>
      cases a with
      | reply r => simp only [workerStep, Option.map_some, h.job id hpc.2]
      | _ => rfl
  | getAsset raw id job =>
      cases a with
      | reply r => simp only [workerStep, Option.map_some, h.asset]
      | _ => rfl
  | commitMissing raw id job =>
      cases a with
      | reply r =>
          have hn : Tracked.flush Job.write db'.jobs id job = none ↔
              Tracked.flush Job.write w.db.jobs id job = none := by
            rw [Tracked.flush_eq_none_iff, Tracked.flush_eq_none_iff]
            exact and_congr_right fun _ => iff_of_eq (congrArg (· = none) (h.job id hpc.2.1))
          rcases none_or_some hn with ⟨h', h⟩ | ⟨jobs', jobs, h', h⟩ <;> simp [workerStep, h, h']
      | _ => rfl
  | commitRunning s =>
      cases a with
      | reply r =>
          rcases none_or_some (hcommit s hpc.1) with ⟨h', h⟩ | ⟨db', db, h', h⟩ <;>
            simp [workerStep, h, h']
      | _ => rfl
  | commitFinal s e again =>
      cases a with
      | reply r =>
          rcases none_or_some (hcommit s hpc.final.1) with ⟨h', h⟩ | ⟨db', db, h', h⟩ <;>
            simp [workerStep, h, h']
      | _ => rfl
  | reenqueue ph ids =>
      cases ids with
      | nil => cases a <;> rfl
      | cons id ids =>
          cases a with
          | reply r => simp [workerStep, World.redis_rpush]
          | _ => rfl
  | requeue raw id =>
      cases a with
      | reply r => simp [workerStep, World.redis_rpush]
      | _ => rfl
  | reap | pop | incr | ack =>
      cases a with
      | reply r => simp [workerStep, World.redis_command]
      | _ => rfl
  | dead | readQueue | readProcessing | call | expire | tick => cases a <;> rfl

/-- **A worker writes nothing of the other type.** -/
theorem Performs.others {t u : JobType} {pc pc' : Pc t} {a : Act t}
    (h : Performs cfg t w pc a w' pc') (hpc : pc.Ok cfg w) (hw : w.RowsOk) (hu : u ≠ t) :
    (∀ ref, w'.db.asset u ref = w.db.asset u ref) ∧
      ∀ id job, job.type = u → (w'.db.job id = some job ↔ w.db.job id = some job) := by
  rcases h.db hpc with hdb | ⟨s, db, hs, hc, rfl⟩
  · rw [hdb]
    exact ⟨fun _ => rfl, fun _ _ _ => Iff.rfl⟩
  · have hok := hpc.committing hs
    have hrw := hok.rewrites hc
    refine ⟨hrw.other u hu, fun id job ht => ?_⟩
    show db.job id = some job ↔ _
    rw [hrw.job]
    split_ifs with hi
    · -- the rewritten job is of the worker's type, before and after
      subst hi
      refine iff_of_false (fun hj => ?_) fun hj => ?_
      · obtain ⟨_, -, rfl⟩ := Option.map_eq_some_iff.1 hj
        exact hu (ht.symm.trans hok.type)
      · exact hu (ht.symm.trans (hw.job_eq hok.known hj).1)
    · exact Iff.rfl

/-- **No cross-type processing.**  In every reachable state the lists of a type
hold ids of jobs created with the type, and its worker neither writes a row of
the other type nor depends on one. -/
theorem types_separate_of_run {ls : List Label} (hr : run cfg Sys.init ls = some s) (t : JobType) :
    (∀ raw ∈ s.world.redis.queue t ++ s.world.redis.processing t,
      ∃ id, raw = encodeInt id ∧ s.world.Created t id ∧
        ∀ job, s.world.db.job id = some job → job.type = t) ∧
    (∀ a s', step cfg s (.worker t a) = some s' → ∀ u, u ≠ t →
      (∀ ref, s'.world.db.asset u ref = s.world.db.asset u ref) ∧
        ∀ id job, job.type = u →
          (s'.world.db.job id = some job ↔ s.world.db.job id = some job)) ∧
    ∀ a db', s.world.SameFor t db' →
      (workerStep cfg t { s.world with db := db' } (s.workers t) a).map (fun x => (x.1.redis, x.2)) =
        (workerStep cfg t s.world (s.workers t) a).map fun x => (x.1.redis, x.2) := by
  have hs := run_ok hr
  refine ⟨fun raw hraw => ?_, fun a s' h u hu => ?_, fun a db' h => ?_⟩
  · obtain ⟨id, hc, he⟩ := World.typed_iff.1 (hs.lists t) raw hraw
    exact ⟨id, he, hc, fun job hj => (hs.rows.job_eq hc.choose_spec hj).1⟩
  · cases moves_of_step h with
    | worker hw => exact hw.others (hs.workers t) hs.rows hu
  · exact workerStep_sameFor hs.rows (hs.workers t) h a

/-- While image 1 is in flight and audio 1 waits, under the same `ref_id`. -/
theorem types_separate_called : ∃ s, run (Sample.config 1) Sys.init Sample.called = some s ∧
    s.world.redis.processing .image = [encodeInt 1] ∧ s.world.redis.queue .audio = [encodeInt 2] ∧
      (∀ raw ∈ s.world.redis.queue .image ++ s.world.redis.processing .image,
        ∃ id, raw = encodeInt id ∧ s.world.Created .image id ∧
          ∀ job, s.world.db.job id = some job → job.type = .image) ∧
      ∀ raw ∈ s.world.redis.queue .audio ++ s.world.redis.processing .audio,
        ∃ id, raw = encodeInt id ∧ s.world.Created .audio id ∧
          ∀ job, s.world.db.job id = some job → job.type = .audio := by
  obtain ⟨s, hr, hp, hq⟩ : ∃ s, run (Sample.config 1) Sys.init Sample.called = some s ∧
      s.world.redis.processing .image = [encodeInt 1] ∧
        s.world.redis.queue .audio = [encodeInt 2] := ⟨_, rfl, rfl, rfl⟩
  exact ⟨s, hr, hp, hq, (types_separate_of_run hr .image).1, (types_separate_of_run hr .audio).1⟩

end PoetryGenerator
