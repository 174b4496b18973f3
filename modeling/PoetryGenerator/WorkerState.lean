/-
# What a worker knows

A worker holds values it has read: a job, its asset, ids to push.  `Pc.Ok` says
for each program counter what these have to do with the shared state, whatever
the other processes did in between: the objects of a session are the rows as
they are, as long as the rows exist, because only the worker of a type rewrites
the rows of that type.

`Performs.ok` is the step lemma: an operation of a worker keeps its `Pc.Ok` and
the invariant of the rows, and `Pc.Ok.keeps` says that steps of others keep it.
-/

import PoetryGenerator.Rows
import PoetryGenerator.Steps

namespace PoetryGenerator

open Numerals

variable {cfg : Config} {t : JobType} {w w' : World}

/-- The objects of a session, and what they have to do with the rows. -/
structure Session.Ok (w : World) (s : Session t) : Prop where
  raw : s.raw = encodeInt s.jobId
  known : (s.jobId, t, s.job.loaded.refId) ∈ w.hist.jobs
  job : ∀ job, w.db.job s.jobId = some job → job = s.job.loaded
  asset : ∀ a, w.db.asset t s.job.loaded.refId = some a → a = s.asset.loaded
  type : s.job.cur.type = t
  refId : s.job.cur.refId = s.job.loaded.refId
  poemId : s.asset.cur.poemId = s.asset.loaded.poemId
  agree : RowsAgree s.job.cur s.asset.cur

/-- `RUNNING` is committed and the attempt has set no status yet. -/
structure Session.Attempting (s : Session t) : Prop where
  job : s.job.cur = s.job.loaded
  status : s.job.loaded.status = .running

/-- What a worker knows at a program counter. -/
def Pc.Ok (cfg : Config) (w : World) : Pc t → Prop
  | dead | reap _ | readQueue _ | readProcessing .. | select .. | pop | tick => True
  | reenqueue _ ids => ∀ id ∈ ids, w.Created t id
  | getJob raw id => raw = encodeInt id ∧ w.Created t id
  | getAsset raw id job =>
    raw = encodeInt id ∧ (id, t, job.refId) ∈ w.hist.jobs ∧ job.type = t ∧ job.status ≠ .done ∧
      ∀ row, w.db.job id = some row → row = job
  | commitMissing raw id _ => raw = encodeInt id ∧ w.Created t id ∧ w.db.job id = none
  | commitRunning s => s.Ok w ∧ s.job.loaded.status ≠ .done ∧ s.job.cur.status = .running
  | call s | incr s _ | expire s _ _ => s.Ok w ∧ s.Attempting
  | commitFinal s e again =>
    ∃ s₀ : Session t, s₀.Ok w ∧ s₀.Attempting ∧ commitFinal s e again = ended cfg s₀ e
  | requeue raw id => raw = encodeInt id ∧ w.Created t id
  | ack raw => ∃ id, raw = encodeInt id ∧ w.Created t id

/-! ### Steps of others -/

theorem Session.Ok.keeps {s : Session t} (h : s.Ok w) (hk : w.Keeps t w') : s.Ok w' :=
  { h with
    known := hk.jobs h.known
    job := fun _ hj => h.job _ (hk.job h.known hj)
    asset := fun _ ha => h.asset _ (hk.asset h.known ha) }

/-- **Steps that leave the rows of a type alone leave its worker's knowledge
valid.** -/
theorem Pc.Ok.keeps {pc : Pc t} (h : pc.Ok cfg w) (hk : w.Keeps t w') : pc.Ok cfg w' := by
  cases pc with
  | dead | reap | readQueue | readProcessing | select | pop | tick => trivial
  | reenqueue ph ids => exact fun id hid => (h id hid).mono hk.jobs
  | getJob raw id | requeue raw id => exact ⟨h.1, h.2.mono hk.jobs⟩
  | getAsset raw id job =>
      obtain ⟨hraw, hx, ht, hd, hrow⟩ := h
      exact ⟨hraw, hk.jobs hx, ht, hd, fun _ hj => hrow _ (hk.job hx hj)⟩
  | commitMissing raw id job =>
      obtain ⟨hraw, ⟨ref, hx⟩, hnone⟩ := h
      refine ⟨hraw, ⟨ref, hk.jobs hx⟩, Option.eq_none_iff_forall_ne_some.2 fun row hj => ?_⟩
      exact absurd (hnone.symm.trans (hk.job hx hj)) (by simp)
  | commitRunning s => exact ⟨h.1.keeps hk, h.2⟩
  | call s | incr s exc | expire s exc n => exact ⟨h.1.keeps hk, h.2⟩
  | commitFinal s e again =>
      obtain ⟨s₀, hs, ha, he⟩ := h
      exact ⟨s₀, hs.keeps hk, ha, he⟩
  | ack raw =>
      obtain ⟨id, hraw, hc⟩ := h
      exact ⟨id, hraw, hc.mono hk.jobs⟩

/-! ### The worker's own steps -/

namespace Session

variable {s : Session t}

/-- **A commit rewrites the session's job and asset**, where they still exist. -/
theorem Ok.rewrites (h : s.Ok w) {db : Db} (hc : s.commit w.db = some db) :
    w.db.Rewrites db t s.jobId s.job.loaded.refId s.job.cur s.asset.cur := by
  obtain ⟨jobs, hjobs, hc⟩ := Option.bind_eq_some_iff.1 hc
  obtain ⟨rows, hrows, rfl⟩ := Option.map_eq_some_iff.1 hc
  refine ⟨fun p => rfl, fun i => ?_, fun r => ?_, fun u hu r => ?_⟩
  · exact Tracked.lookup_flush Job.write_loaded h.job hjobs i
  · rw [Db.asset_withAssets]
    exact Tracked.lookup_flush Asset.write_loaded h.asset hrows r
  · exact Db.asset_withAssets_of_ne _ _ _ _ hu

theorem Ok.fits (h : s.Ok w) :
    World.Fits w t s.jobId s.job.loaded.refId s.job.cur s.asset.cur :=
  ⟨h.known, h.type, h.refId, fun a ha => h.asset a ha ▸ h.poemId, h.agree⟩

/-- After its commit a session holds the rows as it wrote them. -/
theorem Ok.committed (h : s.Ok w) {db : Db} (hc : s.commit w.db = some db) :
    s.committed.Ok { w with db } := by
  have hw := h.rewrites hc
  refine ⟨h.raw, ?_, fun job hj => ?_, fun a ha => ?_, h.type, rfl, rfl, h.agree⟩
  · exact h.refId.symm ▸ h.known
  · have hj : db.job s.jobId = some job := hj
    rw [hw.job, if_pos rfl] at hj
    exact (Option.map_eq_some_iff.1 hj).choose_spec.2.symm
  · have ha : db.asset t s.job.cur.refId = some a := ha
    rw [h.refId, hw.asset, if_pos rfl] at ha
    exact (Option.map_eq_some_iff.1 ha).choose_spec.2.symm

theorem Ok.withAttrs (h : s.Ok w) (attrs : Attrs t) : (s.withAttrs attrs).Ok w :=
  { h with agree := ⟨h.agree.status, h.agree.path, h.agree.done_error, h.agree.failed_error⟩ }

theorem Attempting.withAttrs (h : s.Attempting) (attrs : Attrs t) : (s.withAttrs attrs).Attempting :=
  ⟨h.job, h.status⟩

end Session

theorem RowsAgree.path_eq_none {job : Job} {asset : Asset t} (h : RowsAgree job asset)
    (hs : job.status ≠ .done) : asset.path = none := by
  rw [← Option.not_isSome_iff_eq_none, h.path, h.status]
  intro hd
  cases hj : job.status <;> simp_all [JobStatus.assetStatus]

/-- Dead-lettered rows. -/
theorem rowsAgree_failed {job : Job} {asset : Asset t} (hp : asset.path = none) (error : Str) :
    RowsAgree { job with status := .failed, error := some error }
      { asset with status := .failed } :=
  ⟨rfl, by simp [hp], nofun, fun _ => Option.some_ne_none _⟩

/-- Rows that wait for a retry. -/
theorem rowsAgree_retry {job : Job} {asset : Asset t} (hp : asset.path = none) (error : Str) :
    RowsAgree { job with status := .queued, error := some error }
      { asset with status := .pending } :=
  ⟨rfl, by simp [hp], nofun, nofun⟩

/-- The rows an attempt leaves agree. -/
theorem Ending.rows_agree (e : Ending) (maxRetries : ℤ) {job : Job} {asset : Asset t}
    (h : RowsAgree job asset) (hs : job.status = .running) :
    RowsAgree (e.rows maxRetries job asset).1 (e.rows maxRetries job asset).2.1 := by
  have hpath := h.path_eq_none (hs ▸ by decide)
  cases e with
  | finished path => exact ⟨rfl, by simp [Ending.rows], fun _ => rfl, nofun⟩
  | unsupported exc => exact rowsAgree_failed hpath _
  | failed exc attempts =>
      rw [Ending.rows]
      unfold handleJobFailure
      split
      · exact rowsAgree_failed hpath _
      · split_ifs
        · exact rowsAgree_retry hpath _
        · exact rowsAgree_failed hpath _

/-- And they reference what they referenced. -/
theorem Ending.rows_refs (e : Ending) (maxRetries : ℤ) (job : Job) (asset : Asset t) :
    (e.rows maxRetries job asset).1.type = job.type ∧
      (e.rows maxRetries job asset).1.refId = job.refId ∧
      (e.rows maxRetries job asset).2.1.poemId = asset.poemId := by
  cases e with
  | finished | unsupported => exact ⟨rfl, rfl, rfl⟩
  | failed exc attempts =>
      rw [Ending.rows]
      unfold handleJobFailure
      split
      · exact ⟨rfl, rfl, rfl⟩
      · split_ifs <;> exact ⟨rfl, rfl, rfl⟩

/-- An attempt that ends is still a session over the same rows. -/
theorem Session.Ok.ended {s : Session t} (h : s.Ok w) (ha : s.Attempting) (e : Ending)
    (maxRetries : ℤ) :
    (s.withRows (e.rows maxRetries s.job.cur s.asset.cur).1
      (e.rows maxRetries s.job.cur s.asset.cur).2.1).Ok w := by
  obtain ⟨ht, hr, hp⟩ := e.rows_refs maxRetries s.job.cur s.asset.cur
  exact ⟨h.raw, h.known, h.job, h.asset, ht.trans h.type, hr.trans h.refId, hp.trans h.poemId,
    e.rows_agree maxRetries h.agree (ha.job ▸ ha.status)⟩

/-- The session of a last commit. -/
theorem Pc.Ok.final {s : Session t} {e : Ending} {again : Bool}
    (h : (Pc.commitFinal s e again).Ok cfg w) :
    s.Ok w ∧ s.job.loaded.status = .running := by
  obtain ⟨s₀, hs, ha, he⟩ := h
  obtain ⟨rfl, -, -⟩ := Pc.commitFinal.inj he
  exact ⟨hs.ended ha e cfg.maxRetries, ha.status⟩

/-- The session a program counter is about to commit. -/
def Pc.committing : Pc t → Option (Session t)
  | commitRunning s | commitFinal s _ _ => some s
  | _ => none

theorem Pc.Ok.committing {pc : Pc t} (h : pc.Ok cfg w) {s : Session t} (hs : pc.committing = some s) :
    s.Ok w := by
  cases pc <;> simp only [Pc.committing, Option.some.injEq, reduceCtorEq] at hs
  case commitRunning => exact hs ▸ h.1
  case commitFinal => exact hs ▸ h.final.1

/-- A worker pushes ids of created jobs of its type. -/
theorem Pc.Ok.created_of_pushing {pc : Pc t} (h : pc.Ok cfg w) {id : ℤ} (hid : id ∈ pc.pushing) :
    w.Created t id := by
  cases pc with
  | reenqueue ph ids => exact h id hid
  | requeue raw i => exact List.mem_singleton.1 hid ▸ h.2
  | _ => cases hid

namespace Performs

variable {pc pc' : Pc t} {a : Act t}

/-- **An operation of a worker changes the rows only by a commit of its
session.** -/
theorem db (h : Performs cfg t w pc a w' pc') (hpc : pc.Ok cfg w) :
    w'.db = w.db ∨ ∃ s db, pc.committing = some s ∧ s.commit w.db = some db ∧
      w' = { w with db } := by
  have hcommit : ∀ (s : Session t) (r : Reply) (db : Db), pc.committing = some s →
      s.commit w.db = some db → (w.commit r db).db = w.db ∨ ∃ s db', pc.committing = some s ∧
        s.commit w.db = some db' ∧ w.commit r db = { w with db := db' } := by
    intro s r db hs hc
    cases hr : r.takesEffect with
    | true => exact .inr ⟨s, db, hs, hc, w.commit_eq r db hr⟩
    | false => exact .inl (congrArg World.db (w.commit_eq_self r db hr))
  cases h with
  | kill | start | drained | readQueue | readProcessing | select | selectRaised | popEmpty | getJob
  | getAsset | staleMissing | staleRunning | expire | staleFinal | tick => exact .inl rfl
  | reap | pop | incr | ack => exact .inl (World.db_command ..)
  | reenqueue | requeue => exact .inl (World.db_rpush ..)
  | returns | raises | unsupported => exact .inl rfl
  | commitMissing hc =>
      -- the job is gone, so the flush has nothing to write
      rename_i raw id job r jobs
      have hjobs : w.db.jobs = jobs := by
        unfold Tracked.flush at hc
        split_ifs at hc
        · exact Option.some.inj hc
        · rw [show AList.lookup id w.db.jobs = none from hpc.2.2] at hc
          cases hc
      subst hjobs
      refine .inl ?_
      unfold World.commit
      split_ifs <;> rfl
  | commitRunning hc => exact hcommit _ _ _ rfl hc
  | commitFinal hc => exact hcommit _ _ _ rfl hc

/-- It creates nothing, and pushes only ids of created jobs of its type. -/
theorem hist (h : Performs cfg t w pc a w' pc') (hpc : pc.Ok cfg w) :
    w'.hist.poems = w.hist.poems ∧ w'.hist.jobs = w.hist.jobs ∧
      ∀ id ∈ w'.hist.pushed, id ∈ w.hist.pushed ∨ w.Created t id := by
  have hsame : w'.hist = w.hist → w'.hist.poems = w.hist.poems ∧ w'.hist.jobs = w.hist.jobs ∧
      ∀ id ∈ w'.hist.pushed, id ∈ w.hist.pushed ∨ w.Created t id :=
    fun he => ⟨by rw [he], by rw [he], fun id hid => .inl (he ▸ hid)⟩
  cases h.sends with
  | nothing _ hh => exact hsame hh
  | lists _ he => exact hsame (he ▸ World.hist_command ..)
  | count _ he => exact hsame (he ▸ World.hist_command ..)
  | push hid he =>
      subst he
      refine ⟨World.poems_rpush .., World.jobs_rpush .., fun i hi => ?_⟩
      rw [World.pushed_rpush] at hi
      split_ifs at hi
      · rcases List.mem_cons.1 hi with rfl | hi
        · exact .inr (hpc.created_of_pushing hid)
        · exact .inl hi
      · exact .inl hi

/-- The rows stay consistent. -/
theorem rowsOk (h : Performs cfg t w pc a w' pc') (hpc : pc.Ok cfg w) (hw : w.RowsOk) :
    w'.RowsOk := by
  rcases h.db hpc with hdb | ⟨s, db, hs, hc, rfl⟩
  · obtain ⟨hpoems, hjobs, hpushed⟩ := h.hist hpc
    refine hw.congr hdb hpoems hjobs fun id hid => ?_
    rcases hpushed id hid with hid | ⟨ref, hx⟩
    · exact hw.hist.pushed id hid
    · exact ⟨_, hx, rfl⟩
  · have hok := hpc.committing hs
    exact hw.rewrites hok.fits (hok.rewrites hc)

theorem evolves (h : Performs cfg t w pc a w' pc') (hpc : pc.Ok cfg w) (hw : w.RowsOk) :
    w.Evolves w' := by
  rcases h.db hpc with hdb | ⟨s, db, hs, hc, rfl⟩
  · exact .congr hdb (h.hist hpc).1 (h.hist hpc).2.1
  · have hok := hpc.committing hs
    exact .rewrites hw hok.fits (hok.rewrites hc)

/-- A worker leaves the rows of the other type alone. -/
theorem keeps (h : Performs cfg t w pc a w' pc') (hpc : pc.Ok cfg w) (hw : w.RowsOk) {u : JobType}
    (hu : u ≠ t) : w.Keeps u w' := by
  rcases h.db hpc with hdb | ⟨s, db, hs, hc, rfl⟩
  · exact .congr hdb (h.hist hpc).2.1
  · have hok := hpc.committing hs
    exact .rewrites hw hok.known (hok.rewrites hc) hu

/-- A worker leaves the lists of the other type alone. -/
theorem lists_other (h : Performs cfg t w pc a w' pc') {u : JobType} (hu : u ≠ t) :
    w'.redis.queue u = w.redis.queue u ∧ w'.redis.processing u = w.redis.processing u := by
  cases h.sends with
  | nothing hr => exact ⟨by rw [hr], by rw [hr]⟩
  | lists _ he =>
      rw [he, World.redis_command]
      split_ifs
      · exact ⟨Redis.queue_setLists_of_ne _ _ _ _ hu, Redis.processing_setLists_of_ne _ _ _ _ hu⟩
      · exact ⟨rfl, rfl⟩
  | push _ he =>
      rw [he]
      exact ⟨by rw [World.queue_rpush, if_neg fun h => hu h.2], World.processing_rpush ..⟩
  | count _ he =>
      rw [he, World.redis_command]
      split_ifs <;> exact ⟨rfl, rfl⟩

/-- A worker adds to the lists of its type only ids of created jobs of the type,
and nothing to the lists of the other type. -/
theorem entries (h : Performs cfg t w pc a w' pc') (hpc : pc.Ok cfg w) {u : JobType} {raw : Raw}
    (hraw : raw ∈ w'.redis.entries u) :
    raw ∈ w.redis.entries u ∨ u = t ∧ ∃ id, w.Created t id ∧ raw = encodeInt id := by
  by_cases hu : u = t
  · subst hu
    cases h.sends with
    | nothing hr => exact .inl (hr ▸ hraw)
    | lists hsub he =>
        rw [he, World.redis_command] at hraw
        split_ifs at hraw
        · rw [Redis.entries, Redis.queue_setLists, Redis.processing_setLists] at hraw
          exact .inl (hsub hraw)
        · exact .inl hraw
    | push hid he =>
        subst he
        exact (World.entries_rpush hraw).imp_right fun he =>
          ⟨rfl, _, hpc.created_of_pushing hid, he.2⟩
    | count _ he =>
        rw [he, World.redis_command] at hraw
        split_ifs at hraw <;> exact .inl hraw
  · obtain ⟨hq, hp⟩ := h.lists_other hu
    rw [Redis.entries, hq, hp] at hraw
    exact .inl hraw

end Performs

/-! ### The next program counter -/

theorem all_encodeInt (id : ℤ) : (encodeInt id).all (· < 128) = true := by
  rw [List.all_eq_true]
  intro b hb
  obtain ⟨c, hc, rfl⟩ := List.mem_map.1 hb
  have h := (mem_strOfInt hc).2
  rw [decide_eq_true_eq, UInt8.lt_iff_toNat_lt, Nat.toUInt8_eq, UInt8.toNat_ofNat']
  exact lt_of_le_of_lt (Nat.mod_le _ _) h

/-- `run_once` reads back the id of an element the program pushed. -/
theorem Config.jobId_encodeInt (cfg : Config) {id : ℤ} (h : IsKey id) : cfg.jobId (encodeInt id) = some id := by
  rw [Config.jobId, if_pos (all_encodeInt id), decodeInt_encodeInt h.lt]

namespace Pc

@[simp] theorem ok_raised (ph : Phase) : (raised ph : Pc t).Ok cfg w := by cases ph <;> trivial

@[simp] theorem ok_reenqueueRest {ph : Phase} {ids : List ℤ} :
    (reenqueueRest ph ids : Pc t).Ok cfg w ↔ ∀ id ∈ ids, w.Created t id := by
  cases ids with
  | nil => exact ⟨fun _ => List.forall_mem_nil _, fun _ => trivial⟩
  | cons id ids => exact Iff.rfl

theorem ok_popped {id : ℤ} (hkey : IsKey id) (hc : w.Created t id) :
    (popped cfg (some (encodeInt id)) : Pc t).Ok cfg w := by
  rw [popped, cfg.jobId_encodeInt hkey]
  exact ⟨rfl, hc⟩

theorem ok_gotJob (hw : w.RowsOk) {raw : Raw} {id : ℤ} (hraw : raw = encodeInt id)
    (hc : w.Created t id) : (gotJob raw id (w.db.job id) : Pc t).Ok cfg w := by
  obtain ⟨ref, hx⟩ := hc
  cases hj : w.db.job id with
  | none => exact ⟨id, hraw, ref, hx⟩
  | some job =>
      obtain ⟨ht, rfl⟩ := hw.job_eq hx hj
      simp only [gotJob]
      split_ifs with hd
      · exact ⟨id, hraw, _, hx⟩
      · exact ⟨hraw, hx, ht, hd, fun row hr => Option.some.inj (hr.symm.trans hj)⟩

theorem ok_gotAsset (hw : w.RowsOk) {raw : Raw} {id : ℤ} {job : Job}
    (h : (getAsset raw id job : Pc t).Ok cfg w) :
    (gotAsset raw id job (w.db.asset t job.refId) : Pc t).Ok cfg w := by
  obtain ⟨hraw, hx, ht, hd, hrow⟩ := h
  have hsome := hw.job_isSome_iff hx
  cases ha : w.db.asset t job.refId with
  | none =>
      rw [ha, Option.isSome_none, Option.isSome_iff_ne_none, ne_eq] at hsome
      exact ⟨hraw, ⟨_, hx⟩, by simpa using hsome⟩
  | some a =>
      -- the asset is there, hence so is the job, as it was read
      obtain ⟨row, hr⟩ := Option.isSome_iff_exists.1 (hsome.2 (by rw [ha]; rfl))
      obtain rfl := hrow row hr
      have hagree := hw.agree hx hr ha
      have hrunning : RowsAgree { row with status := .running } { a with status := .running } :=
        ⟨rfl, by simp [hagree.path_eq_none hd], nofun, nofun⟩
      refine ⟨⟨hraw, hx, hrow, fun a' ha' => ?_, ht, rfl, rfl, hrunning⟩, hd, rfl⟩
      exact Option.some.inj (ha'.symm.trans ha)

theorem ok_ended {s : Session t} (hs : s.Ok w) (ha : s.Attempting) (e : Ending) :
    (ended cfg s e).Ok cfg w :=
  ⟨s, hs, ha, rfl⟩

theorem ok_afterUnsupported {s : Session t} (hs : s.Ok w) (ha : s.Attempting) (exc : Str) :
    (afterUnsupported cfg s exc).Ok cfg w := by
  cases t with
  | image => exact ⟨hs, ha⟩
  | audio => exact ok_ended hs ha _

theorem ok_processed {raw : Raw} {id : ℤ} (again : Bool) (hraw : raw = encodeInt id)
    (hc : w.Created t id) : (processed raw id again : Pc t).Ok cfg w := by
  cases again
  · exact ⟨id, hraw, hc⟩
  · exact ⟨hraw, hc⟩

end Pc

/-- A commit of `RUNNING` that takes effect starts an attempt. -/
theorem Session.attempting_committed {s : Session t} (h : s.job.cur.status = .running) :
    s.committed.Attempting :=
  ⟨rfl, h⟩

/-- **An operation of a worker keeps what the worker knows.** -/
theorem Performs.ok {pc pc' : Pc t} {a : Act t} (h : Performs cfg t w pc a w' pc')
    (hw : w.RowsOk) (hl : w.ListsOk) (hpc : pc.Ok cfg w) : pc'.Ok cfg w' := by
  have hcreated : ∀ id, w.Created t id → w'.Created t id := fun id hc =>
    hc.mono (by rw [(h.hist hpc).2.1]; exact List.Subset.refl _)
  have hwrite : ∀ l, w.Keeps t (w.write l) := fun _ => .congr rfl rfl
  cases h with
  | kill | start | staleMissing | staleRunning | staleFinal => trivial
  | reap | drained | readQueue | readProcessing | ack | tick =>
      split_ifs
      · trivial
      · first | exact Pc.ok_raised _ | trivial
  | select hp =>
      refine Pc.ok_reenqueueRest.2 fun id hid => ?_
      obtain ⟨job, hj, ht, -⟩ := Db.mem_jobIds.1 (hp.mem_iff.1 (List.mem_of_mem_filter hid))
      exact ⟨job.refId, ht ▸ hw.job_known hj⟩
  | selectRaised => exact Pc.ok_raised _
  | reenqueue =>
      split_ifs
      · exact Pc.ok_reenqueueRest.2 fun id hid => hcreated id (hpc id (List.mem_cons_of_mem _ hid))
      · exact Pc.ok_raised _
  | @pop r raw rest hq =>
      have hraw : raw ∈ w.redis.entries t := by simp [Redis.entries, hq]
      obtain ⟨id, hc, rfl⟩ := World.typed_iff.1 (hl t) raw hraw
      rcases r with _ | (_ | _) | (_ | _)
      · exact Pc.ok_popped (hw.isKey hc) (hcreated id hc)
      all_goals trivial
  | @popEmpty r => rcases r with _ | (_ | _) | (_ | _) <;> trivial
  | getJob =>
      split_ifs
      · exact Pc.ok_gotJob hw hpc.1 hpc.2
      · trivial
  | getAsset =>
      split_ifs
      · exact Pc.ok_gotAsset hw hpc
      · trivial
  | commitMissing =>
      split_ifs
      · exact ⟨_, hpc.1, hcreated _ hpc.2.1⟩
      · trivial
  | @commitRunning s r db hc =>
      split_ifs with hr
      · subst hr
        exact ⟨hpc.1.committed hc, Session.attempting_committed hpc.2.2⟩
      · trivial
  | returns => exact Pc.ok_ended ((hpc.1.withAttrs _).keeps (hwrite _)) (hpc.2.withAttrs _) _
  | raises => exact ⟨(hpc.1.withAttrs _).keeps (hwrite _), hpc.2.withAttrs _⟩
  | unsupported =>
      exact Pc.ok_afterUnsupported ((hpc.1.withAttrs _).keeps (hwrite _)) (hpc.2.withAttrs _) _
  | @incr s exc r =>
      have hk : w.Keeps t (w.command r (w.redis.incr t s.jobId)) :=
        .congr (World.db_command ..) (congrArg History.jobs (World.hist_command ..))
      split_ifs
      · exact ⟨hpc.1.keeps hk, hpc.2⟩
      · exact Pc.ok_ended (hpc.1.keeps hk) hpc.2 _
  | expire => exact Pc.ok_ended hpc.1 hpc.2 _
  | commitFinal =>
      have hs := hpc.final.1
      split_ifs
      · exact Pc.ok_processed _ hs.raw (hcreated _ ⟨_, hs.known⟩)
      · trivial
  | requeue =>
      split_ifs
      · exact ⟨_, hpc.1, hcreated _ hpc.2⟩
      · trivial

end PoetryGenerator
