/-
# What the committed rows satisfy

`World.RowsOk` is the invariant of the database and of the history kept with
it: a job and its asset come and go together and agree (`RowsAgree`), no
`(type, ref_id)` is used twice, and every asset has its poem.

Only three operations change rows: the commit of `persist_poem`, the commit of
`delete_poem`, and a commit of `process`, which rewrites one job with its asset
(`Db.Rewrites`).  For each of them this file shows that it keeps the invariant,
that rows only appear under new keys (`World.Evolves`), and which rows it
leaves alone (`World.Keeps`).
-/

import PoetryGenerator.System

namespace PoetryGenerator

open Numerals

/-- The asset status next to a job status. -/
def JobStatus.assetStatus : JobStatus → AssetStatus
  | .queued => .pending
  | .running => .running
  | .done => .done
  | .failed => .failed

/-- A job and its asset tell the same story. -/
structure RowsAgree {t : JobType} (job : Job) (asset : Asset t) : Prop where
  status : asset.status = job.status.assetStatus
  path : asset.path.isSome ↔ asset.status = .done
  done_error : job.status = .done → job.error = none
  failed_error : job.status = .failed → job.error ≠ none

/-- Keys are values of their column and name one thing each, and only created jobs were pushed. -/
structure History.Ok (h : History) : Prop where
  jobs_key : ∀ x ∈ h.jobs, IsKey x.1
  jobs_id : ∀ x ∈ h.jobs, ∀ y ∈ h.jobs, x.1 = y.1 → x = y
  jobs_ref : ∀ x ∈ h.jobs, ∀ y ∈ h.jobs, x.2 = y.2 → x = y
  pushed : ∀ id ∈ h.pushed, ∃ x ∈ h.jobs, x.1 = id

/-- The id of a job that was created with the type, deleted or not. -/
def World.Created (w : World) (t : JobType) (id : ℤ) : Prop := ∃ ref, (id, t, ref) ∈ w.hist.jobs

theorem World.typed_iff {w : World} {t : JobType} {l : List Raw} :
    w.Typed t l ↔ ∀ raw ∈ l, ∃ id, w.Created t id ∧ raw = encodeInt id := by
  refine forall₂_congr fun raw _ => ⟨?_, ?_⟩
  · rintro ⟨⟨id, u, ref⟩, hx, rfl, rfl⟩
    exact ⟨id, ⟨ref, hx⟩, rfl⟩
  · rintro ⟨id, ⟨ref, hx⟩, rfl⟩
    exact ⟨_, hx, rfl, rfl⟩

/-- A push adds the pushed id to the lists of its type. -/
theorem World.entries_rpush {w : World} {r : Reply} {t u : JobType} {id : ℤ} {raw : Raw}
    (h : raw ∈ (w.rpush r t id).redis.entries u) :
    raw ∈ w.redis.entries u ∨ u = t ∧ raw = encodeInt id := by
  rw [Redis.entries, World.queue_rpush, World.processing_rpush, List.mem_append] at h
  split_ifs at h with hc
  · rw [List.mem_append, List.mem_singleton] at h
    rcases h with (h | rfl) | h
    · exact .inl (List.mem_append_left _ h)
    · exact .inr ⟨hc.2, rfl⟩
    · exact .inl (List.mem_append_right _ h)
  · exact .inl (List.mem_append.2 h)

/-- Both lists of each type hold ids of jobs created with the type. -/
def World.ListsOk (w : World) : Prop := ∀ t, w.Typed t (w.redis.entries t)

/-- **The invariant of the committed rows.** -/
structure World.RowsOk (w : World) : Prop where
  hist : w.hist.Ok
  job_known : ∀ {id job}, w.db.job id = some job → (id, job.type, job.refId) ∈ w.hist.jobs
  job_asset : ∀ {id job}, w.db.job id = some job →
    ∃ a, w.db.asset job.type job.refId = some a ∧ RowsAgree job a
  asset_job : ∀ {t ref a}, w.db.asset t ref = some a →
    ∃ id job, w.db.job id = some job ∧ job.type = t ∧ job.refId = ref
  asset_poem : ∀ {t ref a}, w.db.asset t ref = some a → w.db.poem a.poemId ≠ none
  poem_known : ∀ {p}, w.db.poem p ≠ none → p ∈ w.hist.poems

/-- How rows may change: a row keeps what it references, and a row that was not
there is one under a new key, for a new poem. -/
structure World.Evolves (w w' : World) : Prop where
  poems : w.hist.poems ⊆ w'.hist.poems
  jobs : w.hist.jobs ⊆ w'.hist.jobs
  job : ∀ {id job'}, w'.db.job id = some job' → (∀ x ∈ w.hist.jobs, x.1 ≠ id) ∨
    ∃ job, w.db.job id = some job ∧ job.type = job'.type ∧ job.refId = job'.refId
  asset : ∀ {t ref a'}, w'.db.asset t ref = some a' →
    ((∀ x ∈ w.hist.jobs, x.2 ≠ (t, ref)) ∧ a'.poemId ∉ w.hist.poems) ∨
      ∃ a, w.db.asset t ref = some a ∧ a.poemId = a'.poemId

/-- The rows of created jobs of a type, and their assets, are as before unless
they are gone. -/
structure World.Keeps (t : JobType) (w w' : World) : Prop where
  jobs : w.hist.jobs ⊆ w'.hist.jobs
  job : ∀ {id ref job}, (id, t, ref) ∈ w.hist.jobs → w'.db.job id = some job →
    w.db.job id = some job
  asset : ∀ {id ref a}, (id, t, ref) ∈ w.hist.jobs → w'.db.asset t ref = some a →
    w.db.asset t ref = some a

/-- The ids are those of the poem's assets. -/
def Db.Loaded (db : Db) (p : ℤ) (ids : JobType → List ℤ) : Prop :=
  ∀ t ref a, db.asset t ref = some a → (ref ∈ ids t ↔ a.poemId = p)

/-- `db'` is `db` with other values in one job and its asset, where they exist. -/
structure Db.Rewrites (db db' : Db) (t : JobType) (id ref : ℤ) (job : Job) (asset : Asset t) :
    Prop where
  poem : ∀ p, db'.poem p = db.poem p
  job : ∀ i, db'.job i = if i = id then (db.job id).map fun _ => job else db.job i
  asset : ∀ r, db'.asset t r = if r = ref then (db.asset t ref).map fun _ => asset else db.asset t r
  other : ∀ u, u ≠ t → ∀ r, db'.asset u r = db.asset u r

namespace World

variable {w w' : World} {t : JobType} {id ref : ℤ} {job : Job}

theorem RowsOk.empty : World.empty.RowsOk where
  hist := ⟨by simp [World.empty], by simp [World.empty], by simp [World.empty], by simp [World.empty]⟩
  job_known h := by cases h
  job_asset h := by cases h
  asset_job h := by cases h
  asset_poem h := by cases h
  poem_known h := absurd rfl h

/-- The id of a job that was created is a value of its column. -/
theorem RowsOk.isKey (h : w.RowsOk) (hc : w.Created t id) : IsKey id := by
  obtain ⟨ref, hx⟩ := hc
  exact h.hist.jobs_key _ hx

theorem RowsOk.isKey_of_pushed (h : w.RowsOk) (hp : id ∈ w.hist.pushed) : IsKey id := by
  obtain ⟨x, hx, rfl⟩ := h.hist.pushed id hp
  exact h.hist.jobs_key x hx

/-- A step that leaves the rows alone. -/
theorem RowsOk.congr (h : w.RowsOk) (hdb : w'.db = w.db) (hpoems : w'.hist.poems = w.hist.poems)
    (hjobs : w'.hist.jobs = w.hist.jobs)
    (hpushed : ∀ id ∈ w'.hist.pushed, ∃ x ∈ w.hist.jobs, x.1 = id) : w'.RowsOk where
  hist := ⟨hjobs ▸ h.hist.jobs_key, hjobs ▸ h.hist.jobs_id, hjobs ▸ h.hist.jobs_ref, hjobs ▸ hpushed⟩
  job_known hj := hjobs ▸ h.job_known (hdb ▸ hj)
  job_asset hj := hdb ▸ h.job_asset (hdb ▸ hj)
  asset_job ha := hdb ▸ h.asset_job (hdb ▸ ha)
  asset_poem ha := hdb ▸ h.asset_poem (hdb ▸ ha)
  poem_known hp := hpoems ▸ h.poem_known (hdb ▸ hp)

theorem Evolves.congr (hdb : w'.db = w.db) (hpoems : w'.hist.poems = w.hist.poems)
    (hjobs : w'.hist.jobs = w.hist.jobs) : w.Evolves w' where
  poems := hpoems ▸ List.Subset.refl _
  jobs := hjobs ▸ List.Subset.refl _
  job hj := .inr ⟨_, hdb ▸ hj, rfl, rfl⟩
  asset ha := .inr ⟨_, hdb ▸ ha, rfl⟩

theorem Keeps.congr (hdb : w'.db = w.db) (hjobs : w'.hist.jobs = w.hist.jobs) : w.Keeps t w' where
  jobs := hjobs ▸ List.Subset.refl _
  job _ hj := hdb ▸ hj
  asset _ ha := hdb ▸ ha

theorem Created.mono (h : w.Created t id) (hjobs : w.hist.jobs ⊆ w'.hist.jobs) : w'.Created t id :=
  h.imp fun _ hx => hjobs hx

/-- The type and the asset of a created job are the ones its row has. -/
theorem RowsOk.job_eq (h : w.RowsOk) (hx : (id, t, ref) ∈ w.hist.jobs) (hj : w.db.job id = some job) :
    job.type = t ∧ job.refId = ref := by
  have he := h.hist.jobs_id _ (h.job_known hj) _ hx rfl
  exact ⟨congrArg (fun x => x.2.1) he, congrArg (fun x => x.2.2) he⟩

/-- The asset of a created job belongs to no other job. -/
theorem RowsOk.job_unique (h : w.RowsOk) (hx : (id, t, ref) ∈ w.hist.jobs) {id' : ℤ}
    (hj : w.db.job id' = some job) (ht : job.type = t) (hr : job.refId = ref) : id' = id := by
  subst ht hr
  exact congrArg Prod.fst (h.hist.jobs_ref _ (h.job_known hj) _ hx rfl)

/-- A created job has its row exactly when its asset has. -/
theorem RowsOk.job_isSome_iff (h : w.RowsOk) (hx : (id, t, ref) ∈ w.hist.jobs) :
    (w.db.job id).isSome ↔ (w.db.asset t ref).isSome := by
  rw [Option.isSome_iff_exists, Option.isSome_iff_exists]
  constructor
  · rintro ⟨job, hj⟩
    obtain ⟨rfl, rfl⟩ := h.job_eq hx hj
    exact (h.job_asset hj).imp fun _ ha => ha.1
  · rintro ⟨a, ha⟩
    obtain ⟨id', job, hj, ht, hr⟩ := h.asset_job ha
    exact ⟨job, h.job_unique hx hj ht hr ▸ hj⟩

/-- The rows of a created job agree. -/
theorem RowsOk.agree (h : w.RowsOk) (hx : (id, t, ref) ∈ w.hist.jobs) (hj : w.db.job id = some job)
    {a : Asset t} (ha : w.db.asset t ref = some a) : RowsAgree job a := by
  obtain ⟨rfl, rfl⟩ := h.job_eq hx hj
  obtain ⟨b, hb, hagree⟩ := h.job_asset hj
  rwa [Option.some.inj (ha.symm.trans hb)]

/-! ### The commit of persist_poem -/

section Persist
variable (a : PersistArgs) (ids : NewIds)

theorem mem_jobs_persist {x : ℤ × JobType × ℤ} : x ∈ (w.persist a ids).hist.jobs ↔
    (∃ u, a.wants u = true ∧ x = (ids.job u, u, ids.asset u)) ∨ x ∈ w.hist.jobs := by
  simp only [World.persist, List.mem_append, List.mem_map, List.mem_filter]
  refine or_congr_left ⟨?_, ?_⟩
  · rintro ⟨u, ⟨-, hu⟩, rfl⟩
    exact ⟨u, hu, rfl⟩
  · rintro ⟨u, hu, rfl⟩
    exact ⟨u, ⟨by cases u <;> simp, hu⟩, rfl⟩

variable {a ids}

theorem job_persist (hf : w.hist.Fresh ids) : (w.persist a ids).db.job id = some job ↔
    (∃ u, a.wants u = true ∧ id = ids.job u ∧ job = newJob ids u) ∨
      (∀ u, a.wants u = true → id ≠ ids.job u) ∧ w.db.job id = some job :=
  job_persistPoem w.db a ids hf.2.1

theorem asset_persist : (w.persist a ids).db.asset t ref =
    if a.wants t = true ∧ ref = ids.asset t then some (newAsset a ids t) else w.db.asset t ref :=
  asset_persistPoem ..

theorem poem_persist {p : ℤ} : (w.persist a ids).db.poem p =
    if p = ids.poem then some a.poem else w.db.poem p :=
  poem_persistPoem ..

/-- A new job and a new asset agree. -/
theorem rowsAgree_new (u : JobType) : RowsAgree (newJob ids u) (newAsset a ids u) :=
  ⟨rfl, by simp [newAsset], fun _ => rfl, fun h => by cases h⟩

theorem RowsOk.persist (h : w.RowsOk) (hf : w.hist.Fresh ids) : (w.persist a ids).RowsOk where
  hist := by
    obtain ⟨-, hne, hnew⟩ := hf
    have hinj : ∀ u v, ids.job u = ids.job v → u = v := by
      intro u v he
      cases u <;> cases v
      · rfl
      · exact absurd he hne
      · exact absurd he.symm hne
      · rfl
    refine ⟨fun x hx => ?_, fun x hx y hy he => ?_, fun x hx y hy he => ?_, fun id hp => ?_⟩
    · rcases (mem_jobs_persist ..).1 hx with ⟨u, -, rfl⟩ | hx
      · exact ids.job_isKey u
      · exact h.hist.jobs_key x hx
    · rcases (mem_jobs_persist ..).1 hx with ⟨u, -, rfl⟩ | hx <;>
        rcases (mem_jobs_persist ..).1 hy with ⟨v, -, rfl⟩ | hy
      · rw [hinj u v he]
      · exact absurd he.symm (hnew u y hy).1
      · exact absurd he (hnew v x hx).1
      · exact h.hist.jobs_id x hx y hy he
    · rcases (mem_jobs_persist ..).1 hx with ⟨u, -, rfl⟩ | hx <;>
        rcases (mem_jobs_persist ..).1 hy with ⟨v, -, rfl⟩ | hy
      · rw [(Prod.mk.inj he).1]
      · exact absurd he.symm (hnew u y hy).2
      · exact absurd he (hnew v x hx).2
      · exact h.hist.jobs_ref x hx y hy he
    · obtain ⟨x, hx, he⟩ := h.hist.pushed id hp
      exact ⟨x, (mem_jobs_persist ..).2 (.inr hx), he⟩
  job_known hj := by
    refine (mem_jobs_persist ..).2 ?_
    rcases (job_persist hf).1 hj with ⟨u, hu, rfl, rfl⟩ | ⟨-, hj⟩
    · exact .inl ⟨u, hu, rfl⟩
    · exact .inr (h.job_known hj)
  job_asset hj := by
    rcases (job_persist hf).1 hj with ⟨u, hu, rfl, rfl⟩ | ⟨-, hj⟩
    · exact ⟨newAsset a ids u, asset_persist.trans (if_pos ⟨hu, rfl⟩), rowsAgree_new u⟩
    · obtain ⟨b, hb, hagree⟩ := h.job_asset hj
      refine ⟨b, asset_persist.trans ((if_neg ?_).trans hb), hagree⟩
      rintro ⟨-, he⟩
      exact (hf.2.2 _ _ (h.job_known hj)).2 (Prod.ext rfl he)
  asset_job {t ref b} hb := by
    rw [asset_persist] at hb
    split_ifs at hb with hc
    · obtain ⟨hu, rfl⟩ := hc
      exact ⟨ids.job t, newJob ids t, (job_persist hf).2 (.inl ⟨t, hu, rfl, rfl⟩), rfl, rfl⟩
    · obtain ⟨id, job, hj, ht, hr⟩ := h.asset_job hb
      exact ⟨id, job,
        (job_persist hf).2 (.inr ⟨fun u _ => (hf.2.2 u _ (h.job_known hj)).1, hj⟩), ht, hr⟩
  asset_poem {t ref b} hb := by
    rw [poem_persist]
    rw [asset_persist] at hb
    split_ifs at hb with hc
    · obtain rfl := Option.some.inj hb
      exact ne_of_eq_of_ne (if_pos rfl) (Option.some_ne_none a.poem)
    · split_ifs
      · exact Option.some_ne_none _
      · exact h.asset_poem hb
  poem_known {p} hp := by
    rw [poem_persist] at hp
    split_ifs at hp with he
    · exact he ▸ List.mem_cons_self ..
    · exact List.mem_cons_of_mem _ (h.poem_known hp)

theorem Evolves.persist (hf : w.hist.Fresh ids) : w.Evolves (w.persist a ids) where
  poems := List.subset_cons_self ..
  jobs _ hx := (mem_jobs_persist ..).2 (.inr hx)
  job hj := by
    rcases (job_persist hf).1 hj with ⟨u, -, rfl, rfl⟩ | ⟨-, hj⟩
    · exact .inl fun x hx => (hf.2.2 u x hx).1
    · exact .inr ⟨_, hj, rfl, rfl⟩
  asset ha := by
    rw [asset_persist] at ha
    split_ifs at ha with hc
    · obtain ⟨-, rfl⟩ := hc
      obtain rfl := Option.some.inj ha
      exact .inl ⟨fun x hx => (hf.2.2 _ x hx).2, hf.1⟩
    · exact .inr ⟨_, ha, rfl⟩

theorem Keeps.persist (hf : w.hist.Fresh ids) : w.Keeps t (w.persist a ids) where
  jobs _ hx := (mem_jobs_persist ..).2 (.inr hx)
  job hx hj := by
    rcases (job_persist hf).1 hj with ⟨u, -, rfl, rfl⟩ | ⟨-, hj⟩
    · exact absurd rfl (hf.2.2 u _ hx).1
    · exact hj
  asset hx ha := by
    rw [asset_persist] at ha
    split_ifs at ha with hc
    · obtain ⟨-, rfl⟩ := hc
      exact absurd rfl (hf.2.2 _ _ hx).2
    · exact ha

end Persist

/-! ### The commit of delete_poem -/

section Delete
variable {p : ℤ} {ids : JobType → List ℤ}

theorem RowsOk.deleteRows (h : w.RowsOk) (he : w.db.Loaded p ids) :
    ({ w with db := w.db.deleteRows p ids } : World).RowsOk where
  hist := h.hist
  job_known hj := h.job_known ((Db.job_deleteRows ..).1 hj).1
  job_asset hj := by
    obtain ⟨hj, hr⟩ := (Db.job_deleteRows ..).1 hj
    obtain ⟨a, ha, hagree⟩ := h.job_asset hj
    exact ⟨a, (Db.asset_deleteRows ..).2 ⟨ha, hr, fun hp => hr ((he _ _ _ ha).2 hp)⟩, hagree⟩
  asset_job ha := by
    obtain ⟨ha, hr, -⟩ := (Db.asset_deleteRows ..).1 ha
    obtain ⟨id, job, hj, rfl, rfl⟩ := h.asset_job ha
    exact ⟨id, job, (Db.job_deleteRows ..).2 ⟨hj, hr⟩, rfl, rfl⟩
  asset_poem ha := by
    obtain ⟨ha, -, hp⟩ := (Db.asset_deleteRows ..).1 ha
    rw [Db.poem_deleteRows, if_neg hp]
    exact h.asset_poem ha
  poem_known {q} hq := by
    rw [Db.poem_deleteRows] at hq
    split_ifs at hq with hc
    · exact absurd rfl hq
    · exact h.poem_known hq

theorem Evolves.deleteRows : w.Evolves { w with db := w.db.deleteRows p ids } where
  poems := List.Subset.refl _
  jobs := List.Subset.refl _
  job hj := .inr ⟨_, ((Db.job_deleteRows ..).1 hj).1, rfl, rfl⟩
  asset ha := .inr ⟨_, ((Db.asset_deleteRows ..).1 ha).1, rfl⟩

theorem Keeps.deleteRows : w.Keeps t { w with db := w.db.deleteRows p ids } where
  jobs := List.Subset.refl _
  job _ hj := ((Db.job_deleteRows ..).1 hj).1
  asset _ ha := ((Db.asset_deleteRows ..).1 ha).1

end Delete

/-! ### A commit of process -/

section Rewrite
variable {db' : Db} {job' : Job} {asset' : Asset t}

/-- What makes the new values fit: they agree, and they reference what the rows
reference. -/
structure Fits (w : World) (t : JobType) (id ref : ℤ) (job : Job) (asset : Asset t) : Prop where
  known : (id, t, ref) ∈ w.hist.jobs
  type : job.type = t
  refId : job.refId = ref
  poemId : ∀ a, w.db.asset t ref = some a → asset.poemId = a.poemId
  agree : RowsAgree job asset

theorem RowsOk.rewrites (h : w.RowsOk) (hf : Fits w t id ref job' asset')
    (hw : w.db.Rewrites db' t id ref job' asset') : ({ w with db := db' } : World).RowsOk where
  hist := h.hist
  job_known {i job} hj := by
    rw [hw.job] at hj
    split_ifs at hj with hi
    · obtain ⟨_, -, rfl⟩ := Option.map_eq_some_iff.1 hj
      rw [hi, hf.type, hf.refId]
      exact hf.known
    · exact h.job_known hj
  job_asset {i job} hj := by
    rw [hw.job] at hj
    split_ifs at hj with hi
    · obtain ⟨old, hold, rfl⟩ := Option.map_eq_some_iff.1 hj
      have hsome := (h.job_isSome_iff hf.known).1 (Option.isSome_iff_exists.2 ⟨old, hold⟩)
      obtain ⟨a, ha⟩ := Option.isSome_iff_exists.1 hsome
      have ht := hf.type
      have hr := hf.refId
      subst ht hr
      exact ⟨asset', (hw.asset _).trans (by rw [if_pos rfl, ha, Option.map_some]), hf.agree⟩
    · obtain ⟨a, ha, hagree⟩ := h.job_asset hj
      refine ⟨a, ?_, hagree⟩
      by_cases ht : job.type = t
      · have hne : job.refId ≠ ref := fun hr => hi (h.job_unique hf.known hj ht hr)
        subst ht
        exact (hw.asset _).trans ((if_neg hne).trans ha)
      · exact (hw.other _ ht _).trans ha
  asset_job {u r a} ha := by
    have hold : ∃ b, w.db.asset u r = some b := by
      by_cases hu : u = t
      · subst hu
        rw [hw.asset] at ha
        split_ifs at ha with hr
        · obtain ⟨b, hb, -⟩ := Option.map_eq_some_iff.1 ha
          exact ⟨b, hr ▸ hb⟩
        · exact ⟨a, ha⟩
      · exact ⟨a, (hw.other u hu r).symm.trans ha⟩
    obtain ⟨b, hb⟩ := hold
    obtain ⟨i, job, hj, hjt, hjr⟩ := h.asset_job hb
    by_cases hi : i = id
    · subst hi
      obtain ⟨ht, hr⟩ := h.job_eq hf.known hj
      exact ⟨i, job', (hw.job i).trans (by rw [if_pos rfl, hj, Option.map_some]),
        hf.type.trans (ht.symm.trans hjt), hf.refId.trans (hr.symm.trans hjr)⟩
    · exact ⟨i, job, (hw.job i).trans ((if_neg hi).trans hj), hjt, hjr⟩
  asset_poem {u r a} ha := by
    rw [hw.poem]
    by_cases hu : u = t
    · subst hu
      rw [hw.asset] at ha
      split_ifs at ha with hr
      · obtain ⟨b, hb, rfl⟩ := Option.map_eq_some_iff.1 ha
        rw [hf.poemId b hb]
        exact h.asset_poem hb
      · exact h.asset_poem ha
    · exact h.asset_poem ((hw.other u hu r).symm.trans ha)
  poem_known hp := h.poem_known fun hn => hp ((hw.poem _).trans hn)

theorem Evolves.rewrites (h : w.RowsOk) (hf : Fits w t id ref job' asset')
    (hw : w.db.Rewrites db' t id ref job' asset') : w.Evolves { w with db := db' } where
  poems := List.Subset.refl _
  jobs := List.Subset.refl _
  job {i job} hj := by
    rw [hw.job] at hj
    split_ifs at hj with hi
    · obtain ⟨old, hold, rfl⟩ := Option.map_eq_some_iff.1 hj
      obtain ⟨ht, hr⟩ := h.job_eq hf.known hold
      exact .inr ⟨old, hi ▸ hold, ht.trans hf.type.symm, hr.trans hf.refId.symm⟩
    · exact .inr ⟨job, hj, rfl, rfl⟩
  asset {u r a} ha := by
    by_cases hu : u = t
    · subst hu
      rw [hw.asset] at ha
      split_ifs at ha with hr
      · obtain ⟨b, hb, rfl⟩ := Option.map_eq_some_iff.1 ha
        exact .inr ⟨b, hr ▸ hb, (hf.poemId b hb).symm⟩
      · exact .inr ⟨a, ha, rfl⟩
    · exact .inr ⟨a, (hw.other u hu r).symm.trans ha, rfl⟩

theorem Keeps.rewrites (h : w.RowsOk) (hk : (id, t, ref) ∈ w.hist.jobs)
    (hw : w.db.Rewrites db' t id ref job' asset') {u : JobType} (hu : u ≠ t) :
    w.Keeps u { w with db := db' } where
  jobs := List.Subset.refl _
  job {i r job} hx hj := by
    rw [hw.job, if_neg] at hj
    · exact hj
    · rintro rfl
      exact hu (congrArg (fun x => x.2.1) (h.hist.jobs_id _ hx _ hk rfl))
  asset _ ha := (hw.other u hu _).symm.trans ha

end Rewrite
end World
end PoetryGenerator
