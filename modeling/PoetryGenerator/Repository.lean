/-
# Creating and deleting poems (`api/app/repository.py`)

`persist_poem` adds a poem, the selected assets and one queued job for each of
them, in one commit.  `delete_poem` removes the files its assets point to, then
the jobs that reference them, then the poem with its assets, in one commit.

The primary keys come from sequences; `NewIds` is what a call is given.  That a
sequence gives no value twice is a condition on the calls
(`PoetryGenerator.System`), not on these functions.
-/

import Mathlib.Data.Finset.Basic
import Mathlib.Data.List.Sort
import PoetryGenerator.Assets

namespace PoetryGenerator

/-! ### persist_poem -/

/-- `combine_image_prompt`. -/
def combineImagePrompt (base : Str) (extra : Option Str) : Str :=
  let extra := ((extra.getD []).strip.rstrip ',').strip
  let base := base.strip
  if extra = [] then base
  else if base = [] then extra else base ++ ", ".toList ++ extra

/-- The fields of `PoemResult` that `persist_poem` reads, as texts that the database takes. -/
structure PoemResult where
  title : Str
  titleJa : Str := []
  character : Str := []
  poemEn : Str
  poemJa : Str
  imagePrompt : Str := []
  imageNegative : Str := []
  mood : Str := "neutral".toList
deriving DecidableEq, Repr

/-- The arguments of `persist_poem`. -/
structure PersistArgs where
  result : PoemResult
  theme : Option Str := none
  lang : Str := "en".toList
  model : Option Str := none
  imageCheckpoint : Option Str := none
  generateImage : Bool := true
  generateAudio : Bool := true
  imagePromptExtra : Option Str := none
deriving DecidableEq, Repr

/-- The primary keys a call is given by the sequences.  The ids of the jobs, which are pushed, are
values of their column. -/
structure NewIds where
  poem : ℤ
  asset : JobType → ℤ
  job : JobType → ℤ
  job_isKey : ∀ t, IsKey (job t) := by decide

namespace PersistArgs

/-- The poem row; an empty Japanese title is stored as null. -/
def poem (a : PersistArgs) : Poem :=
  { character := a.result.character
    theme := a.theme
    lang := a.lang
    title := a.result.title
    titleJa := if a.result.titleJa = [] then none else some a.result.titleJa
    poemEn := a.result.poemEn
    poemJa := a.result.poemJa
    mood := some a.result.mood
    model := a.model }

/-- The rendering columns of the new asset of a type. -/
def attrs (a : PersistArgs) : (t : JobType) → Attrs t
  | .image =>
    { prompt := combineImagePrompt a.result.imagePrompt a.imagePromptExtra
      negative := a.result.imageNegative
      checkpoint := a.imageCheckpoint : ImageAttrs }
  | .audio => { lang := a.lang : AudioAttrs }

/-- `generate_image` and `generate_audio`. -/
def wants (a : PersistArgs) : JobType → Bool
  | .image => a.generateImage
  | .audio => a.generateAudio

end PersistArgs

/-- The asset row `persist_poem` adds: pending, without a path. -/
def newAsset (a : PersistArgs) (ids : NewIds) (t : JobType) : Asset t :=
  { poemId := ids.poem, attrs := a.attrs t }

/-- The job row `persist_poem` adds: queued, without an error. -/
def newJob (ids : NewIds) (t : JobType) : Job := { type := t, refId := ids.asset t }

/-- One selected asset: its row, and the row of its job. -/
def Db.addAsset (db : Db) (a : PersistArgs) (ids : NewIds) (t : JobType) : Db :=
  if a.wants t then
    { db.withAssets t ((db.assets t).insert (ids.asset t) (newAsset a ids t)) with
      jobs := db.jobs.insert (ids.job t) (newJob ids t) }
  else db

/-- `persist_poem`: the committed rows, and the created jobs in the order in
which their ids are enqueued. -/
def persistPoem (db : Db) (a : PersistArgs) (ids : NewIds) : Db × List (JobType × ℤ) :=
  (({ db with poems := db.poems.insert ids.poem a.poem }.addAsset a ids .image).addAsset a ids .audio,
    ([.image, .audio].filter a.wants).map fun t => (t, ids.job t))

theorem mem_persistPoem_jobs {db : Db} {a : PersistArgs} {ids : NewIds} {t : JobType} {id : ℤ} :
    (t, id) ∈ (persistPoem db a ids).2 ↔ a.wants t = true ∧ id = ids.job t := by
  simp only [persistPoem, List.mem_map, List.mem_filter, Prod.mk.injEq]
  constructor
  · rintro ⟨t', ⟨-, hw⟩, rfl, rfl⟩
    exact ⟨hw, rfl⟩
  · rintro ⟨hw, rfl⟩
    exact ⟨t, ⟨by cases t <;> simp, hw⟩, rfl, rfl⟩

section AddAsset
variable (db : Db) (a : PersistArgs) (ids : NewIds) (t : JobType)

@[simp] theorem Db.poem_addAsset (id : ℤ) : (db.addAsset a ids t).poem id = db.poem id := by
  unfold Db.addAsset; split_ifs <;> rfl

theorem Db.job_addAsset (id : ℤ) : (db.addAsset a ids t).job id =
    if a.wants t = true ∧ id = ids.job t then some (newJob ids t) else db.job id := by
  unfold Db.addAsset
  by_cases hw : a.wants t = true
  · rw [if_pos hw, Db.job, Table.lookup_insert]
    simp only [hw, true_and]
    rfl
  · rw [if_neg hw, if_neg fun h => hw h.1]

theorem Db.asset_addAsset (u : JobType) (ref : ℤ) : (db.addAsset a ids t).asset u ref =
    if a.wants u = true ∧ u = t ∧ ref = ids.asset u then some (newAsset a ids u)
    else db.asset u ref := by
  unfold Db.addAsset
  by_cases hw : a.wants t = true
  · rw [if_pos hw]
    by_cases hu : u = t
    · subst hu
      refine (db.asset_withAssets u _ ref).trans ?_
      rw [Table.lookup_insert]
      simp only [hw, true_and]
      rfl
    · rw [if_neg fun h => hu h.2.1]
      exact db.asset_withAssets_of_ne t _ ref hu
  · rw [if_neg hw, if_neg]
    rintro ⟨h, rfl, -⟩
    exact hw h

end AddAsset

section Persist
variable (db : Db) (a : PersistArgs) (ids : NewIds)

theorem poem_persistPoem (id : ℤ) : (persistPoem db a ids).1.poem id =
    if id = ids.poem then some a.poem else db.poem id := by
  rw [persistPoem, Db.poem_addAsset, Db.poem_addAsset, Db.poem, Table.lookup_insert]
  rfl

/-- An asset after `persist_poem` is a new one or one that was there. -/
theorem asset_persistPoem (t : JobType) (ref : ℤ) : (persistPoem db a ids).1.asset t ref =
    if a.wants t = true ∧ ref = ids.asset t then some (newAsset a ids t) else db.asset t ref := by
  rw [persistPoem, Db.asset_addAsset, Db.asset_addAsset]
  have h : Db.asset { db with poems := db.poems.insert ids.poem a.poem } t ref = db.asset t ref := rfl
  rw [h]
  cases t <;> simp

/-- A job after `persist_poem` is a new one or one that was there. -/
theorem job_persistPoem (hne : ids.job .image ≠ ids.job .audio) {id : ℤ} {job : Job} :
    (persistPoem db a ids).1.job id = some job ↔
      (∃ t, a.wants t = true ∧ id = ids.job t ∧ job = newJob ids t) ∨
        (∀ t, a.wants t = true → id ≠ ids.job t) ∧ db.job id = some job := by
  rw [persistPoem, Db.job_addAsset, Db.job_addAsset]
  have h : Db.job { db with poems := db.poems.insert ids.poem a.poem } id = db.job id := rfl
  rw [h]
  constructor
  · intro hj
    split_ifs at hj with ha hi
    · exact .inl ⟨.audio, ha.1, ha.2, (Option.some.inj hj).symm⟩
    · exact .inl ⟨.image, hi.1, hi.2, (Option.some.inj hj).symm⟩
    · refine .inr ⟨fun t hw he => ?_, hj⟩
      cases t
      · exact hi ⟨hw, he⟩
      · exact ha ⟨hw, he⟩
  · rintro (⟨t, hw, rfl, rfl⟩ | ⟨hn, hj⟩)
    · cases t
      · rw [if_neg fun hc => hne hc.2, if_pos ⟨hw, rfl⟩]
      · rw [if_pos ⟨hw, rfl⟩]
    · rwa [if_neg fun hc => hn .audio hc.1 hc.2, if_neg fun hc => hn .image hc.1 hc.2]

end Persist

/-! ### delete_poem -/

/-- `poem.images` and `poem.audios`, ordered by id: what `delete_poem` reads of
an asset is its id and its path. -/
def Db.assetsOf (db : Db) (t : JobType) (poemId : ℤ) : List (ℤ × Option Str) :=
  (((db.assets t).entries.filter fun e => e.2.poemId = poemId).map
    fun e => (e.1, e.2.path)).insertionSort fun x y => x.1 ≤ y.1

/-- `_remove_asset_file`: best effort, `unlink f` says whether the system lets
the file go. -/
def removeAssetFile (dataDir : Path) (unlink : Path → Bool) (t : JobType) (path : Option Str)
    (files : Finset Path) : Finset Path :=
  match assetTarget dataDir t path with
  | none => files
  | some target => if target ∈ files ∧ unlink target = true then files.erase target else files

/-- The rows one call deletes, `ids` being the asset ids it has read: the jobs
that reference them, the poem, and the assets (by the session's cascade over
the loaded rows, and by `ON DELETE CASCADE` over all rows of the poem). -/
def Db.deleteRows (db : Db) (poemId : ℤ) (ids : JobType → List ℤ) : Db :=
  { poems := db.poems.erase poemId
    assets := fun t => (db.assets t).deleteWhere fun id a => id ∈ ids t || a.poemId = poemId
    jobs := (db.jobs.deleteWhere fun _ j => j.type = .image && j.refId ∈ ids .image).deleteWhere
      fun _ j => j.type = .audio && j.refId ∈ ids .audio }

/-- `delete_poem`: whether the poem existed, the rows and the files after it. -/
def deletePoem (dataDir : Path) (unlink : Path → Bool) (db : Db) (files : Finset Path)
    (poemId : ℤ) : Bool × Db × Finset Path :=
  match db.poem poemId with
  | none => (false, db, files)
  | some _ =>
    let remove t := fun fs (x : ℤ × Option Str) => removeAssetFile dataDir unlink t x.2 fs
    let files := (db.assetsOf .image poemId).foldl (remove .image) files
    let files := (db.assetsOf .audio poemId).foldl (remove .audio) files
    (true, db.deleteRows poemId fun t => (db.assetsOf t poemId).map Prod.fst, files)

theorem Db.mem_assetsOf {db : Db} {t : JobType} {poemId id : ℤ} {path : Option Str} :
    (id, path) ∈ db.assetsOf t poemId ↔
      ∃ a, db.asset t id = some a ∧ a.poemId = poemId ∧ a.path = path := by
  rw [Db.assetsOf, List.mem_insertionSort, List.mem_map]
  constructor
  · rintro ⟨⟨k, a⟩, he, hk⟩
    obtain ⟨rfl, rfl⟩ := Prod.mk.inj hk
    rw [List.mem_filter, ← AList.mem_lookup_iff, decide_eq_true_eq] at he
    exact ⟨a, he.1, he.2, rfl⟩
  · rintro ⟨a, ha, hp, rfl⟩
    refine ⟨⟨id, a⟩, ?_, rfl⟩
    rw [List.mem_filter, ← AList.mem_lookup_iff, decide_eq_true_eq]
    exact ⟨ha, hp⟩

/-- The ids `delete_poem` reads are those of the poem's assets. -/
theorem Db.mem_assetsOf_keys {db : Db} {t : JobType} {poemId ref : ℤ} :
    ref ∈ (db.assetsOf t poemId).map Prod.fst ↔ ∃ a, db.asset t ref = some a ∧ a.poemId = poemId := by
  constructor
  · intro h
    obtain ⟨⟨_, path⟩, hx, rfl⟩ := List.mem_map.1 h
    obtain ⟨a, ha, hp, -⟩ := Db.mem_assetsOf.1 hx
    exact ⟨a, ha, hp⟩
  · rintro ⟨a, ha, hp⟩
    exact List.mem_map.2 ⟨(ref, a.path), Db.mem_assetsOf.2 ⟨a, ha, hp, rfl⟩, rfl⟩

section DeleteRows
variable (db : Db) (poemId : ℤ) (ids : JobType → List ℤ)

theorem Db.poem_deleteRows (id : ℤ) :
    (db.deleteRows poemId ids).poem id = if id = poemId then none else db.poem id := by
  split_ifs with h
  · rw [h]
    exact AList.lookup_erase ..
  · exact AList.lookup_erase_ne h

/-- An asset survives when it is neither among the loaded ones nor the poem's. -/
theorem Db.asset_deleteRows {t : JobType} {ref : ℤ} {a : Asset t} :
    (db.deleteRows poemId ids).asset t ref = some a ↔
      db.asset t ref = some a ∧ ref ∉ ids t ∧ a.poemId ≠ poemId := by
  rw [Db.asset, Db.deleteRows, Table.lookup_deleteWhere, Option.filter_eq_some_iff]
  simp [Db.asset]

/-- A job survives when it references none of the loaded assets. -/
theorem Db.job_deleteRows {id : ℤ} {job : Job} :
    (db.deleteRows poemId ids).job id = some job ↔
      db.job id = some job ∧ job.refId ∉ ids job.type := by
  rw [Db.job, Db.deleteRows, Table.lookup_deleteWhere, Table.lookup_deleteWhere,
    Option.filter_eq_some_iff, Option.filter_eq_some_iff]
  cases job.type <;> simp [Db.job]

end DeleteRows

end PoetryGenerator
