/-
# The database rows (`api/app/models.py`)

The four tables `poems`, `images`, `audios` and `jobs`, each under its integer
primary key.  Status, type and backend columns hold the values of the
`StrEnum`s, which the CHECK constraints enforce, so they are enumerations here.
`created_at` and `updated_at` are left out: no function of the program reads
them.

`images` and `audios` differ only in the columns that describe the rendering
(`Attrs`), so both are tables of `Asset t` for a job type `t`, and a job
points to its asset by `(type, ref_id)`.
-/

import Mathlib.Data.Fintype.Defs
import Mathlib.Data.Finset.Insert
import Mathlib.Logic.Function.Basic
import PoetryGenerator.Lib.Tables
import PoetryGenerator.Text

namespace PoetryGenerator

/-- `JobType`. -/
inductive JobType
  | image
  | audio
deriving DecidableEq, Repr

instance : Fintype JobType := ⟨{.image, .audio}, fun t => by cases t <;> decide⟩

/-- `JobStatus`. -/
inductive JobStatus
  | queued
  | running
  | done
  | failed
deriving DecidableEq, Repr

/-- `AssetStatus`. -/
inductive AssetStatus
  | pending
  | running
  | done
  | failed
deriving DecidableEq, Repr

/-- `TtsBackend`. -/
inductive TtsBackend
  | piper
  | xtts
  | voicevox
deriving DecidableEq, Repr

/-- A row of `poems`. -/
structure Poem where
  character : Str
  theme : Option Str
  lang : Str
  title : Str
  titleJa : Option Str
  poemEn : Str
  poemJa : Str
  mood : Option Str
  model : Option Str
deriving DecidableEq, Repr

/-- The columns only `images` has; `width` and `height` default to 512. -/
structure ImageAttrs where
  prompt : Str
  negative : Str := []
  checkpoint : Option Str := none
  seed : Option ℤ := none
  width : ℤ := 512
  height : ℤ := 512
deriving DecidableEq, Repr

/-- The columns only `audios` has. -/
structure AudioAttrs where
  backend : TtsBackend := .piper
  voice : Option Str := none
  lang : Str := "en".toList
deriving DecidableEq, Repr

/-- The rendering columns of an asset of type `t`. -/
abbrev Attrs : JobType → Type
  | .image => ImageAttrs
  | .audio => AudioAttrs

instance : (t : JobType) → DecidableEq (Attrs t)
  | .image => inferInstanceAs (DecidableEq ImageAttrs)
  | .audio => inferInstanceAs (DecidableEq AudioAttrs)

/-- A row of `images` (`t = .image`) or `audios` (`t = .audio`). -/
structure Asset (t : JobType) where
  poemId : ℤ
  attrs : Attrs t
  path : Option Str := none
  status : AssetStatus := .pending
deriving DecidableEq

/-- A row of `jobs`. -/
structure Job where
  type : JobType
  refId : ℤ
  status : JobStatus := .queued
  error : Option Str := none
deriving DecidableEq, Repr

/-- A value that an integer column can have: 32 bits in PostgreSQL, 64 in SQLite. -/
def IsKey (id : ℤ) : Prop := id.natAbs ≤ 2 ^ 63

instance : DecidablePred IsKey := fun _ => inferInstanceAs (Decidable (_ ≤ _))

/-- The committed database. -/
structure Db where
  poems : Table ℤ Poem
  assets : (t : JobType) → Table ℤ (Asset t)
  jobs : Table ℤ Job

namespace Db

/-- A database after the migrations, before the first request. -/
def empty : Db := ⟨∅, fun _ => ∅, ∅⟩

/-- `session.get(Poem, id)`. -/
def poem (db : Db) (id : ℤ) : Option Poem := db.poems.lookup id

/-- `session.get(Image, id)` and `session.get(Audio, id)`. -/
def asset (db : Db) (t : JobType) (id : ℤ) : Option (Asset t) := (db.assets t).lookup id

/-- `session.get(Job, id)`. -/
def job (db : Db) (id : ℤ) : Option Job := db.jobs.lookup id

/-- The database with another `images` or `audios` table. -/
def withAssets (db : Db) (t : JobType) (rows : Table ℤ (Asset t)) : Db :=
  { db with assets := Function.update db.assets t rows }

section
variable (db : Db) (t : JobType) (rows : Table ℤ (Asset t)) (id : ℤ)

@[simp] theorem asset_withAssets : (db.withAssets t rows).asset t id = rows.lookup id :=
  congrArg (AList.lookup id) (Function.update_self ..)

theorem asset_withAssets_of_ne {u : JobType} (h : u ≠ t) :
    (db.withAssets t rows).asset u id = db.asset u id :=
  congrArg (AList.lookup id) (Function.update_of_ne h ..)

end

end Db

/-! ### What a session writes back -/

open Tracked (column)

/-- The columns of a rendering that a session changed, merged into the row. -/
def Attrs.write : (t : JobType) → (row old new : Attrs t) → Attrs t
  | .image, row, old, new =>
    { prompt := column row.prompt old.prompt new.prompt
      negative := column row.negative old.negative new.negative
      checkpoint := column row.checkpoint old.checkpoint new.checkpoint
      seed := column row.seed old.seed new.seed
      width := column row.width old.width new.width
      height := column row.height old.height new.height }
  | .audio, row, old, new =>
    { backend := column row.backend old.backend new.backend
      voice := column row.voice old.voice new.voice
      lang := column row.lang old.lang new.lang }

/-- The update of an `images` or `audios` row. -/
def Asset.write {t : JobType} (row : Asset t) (x : Tracked (Asset t)) : Asset t :=
  { poemId := column row.poemId x.loaded.poemId x.cur.poemId
    attrs := Attrs.write t row.attrs x.loaded.attrs x.cur.attrs
    path := column row.path x.loaded.path x.cur.path
    status := column row.status x.loaded.status x.cur.status }

/-- The update of a `jobs` row. -/
def Job.write (row : Job) (x : Tracked Job) : Job :=
  { type := column row.type x.loaded.type x.cur.type
    refId := column row.refId x.loaded.refId x.cur.refId
    status := column row.status x.loaded.status x.cur.status
    error := column row.error x.loaded.error x.cur.error }

theorem Asset.write_loaded {t : JobType} (x : Tracked (Asset t)) : x.loaded.write x = x.cur := by
  cases t <;> simp only [Asset.write, Attrs.write, Tracked.column_self]

theorem Job.write_loaded (x : Tracked Job) : x.loaded.write x = x.cur := by
  simp only [Job.write, Tracked.column_self]

end PoetryGenerator
