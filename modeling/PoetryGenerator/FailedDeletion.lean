/-
# A deletion that fails

`delete_poem` unlinks the files first and deletes the rows afterwards, in one
transaction.  A call that raises leaves the rows as they were; the files it has
unlinked before that are gone.  `DeleteFault` says where it raises, and
`failed_delete_unchanged_iff` when nothing at all is changed.
-/

import PoetryGenerator.Deletion

namespace PoetryGenerator

/-- Where a call of `delete_poem` raises. -/
inductive DeleteFault
  /-- `session.get(Poem, poem_id)`. -/
  | getPoem
  /-- The query for `poem.images` or `poem.audios`. -/
  | load (t : JobType)
  /-- `_remove_asset_file`, after `n` assets of the type. -/
  | remove (t : JobType) (n : ℕ)
  /-- The statements that delete jobs and the poem, or the commit. -/
  | commit
deriving DecidableEq, Repr

namespace DeleteFault

/-- How many assets of a type have been handled before. -/
def handled (fault : DeleteFault) (t : JobType) (count : ℕ) : ℕ :=
  match fault, t with
  | getPoem, _ => 0
  | load .image, _ => 0
  | load .audio, .image => count
  | load .audio, .audio => 0
  | remove .image n, .image => n
  | remove .image _, .audio => 0
  | remove .audio _, .image => count
  | remove .audio n, .audio => n
  | commit, _ => count

end DeleteFault

/-- The assets whose files a call handles before it raises, in order. -/
def removals (db : Db) (poemId : ℤ) (fault : DeleteFault) : List (JobType × Option Str) :=
  [.image, .audio].flatMap fun t =>
    ((db.assetsOf t poemId).take (fault.handled t (db.assetsOf t poemId).length)).map
      fun x => (t, x.2)

/-- `delete_poem` that raises: the rows, rolled back, and the files after it.  A call for an
unknown poem returns before it can raise anywhere but in `session.get`. -/
def deletePoemRaising (dataDir : Path) (unlink : Path → Bool) (db : Db) (files : Finset Path)
    (poemId : ℤ) (fault : DeleteFault) : Option (Db × Finset Path) :=
  if fault ≠ .getPoem ∧ db.poem poemId = none then none
  else some (db, (removals db poemId fault).foldl
    (fun fs x => removeAssetFile dataDir unlink x.1 x.2 fs) files)

variable {cfg : Config} {dataDir : Path} {unlink : Path → Bool} {files : Finset Path}
  {t : JobType} {path : Option Str}

/-- A removal changes nothing when there is no file that the system lets go. -/
theorem removeAssetFile_eq_self_iff : removeAssetFile dataDir unlink t path files = files ↔
    ∀ f, assetTarget dataDir t path = some f → ¬ (f ∈ files ∧ unlink f = true) := by
  unfold removeAssetFile
  cases assetTarget dataDir t path with
  | none => simp
  | some target =>
      simp only [Option.some.injEq, forall_eq']
      split_ifs with hgone
      · refine iff_of_false (fun heq => ?_) fun h => h hgone
        exact Finset.notMem_erase target files (heq.symm ▸ hgone.1)
      · exact iff_of_true rfl hgone

/-- Removals change nothing together when none of them does alone: what one of them takes,
no later one brings back. -/
theorem foldl_removals_eq_self_iff {l : List (JobType × Option Str)} :
    l.foldl (fun fs x => removeAssetFile dataDir unlink x.1 x.2 fs) files = files ↔
      ∀ x ∈ l, removeAssetFile dataDir unlink x.1 x.2 files = files := by
  have hsubset : ∀ (l : List (JobType × Option Str)) (fs : Finset Path),
      l.foldl (fun fs x => removeAssetFile dataDir unlink x.1 x.2 fs) fs ⊆ fs := by
    intro l
    induction l with
    | nil => exact fun fs => Finset.Subset.refl fs
    | cons x l ih => exact fun fs => (ih _).trans (removeAssetFile_subset x.2)
  induction l with
  | nil => simp
  | cons x l ih =>
      rw [List.foldl_cons, List.forall_mem_cons]
      by_cases hx : removeAssetFile dataDir unlink x.1 x.2 files = files
      · rw [hx, and_iff_right rfl]
        exact ih
      · refine iff_of_false (fun heq => hx ?_) fun h => hx h.1
        refine Finset.Subset.antisymm (removeAssetFile_subset x.2) ?_
        have hlater := hsubset l (removeAssetFile dataDir unlink x.1 x.2 files)
        rwa [heq] at hlater

/-- **A failed deletion** leaves the rows as they were; it leaves the files as they were
exactly when none of the assets handled before the failure has a file that the system
lets go. -/
theorem failed_delete_unchanged_iff {db db' : Db} {files' : Finset Path} {poemId : ℤ}
    {fault : DeleteFault}
    (h : deletePoemRaising dataDir unlink db files poemId fault = some (db', files')) :
    (db' = db ∧ files' = files) ↔ ∀ x ∈ removals db poemId fault, ∀ f,
      assetTarget dataDir x.1 x.2 = some f → ¬ (f ∈ files ∧ unlink f = true) := by
  unfold deletePoemRaising at h
  split_ifs at h
  obtain ⟨rfl, rfl⟩ := Prod.mk.inj (Option.some.inj h)
  rw [and_iff_right rfl, foldl_removals_eq_self_iff]
  exact forall₂_congr fun x _ => removeAssetFile_eq_self_iff

namespace Sample

/-- Image 1 is made with its file, and its job is done. -/
def finished : List Label := called ++ [act (.returns image.str attrs [image]), ok]

end Sample

/-- The commit of the deletion fails, and the row is done without its file. -/
theorem failed_delete_commit : ∃ s a, run (Sample.config 1) Sys.init Sample.finished = some s ∧
    s.world.db.asset .image 1 = some a ∧ a.status = .done ∧ a.path = some Sample.image.str ∧
      Sample.image ∈ s.world.files ∧ ∃ files,
        deletePoemRaising ["data".toList] (fun _ => true) s.world.db s.world.files 1 .commit =
          some (s.world.db, files) ∧ Sample.image ∉ files := by
  refine ⟨_, _, rfl, rfl, rfl, rfl, ?_, _, rfl, ?_⟩ <;> decide

/-- The query for the images fails, and nothing is changed. -/
theorem failed_delete_load : ∃ s, run (Sample.config 1) Sys.init Sample.finished = some s ∧
    ∀ db' files', deletePoemRaising ["data".toList] (fun _ => true) s.world.db s.world.files 1
      (.load .image) = some (db', files') → db' = s.world.db ∧ files' = s.world.files := by
  refine ⟨_, rfl, fun db' files' h => (failed_delete_unchanged_iff h).2 ?_⟩
  rintro x hx
  exact absurd hx (by simp [removals, DeleteFault.handled])

/-! ### As operations of the system -/

theorem foldl_removals (db : Db) (p : ℤ) (fault : DeleteFault) :
    (removals db p fault).foldl (fun fs x => removeAssetFile dataDir unlink x.1 x.2 fs) files =
      ((db.assetsOf .audio p).take (fault.handled .audio (db.assetsOf .audio p).length)).foldl
        (fun fs x => removeAssetFile dataDir unlink .audio x.2 fs)
        (((db.assetsOf .image p).take (fault.handled .image (db.assetsOf .image p).length)).foldl
          (fun fs x => removeAssetFile dataDir unlink .image x.2 fs) files) := by
  simp only [removals, List.flatMap_cons, List.flatMap_nil, List.append_nil, List.foldl_append,
    List.foldl_map]

/-- **A call that fails is one of the system that has come as far and is abandoned.** -/
theorem exists_calls_deletePoemRaising {s : Sys} {db' : Db} {files' : Finset Path} {p : ℤ}
    {fault : DeleteFault}
    (h : deletePoemRaising cfg.dataDir unlink s.world.db s.world.files p fault = some (db', files')) :
    ∃ pc, Calls cfg s.deletes.length { s with deletes := s.deletes ++ [.getPoem p] }
      { s with world.files := files', deletes := s.deletes ++ [pc] } := by
  unfold deletePoemRaising at h
  split_ifs at h with hmissing
  obtain ⟨rfl, rfl⟩ := Prod.mk.inj (Option.some.inj h)
  by_cases hfault : fault = .getPoem
  · subst hfault
    exact ⟨.getPoem p, [], rfl⟩
  obtain ⟨poem, hp⟩ := Option.ne_none_iff_exists'.1 fun hnone => hmissing ⟨hfault, hnone⟩
  have hget : deleteStep cfg s.world .ok (.getPoem p) =
      some (s.world, some (.load p .image fun _ => [])) := by
    simp [deleteStep, hp]
  -- the call is about to load the images, and later the audios
  have himages := Calls.last s _ _ hget
  have haudios := himages.trans (Calls.files unlink p _ s)
  let s' : Sys := { s with
    world.files := (s.world.db.assetsOf .image p).foldl
      (fun fs x => removeAssetFile cfg.dataDir unlink .image x.2 fs) s.world.files }
  rw [foldl_removals]
  rcases fault with _ | (_ | _) | ⟨_ | _, n⟩ | _
  · exact absurd rfl hfault
  · exact ⟨_, himages⟩
  · simp only [DeleteFault.handled, List.take_length, List.take_zero, List.foldl_nil]
    exact ⟨_, haudios⟩
  · exact ⟨_, himages.trans (Calls.load unlink p _ n s)⟩
  · simp only [DeleteFault.handled, List.take_length]
    exact ⟨_, haudios.trans (Calls.load unlink p _ n s')⟩
  · simp only [DeleteFault.handled, List.take_length]
    exact ⟨_, haudios.trans (Calls.files unlink p _ s')⟩

end PoetryGenerator
