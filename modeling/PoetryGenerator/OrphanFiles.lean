/-
# Files of deleted poems

A processor writes its file before the path is in the row, and `delete_poem`
finds a file only through the path of a row it has loaded.  Where the two overlap
the file of a deleted poem stays: the row it should be found by is gone.

`Traced` is the system with the poem each file was last written for.  `Tidy` says
that no file of a poem that is gone is left, and that a call of `delete_poem`
still has before it the files of the types it has loaded.  It holds on every run
in which no processor writes between the load and the commit (`Orderly`); without
that it need not (`files_deleted_early`).
-/

import PoetryGenerator.FailedDeletion

namespace PoetryGenerator

variable {cfg : Config} {t : JobType}

/-- The files a processor wrote. -/
def Act.wrote : Act t → List Path
  | .returns _ _ wrote | .raises _ _ wrote | .unsupported _ _ wrote => wrote
  | _ => []

/-- The poem of the asset that a processor is called for. -/
def Pc.poemId : Pc t → Option ℤ
  | .call s => some s.asset.cur.poemId
  | _ => none

/-- The files written in a step. -/
def Label.wrote : Label → List Path
  | .worker _ a => a.wrote
  | _ => []

/-- The type and the poem they are written for. -/
def Sys.writer (s : Sys) : Label → Option (JobType × ℤ)
  | .worker t _ => (s.workers t).poemId.map (t, ·)
  | _ => none

/-- The system, and for whom each file was written last. -/
structure Traced where
  sys : Sys
  owner : Path → Option (JobType × ℤ)

namespace DeletePc

/-- The poem of a call. -/
def poemId : DeletePc → ℤ
  | getPoem p | load p _ _ | unlink p _ _ _ | commit p _ => p

/-- The paths left to remove of each type, while or after those of type `t` are removed;
nothing for a type that is not loaded yet. -/
def leftOf (t : JobType) (left : List (Option Str)) : JobType → Option (List (Option Str)) :=
  match t with
  | .image => fun | .image => some left | .audio => none
  | .audio => fun | .image => some [] | .audio => some left

/-- The paths a call has left to remove. -/
def left : DeletePc → JobType → Option (List (Option Str))
  | getPoem _ | load _ .image _ => fun _ => none
  | load _ .audio _ => leftOf .image []
  | unlink _ t _ left => leftOf t left
  | commit .. => leftOf .audio []

theorem left_unlinkRest (p : ℤ) (t : JobType) (loaded : JobType → List (ℤ × Option Str))
    (paths : List (Option Str)) : (unlinkRest p t loaded paths).left = leftOf t paths := by
  cases paths <;> cases t <;> rfl

theorem poemId_unlinkRest (p : ℤ) (t : JobType) (loaded : JobType → List (ℤ × Option Str))
    (paths : List (Option Str)) : (unlinkRest p t loaded paths).poemId = p := by
  cases paths <;> cases t <;> rfl

end DeletePc

namespace Traced

/-- Nothing stored, nothing written. -/
def init : Traced := ⟨.init, fun _ => none⟩

/-- One step, and who wrote. -/
def step (cfg : Config) (x : Traced) (l : Label) : Option Traced :=
  (PoetryGenerator.step cfg x.sys l).map fun s' =>
    ⟨s', fun f => if f ∈ l.wrote then x.sys.writer l else x.owner f⟩

/-- A run with its writers is a run of the system. -/
theorem run_sys {x y : Traced} {ls : List Label} (h : Runs.run (step cfg) x ls = some y) :
    run cfg x.sys ls = some y.sys := by
  have hstep : ∀ x l, (step cfg x l).map sys = PoetryGenerator.step cfg x.sys l := fun x l => by
    unfold step
    cases PoetryGenerator.step cfg x.sys l <;> rfl
  rw [run, ← Runs.run_map hstep, h, Option.map_some]

/-- An operation of `delete_poem` finds what was written for its poem: a load, in the rows; a
removal, the file it may remove. -/
def Finds (cfg : Config) (x : Traced) (r : Reply) : DeletePc → Prop
  | .load p t _ => r = .ok → ∀ f ∈ x.sys.world.files, x.owner f = some (t, p) →
      ∃ y ∈ x.sys.world.db.assetsOf t p, assetTarget cfg.dataDir t y.2 = some f
  | .unlink p t _ (path :: _) => ∀ f ∈ x.sys.world.files, x.owner f = some (t, p) →
      assetTarget cfg.dataDir t path = some f → r.takesEffect = true
  | _ => True

/-- The worker writes nothing, or for a poem that is there and of whose assets no call of
`delete_poem` has loaded those of the type. -/
def Precedes (x : Traced) (t : JobType) (a : Act t) : Prop :=
  a.wrote = [] ∨ ∀ p ∈ (x.sys.workers t).poemId, x.sys.world.db.poem p ≠ none ∧
    ∀ pc ∈ x.sys.deletes, pc.poemId = p → pc.left t = none

/-- **Writing and deleting do not overlap.** -/
def Orderly (cfg : Config) (x : Traced) : Label → Prop
  | .deleteOp i r => ∀ pc ∈ x.sys.deletes[i]?, x.Finds cfg r pc
  | .worker t a => x.Precedes t a
  | _ => True

end Traced

/-- What was written for the poem of a call, of the types it has loaded, it has still to
remove. -/
def DeletePc.Clean (cfg : Config) (x : Traced) (pc : DeletePc) : Prop :=
  ∀ t left, pc.left t = some left → ∀ f ∈ x.sys.world.files, x.owner f = some (t, pc.poemId) →
    ∃ path ∈ left, assetTarget cfg.dataDir t path = some f

/-- Of a type of which a call has nothing left no file is left. -/
theorem DeletePc.Clean.none_left {x : Traced} {pc : DeletePc} (h : pc.Clean cfg x)
    (hleft : pc.left t = some []) : ∀ f ∈ x.sys.world.files, x.owner f ≠ some (t, pc.poemId) :=
  fun f hf ho => by
    obtain ⟨path, hpath, -⟩ := h t [] hleft f hf ho
    exact absurd hpath List.not_mem_nil

namespace Traced

/-- **The invariant.** -/
structure Tidy (cfg : Config) (x : Traced) : Prop where
  gone : ∀ p, x.sys.world.db.poem p = none → ∀ f ∈ x.sys.world.files, ∀ t, x.owner f ≠ some (t, p)
  calls : ∀ pc ∈ x.sys.deletes, pc.Clean cfg x

theorem tidy_init : init.Tidy cfg where
  gone _ _ _ hf := absurd hf (Finset.notMem_empty _)
  calls _ hpc := absurd hpc List.not_mem_nil

/-! ### Steps -/

section Step
variable {x y : Traced} {l : Label}

/-- Nobody writes, files only go: what is left is as before, for the poems that were gone and
the calls that were there. -/
theorem Tidy.of_subset (h : x.Tidy cfg) (howner : y.owner = x.owner)
    (hfiles : y.sys.world.files ⊆ x.sys.world.files)
    (hgone : ∀ p, y.sys.world.db.poem p = none → x.sys.world.db.poem p = none ∨
      ∀ f ∈ y.sys.world.files, ∀ t, x.owner f ≠ some (t, p))
    (hcalls : ∀ pc ∈ y.sys.deletes, pc ∈ x.sys.deletes ∨ pc.Clean cfg y) : y.Tidy cfg where
  gone p hp f hf t := by
    rw [howner]
    rcases hgone p hp with hold | hnew
    · exact h.gone p hold f (hfiles hf) t
    · exact hnew f hf t
  calls pc hpc := by
    rcases hcalls pc hpc with hold | hnew
    · intro t left hleft f hf ho
      exact h.calls pc hold t left hleft f (hfiles hf) (howner ▸ ho)
    · exact hnew

/-- Of the types loaded before, a call that goes on with type `t` has nothing left. -/
theorem leftOf_eq {u t : JobType} {paths left : List (Option Str)}
    (h : DeletePc.leftOf t paths u = some left) : (u = t ∧ left = paths) ∨
      (u = .image ∧ t = .audio ∧ left = []) := by
  cases t <;> cases u <;> simp only [DeletePc.leftOf, Option.some.injEq, reduceCtorEq] at h
  · exact .inl ⟨rfl, h.symm⟩
  · exact .inr ⟨rfl, rfl, h.symm⟩
  · exact .inl ⟨rfl, h.symm⟩

/-- A call that goes on with type `t` is clean when it is for this type, and has left nothing of
the images before the audios. -/
theorem clean_unlinkRest {p : ℤ} {t : JobType} {loaded : JobType → List (ℤ × Option Str)}
    {paths : List (Option Str)}
    (hpaths : ∀ f ∈ x.sys.world.files, x.owner f = some (t, p) →
      ∃ path ∈ paths, assetTarget cfg.dataDir t path = some f)
    (himages : t = .audio → ∀ f ∈ x.sys.world.files, x.owner f ≠ some (.image, p)) :
    (DeletePc.unlinkRest p t loaded paths).Clean cfg x := by
  intro u left hleft f hf ho
  rw [DeletePc.left_unlinkRest] at hleft
  rw [DeletePc.poemId_unlinkRest] at ho
  rcases leftOf_eq hleft with ⟨rfl, rfl⟩ | ⟨rfl, rfl, rfl⟩
  · exact hpaths f hf ho
  · exact absurd ho (himages rfl f hf)

/-- After an operation the calls are the others, and this one if it goes on. -/
theorem mem_advance {calls : List DeletePc} {i : ℕ} {next : Option DeletePc} {pc : DeletePc}
    (h : pc ∈ DeletePc.advance calls i next) : pc ∈ calls ∨ pc ∈ next := by
  cases next with
  | none => exact .inl (List.mem_of_mem_eraseIdx h)
  | some pc' =>
      rcases List.mem_or_eq_of_mem_set h with hold | rfl
      · exact .inl hold
      · exact .inr rfl

/-- **An operation of `delete_poem`** that finds what was written keeps the files tidy. -/
theorem Tidy.deletes {s : Sys} {w : World} {i : ℕ} {r : Reply} {pc : DeletePc}
    {next : Option DeletePc} {owner : Path → Option (JobType × ℤ)} (h : (⟨s, owner⟩ : Traced).Tidy cfg)
    (hi : s.deletes[i]? = some pc) (hd : Deletes cfg s.world r pc w next)
    (hfinds : (⟨s, owner⟩ : Traced).Finds cfg r pc) :
    (⟨{ s with world := w, deletes := DeletePc.advance s.deletes i next }, owner⟩ : Traced).Tidy cfg := by
  have hpc := h.calls pc (List.mem_of_getElem? hi)
  have hadvance : ∀ pc' ∈ DeletePc.advance s.deletes i next, pc' ∈ s.deletes ∨ pc' ∈ next :=
    fun _ => mem_advance
  cases hd with
  | getPoem hp =>
      refine h.of_subset rfl (Finset.Subset.refl _) (fun _ hp => .inl hp) fun pc' hpc' => ?_
      refine (hadvance pc' hpc').imp_right fun hnext => ?_
      split_ifs at hnext
      · obtain rfl := Option.some.inj hnext
        exact fun _ _ hleft => nomatch hleft
      · cases hnext
  | noPoem =>
      exact h.of_subset rfl (Finset.Subset.refl _) (fun _ hp => .inl hp) fun pc' hpc' =>
        (hadvance pc' hpc').imp_right fun hnext => by cases hnext
  | @load p t loaded =>
      refine h.of_subset rfl (Finset.Subset.refl _) (fun _ hp => .inl hp) fun pc' hpc' => ?_
      refine (hadvance pc' hpc').imp_right fun hnext => ?_
      split_ifs at hnext with hr
      · obtain rfl := Option.some.inj hnext
        refine clean_unlinkRest (fun f hf ho => ?_) ?_
        · obtain ⟨z, hz, htarget⟩ := hfinds hr f hf ho
          exact ⟨z.2, List.mem_map_of_mem hz, htarget⟩
        · rintro rfl
          exact hpc.none_left rfl
      · cases hnext
  | @unlink p t loaded path left =>
      refine h.of_subset rfl (removeAssetFile_subset path) (fun _ hp => .inl hp) fun pc' hpc' => ?_
      refine (hadvance pc' hpc').imp_right fun hnext => ?_
      obtain rfl := Option.some.inj hnext
      refine clean_unlinkRest (fun f hf ho => ?_) ?_
      · have hold := removeAssetFile_subset path hf
        obtain ⟨q, hq, htarget⟩ := hpc t (path :: left) (by cases t <;> rfl) f hold ho
        rcases List.mem_cons.1 hq with rfl | hq
        · -- the file is the one that is removed here
          have hr := hfinds f hold ho htarget
          simp [removeAssetFile, htarget, hold, hr] at hf
        · exact ⟨q, hq, htarget⟩
      · rintro rfl f hf
        exact hpc.none_left rfl f (removeAssetFile_subset path hf)
  | @commit p loaded =>
      have hfiles := World.files_commit s.world r
        (s.world.db.deleteRows p fun t => (loaded t).map Prod.fst)
      refine h.of_subset rfl hfiles.subset (fun q hq => ?_) fun pc' hpc' =>
        (hadvance pc' hpc').imp_right fun hnext => by cases hnext
      by_cases hqp : q = p
      · subst hqp
        exact .inr fun f hf t => hpc.none_left (by cases t <;> rfl) f (hfiles.subset hf)
      · refine .inl ?_
        unfold World.commit at hq
        split_ifs at hq
        · exact (if_neg hqp).symm.trans ((Db.poem_deleteRows ..).symm.trans hq)
        · exact hq

/-- A worker adds the files its processor wrote, and leaves the poems alone. -/
theorem files_of_performs {w w' : World} {pc pc' : Pc t} {a : Act t}
    (h : Performs cfg t w pc a w' pc') (hpc : pc.Ok cfg w) :
    w'.files = w.files ∪ a.wrote.toFinset ∧ (∀ p, w'.db.poem p = w.db.poem p) ∧
      (a.wrote ≠ [] → ∃ p, pc.poemId = some p) := by
  refine ⟨?_, fun p => ?_, fun hwrote => ?_⟩
  · cases h with
    | returns | raises | unsupported => rfl
    | _ => simp [Act.wrote]
  · rcases h.db hpc with hdb | ⟨session, db, hs, hc, rfl⟩
    · rw [hdb]
    · exact ((hpc.committing hs).rewrites hc).poem p
  · cases h with
    | returns | raises | unsupported => exact ⟨_, rfl⟩
    | _ => exact absurd rfl hwrote

/-- **A processor** that writes before the deletion keeps the files tidy. -/
theorem Tidy.performs {s : Sys} {w : World} {a : Act t} {pc : Pc t}
    {owner : Path → Option (JobType × ℤ)} (h : (⟨s, owner⟩ : Traced).Tidy cfg)
    (hw : Performs cfg t s.world (s.workers t) a w pc) (hpc : (s.workers t).Ok cfg s.world)
    (hprecedes : (⟨s, owner⟩ : Traced).Precedes t a) :
    (⟨{ s with world := w, workers := Function.update s.workers t pc },
      fun f => if f ∈ a.wrote then (s.workers t).poemId.map (t, ·) else owner f⟩ : Traced).Tidy cfg := by
  obtain ⟨hfiles, hpoem, hwriter⟩ := files_of_performs hw hpc
  -- a file belongs to another poem than before only if it is written now
  have hcases : ∀ f ∈ w.files, ∀ u p,
      (if f ∈ a.wrote then (s.workers t).poemId.map (t, ·) else owner f) = some (u, p) →
        (f ∈ s.world.files ∧ owner f = some (u, p)) ∨
          (a.wrote ≠ [] ∧ u = t ∧ (s.workers t).poemId = some p) := by
    intro f hf u p ho
    split_ifs at ho with hmem
    · obtain ⟨q, hq, heq⟩ := Option.map_eq_some_iff.1 ho
      obtain ⟨rfl, rfl⟩ := Prod.mk.inj heq
      exact .inr ⟨List.ne_nil_of_mem hmem, rfl, hq⟩
    · rw [hfiles, Finset.mem_union, List.mem_toFinset] at hf
      exact .inl ⟨hf.resolve_right hmem, ho⟩
  refine ⟨fun p hp f hf u ho => ?_, fun pc' hpc' u left hleft f hf ho => ?_⟩
  · have hgone : s.world.db.poem p = none := (hpoem p).symm.trans hp
    rcases hcases f hf u p ho with ⟨hold, ho⟩ | ⟨hwrote, rfl, hq⟩
    · exact h.gone p hgone f hold u ho
    · exact ((hprecedes.resolve_left hwrote) p hq).1 hgone
  · rcases hcases f hf u _ ho with ⟨hold, ho⟩ | ⟨hwrote, rfl, hq⟩
    · exact h.calls pc' hpc' u left hleft f hold ho
    · have hnone := ((hprecedes.resolve_left hwrote) _ hq).2 pc' hpc' rfl
      exact absurd (hnone.symm.trans hleft) (Option.some_ne_none _).symm

/-- **Step lemma.** -/
theorem Tidy.step (h : x.Tidy cfg) (hx : x.sys.Ok cfg) (ho : x.Orderly cfg l)
    (hl : step cfg x l = some y) : y.Tidy cfg := by
  obtain ⟨s', hstep, rfl⟩ := Option.map_eq_some_iff.1 hl
  obtain ⟨s, owner⟩ := x
  have hkept : ∀ s'', (⟨s'', owner⟩ : Traced).Tidy cfg → l.wrote = [] →
      (⟨s'', fun f => if f ∈ l.wrote then s.writer l else owner f⟩ : Traced).Tidy cfg := by
    intro s'' ht hnone
    simpa [hnone] using ht
  cases moves_of_step hstep with
  | persistRaised => exact hkept _ h rfl
  | @persist a ids r hf hr =>
      refine hkept _ (h.of_subset rfl (Finset.Subset.refl _) (fun p hp => .inl ?_)
        fun _ hpc => .inl hpc) rfl
      have hp := (poem_persistPoem s.world.db a ids p).symm.trans hp
      split_ifs at hp
      exact hp
  | push => exact hkept _ (h.of_subset rfl (World.files_rpush ..).subset
      (fun p hp => .inl ((congrArg (Db.poem · p) (World.db_rpush ..)).symm.trans hp))
      fun _ hpc => .inl hpc) rfl
  | @delete p => exact hkept _ (h.of_subset rfl (Finset.Subset.refl _) (fun _ hp => .inl hp)
      fun pc hpc => (List.mem_append.1 hpc).imp_right fun hnew _ _ hleft => by
        obtain rfl := List.mem_singleton.1 hnew
        exact nomatch hleft) rfl
  | @deleteOp i r pc w next hi hd => exact hkept _ (h.deletes hi hd (ho pc hi)) rfl
  | abandonDelete => exact hkept _ (h.of_subset rfl (Finset.Subset.refl _) (fun _ hp => .inl hp)
      fun _ hpc => .inl (List.mem_of_mem_eraseIdx hpc)) rfl
  | @worker t a w pc hw => exact h.performs hw (hx.workers t) ho
  | abandon | dropRetry | replaceLists =>
      exact hkept _ (h.of_subset rfl (Finset.Subset.refl _) (fun _ hp => .inl hp)
        fun _ hpc => .inl hpc) rfl

end Step

/-! ### Runs -/

/-- **Nothing of a deleted poem is left**: on every run in which no processor writes for a
poem while or after it is deleted, and each deletion finds what was written, a poem that is
not in the database has no file, no asset and no job. -/
theorem files_deleted_of_run {x : Traced} {ls : List Label}
    (hr : Runs.run (step cfg) init ls = some x) (ho : Runs.Along (step cfg) (Orderly cfg) init ls)
    {p : ℤ} (hp : x.sys.world.db.poem p = none) :
    (∀ f ∈ x.sys.world.files, ∀ t, x.owner f ≠ some (t, p)) ∧
      (∀ t ref a, x.sys.world.db.asset t ref = some a → a.poemId ≠ p) ∧
        ∀ id job, x.sys.world.db.job id = some job →
          ∃ a, x.sys.world.db.asset job.type job.refId = some a ∧ a.poemId ≠ p := by
  have hinv := Runs.run_invariant (I := fun x => x.sys.Ok cfg ∧ x.Tidy cfg)
    (fun x l y hI ho hl => by
      obtain ⟨s', hstep, rfl⟩ := Option.map_eq_some_iff.1 hl
      exact ⟨(moves_of_step hstep).ok hI.1, hI.2.step hI.1 ho hl⟩)
    ⟨Sys.ok_init, tidy_init⟩ ho hr
  have hassets : ∀ t ref a, x.sys.world.db.asset t ref = some a → a.poemId ≠ p :=
    fun t ref a ha he => hinv.1.rows.asset_poem ha (he ▸ hp)
  refine ⟨hinv.2.gone p hp, hassets, fun id job hj => ?_⟩
  obtain ⟨a, ha, -⟩ := hinv.1.rows.job_asset hj
  exact ⟨a, ha, hassets _ _ _ ha⟩

instance (x : Traced) (r : Reply) : (pc : DeletePc) → Decidable (x.Finds cfg r pc)
  | .getPoem _ | .unlink _ _ _ [] | .commit .. => isTrue trivial
  | .load p t _ => inferInstanceAs (Decidable (r = .ok → ∀ f ∈ x.sys.world.files,
      x.owner f = some (t, p) →
        ∃ y ∈ x.sys.world.db.assetsOf t p, assetTarget cfg.dataDir t y.2 = some f))
  | .unlink p t _ (path :: _) => inferInstanceAs (Decidable (∀ f ∈ x.sys.world.files,
      x.owner f = some (t, p) → assetTarget cfg.dataDir t path = some f → r.takesEffect = true))

instance (x : Traced) (t : JobType) (a : Act t) : Decidable (x.Precedes t a) :=
  inferInstanceAs (Decidable (_ ∨ ∀ p ∈ (x.sys.workers t).poemId, x.sys.world.db.poem p ≠ none ∧
    ∀ pc ∈ x.sys.deletes, pc.poemId = p → pc.left t = none))

instance (x : Traced) : (l : Label) → Decidable (x.Orderly cfg l)
  | .deleteOp i r => inferInstanceAs (Decidable (∀ pc ∈ x.sys.deletes[i]?, x.Finds cfg r pc))
  | .worker t a => inferInstanceAs (Decidable (x.Precedes t a))
  | .persist .. | .push .. | .abandon _ | .delete _ | .abandonDelete _ | .dropRetry ..
  | .replaceLists .. => isTrue trivial

/-- The operations of a deletion of poem 1. -/
def deletion : List Label := .delete 1 :: List.replicate 6 (.deleteOp 0 .ok)

/-- The poem is deleted during the call of the processor, which then returns; the commit
finds no row, and the id is delivered again and acknowledged. -/
def deletedEarly : List Label :=
  Sample.called ++ deletion ++
    [Sample.act (.returns Sample.image.str Sample.attrs [Sample.image]), Sample.ok,
      Sample.act .kill, Sample.act .start, Sample.ok, Sample.ok, Sample.ok, Sample.ok,
      Sample.act (.rows []), Sample.ok, Sample.ok, Sample.ok]

/-- The poem is deleted after the image is made. -/
def deletedLate : List Label := Sample.finished ++ deletion

/-- The poem, the call and the id are gone, and the file is there. -/
theorem files_deleted_early : ∃ x, Runs.run (step (Sample.config 1)) init deletedEarly = some x ∧
    x.sys.world.db.poem 1 = none ∧ x.sys.deletes = [] ∧ x.sys.workers .image = .tick ∧
      x.sys.world.redis.entries .image = [] ∧ Sample.image ∈ x.sys.world.files ∧
        x.owner Sample.image = some (.image, 1) :=
  ⟨_, rfl, rfl, rfl, rfl, rfl, by decide, by decide⟩

/-- Nothing is left of the poem. -/
theorem files_deleted_late : ∃ x, Runs.run (step (Sample.config 1)) init deletedLate = some x ∧
    x.owner Sample.image = some (.image, 1) ∧ Sample.image ∉ x.sys.world.files := by
  have hrun : ∃ x, Runs.run (step (Sample.config 1)) init deletedLate = some x ∧
      x.owner Sample.image = some (.image, 1) ∧ x.sys.world.db.poem 1 = none :=
    ⟨_, rfl, by decide, rfl⟩
  obtain ⟨x, hr, howner, hp⟩ := hrun
  exact ⟨x, hr, howner, fun hf =>
    (files_deleted_of_run hr (by decide) hp).1 _ hf .image howner⟩

end Traced
end PoetryGenerator
