/-
# Deleting a poem

`delete_poem` finds jobs by `(type, ref_id)`, without a foreign key, and files
by the base name of a stored path.  The first is exact because the references
are a bijection (`World.RowsOk.refs_bijOn`); the second needs that no two rows
store one path.  An audio is stored under its own id, and an image under the id
of the prompt that made it, so this holds on every run where prompt ids are
unique (`Naming`).

`Sys.Stores` follows a path from the processor that returned it to the row it is
committed to; the step lemma `Moves.stores` says that paths come from nowhere
else.
-/

import PoetryGenerator.Reachable

namespace PoetryGenerator

variable {cfg : Config} {w w' : World} {s s' : Sys} {l : Label} {t : JobType} {ref : ℤ} {path : Str}

/-! ### Stored paths -/

/-- The worker is about to commit the path to the asset. -/
def Pc.Stores : Pc t → ℤ → Str → Prop
  | commitFinal s _ _, ref, path => s.job.loaded.refId = ref ∧ s.asset.cur.path = some path
  | _, _, _ => False

/-- The asset has the path, or its worker is about to give it that path. -/
def Sys.Stores (s : Sys) (t : JobType) (ref : ℤ) (path : Str) : Prop :=
  (∃ a, s.world.db.asset t ref = some a ∧ a.path = some path) ∨ (s.workers t).Stores ref path

theorem Pc.not_stores {pc : Pc t} (h : pc.inProcess = false) : ¬ pc.Stores ref path := by
  cases pc <;> first | exact not_false | cases h

/-- Only an attempt that returned a path ends with one. -/
theorem Session.Ok.path_ended {session : Session t} (h : session.Ok w) (ha : session.Attempting)
    {e : Ending} (hp : (e.rows cfg.maxRetries session.job.cur session.asset.cur).2.1.path = some path) :
    e = .finished path := by
  have hnone : session.asset.cur.path = none := by
    refine h.agree.path_eq_none ?_
    rw [ha.job, ha.status]
    decide
  cases e with
  | finished p => exact congrArg Ending.finished (Option.some.inj hp)
  | unsupported exc => exact absurd (hnone.symm.trans hp) (Option.some_ne_none _).symm
  | failed exc attempts =>
      have hkept : (handleJobFailure cfg.maxRetries exc attempts session.job.cur
          session.asset.cur).2.1.path = session.asset.cur.path := by
        unfold handleJobFailure
        split
        · rfl
        · split_ifs <;> rfl
      exact absurd (hnone.symm.trans (hkept.symm.trans hp)) (Option.some_ne_none _).symm

/-- **A worker is about to store only what its processor has just returned.** -/
theorem Performs.stores {pc pc' : Pc t} {a : Act t} (h : Performs cfg t w pc a w' pc')
    (hpc : pc.Ok cfg w) (hp : pc'.Stores ref path) :
    ∃ session attrs wrote, pc = .call session ∧ session.job.loaded.refId = ref ∧
      a = .returns path attrs wrote := by
  rcases h.processes with hout | hin
  · exact absurd hp (Pc.not_stores hout)
  cases hin with
  | returns => exact ⟨_, _, _, rfl, hp.1, by rw [Option.some.inj hp.2]⟩
  | @unsupported session exc attrs wrote =>
      cases t with
      | image => exact hp.elim
      | audio => exact nomatch (hpc.1.withAttrs attrs).path_ended (hpc.2.withAttrs attrs) hp.2
  | uncounted | expire => exact nomatch hpc.1.path_ended hpc.2 hp.2
  | _ => exact hp.elim

theorem Pc.Ok.stores_of_committing {pc : Pc t} (h : pc.Ok cfg w) {session : Session t}
    (hs : pc.committing = some session) (hp : session.asset.cur.path = some path) :
    pc.Stores session.job.loaded.refId path := by
  cases pc <;> simp only [Pc.committing, Option.some.injEq, reduceCtorEq] at hs
  case commitRunning =>
    subst hs
    have hnone := h.1.agree.path_eq_none (by rw [h.2.2]; decide)
    exact absurd (hnone.symm.trans hp) (Option.some_ne_none _).symm
  case commitFinal =>
    subst hs
    exact ⟨rfl, hp⟩

/-- A path in a row was there before the step, or its worker has just committed it. -/
theorem Moves.asset_path (h : Moves cfg s l s') (hs : s.Ok cfg) {a : Asset t}
    (ha : s'.world.db.asset t ref = some a) (hp : a.path = some path) : s.Stores t ref path := by
  cases h with
  | persist hf hr =>
      have ha := World.asset_persist.symm.trans ha
      split_ifs at ha
      · obtain rfl := Option.some.inj ha
        exact absurd hp (Option.some_ne_none _).symm
      · exact .inl ⟨a, ha, hp⟩
  | push => exact .inl ⟨a, (congrArg (Db.asset · t ref) (World.db_rpush ..)).symm.trans ha, hp⟩
  | @deleteOp i r pc w next hi hd =>
      cases hd with
      | @commit p loaded =>
          cases hr : r.takesEffect with
          | false =>
              rw [World.commit_eq_self _ _ _ hr] at ha
              exact .inl ⟨a, ha, hp⟩
          | true =>
              rw [World.commit_eq _ _ _ hr] at ha
              exact .inl ⟨a, ((Db.asset_deleteRows ..).1 ha).1, hp⟩
      | _ => exact .inl ⟨a, ha, hp⟩
  | @worker u act w pc hw =>
      rcases hw.db (hs.workers u) with hdb | ⟨session, db, hsession, hc, rfl⟩
      · exact .inl ⟨a, hdb ▸ ha, hp⟩
      · have hrw := ((hs.workers u).committing hsession).rewrites hc
        have ha : db.asset t ref = some a := ha
        by_cases hu : t = u
        · subst hu
          rw [hrw.asset] at ha
          split_ifs at ha with hr
          · obtain ⟨_, -, rfl⟩ := Option.map_eq_some_iff.1 ha
            exact .inr (hr ▸ (hs.workers t).stores_of_committing hsession hp)
          · exact .inl ⟨a, ha, hp⟩
        · exact .inl ⟨a, (hrw.other t hu ref).symm.trans ha, hp⟩
  | _ => exact .inl ⟨a, ha, hp⟩

/-- **Step lemma.**  A path is stored for an asset because it was, or because the
processor has just returned it for that asset. -/
theorem Moves.stores (h : Moves cfg s l s') (hs : s.Ok cfg) (hp : s'.Stores t ref path) :
    s.Stores t ref path ∨ ∃ session attrs wrote, s.workers t = .call session ∧
      session.job.loaded.refId = ref ∧ l = .worker t (.returns path attrs wrote) := by
  rcases hp with ⟨a, ha, hpath⟩ | hpc
  · exact .inl (h.asset_path hs ha hpath)
  · rcases h.worker_cases t with ⟨a, rfl, hw⟩ | ⟨-, hsame⟩
    · obtain ⟨session, attrs, wrote, hcall, hr, rfl⟩ := hw.stores (hs.workers t) hpc
      exact .inr ⟨session, attrs, wrote, hcall, hr, rfl⟩
    · exact .inl (.inr (hsame ▸ hpc))

/-! ### Naming -/

/-- The path the image worker's processor returns in a step. -/
def Label.imagePath : Label → Option Str
  | .worker .image (.returns path _ _) => some path
  | _ => none

/-- **How the files are named.**  Every image is stored under the id of the prompt
that made it, no two prompts have one id, and ids and file names are what ComfyUI
gives: an id holds neither a separator nor an underscore, a file name no separator.
Every audio is stored under its own id. -/
structure Naming (cfg : Config) (ls : List Label) : Prop where
  image : ∃ prompts : List (Str × Str),
    ls.filterMap Label.imagePath = prompts.map (fun x => (imageOutPath cfg.dataDir x.1 x.2).str) ∧
      (prompts.map Prod.fst).Nodup ∧ ∀ x ∈ prompts, '/' ∉ x.1 ∧ '_' ∉ x.1 ∧ '/' ∉ x.2
  audio : Runs.Along (step cfg) (fun s l => ∀ session path attrs wrote,
    s.workers .audio = .call session → l = .worker .audio (.returns path attrs wrote) →
      path = (audioOutPath cfg.dataDir session.job.loaded.refId).str) Sys.init ls

/-- Prompts with different ids have different files. -/
theorem Naming.nodup {ls : List Label} (h : Naming cfg ls) :
    (ls.filterMap Label.imagePath).Nodup := by
  obtain ⟨prompts, hpaths, hnodup, hok⟩ := h.image
  rw [hpaths]
  refine hnodup.of_map Prod.fst |>.map_on fun x hx y hy he => ?_
  have hid := promptId_eq_of_name (hok x hx).2.1 (hok y hy).2.1 (name_eq_of_str (t := .image) he)
  exact List.inj_on_of_nodup_map hnodup hx hy hid

/-- The paths of images are among the returned ones, no two images have the same. -/
structure ImagePaths (paths : List Str) (s : Sys) : Prop where
  returned : ∀ {ref path}, s.Stores .image ref path → path ∈ paths
  injective : ∀ {ref ref' path}, s.Stores .image ref path → s.Stores .image ref' path → ref = ref'

theorem not_stores_init : ¬ Sys.init.Stores t ref path := by
  rintro (⟨a, ha, -⟩ | hpc)
  · exact (Option.some_ne_none a) ha.symm
  · exact hpc

theorem ImagePaths.moves {paths : List Str} (h : ImagePaths paths s) (hm : Moves cfg s l s')
    (hs : s.Ok cfg) (hn : (l.imagePath.toList ++ paths).Nodup) :
    ImagePaths (l.imagePath.toList ++ paths) s' where
  returned hp := by
    rcases hm.stores hs hp with hold | ⟨session, attrs, wrote, -, -, rfl⟩
    · exact List.mem_append_right _ (h.returned hold)
    · exact List.mem_append_left _ (List.mem_singleton_self _)
  injective {ref ref' path} hp hp' := by
    have hfresh : ∀ {ref attrs wrote}, l = .worker .image (.returns path attrs wrote) →
        ¬ s.Stores .image ref path := by
      rintro ref attrs wrote rfl hold
      exact (List.nodup_cons.1 hn).1 (h.returned hold)
    rcases hm.stores hs hp with hold | ⟨session, attrs, wrote, hcall, hr, hl⟩ <;>
      rcases hm.stores hs hp' with hold' | ⟨session', attrs', wrote', hcall', hr', hl'⟩
    · exact h.injective hold hold'
    · exact absurd hold (hfresh hl')
    · exact absurd hold' (hfresh hl)
    · obtain rfl := Pc.call.inj (hcall.symm.trans hcall')
      exact hr.symm.trans hr'

/-- **Images have different paths**, on a run whose prompts have different ones. -/
theorem imagePaths_of_run {ls : List Label} (hr : run cfg Sys.init ls = some s)
    (hn : (ls.filterMap Label.imagePath).Nodup) :
    ImagePaths (ls.filterMap Label.imagePath).reverse s := by
  have hrec := Runs.recordRun_labels (f := Label.imagePath) (h := []) hr
  rw [List.append_nil] at hrec
  have hinv := Runs.recordRun_invariant (h := []) (P := fun _ _ => True)
    (J := fun (h : List Str) s => s.Ok cfg ∧ (h.Nodup → ImagePaths h s))
    (fun h s l s' hJ _ hstep => ⟨(moves_of_step hstep).ok hJ.1, fun hn =>
      (hJ.2 (List.nodup_append.1 hn).2.1).moves (moves_of_step hstep) hJ.1 hn⟩)
    ⟨Sys.ok_init, fun _ => ⟨fun h => absurd h not_stores_init, fun h => absurd h not_stores_init⟩⟩
    (Runs.along_of_forall fun _ _ _ => trivial) hr
  rw [← hrec]
  exact hinv.2 (hrec ▸ List.nodup_reverse.2 hn)

/-- **Every audio is stored under its own id.** -/
theorem audioPaths_of_run {ls : List Label} (hr : run cfg Sys.init ls = some s)
    (hn : Naming cfg ls) {ref : ℤ} {path : Str} (hp : s.Stores .audio ref path) :
    path = (audioOutPath cfg.dataDir ref).str := by
  refine (Runs.run_invariant (I := fun s => s.Ok cfg ∧ ∀ ref path, s.Stores .audio ref path →
    path = (audioOutPath cfg.dataDir ref).str) (fun s l s' hI hname h => ?_)
    ⟨Sys.ok_init, fun _ _ h => absurd h not_stores_init⟩ hn.audio hr).2 ref path hp
  refine ⟨(moves_of_step h).ok hI.1, fun ref path hp => ?_⟩
  rcases (moves_of_step h).stores hI.1 hp with hold | ⟨session, attrs, wrote, hcall, rfl, hl⟩
  · exact hI.2 ref path hold
  · exact hname session path attrs wrote hcall hl

section Named
variable {ls : List Label} (hr : run cfg Sys.init ls = some s) (hn : Naming cfg ls)
include hr hn

/-- A stored path is that of a file of its kind. -/
theorem Naming.path_eq (hp : s.Stores t ref path) :
    ∃ name, FileName name ∧ path = Path.str (cfg.dataDir ++ [t.kind, name]) := by
  cases t with
  | image =>
      obtain ⟨prompts, hpaths, hnodup, hok⟩ := hn.image
      have hmem := (imagePaths_of_run hr (hn.nodup)).returned hp
      rw [List.mem_reverse, hpaths] at hmem
      obtain ⟨x, hx, rfl⟩ := List.mem_map.1 hmem
      exact ⟨_, fileName_image (hok x hx).1 (hok x hx).2.2, rfl⟩
  | audio => exact ⟨_, fileName_audio ref, audioPaths_of_run hr hn hp⟩

/-- **No two assets have one path.** -/
theorem Naming.stores_injective {u : JobType} {ref' : ℤ} (hp : s.Stores t ref path)
    (hp' : s.Stores u ref' path) : t = u ∧ ref = ref' := by
  obtain ⟨name, -, he⟩ := hn.path_eq hr hp
  obtain ⟨name', -, he'⟩ := hn.path_eq hr hp'
  obtain rfl := type_eq_of_str (he.symm.trans he')
  refine ⟨rfl, ?_⟩
  cases t with
  | image => exact (imagePaths_of_run hr hn.nodup).injective hp hp'
  | audio =>
      exact audioOutPath_injective
        ((audioPaths_of_run hr hn hp).symm.trans (audioPaths_of_run hr hn hp'))

end Named

/-! ### What a deletion removes -/

/-- `db'` is `db` without a poem, its assets and the jobs that point at them. -/
structure Db.Without (db db' : Db) (p : ℤ) : Prop where
  poem : ∀ q, db'.poem q = if q = p then none else db.poem q
  asset : ∀ t ref a, db'.asset t ref = some a ↔ db.asset t ref = some a ∧ a.poemId ≠ p
  job : ∀ id job, db'.job id = some job ↔
    db.job id = some job ∧ ∀ a, db.asset job.type job.refId = some a → a.poemId ≠ p

/-- The rows `delete_poem` deletes are those of the poem. -/
theorem Db.deleteRows_without (db : Db) (p : ℤ) :
    db.Without (db.deleteRows p fun t => (db.assetsOf t p).map Prod.fst) p where
  poem _ := Db.poem_deleteRows ..
  asset t ref a := by
    rw [Db.asset_deleteRows, Db.mem_assetsOf_keys]
    refine and_congr_right fun ha => and_iff_right_of_imp fun hne => ?_
    rintro ⟨b, hb, hp⟩
    exact hne (Option.some.inj (ha.symm.trans hb) ▸ hp)
  job id job := by
    rw [Db.job_deleteRows, Db.mem_assetsOf_keys]
    simp only [not_exists, not_and]

section Files
variable {dataDir f : Path} {unlink : Path → Bool} {files : Finset Path}

/-- A removal takes only the file its path leads to. -/
theorem mem_removeAssetFile {path : Option Str} (h : assetTarget dataDir t path ≠ some f) :
    f ∈ removeAssetFile dataDir unlink t path files ↔ f ∈ files := by
  unfold removeAssetFile
  split
  · exact Iff.rfl
  · rename_i target htarget
    have hne : f ≠ target := fun he => h (htarget.trans (congrArg some he.symm))
    split_ifs
    · rw [Finset.mem_erase, and_iff_right hne]
    · exact Iff.rfl

theorem removeAssetFile_subset (path : Option Str) :
    removeAssetFile dataDir unlink t path files ⊆ files := by
  unfold removeAssetFile
  split
  · exact Finset.Subset.refl _
  · split_ifs
    · exact Finset.erase_subset ..
    · exact Finset.Subset.refl _

theorem mem_foldl_removeAssetFile {assets : List (ℤ × Option Str)}
    (h : ∀ x ∈ assets, assetTarget dataDir t x.2 ≠ some f) :
    f ∈ assets.foldl (fun fs x => removeAssetFile dataDir unlink t x.2 fs) files ↔ f ∈ files := by
  induction assets generalizing files with
  | nil => exact Iff.rfl
  | cons x assets ih =>
      exact (ih fun y hy => h y (List.mem_cons_of_mem _ hy)).trans
        (mem_removeAssetFile (h x (List.mem_cons_self ..)))

theorem foldl_removeAssetFile_subset (assets : List (ℤ × Option Str)) :
    assets.foldl (fun fs x => removeAssetFile dataDir unlink t x.2 fs) files ⊆ files := by
  induction assets generalizing files with
  | nil => exact Finset.Subset.refl _
  | cons x assets ih => exact ih.trans (removeAssetFile_subset x.2)

end Files

/-- `delete_poem` of a poem that exists. -/
theorem deletePoem_eq {db : Db} {p : ℤ} {poem : Poem} (h : db.poem p = some poem) (dataDir : Path)
    (unlink : Path → Bool) (files : Finset Path) :
    deletePoem dataDir unlink db files p =
      (true, db.deleteRows p fun t => (db.assetsOf t p).map Prod.fst,
        (db.assetsOf .audio p).foldl (fun fs x => removeAssetFile dataDir unlink .audio x.2 fs)
          ((db.assetsOf .image p).foldl (fun fs x => removeAssetFile dataDir unlink .image x.2 fs)
            files)) := by
  simp only [deletePoem, h]

/-- **Deletion is exact.**  In every reachable state the references are a bijection;
`delete_poem` of an unknown poem changes nothing; of a poem that exists it deletes
that poem, its assets and the jobs that point at them, and on a run with proper
names it leaves the file of every surviving asset. -/
theorem deletion_exact_of_run {ls : List Label} (hr : run cfg Sys.init ls = some s) :
    Set.BijOn (fun x : ℤ × Job => (x.2.type, x.2.refId)) {x | s.world.db.job x.1 = some x.2}
      {y | s.world.db.asset y.1 y.2 ≠ none} ∧
    ∀ (unlink : Path → Bool) (p : ℤ),
      (s.world.db.poem p = none →
        deletePoem cfg.dataDir unlink s.world.db s.world.files p =
          (false, s.world.db, s.world.files)) ∧
      (s.world.db.poem p ≠ none → ∃ db' files',
        deletePoem cfg.dataDir unlink s.world.db s.world.files p = (true, db', files') ∧
          s.world.db.Without db' p ∧ files' ⊆ s.world.files ∧
            (Naming cfg ls → ∀ t ref a path f, db'.asset t ref = some a → a.path = some path →
              Path.str f = path → f ∈ s.world.files → f ∈ files')) := by
  refine ⟨(run_ok hr).rows.refs_bijOn, fun unlink p => ⟨fun hp => ?_, fun hp => ?_⟩⟩
  · simp only [deletePoem, hp]
  obtain ⟨poem, hp⟩ := Option.ne_none_iff_exists'.1 hp
  have hwithout := s.world.db.deleteRows_without p
  refine ⟨_, _, deletePoem_eq hp .., hwithout, ?_, ?_⟩
  · exact (foldl_removeAssetFile_subset ..).trans (foldl_removeAssetFile_subset ..)
  intro hn t ref a path f ha hpath hf hfile
  obtain ⟨hold, hother⟩ := (hwithout.asset t ref a).1 ha
  -- a file the deletion looks for has the path of an asset of the poem
  have htarget : ∀ u, ∀ x ∈ s.world.db.assetsOf u p, assetTarget cfg.dataDir u x.2 ≠ some f := by
    rintro u ⟨ref', path'⟩ hx htarget
    obtain ⟨b, hb, hbp, rfl⟩ := Db.mem_assetsOf.1 hx
    obtain ⟨q, hq, -⟩ := assetTarget_eq_some htarget
    have hstores : s.Stores u ref' q := .inl ⟨b, hb, hq⟩
    obtain ⟨name, hname, rfl⟩ := hn.path_eq hr hstores
    have hsame : path = Path.str (cfg.dataDir ++ [u.kind, name]) :=
      hf.symm.trans (str_of_assetTarget hname (hq ▸ htarget))
    obtain ⟨rfl, rfl⟩ := hn.stores_injective hr (.inl ⟨a, hold, hsame ▸ hpath⟩) hstores
    exact hother (Option.some.inj (hold.symm.trans hb) ▸ hbp)
  rwa [mem_foldl_removeAssetFile (htarget .audio), mem_foldl_removeAssetFile (htarget .image)]

namespace Sample

/-- Where the processor puts image 1. -/
def image : Path := imageOutPath ["data".toList] "1".toList "a.png".toList

/-- Image 1 is made with its file, and a second poem is persisted. -/
def drawn : List Label :=
  called ++ [act (.returns image.str attrs [image]), ok, .persist args ids₂ .ok]

end Sample

/-- The second poem is deleted, and the file of the first stays. -/
theorem deletion_exact_drawn : ∃ s db' files',
    run (Sample.config 1) Sys.init Sample.drawn = some s ∧
      deletePoem ["data".toList] (fun _ => true) s.world.db s.world.files 2 = (true, db', files') ∧
        s.world.db.Without db' 2 ∧ Sample.image ∈ files' := by
  have hrun : ∃ s poem a, run (Sample.config 1) Sys.init Sample.drawn = some s ∧
      s.world.db.poem 2 = some poem ∧ s.world.files = {Sample.image} ∧
        s.world.db.asset .image 1 = some a ∧ a.path = some Sample.image.str ∧ a.poemId = 1 :=
    ⟨_, _, _, rfl, rfl, rfl, rfl, rfl, rfl⟩
  obtain ⟨s, poem, a, hr, hp, hfiles, ha, hpath, hid⟩ := hrun
  have hn : Naming (Sample.config 1) Sample.drawn := by
    refine ⟨⟨[("1".toList, "a.png".toList)], rfl, by decide, by decide⟩, ?_⟩
    refine Runs.along_of_forall fun s l hl session path attrs wrote _ he => ?_
    subst he
    simp [Sample.drawn, Sample.called, Sample.requested] at hl
  obtain ⟨db', files', hd, hw, -, hkept⟩ :=
    ((deletion_exact_of_run hr).2 (fun _ => true) 2).2 (ne_of_eq_of_ne hp (Option.some_ne_none _))
  refine ⟨s, db', files', hr, hd, hw, ?_⟩
  refine hkept hn .image 1 a _ Sample.image ((hw.asset ..).2 ⟨ha, ?_⟩) hpath rfl ?_
  · rw [hid]
    decide
  · rw [hfiles]
    exact Finset.mem_singleton_self _

/-! ### The calls of the system -/

/-- Some operations of call `i` lead from one state to the other. -/
def Calls (cfg : Config) (i : ℕ) (s s' : Sys) : Prop :=
  ∃ rs : List Reply, run cfg s (rs.map (.deleteOp i)) = some s'

namespace Calls

variable {i : ℕ} {s'' : Sys}

theorem trans (h : Calls cfg i s s') (h' : Calls cfg i s' s'') : Calls cfg i s s'' := by
  obtain ⟨rs, hrs⟩ := h
  obtain ⟨rs', hrs'⟩ := h'
  refine ⟨rs ++ rs', ?_⟩
  rw [List.map_append]
  exact Runs.run_append_eq_some.2 ⟨s', hrs, hrs'⟩

/-- The next operation of a call that was made last. -/
theorem last (s : Sys) (pc : DeletePc) (r : Reply) {next : Option DeletePc}
    (h : deleteStep cfg s.world r pc = some (w, next)) :
    Calls cfg s.deletes.length { s with deletes := s.deletes ++ [pc] }
      { s with world := w, deletes := s.deletes ++ next.toList } := by
  refine ⟨[r], Runs.run_cons_eq_some.2 ⟨_, ?_, rfl⟩⟩
  simp only [step, List.getElem?_concat_length, Option.bind_some, h, Option.map_some]
  cases next <;> simp [DeletePc.advance, List.eraseIdx_append_of_length_le]

/-- It unlinks the files of a type one by one. -/
theorem unlinks (cfg : Config) (unlink : Path → Bool) (p : ℤ) (loaded : JobType → List (ℤ × Option Str))
    (done left : List (Option Str)) (s : Sys) :
    Calls cfg s.deletes.length
      { s with deletes := s.deletes ++ [.unlinkRest p t loaded (done ++ left)] }
      { s with
        world.files := done.foldl (fun fs path => removeAssetFile cfg.dataDir unlink t path fs)
          s.world.files
        deletes := s.deletes ++ [.unlinkRest p t loaded left] } := by
  induction done generalizing s with
  | nil => exact ⟨[], rfl⟩
  | cons path done ih =>
      -- the reply is what the system answers for the file of this path
      let r : Reply := if (assetTarget cfg.dataDir t path).all unlink then .ok else .before .other
      have hfile : removeAssetFile cfg.dataDir (fun _ => r.takesEffect) t path s.world.files =
          removeAssetFile cfg.dataDir unlink t path s.world.files := by
        unfold removeAssetFile
        cases htarget : assetTarget cfg.dataDir t path with
        | none => rfl
        | some target =>
            have hr : r.takesEffect = unlink target := by
              simp only [r, htarget, Option.all_some]
              cases unlink target <;> rfl
            simp only [hr]
      have hstep : deleteStep cfg s.world r (.unlinkRest p t loaded (path :: done ++ left)) =
          some ({ s.world with files := removeAssetFile cfg.dataDir unlink t path s.world.files },
            some (.unlinkRest p t loaded (done ++ left))) := hfile ▸ rfl
      exact (last s _ r hstep).trans
        (ih { s with world.files := removeAssetFile cfg.dataDir unlink t path s.world.files })

/-- It loads the assets of a type, then unlinks the files of the first `n`. -/
theorem load (unlink : Path → Bool) (p : ℤ) (loaded : JobType → List (ℤ × Option Str)) (n : ℕ)
    (s : Sys) :
    Calls cfg s.deletes.length { s with deletes := s.deletes ++ [.load p t loaded] }
      { s with
        world.files := ((s.world.db.assetsOf t p).take n).foldl
          (fun fs x => removeAssetFile cfg.dataDir unlink t x.2 fs) s.world.files
        deletes := s.deletes ++
          [.unlinkRest p t (Function.update loaded t (s.world.db.assetsOf t p))
            (((s.world.db.assetsOf t p).drop n).map Prod.snd)] } := by
  have hunlinks := unlinks cfg (t := t) unlink p
    (Function.update loaded t (s.world.db.assetsOf t p))
    (((s.world.db.assetsOf t p).take n).map Prod.snd)
    (((s.world.db.assetsOf t p).drop n).map Prod.snd) s
  rw [List.foldl_map, ← List.map_append, List.take_append_drop] at hunlinks
  exact (last s (.load p t loaded) .ok rfl).trans hunlinks

/-- It loads the assets of a type, then unlinks their files. -/
theorem files (unlink : Path → Bool) (p : ℤ) (loaded : JobType → List (ℤ × Option Str)) (s : Sys) :
    Calls cfg s.deletes.length { s with deletes := s.deletes ++ [.load p t loaded] }
      { s with
        world.files := (s.world.db.assetsOf t p).foldl
          (fun fs x => removeAssetFile cfg.dataDir unlink t x.2 fs) s.world.files
        deletes := s.deletes ++
          [.afterFiles p (Function.update loaded t (s.world.db.assetsOf t p)) t] } := by
  have hload := @load cfg t unlink p loaded (s.world.db.assetsOf t p).length s
  rwa [List.take_length, List.drop_length] at hload

end Calls

/-- **A call that nobody interrupts computes `delete_poem`.** -/
theorem delete_refines (cfg : Config) (s : Sys) (unlink : Path → Bool) (p : ℤ) :
    Calls cfg s.deletes.length { s with deletes := s.deletes ++ [.getPoem p] }
      { s with
        world.db := (deletePoem cfg.dataDir unlink s.world.db s.world.files p).2.1
        world.files := (deletePoem cfg.dataDir unlink s.world.db s.world.files p).2.2 } := by
  cases hp : s.world.db.poem p with
  | none =>
      have hget : deleteStep cfg s.world .ok (.getPoem p) = some (s.world, none) := by
        simp [deleteStep, hp]
      simpa [deletePoem, hp] using Calls.last s _ _ hget
  | some poem =>
      have hget : deleteStep cfg s.world .ok (.getPoem p) =
          some (s.world, some (.load p .image fun _ => [])) := by
        simp [deleteStep, hp]
      let remove t := fun fs (x : ℤ × Option Str) => removeAssetFile cfg.dataDir unlink t x.2 fs
      let files := (s.world.db.assetsOf .image p).foldl (remove .image) s.world.files
      let files' := (s.world.db.assetsOf .audio p).foldl (remove .audio) files
      let loaded : JobType → List (ℤ × Option Str) := Function.update (Function.update (fun _ => [])
        .image (s.world.db.assetsOf .image p)) .audio (s.world.db.assetsOf .audio p)
      have hloaded : (fun t => (loaded t).map Prod.fst) =
          fun t => (s.world.db.assetsOf t p).map Prod.fst := by
        funext t
        cases t <;> rfl
      have hcommit : ∀ w : World, deleteStep cfg w .ok (.commit p loaded) = some
          ({ w with db := w.db.deleteRows p fun t => (s.world.db.assetsOf t p).map Prod.fst },
            none) := fun w => hloaded ▸ rfl
      rw [deletePoem_eq hp]
      refine (Calls.last s _ _ hget).trans <| (Calls.files unlink p _ s).trans <|
        (Calls.files unlink p _ { s with world.files := files }).trans ?_
      have hlast := Calls.last { s with world.files := files' } _ _ (hcommit _)
      rwa [Option.toList_none, List.append_nil] at hlast

end PoetryGenerator
