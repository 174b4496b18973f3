/-
# Reading a poem (`GET /api/poems/{id}`)

`read_poem` loads the row of a poem, then its images, then its audios.  Each of the three
queries sees what is committed when it runs, so one answer may put three moments together,
with deletions, commits of workers and new poems in between (`Reads`).

The page asks again until no asset of the answer is being produced.  `World.Later` says
what a later state can have of a poem that is known, and `World.Answers` what stays true of an
answer, so the answer the page stops at is the one every later request gets
(`detail_final_of_run`).  In one state the answer
asks for another exactly while a job of the poem is open (`detail_of_run`).
-/

import PoetryGenerator.HomePage
import PoetryGenerator.Lifecycle
import PoetryGenerator.PoemListing

namespace PoetryGenerator

/-! ### The answer -/

/-- `ImageOut`. -/
structure ImageOut where
  id : ℤ
  status : AssetStatus
  path : Option Str
  url : Option Str
  width : ℤ
  height : ℤ
  seed : Option ℤ
  checkpoint : Option Str
deriving DecidableEq, Repr

/-- `AudioOut`. -/
structure AudioOut where
  id : ℤ
  backend : TtsBackend
  lang : Str
  status : AssetStatus
  path : Option Str
  url : Option Str
  voice : Option Str
deriving DecidableEq, Repr

/-- `PoemDetail`. -/
structure PoemDetail extends PoemSummary where
  theme : Option Str
  model : Option Str
  poemEn : Str
  poemJa : Str
  images : List ImageOut
  audios : List AudioOut
deriving DecidableEq, Repr

/-- `poem.images` and `poem.audios`: the rows of the poem, ordered by id. -/
def Db.assetRows (db : Db) (t : JobType) (poemId : ℤ) : List (ℤ × Asset t) :=
  (((db.assets t).entries.filter fun e => e.2.poemId = poemId).map
    fun e => (e.1, e.2)).insertionSort fun x y => x.1 ≤ y.1

/-- An item of `images`. -/
def ImageOut.ofRow (row : ℤ × Asset .image) : ImageOut :=
  { id := row.1
    status := row.2.status
    path := row.2.path
    url := assetUrl .image row.2.path
    width := row.2.attrs.width
    height := row.2.attrs.height
    seed := row.2.attrs.seed
    checkpoint := row.2.attrs.checkpoint }

/-- An item of `audios`. -/
def AudioOut.ofRow (row : ℤ × Asset .audio) : AudioOut :=
  { id := row.1
    backend := row.2.attrs.backend
    lang := row.2.attrs.lang
    status := row.2.status
    path := row.2.path
    url := assetUrl .audio row.2.path
    voice := row.2.attrs.voice }

/-- `_detail`, of the row and the assets that are loaded for it. -/
def detail (row : ℤ × Poem) (images : List (ℤ × Asset .image)) (audios : List (ℤ × Asset .audio)) :
    PoemDetail :=
  let image := images.head?.map Prod.snd
  let audio := audios.head?.map Prod.snd
  { id := row.1
    character := row.2.character
    title := row.2.title
    titleJa := row.2.titleJa
    mood := row.2.mood
    lang := row.2.lang
    imageStatus := image.map fun a => a.status
    audioStatus := audio.map fun a => a.status
    imageUrl := image.bind fun a => assetUrl .image a.path
    audioUrl := audio.bind fun a => assetUrl .audio a.path
    theme := row.2.theme
    model := row.2.model
    poemEn := row.2.poemEn
    poemJa := row.2.poemJa
    images := images.map .ofRow
    audios := audios.map .ofRow }

/-- `read_poem`, of what is committed when the poem, its images and its audios are loaded;
nothing is the answer 404. -/
def readPoem (dbPoem dbImages dbAudios : Db) (poemId : ℤ) : Option PoemDetail :=
  (dbPoem.poem poemId).map fun poem =>
    detail (poemId, poem) (dbImages.assetRows .image poemId) (dbAudios.assetRows .audio poemId)

/-- The statuses of the assets. -/
def PoemDetail.statuses (d : PoemDetail) : List AssetStatus :=
  d.images.map ImageOut.status ++ d.audios.map AudioOut.status

/-- What the page reads of an answer. -/
def PoemDetail.view (d : PoemDetail) : PoemView :=
  ⟨d.id, d.images.map fun i => i.status.value, d.audios.map fun a => a.status.value⟩

/-- A call of `read_poem` from `s` to `s'`, with any steps of the system between its
queries. -/
def Reads (cfg : Config) (s : Sys) (ls : List Label) (s' : Sys) (poemId : ℤ)
    (answer : Option PoemDetail) : Prop :=
  ∃ ls₁ ls₂ s₁, ls = ls₁ ++ ls₂ ∧ run cfg s ls₁ = some s₁ ∧ run cfg s₁ ls₂ = some s' ∧
    answer = readPoem s.world.db s₁.world.db s'.world.db poemId

variable {cfg : Config} {db db' : Db} {w w' : World} {s s' s₁ s₂ s₃ : Sys} {l : Label}
  {t : JobType} {p ref : ℤ} {d d' : PoemDetail}

theorem Db.mem_assetRows {a : Asset t} :
    (ref, a) ∈ db.assetRows t p ↔ db.asset t ref = some a ∧ a.poemId = p := by
  rw [Db.assetRows, List.mem_insertionSort, List.mem_map]
  constructor
  · rintro ⟨⟨k, b⟩, he, hk⟩
    obtain ⟨rfl, rfl⟩ := Prod.mk.inj hk
    rw [List.mem_filter, ← AList.mem_lookup_iff, decide_eq_true_eq] at he
    exact he
  · rintro ⟨ha, hp⟩
    refine ⟨⟨ref, a⟩, ?_, rfl⟩
    rw [List.mem_filter, ← AList.mem_lookup_iff, decide_eq_true_eq]
    exact ⟨ha, hp⟩

theorem Db.nodup_assetRows (db : Db) (t : JobType) (p : ℤ) :
    ((db.assetRows t p).map Prod.fst).Nodup := by
  have hperm : (db.assetRows t p).Perm _ := List.perm_insertionSort _ _
  rw [(hperm.map Prod.fst).nodup_iff, List.map_map]
  exact (db.assets t).nodupKeys.sublist List.filter_sublist

/-- The rows of a poem are listed by their ids. -/
theorem Db.pairwise_assetRows (db : Db) (t : JobType) (p : ℤ) :
    (db.assetRows t p).Pairwise fun x y => x.1 < y.1 := by
  have hle : (db.assetRows t p).Pairwise fun x y => x.1 ≤ y.1 := List.pairwise_insertionSort _ _
  have hne : (db.assetRows t p).Pairwise fun x y => x.1 ≠ y.1 :=
    List.pairwise_map.1 (db.nodup_assetRows t p)
  exact (hle.and hne).imp fun h => lt_of_le_of_ne h.1 h.2

/-- Two databases with the same rows of a poem list them alike. -/
theorem Db.assetRows_congr
    (h : ∀ ref a, (ref, a) ∈ db.assetRows t p ↔ (ref, a) ∈ db'.assetRows t p) :
    db.assetRows t p = db'.assetRows t p := by
  have hperm : (db.assetRows t p).Perm (db'.assetRows t p) :=
    (List.perm_ext_iff_of_nodup (db.nodup_assetRows t p).of_map (db'.nodup_assetRows t p).of_map).2
      fun x => h x.1 x.2
  exact hperm.eq_of_pairwise (fun x y _ _ hxy hyx => absurd hyx hxy.not_gt)
    (db.pairwise_assetRows t p) (db'.pairwise_assetRows t p)

/-! ### Later states -/

/-- What a later state can have of the poems that are known now: the same row or none, and
while the row is there all the assets it has now and no others. -/
structure World.Later (w w' : World) : Prop where
  known : w.hist.poems ⊆ w'.hist.poems
  poem : ∀ {p row}, p ∈ w.hist.poems → w'.db.poem p = some row → w.db.poem p = some row
  asset : ∀ {t ref a'}, w'.db.asset t ref = some a' → a'.poemId ∈ w.hist.poems →
    ∃ a, w.db.asset t ref = some a ∧ a.poemId = a'.poemId
  kept : ∀ {t ref a}, w.db.asset t ref = some a → w'.db.poem a.poemId ≠ none →
    ∃ a', w'.db.asset t ref = some a' ∧ a'.poemId = a.poemId

theorem World.Later.refl (w : World) : w.Later w where
  known := List.Subset.refl _
  poem _ h := h
  asset h _ := ⟨_, h, rfl⟩
  kept h _ := ⟨_, h, rfl⟩

/-- A step changes no row of `poems` that it keeps. -/
theorem Moves.poem_back (h : Moves cfg s l s') (hs : s.Ok cfg) {row : Poem}
    (hp : p ∈ s.world.hist.poems) (hrow : s'.world.db.poem p = some row) :
    s.world.db.poem p = some row := by
  cases h with
  | persist hf hr =>
      rw [World.poem_persist] at hrow
      split_ifs at hrow with hc
      · exact absurd (hc ▸ hp) hf.1
      · exact hrow
  | push => exact (congrArg (Db.poem · p) (World.db_rpush ..)).symm.trans hrow
  | deleteOp hi hd =>
      cases hd with
      | commit =>
          unfold World.commit at hrow
          split_ifs at hrow
          · rw [Db.poem_deleteRows] at hrow
            split_ifs at hrow
            exact hrow
          · exact hrow
      | _ => exact hrow
  | worker hw =>
      rcases hw.db (hs.workers _) with hdb | ⟨session, db, hsession, hc, rfl⟩
      · exact hdb ▸ hrow
      · exact ((((hs.workers _).committing hsession).rewrites hc).poem p).symm.trans hrow
  | _ => exact hrow

/-- A step removes no asset of a poem that it keeps. -/
theorem Moves.asset_ne_none (h : Moves cfg s l s') (hs : s.Ok cfg) {a : Asset t}
    (ha : s.world.db.asset t ref = some a) (hp : s'.world.db.poem a.poemId ≠ none) :
    s'.world.db.asset t ref ≠ none := by
  have hsome : s.world.db.asset t ref ≠ none := ne_of_eq_of_ne ha (Option.some_ne_none _)
  cases h with
  | persist hf hr =>
      show (s.world.persist _ _).db.asset t ref ≠ none
      rw [World.asset_persist]
      split_ifs
      · exact Option.some_ne_none _
      · exact hsome
  | push => exact ne_of_eq_of_ne (congrArg (Db.asset · t ref) (World.db_rpush ..)) hsome
  | @deleteOp i r pc w next hi hd =>
      cases hd with
      | @commit q loaded =>
          -- what the call has loaded are the assets of its poem, and that one is gone
          have hloaded : LoadedOk s.world q loaded t := hs.deletes _ (List.mem_of_getElem? hi) t
          show (s.world.commit _ _).db.asset t ref ≠ none
          unfold World.commit at hp ⊢
          split_ifs at hp ⊢
          · have hq : a.poemId ≠ q := by
              rintro rfl
              exact hp ((Db.poem_deleteRows ..).trans (if_pos rfl))
            have hkeep := (Db.asset_deleteRows s.world.db q fun t => (loaded t).map Prod.fst).2
              ⟨ha, fun hmem => hq ((hloaded.exact ref a ha).1 hmem), hq⟩
            exact ne_of_eq_of_ne hkeep (Option.some_ne_none _)
          · exact hsome
      | _ => exact hsome
  | @worker u _ _ _ hw =>
      rcases hw.db (hs.workers _) with hdb | ⟨session, db, hsession, hc, rfl⟩
      · exact ne_of_eq_of_ne (congrArg (Db.asset · t ref) hdb) hsome
      · have hrw := ((hs.workers _).committing hsession).rewrites hc
        by_cases hu : t = u
        · subst hu
          show db.asset t ref ≠ none
          rw [hrw.asset]
          split_ifs with hi
          · rw [← hi, ha]
            exact Option.some_ne_none _
          · exact hsome
        · exact ne_of_eq_of_ne (hrw.other t hu ref) hsome
  | _ => exact hsome

/-- The asset belongs to the poem it belonged to. -/
theorem Moves.asset_kept (h : Moves cfg s l s') (hs : s.Ok cfg) {a : Asset t}
    (ha : s.world.db.asset t ref = some a) (hp : s'.world.db.poem a.poemId ≠ none) :
    ∃ a', s'.world.db.asset t ref = some a' ∧ a'.poemId = a.poemId := by
  obtain ⟨a', ha'⟩ := Option.ne_none_iff_exists'.1 (h.asset_ne_none hs ha hp)
  obtain ⟨id, job, hj, rfl, rfl⟩ := hs.rows.asset_job ha
  rcases (h.evolves hs).asset ha' with ⟨hnew, -⟩ | ⟨b, hb, hpoem⟩
  · exact absurd rfl (hnew _ (hs.rows.job_known hj))
  · exact ⟨a', ha', by rw [← hpoem, Option.some.inj (ha.symm.trans hb)]⟩

/-- **Step lemma.**  A step leads to a later state. -/
theorem World.Later.moves (hlater : w.Later s.world) (hw : w.RowsOk) (h : Moves cfg s l s')
    (hs : s.Ok cfg) : w.Later s'.world where
  known := List.Subset.trans hlater.known (h.evolves hs).poems
  poem hp hrow := hlater.poem hp (h.poem_back hs (hlater.known hp) hrow)
  asset ha hp := by
    rcases (h.evolves hs).asset ha with ⟨-, hnew⟩ | ⟨b, hb, hpoem⟩
    · exact absurd (hlater.known hp) hnew
    · obtain ⟨a, ha, hsame⟩ := hlater.asset hb (hpoem ▸ hp)
      exact ⟨a, ha, hsame.trans hpoem⟩
  kept ha hp := by
    have hknown := hlater.known (hw.poem_known (hw.asset_poem ha))
    obtain ⟨row, hrow⟩ := Option.ne_none_iff_exists'.1 hp
    obtain ⟨b, hb, hsame⟩ := hlater.kept ha
      (ne_of_eq_of_ne (h.poem_back hs hknown hrow) (Option.some_ne_none _))
    obtain ⟨a', ha', hsame'⟩ := h.asset_kept hs hb (hsame ▸ hp)
    exact ⟨a', ha', hsame'.trans hsame⟩

/-- **Run lemma.**  A run leads to a later state. -/
theorem later_of_run {ls : List Label} (hs : s.Ok cfg) (hr : run cfg s ls = some s') :
    s'.Ok cfg ∧ s.world.Later s'.world :=
  Runs.run_invariant (P := fun _ _ => True) (I := fun s' => s'.Ok cfg ∧ s.world.Later s'.world)
    (fun _ _ _ hI _ h =>
      ⟨(moves_of_step h).ok hI.1, hI.2.moves hs.rows (moves_of_step h) hI.1⟩)
    ⟨hs, .refl _⟩ (Runs.along_of_forall fun _ _ _ => trivial) hr

/-! ### The last answer -/

theorem isTerminal_value {st : AssetStatus} :
    isTerminal st.value = true ↔ st = .done ∨ st = .failed := by
  cases st <;> decide

theorem PoemDetail.statuses_detail (row : ℤ × Poem) (images : List (ℤ × Asset .image))
    (audios : List (ℤ × Asset .audio)) : (detail row images audios).statuses =
      images.map (fun x => x.2.status) ++ audios.map fun x => x.2.status := by
  rw [PoemDetail.statuses, detail, List.map_map, List.map_map]
  rfl

/-- The page stops polling at an answer whose assets are done or failed. -/
theorem PoemDetail.pending_view :
    d.view.pending = false ↔ ∀ st ∈ d.statuses, st = .done ∨ st = .failed := by
  have hview : d.view.images ++ d.view.audios = d.statuses.map AssetStatus.value := by
    rw [PoemDetail.statuses, List.map_append, List.map_map, List.map_map]
    rfl
  rw [PoemView.pending, hview, hasPendingAssets, List.any_eq_false]
  simp only [List.forall_mem_map, Bool.not_eq_true, Bool.not_eq_false', isTerminal_value]

theorem JobStatus.assetStatus_injective : Function.Injective JobStatus.assetStatus := by
  intro st st' h
  cases st <;> cases st' <;> first | rfl | cases h

/-- A settled asset stays as it is or goes, a failed one if no worker loads a failed job. -/
theorem settled_of_run {ls ls' : List Label} (hr : run cfg Sys.init ls = some s)
    (hr' : run cfg s ls' = some s') {a : Asset t} (ha : s.world.db.asset t ref = some a)
    (hst : a.status = .done ∨ a.status = .failed)
    (hload : a.status = .failed →
      Runs.Along (step cfg) (fun s l => s.loadsFailed l = false) Sys.init (ls ++ ls')) :
    ∀ b, s'.world.db.asset t ref = some b → b = a := by
  have hs := run_ok hr
  obtain ⟨id, job, hj, rfl, rfl⟩ := hs.rows.asset_job ha
  obtain ⟨a', ha', hagree⟩ := hs.rows.job_asset hj
  obtain rfl := Option.some.inj (ha'.symm.trans ha)
  have hfrozen : ∀ (_ : ∀ u, ¬ (s.workers u).Holds id)
      (_ : Runs.Along (step cfg) (fun s l => ∀ u, ¬ s.Loads l u id job) s ls'),
      ∀ b, s'.world.db.asset job.type job.refId = some b → b = a' := by
    intro held hload b hb
    rcases ((hs.frozen hj ha held).run hs hj hload hr').2 with ⟨-, hsame⟩ | ⟨-, hgone, -⟩
    · exact Option.some.inj (hb.symm.trans hsame)
    · exact absurd (hb.symm.trans hgone) (Option.some_ne_none _)
  rcases hst with hdone | hfailed
  · have hd : job.status = .done :=
      JobStatus.assetStatus_injective (hagree.status.symm.trans hdone)
    exact hfrozen (fun u hh => (hs.workers u).status_of_holds hh hj hd)
      (Runs.along_of_forall fun _ _ _ _ h => h.status hd)
  · have hf : job.status = .failed :=
      JobStatus.assetStatus_injective (hagree.status.symm.trans hfailed)
    obtain ⟨hbefore, hafter⟩ := (Runs.along_append hr).1 (hload hfailed)
    refine hfrozen
      (fun u => (hs.workers u).not_holds_failed (noneFailed_of_run hr hbefore u) hj hf)
      (hafter.mono fun s l hl u hu => ?_)
    rw [hu.loadsFailed hf] at hl
    cases hl

/-- The rows of a poem whose assets are settled are listed in the same way later. -/
theorem assetRows_of_run {ls ls' : List Label} (hr : run cfg Sys.init ls = some s)
    (hr' : run cfg s ls' = some s') (hp : p ∈ s.world.hist.poems) (hthere : s'.world.db.poem p ≠ none)
    (hsettled : ∀ x ∈ s.world.db.assetRows t p, x.2.status = .done ∨ x.2.status = .failed)
    (hload : (∃ x ∈ s.world.db.assetRows t p, x.2.status = .failed) →
      Runs.Along (step cfg) (fun s l => s.loadsFailed l = false) Sys.init (ls ++ ls')) :
    s'.world.db.assetRows t p = s.world.db.assetRows t p := by
  obtain ⟨-, hlater⟩ := later_of_run (run_ok hr) hr'
  have hsame : ∀ ref (a : Asset t), s.world.db.asset t ref = some a → a.poemId = p →
      ∀ b, s'.world.db.asset t ref = some b → b = a := by
    intro ref a ha hpoem
    have hmem := Db.mem_assetRows.2 ⟨ha, hpoem⟩
    exact settled_of_run hr hr' ha (hsettled _ hmem) fun hfailed => hload ⟨_, hmem, hfailed⟩
  refine Db.assetRows_congr fun ref a => ?_
  rw [Db.mem_assetRows, Db.mem_assetRows]
  constructor
  · rintro ⟨ha, hpoem⟩
    obtain ⟨b, hb, hpoem'⟩ := hlater.asset ha (hpoem ▸ hp)
    rw [hsame ref b hb (hpoem'.trans hpoem) a ha]
    exact ⟨hb, hpoem'.trans hpoem⟩
  · rintro ⟨ha, hpoem⟩
    obtain ⟨b, hb, -⟩ := hlater.kept ha (hpoem ▸ hthere)
    obtain rfl := hsame ref a ha hpoem b hb
    exact ⟨hb, hpoem⟩

/-! ### What was loaded is still there -/

/-- A row of `poems` that was loaded is still there, or the poem is gone. -/
def World.HasStill (w : World) (p : ℤ) (row : Poem) : Prop :=
  p ∈ w.hist.poems ∧ ∀ row', w.db.poem p = some row' → row' = row

/-- Assets that were loaded of a poem, and that are all settled, are the ones it has while it is
there.  Failed ones count if `keep`. -/
def World.ListsStill (w : World) (keep : Prop) (t : JobType) (p : ℤ) (rows : List (ℤ × Asset t)) :
    Prop :=
  (∀ x ∈ rows, x.2.status = .done ∨ x.2.status = .failed ∧ keep) → w.db.poem p ≠ none →
    w.db.assetRows t p = rows

/-- What is known of an answer for a poem. -/
def World.Answers (w : World) (keep : Prop) (p : ℤ) (d : PoemDetail) : Prop :=
  ∃ row images audios, d = detail (p, row) images audios ∧ w.HasStill p row ∧
    w.ListsStill keep .image p images ∧ w.ListsStill keep .audio p audios

/-- The system has come to `s`, and no worker has loaded a failed job if `keep`. -/
def Sys.Reached (cfg : Config) (keep : Prop) (s : Sys) : Prop :=
  ∃ ls, run cfg Sys.init ls = some s ∧
    (keep → Runs.Along (step cfg) (fun s l => s.loadsFailed l = false) Sys.init ls)

section Reached
variable {keep : Prop} {ls ls' : List Label}

theorem Sys.Reached.ok (h : s.Reached cfg keep) : s.Ok cfg := by
  obtain ⟨ls, hr, -⟩ := h
  exact run_ok hr

theorem World.Answers.id (h : w.Answers keep p d) : d.id = p := by
  obtain ⟨row, images, audios, rfl, -⟩ := h
  rfl

theorem World.Answers.self (h : w.Answers keep p d) : w.Answers keep d.id d := h.id.symm ▸ h

theorem World.RowsOk.hasStill {row : Poem} (hw : w.RowsOk) (h : w.db.poem p = some row) :
    w.HasStill p row :=
  ⟨hw.poem_known (ne_of_eq_of_ne h (Option.some_ne_none _)),
    fun _ h' => Option.some.inj (h'.symm.trans h)⟩

/-- What is loaded now is there now. -/
theorem World.listsStill_assetRows (w : World) (t : JobType) (p : ℤ) :
    w.ListsStill keep t p (w.db.assetRows t p) := fun _ _ => rfl

/-- The assets of an answer the page stops at are settled. -/
theorem settled_of_final {row : ℤ × Poem} {images : List (ℤ × Asset .image)}
    {audios : List (ℤ × Asset .audio)} (hfinal : (detail row images audios).view.pending = false)
    (hkeep : AssetStatus.failed ∈ (detail row images audios).statuses → keep) :
    (∀ x ∈ images, x.2.status = .done ∨ x.2.status = .failed ∧ keep) ∧
      ∀ x ∈ audios, x.2.status = .done ∨ x.2.status = .failed ∧ keep := by
  have hsettled : ∀ st ∈ (detail row images audios).statuses, st = .done ∨ st = .failed ∧ keep :=
    fun st hst => (PoemDetail.pending_view.1 hfinal st hst).imp_right fun hfailed =>
      ⟨hfailed, hkeep (hfailed ▸ hst)⟩
  rw [PoemDetail.statuses_detail] at hsettled
  exact ⟨fun x hx => hsettled _ (List.mem_append_left _ (List.mem_map_of_mem hx)),
    fun x hx => hsettled _ (List.mem_append_right _ (List.mem_map_of_mem hx))⟩

section Run
variable (h : s.Reached cfg keep)
  (hl : keep → Runs.Along (step cfg) (fun s l => s.loadsFailed l = false) s ls)
  (hr : run cfg s ls = some s')
include h hr

theorem Sys.Reached.later : s.world.Later s'.world := (later_of_run h.ok hr).2

theorem World.HasStill.after {row : Poem} (hrow : s.world.HasStill p row) : s'.world.HasStill p row :=
  ⟨(h.later hr).known hrow.1, fun row' hrow' => hrow.2 row' ((h.later hr).poem hrow.1 hrow')⟩

/-- A poem that is there was there. -/
theorem Sys.Reached.there (hp : p ∈ s.world.hist.poems) (hthere : s'.world.db.poem p ≠ none) :
    s.world.db.poem p ≠ none := by
  obtain ⟨row, hrow⟩ := Option.ne_none_iff_exists'.1 hthere
  exact ne_of_eq_of_ne ((h.later hr).poem hp hrow) (Option.some_ne_none row)

include hl

theorem Sys.Reached.after : s'.Reached cfg keep := by
  obtain ⟨ls₀, hr₀, hload⟩ := h
  exact ⟨ls₀ ++ ls, Runs.run_append_eq_some.2 ⟨s, hr₀, hr⟩,
    fun hkeep => (Runs.along_append hr₀).2 ⟨hload hkeep, hl hkeep⟩⟩

theorem World.ListsStill.after {rows : List (ℤ × Asset t)} (hrows : s.world.ListsStill keep t p rows)
    (hp : p ∈ s.world.hist.poems) : s'.world.ListsStill keep t p rows := by
  intro hsettled hthere
  obtain rfl := hrows hsettled (h.there hr hp hthere)
  obtain ⟨ls₀, hr₀, hload⟩ := h
  refine assetRows_of_run hr₀ hr hp hthere (fun x hx => (hsettled x hx).imp_right And.left) ?_
  rintro ⟨x, hx, hfailed⟩
  rcases hsettled x hx with hdone | ⟨-, hkeep⟩
  · exact absurd (hdone.symm.trans hfailed) nofun
  · exact (Runs.along_append hr₀).2 ⟨hload hkeep, hl hkeep⟩

theorem World.Answers.after (hd : s.world.Answers keep p d) : s'.world.Answers keep p d := by
  obtain ⟨row, images, audios, rfl, hrow, himages, haudios⟩ := hd
  exact ⟨row, images, audios, rfl, hrow.after h hr, himages.after h hl hr hrow.1,
    haudios.after h hl hr hrow.1⟩

end Run

theorem Reads.run {answer : Option PoemDetail} (h : Reads cfg s ls s' p answer) :
    run cfg s ls = some s' := by
  obtain ⟨ls₁, ls₂, m, rfl, hr₁, hr₂, -⟩ := h
  exact Runs.run_append_eq_some.2 ⟨m, hr₁, hr₂⟩

/-- What three queries put together. -/
theorem Reads.answers (hd : Reads cfg s ls s' p (some d)) (h : s.Reached cfg keep)
    (hl : keep → Runs.Along (step cfg) (fun s l => s.loadsFailed l = false) s ls) :
    s'.world.Answers keep p d := by
  obtain ⟨l₁, l₂, m, rfl, hr₁, hr₂, he⟩ := hd
  obtain ⟨row, hrow, rfl⟩ := Option.map_eq_some_iff.1 he.symm
  have hm := h.after (fun hkeep => ((Runs.along_append hr₁).1 (hl hkeep)).1) hr₁
  have hhas := (h.ok.rows.hasStill hrow).after h hr₁
  exact ⟨row, _, _, rfl, hhas.after hm hr₂, (m.world.listsStill_assetRows .image p).after hm
    (fun hkeep => ((Runs.along_append hr₁).1 (hl hkeep)).2) hr₂ hhas.1,
    s'.world.listsStill_assetRows .audio p⟩

/-- **Every later answer** is the one that shows no asset that is being produced. -/
theorem World.Answers.eq_of_reads (hd : s.world.Answers keep p d) (h : s.Reached cfg keep)
    (hfinal : d.view.pending = false) (hkeep : AssetStatus.failed ∈ d.statuses → keep)
    (hr : run cfg s ls = some s₁)
    (hl : keep → Runs.Along (step cfg) (fun s l => s.loadsFailed l = false) s (ls ++ ls'))
    (hd' : Reads cfg s₁ ls' s₂ p (some d')) (hthere : s₂.world.db.poem p ≠ none) : d' = d := by
  obtain ⟨l₁, l₂, m, rfl, hr₁, hr₂, he⟩ := hd'
  obtain ⟨row', hrow', rfl⟩ := Option.map_eq_some_iff.1 he.symm
  obtain ⟨row, images, audios, rfl, hrow, himages, haudios⟩ := hd
  obtain ⟨hsi, hsa⟩ := settled_of_final hfinal hkeep
  have hm : run cfg s (ls ++ l₁) = some m := Runs.run_append_eq_some.2 ⟨s₁, hr, hr₁⟩
  have hs₂ : run cfg s (ls ++ (l₁ ++ l₂)) = some s₂ :=
    Runs.run_append_eq_some.2 ⟨s₁, hr, Runs.run_append_eq_some.2 ⟨m, hr₁, hr₂⟩⟩
  have hlm : keep → Runs.Along (step cfg) (fun s l => s.loadsFailed l = false) s (ls ++ l₁) := by
    intro hkeep
    have hl := hl hkeep
    rw [← List.append_assoc] at hl
    exact ((Runs.along_append hm).1 hl).1
  have hthere' : m.world.db.poem p ≠ none :=
    (h.after hlm hm).there hr₂ (hrow.after h hm).1 hthere
  rw [(hrow.after h hr).2 row' hrow', himages.after h hlm hm hrow.1 hsi hthere',
    haudios.after h hl hs₂ hrow.1 hsa hthere]

/-- It is the answer now. -/
theorem World.Answers.final (hd : s.world.Answers keep p d) (h : s.Reached cfg keep)
    (hfinal : d.view.pending = false) (hkeep : AssetStatus.failed ∈ d.statuses → keep)
    (hthere : s.world.db.poem p ≠ none) :
    readPoem s.world.db s.world.db s.world.db p = some d := by
  obtain ⟨row, hrow⟩ := Option.ne_none_iff_exists'.1 hthere
  have hread := congrArg (Option.map fun poem =>
    detail (p, poem) (s.world.db.assetRows .image p) (s.world.db.assetRows .audio p)) hrow
  have hrun : run cfg s [] = some s := rfl
  have hreads : Reads cfg s [] s p (some _) := ⟨[], [], s, rfl, hrun, hrun, hread.symm⟩
  have halong : keep → Runs.Along (step cfg) (fun s l => s.loadsFailed l = false) s ([] ++ []) :=
    fun _ => trivial
  exact hread.trans (congrArg some
    (hd.eq_of_reads h hfinal hkeep hrun halong hreads hthere))

end Reached

/-- **The answer the page stops at is the last one.**  Once a request is answered without an
asset that is being produced, every later request that finds the poem, and after which it is
still there, has the same answer.  If one of its assets is failed, this needs that no worker
takes up a failed job. -/
theorem detail_final_of_run {ls l ls' l' : List Label} (hr : run cfg Sys.init ls = some s)
    (hd : Reads cfg s l s₁ p (some d)) (hfinal : d.view.pending = false)
    (hload : AssetStatus.failed ∈ d.statuses → Runs.Along (step cfg)
      (fun s l => s.loadsFailed l = false) Sys.init (ls ++ l ++ ls' ++ l'))
    (hr' : run cfg s₁ ls' = some s₂) (hd' : Reads cfg s₂ l' s₃ p (some d')) :
    d' = d ∨ s₃.world.db.poem p = none := by
  refine or_iff_not_imp_right.2 fun hthere => ?_
  have hs₁ := Runs.run_append_eq_some.2 ⟨s, hr, hd.run⟩
  have halong : AssetStatus.failed ∈ d.statuses →
      Runs.Along (step cfg) (fun s l => s.loadsFailed l = false) Sys.init ls ∧
      Runs.Along (step cfg) (fun s l => s.loadsFailed l = false) s l ∧
      Runs.Along (step cfg) (fun s l => s.loadsFailed l = false) s₁ (ls' ++ l') := by
    intro hfailed
    have hall := hload hfailed
    rw [List.append_assoc, Runs.along_append hs₁, Runs.along_append hr, and_assoc] at hall
    exact hall
  have hs : s.Reached cfg (AssetStatus.failed ∈ d.statuses) :=
    ⟨ls, hr, fun hfailed => (halong hfailed).1⟩
  have hl := fun hfailed => (halong hfailed).2.1
  exact (hd.answers hs hl).eq_of_reads (hs.after hl hd.run) hfinal id hr'
    (fun hfailed => (halong hfailed).2.2) hd' hthere

namespace Sample

/-- A poem with an image only, which is made. -/
def pictured : List Label :=
  [.persist { args with generateAudio := false } ids .ok, .push 0 .ok, act .start, ok, ok, ok,
    act (.rows [1]), ok, ok, ok, ok, act (.returns "/data/images/1_a.png".toList attrs []), ok]

end Sample

/-- The id is acknowledged while the first request is answered, and a pass follows. -/
theorem detail_final_pictured : ∃ s s₁ s₂ d d', run (Sample.config 1) Sys.init Sample.pictured = some s ∧
    Reads (Sample.config 1) s [Sample.ok] s₁ 1 (some d) ∧ d.statuses = [.done] ∧
    run (Sample.config 1) s₁ [Sample.act (.due true), Sample.ok] = some s₂ ∧
    Reads (Sample.config 1) s₂ [] s₂ 1 (some d') ∧ (d' = d ∨ s₂.world.db.poem 1 = none) := by
  have hrun : ∃ s s₁ s₂ d d', run (Sample.config 1) Sys.init Sample.pictured = some s ∧
      Reads (Sample.config 1) s [Sample.ok] s₁ 1 (some d) ∧ d.statuses = [.done] ∧
      d.view.pending = false ∧
      run (Sample.config 1) s₁ [Sample.act (.due true), Sample.ok] = some s₂ ∧
      Reads (Sample.config 1) s₂ [] s₂ 1 (some d') :=
    ⟨_, _, _, _, _, rfl, ⟨[Sample.ok], [], _, rfl, rfl, rfl, rfl⟩, rfl, rfl, rfl,
      ⟨[], [], _, rfl, rfl, rfl, rfl⟩⟩
  obtain ⟨s, s₁, s₂, d, d', hr, hd, hst, hfinal, hr', hd'⟩ := hrun
  refine ⟨s, s₁, s₂, d, d', hr, hd, hst, hr', hd', detail_final_of_run hr hd hfinal ?_ hr' hd'⟩
  rw [hst]
  exact fun h => absurd h (by decide)

/-! ### An answer in one state -/

/-- A poem has no two assets of a type. -/
def World.Single (w : World) : Prop :=
  ∀ t ref ref' (a a' : Asset t), w.db.asset t ref = some a → w.db.asset t ref' = some a' →
    a.poemId = a'.poemId → ref = ref'

/-- Poems become known in `persist_poem` only. -/
theorem Moves.persist_cases (h : Moves cfg s l s') (hs : s.Ok cfg) :
    (∃ a ids r, l = .persist a ids r ∧ r.takesEffect = true ∧ s.world.hist.Fresh ids ∧
      s'.world = s.world.persist a ids) ∨ s'.world.hist.poems = s.world.hist.poems := by
  cases h with
  | persist hf hr => exact .inl ⟨_, _, _, rfl, hr, hf, rfl⟩
  | push => exact .inr (World.poems_rpush ..)
  | deleteOp hi hd =>
      obtain ⟨-, hhist, -⟩ := hd.ok hs.rows (hs.deletes _ (List.mem_of_getElem? hi))
      exact .inr (congrArg History.poems hhist)
  | worker hw => exact .inr (hw.hist (hs.workers _)).1
  | _ => exact .inr rfl

/-- **Step lemma.**  Only `persist_poem` adds assets, one of a type for a new poem. -/
theorem Moves.single (h : Moves cfg s l s') (hs : s.Ok cfg) (hsingle : s.world.Single) :
    s'.world.Single := by
  intro t ref ref' a a' ha ha' hpoem
  rcases h.persist_cases hs with ⟨b, ids, -, -, -, hf, hw⟩ | hpoems
  · have hold : ∀ {ref : ℤ} {a : Asset t}, s.world.db.asset t ref = some a → a.poemId ≠ ids.poem :=
      fun ha he => hf.1 (he ▸ hs.rows.poem_known (hs.rows.asset_poem ha))
    rw [hw, World.asset_persist] at ha ha'
    split_ifs at ha ha' with hnew hnew' hnew'
    · exact hnew.2.trans hnew'.2.symm
    · obtain rfl := Option.some.inj ha
      exact absurd hpoem.symm (hold ha')
    · obtain rfl := Option.some.inj ha'
      exact absurd hpoem (hold ha)
    · exact hsingle t ref ref' a a' ha ha' hpoem
  · have hold : ∀ {ref : ℤ} {a : Asset t}, s'.world.db.asset t ref = some a →
        ∃ b, s.world.db.asset t ref = some b ∧ b.poemId = a.poemId := by
      intro ref a ha
      rcases (h.evolves hs).asset ha with ⟨-, hnew⟩ | hold
      · have hrows := h.rowsOk hs
        exact absurd (hpoems ▸ hrows.poem_known (hrows.asset_poem ha)) hnew
      · exact hold
    obtain ⟨b, hb, hsame⟩ := hold ha
    obtain ⟨b', hb', hsame'⟩ := hold ha'
    exact hsingle t ref ref' b b' hb hb' (hsame.trans (hpoem.trans hsame'.symm))

/-- **Run lemma.** -/
theorem single_of_run {ls : List Label} (hr : run cfg Sys.init ls = some s) :
    s.Ok cfg ∧ s.world.Single :=
  Runs.run_invariant (P := fun _ _ => True) (I := fun s => s.Ok cfg ∧ s.world.Single)
    (fun _ _ _ hI _ h => ⟨(moves_of_step h).ok hI.1, (moves_of_step h).single hI.1 hI.2⟩)
    ⟨Sys.ok_init, fun _ _ _ _ _ h => by cases h⟩ (Runs.along_of_forall fun _ _ _ => trivial) hr

theorem World.Single.length_assetRows (h : w.Single) (t : JobType) (p : ℤ) :
    (w.db.assetRows t p).length ≤ 1 := by
  match hrows : w.db.assetRows t p with
  | [] => exact Nat.zero_le 1
  | [_] => exact le_rfl
  | x :: y :: rest =>
      have hx : (x.1, x.2) ∈ w.db.assetRows t p := hrows ▸ List.mem_cons_self ..
      have hy : (y.1, y.2) ∈ w.db.assetRows t p :=
        hrows ▸ List.mem_cons_of_mem _ (List.mem_cons_self ..)
      obtain ⟨hx, hxp⟩ := Db.mem_assetRows.1 hx
      obtain ⟨hy, hyp⟩ := Db.mem_assetRows.1 hy
      have hlt := (List.pairwise_cons.1 (hrows ▸ w.db.pairwise_assetRows t p)).1 y
        (List.mem_cons_self ..)
      exact absurd (h t x.1 y.1 x.2 y.2 hx hy (hxp.trans hyp.symm)) hlt.ne

/-- The statuses of an answer are those of the poem's assets. -/
theorem mem_statuses_detail {row : ℤ × Poem} {st : AssetStatus} :
    st ∈ (detail row (db.assetRows .image p) (db.assetRows .audio p)).statuses ↔
      ∃ t ref, ∃ a : Asset t, db.asset t ref = some a ∧ a.poemId = p ∧ a.status = st := by
  have hrows : ∀ t, st ∈ (db.assetRows t p).map (fun x => x.2.status) ↔
      ∃ ref, ∃ a : Asset t, db.asset t ref = some a ∧ a.poemId = p ∧ a.status = st := by
    intro t
    simp only [List.mem_map, Prod.exists, Db.mem_assetRows, and_assoc]
  rw [PoemDetail.statuses_detail, List.mem_append, hrows, hrows]
  constructor
  · rintro (h | h)
    · exact ⟨.image, h⟩
    · exact ⟨.audio, h⟩
  · rintro ⟨t, h⟩
    cases t
    · exact .inl h
    · exact .inr h

theorem JobStatus.open_iff (st : JobStatus) :
    st = .queued ∨ st = .running ↔ ¬ (st.assetStatus = .done ∨ st.assetStatus = .failed) := by
  cases st <;> decide

/-- **The page asks again exactly while a job is open.** -/
theorem World.RowsOk.pending_iff (hw : w.RowsOk) {row : ℤ × Poem} :
    (detail row (w.db.assetRows .image p) (w.db.assetRows .audio p)).view.pending = true ↔
      ∃ id job, w.db.job id = some job ∧ (job.status = .queued ∨ job.status = .running) ∧
        ∃ a, w.db.asset job.type job.refId = some a ∧ a.poemId = p := by
  rw [← Bool.not_eq_false, not_congr PoemDetail.pending_view]
  push Not
  constructor
  · rintro ⟨st, hst, hopen⟩
    obtain ⟨t, ref, a, ha, hpoem, rfl⟩ := mem_statuses_detail.1 hst
    obtain ⟨id, job, hj, rfl, rfl⟩ := hw.asset_job ha
    obtain ⟨a', ha', hagree⟩ := hw.job_asset hj
    obtain rfl := Option.some.inj (ha'.symm.trans ha)
    refine ⟨id, job, hj, job.status.open_iff.2 ?_, a', ha, hpoem⟩
    rw [← hagree.status, not_or]
    exact hopen
  · rintro ⟨id, job, hj, hopen, a, ha, hpoem⟩
    obtain ⟨a', ha', hagree⟩ := hw.job_asset hj
    obtain rfl := Option.some.inj (ha'.symm.trans ha)
    refine ⟨_, mem_statuses_detail.2 ⟨_, _, a', ha, hpoem, rfl⟩, ?_⟩
    rw [← not_or, hagree.status]
    exact job.status.open_iff.1 hopen

/-- A list shows of a poem what its own answer begins with. -/
theorem summary_of_listPoems {limit offset : ℕ} {character : Option Str} {answer : List PoemSummary}
    (hd : readPoem db db db p = some d) (h : listPoems db limit offset character = some answer)
    {x : PoemSummary} (hx : x ∈ answer) (hid : x.id = p) : x = d.toPoemSummary := by
  obtain ⟨row, hrow, rfl⟩ := Option.map_eq_some_iff.1 hd
  rw [listPoems] at h
  split_ifs at h
  obtain rfl := Option.some.inj h
  obtain ⟨⟨k, poem⟩, hk, rfl⟩ := List.mem_map.1 hx
  obtain rfl : k = p := hid
  have hmem : (k, poem) ∈ db.matching character := (List.drop_subset _ _) ((List.take_subset _ _) hk)
  rw [Db.matching, List.mem_insertionSort, List.mem_map] at hmem
  obtain ⟨⟨_, _⟩, he, heq⟩ := hmem
  obtain ⟨rfl, rfl⟩ := Prod.mk.inj heq
  have hpoem := AList.mem_lookup_iff.2 (List.mem_filter.1 he).1
  obtain rfl := Option.some.inj (hpoem.symm.trans hrow)
  rfl

/-- **One answer.**  In every reachable state the answer for a poem has at most one image and
one audio, with a path exactly when it is done; the page asks for another exactly while a job
of the poem is queued or running; and every list that shows the poem agrees with it. -/
theorem detail_of_run {ls : List Label} (hr : run cfg Sys.init ls = some s)
    (hd : readPoem s.world.db s.world.db s.world.db p = some d) :
    d.images.length ≤ 1 ∧ d.audios.length ≤ 1 ∧
    (∀ x ∈ d.images, x.path.isSome ↔ x.status = .done) ∧
    (∀ x ∈ d.audios, x.path.isSome ↔ x.status = .done) ∧
    (d.view.pending = true ↔ ∃ id job, s.world.db.job id = some job ∧
      (job.status = .queued ∨ job.status = .running) ∧
        ∃ a, s.world.db.asset job.type job.refId = some a ∧ a.poemId = p) ∧
    ∀ limit offset character answer, listPoems s.world.db limit offset character = some answer →
      ∀ x ∈ answer, x.id = p → x = d.toPoemSummary := by
  obtain ⟨hs, hsingle⟩ := single_of_run hr
  have hpath : ∀ t ref (a : Asset t), (ref, a) ∈ s.world.db.assetRows t p →
      (a.path.isSome ↔ a.status = .done) := by
    intro t ref a hmem
    obtain ⟨ha, -⟩ := Db.mem_assetRows.1 hmem
    obtain ⟨id, job, hj, rfl, rfl⟩ := hs.rows.asset_job ha
    obtain ⟨a', ha', hagree⟩ := hs.rows.job_asset hj
    exact Option.some.inj (ha'.symm.trans ha) ▸ hagree.path
  obtain ⟨row, hrow, rfl⟩ := Option.map_eq_some_iff.1 hd
  refine ⟨(List.length_map ..).trans_le (hsingle.length_assetRows ..),
    (List.length_map ..).trans_le (hsingle.length_assetRows ..), ?_, ?_, hs.rows.pending_iff,
    fun _ _ _ _ h _ hx hid => summary_of_listPoems hd h hx hid⟩
  · intro x hx
    obtain ⟨⟨ref, a⟩, hmem, rfl⟩ := List.mem_map.1 hx
    exact hpath .image ref a hmem
  · intro x hx
    obtain ⟨⟨ref, a⟩, hmem, rfl⟩ := List.mem_map.1 hx
    exact hpath .audio ref a hmem

/-- While the image of a poem is being drawn and its audio waits, the page asks again. -/
theorem detail_of_run_called : ∃ s d, run (Sample.config 1) Sys.init Sample.called = some s ∧
    readPoem s.world.db s.world.db s.world.db 1 = some d ∧ d.statuses = [.running, .pending] ∧
    d.images.length ≤ 1 ∧ d.audios.length ≤ 1 ∧
    (d.view.pending = true ↔ ∃ id job, s.world.db.job id = some job ∧
      (job.status = .queued ∨ job.status = .running) ∧
        ∃ a, s.world.db.asset job.type job.refId = some a ∧ a.poemId = 1) := by
  have hrun : ∃ s d, run (Sample.config 1) Sys.init Sample.called = some s ∧
      readPoem s.world.db s.world.db s.world.db 1 = some d ∧ d.statuses = [.running, .pending] :=
    ⟨_, _, rfl, rfl, rfl⟩
  obtain ⟨s, d, hr, hd, hst⟩ := hrun
  obtain ⟨himages, haudios, -, -, hpending, -⟩ := detail_of_run hr hd
  exact ⟨s, d, hr, hd, hst, himages, haudios, hpending⟩

end PoetryGenerator
