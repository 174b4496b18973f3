/-
# The statistics (`get_stats`, `GET /api/stats`)

`get_stats` counts the poems, then the poems of each character, then the images and the
audios of each status, in four queries that each see what is committed when they run.

The numbers of one query are those of the state it runs in: the poems of a character are
those the list goes through, and the assets of a status stand for the jobs of the type
that are queued, running, done or failed (`count_assets`).  Numbers of different queries
fit together as long as no poem is added in between (`stats_of_run`).
-/

import PoetryGenerator.Lib.Grouping
import PoetryGenerator.PoemReads
import PoetryGenerator.WorkerCommon

namespace PoetryGenerator

/-- What `get_stats` returns. -/
structure Stats where
  totalPoems : ℕ
  byCharacter : Table Str ℕ
  assets : JobType → Table AssetStatus ℕ

/-- `SELECT count(*) FROM poems`. -/
def Db.countPoems (db : Db) : ℕ := db.poems.entries.length

/-- `SELECT character, count(*) FROM poems GROUP BY character`. -/
def Db.countByCharacter (db : Db) : Table Str ℕ :=
  Table.groupCount (fun e => e.2.character) db.poems.entries

/-- `SELECT status, count(*) FROM images GROUP BY status`, and of `audios`. -/
def Db.countByStatus (db : Db) (t : JobType) : Table AssetStatus ℕ :=
  Table.groupCount (fun e => e.2.status) (db.assets t).entries

/-- `get_stats`, of what is committed when each of its queries runs. -/
def getStats (dbTotal dbCharacters dbImages dbAudios : Db) : Stats :=
  { totalPoems := dbTotal.countPoems
    byCharacter := dbCharacters.countByCharacter
    assets := fun
      | .image => dbImages.countByStatus .image
      | .audio => dbAudios.countByStatus .audio }

/-- The step is no commit of `persist_poem` that takes effect. -/
def Label.addsNone : Label → Bool
  | .persist _ _ r => !r.takesEffect
  | _ => true

/-- The step is no commit of `delete_poem` that takes effect. -/
def Sys.removesNone (s : Sys) : Label → Bool
  | .deleteOp i r =>
    match s.deletes[i]? with
    | some (.commit ..) => !r.takesEffect
    | _ => true
  | _ => true

variable {cfg : Config} {w : World} {s s' s₁ s₂ s₃ : Sys} {l : Label} {t : JobType} {p : ℤ}

/-! ### One query -/

/-- The poems of a character are those that the list of the character goes through. -/
theorem count_character (db : Db) {c : Str} (hc : c ≠ []) :
    (db.countByCharacter.lookup c).getD 0 = (db.matchingIds (some c)).length := by
  rw [Db.countByCharacter, Table.getD_groupCount, Table.count_eq_length_selectKeys,
    Table.selectKeys, List.keys, List.length_map, Db.matchingIds, Db.matching, List.length_map,
    List.length_insertionSort, List.length_map]
  refine congrArg List.length (List.filter_congr fun e _ => ?_)
  rw [Poem.matches, Option.getD_some, decide_eq_false hc, Bool.false_or]

/-- **Assets are counted like jobs**: as many have the status next to a job status as jobs of
the type have that one. -/
theorem World.RowsOk.count_assets (hw : w.RowsOk) (t : JobType) (st : JobStatus) :
    ((w.db.countByStatus t).lookup st.assetStatus).getD 0 = (w.db.jobIds t [st]).length := by
  rw [Db.countByStatus, Table.getD_groupCount, Table.count_eq_length_selectKeys]
  refine (Table.length_selectKeys_eq (fun id => (w.db.job id).elim 0 Job.refId) ?_ ?_ ?_).symm
  · intro id hid
    obtain ⟨job, hj, rfl, hst⟩ := Db.mem_jobIds.1 hid
    obtain ⟨a, ha, hagree⟩ := hw.job_asset hj
    refine Table.mem_selectKeys.2 ⟨a, ?_, decide_eq_true ?_⟩
    · rw [hj]
      exact ha
    · rw [hagree.status, List.mem_singleton.1 hst]
  · intro id hid id' hid' heq
    obtain ⟨job, hj, rfl, -⟩ := Db.mem_jobIds.1 hid
    obtain ⟨job', hj', htype, -⟩ := Db.mem_jobIds.1 hid'
    have href : job.refId = job'.refId := by simpa only [hj, hj', Option.elim_some] using heq
    exact (hw.job_unique (hw.job_known hj) hj' htype href.symm).symm
  · intro ref href
    obtain ⟨a, ha, hst⟩ := Table.mem_selectKeys.1 href
    obtain ⟨id, job, hj, rfl, rfl⟩ := hw.asset_job ha
    obtain ⟨a', ha', hagree⟩ := hw.job_asset hj
    obtain rfl := Option.some.inj (ha'.symm.trans ha)
    refine ⟨id, Db.mem_jobIds.2 ⟨job, hj, rfl, List.mem_singleton.2 ?_⟩, by rw [hj]; rfl⟩
    exact JobStatus.assetStatus_injective (hagree.status.symm.trans (of_decide_eq_true hst))

/-- There are as many assets of a type as poems at most. -/
theorem World.Single.total_le (h : w.Single) (hw : w.RowsOk) (t : JobType) :
    (w.db.countByStatus t).total ≤ w.db.countPoems := by
  rw [Db.countByStatus, Table.total_groupCount, Db.countPoems]
  have hnodup : ((w.db.assets t).entries.map fun e => e.2.poemId).Nodup := by
    refine List.Nodup.map_on ?_ (w.db.assets t).nodupKeys.nodup
    rintro ⟨ref, a⟩ hmem ⟨ref', a'⟩ hmem' hpoem
    have ha := AList.mem_lookup_iff.2 hmem
    have ha' := AList.mem_lookup_iff.2 hmem'
    obtain rfl := h t ref ref' a a' ha ha' hpoem
    rw [Option.some.inj (ha.symm.trans ha')]
  have hsub : ((w.db.assets t).entries.map fun e => e.2.poemId) ⊆ w.db.poems.entries.keys := by
    intro p hp
    obtain ⟨⟨ref, a⟩, hmem, rfl⟩ := List.mem_map.1 hp
    exact AList.lookup_isSome.1 (Option.isSome_iff_ne_none.2
      (hw.asset_poem (AList.mem_lookup_iff.2 hmem)))
  have hle := (hnodup.subperm hsub).length_le
  rwa [List.length_map, List.keys, List.length_map] at hle

/-! ### Between the queries -/

/-- Without new poems every poem was there before. -/
theorem poem_of_run {ls : List Label} (hs : s.Ok cfg) (hr : run cfg s ls = some s')
    (hadds : ∀ l ∈ ls, l.addsNone = true) (hp : s'.world.db.poem p ≠ none) :
    s.world.db.poem p ≠ none := by
  have hknown : s'.world.hist.poems = s.world.hist.poems := by
    refine (Runs.run_invariant (P := fun _ l => l.addsNone = true)
      (I := fun s' => s'.Ok cfg ∧ s'.world.hist.poems = s.world.hist.poems)
      (fun _ l _ hI hl h => ⟨(moves_of_step h).ok hI.1, ?_⟩) ⟨hs, rfl⟩
      (Runs.along_of_forall fun _ => hadds) hr).2
    rcases (moves_of_step h).persist_cases hI.1 with ⟨a, ids, r, rfl, hr, -⟩ | hsame
    · simp only [Label.addsNone, hr, Bool.not_true, Bool.false_eq_true] at hl
    · exact hsame.trans hI.2
  obtain ⟨hs', hlater⟩ := later_of_run hs hr
  obtain ⟨row, hrow⟩ := Option.ne_none_iff_exists'.1 hp
  have hback := hlater.poem (hknown ▸ hs'.rows.poem_known hp) hrow
  exact ne_of_eq_of_ne hback (Option.some_ne_none _)

/-- Poems are removed by `delete_poem` only. -/
theorem Moves.poem_stays (h : Moves cfg s l s') (hs : s.Ok cfg) (hl : s.removesNone l = true)
    (hp : s.world.db.poem p ≠ none) : s'.world.db.poem p ≠ none := by
  cases h with
  | persist hf hr =>
      show (s.world.persist _ _).db.poem p ≠ none
      rw [World.poem_persist]
      split_ifs
      · exact Option.some_ne_none _
      · exact hp
  | push => exact ne_of_eq_of_ne (congrArg (Db.poem · p) (World.db_rpush ..)) hp
  | @deleteOp i r _ _ _ hi hd =>
      cases hd with
      | commit =>
          have hr : r.takesEffect = false := by
            simpa only [Sys.removesNone, hi, Bool.not_eq_true'] using hl
          exact (World.commit_eq_self s.world r _ hr).symm ▸ hp
      | _ => exact hp
  | worker hw =>
      rcases hw.db (hs.workers _) with hdb | ⟨session, db, hsession, hc, rfl⟩
      · exact ne_of_eq_of_ne (congrArg (Db.poem · p) hdb) hp
      · exact ne_of_eq_of_ne ((((hs.workers _).committing hsession).rewrites hc).poem p) hp
  | _ => exact hp

theorem poem_stays_of_run {ls : List Label} (hs : s.Ok cfg) (hr : run cfg s ls = some s')
    (hremoves : Runs.Along (step cfg) (fun s l => s.removesNone l = true) s ls)
    (hp : s.world.db.poem p ≠ none) : s'.world.db.poem p ≠ none :=
  (Runs.run_invariant (P := fun s l => s.removesNone l = true)
    (I := fun s => s.Ok cfg ∧ s.world.db.poem p ≠ none)
    (fun _ _ _ hI hl h => ⟨(moves_of_step h).ok hI.1, (moves_of_step h).poem_stays hI.1 hl hI.2⟩)
    ⟨hs, hp⟩ hremoves hr).2

theorem countPoems_le {db db' : Db} (h : ∀ p, db.poem p ≠ none → db'.poem p ≠ none) :
    db.countPoems ≤ db'.countPoems := by
  have hsub : db.poems.entries.keys ⊆ db'.poems.entries.keys := fun p hp =>
    AList.lookup_isSome.1 (Option.isSome_iff_ne_none.2
      (h p (Option.isSome_iff_ne_none.1 (AList.lookup_isSome.2 hp))))
  have hle := (db.poems.nodupKeys.subperm hsub).length_le
  rwa [List.keys, List.length_map, List.length_map] at hle

/-- **The statistics.**  In every run the poems of a character are as many as its list goes
through, and the assets of a status as many as the jobs of the type with the status next to
it.  If no poem is added between the queries, the characters, the images and the audios are
each not more than the poems; and if none is removed either before the second query, the
characters add up to the poems. -/
theorem stats_of_run {ls l₁ l₂ l₃ : List Label} (hr : run cfg Sys.init ls = some s)
    (hr₁ : run cfg s l₁ = some s₁) (hr₂ : run cfg s₁ l₂ = some s₂)
    (hr₃ : run cfg s₂ l₃ = some s₃) {st : Stats}
    (hst : st = getStats s.world.db s₁.world.db s₂.world.db s₃.world.db) :
    (∀ c, c ≠ [] →
      (st.byCharacter.lookup c).getD 0 = (s₁.world.db.matchingIds (some c)).length) ∧
    (∀ js : JobStatus,
      ((st.assets .image).lookup js.assetStatus).getD 0 = (s₂.world.db.jobIds .image [js]).length ∧
      ((st.assets .audio).lookup js.assetStatus).getD 0 = (s₃.world.db.jobIds .audio [js]).length) ∧
    ((∀ l ∈ l₁ ++ l₂ ++ l₃, l.addsNone = true) →
      st.byCharacter.total ≤ st.totalPoems ∧ ∀ t, (st.assets t).total ≤ st.totalPoems) ∧
    ((∀ l ∈ l₁, l.addsNone = true) →
      Runs.Along (step cfg) (fun s l => s.removesNone l = true) s l₁ →
        st.byCharacter.total = st.totalPoems) := by
  subst hst
  have hrun₁ := Runs.run_append_eq_some.2 ⟨s, hr, hr₁⟩
  have hrun₂ := Runs.run_append_eq_some.2 ⟨s₁, hrun₁, hr₂⟩
  have hrun₃ := Runs.run_append_eq_some.2 ⟨s₂, hrun₂, hr₃⟩
  obtain ⟨hs₂, hsingle₂⟩ := single_of_run hrun₂
  obtain ⟨hs₃, hsingle₃⟩ := single_of_run hrun₃
  have htotal : s₁.world.db.countByCharacter.total = s₁.world.db.countPoems :=
    Table.total_groupCount ..
  refine ⟨fun c hc => count_character _ hc,
    fun js => ⟨hs₂.rows.count_assets .image js, hs₃.rows.count_assets .audio js⟩, fun hadds => ?_,
    fun hadds hremoves => ?_⟩
  · have hle : ∀ {s' : Sys} {ls' : List Label}, run cfg s ls' = some s' →
        (∀ l ∈ ls', l.addsNone = true) → s'.world.db.countPoems ≤ s.world.db.countPoems :=
      fun hrun hls => countPoems_le fun _ => poem_of_run (run_ok hr) hrun hls
    rw [List.forall_mem_append, List.forall_mem_append] at hadds
    obtain ⟨⟨hadds₁, hadds₂⟩, hadds₃⟩ := hadds
    have hr₁₂ : run cfg s (l₁ ++ l₂) = some s₂ := Runs.run_append_eq_some.2 ⟨s₁, hr₁, hr₂⟩
    have hadds₁₂ := List.forall_mem_append.2 ⟨hadds₁, hadds₂⟩
    refine ⟨htotal.trans_le (hle hr₁ hadds₁), fun t => ?_⟩
    cases t with
    | image => exact (hsingle₂.total_le hs₂.rows .image).trans (hle hr₁₂ hadds₁₂)
    | audio =>
        have hr₁₃ : run cfg s (l₁ ++ l₂ ++ l₃) = some s₃ :=
          Runs.run_append_eq_some.2 ⟨s₂, hr₁₂, hr₃⟩
        have hadds₁₃ := List.forall_mem_append.2 ⟨hadds₁₂, hadds₃⟩
        exact (hsingle₃.total_le hs₃.rows .audio).trans (hle hr₁₃ hadds₁₃)
  · refine htotal.trans (le_antisymm ?_ ?_)
    · exact countPoems_le fun _ => poem_of_run (run_ok hr) hr₁ hadds
    · exact countPoems_le fun _ => poem_stays_of_run (run_ok hr) hr₁ hremoves

/-- The image is finished between the second and the third query. -/
theorem stats_of_run_made : ∃ s s' st, run (Sample.config 1) Sys.init Sample.called = some s ∧
    run (Sample.config 1) s
      [Sample.act (.returns "/data/images/1_a.png".toList Sample.attrs []), Sample.ok] = some s' ∧
    st = getStats s.world.db s.world.db s'.world.db s'.world.db ∧ st.totalPoems = 1 ∧
    ((st.assets .image).lookup .done).getD 0 = (s'.world.db.jobIds .image [.done]).length ∧
    st.byCharacter.total = st.totalPoems ∧ ∀ t, (st.assets t).total ≤ st.totalPoems := by
  have hrun : ∃ s s' st, run (Sample.config 1) Sys.init Sample.called = some s ∧
      run (Sample.config 1) s
        [Sample.act (.returns "/data/images/1_a.png".toList Sample.attrs []), Sample.ok] = some s' ∧
      st = getStats s.world.db s.world.db s'.world.db s'.world.db ∧ st.totalPoems = 1 :=
    ⟨_, _, _, rfl, rfl, rfl, rfl⟩
  obtain ⟨s, s', st, hr, hr', hst, htotal⟩ := hrun
  have hstay : ∀ s, run (Sample.config 1) s [] = some s := fun _ => rfl
  obtain ⟨-, hstatus, hle, heq⟩ := stats_of_run hr (hstay s) hr' (hstay s') hst
  refine ⟨s, s', st, hr, hr', hst, htotal, (hstatus .done).1, heq (by simp) trivial, (hle ?_).2⟩
  decide

end PoetryGenerator
