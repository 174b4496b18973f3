/-
# Links that stay

An answer of `read_poem` links to the files of the poem's assets, and a visitor may
follow the link at any time later, while other poems are written and deleted.  A call
of `delete_poem` unlinks what it has loaded, even after another call has deleted the
rows; that it never takes the file of another poem rests on paths being unique over
the whole run, among the rows there are, the paths about to be committed, and those
that some call has loaded (`Sys.Knows`).

`KeepsFiles` is the invariant of a poem that nobody asked to delete, and
`link_served_of_run` is what it gives: every link that was ever answered is served
from then on.
-/

import PoetryGenerator.AssetOrigins
import PoetryGenerator.Lib.RunLaws
import PoetryGenerator.OrphanFiles
import PoetryGenerator.Stats

namespace PoetryGenerator

variable {cfg : Config} {s s' s₁ s₂ : Sys} {l : Label} {t : JobType} {p ref : ℤ} {path : Str}

/-! ### What a deletion has loaded -/

/-- The call has loaded the path with the asset, and unlinks the files of its type. -/
def DeletePc.Loaded (t : JobType) (ref : ℤ) (path : Str) : DeletePc → Prop
  | unlink _ u loaded _ => u = t ∧ (ref, some path) ∈ loaded t
  | _ => False

/-- What is left to unlink was loaded. -/
def DeletePc.LeftOk : DeletePc → Prop
  | unlink _ t loaded left => left ⊆ (loaded t).map Prod.snd
  | _ => True

namespace DeletePc

variable {loaded : JobType → List (ℤ × Option Str)} {left : List (Option Str)}

theorem leftOk_unlinkRest (h : left ⊆ (loaded t).map Prod.snd) : (unlinkRest p t loaded left).LeftOk := by
  cases left with
  | nil => cases t <;> exact trivial
  | cons path left => exact h

theorem loaded_of_unlinkRest {u : JobType} (h : (unlinkRest p t loaded left).Loaded u ref path) :
    t = u ∧ (ref, some path) ∈ loaded u := by
  cases left with
  | nil => cases t <;> exact h.elim
  | cons path left => exact h

/-- An operation leaves a call of the same poem, which goes on with what it has loaded. -/
theorem ok_next {w w' : World} {r : Reply} {pc next : DeletePc}
    (h : Deletes cfg w r pc w' (some next)) (hpc : pc.LeftOk) :
    next.poemId = pc.poemId ∧ next.LeftOk := by
  generalize ho : some next = o at h
  cases h with
  | getPoem =>
      split_ifs at ho
      obtain rfl := Option.some.inj ho
      exact ⟨rfl, trivial⟩
  | load =>
      split_ifs at ho
      obtain rfl := Option.some.inj ho
      refine ⟨poemId_unlinkRest .., leftOk_unlinkRest ?_⟩
      rw [Function.update_self]
      exact List.Subset.refl _
  | unlink =>
      obtain rfl := Option.some.inj ho
      exact ⟨poemId_unlinkRest .., leftOk_unlinkRest fun x hx => hpc (List.mem_cons_of_mem _ hx)⟩
  | noPoem | commit => cases ho

/-- It knows a path because it did before, or because it has just read it in the row. -/
theorem loaded_next {w w' : World} {r : Reply} {pc next : DeletePc}
    (h : Deletes cfg w r pc w' (some next)) (hl : next.Loaded t ref path) :
    pc.Loaded t ref path ∨ ∃ a, w.db.asset t ref = some a ∧ a.path = some path := by
  generalize ho : some next = o at h
  cases h with
  | getPoem =>
      split_ifs at ho
      obtain rfl := Option.some.inj ho
      exact hl.elim
  | @load q u loaded =>
      split_ifs at ho
      obtain rfl := Option.some.inj ho
      obtain ⟨rfl, hmem⟩ := loaded_of_unlinkRest hl
      rw [Function.update_self] at hmem
      obtain ⟨a, ha, -, hpath⟩ := Db.mem_assetsOf.1 hmem
      exact .inr ⟨a, ha, hpath⟩
  | unlink =>
      obtain rfl := Option.some.inj ho
      exact .inl (loaded_of_unlinkRest hl)
  | noPoem | commit => cases ho

end DeletePc

/-! ### Paths that are known -/

/-- The asset has the path or is about to get it, or a call of `delete_poem` has read it there. -/
def Sys.Knows (s : Sys) (t : JobType) (ref : ℤ) (path : Str) : Prop :=
  s.Stores t ref path ∨ ∃ pc ∈ s.deletes, pc.Loaded t ref path

/-- The processor returns the path for the asset. -/
def Sys.Returns (s : Sys) (l : Label) (t : JobType) (ref : ℤ) (path : Str) : Prop :=
  ∃ session attrs wrote, s.workers t = .call session ∧ session.job.loaded.refId = ref ∧
    l = .worker t (.returns path attrs wrote)

theorem Sys.not_knows_init : ¬ Sys.init.Knows t ref path := by
  rintro (h | ⟨pc, hpc, -⟩)
  · exact not_stores_init h
  · exact List.not_mem_nil hpc

/-- The calls after a step are those before it, a new one, or one that made an operation. -/
theorem Moves.deletes_cases (h : Moves cfg s l s') {pc : DeletePc} (hpc : pc ∈ s'.deletes) :
    pc ∈ s.deletes ∨ (∃ p, l = .delete p ∧ pc = .getPoem p) ∨
      ∃ pc₀ ∈ s.deletes, ∃ r, Deletes cfg s.world r pc₀ s'.world (some pc) := by
  cases h with
  | delete =>
      rcases List.mem_append.1 hpc with hold | hnew
      · exact .inl hold
      · exact .inr (.inl ⟨_, rfl, List.mem_singleton.1 hnew⟩)
  | @deleteOp i r pc₀ w next hi hd =>
      rcases Traced.mem_advance hpc with hold | hnext
      · exact .inl hold
      · obtain rfl := Option.mem_def.1 hnext
        exact .inr (.inr ⟨pc₀, List.mem_of_getElem? hi, r, hd⟩)
  | abandonDelete => exact .inl (List.mem_of_mem_eraseIdx hpc)
  | _ => exact .inl hpc

/-- **Step lemma.**  Paths come from the processors only. -/
theorem Moves.knows (h : Moves cfg s l s') (hs : s.Ok cfg) (hp : s'.Knows t ref path) :
    s.Knows t ref path ∨ s.Returns l t ref path := by
  rcases hp with hstores | ⟨pc, hpc, hloaded⟩
  · exact (h.stores hs hstores).imp_left .inl
  · rcases h.deletes_cases hpc with hold | ⟨q, -, rfl⟩ | ⟨pc₀, hpc₀, r, hd⟩
    · exact .inl (.inr ⟨pc, hold, hloaded⟩)
    · exact hloaded.elim
    · refine .inl ?_
      rcases DeletePc.loaded_next hd hloaded with hold | hrow
      · exact .inr ⟨pc₀, hpc₀, hold⟩
      · exact .inl (.inl hrow)

/-- The known paths are those of files of their kind, each known for one asset. -/
structure Sys.Named (cfg : Config) (s : Sys) : Prop where
  path_eq : ∀ {t ref path}, s.Knows t ref path →
    ∃ name, FileName name ∧ path = Path.str (cfg.dataDir ++ [t.kind, name])
  injective : ∀ {t ref ref' path}, s.Knows t ref path → s.Knows t ref' path → ref = ref'

/-- **Paths are unique over a run**, if its images come from different prompts. -/
theorem Naming.named {ls : List Label} (hn : Naming cfg ls) (hr : run cfg Sys.init ls = some s) :
    s.Named cfg := by
  have himages := Runs.keyed_of_run (I := Sys.Ok cfg) (R := fun s ref path => s.Knows .image ref path)
    (N := fun s l ref path => s.Returns l .image ref path) (f := Label.imagePath)
    (fun s l s' hs h => (moves_of_step h).ok hs) (fun s l s' ref path hs h => (moves_of_step h).knows hs)
    (fun s l ref path ⟨_, _, _, _, _, hl⟩ => hl ▸ rfl)
    (fun s l ref ref' path ⟨_, _, _, hc, hr, _⟩ ⟨_, _, _, hc', hr', _⟩ => by
      obtain rfl := Pc.call.inj (hc.symm.trans hc')
      exact hr.symm.trans hr')
    Sys.ok_init (fun _ _ => Sys.not_knows_init) hr hn.nodup
  have haudios := (Runs.run_invariant (I := fun s => s.Ok cfg ∧ ∀ ref path, s.Knows .audio ref path →
      path = (audioOutPath cfg.dataDir ref).str) (fun s l s' hI hname h => by
    refine ⟨(moves_of_step h).ok hI.1, fun ref path hp => ?_⟩
    rcases (moves_of_step h).knows hI.1 hp with hold | ⟨session, attrs, wrote, hcall, rfl, hl⟩
    · exact hI.2 ref path hold
    · exact hname session path attrs wrote hcall hl)
    ⟨Sys.ok_init, fun _ _ h => absurd h Sys.not_knows_init⟩ hn.audio hr).2
  refine ⟨fun {t ref path} hp => ?_, fun {t ref ref' path} hp hp' => ?_⟩
  · cases t with
    | image =>
        obtain ⟨prompts, hpaths, -, hok⟩ := hn.image
        have hmem := himages.1 _ _ hp
        rw [hpaths] at hmem
        obtain ⟨x, hx, rfl⟩ := List.mem_map.1 hmem
        exact ⟨_, fileName_image (hok x hx).1 (hok x hx).2.2, rfl⟩
    | audio => exact ⟨_, fileName_audio ref, haudios _ _ hp⟩
  · cases t with
    | image => exact himages.2 _ _ _ hp hp'
    | audio => exact audioOutPath_injective ((haudios _ _ hp).symm.trans (haudios _ _ hp'))

/-- The steps before are named as well. -/
theorem Naming.of_append {pre post : List Label} (h : Naming cfg (pre ++ post))
    (hr : run cfg Sys.init pre = some s) : Naming cfg pre where
  image := by
    obtain ⟨prompts, hpaths, hnodup, hok⟩ := h.image
    rw [List.filterMap_append] at hpaths
    obtain ⟨front, back, rfl, hfront, -⟩ := List.append_eq_map_iff.1 hpaths
    rw [List.map_append] at hnodup
    exact ⟨front, hfront.symm, (List.nodup_append.1 hnodup).1, fun x hx => hok x (List.mem_append_left _ hx)⟩
  audio := ((Runs.along_append hr).1 h.audio).1

/-! ### The files of a poem that stays -/

/-- The processor writes the file whose path it returns, under a name that a URL takes as it is. -/
def Label.Saves : Label → Prop
  | .worker _ (.returns path _ wrote) =>
    ∃ f ∈ wrote, f.Normal ∧ f.str = path ∧ ∀ c ∈ basename path, urlSafe c = true
  | _ => True

/-- The file of the path is there. -/
def World.Has (w : World) (path : Str) : Prop :=
  ∃ f ∈ w.files, f.Normal ∧ f.str = path ∧ ∀ c ∈ basename path, urlSafe c = true

/-- **The invariant** of a poem that nobody asks to delete. -/
structure Sys.KeepsFiles (s : Sys) (p : ℤ) : Prop where
  calls : ∀ pc ∈ s.deletes, pc.poemId ≠ p ∧ pc.LeftOk
  poem : p ∈ s.world.hist.poems → s.world.db.poem p ≠ none
  files : ∀ {t ref a path}, s.world.db.asset t ref = some a → a.poemId = p →
    s.Stores t ref path → s.world.Has path

theorem Sys.keepsFiles_init (p : ℤ) : Sys.init.KeepsFiles p where
  calls _ hpc := absurd hpc List.not_mem_nil
  poem hp := absurd hp List.not_mem_nil
  files ha := absurd ha.symm (Option.some_ne_none _)

/-- A file goes only when a call unlinks it. -/
theorem Moves.mem_files (h : Moves cfg s l s') (hs : s.Ok cfg) {f : Path} (hf : f ∈ s.world.files) :
    f ∈ s'.world.files ∨ ∃ q u loaded x left, .unlink q u loaded (x :: left) ∈ s.deletes ∧
      assetTarget cfg.dataDir u x = some f := by
  cases h with
  | push => exact .inl ((World.files_rpush ..).symm ▸ hf)
  | @deleteOp i r pc w next hi hd =>
      cases hd with
      | @unlink q u loaded x left =>
          by_cases htarget : assetTarget cfg.dataDir u x = some f
          · exact .inr ⟨q, u, loaded, x, left, List.mem_of_getElem? hi, htarget⟩
          · exact .inl ((mem_removeAssetFile htarget).2 hf)
      | commit => exact .inl ((World.files_commit ..).symm ▸ hf)
      | _ => exact .inl hf
  | worker hw =>
      obtain ⟨hfiles, -⟩ := Traced.files_of_performs hw (hs.workers _)
      exact .inl (hfiles.symm ▸ Finset.mem_union_left _ hf)
  | _ => exact .inl hf

/-- **A call unlinks no file of another poem**, whatever it has loaded and whenever. -/
theorem Sys.Named.not_target (hnamed : s.Named cfg) (hs : s.Ok cfg) {q : ℤ} {u : JobType}
    {loaded : JobType → List (ℤ × Option Str)} {x : Option Str} {left : List (Option Str)}
    (hpc : .unlink q u loaded (x :: left) ∈ s.deletes)
    (hleft : (DeletePc.unlink q u loaded (x :: left)).LeftOk) {a : Asset t}
    (ha : s.world.db.asset t ref = some a) (hq : q ≠ a.poemId) (hp : s.Stores t ref path) {f : Path}
    (hf : f.str = path) : assetTarget cfg.dataDir u x ≠ some f := by
  intro htarget
  obtain ⟨path', rfl, -⟩ := assetTarget_eq_some htarget
  obtain ⟨⟨ref', _⟩, hmem, rfl⟩ := List.mem_map.1 (hleft (List.mem_cons_self ..))
  have hloaded : s.Knows u ref' path' := .inr ⟨_, hpc, rfl, hmem⟩
  -- both are the path of the file, so they are of one asset
  obtain ⟨name, hname, rfl⟩ := hnamed.path_eq hloaded
  obtain ⟨name', -, he⟩ := hnamed.path_eq (.inl hp)
  have hsame : path = Path.str (cfg.dataDir ++ [u.kind, name]) :=
    hf.symm.trans (str_of_assetTarget hname htarget)
  obtain rfl := type_eq_of_str (he.symm.trans hsame)
  obtain rfl := hnamed.injective (.inl hp) (hsame ▸ hloaded)
  have hok : LoadedOk s.world q loaded t := by
    have hok := hs.deletes _ hpc
    cases t with
    | image => exact hok
    | audio => exact hok .audio
  exact hq ((hok.exact _ a ha).1 (List.mem_map_of_mem hmem)).symm

/-- A poem stays while no call is about it. -/
theorem Moves.poem_undeleted (h : Moves cfg s l s') (hs : s.Ok cfg)
    (hcalls : ∀ pc ∈ s.deletes, pc.poemId ≠ p) (hp : s.world.db.poem p ≠ none) :
    s'.world.db.poem p ≠ none := by
  cases h with
  | @deleteOp i r pc w next hi hd =>
      cases hd with
      | @commit q loaded =>
          have hq : p ≠ q := (hcalls _ (List.mem_of_getElem? hi)).symm
          show (s.world.commit _ _).db.poem p ≠ none
          unfold World.commit
          split_ifs
          · exact ne_of_eq_of_ne ((Db.poem_deleteRows ..).trans (if_neg hq)) hp
          · exact hp
      | _ => exact hp
  | persist hf hr => exact (Moves.persist hf hr).poem_stays hs rfl hp
  | push hi => exact (Moves.push hi).poem_stays hs rfl hp
  | worker hw => exact (Moves.worker hw).poem_stays hs rfl hp
  | _ => exact hp

theorem Pc.Stores.session {pc : Pc t} (h : pc.Stores ref path) :
    ∃ session, pc.session = some session ∧ session.job.loaded.refId = ref := by
  cases pc with
  | commitFinal session e again => exact ⟨session, rfl, h.1⟩
  | _ => exact h.elim

/-- What is stored is stored for an asset in the history. -/
theorem Sys.Stores.known (h : s.Stores t ref path) (hs : s.Ok cfg) :
    ∃ id, (id, t, ref) ∈ s.world.hist.jobs := by
  rcases h with ⟨a, ha, -⟩ | hpc
  · exact Sys.HasAsset.known (.inl ha) hs
  · obtain ⟨session, hsession, href⟩ := hpc.session
    exact Sys.HasAsset.known (.inr ⟨session, hsession, href, rfl⟩) hs

/-- **Step lemma.** -/
theorem Sys.KeepsFiles.moves (hk : s.KeepsFiles p) (h : Moves cfg s l s') (hs : s.Ok cfg)
    (hnamed : s.Named cfg) (hl : l.Saves) (hp : l ≠ .delete p) : s'.KeepsFiles p where
  calls pc hpc := by
    rcases h.deletes_cases hpc with hold | ⟨q, rfl, rfl⟩ | ⟨pc₀, hpc₀, r, hd⟩
    · exact hk.calls pc hold
    · exact ⟨fun he => hp (congrArg Label.delete he), trivial⟩
    · obtain ⟨hpoem, hleft⟩ := hk.calls pc₀ hpc₀
      obtain ⟨hsame, hok⟩ := DeletePc.ok_next hd hleft
      exact ⟨hsame ▸ hpoem, hok⟩
  poem hknown := by
    by_cases hold : p ∈ s.world.hist.poems
    · exact h.poem_undeleted hs (fun pc hpc => (hk.calls pc hpc).1) (hk.poem hold)
    · -- the poem is persisted in this step
      cases h with
      | @persist a ids r hf hr =>
          show (s.world.persist a ids).db.poem p ≠ none
          rw [World.poem_persist]
          split_ifs with he
          · exact Option.some_ne_none _
          · exact absurd ((List.mem_cons.1 hknown).resolve_left he) hold
      | push => exact absurd (World.poems_rpush .. ▸ hknown) hold
      | deleteOp hi hd =>
          exact absurd ((hd.ok hs.rows (hs.deletes _ (List.mem_of_getElem? hi))).2.1 ▸ hknown) hold
      | worker hw => exact absurd ((hw.hist (hs.workers _)).1 ▸ hknown) hold
      | _ => exact absurd hknown hold
  files {t ref a' path} ha' hpoem hstores := by
    rcases h.stores hs hstores with hold | ⟨session, attrs, wrote, -, -, rfl⟩
    · rcases (h.evolves hs).asset ha' with ⟨hnew, -⟩ | ⟨a, ha, hsame⟩
      · obtain ⟨id, hid⟩ := hold.known hs
        exact absurd rfl (hnew _ hid)
      · obtain ⟨f, hf, hnormal, hstr, hsafe⟩ := hk.files ha (hsame.trans hpoem) hold
        refine ⟨f, ?_, hnormal, hstr, hsafe⟩
        refine (h.mem_files hs hf).resolve_right ?_
        rintro ⟨q, u, loaded, x, left, hpc, htarget⟩
        obtain ⟨hq, hleft⟩ := hk.calls _ hpc
        exact hnamed.not_target hs hpc hleft ha (fun he => hq (he.trans (hsame.trans hpoem))) hold hstr
          htarget
    · obtain ⟨f, hf, hfile⟩ := hl
      cases h with
      | worker hw =>
          obtain ⟨hfiles, -⟩ := Traced.files_of_performs hw (hs.workers _)
          exact ⟨f, hfiles.symm ▸ Finset.mem_union_right _ (List.mem_toFinset.2 hf), hfile⟩

/-- **Run lemma.** -/
theorem keepsFiles_of_run {ls : List Label} (hr : run cfg Sys.init ls = some s) (hn : Naming cfg ls)
    (hsaves : ∀ l ∈ ls, l.Saves) (hp : .delete p ∉ ls) : s.KeepsFiles p := by
  refine (Runs.run_invariant (I := fun s => s.Ok cfg ∧ s.KeepsFiles p)
    (P := fun s l => s.Named cfg ∧ l.Saves ∧ l ≠ .delete p)
    (fun s l s' hI hl h => ⟨(moves_of_step h).ok hI.1,
      hI.2.moves (moves_of_step h) hI.1 hl.1 hl.2.1 hl.2.2⟩)
    ⟨Sys.ok_init, Sys.keepsFiles_init p⟩ ?_ hr).2
  refine Runs.along_of_prefixes fun pre l post s' he hpre => ?_
  have hl : l ∈ ls := he ▸ List.mem_append_right _ (List.mem_cons_self ..)
  exact ⟨(Naming.of_append (he ▸ hn) hpre).named hpre, hsaves l hl, fun hd => hp (hd ▸ hl)⟩

/-! ### Links -/

/-- The links of an answer. -/
def PoemDetail.links (d : PoemDetail) : List (Option Str) :=
  d.imageUrl :: d.audioUrl :: (d.images.map ImageOut.url ++ d.audios.map AudioOut.url)

/-- A link is that of an asset that was loaded. -/
theorem PoemDetail.mem_links_detail {row : ℤ × Poem} {images : List (ℤ × Asset .image)}
    {audios : List (ℤ × Asset .audio)} {url : Str} (h : some url ∈ (detail row images audios).links) :
    (∃ x ∈ images, assetUrl .image x.2.path = some url) ∨
      ∃ x ∈ audios, assetUrl .audio x.2.path = some url := by
  have hhead : ∀ {u : JobType} {rows : List (ℤ × Asset u)},
      some url = (rows.head?.map Prod.snd).bind (fun a => assetUrl u a.path) →
        ∃ x ∈ rows, assetUrl u x.2.path = some url := by
    intro u rows hurl
    obtain ⟨a, ha, hlink⟩ := Option.bind_eq_some_iff.1 hurl.symm
    obtain ⟨x, hx, rfl⟩ := Option.map_eq_some_iff.1 ha
    exact ⟨x, List.mem_of_head? hx, hlink⟩
  rw [links, List.mem_cons, List.mem_cons, List.mem_append] at h
  rcases h with h | h | h | h
  · exact .inl (hhead h)
  · exact .inr (hhead h)
  · obtain ⟨i, hi, hlink⟩ := List.mem_map.1 h
    obtain ⟨x, hx, rfl⟩ := List.mem_map.1 hi
    exact .inl ⟨x, hx, hlink⟩
  · obtain ⟨i, hi, hlink⟩ := List.mem_map.1 h
    obtain ⟨x, hx, rfl⟩ := List.mem_map.1 hi
    exact .inr ⟨x, hx, hlink⟩

theorem exists_of_assetUrl {x : Option Str} {url : Str} (h : assetUrl t x = some url) :
    ∃ path, x = some path := by
  cases x with
  | none => cases h
  | some path => exact ⟨path, rfl⟩

/-- The text of a path that is resolved already. -/
theorem Path.resolve_str {f : Path} (hf : f.Normal) : Path.resolve f.str = f := by
  have hfold : ∀ (cs base : Path), (∀ c ∈ cs, FileName c) → cs.foldl Path.push base = base ++ cs := by
    intro cs
    induction cs with
    | nil => exact fun base _ => (List.append_nil base).symm
    | cons c cs ih =>
        intro base hcs
        rw [List.foldl_cons, push_fileName _ (hcs c (List.mem_cons_self ..)),
          ih _ fun d hd => hcs d (List.mem_cons_of_mem _ hd), List.append_assoc]
        rfl
  have hsplit : (Path.str f).splitOn '/' = [] :: f :=
    splitOn_append_str (c := []) List.not_mem_nil fun c hc => (hf c hc).1
  have hnil : Path.push [] [] = [] := by rw [Path.push, if_pos (.inl rfl)]
  rw [Path.resolve, Path.join, ite_self, hsplit, List.foldl_cons, hnil, hfold f [] hf, List.nil_append]

/-- **The link of a stored path is served** while its file is there. -/
theorem Sys.Named.follow (hnamed : s.Named cfg) (hp : s.Stores t ref path) (hfile : s.world.Has path)
    {d : DataDir} (hd : d.text = cfg.dataDir.str) (hdir : cfg.dataDir.Normal) {unquote : Str → Str}
    (hunquote : ∀ x, '%' ∉ x → unquote x = x) :
    ∃ f, Path.str f = path ∧
      follow unquote d.base s.world.files (assetUrl t (some path)) = some f := by
  obtain ⟨name, hname, rfl⟩ := hnamed.path_eq (.inl hp)
  obtain ⟨f, hf, hnormal, hstr, hsafe⟩ := hfile
  have hout := d.outPath_of_normal hd hdir t name
  have htarget : f = d.base ++ [t.kind, name] := by
    rw [← d.resolve_outPath t hname, hout, ← hstr, Path.resolve_str hnormal]
  rw [← hout, d.basename_outPath t hname.1] at hsafe
  refine ⟨f, hstr, ?_⟩
  rw [← hout, follow_assetUrl hunquote d t hname hsafe, ← htarget, if_pos hf]

/-- An asset that has a path stays as it is while its poem stays. -/
theorem asset_stays_of_run {ls ls' : List Label} (hr : run cfg Sys.init ls = some s)
    (hr' : run cfg s ls' = some s') {a : Asset t} (ha : s.world.db.asset t ref = some a)
    (hpath : a.path = some path) (hp : s'.world.db.poem a.poemId ≠ none) :
    s'.world.db.asset t ref = some a := by
  have hs := run_ok hr
  obtain ⟨id, job, hj, rfl, rfl⟩ := hs.rows.asset_job ha
  obtain ⟨b, hb, hagree⟩ := hs.rows.job_asset hj
  obtain rfl := Option.some.inj (hb.symm.trans ha)
  have hdone : b.status = .done := hagree.path.1 (hpath ▸ rfl)
  obtain ⟨a', ha', -⟩ := (later_of_run hs hr').2.kept ha hp
  have hnever : b.status = .failed → Runs.Along (step cfg) (fun s l => s.loadsFailed l = false)
      Sys.init (ls ++ ls') := fun hfailed => by
    rw [hdone] at hfailed
    cases hfailed
  exact settled_of_run hr hr' ha (.inl hdone) hnever a' ha' ▸ ha'

/-- **A link stays.**  In every run in which nobody asks to delete the poem, prompts are unique
and processors write what they return, every link in an answer of `read_poem`, whose queries
may have any steps between them, is served in every later state, with the file of the asset. -/
theorem link_served_of_run {ls ls₁ ls₂ : List Label} (hr : run cfg Sys.init ls = some s)
    {answer : PoemDetail} (hread : Reads cfg s ls₁ s₁ p (some answer))
    (hr₂ : run cfg s₁ ls₂ = some s₂) (hn : Naming cfg (ls ++ ls₁ ++ ls₂))
    (hsaves : ∀ l ∈ ls ++ ls₁ ++ ls₂, l.Saves) (hp : .delete p ∉ ls ++ ls₁ ++ ls₂)
    {d : DataDir} (hd : d.text = cfg.dataDir.str) (hdir : cfg.dataDir.Normal) {unquote : Str → Str}
    (hunquote : ∀ x, '%' ∉ x → unquote x = x) {url : Str} (hurl : some url ∈ answer.links) :
    ∃ t ref, ∃ a : Asset t, ∃ f, s₂.world.db.asset t ref = some a ∧ a.poemId = p ∧
      a.path = some (Path.str f) ∧ follow unquote d.base s₂.world.files (some url) = some f := by
  obtain ⟨l₁, l₂, s', rfl, hl₁, hl₂, hanswer⟩ := hread
  obtain ⟨row, -, rfl⟩ := Option.map_eq_some_iff.1 hanswer.symm
  have hr₁ := Runs.run_append_eq_some.2 ⟨s, hr, hl₁⟩
  have hr₁₂ := Runs.run_append_eq_some.2 ⟨s, hr, Runs.run_append_eq_some.2 ⟨s', hl₁, hl₂⟩⟩
  have hlast := Runs.run_append_eq_some.2 ⟨s₁, hr₁₂, hr₂⟩
  have hnamed := hn.named hlast
  have hkeeps := keepsFiles_of_run hlast hn hsaves hp
  have hserved : ∀ {u : JobType} {x : ℤ × Asset u} {pre post : List Label} {w : Sys},
      run cfg Sys.init pre = some w → run cfg w post = some s₂ →
        x ∈ w.world.db.assetRows u p → assetUrl u x.2.path = some url →
          ∃ t ref, ∃ a : Asset t, ∃ f, s₂.world.db.asset t ref = some a ∧ a.poemId = p ∧
            a.path = some (Path.str f) ∧ follow unquote d.base s₂.world.files (some url) = some f := by
    intro u x pre post w hpre hpost hx hlink
    obtain ⟨ha, hpoem⟩ := Db.mem_assetRows.1 hx
    obtain ⟨path, hpath⟩ := exists_of_assetUrl hlink
    have hw := run_ok hpre
    have hknown := (later_of_run hw hpost).2.known (hw.rows.poem_known (hw.rows.asset_poem ha))
    have hstays := asset_stays_of_run hpre hpost ha hpath (hpoem ▸ hkeeps.poem (hpoem ▸ hknown))
    have hstores : s₂.Stores u x.1 path := .inl ⟨x.2, hstays, hpath⟩
    obtain ⟨f, hf, hfollow⟩ := hnamed.follow hstores (hkeeps.files hstays hpoem hstores) hd hdir hunquote
    rw [← hpath, hlink] at hfollow
    exact ⟨u, x.1, x.2, f, hstays, hpoem, hf ▸ hpath, hfollow⟩
  rcases PoemDetail.mem_links_detail hurl with ⟨x, hx, hlink⟩ | ⟨x, hx, hlink⟩
  · exact hserved hr₁ (Runs.run_append_eq_some.2 ⟨s₁, hl₂, hr₂⟩) hx hlink
  · exact hserved hr₁₂ hr₂ hx hlink

namespace Sample

/-- A second poem is persisted, and deleted in six operations. -/
def deletedOther : List Label :=
  .persist args ids₂ .ok :: .delete 2 :: List.replicate 6 (.deleteOp 0 .ok)

end Sample

/-- The link of the image, while another poem comes and goes. -/
theorem link_served_deletedOther : ∃ s s₂ answer, run (Sample.config 1) Sys.init Sample.finished = some s ∧
    Reads (Sample.config 1) s [] s 1 (some answer) ∧
    run (Sample.config 1) s Sample.deletedOther = some s₂ ∧ s₂.world.db.poem 2 = none ∧
    answer.imageUrl = some "/api/assets/images/1_a.png".toList ∧
      ∃ f, follow id ["data".toList] s₂.world.files answer.imageUrl = some f := by
  have hrun : ∃ s s₂ answer, run (Sample.config 1) Sys.init Sample.finished = some s ∧
      Reads (Sample.config 1) s [] s 1 (some answer) ∧
      run (Sample.config 1) s Sample.deletedOther = some s₂ ∧ s₂.world.db.poem 2 = none ∧
      answer.imageUrl = some "/api/assets/images/1_a.png".toList :=
    ⟨_, _, _, rfl, ⟨[], [], _, rfl, rfl, rfl, rfl⟩, rfl, rfl, by decide⟩
  obtain ⟨s, s₂, answer, hr, hread, hr₂, hgone, hurl⟩ := hrun
  let d : DataDir := ⟨"/data".toList, rfl⟩
  have hbase : d.base = ["data".toList] := by decide +kernel
  have hn : Naming (Sample.config 1) (Sample.finished ++ [] ++ Sample.deletedOther) := by
    refine ⟨⟨[("1".toList, "a.png".toList)], rfl, by decide, by decide⟩, ?_⟩
    refine Runs.along_of_forall fun s l hl session path attrs wrote _ he => ?_
    subst he
    simp [Sample.finished, Sample.called, Sample.requested, Sample.deletedOther] at hl
  have hfile : Sample.image.Normal ∧ ∀ c ∈ basename Sample.image.str, urlSafe c = true := by
    have hname : ∀ c ∈ Sample.image, '/' ∉ c ∧ c ≠ [] ∧ c ≠ ['.'] ∧ c ≠ ['.', '.'] := by decide
    exact ⟨hname, List.all_eq_true.1 (by decide)⟩
  have hsaves : ∀ l ∈ Sample.finished ++ [] ++ Sample.deletedOther, l.Saves := by
    simpa [Sample.finished, Sample.called, Sample.requested, Sample.deletedOther, Label.Saves] using hfile
  have hdelete : .delete 1 ∉ Sample.finished ++ [] ++ Sample.deletedOther := by
    simp [Sample.finished, Sample.called, Sample.requested, Sample.deletedOther]
  have hdir : (Sample.config 1).dataDir.Normal :=
    List.forall_mem_singleton.2 ⟨by decide, by decide, by decide, by decide⟩
  obtain ⟨-, -, -, f, -, -, -, hf⟩ := link_served_of_run hr hread hr₂ hn hsaves hdelete
    (rfl : d.text = _) hdir (fun _ _ => rfl : ∀ x, '%' ∉ x → id x = x)
    (List.mem_cons.2 (.inl hurl.symm))
  exact ⟨s, s₂, answer, hr, hread, hr₂, hgone, hurl, f, by rw [hurl, ← hbase]; exact hf⟩

end PoetryGenerator
