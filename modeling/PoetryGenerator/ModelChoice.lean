/-
# The model the user picks is the model that renders

The API looks the model of a request up in the catalogue and stores the name of the
entry in the image row; the worker looks the name up again, in a catalogue it makes
from the same environment.

The names of a catalogue are distinct and not empty (`nodup_names`, `name_ne_nil`), so
the worker finds the entry the API found (`resolve_name`), and its fallback for an
unknown name is never used.  `Chosen` carries that along every run of the system, and
`Recorded` what a graph has to do with the columns that the attempt commits.
-/

import PoetryGenerator.AssetOrigins
import PoetryGenerator.ComfyUi
import PoetryGenerator.Generation

namespace PoetryGenerator

open ImageModels ComfyUi

/-! ### The catalogue -/

namespace ImageModels

/-- Each model stands under its name, which is not empty. -/
def Named (byName : Table Str ImageModel) : Prop :=
  ∀ k m, byName.lookup k = some m → m.name = k ∧ k ≠ []

theorem Named.set {byName : Table Str ImageModel} (h : Named byName) {m : ImageModel}
    (hm : m.name ≠ []) : Named (byName.set m.name m) := by
  intro k m' hk
  rw [Table.lookup_set] at hk
  split_ifs at hk with heq
  · obtain rfl := Option.some.inj hk
    exact ⟨heq.symm, heq ▸ hm⟩
  · exact h k m' hk

theorem Named.addEntry {byName : Table Str ImageModel} (h : Named byName) (entry : Str) :
    Named (addEntry byName entry) := by
  unfold ImageModels.addEntry
  dsimp only
  split_ifs with hname
  · exact h
  all_goals exact h.set (m := ⟨_, _, _⟩) hname

theorem defaultName_ne_nil (env : Env) : defaultName env ≠ [] := by
  unfold defaultName
  dsimp only
  split_ifs with h
  · exact h
  · cases defaultType env <;> decide

/-- The dictionary of a catalogue, before the default is added. -/
theorem named_foldl (entries : List Str) {byName : Table Str ImageModel} (h : Named byName) :
    Named (entries.foldl addEntry byName) := by
  induction entries generalizing byName with
  | nil => exact h
  | cons entry entries ih => exact ih (h.addEntry entry)

theorem named_models {models : List ImageModel} (hm : ∀ m ∈ models, m.name ≠ [])
    {byName : Table Str ImageModel} (h : Named byName) :
    Named (models.foldl (fun t m => t.set m.name m) byName) := by
  induction models generalizing byName with
  | nil => exact h
  | cons m models ih =>
      exact ih (fun m' h' => hm m' (List.mem_cons_of_mem _ h')) (h.set (hm m (List.mem_cons_self ..)))

theorem named_builtin : Named (builtin.foldl (fun t m => t.set m.name m) ∅) :=
  named_models (by decide) fun _ _ h => by cases h

theorem mem_set_self (byName : Table Str ImageModel) (k : Str) (m : ImageModel) : k ∈ byName.set k m := by
  rw [← AList.lookup_isSome, Table.lookup_set, if_pos rfl]
  rfl

/-- **A catalogue** holds the entries of a dictionary, and the default is one of them. -/
theorem exists_catalog (env : Env) : ∃ byName : Table Str ImageModel, Named byName ∧
    catalog env = byName.entries.map Sigma.snd ∧ defaultName env ∈ byName := by
  unfold catalog
  dsimp only
  generalize hd : defaultName env = d
  generalize hentries : ((((env "SD_MODELS".toList).getD []).splitOn ',').map Str.strip).filter _ = entries
  have hnamed := named_foldl entries named_builtin
  by_cases hmem : d ∈ entries.foldl addEntry (builtin.foldl (fun t m => t.set m.name m) ∅)
  · rw [if_pos hmem]
    exact ⟨_, hnamed, rfl, hmem⟩
  · rw [if_neg hmem]
    have hne : d ≠ [] := hd ▸ defaultName_ne_nil env
    exact ⟨_, hnamed.set (m := ⟨d, defaultType env, d⟩) hne, rfl, mem_set_self ..⟩

section Catalog
variable {env : Env} {m : ImageModel}

theorem nodup_names (env : Env) : ((catalog env).map ImageModel.name).Nodup := by
  obtain ⟨byName, hnamed, hcat, -⟩ := exists_catalog env
  have hkeys : (catalog env).map ImageModel.name = byName.keys := by
    rw [hcat, List.map_map]
    refine List.map_congr_left fun e he => ?_
    exact (hnamed e.1 e.2 (AList.mem_lookup_iff.2 he)).1
  rw [hkeys]
  exact byName.nodupKeys

theorem default_mem (env : Env) : ∃ m ∈ catalog env, m.name = defaultName env := by
  obtain ⟨byName, hnamed, hcat, hd⟩ := exists_catalog env
  obtain ⟨m, hm⟩ := Option.isSome_iff_exists.1 (AList.lookup_isSome.2 hd)
  refine ⟨m, ?_, (hnamed _ _ hm).1⟩
  rw [hcat]
  exact List.mem_map.2 ⟨_, AList.mem_lookup_iff.1 hm, rfl⟩

theorem name_ne_nil (hm : m ∈ catalog env) : m.name ≠ [] := by
  obtain ⟨byName, hnamed, hcat, -⟩ := exists_catalog env
  rw [hcat] at hm
  obtain ⟨⟨k, m⟩, he, rfl⟩ := List.mem_map.1 hm
  obtain ⟨rfl, hk⟩ := hnamed k m (AList.mem_lookup_iff.2 he)
  exact hk

/-- The entry of a name is the only one. -/
theorem find_name {l : List ImageModel} (hnodup : (l.map ImageModel.name).Nodup) (hm : m ∈ l) :
    l.find? (·.name = m.name) = some m := by
  cases hfind : l.find? (·.name = m.name) with
  | none => exact absurd (decide_eq_true rfl) (List.find?_eq_none.1 hfind m hm)
  | some m' =>
      have hname : m'.name = m.name := by simpa using List.find?_some hfind
      rw [List.inj_on_of_nodup_map hnodup (List.mem_of_find?_eq_some hfind) hm hname]

theorem resolve_of_target {name : Option Str} (hm : m ∈ catalog env) (h : target name env = m.name) :
    resolve name env = some m := by
  rw [resolve, h]
  exact find_name (nodup_names env) hm

/-- **A name of the catalogue** resolves to its entry. -/
theorem resolve_name (hm : m ∈ catalog env) : resolve (some m.name) env = some m :=
  resolve_of_target hm (if_pos (name_ne_nil hm))

theorem mem_of_resolve {name : Option Str} (h : resolve name env = some m) : m ∈ catalog env :=
  List.mem_of_find?_eq_some h

/-- Without a name the default is resolved. -/
theorem resolve_default (env : Env) {name : Option Str} (h : name.getD [] = []) :
    ∃ m ∈ catalog env, resolve name env = some m ∧ m.name = defaultName env := by
  obtain ⟨m, hm, hname⟩ := default_mem env
  exact ⟨m, hm, resolve_of_target hm ((if_neg (not_not.2 h)).trans hname.symm), hname⟩

/-- A request's value resolves when there is none, or it is a name of the catalogue. -/
theorem resolve_isSome_iff {name : Option Str} :
    (resolve name env).isSome ↔ name.getD [] = [] ∨ ∃ m ∈ catalog env, name = some m.name := by
  constructor
  · intro h
    obtain ⟨m, hm⟩ := Option.isSome_iff_exists.1 h
    by_cases hempty : name.getD [] = []
    · exact .inl hempty
    · refine .inr ⟨m, mem_of_resolve hm, ?_⟩
      rw [name_of_resolve hm, target, if_pos hempty]
      cases name with
      | none => exact absurd rfl hempty
      | some s => rfl
  · rintro (hempty | ⟨m, hm, rfl⟩)
    · obtain ⟨m, -, hresolve, -⟩ := resolve_default env hempty
      rw [hresolve]
      rfl
    · rw [resolve_name hm]
      rfl

end Catalog
end ImageModels

/-! ### A request's model -/

/-- The field `model` of a request: `Field(max_length=200)`, then `resolve_image_model`.
Without a result the answer has the status 422. -/
def selectModel (env : Env) (model : Option Str) : Option ImageModel :=
  if (model.getD []).length ≤ 200 then resolve model env else none

theorem selectModel_eq_resolve (req : GenerateRequest) (env : Env) :
    selectModel env req.model = resolve req.model env := by
  refine if_pos ?_
  cases h : req.model with
  | none => exact Nat.zero_le _
  | some s => exact req.model_le s h

/-- The system, the entry each request for an image selected, and the graph that the image
worker's last call of the processor submitted. -/
structure Rendering where
  sys : Sys
  picked : ℤ → Option ImageModel
  graph : Option Workflow

/-- A step of the system; a request that is accepted, and a call of the processor, by what
they are given. -/
inductive RenderLabel
  | request (req : GenerateRequest) (result : PoemResult) (ids : NewIds) (r : Reply)
  | render (seed : Seed) (exc : Str) (outcome : ComfyOutcome)
  | other (l : Label)

/-- The steps that are neither. -/
def Label.isOther : Label → Bool
  | .persist .. => false
  | .worker .image act => act.attrs.isNone
  | _ => true

namespace Rendering

/-- Before the first request. -/
def init : Rendering := ⟨Sys.init, fun _ => none, none⟩

variable (cfg : Config) (floatOf : Str → Option ℚ) (env : Env)

/-- The step of a label, where it is enabled. -/
def step (s : Rendering) : RenderLabel → Option Rendering
  | .request req result ids r =>
    (req.persistArgs env result).bind fun a =>
      (PoetryGenerator.step cfg s.sys (.persist a ids r)).map fun sys =>
        { s with
          sys := sys
          picked := if r.takesEffect ∧ req.generateImage then
            Function.update s.picked (ids.asset .image) (selectModel env req.model) else s.picked }
  | .render seed exc outcome =>
    match s.sys.workers .image with
    | .call session =>
      let attempt := processor floatOf env (defaultName env) session.asset.cur.attrs seed exc outcome
      (PoetryGenerator.step cfg s.sys (.worker .image attempt.act)).map fun sys =>
        { s with sys := sys, graph := attempt.graph }
    | _ => none
  | .other l =>
    if l.isOther then (PoetryGenerator.step cfg s.sys l).map fun sys => { s with sys := sys } else none

/-- A step is a request, a rendering or another step of the system. -/
inductive Steps (s s' : Rendering) (l : Label) : Prop
  | request {req : GenerateRequest} {result ids r a} (ha : req.persistArgs env result = some a) (hl : l = .persist a ids r)
      (hpicked : s'.picked = if r.takesEffect ∧ req.generateImage then
        Function.update s.picked (ids.asset .image) (selectModel env req.model) else s.picked)
      (hgraph : s'.graph = s.graph)
  | render {session seed exc outcome} (hpc : s.sys.workers .image = .call session)
      (hl : l = .worker .image (processor floatOf env (defaultName env) session.asset.cur.attrs seed exc
        outcome).act)
      (hpicked : s'.picked = s.picked)
      (hgraph : s'.graph = (processor floatOf env (defaultName env) session.asset.cur.attrs seed exc
        outcome).graph)
  | other (hl : l.isOther = true) (hpicked : s'.picked = s.picked) (hgraph : s'.graph = s.graph)

variable {cfg floatOf env} {s s' : Rendering} {l : RenderLabel}

theorem steps_of_step (h : s.step cfg floatOf env l = some s') :
    ∃ l', Moves cfg s.sys l' s'.sys ∧ Steps floatOf env s s' l' := by
  cases l with
  | request req result ids r =>
      obtain ⟨a, ha, h⟩ := Option.bind_eq_some_iff.1 h
      obtain ⟨sys, hsys, rfl⟩ := Option.map_eq_some_iff.1 h
      exact ⟨_, moves_of_step hsys, .request ha rfl rfl rfl⟩
  | render seed exc outcome =>
      simp only [step] at h
      split at h
      · next session hpc =>
          obtain ⟨sys, hsys, rfl⟩ := Option.map_eq_some_iff.1 h
          exact ⟨_, moves_of_step hsys, .render hpc rfl rfl rfl⟩
      · cases h
  | other l =>
      simp only [step] at h
      split_ifs at h with hl
      obtain ⟨sys, hsys, rfl⟩ := Option.map_eq_some_iff.1 h
      exact ⟨_, moves_of_step hsys, .other hl rfl rfl⟩

end Rendering

/-! ### The processor -/

/-- What the row says of a graph. -/
structure Records (g : Workflow) (attrs : ImageAttrs) : Prop where
  checkpoint : attrs.checkpoint = some g.ckptName
  seed : attrs.seed = some g.seed
  width : attrs.width = g.width
  height : attrs.height = g.height

/-- A graph renders with a model: its checkpoint, and the workflow of its type. -/
def RendersWith (m : ImageModel) (g : Workflow) : Prop :=
  ∃ prompt negative seed steps cfg width height,
    g = (workflowFor m.type).fill prompt negative m.name seed steps cfg width height

section Processor
variable (floatOf : Str → Option ℚ) {env : Env} {m : ImageModel}

theorem attrs_act (outcome : ComfyOutcome) (image : ImageAttrs) :
    (outcome.act image).attrs = some image := by
  cases outcome <;> rfl

theorem renderModel_name (hm : m ∈ catalog env) : renderModel env m.name = m := by
  rw [renderModel, resolve_name hm]
  rfl

theorem exists_attrs_processor (env : Env) (fallback : Str) (image : ImageAttrs) (seed : Seed) (exc : Str)
    (outcome : ComfyOutcome) :
    ∃ attrs, (processor floatOf env fallback image seed exc outcome).act.attrs = some attrs := by
  unfold processor
  dsimp only
  split
  · split
    · exact ⟨_, attrs_act ..⟩
    · exact ⟨_, rfl⟩
  · exact ⟨_, rfl⟩

/-- **A call of the processor** for a row with a checkpoint of the catalogue. -/
theorem processor_spec (hm : m ∈ catalog env) (fallback : Str) {image : ImageAttrs}
    (himage : image.checkpoint = some m.name) (seed : Seed) (exc : Str) (outcome : ComfyOutcome) :
    ∃ attrs, (processor floatOf env fallback image seed exc outcome).act.attrs = some attrs ∧
      attrs.checkpoint = some m.name ∧
      ∀ g, (processor floatOf env fallback image seed exc outcome).graph = some g →
        Records g attrs ∧ RendersWith m g ∧ 0 ≤ g.seed ∧ g.seed < 2147483648 := by
  have hname : (if image.checkpoint.getD [] ≠ [] then image.checkpoint.getD [] else fallback) = m.name := by
    rw [himage]
    exact if_pos (name_ne_nil hm)
  unfold processor
  dsimp only
  rw [hname, renderModel_name hm]
  split
  · split
    · refine ⟨_, attrs_act .., rfl, fun g hg => ?_⟩
      obtain rfl := Option.some.inj hg
      exact ⟨⟨rfl, rfl, rfl, rfl⟩, ⟨_, _, _, _, _, _, _, rfl⟩, Int.natCast_nonneg _,
        Int.ofNat_lt.2 seed.isLt⟩
    · exact ⟨_, rfl, rfl, fun g hg => by cases hg⟩
  · exact ⟨image, rfl, himage, fun g hg => by cases hg⟩

end Processor

/-! ### Every run -/

namespace Rendering

/-- The checkpoint that was selected for an image. -/
def Chosen (env : Env) (picked : ℤ → Option ImageModel) (ref : ℤ) (attrs : ImageAttrs) : Prop :=
  ∃ m, picked ref = some m ∧ m ∈ catalog env ∧ attrs.checkpoint = some m.name

theorem Chosen.congr {env : Env} {picked picked' : ℤ → Option ImageModel} {ref : ℤ} {attrs : ImageAttrs}
    (h : Chosen env picked ref attrs) (heq : picked' ref = picked ref) : Chosen env picked' ref attrs := by
  obtain ⟨m, hm, hrest⟩ := h
  exact ⟨m, heq.trans hm, hrest⟩

/-- **The invariant of the renderings.**  An image has the checkpoint its request selected,
and what an attempt will commit is what it rendered with. -/
structure Ok (cfg : Config) (env : Env) (s : Rendering) : Prop where
  sys : s.sys.Ok cfg
  chosen : ∀ (ref : ℤ) (a : Asset .image), s.sys.HasAsset .image ref a →
    Chosen env s.picked ref a.attrs
  recorded : ∀ session, (s.sys.workers .image).attempted = some session → ∀ g, s.graph = some g →
    Records g session.asset.cur.attrs ∧ 0 ≤ g.seed ∧ g.seed < 2147483648 ∧
      ∃ m, s.picked session.job.loaded.refId = some m ∧ RendersWith m g

variable {cfg : Config} {floatOf : Str → Option ℚ} {env : Env} {s s' : Rendering} {l : RenderLabel}

theorem ok_init : init.Ok cfg env where
  sys := Sys.ok_init
  chosen ref a h := by
    rcases h with h | ⟨session, h, -⟩
    · cases h
    · cases h
  recorded session h := by cases h

/-- A step picks nothing for an image there is. -/
theorem Steps.picked_eq {l' : Label} (h : Steps floatOf env s s' l') (hmoves : Moves cfg s.sys l' s'.sys)
    (hs : s.sys.Ok cfg) {ref : ℤ} {a : Asset .image} (ha : s.sys.HasAsset .image ref a) :
    s'.picked ref = s.picked ref := by
  cases h with
  | request _ hl hpicked _ =>
      subst hl
      rw [hpicked]
      split_ifs with hnew
      · exact Function.update_of_ne (ha.ne_fresh hs hmoves.fresh_of_persist) ..
      · rfl
  | render _ _ hpicked _ => rw [hpicked]
  | other _ hpicked _ => rw [hpicked]

/-- The columns that a call of the processor leaves. -/
theorem Steps.of_call {act : Act .image} {attrs : ImageAttrs} {session : Session .image}
    (h : Steps floatOf env s s' (.worker .image act)) (hact : act.attrs = some attrs)
    (hpc : s.sys.workers .image = .call session)
    (hold : Chosen env s.picked session.job.loaded.refId session.asset.cur.attrs) :
    Chosen env s'.picked session.job.loaded.refId attrs ∧ ∀ g, s'.graph = some g →
      Records g attrs ∧ 0 ≤ g.seed ∧ g.seed < 2147483648 ∧
        ∃ m, s'.picked session.job.loaded.refId = some m ∧ RendersWith m g := by
  rcases h with ⟨-, hl, -, -⟩ | @⟨session', seed, exc, outcome, hpc', hl, hpicked, hgraph⟩ | ⟨hl, -, -⟩
  · cases hl
  · obtain rfl := Pc.call.inj (hpc'.symm.trans hpc)
    obtain ⟨m, hm, hcat, hcheckpoint⟩ := hold
    obtain ⟨attrs', hattrs, hname, hspec⟩ := processor_spec floatOf hcat (defaultName env) hcheckpoint
      seed exc outcome
    obtain rfl : act = _ := Label.worker_inj hl
    obtain rfl : attrs = attrs' := Option.some.inj (hact.symm.trans hattrs)
    rw [hpicked, hgraph]
    refine ⟨⟨m, hm, hcat, hname⟩, fun g hg => ?_⟩
    obtain ⟨hrecords, hrenders, hseed⟩ := hspec g hg
    exact ⟨hrecords, hseed.1, hseed.2, m, hm, hrenders⟩
  · rw [Label.isOther, hact] at hl
    cases hl

/-- Only a call of the processor submits a graph. -/
theorem Steps.graph_eq {l' : Label} (h : Steps floatOf env s s' l')
    (hl : ∀ act : Act .image, l' = .worker .image act → act.attrs = none) : s'.graph = s.graph := by
  rcases h with ⟨-, -, -, hgraph⟩ | @⟨session, seed, exc, outcome, -, hl', -, -⟩ | ⟨-, -, hgraph⟩
  · exact hgraph
  · obtain ⟨attrs, hattrs⟩ := exists_attrs_processor floatOf env (defaultName env) session.asset.cur.attrs
      seed exc outcome
    cases hattrs.symm.trans (hl _ hl')
  · exact hgraph

/-- A new image has the checkpoint its request selected. -/
theorem Steps.chosen_new {b : PersistArgs} {ids : NewIds} {r : Reply}
    (h : Steps floatOf env s s' (.persist b ids r)) (hr : r.takesEffect = true)
    (hw : b.wants .image = true) :
    Chosen env s'.picked (ids.asset .image) (newAsset b ids .image).attrs := by
  rcases h with @⟨req, result, ids', r', b', hb, hl, hpicked, -⟩ | ⟨-, hl, -, -⟩ | ⟨hl, -, -⟩
  · cases hl
    obtain ⟨m, hm, rfl⟩ := Option.map_eq_some_iff.1 hb
    refine ⟨m, ?_, mem_of_resolve hm, rfl⟩
    have hwants : req.generateImage = true := hw
    rw [hpicked, if_pos ⟨hr, hwants⟩, Function.update_self, selectModel_eq_resolve, hm]
  · cases hl
  · cases hl

theorem Ok.step (h : s.Ok cfg env) (hstep : s.step cfg floatOf env l = some s') : s'.Ok cfg env := by
  obtain ⟨l', hmoves, hsteps⟩ := steps_of_step hstep
  refine ⟨hmoves.ok h.sys, fun ref a ha => ?_, fun session hsession g hg => ?_⟩
  · cases hmoves.origin h.sys ha with
    | held hold => exact (h.chosen ref a hold).congr (hsteps.picked_eq hmoves h.sys hold)
    | @created b ids r hl hr hw =>
        subst hl
        exact hsteps.chosen_new hr hw
    | status hold => exact (h.chosen ref _ hold).congr (hsteps.picked_eq hmoves h.sys hold)
    | @raised session exc attrs wrote st hpc hl hst =>
        rcases hl with rfl | rfl <;>
          exact (hsteps.of_call rfl hpc (h.chosen _ _ (Sys.hasAsset_of_call hpc))).1
    | @returned session path attrs wrote hpc hl =>
        subst hl
        exact (hsteps.of_call rfl hpc (h.chosen _ _ (Sys.hasAsset_of_call hpc))).1
  · rcases hmoves.worker_cases .image with ⟨act, rfl, hw⟩ | ⟨hl, hsame⟩
    · have hin := hw.inSession (Pc.session_of_attempted hsession)
      rcases hin.attempted_cases hsession with
        ⟨session₀, hpc, hact, href, hattrs⟩ | ⟨session₀, hpc, href, hact⟩
      · have hgraph := hsteps.graph_eq fun act' hl => Label.worker_inj hl ▸ hact
        obtain ⟨hrecords, hpos, hlt, m, hm, hrenders⟩ := h.recorded session₀ hpc g (hgraph ▸ hg)
        have hpicked := hsteps.picked_eq hmoves h.sys (Sys.hasAsset_of_attempted hpc)
        rw [hattrs, href]
        exact ⟨hrecords, hpos, hlt, m, hpicked.trans hm, hrenders⟩
      · rw [href]
        exact (hsteps.of_call hact hpc (h.chosen _ _ (Sys.hasAsset_of_call hpc))).2 g hg
    · have hgraph := hsteps.graph_eq fun act hl' => absurd hl' (hl act)
      rw [hsame] at hsession
      obtain ⟨hrecords, hpos, hlt, m, hm, hrenders⟩ := h.recorded session hsession g (hgraph ▸ hg)
      have hpicked := hsteps.picked_eq hmoves h.sys (Sys.hasAsset_of_attempted hsession)
      exact ⟨hrecords, hpos, hlt, m, hpicked.trans hm, hrenders⟩

/-- **Run lemma.** -/
theorem run_ok {ls : List RenderLabel} (hr : Runs.run (Rendering.step cfg floatOf env) init ls = some s) :
    s.Ok cfg env :=
  Runs.run_invariant (P := fun _ _ => True) (fun _ _ _ hs _ h => hs.step h) ok_init
    (Runs.along_of_forall fun _ _ _ => trivial) hr

end Rendering

theorem RendersWith.ckptName {m : ImageModel} {g : Workflow} (h : RendersWith m g) : g.ckptName = m.name := by
  obtain ⟨prompt, negative, seed, steps, cfg, width, height, rfl⟩ := h
  rfl

-- a request for `sdxl.safetensors`, and the image worker's first attempt for it
example :
    let labels : List RenderLabel :=
      .request { character := .sayori, model := some "sdxl.safetensors".toList } Sample.args.result
          Sample.ids .ok ::
        Sample.called.tail.map .other ++ [.render ⟨7, by decide⟩ [] (.raises "timeout".toList [])]
    ((Runs.run (Rendering.step (Sample.config 1) (fun _ => some 7) fun _ => none) Rendering.init
      labels).bind Rendering.graph).map (fun g => (g.ckptName, g.seed, g.width)) =
        some ("sdxl.safetensors".toList, 7, 1024) := by decide +kernel

end PoetryGenerator
