/-
# Generating a poem (`api/app/service.py` and the endpoint in `api/app/main.py`)

A request is validated, its image model is looked up in the catalogue, the
generator is called, and `GenerationService.generate` commits the rows and pushes
one id for each job.  The commit and the pushes go to two stores, and any of them
may fail after those before it took effect; `generate_cases` says what is then
left behind.
-/

import PoetryGenerator.ImageModels
import PoetryGenerator.System

namespace PoetryGenerator

/-- `Character`. -/
inductive Character
  | sayori
  | natsuki
  | yuri
  | monika
deriving DecidableEq, Repr

/-- The value of a member of the enumeration. -/
def Character.value : Character → Str
  | sayori => "sayori".toList
  | natsuki => "natsuki".toList
  | yuri => "yuri".toList
  | monika => "monika".toList

/-- `LANGS`. -/
def langs : List Str := ["en".toList, "ja".toList]

/-- A request that passed the validation of `GenerateRequest`. -/
structure GenerateRequest where
  character : Character
  theme : Option Str := none
  theme_le : ∀ s ∈ theme, s.length ≤ 200 := by decide
  lang : Str := "en".toList
  lang_mem : lang ∈ langs := by decide
  generateImage : Bool := true
  generateAudio : Bool := true
  model : Option Str := none
  model_le : ∀ s ∈ model, s.length ≤ 200 := by decide
  imagePromptExtra : Option Str := none
  imagePromptExtra_le : ∀ s ∈ imagePromptExtra, s.length ≤ 500 := by decide

/-- `PoemConfig.model`, from `POEM_MODEL`. -/
def poemModel (env : Env) : Str := (env "POEM_MODEL".toList).getD "claude-sonnet-4-6".toList

namespace GenerateRequest

/-- What `PoemGenerator.generate` makes of a reply it accepts: the character is that of
the request, not of the model. -/
def accept (req : GenerateRequest) (result : PoemResult) : PoemResult :=
  { result with character := req.character.value }

/-- The arguments of `persist_poem`; nothing for a request that is answered with the
status 422 for its image model. -/
def persistArgs (req : GenerateRequest) (env : Env) (result : PoemResult) : Option PersistArgs :=
  (ImageModels.resolve req.model env).map fun imageModel =>
    { result := req.accept result
      theme := req.theme
      lang := req.lang
      model := some (poemModel env)
      imageCheckpoint := some imageModel.name
      generateImage := req.generateImage
      generateAudio := req.generateAudio
      imagePromptExtra := req.imagePromptExtra }

end GenerateRequest

/-! ### GenerationService.generate -/

/-- The outcomes of the operations of one call.  Without a result the generator raises. -/
structure Outcomes where
  generator : Option PoemResult
  /-- The flush and the commit of `persist_poem`. -/
  commit : Reply
  /-- `session.refresh(poem)`. -/
  refresh : Reply
  /-- The push for the job of a type. -/
  enqueue : JobType → Reply

/-- `for job in jobs: self.queue.enqueue(job.type, job.id)`, and whether it ends. -/
def enqueueAll (o : Outcomes) (w : World) : List (JobType × ℤ) → Bool × World
  | [] => (true, w)
  | (t, id) :: jobs =>
    if o.enqueue t = .ok then enqueueAll o (w.rpush .ok t id) jobs
    else (false, w.rpush (o.enqueue t) t id)

/-- `GenerationService.generate`: the id of the poem it returns, or nothing when it raises. -/
def generate (o : Outcomes) (args : PoemResult → PersistArgs) (ids : NewIds) (w : World) :
    Option ℤ × World :=
  match o.generator with
  | none => (none, w)
  | some result =>
    let persisted := if o.commit.takesEffect then w.persist (args result) ids else w
    if o.commit ≠ .ok ∨ o.refresh ≠ .ok then (none, persisted)
    else
      let (done, w) := enqueueAll o persisted (persistPoem w.db (args result) ids).2
      (if done then some ids.poem else none, w)

/-! ### What is left behind -/

/-- The world after the pushes of some jobs. -/
def World.pushJobs (w : World) (jobs : List (JobType × ℤ)) : World :=
  jobs.foldl (fun w j => w.rpush .ok j.1 j.2) w

theorem World.db_pushJobs (w : World) (jobs : List (JobType × ℤ)) : (w.pushJobs jobs).db = w.db := by
  induction jobs generalizing w with
  | nil => rfl
  | cons j jobs ih => exact (ih _).trans (World.db_rpush ..)

variable {o : Outcomes} {args : PoemResult → PersistArgs} {ids : NewIds} {w : World}

/-- **Pushing the ids of some jobs** pushes all of them, or a prefix: the push that raises
may have taken effect. -/
theorem enqueueAll_cases (o : Outcomes) (w : World) (jobs : List (JobType × ℤ)) :
    enqueueAll o w jobs = (true, w.pushJobs jobs) ∨
      ∃ pre, pre <+: jobs ∧ enqueueAll o w jobs = (false, w.pushJobs pre) := by
  induction jobs generalizing w with
  | nil => exact .inl rfl
  | cons j jobs ih =>
      obtain ⟨t, id⟩ := j
      rw [enqueueAll]
      split_ifs with hok
      · rcases ih (w.rpush .ok t id) with hall | ⟨pre, hpre, hsome⟩
        · exact .inl hall
        · exact .inr ⟨(t, id) :: pre, List.cons_prefix_cons.2 ⟨rfl, hpre⟩, hsome⟩
      · by_cases heffect : (o.enqueue t).takesEffect = true
        · refine .inr ⟨[(t, id)], List.cons_prefix_cons.2 ⟨rfl, List.nil_prefix⟩, ?_⟩
          have heq : w.rpush (o.enqueue t) t id = w.rpush .ok t id := by
            rw [World.rpush, if_pos heffect]
            rfl
          exact congrArg (Prod.mk false) heq
        · exact .inr ⟨[], List.nil_prefix, congrArg (Prod.mk false) (if_neg heffect)⟩

/-- The rows of a call are committed: the poem, the selected assets, and a queued job for
each of them. -/
def World.Holds (w : World) (a : PersistArgs) (ids : NewIds) : Prop :=
  w.db.poem ids.poem = some a.poem ∧ ∀ t, a.wants t = true →
    w.db.asset t (ids.asset t) = some (newAsset a ids t) ∧
      w.db.job (ids.job t) = some (newJob ids t)

theorem holds_persist (a : PersistArgs) (hids : w.hist.Fresh ids) : (w.persist a ids).Holds a ids := by
  refine ⟨?_, fun t ht => ⟨?_, ?_⟩⟩
  · exact (poem_persistPoem ..).trans (if_pos rfl)
  · exact (asset_persistPoem ..).trans (if_pos ⟨ht, rfl⟩)
  · exact (job_persistPoem w.db a ids hids.2.1).2 (.inl ⟨t, ht, rfl, rfl⟩)

/-- **What a call leaves behind.**  Either nothing is changed and the call raises; or all
its rows are committed, and it returns the poem with every id pushed, or raises with the
ids of a prefix of the jobs pushed and nothing else changed. -/
theorem generate_cases (o : Outcomes) (args : PoemResult → PersistArgs) (hids : w.hist.Fresh ids) :
    generate o args ids w = (none, w) ∨
      ∃ result, o.generator = some result ∧ (generate o args ids w).2.Holds (args result) ids ∧
        (generate o args ids w =
            (some ids.poem, (w.persist (args result) ids).pushJobs
              (persistPoem w.db (args result) ids).2) ∨
          ∃ pre, pre <+: (persistPoem w.db (args result) ids).2 ∧
            generate o args ids w = (none, (w.persist (args result) ids).pushJobs pre)) := by
  unfold generate
  cases hgen : o.generator with
  | none => exact .inl rfl
  | some result =>
      have hholds : ∀ jobs, ((w.persist (args result) ids).pushJobs jobs).Holds (args result) ids :=
        fun jobs => by
          unfold World.Holds
          rw [World.db_pushJobs]
          exact holds_persist _ hids
      simp only
      by_cases heffect : o.commit.takesEffect = true
      · refine .inr ⟨result, rfl, ?_⟩
        simp only [if_pos heffect]
        by_cases hraise : o.commit ≠ .ok ∨ o.refresh ≠ .ok
        · rw [if_pos hraise]
          exact ⟨hholds [], .inr ⟨[], List.nil_prefix, rfl⟩⟩
        · rw [if_neg hraise]
          rcases enqueueAll_cases o (w.persist (args result) ids)
            (persistPoem w.db (args result) ids).2 with hall | ⟨pre, hpre, hsome⟩
          · rw [hall]
            exact ⟨hholds _, .inl rfl⟩
          · rw [hsome]
            exact ⟨hholds pre, .inr ⟨pre, hpre, rfl⟩⟩
      · have hraise : o.commit ≠ .ok ∨ o.refresh ≠ .ok :=
          .inl fun hok => heffect (by rw [hok]; rfl)
        exact .inl (by rw [if_pos hraise, if_neg heffect])

/-- The push of the image job raises: the client gets an error, and the poem is there with
a queued job. -/
theorem generate_push_raises :
    let o : Outcomes := ⟨some Sample.args.result, .ok, .ok, fun _ => .before .other⟩
    let (answer, w) := generate o (fun _ => Sample.args) Sample.ids .empty
    answer = none ∧ w.db.poem 1 = some Sample.args.poem ∧
      w.db.job 1 = some ⟨.image, 1, .queued, none⟩ ∧ w.hist.pushed = [] := by
  decide

/-- Both pushes of a call take effect, the second one raises. -/
theorem generate_cases_second_raises :
    let o : Outcomes := ⟨some Sample.args.result, .ok, .ok,
      fun | .image => .ok | .audio => .after .other⟩
    (generate o (fun _ => Sample.args) Sample.ids .empty).1 = none ∧
      (generate o (fun _ => Sample.args) Sample.ids .empty).2.Holds Sample.args Sample.ids := by
  intro o
  have hids : World.empty.hist.Fresh Sample.ids := by decide
  refine ⟨by decide, ?_⟩
  rcases generate_cases o (fun _ => Sample.args) hids with hnothing | ⟨_, -, hholds, -⟩
  · exact absurd (congrArg (fun x => x.2.hist.pushed) hnothing) (by decide)
  · exact hholds

/-! ### As steps of the system -/

/-- The pushes of the last request are steps of the system. -/
theorem exists_run_enqueueAll (cfg : Config) (o : Outcomes) (s : Sys) (w : World)
    (jobs : List (JobType × ℤ)) :
    ∃ ls, run cfg { s with world := w, requests := s.requests ++ [jobs] } ls =
      some { s with world := (enqueueAll o w jobs).2 } := by
  have hset : ∀ jobs rest, (s.requests ++ [jobs]).set s.requests.length rest =
      s.requests ++ [rest] := fun jobs rest => by
    rw [List.set_append_right _ _ le_rfl, Nat.sub_self, List.set_cons_zero]
  have herase : ∀ jobs, (s.requests ++ [jobs]).eraseIdx s.requests.length = s.requests :=
    fun jobs => by simp [List.eraseIdx_append_of_length_le le_rfl]
  induction jobs generalizing w with
  | nil =>
      refine ⟨[.abandon s.requests.length], Runs.run_cons_eq_some.2 ⟨_, ?_, rfl⟩⟩
      simp only [step, herase, enqueueAll]
  | cons j jobs ih =>
      obtain ⟨t, id⟩ := j
      by_cases hok : o.enqueue t = .ok
      · obtain ⟨ls, hr⟩ := ih (w.rpush .ok t id)
        refine ⟨.push s.requests.length .ok :: ls, Runs.run_cons_eq_some.2
          ⟨{ s with world := w.rpush .ok t id, requests := s.requests ++ [jobs] }, ?_, ?_⟩⟩
        · simp only [step, List.getElem?_concat_length, if_true, hset]
        · rw [enqueueAll, if_pos hok]
          exact hr
      · refine ⟨[.push s.requests.length (o.enqueue t)], Runs.run_cons_eq_some.2 ⟨_, ?_, rfl⟩⟩
        simp only [step, List.getElem?_concat_length, if_neg hok, herase, enqueueAll]

/-- **A call of `generate` is a run of the system**, so what holds in every run holds after
it. -/
theorem exists_run_generate (cfg : Config) (o : Outcomes) (args : PoemResult → PersistArgs)
    (s : Sys) (hids : s.world.hist.Fresh ids) :
    ∃ ls, run cfg s ls = some { s with world := (generate o args ids s.world).2 } := by
  have hafter : ∀ a e, step cfg s (.persist a ids (.after e)) =
      some { s with world := s.world.persist a ids } := fun _ _ => if_pos hids
  have hok : ∀ a, step cfg s (.persist a ids .ok) = some { s with
      world := s.world.persist a ids
      requests := s.requests ++ [(persistPoem s.world.db a ids).2] } := fun _ => if_pos hids
  unfold generate
  cases hgen : o.generator with
  | none => exact ⟨[], rfl⟩
  | some result =>
      simp only
      cases hcommit : o.commit with
      | before e => exact ⟨[], rfl⟩
      | after e =>
          exact ⟨[.persist (args result) ids (.after e)], Runs.run_cons_eq_some.2 ⟨_, hafter _ _, rfl⟩⟩
      | ok =>
          by_cases hrefresh : o.refresh = .ok
          · obtain ⟨ls, hr⟩ := exists_run_enqueueAll cfg o s (s.world.persist (args result) ids)
              (persistPoem s.world.db (args result) ids).2
            refine ⟨.persist (args result) ids .ok :: ls,
              Runs.run_cons_eq_some.2 ⟨_, hok _, hr.trans ?_⟩⟩
            simp [hrefresh, Reply.takesEffect]
          · refine ⟨[.persist (args result) ids (.after .other)],
              Runs.run_cons_eq_some.2 ⟨_, hafter _ _, ?_⟩⟩
            simp [hrefresh, Reply.takesEffect, Runs.run]

end PoetryGenerator
