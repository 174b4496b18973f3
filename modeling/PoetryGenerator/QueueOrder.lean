/-
# The order of the queue

The API and the workers push to the tail of `jobs:<type>`, and the worker takes
from its head.  So, between recoveries, the ids of a type are taken in the order
in which their pushes took effect, whoever pushed them and whatever failed in
between: requests, retries and the reconciler stand in one line.  Only
`reap_stuck`, which puts elements back at the head, lets one pass another.
-/

import PoetryGenerator.Lib.RunLaws
import PoetryGenerator.WorkerState

namespace PoetryGenerator

open Numerals

variable {cfg : Config} {t : JobType} {s s' : Sys} {l : Label}

/-- The element of a type that a step pushes. -/
def Sys.arriving (t : JobType) (s : Sys) : Label → List Raw
  | .push i r =>
    match s.requests[i]? with
    | some ((u, id) :: _) => if u = t ∧ r.takesEffect then [encodeInt id] else []
    | _ => []
  | .worker u (.reply r) =>
    if u = t ∧ r.takesEffect then ((s.workers u).pushing.take 1).map encodeInt else []
  | _ => []

/-- The worker is before the `BLMOVE` of `run_once`. -/
def Pc.isPop : Pc t → Bool
  | pop => true
  | _ => false

/-- The worker is in `reap_stuck`. -/
def Pc.isReap : Pc t → Bool
  | reap _ => true
  | _ => false

/-- The element of a type that a step takes. -/
def Sys.leaving (t : JobType) (s : Sys) : Label → List Raw
  | .worker u (.reply r) =>
    if u = t ∧ r.takesEffect ∧ (s.workers u).isPop then (s.world.redis.queue t).take 1 else []
  | _ => []

/-- The step puts an element back at the head of the line, or replaces the line. -/
def Sys.reorders (t : JobType) (s : Sys) : Label → Bool
  | .worker u (.reply r) =>
    u = t ∧ r.takesEffect ∧ (s.workers u).isReap ∧ s.world.redis.processing t ≠ []
  | .replaceLists u _ _ => u = t
  | _ => false

/-- **An operation of a worker conserves the line.** -/
theorem Performs.flow {w w' : World} {pc pc' : Pc t} {r : Reply}
    (h : Performs cfg t w pc (.reply r) w' pc')
    (hn : ¬ (r.takesEffect = true ∧ pc.isReap = true ∧ w.redis.processing t ≠ [])) :
    w.redis.queue t ++ (if r.takesEffect then (pc.pushing.take 1).map encodeInt else []) =
      (if r.takesEffect ∧ pc.isPop then (w.redis.queue t).take 1 else []) ++ w'.redis.queue t := by
  have hsame : pc.pushing = [] → pc.isPop = false → w'.redis.queue t = w.redis.queue t →
      w.redis.queue t ++ (if r.takesEffect then (pc.pushing.take 1).map encodeInt else []) =
        (if r.takesEffect ∧ pc.isPop then (w.redis.queue t).take 1 else []) ++ w'.redis.queue t := by
    intro hpush hpop hq
    simp [hpush, hpop, hq]
  have hpushed : ∀ id ids, pc.pushing = id :: ids → pc.isPop = false → w' = w.rpush r t id →
      w.redis.queue t ++ (if r.takesEffect then (pc.pushing.take 1).map encodeInt else []) =
        (if r.takesEffect ∧ pc.isPop then (w.redis.queue t).take 1 else []) ++ w'.redis.queue t := by
    rintro id ids hpush hpop rfl
    rw [World.queue_rpush]
    cases hr : r.takesEffect <;> simp [hpush, hpop]
  cases h with
  | reap hp =>
      have hr : r.takesEffect = false :=
        Bool.eq_false_iff.2 fun hr => hn ⟨hr, rfl, by rw [hp]; exact List.cons_ne_nil _ _⟩
      refine hsame rfl rfl ?_
      rw [World.redis_command, hr]
      rfl
  | @pop r raw rest hq =>
      rw [World.redis_command]
      cases hr : r.takesEffect <;> simp [Pc.isPop, Pc.pushing, hq]
  | popEmpty hq => simp [Pc.pushing, hq]
  | reenqueue => exact hpushed _ _ rfl rfl rfl
  | requeue => exact hpushed _ _ rfl rfl rfl
  | incr | ack =>
      refine hsame rfl rfl ?_
      rw [World.redis_command]
      split_ifs
      · first | rfl | exact Redis.queue_lrem ..
      · rfl
  | commitMissing | commitRunning | commitFinal =>
      exact hsame rfl rfl (by rw [World.redis_commit])
  | _ => exact hsame rfl rfl rfl

/-- What is not a reply leaves the lists alone. -/
theorem Performs.queue_eq {w w' : World} {pc pc' : Pc t} {a : Act t}
    (h : Performs cfg t w pc a w' pc') (ha : ∀ r, a ≠ .reply r) :
    w'.redis.queue t = w.redis.queue t := by
  cases h <;> first | rfl | exact absurd rfl (ha _)

/-- **Step lemma.**  Every step conserves the line of a type, unless it reorders it. -/
theorem Moves.flow (h : Moves cfg s l s') (hn : s.reorders t l = false) :
    s.world.redis.queue t ++ s.arriving t l = s.leaving t l ++ s'.world.redis.queue t := by
  cases h with
  | @push i r u id rest hi =>
      simp only [Sys.arriving, hi, Sys.leaving, List.nil_append, World.queue_rpush]
      by_cases hu : u = t
      · subst hu
        cases hr : r.takesEffect <;> simp
      · simp [hu, Ne.symm hu]
  | deleteOp hi hd =>
      have hredis : ∀ {w w' : World} {r pc next}, Deletes cfg w r pc w' next →
          w'.redis = w.redis := by
        intro w w' r pc next hd
        cases hd <;> first | rfl | exact World.redis_commit ..
      simp [Sys.arriving, Sys.leaving, hredis hd]
  | @worker u a w pc hw =>
      by_cases hu : u = t
      · subst hu
        cases a with
        | reply r =>
            have hflow := hw.flow (by simpa [Sys.reorders] using hn)
            simpa [Sys.arriving, Sys.leaving] using hflow
        | _ =>
            have hq := hw.queue_eq fun _ h => by cases h
            simp [Sys.arriving, Sys.leaving, hq]
      · have hq : w.redis.queue t = s.world.redis.queue t := (hw.lists_other (Ne.symm hu)).1
        cases a <;> simp [Sys.arriving, Sys.leaving, hu, hq]
  | @replaceLists u queue processing ht =>
      have hu : t ≠ u := fun h => by simp [Sys.reorders, h] at hn
      simp [Sys.arriving, Sys.leaving, Redis.queue_setLists_of_ne _ _ _ _ hu]
  | _ => exact List.append_nil _

/-- **Between recoveries the queue is first in, first out.**  From any state, in every run in
which no element of the type is put back and its lists are not replaced, what waited and what
was pushed, in the order in which the pushes took effect, is what was taken, in the order in
which it was taken, followed by what waits now. -/
theorem fifo_of_run {ls : List Label} (hr : run cfg s ls = some s')
    (hn : Runs.Along (step cfg) (fun s l => s.reorders t l = false) s ls) :
    s.world.redis.queue t ++ Runs.collect (step cfg) (Sys.arriving t) s ls =
      Runs.collect (step cfg) (Sys.leaving t) s ls ++ s'.world.redis.queue t :=
  Runs.run_flow (fun _ _ _ hp h => (moves_of_step h).flow hp) hn hr

/-- A second poem is requested while the image worker is at the first. -/
def Sample.requestedTwice : List Label :=
  Sample.called ++ [.persist args ids₂ .ok, .push 1 .ok, .push 1 .ok]

theorem fifo_requestedTwice : ∃ s, run (Sample.config 1) Sys.init Sample.requestedTwice = some s ∧
    s.world.redis.queue .image = [encodeInt 3] ∧
    [] ++ Runs.collect (step (Sample.config 1)) (Sys.arriving .image) Sys.init
        Sample.requestedTwice =
      Runs.collect (step (Sample.config 1)) (Sys.leaving .image) Sys.init Sample.requestedTwice ++
        s.world.redis.queue .image := by
  have hrun : ∃ s, run (Sample.config 1) Sys.init Sample.requestedTwice = some s ∧
      s.world.redis.queue .image = [encodeInt 3] := ⟨_, rfl, rfl⟩
  obtain ⟨s, hr, hq⟩ := hrun
  exact ⟨s, hr, hq, fifo_of_run (s := Sys.init) hr (by decide)⟩

end PoetryGenerator
