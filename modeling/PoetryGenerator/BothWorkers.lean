/-
# Both workers at once

`Drain` has a restarted worker alone.  Here both workers are restarted and their operations
come in any order.  What one of them does leaves alone what the other one has to do: its lists,
its retry counters and its open jobs (`World.LeavesType`).  So each of them still knows what it
knows on its own, and only its own operations count in its measure.

After as many operations of each as `drainBound` says nothing is left of either type, and the
page shows the last answer for every poem (`answers_final_of_restarts`).
-/

import PoetryGenerator.Drain
import PoetryGenerator.PoemReads

namespace PoetryGenerator

open Numerals

/-- An operation of a worker that is answered. -/
def Label.tends : Label → Bool
  | .worker _ a => a.answered
  | _ => false

/-- An operation of the worker of a type. -/
def Label.isOf (t : JobType) : Label → Bool
  | .worker u _ => t = u
  | _ => false

variable {cfg : Config} {t u : JobType} {w w' : World} {s s' : Sys} {l : Label} {pc : Pc t}

/-- What concerns a type is as it was. -/
structure World.LeavesType (t : JobType) (w w' : World) : Prop where
  queue : w'.redis.queue t = w.redis.queue t
  processing : w'.redis.processing t = w.redis.processing t
  retry : ∀ id, w'.redis.retry t id = w.redis.retry t id
  jobs : w'.hist.jobs = w.hist.jobs
  present : ∀ id, (w.db.job id).isSome → (w'.db.job id).isSome
  openIds : ∀ id, id ∈ w'.openIds t ↔ id ∈ w.openIds t

/-- An operation of one worker leaves the other type alone. -/
theorem Moves.leavesType {a : Act u} (h : Moves cfg s (.worker u a) s') (hs : s.Ok cfg)
    (hu : t ≠ u) : s.world.LeavesType t s'.world ∧ s'.workers t = s.workers t := by
  have hne : ∀ b, Label.worker u a ≠ .worker t b := fun b hb => hu (by cases hb; rfl)
  have hworker : s'.workers t = s.workers t := by
    rcases h.worker_cases t with ⟨b, hb, -⟩ | ⟨-, hsame⟩
    · exact absurd hb (hne b)
    · exact hsame
  obtain ⟨b, hb, hp⟩ | ⟨hne', -⟩ := h.worker_cases u
  · obtain ⟨hqueue, hprocessing⟩ := hp.lists_other hu
    obtain ⟨-, hjob⟩ := hp.others (hs.workers u) hs.rows hu
    refine ⟨⟨hqueue, hprocessing, fun id => ?_, (hp.hist (hs.workers u)).2.1, fun id => ?_,
      fun id => ?_⟩, hworker⟩
    · rcases h.retry hs rfl t id with hsame | ⟨⟨c, hc⟩, -⟩
      · exact hsame
      · exact absurd hc (hne c)
    · rw [Option.isSome_iff_ne_none, Option.isSome_iff_ne_none]
      exact h.job_stays hs fun _ _ => nofun
    · rw [World.mem_openIds, World.mem_openIds]
      constructor
      · rintro ⟨job, hj, ht, hst⟩
        exact ⟨job, (hjob id job ht).1 hj, ht, hst⟩
      · rintro ⟨job, hj, ht, hst⟩
        exact ⟨job, (hjob id job ht).2 hj, ht, hst⟩
  · exact absurd rfl (hne' a)

theorem World.LeavesType.queued (h : w.LeavesType t w') {ids : List ℤ} (hq : w.Queued t ids) :
    w'.Queued t ids := fun id hid =>
  (hq id ((h.openIds id).1 hid)).imp_left fun hmem => h.queue.symm ▸ hmem

/-- A worker still knows what it knows on its own. -/
theorem Pc.Alone.leavesType (hal : pc.Alone w) (h : w.LeavesType t w') : pc.Alone w' := by
  have hhand : ∀ {l : List Raw} {ids : List ℤ}, w.redis.processing t = l ∧ w.Queued t ids →
      w'.redis.processing t = l ∧ w'.Queued t ids :=
    fun hal => ⟨h.processing.trans hal.1, h.queued hal.2⟩
  have hidle : w.redis.processing t = [] → w'.redis.processing t = [] := h.processing.trans
  have hseen : ∀ {seen : List ℤ}, seen = idsOf (w.redis.queue t) →
      seen = idsOf (w'.redis.queue t) := fun hs => h.queue.symm ▸ hs
  cases pc with
  | dead => trivial
  | reap ph =>
      cases ph with
      | startup => trivial
      | maintenance => exact hhand hal
  | readQueue ph =>
      cases ph with
      | startup => exact hidle hal
      | maintenance => exact hhand hal
  | readProcessing ph seen | select ph seen =>
      cases ph with
      | startup => exact ⟨hidle hal.1, hseen hal.2⟩
      | maintenance => exact ⟨hhand hal.1, hseen hal.2⟩
  | reenqueue ph ids =>
      cases ph with
      | startup => exact ⟨hhand hal.1, hal.2⟩
      | maintenance => exact hal.elim
  | pop | tick | getJob | requeue | ack => exact hhand hal
  | getAsset | commitMissing | commitRunning | call | incr | expire | commitFinal =>
      exact ⟨hhand hal.1, h.present _ hal.2⟩

/-- Nor does it have more to do. -/
theorem World.LeavesType.workLeft (h : w.LeavesType t w') (pc : Pc t) :
    workLeft cfg w' pc = workLeft cfg w pc := by
  have hbudget : w'.budget cfg t = w.budget cfg t := by
    rw [World.budget, World.budget, h.jobs]
    simp only [h.retry]
  have hnodup : ∀ w : World, (w.openIds t).Nodup := fun w => by
    rw [World.openIds, Db.jobIds]
    exact Table.nodup_selectKeys ..
  have hopen : (w'.openIds t).length = (w.openIds t).length :=
    ((List.perm_ext_iff_of_nodup (hnodup w') (hnodup w)).2 h.openIds).length_eq
  have hwork : pc.work cfg w' = pc.work cfg w := by
    cases pc with
    | reap ph | readQueue ph | readProcessing ph | select ph =>
        cases ph <;> simp only [Pc.work, h.processing, hopen]
    | dead => simp only [Pc.work, h.processing, hopen]
    | _ => rfl
  rw [PoetryGenerator.workLeft, PoetryGenerator.workLeft, hbudget, h.queue, hwork]

/-- **Step lemma.**  An operation of a worker that is answered leaves each type with less to do
if it is its own, and as much otherwise. -/
theorem OkAlone.tends (hs : s.OkAlone cfg t) (hl : l.tends = true) (h : step cfg s l = some s') :
    s'.OkAlone cfg t ∧
      (Quiet s.world (s.workers t) → Quiet s'.world (s'.workers t)) ∧
      (¬ Quiet s.world (s.workers t) →
        workLeft cfg s'.world (s'.workers t) + (l.isOf t).toNat ≤
          workLeft cfg s.world (s.workers t)) := by
  cases l with
  | worker u a =>
      by_cases hu : t = u
      · subst hu
        have hs' := hs.step hl h
        have hp := performs_of_aloneStep h
        refine ⟨hs', hp.quiet hl hs.2 hs'.2, fun hq => ?_⟩
        have hlt := hp.workLeft_lt hl (hs.1.workers t) hs.2 hs'.2 hq
        rw [Label.isOf, decide_eq_true rfl]
        exact hlt
      · obtain ⟨hleaves, hsame⟩ := (moves_of_step h).leavesType hs.1 hu
        rw [Sys.OkAlone, hsame, Label.isOf, decide_eq_false hu, hleaves.workLeft]
        refine ⟨⟨(moves_of_step h).ok hs.1, hs.2.leavesType hleaves⟩, fun hq => ?_, fun _ => le_rfl⟩
        exact ⟨hleaves.queue.trans hq.1, hq.2⟩
  | _ => cases hl

/-- **Run lemma.**  After enough operations of its worker a type is settled, whatever the other
worker does between them. -/
theorem settled_of_tends {ls : List Label} (hs : s.OkAlone cfg t) (hls : ∀ l ∈ ls, l.tends = true)
    (hr : run cfg s ls = some s')
    (hlen : workLeft cfg s.world (s.workers t) < ls.countP (Label.isOf t)) :
    s'.world.redis.queue t = [] ∧ s'.world.redis.processing t = [] ∧
      ∀ id job, s'.world.db.job id = some job → job.type = t →
        job.status = .done ∨ job.status = .failed := by
  have hP : Runs.Along (step cfg) (fun _ l => l.tends = true) s ls :=
    Runs.along_of_forall fun _ => hls
  have hs' : s'.OkAlone cfg t :=
    Runs.run_invariant (fun _ _ _ hs hl h => (OkAlone.tends hs hl h).1) hs hP hr
  refine hs'.2.settled (Runs.run_reaches_countP (I := Sys.OkAlone cfg t)
    (Q := fun s => Quiet s.world (s.workers t)) (m := fun s => workLeft cfg s.world (s.workers t))
    (Label.isOf t) (fun _ _ _ hs hl h => (OkAlone.tends hs hl h).1)
    (fun _ _ _ hs hl hq h => (OkAlone.tends hs hl h).2.1 hq)
    (fun _ _ _ hs hl hq h => (OkAlone.tends hs hl h).2.2 hq) hs hP hr hlen)

/-- Both workers are restarted. -/
def restarts : List Label := (restart .image).map (.worker .image) ++ (restart .audio).map (.worker .audio)

theorem run_restarts (s : Sys) :
    run cfg s restarts = some { s with workers := fun _ => .reap .startup } := by
  refine (Runs.run_append_eq_some.2 ⟨_, run_restart s, run_restart _⟩).trans ?_
  have hworkers : Function.update (Function.update s.workers .image (.reap .startup)) .audio
      (.reap .startup) = fun _ => .reap .startup := by
    funext t
    cases t <;> rfl
  exact congrArg (fun workers => some { s with workers }) hworkers

theorem okAlone_of_restarts (hs : s.Ok cfg) (t : JobType) :
    Sys.OkAlone cfg t { s with workers := fun _ => .reap .startup } :=
  ⟨Runs.run_invariant (P := fun _ _ => True) (fun _ _ _ hs _ h => (moves_of_step h).ok hs) hs
    (Runs.along_of_forall fun _ _ _ => trivial) (run_restarts s), trivial⟩

/-- After more than `drainBound` operations of each worker both are through. -/
theorem settled_of_restarts {ls acts : List Label} (hr : run cfg Sys.init ls = some s)
    (hacts : ∀ l ∈ acts, l.tends = true) (hr' : run cfg s (restarts ++ acts) = some s')
    (hlen : ∀ t, s.world.drainBound cfg t < acts.countP (Label.isOf t)) :
    (∀ t, s'.world.redis.queue t = [] ∧ s'.world.redis.processing t = []) ∧
    ∀ id job, s'.world.db.job id = some job → job.status = .done ∨ job.status = .failed := by
  obtain ⟨s₁, hr₁, hr₂⟩ := Runs.run_append_eq_some.1 hr'
  obtain rfl := Option.some.inj ((run_restarts s).symm.trans hr₁)
  have hsettled := fun t =>
    settled_of_tends (okAlone_of_restarts (run_ok hr) t) hacts hr₂ (hlen t)
  exact ⟨fun t => ⟨(hsettled t).1, (hsettled t).2.1⟩,
    fun id job hj => (hsettled job.type).2.2 id job hj rfl⟩

/-- Then no answer for a poem has an asset that is being produced. -/
theorem World.RowsOk.not_pending (hw : w.RowsOk)
    (hjobs : ∀ id job, w.db.job id = some job → job.status = .done ∨ job.status = .failed)
    {p : ℤ} {d : PoemDetail} (hd : readPoem w.db w.db w.db p = some d) : d.view.pending = false := by
  obtain ⟨row, -, rfl⟩ := Option.map_eq_some_iff.1 hd
  refine Bool.eq_false_iff.2 fun hpending => ?_
  obtain ⟨id, job, hj, hopen, -⟩ := hw.pending_iff.1 hpending
  rw [job.status.open_iff] at hopen
  rcases hjobs id job hj with hst | hst <;> exact hopen (hst ▸ by decide)

/-- **The last answers.**  From every reachable state, when both workers are restarted and
nothing but their operations follows, in any order and without one raising, then after more than
`drainBound` operations of each worker all lists are empty, every job is done or failed, and
the page arms no timer for the answer of any poem. -/
theorem answers_final_of_restarts {ls acts : List Label} (hr : run cfg Sys.init ls = some s)
    (hacts : ∀ l ∈ acts, l.tends = true) (hr' : run cfg s (restarts ++ acts) = some s')
    (hlen : ∀ t, s.world.drainBound cfg t < acts.countP (Label.isOf t)) :
    (∀ t, s'.world.redis.queue t = [] ∧ s'.world.redis.processing t = []) ∧
    (∀ id job, s'.world.db.job id = some job → job.status = .done ∨ job.status = .failed) ∧
    ∀ p d, readPoem s'.world.db s'.world.db s'.world.db p = some d →
      HomePage.effect (some d.view) = none := by
  obtain ⟨hlists, hjobs⟩ := settled_of_restarts hr hacts hr' hlen
  have hok : s'.Ok cfg := run_ok (Runs.run_append_eq_some.2 ⟨s, hr, hr'⟩)
  exact ⟨hlists, hjobs, fun p d hd => if_neg (Bool.eq_false_iff.1 (hok.rows.not_pending hjobs hd))⟩

namespace Sample

/-- The image worker finds the job and makes the image while the audio worker starts. -/
def interleaved : List Label :=
  [.worker .audio (.reply .ok), ok, ok, ok, .worker .audio (.reply .ok), act (.rows [1]), ok, ok,
    .worker .audio (.reply .ok), ok, ok, ok, .worker .audio (.rows []),
    act (.returns "/data/images/1_a.png".toList attrs []), .worker .audio (.reply .ok), ok, ok,
    act (.due false)]

/-- They are followed by so many rounds of the image worker. -/
def interleavedRounds : List Label := interleaved ++ (rounds 64).map (.worker .image)

theorem tends_interleavedRounds : ∀ l ∈ interleavedRounds, l.tends = true := by
  refine List.forall_mem_append.2 ⟨by decide, List.forall_mem_map.2 fun a ha => ?_⟩
  exact Act.answered_of_succeeds (succeeds_rounds 64 a ha)

theorem lt_countP_interleavedRounds {w : World} (himage : w.drainBound (config 0) .image = 101)
    (haudio : w.drainBound (config 0) .audio = 4) (t : JobType) :
    w.drainBound (config 0) t < interleavedRounds.countP (Label.isOf t) := by
  have hrounds : ((rounds 64).map (Label.worker .image)).countP (Label.isOf .image) = 128 := by
    rw [List.countP_eq_length.2 (List.forall_mem_map.2 fun _ _ => rfl), List.length_map,
      length_rounds]
  rw [interleavedRounds, List.countP_append]
  cases t with
  | image =>
      rw [himage, hrounds]
      decide
  | audio =>
      rw [haudio]
      exact Nat.lt_add_right _ (by decide)

theorem run_interleavedRounds {s s' : Sys} (hr : run (config 0) s (restarts ++ interleaved) = some s')
    (hpc : s'.workers .image = .pop) (hq : s'.world.redis.queue .image = []) :
    run (config 0) s (restarts ++ interleavedRounds) = some s' := by
  rw [interleavedRounds, ← List.append_assoc]
  exact Runs.run_append_eq_some.2 ⟨s', hr, run_rounds hpc hq 64⟩

end Sample

/-- The image of a poem whose job was committed, but never pushed, is made. -/
theorem answers_final_interleaved : ∃ s s', run (Sample.config 0) Sys.init
      [.persist { Sample.args with generateAudio := false } Sample.ids .ok] = some s ∧
    run (Sample.config 0) s (restarts ++
      (Sample.interleaved ++ (Sample.rounds 64).map (.worker .image))) = some s' ∧
    (s'.world.db.job 1).map Job.status = some .done ∧ s'.world.redis.queue .image = [] ∧
    ∀ p d, readPoem s'.world.db s'.world.db s'.world.db p = some d →
      HomePage.effect (some d.view) = none := by
  have hmade : ∃ s s', run (Sample.config 0) Sys.init
        [.persist { Sample.args with generateAudio := false } Sample.ids .ok] = some s ∧
      run (Sample.config 0) s (restarts ++ Sample.interleaved) = some s' ∧ s'.workers .image = .pop ∧
      s'.world.redis.queue .image = [] ∧ s.world.drainBound (Sample.config 0) .image = 101 ∧
      s.world.drainBound (Sample.config 0) .audio = 4 ∧
      (s'.world.db.job 1).map Job.status = some .done :=
    ⟨_, _, rfl, rfl, rfl, rfl, by decide, by decide, rfl⟩
  obtain ⟨s, s', hr, hr', hpc, hq, himage, haudio, hdone⟩ := hmade
  have hr' := Sample.run_interleavedRounds hr' hpc hq
  obtain ⟨-, -, hlast⟩ := answers_final_of_restarts hr Sample.tends_interleavedRounds hr'
    (Sample.lt_countP_interleavedRounds himage haudio)
  exact ⟨s, s', hr, hr', hdone, hq, hlast⟩

end PoetryGenerator
