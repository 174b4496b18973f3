/-
# What one step can do

`workerStep`, `deleteStep` and `step` read as rules, with everything they
require and everything they do.  Each invariant of a run is a case analysis
over these rules, and no proof about runs unfolds the step functions again.
-/

import PoetryGenerator.System

namespace PoetryGenerator

/-- The operations of a worker: one rule for each, and one more where a commit
finds a row gone. -/
inductive Performs (cfg : Config) (t : JobType) : World → Pc t → Act t → World → Pc t → Prop
  | kill {w pc} : Performs cfg t w pc .kill w .dead
  | start {w} : Performs cfg t w .dead .start w (.reap .startup)
  | reap {w ph r raw rest} (hp : w.redis.processing t = raw :: rest) :
      Performs cfg t w (.reap ph) (.reply r)
        (w.command r (w.redis.setLists t (raw :: w.redis.queue t) rest))
        (if r = .ok then .reap ph else .raised ph)
  | drained {w ph r} (hp : w.redis.processing t = []) :
      Performs cfg t w (.reap ph) (.reply r) w (if r = .ok then .readQueue ph else .raised ph)
  | readQueue {w ph r} :
      Performs cfg t w (.readQueue ph) (.reply r) w
        (if r = .ok then .readProcessing ph (idsOf (w.redis.queue t)) else .raised ph)
  | readProcessing {w ph seen r} :
      Performs cfg t w (.readProcessing ph seen) (.reply r) w
        (if r = .ok then .select ph (seen ++ idsOf (w.redis.processing t)) else .raised ph)
  | select {w ph seen ids} (hp : ids.Perm (w.db.jobIds t ph.statuses)) :
      Performs cfg t w (.select ph seen) (.rows ids) w (.reenqueueRest ph (ids.filter (· ∉ seen)))
  | selectRaised {w ph seen r} (hr : r ≠ .ok) :
      Performs cfg t w (.select ph seen) (.reply r) w (.raised ph)
  | reenqueue {w ph id ids r} :
      Performs cfg t w (.reenqueue ph (id :: ids)) (.reply r) (w.rpush r t id)
        (if r = .ok then .reenqueueRest ph ids else .raised ph)
  | pop {w r raw rest} (hq : w.redis.queue t = raw :: rest) :
      Performs cfg t w .pop (.reply r)
        (w.command r (w.redis.setLists t rest (w.redis.processing t ++ [raw])))
        (match r with
          | .ok => .popped cfg (some raw)
          | .before .timeout | .after .timeout => .tick
          | _ => .pop)
  | popEmpty {w r} (hq : w.redis.queue t = []) :
      Performs cfg t w .pop (.reply r) w
        (match r with
          | .ok | .before .timeout | .after .timeout => .tick
          | _ => .pop)
  | getJob {w raw id r} :
      Performs cfg t w (.getJob raw id) (.reply r) w
        (if r = .ok then .gotJob raw id (w.db.job id) else .pop)
  | getAsset {w raw id job r} :
      Performs cfg t w (.getAsset raw id job) (.reply r) w
        (if r = .ok then .gotAsset raw id job (w.db.asset t job.refId) else .pop)
  | commitMissing {w raw id job r jobs} (hc : Tracked.flush Job.write w.db.jobs id job = some jobs) :
      Performs cfg t w (.commitMissing raw id job) (.reply r) (w.commit r { w.db with jobs })
        (if r = .ok then .ack raw else .pop)
  | staleMissing {w raw id job r} (hc : Tracked.flush Job.write w.db.jobs id job = none) :
      Performs cfg t w (.commitMissing raw id job) (.reply r) w .pop
  | commitRunning {w s r db} (hc : Session.commit s w.db = some db) :
      Performs cfg t w (.commitRunning s) (.reply r) (w.commit r db)
        (if r = .ok then .call s.committed else .pop)
  | staleRunning {w s r} (hc : Session.commit s w.db = none) :
      Performs cfg t w (.commitRunning s) (.reply r) w .pop
  | returns {w s path attrs wrote} :
      Performs cfg t w (.call s) (.returns path attrs wrote) (w.write wrote)
        (.ended cfg (s.withAttrs attrs) (.finished path))
  | raises {w s exc attrs wrote} :
      Performs cfg t w (.call s) (.raises exc attrs wrote) (w.write wrote)
        (.incr (s.withAttrs attrs) exc)
  | unsupported {w s exc attrs wrote} :
      Performs cfg t w (.call s) (.unsupported exc attrs wrote) (w.write wrote)
        (.afterUnsupported cfg (s.withAttrs attrs) exc)
  | incr {w s exc r} :
      Performs cfg t w (.incr s exc) (.reply r) (w.command r (w.redis.incr t s.jobId))
        (if r = .ok then .expire s exc (w.redis.retry t s.jobId + 1)
          else .ended cfg s (.failed exc none))
  | expire {w s exc n r} :
      Performs cfg t w (.expire s exc n) (.reply r) w
        (.ended cfg s (.failed exc (if r = .ok then some n else none)))
  | commitFinal {w s e again r db} (hc : Session.commit s w.db = some db) :
      Performs cfg t w (.commitFinal s e again) (.reply r) (w.commit r db)
        (if r = .ok then .processed s.raw s.jobId again else .pop)
  | staleFinal {w s e again r} (hc : Session.commit s w.db = none) :
      Performs cfg t w (.commitFinal s e again) (.reply r) w .pop
  | requeue {w raw id r} :
      Performs cfg t w (.requeue raw id) (.reply r) (w.rpush r t id)
        (if r = .ok then .ack raw else .pop)
  | ack {w raw r} :
      Performs cfg t w (.ack raw) (.reply r) (w.command r (w.redis.lrem t raw))
        (if r = .ok then .tick else .pop)
  | tick {w b} : Performs cfg t w .tick (.due b) w (if b then .reap .maintenance else .pop)

/-- **Every operation of `workerStep` is one of the rules.** -/
theorem performs_of_workerStep {cfg : Config} {t : JobType} {w w' : World} {pc pc' : Pc t} {a : Act t}
    (h : workerStep cfg t w pc a = some (w', pc')) : Performs cfg t w pc a w' pc' := by
  cases a with
  | kill =>
      have hk : workerStep cfg t w pc .kill = some (w, .dead) := by cases pc <;> rfl
      obtain ⟨rfl, rfl⟩ := Prod.mk.inj (Option.some.inj (hk.symm.trans h))
      exact .kill
  | start =>
      cases pc <;> simp only [workerStep, Option.some.injEq, Prod.mk.injEq, reduceCtorEq] at h
      obtain ⟨rfl, rfl⟩ := h
      exact .start
  | rows ids =>
      cases pc <;> simp only [workerStep, reduceCtorEq] at h
      split_ifs at h with hp
      obtain ⟨rfl, rfl⟩ := Prod.mk.inj (Option.some.inj h)
      exact .select hp
  | returns path attrs wrote =>
      cases pc <;> simp only [workerStep, Option.some.injEq, Prod.mk.injEq, reduceCtorEq] at h
      obtain ⟨rfl, rfl⟩ := h
      exact .returns
  | raises exc attrs wrote =>
      cases pc <;> simp only [workerStep, Option.some.injEq, Prod.mk.injEq, reduceCtorEq] at h
      obtain ⟨rfl, rfl⟩ := h
      exact .raises
  | unsupported exc attrs wrote =>
      cases pc <;> simp only [workerStep, Option.some.injEq, Prod.mk.injEq, reduceCtorEq] at h
      obtain ⟨rfl, rfl⟩ := h
      exact .unsupported
  | due b =>
      cases pc <;> simp only [workerStep, Option.some.injEq, Prod.mk.injEq, reduceCtorEq] at h
      obtain ⟨rfl, rfl⟩ := h
      exact .tick
  | reply r =>
      cases pc with
      | dead | call | tick => simp only [workerStep, reduceCtorEq] at h
      | reap ph =>
          rcases w.redis.lmove_cases t with ⟨hp, he⟩ | ⟨raw, rest, hp, he⟩ <;>
            simp only [workerStep, he, Option.some.injEq, Prod.mk.injEq] at h <;>
            obtain ⟨rfl, rfl⟩ := h
          · rw [w.command_self]
            exact .drained hp
          · exact .reap hp
      | readQueue ph =>
          simp only [workerStep, Option.some.injEq, Prod.mk.injEq] at h
          obtain ⟨rfl, rfl⟩ := h
          exact .readQueue
      | readProcessing ph seen =>
          simp only [workerStep, Option.some.injEq, Prod.mk.injEq] at h
          obtain ⟨rfl, rfl⟩ := h
          exact .readProcessing
      | select ph seen =>
          simp only [workerStep] at h
          split_ifs at h with hr
          obtain ⟨rfl, rfl⟩ := Prod.mk.inj (Option.some.inj h)
          exact .selectRaised hr
      | reenqueue ph ids =>
          cases ids with
          | nil => simp only [workerStep, reduceCtorEq] at h
          | cons id ids =>
              simp only [workerStep, Option.some.injEq, Prod.mk.injEq] at h
              obtain ⟨rfl, rfl⟩ := h
              exact .reenqueue
      | pop =>
          rcases w.redis.blmove_cases t with ⟨hq, he⟩ | ⟨raw, rest, hq, he⟩ <;>
            simp only [workerStep, he, Option.some.injEq, Prod.mk.injEq] at h <;>
            obtain ⟨rfl, rfl⟩ := h
          · rw [w.command_self]
            have h : Performs cfg t w .pop (.reply r) w _ := .popEmpty hq
            rcases r with _ | (_ | _) | (_ | _) <;> exact h
          · exact .pop hq
      | getJob raw id =>
          simp only [workerStep, Option.some.injEq, Prod.mk.injEq] at h
          obtain ⟨rfl, rfl⟩ := h
          exact .getJob
      | getAsset raw id job =>
          simp only [workerStep, Option.some.injEq, Prod.mk.injEq] at h
          obtain ⟨rfl, rfl⟩ := h
          exact .getAsset
      | commitMissing raw id job =>
          simp only [workerStep] at h
          split at h <;> obtain ⟨rfl, rfl⟩ := Prod.mk.inj (Option.some.inj h)
          · exact .staleMissing ‹_›
          · exact .commitMissing ‹_›
      | commitRunning s =>
          simp only [workerStep] at h
          split at h <;> obtain ⟨rfl, rfl⟩ := Prod.mk.inj (Option.some.inj h)
          · exact .staleRunning ‹_›
          · exact .commitRunning ‹_›
      | incr s exc =>
          simp only [workerStep, Option.some.injEq, Prod.mk.injEq] at h
          obtain ⟨rfl, rfl⟩ := h
          exact .incr
      | expire s exc n =>
          simp only [workerStep, Option.some.injEq, Prod.mk.injEq] at h
          obtain ⟨rfl, rfl⟩ := h
          exact .expire
      | commitFinal s e again =>
          simp only [workerStep] at h
          split at h <;> obtain ⟨rfl, rfl⟩ := Prod.mk.inj (Option.some.inj h)
          · exact .staleFinal ‹_›
          · exact .commitFinal ‹_›
      | requeue raw id =>
          simp only [workerStep, Option.some.injEq, Prod.mk.injEq] at h
          obtain ⟨rfl, rfl⟩ := h
          exact .requeue
      | ack raw =>
          simp only [workerStep, Option.some.injEq, Prod.mk.injEq] at h
          obtain ⟨rfl, rfl⟩ := h
          exact .ack

/-- The worker is between the reading of a job and the last commit of `process`. -/
def Pc.inProcess {t : JobType} : Pc t → Bool
  | getAsset .. | commitRunning _ | call _ | incr .. | expire .. | commitFinal .. => true
  | _ => false

section InProcess
variable {cfg : Config} {t : JobType}

@[simp] theorem Pc.inProcess_raised (ph : Phase) : (raised ph : Pc t).inProcess = false := by
  cases ph <;> rfl

@[simp] theorem Pc.inProcess_reenqueueRest (ph : Phase) (ids : List ℤ) :
    (reenqueueRest ph ids : Pc t).inProcess = false := by
  cases ids <;> rfl

@[simp] theorem Pc.inProcess_popped (raw : Raw) :
    (popped cfg (some raw) : Pc t).inProcess = false := by
  simp only [popped]
  cases cfg.jobId raw <;> rfl

@[simp] theorem Pc.inProcess_processed (raw : Raw) (id : ℤ) (again : Bool) :
    (processed raw id again : Pc t).inProcess = false := by
  cases again <;> rfl

end InProcess

/-- The operations that lead into `process` or on in it. -/
inductive Processes (cfg : Config) (t : JobType) : World → Pc t → Act t → World → Pc t → Prop
  | loaded {w raw id job} (hj : w.db.job id = some job) (hd : job.status ≠ .done) :
      Processes cfg t w (.getJob raw id) (.reply .ok) w (.getAsset raw id job)
  | started {w raw id job a} (ha : w.db.asset t job.refId = some a) :
      Processes cfg t w (.getAsset raw id job) (.reply .ok) w
        (.commitRunning (Session.start raw id job a))
  | running {w s db} (hc : Session.commit s w.db = some db) :
      Processes cfg t w (.commitRunning s) (.reply .ok) (w.commit .ok db) (.call s.committed)
  | returns {w s path attrs wrote} :
      Processes cfg t w (.call s) (.returns path attrs wrote) (w.write wrote)
        (.ended cfg (s.withAttrs attrs) (.finished path))
  | raises {w s exc attrs wrote} :
      Processes cfg t w (.call s) (.raises exc attrs wrote) (w.write wrote)
        (.incr (s.withAttrs attrs) exc)
  | unsupported {w s exc attrs wrote} :
      Processes cfg t w (.call s) (.unsupported exc attrs wrote) (w.write wrote)
        (.afterUnsupported cfg (s.withAttrs attrs) exc)
  | counted {w s exc} :
      Processes cfg t w (.incr s exc) (.reply .ok) (w.command .ok (w.redis.incr t s.jobId))
        (.expire s exc (w.redis.retry t s.jobId + 1))
  | uncounted {w s exc r} :
      Processes cfg t w (.incr s exc) (.reply r) (w.command r (w.redis.incr t s.jobId))
        (.ended cfg s (.failed exc none))
  | expire {w s exc n r} :
      Processes cfg t w (.expire s exc n) (.reply r) w
        (.ended cfg s (.failed exc (if r = .ok then some n else none)))

/-- **Every other operation leaves `process`, or is not in it.** -/
theorem Performs.processes {cfg : Config} {t : JobType} {w w' : World} {pc pc' : Pc t} {a : Act t}
    (h : Performs cfg t w pc a w' pc') : pc'.inProcess = false ∨ Processes cfg t w pc a w' pc' := by
  cases h with
  | @getJob raw id r =>
      split_ifs with hr
      · subst hr
        cases hj : w.db.job id with
        | none => exact .inl rfl
        | some job =>
            simp only [Pc.gotJob]
            split_ifs with hd
            · exact .inl rfl
            · exact .inr (.loaded hj hd)
      · exact .inl rfl
  | @getAsset raw id job r =>
      split_ifs with hr
      · subst hr
        cases ha : w.db.asset t job.refId with
        | none => exact .inl rfl
        | some a => exact .inr (.started ha)
      · exact .inl rfl
  | commitRunning hc =>
      split_ifs with hr
      · subst hr
        exact .inr (.running hc)
      · exact .inl rfl
  | returns => exact .inr .returns
  | raises => exact .inr .raises
  | unsupported => exact .inr .unsupported
  | @incr s exc r =>
      split_ifs with hr
      · subst hr
        exact .inr .counted
      · exact .inr .uncounted
  | expire => exact .inr .expire
  | @pop r =>
      rcases r with _ | (_ | _) | (_ | _)
      · exact .inl (Pc.inProcess_popped _)
      all_goals exact .inl rfl
  | @popEmpty r => rcases r with _ | (_ | _) | (_ | _) <;> exact .inl rfl
  | reap | drained | readQueue | readProcessing | reenqueue | commitMissing | commitFinal | requeue
  | ack | tick =>
      refine .inl ?_
      split_ifs <;> first | rfl | simp
  | select => exact .inl (Pc.inProcess_reenqueueRest ..)
  | selectRaised => exact .inl (Pc.inProcess_raised _)
  | kill | start | staleMissing | staleRunning | staleFinal => exact .inl rfl

/-- The ids a worker is about to push. -/
def Pc.pushing {t : JobType} : Pc t → List ℤ
  | reenqueue _ ids => ids
  | requeue _ id => [id]
  | _ => []

/-- What an operation of a worker sends to Redis. -/
inductive Sends (t : JobType) (w : World) (pc : Pc t) (w' : World) : Prop
  | nothing (hr : w'.redis = w.redis) (hh : w'.hist = w.hist)
  | lists {r q p} (hsub : q ++ p ⊆ w.redis.entries t)
      (h : w' = w.command r (w.redis.setLists t q p))
  | push {r id} (hid : id ∈ pc.pushing) (h : w' = w.rpush r t id)
  | count {r s exc} (hpc : pc = .incr s exc) (h : w' = w.command r (w.redis.incr t s.jobId))

/-- **A worker moves and removes elements of its own lists, pushes an id, or counts
a failure.** -/
theorem Performs.sends {cfg : Config} {t : JobType} {w w' : World} {pc pc' : Pc t} {a : Act t}
    (h : Performs cfg t w pc a w' pc') : Sends t w pc w' := by
  cases h with
  | reap hp =>
      refine .lists ?_ rfl
      rw [Redis.entries, hp]
      exact List.perm_middle.symm.subset
  | pop hq =>
      refine .lists ?_ rfl
      rw [Redis.entries, hq, List.cons_append, ← List.append_assoc]
      exact (List.perm_append_singleton ..).subset
  | ack =>
      exact .lists (List.append_subset.2 ⟨List.subset_append_left ..,
        List.subset_append_of_subset_right _ List.erase_subset⟩) rfl
  | reenqueue => exact .push (List.mem_cons_self ..) rfl
  | requeue => exact .push (List.mem_singleton_self _) rfl
  | incr => exact .count rfl rfl
  | commitMissing | commitRunning | commitFinal =>
      exact .nothing (World.redis_commit ..) (World.hist_commit ..)
  | _ => exact .nothing rfl rfl

/-- The operations of a `delete_poem` call. -/
inductive Deletes (cfg : Config) : World → Reply → DeletePc → World → Option DeletePc → Prop
  | getPoem {w r p} (hp : w.db.poem p ≠ none) :
      Deletes cfg w r (.getPoem p) w (if r = .ok then some (.load p .image fun _ => []) else none)
  | noPoem {w r p} (hp : w.db.poem p = none) : Deletes cfg w r (.getPoem p) w none
  | load {w r p t loaded} :
      Deletes cfg w r (.load p t loaded) w
        (if r = .ok then
          some (.unlinkRest p t (Function.update loaded t (w.db.assetsOf t p))
            ((w.db.assetsOf t p).map Prod.snd))
        else none)
  | unlink {w r p t loaded path left} :
      Deletes cfg w r (.unlink p t loaded (path :: left))
        { w with files := removeAssetFile cfg.dataDir (fun _ => r.takesEffect) t path w.files }
        (some (.unlinkRest p t loaded left))
  | commit {w r p loaded} :
      Deletes cfg w r (.commit p loaded)
        (w.commit r (w.db.deleteRows p fun t => (loaded t).map Prod.fst)) none

/-- **Every operation of `deleteStep` is one of the rules.** -/
theorem deletes_of_deleteStep {cfg : Config} {w w' : World} {r : Reply} {pc : DeletePc}
    {next : Option DeletePc} (h : deleteStep cfg w r pc = some (w', next)) :
    Deletes cfg w r pc w' next := by
  cases pc with
  | getPoem p =>
      simp only [deleteStep, Option.some.injEq, Prod.mk.injEq] at h
      obtain ⟨rfl, rfl⟩ := h
      cases hp : w.db.poem p with
      | none =>
          rw [if_neg (by simp)]
          exact .noPoem hp
      | some poem =>
          simp only [Option.isSome_some, and_true]
          exact .getPoem (by rw [hp]; exact Option.some_ne_none _)
  | load p t loaded =>
      simp only [deleteStep, Option.some.injEq, Prod.mk.injEq] at h
      obtain ⟨rfl, rfl⟩ := h
      exact .load
  | unlink p t loaded left =>
      cases left with
      | nil => simp only [deleteStep, reduceCtorEq] at h
      | cons path left =>
          simp only [deleteStep, Option.some.injEq, Prod.mk.injEq] at h
          obtain ⟨rfl, rfl⟩ := h
          exact .unlink
  | commit p loaded =>
      simp only [deleteStep, Option.some.injEq, Prod.mk.injEq] at h
      obtain ⟨rfl, rfl⟩ := h
      exact .commit

/-- The steps of the system. -/
inductive Moves (cfg : Config) : Sys → Label → Sys → Prop
  | persistRaised {s a ids e} (hf : s.world.hist.Fresh ids) :
      Moves cfg s (.persist a ids (.before e)) s
  | persist {s a ids r} (hf : s.world.hist.Fresh ids) (hr : r.takesEffect = true) :
      Moves cfg s (.persist a ids r) { s with
        world := s.world.persist a ids
        requests := if r = .ok then s.requests ++ [(persistPoem s.world.db a ids).2]
          else s.requests }
  | push {s i r t id rest} (hi : s.requests[i]? = some ((t, id) :: rest)) :
      Moves cfg s (.push i r) { s with
        world := s.world.rpush r t id
        requests := if r = .ok then s.requests.set i rest else s.requests.eraseIdx i }
  | abandon {s i} : Moves cfg s (.abandon i) { s with requests := s.requests.eraseIdx i }
  | delete {s p} : Moves cfg s (.delete p) { s with deletes := s.deletes ++ [.getPoem p] }
  | deleteOp {s i r pc w next} (hi : s.deletes[i]? = some pc)
      (hd : Deletes cfg s.world r pc w next) :
      Moves cfg s (.deleteOp i r)
        { s with world := w, deletes := DeletePc.advance s.deletes i next }
  | abandonDelete {s i} : Moves cfg s (.abandonDelete i) { s with deletes := s.deletes.eraseIdx i }
  | worker {s t a w pc} (hw : Performs cfg t s.world (s.workers t) a w pc) :
      Moves cfg s (.worker t a)
        { s with world := w, workers := Function.update s.workers t pc }
  | dropRetry {s t id} :
      Moves cfg s (.dropRetry t id) { s with world.redis := s.world.redis.setRetry t id 0 }
  | replaceLists {s t queue processing} (ht : s.world.Typed t (queue ++ processing)) :
      Moves cfg s (.replaceLists t queue processing)
        { s with world.redis := s.world.redis.setLists t queue processing }

/-- **Every step of the system is one of the rules.** -/
theorem moves_of_step {cfg : Config} {s s' : Sys} {l : Label} (h : step cfg s l = some s') :
    Moves cfg s l s' := by
  cases l with
  | persist a ids r =>
      simp only [step] at h
      split_ifs at h with hf
      rcases r with _ | e | e <;> obtain rfl := Option.some.inj h
      · exact .persist hf rfl
      · exact .persistRaised hf
      · exact .persist (r := .after e) hf rfl
  | push i r =>
      simp only [step] at h
      split at h
      · obtain rfl := Option.some.inj h
        exact .push ‹_›
      · cases h
  | abandon i => exact Option.some.inj h ▸ .abandon
  | delete p => exact Option.some.inj h ▸ .delete
  | deleteOp i r =>
      obtain ⟨pc, hi, h⟩ := Option.bind_eq_some_iff.1 h
      obtain ⟨⟨w, next⟩, hd, rfl⟩ := Option.map_eq_some_iff.1 h
      exact .deleteOp hi (deletes_of_deleteStep hd)
  | abandonDelete i => exact Option.some.inj h ▸ .abandonDelete
  | worker t a =>
      obtain ⟨⟨w, pc⟩, hw, rfl⟩ := Option.map_eq_some_iff.1 h
      exact .worker (performs_of_workerStep hw)
  | dropRetry t id => exact Option.some.inj h ▸ .dropRetry
  | replaceLists t queue processing =>
      simp only [step] at h
      split_ifs at h with ht
      exact Option.some.inj h ▸ .replaceLists ht

/-- **A step seen from one worker.**  It performs an operation, or somebody else steps
and it stays where it is. -/
theorem Moves.worker_cases {cfg : Config} {s s' : Sys} {l : Label} (h : Moves cfg s l s')
    (t : JobType) :
    (∃ a, l = .worker t a ∧ Performs cfg t s.world (s.workers t) a s'.world (s'.workers t)) ∨
      (∀ a, l ≠ .worker t a) ∧ s'.workers t = s.workers t := by
  cases h with
  | @worker u a w pc hw =>
      by_cases hu : t = u
      · subst hu
        refine .inl ⟨a, rfl, ?_⟩
        show Performs cfg t s.world (s.workers t) a w (Function.update s.workers t pc t)
        rwa [Function.update_self]
      · exact .inr ⟨fun b hb => hu (by cases hb; rfl), Function.update_of_ne hu ..⟩
  | _ => exact .inr ⟨fun _ => Label.noConfusion, rfl⟩

end PoetryGenerator
