/-
# The system

Any number of API requests, any number of `delete_poem` calls and one worker for
each job type, stepping in any order over the shared `World`.

* A request commits the rows of `persist_poem`, then pushes one id per job.  It
  ends early when the API dies or a push raises.
* A `delete_poem` call reads the poem and its assets, unlinks their files, and
  commits; it may be abandoned at any point.
* A worker runs `workerStep`.
* The environment may drop a retry counter (its TTL ends) and may replace the
  lists of a type by others that hold ids of jobs of that type (elements lost,
  repeated, or brought back by an old snapshot).

Each label names one step with its outcome, so `Runs.run` of a list of labels
is a run, and a statement about every run is one about every list of labels.
-/

import PoetryGenerator.Lib.Runs
import PoetryGenerator.Worker

namespace PoetryGenerator

open Numerals

/-- A `delete_poem` call between two operations. `loaded` holds the assets it
has read, with their paths. -/
inductive DeletePc
  /-- Before `session.get(Poem, poem_id)`. -/
  | getPoem (poemId : ℤ)
  /-- Before `poem.images` (or `poem.audios`) is loaded. -/
  | load (poemId : ℤ) (t : JobType) (loaded : JobType → List (ℤ × Option Str))
  /-- Before the next file is unlinked. -/
  | unlink (poemId : ℤ) (t : JobType) (loaded : JobType → List (ℤ × Option Str))
      (left : List (Option Str))
  /-- Before the commit of the deletions. -/
  | commit (poemId : ℤ) (loaded : JobType → List (ℤ × Option Str))

namespace DeletePc

/-- After the files of a type. -/
def afterFiles (poemId : ℤ) (loaded : JobType → List (ℤ × Option Str)) : JobType → DeletePc
  | .image => load poemId .audio loaded
  | .audio => commit poemId loaded

/-- The files left to unlink, or what follows them. -/
def unlinkRest (poemId : ℤ) (t : JobType) (loaded : JobType → List (ℤ × Option Str)) :
    List (Option Str) → DeletePc
  | [] => afterFiles poemId loaded t
  | left => unlink poemId t loaded left

/-- The calls after an operation of the one at position `i`. -/
def advance (calls : List DeletePc) (i : ℕ) : Option DeletePc → List DeletePc
  | none => calls.eraseIdx i
  | some pc => calls.set i pc

end DeletePc

/-- The next operation of a `delete_poem` call; without a next program counter
the call is over. -/
def deleteStep (cfg : Config) (w : World) (r : Reply) : DeletePc → Option (World × Option DeletePc)
  | .getPoem p =>
    some (w, if r = .ok ∧ (w.db.poem p).isSome then some (.load p .image fun _ => []) else none)
  | .load p t loaded =>
    let rows := w.db.assetsOf t p
    some (w, if r = .ok then
      some (.unlinkRest p t (Function.update loaded t rows) (rows.map Prod.snd)) else none)
  | .unlink p t loaded (path :: left) =>
    some ({ w with files := removeAssetFile cfg.dataDir (fun _ => r.takesEffect) t path w.files },
      some (.unlinkRest p t loaded left))
  | .unlink _ _ _ [] => none
  | .commit p loaded =>
    some (w.commit r (w.db.deleteRows p fun t => (loaded t).map Prod.fst), none)

/-- The state of the system. -/
structure Sys where
  world : World
  /-- The ids each API request has still to push. -/
  requests : List (List (JobType × ℤ))
  deletes : List DeletePc
  workers : (t : JobType) → Pc t

/-- Nothing stored, nobody running. -/
def Sys.init : Sys := ⟨.empty, [], [], fun _ => .dead⟩

/-- One step of the system. -/
inductive Label
  /-- The commit of `persist_poem`. -/
  | persist (a : PersistArgs) (ids : NewIds) (r : Reply)
  /-- The next `RPUSH` of a request. -/
  | push (i : ℕ) (r : Reply)
  /-- A request ends before its next `RPUSH`. -/
  | abandon (i : ℕ)
  /-- A call of `delete_poem`. -/
  | delete (poemId : ℤ)
  /-- The next operation of such a call. -/
  | deleteOp (i : ℕ) (r : Reply)
  /-- Such a call ends before its next operation. -/
  | abandonDelete (i : ℕ)
  /-- A step of a worker. -/
  | worker (t : JobType) (a : Act t)
  /-- A retry counter is gone. -/
  | dropRetry (t : JobType) (id : ℤ)
  /-- The lists of a type are replaced. -/
  | replaceLists (t : JobType) (queue processing : List Raw)

/-- No list element is lost, or added by other than the program. -/
def Label.keepsLists : Label → Bool
  | replaceLists .. => false
  | _ => true

/-- No retry counter is lost or expires. -/
def Label.keepsRetry : Label → Bool
  | dropRetry .. => false
  | _ => true

/-- Every element is the id of a job that was created with the type. -/
def World.Typed (w : World) (t : JobType) (l : List Raw) : Prop :=
  ∀ raw ∈ l, ∃ x ∈ w.hist.jobs, x.2.1 = t ∧ raw = encodeInt x.1

instance (w : World) (t : JobType) (l : List Raw) : Decidable (w.Typed t l) :=
  inferInstanceAs (Decidable (∀ raw ∈ l, ∃ x ∈ w.hist.jobs, x.2.1 = t ∧ raw = encodeInt x.1))

/-- The step of a label, where it is enabled. -/
def step (cfg : Config) (s : Sys) : Label → Option Sys
  | .persist a ids r =>
    if s.world.hist.Fresh ids then
      match r with
      | .before _ => some s
      | .after _ => some { s with world := s.world.persist a ids }
      | .ok => some { s with
          world := s.world.persist a ids
          requests := s.requests ++ [(persistPoem s.world.db a ids).2] }
    else none
  | .push i r =>
    match s.requests[i]? with
    | some ((t, id) :: rest) => some { s with
        world := s.world.rpush r t id
        requests := if r = .ok then s.requests.set i rest else s.requests.eraseIdx i }
    | _ => none
  | .abandon i => some { s with requests := s.requests.eraseIdx i }
  | .delete p => some { s with deletes := s.deletes ++ [.getPoem p] }
  | .deleteOp i r =>
    (s.deletes[i]?).bind fun pc => (deleteStep cfg s.world r pc).map fun (w, next) =>
      { s with world := w, deletes := DeletePc.advance s.deletes i next }
  | .abandonDelete i => some { s with deletes := s.deletes.eraseIdx i }
  | .worker t a =>
    (workerStep cfg t s.world (s.workers t) a).map fun (w, pc) =>
      { s with world := w, workers := Function.update s.workers t pc }
  | .dropRetry t id =>
    some { s with world.redis := s.world.redis.setRetry t id 0 }
  | .replaceLists t queue processing =>
    if s.world.Typed t (queue ++ processing) then
      some { s with world.redis := s.world.redis.setLists t queue processing }
    else none

/-- A run of the system. -/
abbrev run (cfg : Config) : Sys → List Label → Option Sys := Runs.run (step cfg)

/-- The worker of type `t` is calling the processor for a job. -/
def Sys.Calling (s : Sys) (t : JobType) (id : ℤ) : Prop :=
  ∃ session, s.workers t = .call session ∧ session.jobId = id

/-! ### A small run -/

namespace Sample

/-- A deployment in `/data`. -/
def config (maxRetries : ℤ) : Config := ⟨maxRetries, ["data".toList], fun _ => none⟩

/-- A poem with an image and an audio. -/
def args : PersistArgs :=
  { result := { title := "Sayori".toList, poemEn := "Dear sunshine".toList, poemJa := [] } }

/-- The keys it gets: image 1 with job 1, and audio 1 with job 2. -/
def ids : NewIds := ⟨1, fun _ => 1, fun | .image => 1 | .audio => 2, by decide⟩

/-- The keys of a second poem: image 2 with job 3, and audio 2 with job 4. -/
def ids₂ : NewIds := ⟨2, fun _ => 2, fun | .image => 3 | .audio => 4, by decide⟩

/-- What the processor leaves in the image row. -/
def attrs : Attrs .image := { prompt := "sunflowers".toList : ImageAttrs }

/-- A step of the image worker. -/
abbrev act (a : Act .image) : Label := .worker .image a

/-- An operation of the image worker that does not raise. -/
abbrev ok : Label := act (.reply .ok)

/-- The poem is persisted and both ids are pushed. -/
def requested : List Label := [.persist args ids .ok, .push 0 .ok, .push 0 .ok]

/-- The image worker starts, and calls the processor for job 1. -/
def called : List Label :=
  requested ++ [act .start, ok, ok, ok, act (.rows [1]), ok, ok, ok, ok]

/-- The worker is killed during the call. -/
def killed : List Label := called ++ [act .kill]

/-- The processor returns a path, and the job is done. -/
def made : List Label := called ++ [act (.returns "/data/images/1_a.png".toList attrs []), ok]

/-- The list of images lost and brought back with two copies of job 1; the worker
acknowledges one and takes the other. -/
def redelivered : List Label :=
  [ok, act (.due false), .replaceLists .image [encodeInt 1, encodeInt 1] [], ok, ok, ok,
    act (.due false), ok, ok]

/-- The processor raises, and the failure is counted. -/
def counted : List Label := called ++ [act (.raises "no GPU".toList attrs []), ok, ok]

/-- The last commit: without retries the job is failed. -/
def deadLettered : List Label := counted ++ [ok]

/-- The worker is killed before the acknowledgement, started again, and finds
the id on the processing list. -/
def restarted : List Label :=
  [act .kill, act .start, ok, ok, ok, ok, act (.rows []), ok, ok, ok, ok]

/-- The acknowledgement, and a maintenance pass over empty lists. -/
def maintained : List Label := [ok, act (.due true), ok, ok, ok, act (.rows [])]

/-- The worker starts, and reads the lists and then the database, between the commit
of a request and its pushes. -/
def raced : List Label :=
  [.persist args ids .ok, act .start, ok, ok, ok, act (.rows [1]), ok, .push 0 .ok]

end Sample

end PoetryGenerator
