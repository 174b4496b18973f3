/-
# The Redis side of the job queue (`api/app/queue.py`, `api/app/worker_common.py`)

For each job type Redis holds the list `jobs:<type>` (`queue`), the list
`jobs:<type>:processing` of ids a worker has popped but not yet finished
(`processing`), and a counter `retry:<type>:<id>` for each failed job.  The
commands below are the ones the program sends; each is one atomic step.

A list element is a byte string.  `Denotes raw id` says that `int(raw)` is
`id`; the elements the program pushes are `encodeInt id`.
-/

import Mathlib.Data.List.Count
import Mathlib.Logic.Function.Basic
import PoetryGenerator.Lib.Numerals
import PoetryGenerator.Models

namespace PoetryGenerator

open Numerals

/-- An element of a Redis list. -/
abbrev Raw := List UInt8

/-- `jobs:<type>`, `jobs:<type>:processing` and `retry:<type>:<id>`. -/
structure Redis where
  queue : JobType → List Raw
  processing : JobType → List Raw
  retry : JobType → ℤ → ℕ

namespace Redis

/-- A fresh server. -/
def empty : Redis := ⟨fun _ => [], fun _ => [], fun _ _ => 0⟩

/-- Both lists of a type replaced. -/
def setLists (r : Redis) (t : JobType) (queue processing : List Raw) : Redis :=
  { r with
    queue := Function.update r.queue t queue
    processing := Function.update r.processing t processing }

/-- `RPUSH jobs:<type> id`. -/
def rpush (r : Redis) (t : JobType) (id : ℤ) : Redis :=
  r.setLists t (r.queue t ++ [encodeInt id]) (r.processing t)

/-- `BLMOVE jobs:<type> jobs:<type>:processing LEFT RIGHT`: the moved element,
`none` when the wait for one ends. -/
def blmove (r : Redis) (t : JobType) : Option Raw × Redis :=
  match r.queue t with
  | [] => (none, r)
  | raw :: rest => (some raw, r.setLists t rest (r.processing t ++ [raw]))

/-- `LMOVE jobs:<type>:processing jobs:<type> LEFT LEFT`. -/
def lmove (r : Redis) (t : JobType) : Option Raw × Redis :=
  match r.processing t with
  | [] => (none, r)
  | raw :: rest => (some raw, r.setLists t (raw :: r.queue t) rest)

/-- `LREM jobs:<type>:processing 1 raw`: removes the first equal element. -/
def lrem (r : Redis) (t : JobType) (raw : Raw) : Redis :=
  r.setLists t (r.queue t) ((r.processing t).erase raw)

/-- A retry counter set to a value. -/
def setRetry (r : Redis) (t : JobType) (id : ℤ) (n : ℕ) : Redis :=
  { r with retry := Function.update r.retry t (Function.update (r.retry t) id n) }

/-- `INCR retry:<type>:<id>`; its reply is the new value. -/
def incr (r : Redis) (t : JobType) (id : ℤ) : Redis := r.setRetry t id (r.retry t id + 1)

/-- Both lists of a type, the queue first. -/
def entries (r : Redis) (t : JobType) : List Raw := r.queue t ++ r.processing t

section
variable (r : Redis) (t : JobType) (q p : List Raw) (raw : Raw) (id : ℤ) (n : ℕ)

@[simp] theorem queue_setLists : (r.setLists t q p).queue t = q := Function.update_self ..

@[simp] theorem processing_setLists : (r.setLists t q p).processing t = p :=
  Function.update_self ..

@[simp] theorem retry_setLists : (r.setLists t q p).retry = r.retry := rfl

theorem retry_setRetry (u : JobType) (id' : ℤ) :
    (r.setRetry t id n).retry u id' = if u = t ∧ id' = id then n else r.retry u id' := by
  by_cases hu : u = t
  · subst hu
    simp [setRetry, Function.update_apply]
  · simp [setRetry, hu]

theorem queue_setLists_of_ne {u : JobType} (h : u ≠ t) : (r.setLists t q p).queue u = r.queue u :=
  Function.update_of_ne h ..

theorem processing_setLists_of_ne {u : JobType} (h : u ≠ t) :
    (r.setLists t q p).processing u = r.processing u :=
  Function.update_of_ne h ..

@[simp] theorem queue_rpush : (r.rpush t id).queue t = r.queue t ++ [encodeInt id] :=
  queue_setLists ..

@[simp] theorem processing_rpush : (r.rpush t id).processing t = r.processing t :=
  processing_setLists ..

@[simp] theorem queue_lrem : (r.lrem t raw).queue t = r.queue t := queue_setLists ..

@[simp] theorem processing_lrem : (r.lrem t raw).processing t = (r.processing t).erase raw :=
  processing_setLists ..

/-- `BLMOVE` takes the head of the queue to the end of the processing list. -/
theorem blmove_cases :
    (r.queue t = [] ∧ r.blmove t = (none, r)) ∨
      ∃ raw rest, r.queue t = raw :: rest ∧
        r.blmove t = (some raw, r.setLists t rest (r.processing t ++ [raw])) := by
  unfold blmove
  cases h : r.queue t with
  | nil => exact .inl ⟨rfl, rfl⟩
  | cons raw rest => exact .inr ⟨raw, rest, rfl, rfl⟩

/-- `LMOVE` takes the head of the processing list to the head of the queue. -/
theorem lmove_cases :
    (r.processing t = [] ∧ r.lmove t = (none, r)) ∨
      ∃ raw rest, r.processing t = raw :: rest ∧
        r.lmove t = (some raw, r.setLists t (raw :: r.queue t) rest) := by
  unfold lmove
  cases h : r.processing t with
  | nil => exact .inl ⟨rfl, rfl⟩
  | cons raw rest => exact .inr ⟨raw, rest, rfl, rfl⟩

end

end Redis

/-- `int(raw)` is `id`. -/
def Denotes (raw : Raw) (id : ℤ) : Prop := decodeInt raw = some id

instance (raw : Raw) (id : ℤ) : Decidable (Denotes raw id) :=
  inferInstanceAs (Decidable (_ = _))

/-- A key is short enough for `int`. -/
theorem IsKey.lt {id : ℤ} (h : IsKey id) : id.natAbs < 10 ^ maxDigits := by
  have hlt : 2 ^ 63 < 10 ^ 19 := by decide
  exact h.trans_lt (hlt.trans_le (Nat.pow_le_pow_right (by decide) (by decide)))

theorem denotes_encodeInt {id : ℤ} (h : IsKey id) : Denotes (encodeInt id) id := decodeInt_encodeInt h.lt

end PoetryGenerator
