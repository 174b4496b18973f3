/-
# A bounded semaphore and its holders

`BoundedSemaphore` is the one of Python's `threading`: it is made with a number
of slots, a non-blocking `acquire` takes one or says no, and a `release` beyond
the initial value is an error (`none`).  Each operation is one atomic step.

`Holds sem p l` says that of the clients `l` those that meet `p` hold the slots
that are out.  It is kept when a client that holds none acquires one or a holder
releases its own (`Holds.acquire`, `Holds.release`), and by whatever clients do
that holds as many slots afterwards (`Holds.set`).
-/

import Mathlib.Data.Nat.Notation

/-- A semaphore with `value` of its `initial` slots free. -/
structure BoundedSemaphore where
  initial : ℕ
  value : ℕ
  value_le : value ≤ initial
deriving DecidableEq

namespace BoundedSemaphore

variable {C : Type*} {sem sem' : BoundedSemaphore} {p : C → Bool} {l : List C} {i : ℕ} {c c' : C}

/-- `threading.BoundedSemaphore(n)`. -/
def new (n : ℕ) : BoundedSemaphore := ⟨n, n, Nat.le_refl n⟩

/-- `acquire(blocking=False)`; `none` is the answer `False`. -/
def acquire (sem : BoundedSemaphore) : Option BoundedSemaphore :=
  if sem.value = 0 then none
  else some ⟨sem.initial, sem.value - 1, Nat.le_trans (Nat.sub_le ..) sem.value_le⟩

/-- `release()`; `none` is its `ValueError`. -/
def release (sem : BoundedSemaphore) : Option BoundedSemaphore :=
  if h : sem.value < sem.initial then some ⟨sem.initial, sem.value + 1, h⟩ else none

theorem acquire_eq_none_iff : sem.acquire = none ↔ sem.value = 0 := by
  unfold acquire
  split <;> simp [*]

theorem acquire_spec (h : sem.acquire = some sem') :
    sem'.initial = sem.initial ∧ sem'.value + 1 = sem.value := by
  unfold acquire at h
  split at h
  · cases h
  · obtain rfl := Option.some.inj h
    exact ⟨rfl, Nat.succ_pred_eq_of_ne_zero ‹_›⟩

theorem release_spec (h : sem.release = some sem') :
    sem'.initial = sem.initial ∧ sem'.value = sem.value + 1 := by
  unfold release at h
  split at h
  · obtain rfl := Option.some.inj h
    exact ⟨rfl, rfl⟩
  · cases h

theorem release_eq_none_iff : sem.release = none ↔ sem.value = sem.initial := by
  unfold release
  have := sem.value_le
  split <;> simp <;> omega

/-- The clients that meet `p` hold the slots that are out. -/
def Holds (sem : BoundedSemaphore) (p : C → Bool) (l : List C) : Prop :=
  sem.value + l.countP p = sem.initial

/-- Nobody gets a slot exactly when all of them are out. -/
theorem Holds.acquire_eq_none_iff (h : sem.Holds p l) :
    sem.acquire = none ↔ l.countP p = sem.initial := by
  rw [BoundedSemaphore.acquire_eq_none_iff]
  unfold Holds at h
  omega

theorem countP_set_of_eq (hi : l[i]? = some c) (hc : p c' = p c) :
    (l.set i c').countP p = l.countP p := by
  obtain ⟨hlt, rfl⟩ := List.getElem?_eq_some_iff.1 hi
  have hpos := List.countP_set (p := p) (a := c') hlt
  have hmem : p l[i] = true → 0 < l.countP p := fun h =>
    List.countP_pos_iff.2 ⟨_, List.getElem_mem hlt, h⟩
  rw [hc] at hpos
  cases h : p l[i] with
  | true =>
      have := hmem h
      simp only [h, if_true] at hpos
      omega
  | false => simpa [h] using hpos

theorem countP_set_of_gain (hi : l[i]? = some c) (hc : p c = false) (hc' : p c' = true) :
    (l.set i c').countP p = l.countP p + 1 := by
  obtain ⟨hlt, rfl⟩ := List.getElem?_eq_some_iff.1 hi
  rw [List.countP_set hlt, hc, hc']
  rfl

theorem countP_set_of_loss (hi : l[i]? = some c) (hc : p c = true) (hc' : p c' = false) :
    (l.set i c').countP p + 1 = l.countP p := by
  obtain ⟨hlt, rfl⟩ := List.getElem?_eq_some_iff.1 hi
  have hpos : 0 < l.countP p := List.countP_pos_iff.2 ⟨_, List.getElem_mem hlt, hc⟩
  rw [List.countP_set hlt, hc, hc']
  simp only [if_true, Bool.false_eq_true, if_false]
  omega

theorem countP_le_add (p q : C → Bool) (l : List C) :
    l.countP p ≤ l.countP q + l.countP fun c => p c && !q c := by
  induction l with
  | nil => exact Nat.le_refl _
  | cons c l ih =>
      rw [List.countP_cons, List.countP_cons, List.countP_cons]
      cases p c <;> cases q c <;> simp <;> omega

/-- Clients that each hold a slot of one of `n` semaphores, of which none has more than `m`
holders. -/
theorem countP_le_mul {q : ℕ → C → Bool} {n m : ℕ}
    (h : ∀ c ∈ l, p c = true → ∃ k < n, q k c = true) (hq : ∀ k < n, l.countP (q k) ≤ m) :
    l.countP p ≤ n * m := by
  induction n generalizing p with
  | zero =>
      rw [Nat.zero_mul, Nat.le_zero, List.countP_eq_zero]
      intro c hc hp
      obtain ⟨k, hk, -⟩ := h c hc hp
      exact Nat.not_lt_zero _ hk
  | succ n ih =>
      have hrest : l.countP (fun c => p c && !q n c) ≤ n * m := by
        refine ih (fun c hc hp => ?_) fun k hk => hq k (Nat.lt_succ_of_lt hk)
        obtain ⟨hp, hnot⟩ := Bool.and_eq_true_iff.1 hp
        obtain ⟨k, hk, hkc⟩ := h c hc hp
        refine ⟨k, Nat.lt_of_le_of_ne (Nat.lt_succ_iff.1 hk) ?_, hkc⟩
        rintro rfl
        rw [hkc] at hnot
        cases hnot
      have hlast := hq n (Nat.lt_succ_self n)
      have hsplit := countP_le_add p (q n) l
      rw [Nat.succ_mul]
      omega

/-- A client that holds as much as before. -/
theorem Holds.set (h : sem.Holds p l) (hi : l[i]? = some c) (hc : p c' = p c) :
    sem.Holds p (l.set i c') := by
  unfold Holds
  rw [countP_set_of_eq hi hc]
  exact h

/-- A client that acquires a slot. -/
theorem Holds.acquire (h : sem.Holds p l) (hs : sem.acquire = some sem') (hi : l[i]? = some c)
    (hc : p c = false) (hc' : p c' = true) : sem'.Holds p (l.set i c') := by
  obtain ⟨hinit, hvalue⟩ := acquire_spec hs
  unfold Holds at h ⊢
  rw [countP_set_of_gain hi hc hc']
  omega

/-- A client that releases its slot. -/
theorem Holds.release (h : sem.Holds p l) (hs : sem.release = some sem') (hi : l[i]? = some c)
    (hc : p c = true) (hc' : p c' = false) : sem'.Holds p (l.set i c') := by
  obtain ⟨hinit, hvalue⟩ := release_spec hs
  have hcount := countP_set_of_loss hi hc hc'
  unfold Holds at h ⊢
  omega

/-- The release of a slot that is held never raises. -/
theorem Holds.release_ne_none (h : sem.Holds p l) (hi : l[i]? = some c) (hc : p c = true) :
    sem.release ≠ none := by
  have hpos : 0 < l.countP p := List.countP_pos_iff.2 ⟨c, List.mem_of_getElem? hi, hc⟩
  rw [ne_eq, release_eq_none_iff]
  unfold Holds at h
  omega

end BoundedSemaphore
