/-
# Threads of one process

`RateLimiter.check` without `now` reads the monotonic clock first and takes the
lock afterwards, so calls may pass the lock in another order than that of their
time stamps.  A call with a later stamp then drops hits that are still young for
a call with an earlier one, which finds room where there is none.

While this does not happen (`Timely`), no interval as long as the window holds
more than `max_requests` allowed calls; and with a limit of one it cannot do
harm.  With any other limit it can (`limit_exceeded`).
-/

import PoetryGenerator.Lib.Runs
import PoetryGenerator.RateLimiter

namespace PoetryGenerator

open SlidingWindow

/-- A limiter whose `check` is called by threads, all on one key. -/
structure Threads (K T : Type) where
  limiter : RateLimiter K T
  /-- The last reading of the monotonic clock. -/
  clock : T
  /-- The time stamps of the calls before the lock. -/
  waiting : List T
  /-- The time stamps of the allowed calls, in the order in which they had the lock. -/
  allowed : List T

namespace Threads

/-- One step of a call. -/
inductive Label (T : Type)
  /-- `now = time.monotonic()`. -/
  | read (now : T)
  /-- The body of `with self._lock` of the waiting call at position `i`. -/
  | enter (i : ℕ)

variable {K T : Type} [DecidableEq K] [Clock T]

/-- One step of the threads. -/
def step (k : K) (s : Threads K T) : Label T → Option (Threads K T)
  | .read now =>
    if s.clock ≤ now then some { s with clock := now, waiting := s.waiting ++ [now] } else none
  | .enter i => s.waiting[i]?.map fun now =>
    { s with
      limiter := (s.limiter.check k now).2
      waiting := s.waiting.eraseIdx i
      allowed := s.allowed ++ if s.limiter.allows (k, now) then [now] else [] }

/-- A new limiter, and a clock that starts anywhere. -/
def start (n : ℤ) (W : T) (m : ℤ) (clock : T) : Threads K T := ⟨.new n W m, clock, [], []⟩

/-- No hit that is young for the call has been dropped. -/
def Timely (k : K) (s : Threads K T) : Label T → Prop
  | .read _ => True
  | .enter i => ∀ now ∈ s.waiting[i]?,
    young s.limiter.window now (s.limiter.stored k) = young s.limiter.window now s.allowed

instance (k : K) (s : Threads K T) : (l : Label T) → Decidable (Timely k s l)
  | .read _ => isTrue trivial
  | .enter i => match h : s.waiting[i]? with
    | none => isTrue (by simp [Timely, h])
    | some now => decidable_of_iff (young s.limiter.window now (s.limiter.stored k) =
        young s.limiter.window now s.allowed) (by simp [Timely, h])

variable {k : K} {s s' : Threads K T} {l : Label T} {n m : ℤ} {W clock : T}

/-- The limiter holds nothing but the key of the calls. -/
structure Alone (k : K) (n : ℤ) (W : T) (m : ℤ) (s : Threads K T) : Prop where
  max : s.limiter.max = n
  window : s.limiter.window = W
  maxKeys : s.limiter.maxKeys = m
  one : ∀ k' ≠ k, s.limiter.hits.lookup k' = none

omit [Clock T] in
theorem alone_start : (start n W m clock : Threads K T).Alone k n W m :=
  ⟨rfl, rfl, rfl, fun _ _ => rfl⟩

/-- **A step reads the clock, or passes the lock**, and the call is then allowed and
stored exactly when fewer than `max_requests` stored hits are young. -/
theorem Alone.step_cases (hs : s.Alone k n W m) (hn : 1 ≤ n) (hm : 1 ≤ m)
    (h : step k s l = some s') : s'.Alone k n W m ∧
      ((s'.limiter.stored k = s.limiter.stored k ∧ s'.allowed = s.allowed) ∨
        ∃ i now, l = .enter i ∧ s.waiting[i]? = some now ∧
          (((young W now (s.limiter.stored k)).length < n ∧
              s'.limiter.stored k = young W now (s.limiter.stored k) ++ [now] ∧
              s'.allowed = s.allowed ++ [now]) ∨
            (n ≤ (young W now (s.limiter.stored k)).length ∧
              s'.limiter.stored k = young W now (s.limiter.stored k) ∧
              s'.allowed = s.allowed))) := by
  cases l with
  | read now =>
      simp only [step] at h
      split_ifs at h
      obtain rfl := Option.some.inj h
      exact ⟨⟨hs.max, hs.window, hs.maxKeys, hs.one⟩, .inl ⟨rfl, rfl⟩⟩
  | enter i =>
      obtain ⟨now, hi, rfl⟩ := Option.map_eq_some_iff.1 h
      obtain ⟨hits, hcheck, hone, hallows, hstored⟩ := RateLimiter.check_alone hs.one
        (hs.max ▸ hn) (hs.maxKeys ▸ hm) now
      rw [hs.max, hs.window] at hallows
      rw [hs.window] at hstored
      rw [hcheck]
      refine ⟨⟨hs.max, hs.window, hs.maxKeys, hone⟩, .inr ⟨i, now, rfl, hi, ?_⟩⟩
      by_cases hlt : ((young W now (s.limiter.stored k)).length : ℤ) < n
      · rw [decide_eq_true hlt] at hallows
        rw [hallows] at hstored ⊢
        exact .inl ⟨hlt, hstored, rfl⟩
      · rw [decide_eq_false hlt] at hallows
        rw [hallows] at hstored ⊢
        refine .inr ⟨not_lt.1 hlt, hstored.trans ?_, ?_⟩ <;> exact List.append_nil _

/-! ### Timely calls -/

/-- At most `max_requests` allowed calls in any interval as long as the window. -/
def Limited (n : ℤ) (W : T) (s : Threads K T) : Prop :=
  ∀ t, ((s.allowed.filter fun x => Within W t x).length : ℤ) ≤ n

/-- The calls allowed in an interval are young for another call in it. -/
theorem filter_within_sublist {t now : T} {hits : List T} (h : Within W t now) :
    (hits.filter fun x => Within W t x).Sublist (young W now hits) := by
  have hsub : (hits.filter fun x => Within W t x) =
      (young W now hits).filter fun x => Within W t x := by
    rw [young, List.filter_filter]
    refine List.filter_congr fun x _ => (Bool.and_eq_left_iff_imp.2 fun hx => ?_).symm
    rw [decide_eq_true_eq] at hx ⊢
    exact h.sub_lt hx
  rw [hsub]
  exact List.filter_sublist

/-- **Step lemma.**  A timely call keeps the limit. -/
theorem Limited.step (hl : s.Limited n W) (hs : s.Alone k n W m) (hn : 1 ≤ n) (hm : 1 ≤ m)
    (ht : s.Timely k l) (h : step k s l = some s') : s'.Limited n W := by
  intro t
  obtain ⟨-, ⟨-, hsame⟩ | ⟨i, now, rfl, hi, ⟨hlt, -, hallowed⟩ | ⟨-, -, hsame⟩⟩⟩ :=
    hs.step_cases hn hm h
  · exact hsame ▸ hl t
  · rw [hallowed, List.filter_append, List.length_append]
    have hbefore := hl t
    by_cases hin : Within W t now
    · have hyoung : _ ≤ (young W now s.allowed).length := (filter_within_sublist hin).length_le
      have htimely := ht now hi
      rw [hs.window] at htimely
      rw [htimely] at hlt
      have hone : ([now].filter fun x => Within W t x).length = 1 := by simp [hin]
      omega
    · have hnone : ([now].filter fun x => Within W t x).length = 0 := by simp [hin]
      omega
  · exact hsame ▸ hl t

/-! ### A limit of one -/

/-- With a limit of one the last allowed call is what is stored, and allowed calls are
a window apart. -/
structure Spaced (k : K) (W : T) (s : Threads K T) : Prop where
  stored : s.limiter.stored k = s.allowed.getLast?.toList
  apart : s.allowed.Pairwise fun x y => W ≤ y - x

/-- Calls that are a window apart are in order. -/
theorem lt_of_le_sub (hW : 0 < W) {x y : T} (h : W ≤ y - x) : x < y := by
  by_contra hle
  have hzero := Clock.sub_mono x (not_lt.1 hle)
  rw [Clock.sub_self] at hzero
  exact absurd (h.trans hzero) (not_le.2 hW)

/-- **Step lemma.**  With a limit of one any call keeps the calls apart. -/
theorem Spaced.step (hsp : s.Spaced k W) (hs : s.Alone k 1 W m) (hW : 0 < W) (hm : 1 ≤ m)
    (h : step k s l = some s') : s'.Spaced k W := by
  obtain ⟨-, ⟨hstored, hsame⟩ | ⟨i, now, rfl, hi, ⟨hlt, hstored, hallowed⟩ | ⟨hle, hstored, hsame⟩⟩⟩ :=
    hs.step_cases le_rfl hm h
  · exact ⟨by rw [hstored, hsame, hsp.stored], hsame ▸ hsp.apart⟩
  · have hnil : young W now (s.limiter.stored k) = [] := by
      rw [← List.length_eq_zero_iff]
      omega
    rw [hnil, List.nil_append] at hstored
    refine ⟨by rw [hstored, hallowed]; simp, ?_⟩
    rw [hallowed, List.pairwise_append]
    refine ⟨hsp.apart, List.pairwise_singleton .., fun x hx y hy => ?_⟩
    obtain rfl := List.mem_singleton.1 hy
    -- the last allowed call is not young, and the others were made before it
    have hne : s.allowed ≠ [] := List.ne_nil_of_mem hx
    have hlast : x ≤ s.allowed.getLast hne :=
      (hsp.apart.imp fun h => (lt_of_le_sub hW h).le).rel_getLast hx
    rw [hsp.stored, List.getLast?_eq_some_getLast hne] at hnil
    have hold : ¬ y - s.allowed.getLast hne < W := by
      intro hyoung
      simp [young, hyoung] at hnil
    exact (not_lt.1 hold).trans (Clock.sub_anti y hlast)
  · have hkept : young W now (s.limiter.stored k) = s.limiter.stored k := by
      refine List.Sublist.eq_of_length_le List.filter_sublist ?_
      have hone : (s.limiter.stored k).length ≤ 1 := by
        rw [hsp.stored]
        cases s.allowed.getLast? <;> simp
      omega
    exact ⟨by rw [hstored, hkept, hsame, hsp.stored], hsame ▸ hsp.apart⟩

/-- Calls that are a window apart are not in one interval. -/
theorem Spaced.limited (hsp : s.Spaced k W) : s.Limited 1 W := by
  intro t
  have hpair : (s.allowed.filter fun x => Within W t x).Pairwise fun x y => W ≤ y - x :=
    hsp.apart.filter _
  cases hl : s.allowed.filter fun x => Within W t x with
  | nil => simp
  | cons x rest =>
      cases rest with
      | nil => simp
      | cons y rest =>
          rw [hl] at hpair
          have hx : x ∈ s.allowed.filter fun x => Within W t x := hl ▸ List.mem_cons_self ..
          have hy : y ∈ s.allowed.filter fun x => Within W t x :=
            hl ▸ List.mem_cons_of_mem _ (List.mem_cons_self ..)
          have hlt := Within.sub_lt (of_decide_eq_true (List.mem_filter.1 hy).2)
            (of_decide_eq_true (List.mem_filter.1 hx).2)
          exact absurd ((List.pairwise_cons.1 hpair).1 y (List.mem_cons_self ..)) (not_le.2 hlt)

/-! ### Runs -/

/-- **The limit under threads.**  In every run with a limit of one, and in every run in
which no call finds that a hit still young for it has been dropped, no interval as long
as the window holds more than `max_requests` allowed calls. -/
theorem limit_holds_of_run {ls : List (Label T)} (hn : 1 ≤ n) (hW : 0 < W) (hm : 1 ≤ m)
    (hr : Runs.run (step k) (start n W m clock) ls = some s)
    (ht : n = 1 ∨ Runs.Along (step k) (Timely k) (start n W m clock) ls) (t : T) :
    ((s.allowed.filter fun x => Within W t x).length : ℤ) ≤ n := by
  rcases ht with rfl | ht
  · have hinv := Runs.run_invariant (I := fun s => s.Alone k 1 W m ∧ s.Spaced k W)
      (P := fun _ _ => True)
      (fun s l s' hI _ h => ⟨(hI.1.step_cases le_rfl hm h).1, hI.2.step hI.1 hW hm h⟩)
      ⟨alone_start, rfl, List.Pairwise.nil⟩ (Runs.along_of_forall fun _ _ _ => trivial) hr
    exact hinv.2.limited t
  · have hinv := Runs.run_invariant (I := fun s => s.Alone k n W m ∧ s.Limited n W)
      (P := Timely k)
      (fun s l s' hI hl h => ⟨(hI.1.step_cases hn hm h).1, hI.2.step hI.1 hn hm hl h⟩)
      ⟨alone_start, fun t => by simpa [start] using hn.trans' zero_le_one⟩ ht hr
    exact hinv.2 t

/-- The thread that reads the clock at 59 has the lock after the one that reads it at 61. -/
def overtaken : List (Label ℚ) :=
  [.read 0, .enter 0, .read 1, .enter 0, .read 59, .read 61, .enter 1, .enter 0]

/-- The first two of these calls, and a third in time order. -/
def inOrder : List (Label ℚ) := [.read 0, .enter 0, .read 1, .enter 0, .read 59, .enter 0]

/-- Two requests a minute, and three are allowed in the first minute. -/
theorem limit_overtaken : ∃ s : Threads Unit ℚ,
    Runs.run (step ()) (start 2 60 defaultMaxKeys 0) overtaken = some s ∧
      (2 : ℤ) < (s.allowed.filter fun x => 0 ≤ x ∧ x < 0 + 60).length :=
  ⟨_, rfl, by decide +kernel⟩

/-- In time order the third call is denied. -/
theorem limit_holds_inOrder : ∃ s : Threads Unit ℚ,
    Runs.run (step ()) (start 2 60 defaultMaxKeys 0) inOrder = some s ∧ s.allowed = [0, 1] ∧
      ((s.allowed.filter fun x => Within (60 : ℚ) 0 x).length : ℤ) ≤ 2 :=
  ⟨_, rfl, by decide +kernel, limit_holds_of_run (by decide) (by decide) (by decide)
    (rfl : Runs.run (step ()) (start 2 60 defaultMaxKeys 0) inOrder = some _)
    (.inr (by decide +kernel)) 0⟩

/-! ### Without an order -/

section Exceeded
variable {s : Threads K ℚ} {W : ℚ}

/-- A waiting call for which there is room is allowed. -/
theorem Alone.enter (hs : s.Alone k n W m) (hn : 1 ≤ n) (hm : 1 ≤ m) {i : ℕ} {now : ℚ}
    (hi : s.waiting[i]? = some now) (hlt : ((young W now (s.limiter.stored k)).length : ℤ) < n) :
    ∃ s', step k s (.enter i) = some s' ∧ s'.Alone k n W m ∧ s'.clock = s.clock ∧
      s'.waiting = s.waiting.eraseIdx i ∧
      s'.limiter.stored k = young W now (s.limiter.stored k) ++ [now] ∧
      s'.allowed = s.allowed ++ [now] := by
  have hstep : step k s (.enter i) = some
      { s with
        limiter := (s.limiter.check k now).2
        waiting := s.waiting.eraseIdx i
        allowed := s.allowed ++ if s.limiter.allows (k, now) then [now] else [] } := by
    simp only [step, hi, Option.map_some]
  refine ⟨_, hstep, ?_⟩
  obtain ⟨hits, hcheck, hone, hallows, hstored⟩ := RateLimiter.check_alone hs.one
    (hs.max ▸ hn) (hs.maxKeys ▸ hm) now
  rw [hs.max, hs.window, decide_eq_true hlt] at hallows
  rw [hs.window, hallows] at hstored
  rw [hcheck, hallows]
  exact ⟨⟨hs.max, hs.window, hs.maxKeys, hone⟩, rfl, rfl, hstored, rfl⟩

/-- A reading of the clock. -/
theorem Alone.read (hs : s.Alone k n W m) {now : ℚ} (hnow : s.clock ≤ now) :
    ∃ s', step k s (.read now) = some s' ∧ s'.Alone k n W m ∧ s'.clock = now ∧
      s'.waiting = s.waiting ++ [now] ∧ s'.limiter.stored k = s.limiter.stored k ∧
      s'.allowed = s.allowed :=
  ⟨_, if_pos hnow, ⟨hs.max, hs.window, hs.maxKeys, hs.one⟩, rfl, rfl, rfl, rfl⟩

/-- `j` calls at time zero, one after the other. -/
theorem exists_run_full (hn : 1 ≤ n) (hW : 0 < W) (hm : 1 ≤ m) (j : ℕ) (hj : (j : ℤ) ≤ n) :
    ∃ ls s, Runs.run (step k) (start n W m 0) ls = some s ∧ s.Alone k n W m ∧ s.clock = 0 ∧
      s.waiting = [] ∧ s.limiter.stored k = List.replicate j 0 ∧ s.allowed = List.replicate j 0 := by
  induction j with
  | zero => exact ⟨[], _, rfl, alone_start, rfl, rfl, rfl, rfl⟩
  | succ j ih =>
      obtain ⟨ls, s, hr, hs, hclock, hwaiting, hstored, hallowed⟩ := ih (by omega)
      obtain ⟨s₁, hstep₁, hs₁, hclock₁, hwaiting₁, hstored₁, hallowed₁⟩ := hs.read hclock.le
      have hyoung : young W 0 (List.replicate j (0 : ℚ)) = List.replicate j 0 := by
        simp [young, hW]
      obtain ⟨s₂, hstep₂, hs₂, hclock₂, hwaiting₂, hstored₂, hallowed₂⟩ := hs₁.enter hn hm (i := 0)
        (by rw [hwaiting₁, hwaiting]; rfl) (by rw [hstored₁, hstored, hyoung]; simp; omega)
      refine ⟨ls ++ [.read 0, .enter 0], s₂, ?_, hs₂, hclock₂.trans hclock₁, ?_, ?_, ?_⟩
      · refine Runs.run_append_eq_some.2 ⟨s, hr, ?_⟩
        exact Runs.run_cons_eq_some.2 ⟨s₁, hstep₁, Runs.run_cons_eq_some.2 ⟨s₂, hstep₂, rfl⟩⟩
      · rw [hwaiting₂, hwaiting₁, hwaiting]
        rfl
      · rw [hstored₂, hstored₁, hstored, hyoung, List.replicate_succ']
      · rw [hallowed₂, hallowed₁, hallowed, List.replicate_succ']

/-- **A limit of two or more can be exceeded.**  The limiter is full at time zero; a call
reads the clock, and before it has the lock another one a window later empties the list. -/
theorem limit_exceeded (hn : 2 ≤ n) (hW : 0 < W) (hm : 1 ≤ m) (k : K) :
    ∃ ls s, Runs.run (step k) (start n W m 0) ls = some s ∧
      n < (s.allowed.filter fun x => Within W 0 x).length := by
  obtain ⟨ls, s, hr, hs, hclock, hwaiting, hstored, hallowed⟩ :=
    exists_run_full (k := k) (one_le_two.trans hn) hW hm n.toNat (by omega)
  obtain ⟨s₁, hstep₁, hs₁, hclock₁, hwaiting₁, hstored₁, hallowed₁⟩ := hs.read hclock.le
  obtain ⟨s₂, hstep₂, hs₂, hclock₂, hwaiting₂, hstored₂, hallowed₂⟩ := hs₁.read (hclock₁.trans_le hW.le)
  have hempty : young W W (List.replicate n.toNat (0 : ℚ)) = [] := by simp [young]
  have hkept : young W 0 [W] = [W] := by simp [young, hW]
  rw [hwaiting₁, hwaiting] at hwaiting₂
  obtain ⟨s₃, hstep₃, hs₃, -, hwaiting₃, hstored₃, hallowed₃⟩ := hs₂.enter (by omega) hm (i := 1)
    (by rw [hwaiting₂]; rfl) (by rw [hstored₂, hstored₁, hstored, hempty]; simp; omega)
  rw [hstored₂, hstored₁, hstored, hempty] at hstored₃
  obtain ⟨s₄, hstep₄, -, -, -, -, hallowed₄⟩ := hs₃.enter (by omega) hm (i := 0)
    (by rw [hwaiting₃, hwaiting₂]; rfl) (by rw [hstored₃]; simp [hkept]; omega)
  refine ⟨ls ++ [.read 0, .read W, .enter 1, .enter 0], s₄, ?_, ?_⟩
  · refine Runs.run_append_eq_some.2 ⟨s, hr, ?_⟩
    exact Runs.run_cons_eq_some.2 ⟨s₁, hstep₁, Runs.run_cons_eq_some.2 ⟨s₂, hstep₂,
      Runs.run_cons_eq_some.2 ⟨s₃, hstep₃, Runs.run_cons_eq_some.2 ⟨s₄, hstep₄, rfl⟩⟩⟩⟩
  · have hzero : Within W 0 0 := ⟨le_rfl, by simpa using hW⟩
    have hlate : ¬ Within W 0 W := fun h => absurd h.2 (by simp)
    have hlength : ((List.replicate n.toNat (0 : ℚ) ++ [W] ++ [0]).filter fun x =>
        Within W 0 x).length = n.toNat + 1 := by
      simp [hzero, hlate]
    rw [hallowed₄, hallowed₃, hallowed₂, hallowed₁, hallowed, hlength]
    omega

end Exceeded

end Threads
end PoetryGenerator
