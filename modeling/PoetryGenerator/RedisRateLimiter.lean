/-
# The Redis rate limiter (`api/app/ratelimit.py`)

`RedisRateLimiter.check` counts the calls on a key in a window of fixed length
with one `INCR`; the first call of a window sends an `EXPIRE` after it.  The two
commands are apart, other processes step in between, and the process may die
before the second.

The invariant is `Counters.Tied`: the counter of a key and a window holds the
number of calls on that key in that window, and if it expires then after the
window.  It is about the server and the history of its `INCR`s alone, so it holds
whoever sent them; `RedisCalls` puts the calls of any number of processes on top.

Windows are of positive length; of length zero the code raises.
-/

import Mathlib.Data.Rat.Floor
import PoetryGenerator.Lib.FixedWindow
import PoetryGenerator.Lib.Runs
import PoetryGenerator.World

namespace PoetryGenerator

open FixedWindow Numerals

/-- The value of a counter, and the end of its time to live if it has one. -/
structure Counter (T : Type) where
  count : ℕ
  expiry : Option T := none

/-- The counters of the Redis server under their names. -/
abbrev Counters (T : Type) := Str → Option (Counter T)

/-- `f"ratelimit:{key}:{window_index}"`. -/
def redisKey (key : Str) (windowIndex : ℤ) : Str :=
  "ratelimit:".toList ++ key ++ ':' :: strOfInt windowIndex

/-- **No two counters have one name**, even if a key holds a colon. -/
theorem redisKey_injective {k k' : Str} {j j' : ℤ} (h : redisKey k j = redisKey k' j') :
    k = k' ∧ j = j' := by
  have hcolon := notMem_strOfInt (c := ':') (by decide) (by decide)
  obtain ⟨hk, hj⟩ := Str.append_cons_inj (hcolon j) (hcolon j') h
  exact ⟨List.append_cancel_left hk, strOfInt_injective hj⟩

variable {T : Type} [Field T] [LinearOrder T]

namespace Counters

/-- A counter that has not expired. -/
def live (c : Counters T) (now : T) (name : Str) : Option (Counter T) :=
  (c name).filter fun x => x.expiry.all (now ≤ ·)

/-- `INCR name`: the new value, and the counters after it. -/
def incr (c : Counters T) (now : T) (name : Str) : ℕ × Counters T :=
  let x := (c.live now name).getD { count := 0 }
  (x.count + 1, Function.update c name (some { x with count := x.count + 1 }))

/-- `EXPIRE name ttl`; of a counter that is gone it does nothing. -/
def expire (c : Counters T) (now : T) (name : Str) (ttl : ℤ) : Counters T :=
  match c.live now name with
  | none => c
  | some x => Function.update c name (some { x with expiry := some (now + ttl) })

end Counters

/-- A `RedisRateLimiter`: `max_requests` and `window_seconds`. -/
structure RedisRateLimiter (T : Type) where
  max : ℤ
  window : T

variable [FloorRing T]

namespace RedisRateLimiter

/-- The counter of a call. -/
def counter (rl : RedisRateLimiter T) (key : Str) (now : T) : Str :=
  redisKey key (index rl.window now)

/-- `int(self.window) + 1`. -/
def ttl (rl : RedisRateLimiter T) : ℤ := trunc rl.window + 1

/-- The answer to a call for which `INCR` returned `count`. -/
def answer (rl : RedisRateLimiter T) (now : T) (count : ℕ) : Bool × ℤ :=
  if rl.max < count then (false, wait rl.window now) else (true, 0)

/-- `check`, both commands at one time: the answer `(allowed, retry_after)` and the
counters after it.  A command that raises a `RedisError` or an `OSError` allows the call. -/
def check (rl : RedisRateLimiter T) (incr expire : Reply) (c : Counters T) (key : Str) (now : T) :
    (Bool × ℤ) × Counters T :=
  let (count, counted) := c.incr now (rl.counter key now)
  let c := if incr.takesEffect then counted else c
  if incr ≠ .ok then ((true, 0), c)
  else if count = 1 then
    let expired := c.expire now (rl.counter key now) rl.ttl
    (if expire = .ok then rl.answer now count else (true, 0),
      if expire.takesEffect then expired else c)
  else (rl.answer now count, c)

end RedisRateLimiter

/-! ### The invariant -/

/-- The calls on a key in a window. -/
def hitsOf (W : T) (k : Str) (j : ℤ) (hist : List (Str × T)) : ℕ :=
  hist.countP fun x => x.1 = k ∧ index W x.2 = j

/-- **The invariant.**  The counter of a key and a window holds the number of calls, and
it does not expire before the end of the window; without a call there is no counter. -/
structure Counters.Tied (W : T) (c : Counters T) (hist : List (Str × T)) (clock : T) : Prop where
  past : ∀ x ∈ hist, x.2 ≤ clock
  counter : ∀ k j, (hitsOf W k j hist = 0 ∧ c (redisKey k j) = none) ∨
    hitsOf W k j hist ≠ 0 ∧ ∃ e, c (redisKey k j) = some ⟨hitsOf W k j hist, e⟩ ∧
      ∀ x ∈ e, (j + 1) * W < x

namespace Counters

variable {W : T} {c : Counters T} {hist : List (Str × T)} {clock now : T} {k : Str} {j : ℤ}

theorem tied_empty : Counters.Tied W (fun _ => none) [] clock :=
  ⟨fun _ h => absurd h List.not_mem_nil, fun _ _ => .inl ⟨rfl, rfl⟩⟩

theorem Tied.mono (h : Tied W c hist clock) (hnow : clock ≤ now) : Tied W c hist now :=
  ⟨fun x hx => (h.past x hx).trans hnow, h.counter⟩

/-- **Before the end of its window a counter holds the number of calls.** -/
theorem Tied.live (h : Tied W c hist clock) (hnow : now < (j + 1) * W) :
    (hitsOf W k j hist = 0 ∧ c.live now (redisKey k j) = none) ∨
      hitsOf W k j hist ≠ 0 ∧ ∃ e, c.live now (redisKey k j) = some ⟨hitsOf W k j hist, e⟩ ∧
        ∀ x ∈ e, (j + 1) * W < x := by
  rcases h.counter k j with ⟨hzero, hnone⟩ | ⟨hne, e, hsome, he⟩
  · exact .inl ⟨hzero, by rw [Counters.live, hnone, Option.filter_none]⟩
  · refine .inr ⟨hne, e, ?_, he⟩
    rw [Counters.live, hsome, Option.filter_some, if_pos]
    cases e with
    | none => rfl
    | some x => exact decide_eq_true (hnow.trans (he x rfl)).le

theorem hitsOf_append (x : Str × T) : hitsOf W k j (hist ++ [x]) =
    hitsOf W k j hist + if x.1 = k ∧ index W x.2 = j then 1 else 0 := by
  simp [hitsOf, List.countP_append, List.countP_cons]

variable [IsStrictOrderedRing T]

/-- `INCR` counts the call. -/
theorem Tied.incr (h : Tied W c hist clock) (hW : 0 < W) (hnow : clock ≤ now) :
    (c.incr now (redisKey k (index W now))).1 = hitsOf W k (index W now) hist + 1 ∧
      Tied W (c.incr now (redisKey k (index W now))).2 (hist ++ [(k, now)]) now := by
  have hopen := lt_index_succ_mul hW now
  have hcount : ∃ e, ((c.live now (redisKey k (index W now))).getD { count := 0 }) =
      ⟨hitsOf W k (index W now) hist, e⟩ ∧ ∀ x ∈ e, (index W now + 1 : T) * W < x := by
    rcases h.live (k := k) hopen with ⟨hzero, hnone⟩ | ⟨-, e, hsome, he⟩
    · exact ⟨none, by rw [hnone, hzero]; rfl, fun _ hx => absurd hx (by simp)⟩
    · exact ⟨e, by rw [hsome]; rfl, he⟩
  obtain ⟨e, hget, he⟩ := hcount
  simp only [Counters.incr, hget, true_and]
  refine ⟨fun x hx => ?_, fun k' j' => ?_⟩
  · rcases List.mem_append.1 hx with hx | hx
    · exact (h.past x hx).trans hnow
    · exact (congrArg Prod.snd (List.mem_singleton.1 hx)).le
  · rw [hitsOf_append]
    by_cases hkey : k = k' ∧ index W now = j'
    · obtain ⟨rfl, rfl⟩ := hkey
      rw [if_pos ⟨rfl, rfl⟩, Function.update_self]
      exact .inr ⟨Nat.succ_ne_zero _, e, rfl, he⟩
    · rw [if_neg hkey, Nat.add_zero, Function.update_of_ne fun heq =>
        hkey (redisKey_injective heq.symm)]
      exact h.counter k' j'

/-- `EXPIRE` at any time after a call sets an end that is after its window. -/
theorem Tied.expire (h : Tied W c hist clock) (hW : 0 < W) (hnow : clock ≤ now) {x : Str × T}
    (hx : x ∈ hist) :
    Tied W (c.expire now (redisKey x.1 (index W x.2)) (trunc W + 1)) hist now := by
  refine ⟨fun y hy => (h.past y hy).trans hnow, fun k' j' => ?_⟩
  unfold Counters.expire
  cases hlive : c.live now (redisKey x.1 (index W x.2)) with
  | none => exact h.counter k' j'
  | some counter =>
      by_cases hkey : redisKey k' j' = redisKey x.1 (index W x.2)
      · obtain ⟨rfl, rfl⟩ := redisKey_injective hkey
        have hsome := (Option.filter_eq_some_iff.1 hlive).1
        rcases h.counter x.1 (index W x.2) with ⟨-, hnone⟩ | ⟨hne, e, heq, -⟩
        · exact absurd (hnone.symm.trans hsome) (Option.some_ne_none _).symm
        · obtain rfl := Option.some.inj (heq.symm.trans hsome)
          refine .inr ⟨hne, _, Function.update_self .., fun y hy => ?_⟩
          obtain rfl := Option.some.inj hy
          have hstart := (index_mul_le hW x.2).trans ((h.past x hx).trans hnow)
          have hlength := lt_trunc_add_one W
          push_cast
          linarith
      · simp only [Function.update_of_ne hkey]
        exact h.counter k' j'

/-- **`check` with a server that answers** counts the call, and answers its number. -/
theorem Tied.check {rl : RedisRateLimiter T} (h : Tied rl.window c hist clock) (hW : 0 < rl.window)
    (hnow : clock ≤ now) (k : Str) :
    (rl.check .ok .ok c k now).1 =
        rl.answer now (hitsOf rl.window k (index rl.window now) hist + 1) ∧
      Tied rl.window (rl.check .ok .ok c k now).2 (hist ++ [(k, now)]) now := by
  obtain ⟨hcount, htied⟩ := h.incr (k := k) hW hnow
  have hexpire := htied.expire hW le_rfl (List.mem_append_right hist (List.mem_singleton_self (k, now)))
  rw [← hcount]
  unfold RedisRateLimiter.check RedisRateLimiter.counter
  simp only [Reply.takesEffect, ne_eq, not_true, if_false, if_true]
  split_ifs
  · exact ⟨rfl, hexpire⟩
  · exact ⟨rfl, htied⟩

end Counters

/-! ### Calls of any number of processes -/

/-- A call of `check`: its key and time, what `INCR` returned, whether `EXPIRE` has been
sent, and the answer if it has been given. -/
structure RedisCall (T : Type) where
  key : Str
  now : T
  count : ℕ
  expired : Bool := false
  answer : Option (Bool × ℤ) := none

/-- What only `INCR` knows of a call: the key, the time and the number. -/
def RedisCall.hit {T : Type} (c : RedisCall T) : (Str × T) × ℕ := ((c.key, c.now), c.count)

/-- The call is answered, and it is allowed. -/
def RedisCall.allowed {T : Type} (c : RedisCall T) : Bool := c.answer.any Prod.fst

/-- The server, its clock, and the calls in the order of their `INCR`s. -/
structure RedisCalls (T : Type) where
  counters : Counters T
  clock : T
  calls : List (RedisCall T)

namespace RedisCalls

/-- One step of a call.  A process that has died takes no further step. -/
inductive Label (T : Type)
  /-- A process calls `check` and sends `INCR`. -/
  | incr (key : Str) (now : T)
  /-- Call `i`, the first in its window, sends `EXPIRE`. -/
  | expire (i : ℕ) (now : T)
  /-- Call `i` is answered. -/
  | answer (i : ℕ)

/-- One step of any call. -/
def step (rl : RedisRateLimiter T) (s : RedisCalls T) : Label T → Option (RedisCalls T)
  | .incr key now =>
    if s.clock ≤ now then
      let (count, counters) := s.counters.incr now (rl.counter key now)
      some { counters, clock := now, calls := s.calls ++ [{ key, now, count }] }
    else none
  | .expire i now => s.calls[i]?.bind fun c =>
    if s.clock ≤ now ∧ c.count = 1 ∧ c.expired = false then
      some
        { counters := s.counters.expire now (rl.counter c.key c.now) rl.ttl
          clock := now
          calls := s.calls.set i { c with expired := true } }
    else none
  | .answer i => s.calls[i]?.bind fun c =>
    if (c.count = 1 → c.expired = true) ∧ c.answer = none then
      some { s with calls := s.calls.set i { c with answer := some (rl.answer c.now c.count) } }
    else none

/-- A server without counters. -/
def start (clock : T) : RedisCalls T := ⟨fun _ => none, clock, []⟩

/-- The calls on a key in a window, in the order of their `INCR`s. -/
def callsOf (s : RedisCalls T) (W : T) (k : Str) (j : ℤ) : List (RedisCall T) :=
  s.calls.filter fun c => c.key = k ∧ index W c.now = j

/-- The `INCR`s so far. -/
def hist (s : RedisCalls T) : List (Str × T) := s.calls.map fun c => (c.key, c.now)

variable {rl : RedisRateLimiter T} {s s' : RedisCalls T} {l : Label T} {clock : T}

/-- **A step is an `INCR`, or is about one earlier call**, of which it changes only
whether `EXPIRE` has been sent and the answer. -/
theorem step_cases (h : step rl s l = some s') :
    (∃ key now, s.clock ≤ now ∧ s' =
      { counters := (s.counters.incr now (rl.counter key now)).2
        clock := now
        calls := s.calls ++
          [{ key, now, count := (s.counters.incr now (rl.counter key now)).1 }] }) ∨
    ∃ i c c', s.calls[i]? = some c ∧ c'.hit = c.hit ∧ s'.calls = s.calls.set i c' ∧
      ((∃ now, s.clock ≤ now ∧ s'.clock = now ∧ c'.answer = c.answer ∧
          s'.counters = s.counters.expire now (rl.counter c.key c.now) rl.ttl) ∨
        (s'.clock = s.clock ∧ s'.counters = s.counters ∧
          c'.answer = some (rl.answer c.now c.count))) := by
  cases l with
  | incr key now =>
      simp only [step] at h
      split_ifs at h with hnow
      exact .inl ⟨key, now, hnow, (Option.some.inj h).symm⟩
  | expire i now =>
      obtain ⟨c, hc, h⟩ := Option.bind_eq_some_iff.1 h
      split_ifs at h with hguard
      obtain rfl := Option.some.inj h
      exact .inr ⟨i, c, { c with expired := true }, hc, rfl, rfl,
        .inl ⟨now, hguard.1, rfl, rfl, rfl⟩⟩
  | answer i =>
      obtain ⟨c, hc, h⟩ := Option.bind_eq_some_iff.1 h
      split_ifs at h with hguard
      obtain rfl := Option.some.inj h
      exact .inr ⟨i, c, { c with answer := some (rl.answer c.now c.count) }, hc, rfl, rfl,
        .inr ⟨rfl, rfl, rfl⟩⟩

/-- **The invariant of a run.**  The counters are tied to the calls, which are in the order
of their times; the calls on a key in a window are numbered from one, and an answer is
about the number of its call. -/
structure Inv (rl : RedisRateLimiter T) (s : RedisCalls T) : Prop where
  tied : Counters.Tied rl.window s.counters s.hist s.clock
  ordered : s.hist.Pairwise fun x y => x.2 ≤ y.2
  numbered : ∀ k j, (s.callsOf rl.window k j).map RedisCall.count =
    List.range' 1 (s.callsOf rl.window k j).length
  answered : ∀ c ∈ s.calls, ∀ a ∈ c.answer, a = rl.answer c.now c.count

theorem inv_start : (start clock).Inv rl :=
  ⟨Counters.tied_empty, List.Pairwise.nil, fun _ _ => rfl, fun _ h => absurd h List.not_mem_nil⟩

theorem length_callsOf (s : RedisCalls T) (W : T) (k : Str) (j : ℤ) :
    (s.callsOf W k j).length = hitsOf W k j s.hist := by
  rw [callsOf, hitsOf, hist, List.countP_map, ← List.countP_eq_length_filter]
  rfl

/-- What `INCR` knows is all that the order of the calls and their numbers are about. -/
theorem map_count_callsOf (s : RedisCalls T) (W : T) (k : Str) (j : ℤ) :
    (s.callsOf W k j).map RedisCall.count =
      ((s.calls.map RedisCall.hit).filter fun x => x.1.1 = k ∧ index W x.1.2 = j).map Prod.snd := by
  rw [List.filter_map, List.map_map]
  rfl

omit [Field T] [LinearOrder T] [FloorRing T] in
theorem hist_eq (s : RedisCalls T) : s.hist = (s.calls.map RedisCall.hit).map Prod.fst := by
  rw [List.map_map]
  rfl

omit [Field T] [LinearOrder T] [FloorRing T] in
theorem map_hit_set {calls : List (RedisCall T)} {i : ℕ} {c c' : RedisCall T}
    (hi : calls[i]? = some c) (hc : c'.hit = c.hit) :
    (calls.set i c').map RedisCall.hit = calls.map RedisCall.hit := by
  obtain ⟨hlt, rfl⟩ := List.getElem?_eq_some_iff.1 hi
  rw [List.map_set, hc, ← List.getElem_map RedisCall.hit (h := by rwa [List.length_map]),
    List.set_getElem_self]

variable [IsStrictOrderedRing T]

/-- **Step lemma.** -/
theorem Inv.step (hs : s.Inv rl) (hW : 0 < rl.window) (h : step rl s l = some s') : s'.Inv rl := by
  rcases step_cases h with ⟨key, now, hnow, rfl⟩ |
    ⟨i, c, c', hi, hhit, hcalls, hcase⟩
  · obtain ⟨hcount, htied⟩ := hs.tied.incr (k := key) hW hnow
    refine ⟨?_, ?_, fun k j => ?_, fun c hc => ?_⟩
    · rw [hist, List.map_append]
      exact htied
    · rw [hist, List.map_append, List.pairwise_append]
      refine ⟨hs.ordered, List.pairwise_singleton .., fun x hx y hy => ?_⟩
      exact List.mem_singleton.1 hy ▸ (hs.tied.past x hx).trans hnow
    · have hbefore := hs.numbered k j
      have hlen := s.length_callsOf rl.window k j
      simp only [callsOf, List.filter_append, List.map_append, List.length_append] at hbefore hlen ⊢
      rw [hbefore]
      by_cases hkey : key = k ∧ index rl.window now = j
      · obtain ⟨rfl, rfl⟩ := hkey
        simp only [RedisRateLimiter.counter, hcount, ← hlen, and_self, decide_true, List.filter_cons_of_pos, List.filter_nil,
          List.map_cons, List.map_nil, List.length_cons, List.length_nil]
        rw [List.range'_concat]
        simp [Nat.add_comm]
      · simp [hkey]
    · rcases List.mem_append.1 hc with hc | hc
      · exact hs.answered c hc
      · obtain rfl := List.mem_singleton.1 hc
        exact fun a ha => absurd ha (by simp)
  · have hhits : s'.calls.map RedisCall.hit = s.calls.map RedisCall.hit := by
      rw [hcalls, map_hit_set hi hhit]
    have hhist : s'.hist = s.hist := by rw [hist_eq, hist_eq, hhits]
    have hmem : c ∈ s.calls := List.mem_of_getElem? hi
    have hkept : c'.now = c.now ∧ c'.count = c.count := by
      simp only [RedisCall.hit, Prod.mk.injEq] at hhit
      exact ⟨hhit.1.2, hhit.2⟩
    refine ⟨?_, hhist ▸ hs.ordered, fun k j => ?_, fun d hd => ?_⟩
    · rw [hhist]
      rcases hcase with ⟨now, hnow, hclock, -, hcounters⟩ | ⟨hclock, hcounters, -⟩
      · rw [hcounters, hclock]
        exact hs.tied.expire hW hnow (List.mem_map_of_mem hmem)
      · rw [hcounters, hclock]
        exact hs.tied
    · rw [map_count_callsOf, hhits, ← map_count_callsOf, hs.numbered k j, length_callsOf, length_callsOf,
        hhist]
    · rw [hcalls] at hd
      rcases List.mem_or_eq_of_mem_set hd with hd | rfl
      · exact hs.answered d hd
      · intro a ha
        rw [hkept.1, hkept.2]
        rcases hcase with ⟨-, -, -, hsame, -⟩ | ⟨-, -, hanswer⟩
        · exact hs.answered c hmem a (hsame ▸ ha)
        · exact Option.some.inj (ha.symm.trans hanswer)

theorem inv_of_run (hW : 0 < rl.window) {ls : List (Label T)}
    (hr : Runs.run (step rl) (start clock) ls = some s) : s.Inv rl :=
  Runs.run_invariant (P := fun _ _ => True) (fun _ _ _ hI _ h => hI.step hW h) inv_start
    (Runs.along_of_forall fun _ _ _ => trivial) hr

/-! ### Every run -/

omit [Field T] [LinearOrder T] [FloorRing T] [IsStrictOrderedRing T] in
/-- The first `m` of some calls with consecutive numbers. -/
theorem filter_count_lt {L : List (RedisCall T)} {a : ℕ}
    (h : L.map RedisCall.count = List.range' a L.length) (m : ℕ) :
    (L.filter fun c => c.count < a + m) = L.take m := by
  induction L generalizing a m with
  | nil => simp
  | cons c L ih =>
      rw [List.map_cons, List.length_cons, List.range'_succ, List.cons.injEq] at h
      obtain ⟨rfl, h⟩ := h
      cases m with
      | zero =>
          rw [List.take_zero, List.filter_eq_nil_iff]
          intro d hd
          have hge : d.count ∈ List.range' c.count (L.length + 1) := by
            rw [List.range'_succ, ← h, ← List.map_cons]
            exact List.mem_map_of_mem hd
          have := (List.mem_range'_1.1 hge).1
          simpa using this
      | succ m =>
          rw [List.filter_cons_of_pos (by simp), List.take_succ_cons, ← ih h m]
          simp only [Nat.add_right_comm, Nat.add_assoc]

omit [IsStrictOrderedRing T] in
/-- An answered call is allowed when its number is within the limit. -/
theorem Inv.allowed (hs : s.Inv rl) (hmax : 0 ≤ rl.max) {c : RedisCall T} (hc : c ∈ s.calls) :
    c.allowed = (c.answer.isSome && decide (c.count < 1 + rl.max.toNat)) := by
  unfold RedisCall.allowed
  cases hanswer : c.answer with
  | none => rfl
  | some a =>
      rw [hs.answered c hc a hanswer]
      simp only [RedisRateLimiter.answer, Option.any_some, Option.isSome_some, Bool.true_and]
      split_ifs with hover
      · exact (decide_eq_false (by omega)).symm
      · exact (decide_eq_true (by omega)).symm

/-- **The limiter is exact per window**, however the calls of any number of processes are
interleaved and wherever a process dies.  Of the calls on a key in a window the first
`max_requests` are allowed and no others; a counter lives until its window is over; and no
two keys or windows share a counter. -/
theorem exact_per_window_of_run {ls : List (Label T)} (hmax : 0 ≤ rl.max) (hW : 0 < rl.window)
    (hr : Runs.run (step rl) (start clock) ls = some s) :
    (∀ k j,
      (s.callsOf rl.window k j).filter RedisCall.allowed =
        ((s.callsOf rl.window k j).take rl.max.toNat).filter (·.answer.isSome) ∧
      ((∀ c ∈ s.callsOf rl.window k j, c.answer ≠ none) →
        (((s.callsOf rl.window k j).filter RedisCall.allowed).length : ℤ) =
          min ((s.callsOf rl.window k j).length : ℤ) rl.max) ∧
      ∀ now, s.clock ≤ now → now < (j + 1) * rl.window → s.callsOf rl.window k j ≠ [] →
        ∃ expiry, s.counters.live now (redisKey k j) =
          some ⟨(s.callsOf rl.window k j).length, expiry⟩) ∧
    ∀ k j k' j', redisKey k j = redisKey k' j' → k = k' ∧ j = j' := by
  have hs := inv_of_run hW hr
  refine ⟨fun k j => ?_, fun _ _ _ _ => redisKey_injective⟩
  have hfirst : (s.callsOf rl.window k j).filter RedisCall.allowed =
      ((s.callsOf rl.window k j).take rl.max.toNat).filter (·.answer.isSome) := by
    rw [← filter_count_lt (hs.numbered k j), List.filter_filter]
    exact List.filter_congr fun c hc => hs.allowed hmax (List.mem_of_mem_filter hc)
  refine ⟨hfirst, fun hall => ?_, fun now hnow hopen hne => ?_⟩
  · rw [hfirst, List.filter_eq_self.2, List.length_take]
    · omega
    · exact fun c hc => Option.isSome_iff_ne_none.2 (hall c (List.mem_of_mem_take hc))
  · rw [length_callsOf]
    rcases hs.tied.live (k := k) hopen with ⟨hzero, -⟩ | ⟨-, e, hlive, -⟩
    · rw [← length_callsOf, List.length_eq_zero_iff] at hzero
      exact absurd hzero hne
    · exact ⟨e, hlive⟩

/-- Two calls from one IPv6 address; the second is answered before the first has sent its
`EXPIRE`, and the process of a third call dies. -/
def racing : List (Label ℚ) :=
  [.incr "::1".toList 50, .incr "::1".toList 55, .answer 1, .expire 0 58, .answer 0,
    .incr "::1".toList 61]

/-- Of two calls in the first minute the first is allowed. -/
theorem exact_per_window_racing : ∃ s, Runs.run (step ⟨1, 60⟩) (start 0) racing = some s ∧
    (s.callsOf 60 "::1".toList 0).map RedisCall.now = [50, 55] ∧
      (((s.callsOf 60 "::1".toList 0).filter RedisCall.allowed).length : ℤ) = 1 := by
  have hrun : (Runs.run (step ⟨1, 60⟩) (start 0) racing).map (fun s =>
      (s.callsOf 60 "::1".toList 0).map fun c => (c.now, c.answer)) =
        some [(50, some (true, 0)), (55, some (false, 6))] := by decide +kernel
  obtain ⟨s, hr, hcalls⟩ := Option.map_eq_some_iff.1 hrun
  have hexact := ((exact_per_window_of_run (by decide) (by decide) hr).1
    "::1".toList 0).2.1 fun c hc hnone => by
      have hmem := List.mem_map_of_mem (f := fun c : RedisCall ℚ => (c.now, c.answer)) hc
      rw [hcalls, hnone] at hmem
      simp at hmem
  have hlen := congrArg List.length hcalls
  rw [List.length_map] at hlen
  refine ⟨s, hr, ?_, by rw [hexact, hlen]; rfl⟩
  have hnow := congrArg (List.map Prod.fst) hcalls
  rwa [List.map_map] at hnow

omit [IsStrictOrderedRing T] in
/-- **`check` with a server that answers is a call whose steps follow one another.** -/
theorem exists_run_check (s : RedisCalls T) (key : Str) {now : T} (hnow : s.clock ≤ now) :
    ∃ ls s', Runs.run (step rl) s ls = some s' ∧ s'.clock = now ∧
      s'.counters = (rl.check .ok .ok s.counters key now).2 ∧
      ∃ c, s'.calls = s.calls ++ [c] ∧ c.key = key ∧ c.now = now ∧
        c.answer = some (rl.check .ok .ok s.counters key now).1 := by
  rcases hincr : s.counters.incr now (rl.counter key now) with ⟨count, counters⟩
  have hlast : ∀ c : RedisCall T, (s.calls ++ [c])[s.calls.length]? = some c :=
    fun c => List.getElem?_concat_length
  have hset : ∀ c d : RedisCall T, (s.calls ++ [c]).set s.calls.length d = s.calls ++ [d] :=
    fun c d => by rw [List.set_append_right _ _ le_rfl, Nat.sub_self, List.set_cons_zero]
  have hfirst : step rl s (.incr key now) =
      some ⟨counters, now, s.calls ++ [⟨key, now, count, false, none⟩]⟩ := by
    simp only [step, if_pos hnow, hincr]
  by_cases hone : count = 1
  · refine ⟨[.incr key now, .expire s.calls.length now, .answer s.calls.length],
      ⟨counters.expire now (rl.counter key now) rl.ttl, now,
        s.calls ++ [⟨key, now, count, true, some (rl.answer now count)⟩]⟩,
      ?_, rfl, ?_, _, rfl, rfl, rfl, ?_⟩
    · refine Runs.run_cons_eq_some.2 ⟨_, hfirst, ?_⟩
      simp only [Runs.run, Option.bind_some, step, hlast, hset, le_refl, hone, and_self, if_true,
        true_implies]
    · simp only [RedisRateLimiter.check, hincr, hone, Reply.takesEffect, ne_eq, not_true, if_true, if_false]
    · simp only [RedisRateLimiter.check, hincr, hone, ne_eq, not_true, if_true, if_false]
  · refine ⟨[.incr key now, .answer s.calls.length],
      ⟨counters, now, s.calls ++ [⟨key, now, count, false, some (rl.answer now count)⟩]⟩,
      ?_, rfl, ?_, _, rfl, rfl, rfl, ?_⟩
    · refine Runs.run_cons_eq_some.2 ⟨_, hfirst, ?_⟩
      simp only [Runs.run, Option.bind_some, step, hlast, hset, hone, false_implies, and_self,
        if_true]
    · simp only [RedisRateLimiter.check, hincr, hone, Reply.takesEffect, ne_eq, not_true, if_true, if_false]
    · simp only [RedisRateLimiter.check, hincr, hone, ne_eq, not_true, if_false]

end RedisCalls

end PoetryGenerator
