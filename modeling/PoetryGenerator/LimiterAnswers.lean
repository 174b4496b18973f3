/-
# What the limiters answer (`api/app/ratelimit.py`)

`enforce_rate_limit` turns a denial `(False, retry_after)` into a `429` with the
header `Retry-After`.  With exact time the header is honest: after that many
seconds a call on the key is allowed, if nobody else makes one.  For the
in-memory limiter this is about the first stored hit being the oldest, and about
no more than `max_requests` of them (`Stored`); for Redis about `wait` reaching
into another window.

With a limit below one there is no first hit: `RateLimiter.check` raises an
`IndexError`, where `RedisRateLimiter.check` denies the call.
-/

import PoetryGenerator.RateLimiter
import PoetryGenerator.RedisRateLimiter

namespace PoetryGenerator

open SlidingWindow

namespace RateLimiter

variable {K T : Type} [DecidableEq K] [Clock T] {rl : RateLimiter K T} {k : K} {t t' : T}
  {n m : ℤ} {W : T} {calls : List (K × T)}

/-! ### What is stored -/

theorem lookup_evict {v : List T} (h : (rl.evict t).hits.lookup k = some v) :
    rl.hits.lookup k = some v := by
  unfold evict at h
  simp only at h
  split_ifs at h
  · rw [Table.lookup_deleteWhere, Option.filter_eq_some_iff] at h
    exact (lookup_unexpired.1 h.1).1
  · exact (lookup_unexpired.1 h).1

/-- **A call** is denied for a full list of young hits, which is then stored; it raises for
an empty one; or there is room, and it is stored, if anything is, after the young hits. -/
theorem check_cases (rl : RateLimiter K T) (k : K) (t : T) :
    (rl.max ≤ 0 ∧ young rl.window t (rl.stored k) = [] ∧ rl.check k t = (none, rl)) ∨
    (∃ first rest, young rl.window t (rl.stored k) = first :: rest ∧
      rl.max ≤ (first :: rest).length ∧
      rl.check k t = (some (false, Clock.toInt (rl.window - (t - first)) + 1),
        { rl with hits := rl.hits.set k (first :: rest) })) ∨
    (((young rl.window t (rl.stored k)).length : ℤ) < rl.max ∧
      (rl.check k t).1 = some (true, 0) ∧ ∀ k' v, (rl.check k t).2.hits.lookup k' = some v →
        (k' = k ∧ v = young rl.window t (rl.stored k) ++ [t]) ∨ rl.hits.lookup k' = some v) := by
  -- what a call that is allowed stores
  have hkept : ∀ bucket k' v, (rl.hits.set k bucket).lookup k' = some v →
      (k' = k ∧ v = bucket) ∨ rl.hits.lookup k' = some v := fun bucket k' v hv => by
    rw [Table.lookup_set] at hv
    split_ifs at hv with hk
    · exact .inl ⟨hk, (Option.some.inj hv).symm⟩
    · exact .inr hv
  unfold RateLimiter.check
  simp only [← young.eq_def, ← stored.eq_def]
  by_cases hfull : rl.max ≤ ((young rl.window t (rl.stored k)).length : ℤ)
  · simp only [if_pos hfull]
    cases hb : young rl.window t (rl.stored k) with
    | nil =>
        rw [hb] at hfull
        exact .inl ⟨hfull, rfl, rfl⟩
    | cons first rest =>
        rw [hb] at hfull
        exact .inr (.inl ⟨first, rest, rfl, hfull, rfl⟩)
  · simp only [if_neg hfull]
    refine .inr (.inr ⟨not_le.1 hfull, trivial, fun k' v hv => hkept _ k' v ?_⟩)
    split_ifs at hv
    · exact lookup_evict hv
    · exact hv

/-- **What is stored**: sorted hits, not from the future, and of each key no more than
`max_requests`. -/
structure Stored (rl : RateLimiter K T) (now : T) : Prop where
  sorted : ∀ k v, rl.hits.lookup k = some v → v.Pairwise (· ≤ ·)
  past : ∀ k v, rl.hits.lookup k = some v → ∀ x ∈ v, x ≤ now
  limited : ∀ k v, rl.hits.lookup k = some v → (v.length : ℤ) ≤ rl.max

theorem stored_new : (new n W m : RateLimiter K T).Stored t :=
  ⟨fun _ _ h => absurd h.symm (Option.some_ne_none _),
    fun _ _ h => absurd h.symm (Option.some_ne_none _),
    fun _ _ h => absurd h.symm (Option.some_ne_none _)⟩

theorem Stored.mono (h : rl.Stored t) (ht : t ≤ t') : rl.Stored t' :=
  ⟨h.sorted, fun k v hv x hx => (h.past k v hv x hx).trans ht, h.limited⟩

/-- The young hits of a key. -/
theorem Stored.young (h : rl.Stored t) (hmax : 0 ≤ rl.max) (k : K) :
    (young rl.window t (rl.stored k)).Pairwise (· ≤ ·) ∧
      (∀ x ∈ SlidingWindow.young rl.window t (rl.stored k), x ≤ t) ∧
        ((SlidingWindow.young rl.window t (rl.stored k)).length : ℤ) ≤ rl.max := by
  unfold stored
  cases hv : rl.hits.lookup k with
  | none => exact ⟨List.Pairwise.nil, fun x hx => absurd hx List.not_mem_nil, hmax⟩
  | some v =>
      have hlen := (List.length_filter_le (t - · < rl.window) v)
      refine ⟨(h.sorted k v hv).filter _, fun x hx => h.past k v hv x (List.mem_of_mem_filter hx), ?_⟩
      exact (Int.ofNat_le.2 hlen).trans (h.limited k v hv)

/-- **Step lemma.** -/
theorem Stored.check (h : rl.Stored t) (hmax : 0 ≤ rl.max) (k : K) : (rl.check k t).2.Stored t := by
  obtain ⟨hsorted, hpast, hlimited⟩ := h.young hmax k
  obtain ⟨hits, hhits⟩ := rl.check_hits k t
  -- each bucket is an old one, or good itself
  have hgood : (∀ k' v, hits.lookup k' = some v → rl.hits.lookup k' = some v ∨
      v.Pairwise (· ≤ ·) ∧ (∀ x ∈ v, x ≤ t) ∧ (v.length : ℤ) ≤ rl.max) →
      ({ rl with hits := hits } : RateLimiter K T).Stored t := fun hg => by
    refine ⟨fun k' v hv => ?_, fun k' v hv => ?_, fun k' v hv => ?_⟩ <;>
      rcases hg k' v hv with hold | ⟨hs, hp, hl⟩
    · exact h.sorted k' v hold
    · exact hs
    · exact h.past k' v hold
    · exact hp
    · exact h.limited k' v hold
    · exact hl
  rcases rl.check_cases k t with ⟨-, -, hcheck⟩ | ⟨first, rest, hb, -, hcheck⟩ |
    ⟨hroom, -, hkept⟩
  · rw [hcheck]
    exact h
  · rw [hcheck] at hhits ⊢
    obtain rfl : rl.hits.set k (first :: rest) = hits := congrArg RateLimiter.hits hhits
    refine hgood fun k' v hv => ?_
    rw [Table.lookup_set] at hv
    split_ifs at hv
    · obtain rfl := Option.some.inj hv
      rw [hb] at hsorted hpast hlimited
      exact .inr ⟨hsorted, hpast, hlimited⟩
    · exact .inl hv
  · rw [hhits] at hkept ⊢
    refine hgood fun k' v hv => ?_
    rcases hkept k' v hv with ⟨rfl, rfl⟩ | hold
    · refine .inr ⟨List.pairwise_append.2 ⟨hsorted, List.pairwise_singleton .., ?_⟩, ?_, ?_⟩
      · exact fun x hx y hy => List.mem_singleton.1 hy ▸ hpast x hx
      · intro x hx
        rcases List.mem_append.1 hx with hx | hx
        · exact hpast x hx
        · exact (List.mem_singleton.1 hx).le
      · rw [List.length_append, List.length_singleton]
        omega
    · exact .inl hold

theorem Stored.after (h : rl.Stored t) (hmax : 0 ≤ rl.max)
    (hsorted : calls.Pairwise fun c c' => c.2 ≤ c'.2) (ht : ∀ c ∈ calls, t ≤ c.2)
    (htt' : t ≤ t') (hlast : ∀ c ∈ calls, c.2 ≤ t') : (rl.after calls).Stored t' := by
  induction calls generalizing rl t with
  | nil => exact h.mono htt'
  | cons c calls ih =>
      have hnext := (h.mono (ht c (List.mem_cons_self ..))).check hmax c.1
      rw [RateLimiter.after, List.foldl_cons]
      refine ih hnext (by rwa [max_check]) (List.pairwise_cons.1 hsorted).2
        (List.pairwise_cons.1 hsorted).1 (hlast c (List.mem_cons_self ..)) fun c' hc' =>
          hlast c' (List.mem_cons_of_mem _ hc')

theorem stored_after (hn : 0 ≤ n) (hsorted : calls.Pairwise fun c c' => c.2 ≤ c'.2)
    (hlast : ∀ c ∈ calls, c.2 ≤ t) : ((new n W m).after calls).Stored t := by
  obtain ⟨t₀, hfirst, hstart⟩ := exists_start hsorted t
  exact (stored_new (t := t₀)).after hn hsorted hfirst (hstart hlast) hlast

/-! ### The time to wait -/

section Oldest
variable {first : T} {rest : List T} (hmax : 1 ≤ rl.max) (hstored : rl.stored k = first :: rest)
include hmax hstored

/-- When the oldest hit has expired there is room. -/
theorem check_of_expired (hlen : ((first :: rest).length : ℤ) ≤ rl.max)
    (hold : ¬ t - first < rl.window) : (rl.check k t).1 = some (true, 0) := by
  rcases rl.check_cases k t with ⟨hmax', -, -⟩ | ⟨a, l, hb, hfull, -⟩ | ⟨-, hok, -⟩
  · exact absurd (hmax.trans hmax') (by norm_num)
  · have hgone : first ∉ a :: l := fun hmem => hold (mem_young.1 (hb ▸ hmem)).2
    have hsub : (a :: l).Sublist (first :: rest) := by
      rw [← hb, hstored]
      exact List.filter_sublist
    have hle := (List.sublist_cons_iff.1 hsub).resolve_right fun ⟨_, heq, _⟩ =>
      hgone (heq ▸ List.mem_cons_self ..)
    have := hle.length_le
    simp only [List.length_cons] at hlen hfull this
    omega
  · exact hok

/-- While the oldest of a full list of hits is young, a call is denied. -/
theorem check_of_young (hsorted : (first :: rest).Pairwise (· ≤ ·))
    (hfull : rl.max ≤ (first :: rest).length) (hyoung : t - first < rl.window) :
    ∃ r, (rl.check k t).1 = some (false, r) := by
  have hall : SlidingWindow.young rl.window t (first :: rest) = first :: rest := by
    refine List.filter_eq_self.2 fun x hx => decide_eq_true ?_
    have hle : first ≤ x := by
      rcases List.mem_cons.1 hx with rfl | hx
      · exact le_rfl
      · exact (List.pairwise_cons.1 hsorted).1 x hx
    exact (Clock.sub_anti t hle).trans_lt hyoung
  rcases rl.check_cases k t with ⟨hmax', -, -⟩ | ⟨_, _, -, -, hcheck⟩ | ⟨hroom, -, -⟩
  · exact absurd (hmax.trans hmax') (by norm_num)
  · exact ⟨_, congrArg Prod.fst hcheck⟩
  · rw [hstored, hall] at hroom
    exact absurd hroom (not_lt.2 hfull)

end Oldest

section Wait
variable {rl : RateLimiter K ℚ} {t : ℚ} {r : ℤ} {W : ℚ} {calls : List (K × ℚ)}

theorem toInt_of_pos {x : ℚ} (h : 0 < x) : Clock.toInt x = ⌊x⌋ := by
  rw [Rat.floor_def']
  exact Int.tdiv_eq_ediv_of_nonneg (Rat.num_nonneg.2 h.le)

/-- **A denial.**  The wait is positive; the oldest young hit expires in it, and not a
whole time unit before. -/
theorem Stored.denied (h : rl.Stored t) (hmax : 1 ≤ rl.max)
    (hdenied : (rl.check k t).1 = some (false, r)) :
    1 ≤ r ∧ ((rl.check k t).2.check k (t + r)).1 = some (true, 0) ∧
      ∀ t', t ≤ t' → t' < t + r - 1 → ∃ r', ((rl.check k t).2.check k t').1 = some (false, r') := by
  obtain ⟨hsorted, -, hlimited⟩ := h.young (zero_le_one.trans hmax) k
  rcases rl.check_cases k t with ⟨hmax', -, -⟩ | ⟨first, rest, hb, hfull, hcheck⟩ | ⟨-, hallowed, -⟩
  · omega
  · rw [hcheck] at hdenied ⊢
    obtain rfl : Clock.toInt (rl.window - (t - first)) + 1 = r := by
      simpa using hdenied
    have hyoung : first ∈ SlidingWindow.young rl.window t (rl.stored k) :=
      hb ▸ List.mem_cons_self ..
    have hpos : 0 < rl.window - (t - first) := sub_pos.2 (mem_young.1 hyoung).2
    rw [toInt_of_pos hpos]
    have hfloor := Int.floor_le (rl.window - (t - first))
    have hceil := Int.lt_floor_add_one (rl.window - (t - first))
    have hnonneg := Int.floor_nonneg.2 hpos.le
    have hstored : ({ rl with hits := rl.hits.set k (first :: rest) } : RateLimiter K ℚ).stored k =
        first :: rest := by
      rw [stored, Table.lookup_set, if_pos rfl]
      rfl
    rw [hb] at hsorted hlimited
    push_cast
    refine ⟨by omega, check_of_expired hmax hstored hlimited ?_, fun t' _ hlt =>
      check_of_young hmax hstored hsorted hfull ?_⟩
    · simp only
      linarith
    · simp only
      linarith
  · rw [hallowed] at hdenied
    simp at hdenied

end Wait

end RateLimiter

namespace RedisCalls

variable {T : Type} [Field T] [LinearOrder T] [FloorRing T] [IsStrictOrderedRing T]
  {rl : RedisRateLimiter T} {s : RedisCalls T} {c : RedisCall T} {r : ℤ}

open FixedWindow

/-- **A denial.**  After the wait another window has begun. -/
theorem Inv.denied (hs : s.Inv rl) (hW : 0 < rl.window) (hc : c ∈ s.calls)
    (hdenied : c.answer = some (false, r)) :
    1 ≤ r ∧ index rl.window c.now < index rl.window (c.now + r) := by
  have hanswer := hs.answered c hc _ hdenied
  unfold RedisRateLimiter.answer at hanswer
  split_ifs at hanswer
  · obtain rfl : r = wait rl.window c.now := congrArg Prod.snd hanswer
    exact ⟨one_le_wait hW _, index_lt_index_add_wait hW _⟩
  · simp at hanswer

omit [IsStrictOrderedRing T] in
/-- The last call has the latest time. -/
theorem Inv.le_last (hs : s.Inv rl) (hlast : s.calls.getLast? = some c) {d : RedisCall T}
    (hd : d ∈ s.calls) : d.now ≤ c.now := by
  obtain ⟨before, heq⟩ := List.getLast?_eq_some_iff.1 hlast
  have hordered := List.pairwise_map.1 hs.ordered
  rw [heq] at hd hordered
  rcases List.mem_append.1 hd with hd | hd
  · exact (List.pairwise_append.1 hordered).2.2 d hd c (List.mem_singleton_self c)
  · exact (List.mem_singleton.1 hd ▸ le_refl d.now)

/-- In a window without a call a call is allowed. -/
theorem Inv.allowed_of_past (hs : s.Inv rl) (hW : 0 < rl.window) (hmax : 1 ≤ rl.max) {now : T}
    (hnow : s.clock ≤ now) (hpast : ∀ c ∈ s.calls, index rl.window c.now < index rl.window now)
    (k : Str) : (rl.check .ok .ok s.counters k now).1 = (true, 0) := by
  have hcount := (hs.tied.incr (k := k) hW hnow).1
  have hzero : hitsOf rl.window k (index rl.window now) s.hist = 0 := by
    refine List.countP_eq_zero.2 fun x hx => ?_
    obtain ⟨c, hc, rfl⟩ := List.mem_map.1 hx
    simpa using fun _ => (hpast c hc).ne
  rw [hzero, Nat.zero_add] at hcount
  have hanswer : rl.answer now 1 = (true, 0) := if_neg (by exact_mod_cast not_lt.2 hmax)
  simp only [RedisRateLimiter.check, RedisRateLimiter.counter, hcount, ne_eq, not_true, if_true, if_false, hanswer]

end RedisCalls

/-- **The header `Retry-After` is honest**, with exact time.  Of the in-memory limiter: the
wait is at least one second, after it a call on the key is allowed, and a whole second
before its end it is still denied.  Of the Redis limiter: the wait is at least one second
and reaches into a later window, and if no call was made since, one on the key is allowed
after it. -/
theorem retry_after_honest {n : ℤ} (hn : 1 ≤ n) :
    (∀ {K : Type} [DecidableEq K] (W : ℚ) (m : ℤ) (calls : List (K × ℚ)) (k : K) (t : ℚ) (r : ℤ),
      (calls.Pairwise fun c c' => c.2 ≤ c'.2) → (∀ c ∈ calls, c.2 ≤ t) →
      (((RateLimiter.new n W m).after calls).check k t).1 = some (false, r) →
        1 ≤ r ∧
        ((((RateLimiter.new n W m).after calls).check k t).2.check k (t + r)).1 = some (true, 0) ∧
        ∀ t', t ≤ t' → t' < t + r - 1 → ∃ r',
          ((((RateLimiter.new n W m).after calls).check k t).2.check k t').1 = some (false, r')) ∧
    ∀ (W clock : ℚ) (ls : List (RedisCalls.Label ℚ)) (s : RedisCalls ℚ) (c : RedisCall ℚ) (r : ℤ),
      0 < W → Runs.run (RedisCalls.step ⟨n, W⟩) (RedisCalls.start clock) ls = some s →
      c ∈ s.calls → c.answer = some (false, r) →
        1 ≤ r ∧ FixedWindow.index W c.now < FixedWindow.index W (c.now + r) ∧
        (s.calls.getLast? = some c → s.clock ≤ c.now + r →
          ((⟨n, W⟩ : RedisRateLimiter ℚ).check .ok .ok s.counters c.key (c.now + r)).1 = (true, 0)) := by
  refine ⟨fun W m calls k t r hsorted hlast hdenied => ?_, fun W clock ls s c r hW hr hc hdenied => ?_⟩
  · have hstored := RateLimiter.stored_after (n := n) (m := m) (W := W) (by omega) hsorted hlast
    exact hstored.denied (by rw [RateLimiter.max_after]; exact hn) hdenied
  · have hs : s.Inv ⟨n, W⟩ := RedisCalls.inv_of_run hW hr
    obtain ⟨hpos, hlater⟩ := hs.denied hW hc hdenied
    refine ⟨hpos, hlater, fun hlast hclock => ?_⟩
    refine hs.allowed_of_past hW hn hclock (fun d hd => lt_of_le_of_lt ?_ hlater) c.key
    exact FixedWindow.index_mono hW (hs.le_last hlast hd)

/-- Two calls in one minute; the second is denied at 55. -/
def deniedCall : List (RedisCalls.Label ℚ) :=
  [.incr "a".toList 50, .incr "a".toList 55, .answer 1]

/-- One request a minute: in memory a call at 21/2 after one at 0 has to wait 50 seconds, 49 are
not enough; in Redis one at 55 after one at 50 has to wait 6 seconds. -/
theorem retry_after_honest_minute :
    ((((RateLimiter.new 1 60 : RateLimiter ℕ ℚ).after [(0, 0)]).check 0 (21 / 2)).1 =
        some (false, 50) ∧
      ((((RateLimiter.new 1 60 : RateLimiter ℕ ℚ).after [(0, 0)]).check 0 (21 / 2)).2.check 0
        (21 / 2 + (50 : ℤ))).1 = some (true, 0) ∧
      ∃ r', ((((RateLimiter.new 1 60 : RateLimiter ℕ ℚ).after [(0, 0)]).check 0 (21 / 2)).2.check 0
        59).1 = some (false, r')) ∧
    ∃ s, Runs.run (RedisCalls.step ⟨1, 60⟩) (RedisCalls.start 0) deniedCall = some s ∧
      ((⟨1, 60⟩ : RedisRateLimiter ℚ).check .ok .ok s.counters "a".toList (55 + (6 : ℤ))).1 =
        (true, 0) := by
  constructor
  · have hdenied : (((RateLimiter.new 1 60 : RateLimiter ℕ ℚ).after [(0, 0)]).check 0 (21 / 2)).1 =
        some (false, 50) := by decide +kernel
    obtain ⟨-, hallowed, hbefore⟩ := (retry_after_honest (n := 1) le_rfl).1 60 defaultMaxKeys
      [(0, 0)] 0 (21 / 2) 50 (List.pairwise_singleton ..) (by simp; norm_num) hdenied
    exact ⟨hdenied, hallowed, hbefore 59 (by norm_num) (by norm_num)⟩
  · have hrun : (Runs.run (RedisCalls.step ⟨1, 60⟩) (RedisCalls.start 0) deniedCall).bind (fun s =>
        s.calls.getLast?.map fun c => (s.clock, c.key, c.now, c.answer)) =
          some (55, "a".toList, 55, some (false, 6)) := by decide +kernel
    obtain ⟨s, hr, hs⟩ := Option.bind_eq_some_iff.1 hrun
    obtain ⟨c, hlast, hc⟩ := Option.map_eq_some_iff.1 hs
    simp only [Prod.mk.injEq] at hc
    obtain ⟨hclock, hkey, hnow, hanswer⟩ := hc
    have hallowed := ((retry_after_honest (n := 1) le_rfl).2 60 0 deniedCall s c 6 (by norm_num) hr
      (List.mem_of_getLast? hlast) hanswer).2.2 hlast (by rw [hclock, hnow]; norm_num)
    rw [hkey, hnow] at hallowed
    exact ⟨s, hr, hallowed⟩

/-! ### Limits below one -/

section Total
variable {K T : Type} [DecidableEq K] [Clock T] {n m : ℤ} {W t : T} {calls : List (K × T)} {k : K}

/-- With a limit below one nothing is ever stored. -/
theorem RateLimiter.after_of_nonpos (hn : n ≤ 0) :
    (RateLimiter.new n W m : RateLimiter K T).after calls = RateLimiter.new n W m := by
  induction calls with
  | nil => rfl
  | cons c calls ih =>
      rw [RateLimiter.after, List.foldl_cons, RateLimiter.check_new_of_nonpos hn]
      exact ih

/-- **`RateLimiter.check` answers** when the limit is one or more, and for no other limit. -/
theorem RateLimiter.check_isSome_iff (n : ℤ) (W : T) (m : ℤ) (calls : List (K × T)) (k : K) (t : T) :
    ((((RateLimiter.new n W m).after calls).check k t).1).isSome ↔ 1 ≤ n := by
  by_cases hn : 1 ≤ n
  · refine iff_of_true ?_ hn
    rcases ((RateLimiter.new n W m).after calls).check_cases k t with
      ⟨hmax, -, -⟩ | ⟨_, _, -, -, hcheck⟩ | ⟨-, hcheck, -⟩
    · rw [max_after] at hmax
      exact absurd (hn.trans hmax) (by norm_num)
    · rw [hcheck]
      rfl
    · rw [hcheck]
      rfl
  · refine iff_of_false ?_ hn
    rw [after_of_nonpos (by omega)]
    rw [check_new_of_nonpos (by omega)]
    exact Bool.false_ne_true

end Total

/-- With a limit below one the Redis limiter denies every call. -/
theorem RedisRateLimiter.check_of_nonpos {T : Type} [Field T] [LinearOrder T] [FloorRing T]
    [IsStrictOrderedRing T] (rl : RedisRateLimiter T) (hW : 0 < rl.window) (hmax : rl.max ≤ 0)
    (c : Counters T) (k : Str) (now : T) :
    ∃ r, (rl.check .ok .ok c k now).1 = (false, r) ∧ 0 < r := by
  refine ⟨FixedWindow.wait rl.window now, ?_, FixedWindow.one_le_wait hW now⟩
  have hanswer : ∀ count : ℕ, rl.answer now (count + 1) = (false, FixedWindow.wait rl.window now) :=
    fun count => if_pos (by push_cast; omega)
  unfold RedisRateLimiter.check Counters.incr
  simp only [ne_eq, not_true, if_false, if_true, hanswer]
  split_ifs <;> rfl

/-- **Both limiters answer a call, and deny it if the limit is below one,** exactly when the
limit is not below one; the Redis limiter does so with every limit. -/
theorem limiters_answer_iff {K T T' : Type} [DecidableEq K] [Clock T] [Field T'] [LinearOrder T']
    [FloorRing T'] [IsStrictOrderedRing T'] (n : ℤ) (W : T) (m : ℤ) (calls : List (K × T)) (k : K)
    (t : T) {W' : T'} (hW : 0 < W') (c : Counters T') (key : Str) (now : T') :
    (((∃ ok r, (((RateLimiter.new n W m).after calls).check k t).1 = some (ok, r) ∧
        (n ≤ 0 → ok = false ∧ 0 < r)) ∧
      ∃ ok r, ((⟨n, W'⟩ : RedisRateLimiter T').check .ok .ok c key now).1 = (ok, r) ∧
        (n ≤ 0 → ok = false ∧ 0 < r)) ↔ 1 ≤ n) ∧
    ∃ ok r, ((⟨n, W'⟩ : RedisRateLimiter T').check .ok .ok c key now).1 = (ok, r) ∧
      (n ≤ 0 → ok = false ∧ 0 < r) := by
  have hredis : ∃ ok r, ((⟨n, W'⟩ : RedisRateLimiter T').check .ok .ok c key now).1 = (ok, r) ∧
      (n ≤ 0 → ok = false ∧ 0 < r) := by
    by_cases hn : n ≤ 0
    · obtain ⟨r, hanswer, hr⟩ := RedisRateLimiter.check_of_nonpos ⟨n, W'⟩ hW hn c key now
      exact ⟨false, r, hanswer, fun _ => ⟨rfl, hr⟩⟩
    · exact ⟨_, _, rfl, fun h => absurd h hn⟩
  refine ⟨⟨?_, fun hn => ⟨?_, hredis⟩⟩, hredis⟩
  · rintro ⟨⟨ok, r, hanswer, -⟩, -⟩
    exact (RateLimiter.check_isSome_iff n W m calls k t).1 (Option.isSome_iff_exists.2 ⟨_, hanswer⟩)
  · obtain ⟨⟨ok, r⟩, hanswer⟩ := Option.isSome_iff_exists.1
      ((RateLimiter.check_isSome_iff n W m calls k t).2 hn)
    exact ⟨ok, r, hanswer, fun h => absurd h (by omega)⟩

/-- A limit of zero: in memory the first call raises, in Redis it is denied. -/
theorem limiters_answer_zero :
    ((RateLimiter.new 0 60 : RateLimiter Str ℚ).check "a".toList 0).1 = none ∧
      ((⟨0, 60⟩ : RedisRateLimiter ℚ).check .ok .ok (fun _ => none) "a".toList 0).1 = (false, 61) := by
  decide +kernel

/-- Two requests a minute: both limiters answer the third call of a key, in memory with a
denial. -/
theorem limiters_answer_two :
    (((RateLimiter.new 2 60 : RateLimiter Str ℚ).after
      [("a".toList, 0), ("b".toList, 5), ("a".toList, 10)]).check "a".toList (21 / 2)).1 =
        some (false, 50) ∧
    ∃ ok r, ((⟨2, 60⟩ : RedisRateLimiter ℚ).check .ok .ok (fun _ => none) "a".toList (21 / 2)).1 =
      (ok, r) := by
  have hdenied : (((RateLimiter.new 2 60 : RateLimiter Str ℚ).after
      [("a".toList, 0), ("b".toList, 5), ("a".toList, 10)]).check "a".toList (21 / 2)).1 =
        some (false, 50) := by decide +kernel
  obtain ⟨⟨ok, r, hanswer, -⟩, ok', r', hredis, -⟩ := (limiters_answer_iff 2 60 defaultMaxKeys
    [("a".toList, (0 : ℚ)), ("b".toList, 5), ("a".toList, 10)] "a".toList (21 / 2)
      (by norm_num : (0 : ℚ) < 60) (fun _ => none) "a".toList (21 / 2)).1.2 (by norm_num)
  exact ⟨hdenied, ok', r', hredis⟩

end PoetryGenerator
