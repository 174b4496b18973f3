/-
# The memory of the in-memory limiter (`api/app/ratelimit.py`)

"Memory is bounded: expired buckets are reclaimed and the number of tracked keys
is capped (`max_keys`)."  `RateLimiter.Bounded` is that invariant: no more than
`max_keys` keys, and under each between one and `max_requests` hits.  It holds
whatever the time stamps are, also when they go back.

That the key of a call that is allowed is never the one evicted needs time that
does not go back.  A new key is over the cap by one, so one bucket at most is
dropped for its age; the new key has the youngest last hit, and of those it is
the last in the order of insertion, which a stable sort keeps.
-/

import PoetryGenerator.LimiterAnswers

namespace PoetryGenerator

open SlidingWindow

/-- **A stable sort does not put a last greatest element first**, if there is another. -/
theorem mergeSort_head?_ne {α T : Type} [LinearOrder T] {f : α → T} {l : List α} {e : α}
    (hl : l ≠ []) (he : e ∉ l) (hle : ∀ x ∈ l, f x ≤ f e) :
    ((l ++ [e]).mergeSort fun x y => f x ≤ f y).head? ≠ some e := by
  obtain ⟨x, hx⟩ := List.exists_mem_of_ne_nil l hl
  have hne : x ≠ e := fun h => he (h ▸ hx)
  have hpair : [x, e].Sublist (l ++ [e]) :=
    (List.singleton_sublist.2 hx).append (List.Sublist.refl [e])
  have hsorted : [x, e].Sublist ((l ++ [e]).mergeSort fun x y => decide (f x ≤ f y)) := by
    refine List.pair_sublist_mergeSort (fun a b c hab hbc => ?_) (fun a b => ?_)
      (decide_eq_true (hle x hx)) hpair
    · exact decide_eq_true ((of_decide_eq_true hab).trans (of_decide_eq_true hbc))
    · rcases le_total (f a) (f b) with h | h <;> simp [h]
  have hcount : ((l ++ [e]).mergeSort fun x y => decide (f x ≤ f y)).Perm (l ++ [e]) :=
    List.mergeSort_perm ..
  intro hhead
  obtain ⟨rest, hrest⟩ := List.head?_eq_some_iff.1 hhead
  rw [hrest] at hsorted hcount
  -- `e` comes after `x`, so it would be there twice
  have hin : e ∈ rest := by
    have htail := (List.sublist_cons_iff.1 hsorted).resolve_right fun ⟨_, heq, _⟩ =>
      hne (List.cons.inj heq).1
    exact htail.subset (by simp)
  have hperm : rest.Perm l :=
    List.Perm.cons_inv (hcount.trans (List.perm_append_singleton e l))
  exact he (hperm.subset hin)

namespace RateLimiter

variable {K T : Type} [DecidableEq K] [Clock T] {rl : RateLimiter K T} {k : K} {t : T}
  {n m : ℤ} {W : T} {calls : List (K × T)}

/-! ### The buckets that are ordered -/

/-- **No bucket without a hit is ordered by its last one.** -/
theorem unexpired_ne_nil {v : List T} (h : (rl.unexpired t).lookup k = some v) : v ≠ [] := by
  rintro rfl
  obtain ⟨-, last, hlast, -⟩ := lookup_unexpired.1 h
  cases hlast

/-- The last hit of a bucket that is not empty. -/
def lastHit (e : Σ _ : K, List T) : T := e.2.getLast?.getD 0

omit [DecidableEq K] in
/-- Buckets that are not empty are ordered by their last hits. -/
theorem mergeSort_olderBucket {l : List (Σ _ : K, List T)} (h : ∀ e ∈ l, e.2 ≠ []) :
    l.mergeSort olderBucket = l.mergeSort fun x y => lastHit x ≤ lastHit y := by
  have hsame : ∀ x ∈ l, ∀ y ∈ l, olderBucket x y = decide (lastHit x ≤ lastHit y) :=
    fun x hx y hy => by
      rw [olderBucket, lastHit, lastHit, List.getLast?_eq_some_getLast (h x hx),
        List.getLast?_eq_some_getLast (h y hy)]
      rfl
  have hmap := List.map_mergeSort (s := fun x y => decide (lastHit x ≤ lastHit y)) (f := id) hsame
  rwa [List.map_id, List.map_id] at hmap

/-! ### Eviction -/

/-- The keys that are dropped for their age. -/
def oldest (rl : RateLimiter K T) (t : T) : List K :=
  (((rl.unexpired t).entries.mergeSort olderBucket).take
    (((rl.unexpired t).entries.length : ℤ) - rl.maxKeys).toNat).map Sigma.fst

theorem evict_eq (rl : RateLimiter K T) (t : T) : rl.evict t =
    if 0 < ((rl.unexpired t).entries.length : ℤ) - rl.maxKeys then
      { rl with hits := (rl.unexpired t).deleteWhere fun k _ => k ∈ rl.oldest t }
    else { rl with hits := rl.unexpired t } := rfl

/-- **Eviction leaves no more than `max_keys` keys.** -/
theorem length_evict (hm : 0 ≤ rl.maxKeys) :
    ((rl.evict t).hits.entries.length : ℤ) ≤ rl.maxKeys := by
  rw [evict_eq]
  split_ifs with hover
  · have hperm := List.mergeSort_perm (rl.unexpired t).entries olderBucket
    have hnodup : (rl.oldest t).Nodup :=
      ((List.take_sublist ..).map _).nodup ((hperm.map Sigma.fst).nodup_iff.2 (rl.unexpired t).nodupKeys)
    have hdeleted := Table.length_deleteWhere_keys hnodup fun k hk => by
      obtain ⟨e, he, rfl⟩ := List.mem_map.1 hk
      exact List.mem_map_of_mem (hperm.subset (List.mem_of_mem_take he))
    have hcount : (rl.oldest t).length = min
        (((rl.unexpired t).entries.length : ℤ) - rl.maxKeys).toNat (rl.unexpired t).entries.length := by
      rw [oldest, List.length_map, List.length_take, hperm.length_eq]
    show (((rl.unexpired t).deleteWhere fun k _ => k ∈ rl.oldest t).entries.length : ℤ) ≤ rl.maxKeys
    omega
  · show ((rl.unexpired t).entries.length : ℤ) ≤ rl.maxKeys
    omega

section Newest
variable {l : List (Σ _ : K, List T)} {v : List T}
  (hentries : rl.hits.entries = l ++ [⟨k, v⟩]) (hv : v.getLast? = some t) (hW : 0 < rl.window)
include hentries hv hW

omit [DecidableEq K] in
/-- A bucket whose last hit is now is not expired. -/
theorem entries_unexpired :
    ∃ l', l'.Sublist l ∧ (rl.unexpired t).entries = l' ++ [⟨k, v⟩] := by
  refine ⟨l.filter fun e => !e.2.getLast?.all fun last => rl.window ≤ t - last,
    List.filter_sublist, ?_⟩
  show rl.hits.entries.filter (fun e => !e.2.getLast?.all fun last => rl.window ≤ t - last) = _
  rw [hentries, List.filter_append]
  refine congrArg (_ ++ ·) (List.filter_cons_of_pos ?_)
  rw [hv, Option.all_some, Clock.sub_self, decide_eq_false (not_le.2 hW)]
  rfl

/-- Of two buckets or more, the last, with a hit now and none later in another, is not the oldest. -/
theorem notMem_oldest (hm : 1 ≤ rl.maxKeys) (hlen : (l.length : ℤ) ≤ rl.maxKeys)
    (hpast : ∀ e ∈ l, ∀ x ∈ e.2, x ≤ t) : k ∉ rl.oldest t := by
  obtain ⟨l', hsub, hkept⟩ := entries_unexpired hentries hv hW
  have hordered : ∀ e ∈ (rl.unexpired t).entries, e.2 ≠ [] := fun e he =>
    unexpired_ne_nil (AList.mem_lookup_iff.2 he)
  have hnodup : (l' ++ [(⟨k, v⟩ : Σ _ : K, List T)]).keys.Nodup := hkept ▸ (rl.unexpired t).nodupKeys
  have hother : ∀ e ∈ l', e.1 ≠ k := fun e he hk => by
    rw [List.keys, List.map_append, List.nodup_append] at hnodup
    exact hnodup.2.2 e.1 (List.mem_map_of_mem he) k (by simp) hk
  have hle := hsub.length_le
  have hone : (((rl.unexpired t).entries.length : ℤ) - rl.maxKeys).toNat ≤ 1 := by
    rw [hkept, List.length_append, List.length_singleton]
    omega
  intro hmem
  obtain ⟨e, he, hek⟩ := List.mem_map.1 hmem
  rw [mergeSort_olderBucket hordered] at he
  -- it would be the bucket of `k`, and come first
  have heq : e = ⟨k, v⟩ := by
    have hin := (List.mergeSort_perm ..).subset (List.mem_of_mem_take he)
    rw [hkept, List.mem_append, List.mem_singleton] at hin
    exact hin.resolve_left fun hl' => hother e hl' hek
  subst heq
  have hcount : (((rl.unexpired t).entries.length : ℤ) - rl.maxKeys).toNat = 1 := by
    refine le_antisymm hone (Nat.one_le_iff_ne_zero.2 fun hzero => ?_)
    rw [hzero] at he
    cases he
  rw [hcount, List.take_one, Option.mem_toList, hkept] at he
  refine mergeSort_head?_ne (f := lastHit) ?_ (fun h => hother _ h rfl) (fun e he' => ?_) he
  · rintro rfl
    rw [hkept] at hcount
    simp only [List.nil_append, List.length_singleton] at hcount
    omega
  · obtain ⟨last, hlast⟩ := Option.ne_none_iff_exists'.1 (mt List.getLast?_eq_none_iff.1
      (hordered e (hkept ▸ List.mem_append_left _ he')))
    rw [lastHit, lastHit, hlast, hv]
    exact hpast e (hsub.subset he') last (List.mem_of_getLast? hlast)

end Newest

/-- **Eviction keeps the newest key**: the last one, if its last hit is now, none is later, and
there is one key too many at most. -/
theorem mem_evict {l : List (Σ _ : K, List T)} {v : List T}
    (hentries : rl.hits.entries = l ++ [⟨k, v⟩]) (hv : v.getLast? = some t) (hW : 0 < rl.window)
    (hm : 1 ≤ rl.maxKeys) (hlen : (l.length : ℤ) ≤ rl.maxKeys)
    (hpast : ∀ e ∈ l, ∀ x ∈ e.2, x ≤ t) : ((rl.evict t).hits.lookup k).isSome := by
  obtain ⟨l', -, hkept⟩ := entries_unexpired hentries hv hW
  have hin : (rl.unexpired t).lookup k = some v :=
    AList.mem_lookup_iff.2 (hkept ▸ List.mem_append_right _ (List.mem_singleton_self _))
  rw [evict_eq]
  split_ifs with hover
  · show (((rl.unexpired t).deleteWhere fun k _ => k ∈ rl.oldest t).lookup k).isSome
    rw [Table.lookup_deleteWhere, hin, Option.filter_some,
      decide_eq_false (notMem_oldest hentries hv hW hm hlen hpast)]
    rfl
  · show ((rl.unexpired t).lookup k).isSome
    rw [hin]
    rfl

/-! ### One call -/

/-- A call with room for one more hit stores it, and evicts if that is one key too many. -/
theorem check_of_room (h : ((young rl.window t (rl.stored k)).length : ℤ) < rl.max) :
    (rl.check k t).2 =
      if rl.maxKeys < (rl.hits.set k (young rl.window t (rl.stored k) ++ [t])).entries.length then
        ({ rl with hits := rl.hits.set k (young rl.window t (rl.stored k) ++ [t]) } :
          RateLimiter K T).evict t
      else { rl with hits := rl.hits.set k (young rl.window t (rl.stored k) ++ [t]) } := by
  unfold RateLimiter.check
  simp only [← young.eq_def, ← stored.eq_def, if_neg (not_le.2 h)]

omit [Clock T] in
/-- A key with a stored hit is there. -/
theorem mem_of_stored {x : T} (h : x ∈ rl.stored k) : k ∈ rl.hits := by
  by_contra hk
  rw [stored, AList.lookup_eq_none.2 hk] at h
  cases h

/-- **The memory is bounded.** -/
structure Fits (rl : RateLimiter K T) : Prop where
  keys : (rl.hits.entries.length : ℤ) ≤ rl.maxKeys
  bucket : ∀ k v, rl.hits.lookup k = some v → v ≠ [] ∧ (v.length : ℤ) ≤ rl.max

omit [Clock T] in
theorem fits_new (hm : 0 ≤ m) : (new n W m : RateLimiter K T).Fits :=
  ⟨hm, fun _ _ h => absurd h.symm (Option.some_ne_none _)⟩

theorem Fits.length_young (h : rl.Fits) (hmax : 0 ≤ rl.max) (k : K) (t : T) :
    ((young rl.window t (rl.stored k)).length : ℤ) ≤ rl.max := by
  have hfilter := List.length_filter_le (t - · < rl.window) (rl.stored k)
  refine (Int.ofNat_le.2 hfilter).trans ?_
  unfold stored
  cases hv : rl.hits.lookup k with
  | none => exact hmax
  | some v => exact (h.bucket k v hv).2

/-- **Step lemma.** -/
theorem Fits.check (h : rl.Fits) (hmax : 1 ≤ rl.max) (hm : 0 ≤ rl.maxKeys) (k : K) (t : T) :
    (rl.check k t).2.Fits := by
  have hyoung := h.length_young (by omega) k t
  rcases rl.check_cases k t with ⟨hmax', -, -⟩ | ⟨first, rest, hb, hfull, hcheck⟩ |
    ⟨hroom, -, hkept⟩
  · omega
  · rw [hb] at hyoung
    have hmem : k ∈ rl.hits := mem_of_stored (mem_young.1 (hb ▸ List.mem_cons_self ..)).1
    rw [hcheck]
    refine ⟨?_, fun k' v hv => ?_⟩
    · show ((rl.hits.set k (first :: rest)).entries.length : ℤ) ≤ rl.maxKeys
      rw [Table.length_set_of_mem hmem]
      exact h.keys
    · rw [Table.lookup_set] at hv
      split_ifs at hv
      · obtain rfl := Option.some.inj hv
        exact ⟨List.cons_ne_nil _ _, hyoung⟩
      · exact h.bucket k' v hv
  · refine ⟨?_, fun k' v hv => ?_⟩
    · rw [maxKeys_check, check_of_room hroom]
      split_ifs with hover
      · exact length_evict hm
      · exact not_lt.1 hover
    · rw [max_check]
      rcases hkept k' v hv with ⟨rfl, rfl⟩ | hold
      · refine ⟨by simp, ?_⟩
        rw [List.length_append, List.length_singleton]
        omega
      · exact h.bucket k' v hold

/-- **Run lemma.** -/
theorem Fits.after (h : rl.Fits) (hmax : 1 ≤ rl.max) (hm : 0 ≤ rl.maxKeys)
    (calls : List (K × T)) : (rl.after calls).Fits := by
  induction calls generalizing rl with
  | nil => exact h
  | cons c calls ih =>
      exact ih (h.check hmax hm c.1 c.2) (by rwa [max_check]) (by rwa [maxKeys_check])

/-- **The caller that is admitted is stored.**  It is evicted by no call of its own. -/
theorem Fits.newest (h : rl.Fits) (hmax : 1 ≤ rl.max) (hm : 1 ≤ rl.maxKeys) (hW : 0 < rl.window)
    (hpast : ∀ k v, rl.hits.lookup k = some v → ∀ x ∈ v, x ≤ t)
    (hallowed : rl.allows (k, t) = true) : ((rl.check k t).2.hits.lookup k).isSome := by
  rcases rl.check_cases k t with ⟨hmax', -, -⟩ | ⟨_, _, -, -, hcheck⟩ | ⟨hroom, -, -⟩
  · omega
  · rw [allows, hcheck] at hallowed
    exact absurd hallowed Bool.false_ne_true
  · rw [check_of_room hroom]
    by_cases hk : k ∈ rl.hits
    · rw [Table.length_set_of_mem hk, if_neg (not_lt.2 h.keys), Table.lookup_set, if_pos rfl]
      rfl
    · split_ifs
      · refine mem_evict (Table.entries_set_of_notMem hk) (by simp)
          hW hm h.keys fun e he x hx => ?_
        exact hpast e.1 e.2 (AList.mem_lookup_iff.2 he) x hx
      · rw [Table.lookup_set, if_pos rfl]
        rfl

end RateLimiter

/-! ### Any sequence of calls -/

/-- **The limiter's memory is bounded, and it does not forget the caller it admits.**  After any
calls at any times there are no more than `max_keys` keys, and of each of them one hit or more and
no more than `max_requests`; the next call is answered, and the buckets that `_evict` orders have
a last hit.  If time does not go back, the key of a call that is allowed is stored after it. -/
theorem memory_bounded {K T : Type} [DecidableEq K] [Clock T] {n m : ℤ} {W : T} (hn : 1 ≤ n)
    (hm : 1 ≤ m) (hW : 0 < W) (calls : List (K × T)) (k : K) (t : T) :
    ((((RateLimiter.new n W m).after calls).hits.entries.length : ℤ) ≤ m ∧
      ∀ k' v, ((RateLimiter.new n W m).after calls).hits.lookup k' = some v →
        v ≠ [] ∧ (v.length : ℤ) ≤ n) ∧
    ((((RateLimiter.new n W m).after calls).check k t).1.isSome ∧
      ∀ (hits : Table K (List T)) k' v,
        ((⟨n, W, m, hits⟩ : RateLimiter K T).unexpired t).lookup k' = some v → v ≠ []) ∧
    ((calls.Pairwise fun c c' => c.2 ≤ c'.2) → (∀ c ∈ calls, c.2 ≤ t) →
      ((RateLimiter.new n W m).after calls).allows (k, t) = true →
        ((((RateLimiter.new n W m).after calls).check k t).2.hits.lookup k).isSome) := by
  have hfits : ((RateLimiter.new n W m : RateLimiter K T).after calls).Fits :=
    (RateLimiter.fits_new (by omega)).after hn (show 0 ≤ m by omega) calls
  refine ⟨⟨?_, fun k' v hv => ?_⟩, ⟨?_, fun hits k' v hv => RateLimiter.unexpired_ne_nil hv⟩,
    fun hsorted hlast hallowed => ?_⟩
  · have hkeys := hfits.keys
    rwa [RateLimiter.maxKeys_after] at hkeys
  · have hbucket := hfits.bucket k' v hv
    rwa [RateLimiter.max_after] at hbucket
  · exact (RateLimiter.check_isSome_iff n W m calls k t).2 hn
  · have hstored := RateLimiter.stored_after (n := n) (m := m) (W := W) (by omega) hsorted hlast
    refine hfits.newest ?_ ?_ ?_ hstored.past hallowed
    · rwa [RateLimiter.max_after]
    · rwa [RateLimiter.maxKeys_after]
    · rwa [RateLimiter.window_after]

/-- A cap of two keys, and a third key at the time of both: it is stored, and there are two. -/
theorem memory_bounded_three :
    ((((RateLimiter.new 1 60 2 : RateLimiter ℕ ℚ).after [(0, 5), (1, 5)]).check 2 5).2.hits.lookup
      2).isSome ∧
    (((RateLimiter.new 1 60 2 : RateLimiter ℕ ℚ).after
      [(0, 5), (1, 5), (2, 5)]).hits.entries.length : ℤ) ≤ 2 :=
  ⟨(memory_bounded (n := 1) (m := 2) (W := (60 : ℚ)) (by norm_num) (by norm_num) (by norm_num)
      [((0 : ℕ), (5 : ℚ)), (1, 5)] 2 5).2.2 (by simp) (by simp) (by decide +kernel),
    (memory_bounded (n := 1) (m := 2) (W := (60 : ℚ)) (by norm_num) (by norm_num) (by norm_num)
      [((0 : ℕ), (5 : ℚ)), (1, 5), (2, 5)] 2 5).1.1⟩

end PoetryGenerator
