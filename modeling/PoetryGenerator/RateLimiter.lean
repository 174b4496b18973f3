/-
# The in-memory rate limiter (`api/app/ratelimit.py`)

`RateLimiter.check` keeps the hits of each key in a dictionary, drops the old
ones when the key is asked for, and drops whole keys when there are more than
`max_keys`.  The library's `admitted` keeps everything and drops nothing.  The
invariant between them is `Tied`: of every key the young part of the stored hits
is the young part of the admitted ones.  Pruning, storing the pruned list on a
denial and evicting an expired bucket keep it; evicting a bucket that is not
expired would not, so the two agree as long as no more than `max_keys` keys have
a young hit.
-/

import PoetryGenerator.Lib.SlidingWindow
import PoetryGenerator.Lib.Tables

namespace PoetryGenerator

open SlidingWindow

/-- `DEFAULT_MAX_KEYS`. -/
def defaultMaxKeys : ℤ := 10000

/-- A `RateLimiter`: `max_requests`, `window_seconds`, `max_keys`, and `_hits` in
the order of its keys. -/
structure RateLimiter (K T : Type) where
  max : ℤ
  window : T
  maxKeys : ℤ
  hits : Table K (List T)

namespace RateLimiter

variable {K T : Type} [DecidableEq K] [Clock T]

/-- `RateLimiter(max_requests, window_seconds, max_keys)`. -/
def new (maxRequests : ℤ) (windowSeconds : T) (maxKeys : ℤ := defaultMaxKeys) : RateLimiter K T :=
  ⟨maxRequests, windowSeconds, maxKeys, ∅⟩

/-- The order of `sorted(self._hits.items(), key=lambda kv: kv[1][-1])`; no bucket
is empty there. -/
def olderBucket (x y : Σ _ : K, List T) : Bool :=
  x.2.getLast?.all fun a => y.2.getLast?.all fun b => a ≤ b

/-- `_evict`. -/
def evict (rl : RateLimiter K T) (now : T) : RateLimiter K T :=
  let hits := rl.hits.deleteWhere fun _ v => v.getLast?.all fun last => rl.window ≤ now - last
  let overflow := (hits.entries.length : ℤ) - rl.maxKeys
  if 0 < overflow then
    let oldest := (hits.entries.mergeSort olderBucket).take overflow.toNat
    { rl with hits := hits.deleteWhere fun k _ => k ∈ oldest.map Sigma.fst }
  else { rl with hits := hits }

/-- `check`: the answer `(allowed, retry_after)`, nothing for the `IndexError` of a
limit below one, and the limiter after it. -/
def check (rl : RateLimiter K T) (key : K) (now : T) : Option (Bool × ℤ) × RateLimiter K T :=
  let hits := ((rl.hits.lookup key).getD []).filter (now - · < rl.window)
  if rl.max ≤ hits.length then
    match hits with
    | [] => (none, rl)
    | first :: _ =>
      (some (false, Clock.toInt (rl.window - (now - first)) + 1),
        { rl with hits := rl.hits.set key hits })
  else
    let rl := { rl with hits := rl.hits.set key (hits ++ [now]) }
    (some (true, 0), if rl.maxKeys < rl.hits.entries.length then rl.evict now else rl)

/-- The answer is that the call is allowed. -/
def allows (rl : RateLimiter K T) (c : K × T) : Bool := (rl.check c.1 c.2).1.any Prod.fst

/-- The limiter after some calls. -/
def after (rl : RateLimiter K T) (calls : List (K × T)) : RateLimiter K T :=
  calls.foldl (fun rl c => (rl.check c.1 c.2).2) rl

/-- The calls that are allowed. -/
def allowed (rl : RateLimiter K T) : List (K × T) → List (K × T)
  | [] => []
  | c :: calls =>
    if rl.allows c then c :: allowed (rl.check c.1 c.2).2 calls
    else allowed (rl.check c.1 c.2).2 calls

/-- One key, two requests in ten seconds. -/
example : (new 2 10 : RateLimiter Unit ℚ).allowed [((), 0), ((), 4), ((), 9), ((), 10)] =
    [((), 0), ((), 4), ((), 10)] := by decide +kernel

/-! ### The invariant -/

/-- **The invariant.**  Buckets are sorted and not from the future, and what is
young in a bucket is what is young among the admitted hits of its key. -/
structure Tied (rl : RateLimiter K T) (admittedHits : List (K × T)) (now : T) : Prop where
  sorted : ∀ k v, rl.hits.lookup k = some v → v.Pairwise (· ≤ ·)
  past : ∀ k v, rl.hits.lookup k = some v → ∀ x ∈ v, x ≤ now
  young : ∀ k, young rl.window now ((rl.hits.lookup k).getD []) =
    young rl.window now (timesOf k admittedHits)

variable {rl : RateLimiter K T} {h h' : List (K × T)} {t t' : T} {k : K} {c : K × T}

theorem tied_new (maxRequests : ℤ) (window : T) (maxKeys : ℤ) (now : T) :
    Tied (new maxRequests window maxKeys : RateLimiter K T) [] now :=
  ⟨fun _ _ h => absurd h.symm (Option.some_ne_none _),
    fun _ _ h => absurd h.symm (Option.some_ne_none _), fun _ => rfl⟩

/-- As time passes, the invariant stays. -/
theorem Tied.mono (hr : Tied rl h t) (ht : t ≤ t') : Tied rl h t' where
  sorted := hr.sorted
  past k v hv x hx := (hr.past k v hv x hx).trans ht
  young k := by
    rw [← young_young ht, hr.young k, young_young ht]

/-- One bucket is stored. -/
theorem Tied.set (hr : Tied rl h t) {v : List T} (hs : v.Pairwise (· ≤ ·)) (hp : ∀ x ∈ v, x ≤ t)
    (hy : SlidingWindow.young rl.window t v = SlidingWindow.young rl.window t (timesOf k h'))
    (hk : ∀ k' ≠ k, timesOf k' h' = timesOf k' h) :
    Tied { rl with hits := rl.hits.set k v } h' t where
  sorted k' v' hv' := by
    rw [Table.lookup_set] at hv'
    split_ifs at hv'
    · exact Option.some.inj hv' ▸ hs
    · exact hr.sorted k' v' hv'
  past k' v' hv' := by
    rw [Table.lookup_set] at hv'
    split_ifs at hv'
    · exact Option.some.inj hv' ▸ hp
    · exact hr.past k' v' hv'
  young k' := by
    rw [Table.lookup_set]
    split_ifs with he
    · exact he ▸ hy
    · rw [hk k' he]
      exact hr.young k'

/-- The bucket that is left of a key, sorted and not from the future. -/
theorem Tied.bucket (hr : Tied rl h t) (k : K) :
    (((rl.hits.lookup k).getD []).filter (t - · < rl.window)).Pairwise (· ≤ ·) ∧
      ∀ x ∈ ((rl.hits.lookup k).getD []).filter (t - · < rl.window), x ≤ t := by
  cases hv : rl.hits.lookup k with
  | none => exact ⟨List.Pairwise.nil, fun x hx => absurd hx List.not_mem_nil⟩
  | some v =>
      exact ⟨(hr.sorted k v hv).filter _, fun x hx => hr.past k v hv x (List.mem_of_mem_filter hx)⟩

/-! ### Eviction -/

/-- The buckets with a young last hit. -/
def unexpired (rl : RateLimiter K T) (now : T) : Table K (List T) :=
  rl.hits.deleteWhere fun _ v => v.getLast?.all fun last => rl.window ≤ now - last

theorem lookup_unexpired {v : List T} : (rl.unexpired t).lookup k = some v ↔
    rl.hits.lookup k = some v ∧ ∃ last, v.getLast? = some last ∧ t - last < rl.window := by
  rw [unexpired, Table.lookup_deleteWhere, Option.filter_eq_some_iff]
  cases hlast : v.getLast? with
  | none => simp
  | some last => simp

/-- Their keys are active. -/
theorem Tied.active (hr : Tied rl h t) :
    (rl.unexpired t).entries.length ≤ (activeKeys rl.window t h).card := by
  have hcard : (rl.unexpired t).entries.length = (rl.unexpired t).keys.toFinset.card :=
    (List.length_map ..).symm.trans (List.toFinset_card_of_nodup (AList.keys_nodup _)).symm
  rw [hcard]
  refine Finset.card_le_card fun k hk => mem_activeKeys.2 ?_
  obtain ⟨v, hv⟩ := Option.isSome_iff_exists.1 (AList.lookup_isSome.2 (List.mem_toFinset.1 hk))
  obtain ⟨hv, last, hlast, hlt⟩ := lookup_unexpired.1 hv
  have hyoung : last ∈ SlidingWindow.young rl.window t (timesOf k h) := by
    rw [← hr.young k, hv]
    exact mem_young.2 ⟨List.mem_of_getLast? hlast, hlt⟩
  rw [mem_young, mem_timesOf] at hyoung
  exact ⟨last, hyoung⟩

/-- **Eviction.**  With at most `max_keys` active keys it drops the expired buckets
only, which keeps the invariant. -/
theorem Tied.evict (hr : Tied rl h t) (hactive : (activeKeys rl.window t h).card ≤ rl.maxKeys) :
    Tied (rl.evict t) h t := by
  have hle := hr.active
  have hevict : rl.evict t = { rl with hits := rl.unexpired t } := by
    refine if_neg ?_
    show ¬ 0 < ((rl.unexpired t).entries.length : ℤ) - rl.maxKeys
    omega
  rw [hevict]
  refine ⟨fun k v hv => hr.sorted k v (lookup_unexpired.1 hv).1,
    fun k v hv => hr.past k v (lookup_unexpired.1 hv).1, fun k => ?_⟩
  rw [← hr.young k]
  cases hkept : (rl.unexpired t).lookup k with
  | some v => rw [(lookup_unexpired.1 hkept).1]
  | none =>
      cases hv : rl.hits.lookup k with
      | none => rfl
      | some v =>
          -- the bucket is expired, so none of its hits is young
          refine (List.eq_nil_iff_forall_not_mem.2 fun x hx => ?_).symm
          obtain ⟨hx, hlt⟩ := mem_young.1 hx
          have hne : v ≠ [] := List.ne_nil_of_mem hx
          have hlast := Clock.sub_anti t ((hr.sorted k v hv).rel_getLast hx)
          have hin : (rl.unexpired t).lookup k = some v := lookup_unexpired.2
            ⟨hv, _, List.getLast?_eq_some_getLast hne, hlast.trans_lt hlt⟩
          exact absurd (hkept.symm.trans hin) (Option.some_ne_none v).symm

/-! ### One call -/

/-- A call changes the hits only. -/
theorem check_hits (rl : RateLimiter K T) (k : K) (t : T) :
    ∃ hits, (rl.check k t).2 = { rl with hits := hits } := by
  have hevict : ∀ hits, ∃ hits', ({ rl with hits := hits } : RateLimiter K T).evict t =
      { rl with hits := hits' } := fun hits => by
    unfold RateLimiter.evict
    simp only
    split_ifs <;> exact ⟨_, rfl⟩
  unfold RateLimiter.check
  simp only
  split_ifs
  · split <;> exact ⟨_, rfl⟩
  · exact hevict _
  · exact ⟨_, rfl⟩

@[simp] theorem max_check (rl : RateLimiter K T) (k : K) (t : T) : (rl.check k t).2.max = rl.max := by
  obtain ⟨hits, hhits⟩ := rl.check_hits k t
  rw [hhits]

@[simp] theorem window_check (rl : RateLimiter K T) (k : K) (t : T) :
    (rl.check k t).2.window = rl.window := by
  obtain ⟨hits, hhits⟩ := rl.check_hits k t
  rw [hhits]

@[simp] theorem maxKeys_check (rl : RateLimiter K T) (k : K) (t : T) :
    (rl.check k t).2.maxKeys = rl.maxKeys := by
  obtain ⟨hits, hhits⟩ := rl.check_hits k t
  rw [hhits]

/-- What is stored under a key. -/
def stored (rl : RateLimiter K T) (k : K) : List T := (rl.hits.lookup k).getD []

/-- **A call on the only key of a limiter.**  Nothing is evicted: the call is allowed when
fewer than `max_requests` stored hits are young, and is then stored after them. -/
theorem check_alone (hone : ∀ k' ≠ k, rl.hits.lookup k' = none) (hmax : 1 ≤ rl.max)
    (hm : 1 ≤ rl.maxKeys) (t : T) :
    ∃ hits, (rl.check k t).2 = { rl with hits := hits } ∧
      (∀ k' ≠ k, hits.lookup k' = none) ∧
      rl.allows (k, t) = decide (((SlidingWindow.young rl.window t (rl.stored k)).length : ℤ) < rl.max) ∧
      (hits.lookup k).getD [] = SlidingWindow.young rl.window t (rl.stored k) ++
        if rl.allows (k, t) then [t] else [] := by
  have hset : ∀ v : List T, ∀ k' ≠ k, (rl.hits.set k v).lookup k' = none := fun v k' hk' => by
    rw [Table.lookup_set, if_neg hk', hone k' hk']
  have hlen : ∀ v : List T, ((rl.hits.set k v).entries.length : ℤ) ≤ rl.maxKeys := fun v => by
    have hsub : (rl.hits.set k v).keys.toFinset ⊆ {k} := fun k' hk' => by
      by_contra hne
      have hsome := AList.lookup_isSome.2 (List.mem_toFinset.1 hk')
      rw [hset v k' (by simpa using hne)] at hsome
      cases hsome
    have hcard := Finset.card_le_card hsub
    rw [List.toFinset_card_of_nodup (AList.keys_nodup _), Finset.card_singleton] at hcard
    have hkeys : (rl.hits.set k v).keys.length = (rl.hits.set k v).entries.length :=
      List.length_map ..
    omega
  unfold allows RateLimiter.check stored
  simp only [← SlidingWindow.young.eq_def]
  generalize SlidingWindow.young rl.window t ((rl.hits.lookup k).getD []) = bucket
  by_cases ha : rl.max ≤ (bucket.length : ℤ)
  · simp only [if_pos ha]
    cases bucket with
    | nil => exact absurd (hmax.trans ha) (by simp)
    | cons first rest =>
        refine ⟨rl.hits.set k (first :: rest), rfl, hset _, ?_, ?_⟩
        · rw [decide_eq_false (not_lt.2 ha)]
          rfl
        · rw [Table.lookup_set, if_pos rfl]
          simp
  · simp only [if_neg ha, if_neg (not_lt.2 (hlen _))]
    refine ⟨rl.hits.set k (bucket ++ [t]), rfl, hset _, ?_, ?_⟩
    · rw [decide_eq_true (not_le.1 ha)]
      rfl
    · rw [Table.lookup_set, if_pos rfl]
      simp

/-- The answer to a call is a matter of the limit, the window and the young hits of the key. -/
theorem check_fst_congr {rl' : RateLimiter K T} (hmax : rl.max = rl'.max)
    (hW : rl.window = rl'.window)
    (hy : SlidingWindow.young rl.window t (rl.stored k) =
      SlidingWindow.young rl'.window t (rl'.stored k)) :
    (rl.check k t).1 = (rl'.check k t).1 := by
  rw [hW] at hy
  unfold RateLimiter.check
  simp only [← SlidingWindow.young.eq_def, ← stored.eq_def, hmax, hW, hy]
  generalize SlidingWindow.young rl'.window t (rl'.stored k) = bucket
  by_cases hfull : rl'.max ≤ bucket.length
  · simp only [if_pos hfull]
    cases bucket <;> rfl
  · simp only [if_neg hfull]

/-- With a limit below one a call raises, and nothing is stored. -/
theorem check_new_of_nonpos {n m : ℤ} {W : T} (hn : n ≤ 0) (k : K) (t : T) :
    (new n W m).check k t = (none, new n W m) :=
  if_pos (by exact_mod_cast hn)

/-- The admitted hits after a call. -/
def record (rl : RateLimiter K T) (h : List (K × T)) (c : K × T) : List (K × T) :=
  if admits rl.max rl.window h c then h ++ [c] else h

theorem timesOf_record_of_ne (h : List (K × T)) (hk : k ≠ c.1) :
    timesOf k (rl.record h c) = timesOf k h := by
  unfold record
  split_ifs
  · exact timesOf_append_of_ne hk
  · rfl

/-- **One call.**  A limiter that is tied to the admitted hits answers as the window
does, and is tied to them after the call if no more than `max_keys` keys are active. -/
theorem Tied.check (hr : Tied rl h t) (ht : t ≤ c.2) (hmax : 1 ≤ rl.max) (hW : 0 < rl.window) :
    (∃ retry, (rl.check c.1 c.2).1 = some (admits rl.max rl.window h c, retry)) ∧
      ((activeKeys rl.window c.2 (rl.record h c)).card ≤ rl.maxKeys →
        Tied (rl.check c.1 c.2).2 (rl.record h c) c.2) := by
  have hr := hr.mono ht
  obtain ⟨hsorted, hpast⟩ := hr.bucket c.1
  have hbucket : ((rl.hits.lookup c.1).getD []).filter (c.2 - · < rl.window) =
      SlidingWindow.young rl.window c.2 (timesOf c.1 h) := hr.young c.1
  have hyoung := young_young (W := rl.window) (le_refl c.2) (timesOf c.1 h)
  have hdecide : admits rl.max rl.window h c =
      decide (((SlidingWindow.young rl.window c.2 (timesOf c.1 h)).length : ℤ) < rl.max) := rfl
  rw [hbucket] at hsorted hpast
  unfold RateLimiter.check
  simp only [hbucket]
  generalize hb : SlidingWindow.young rl.window c.2 (timesOf c.1 h) = bucket at *
  by_cases ha : (bucket.length : ℤ) < rl.max
  · rw [decide_eq_true ha] at hdecide
    have hrecord : rl.record h c = h ++ [c] := if_pos hdecide
    have hset : Tied { rl with hits := rl.hits.set c.1 (bucket ++ [c.2]) } (rl.record h c) c.2 := by
      refine hr.set ?_ ?_ ?_ fun k' hk' => timesOf_record_of_ne h hk'
      · exact List.pairwise_append.2
          ⟨hsorted, List.pairwise_singleton .., fun x hx y hy => List.mem_singleton.1 hy ▸ hpast x hx⟩
      · intro x hx
        rcases List.mem_append.1 hx with hx | hx
        · exact hpast x hx
        · exact (List.mem_singleton.1 hx).le
      · rw [hrecord, timesOf_append_self, young_append_self hW, young_append_self hW, hyoung, hb]
    rw [if_neg (not_le.2 ha), hdecide]
    refine ⟨⟨0, rfl⟩, fun hactive => ?_⟩
    split_ifs
    · exact hset.evict hactive
    · exact hset
  · rw [decide_eq_false ha] at hdecide
    have hrecord : rl.record h c = h := if_neg (by rw [hdecide]; exact Bool.false_ne_true)
    have hset : Tied { rl with hits := rl.hits.set c.1 bucket } (rl.record h c) c.2 :=
      hr.set hsorted hpast (by rw [hrecord, hyoung, hb]) fun k' hk' => timesOf_record_of_ne h hk'
    rw [if_pos (not_lt.1 ha), hdecide]
    split
    · exact absurd (hmax.trans (not_lt.1 ha)) (by simp)
    · exact ⟨⟨_, rfl⟩, fun _ => hset⟩

/-! ### Any sequence of calls -/

variable {calls pre post : List (K × T)} {n m : ℤ} {W : T}

theorem append_admitted_cons : h ++ admitted rl.max rl.window h (c :: calls) =
    rl.record h c ++ admitted rl.max rl.window (rl.record h c) calls := by
  rw [admitted, record]
  split_ifs
  · rw [List.append_assoc, List.singleton_append]
  · rfl

/-- After each call that is allowed when the window admits it, at most `max_keys` keys
are active. -/
def Capped (rl : RateLimiter K T) (h calls : List (K × T)) : Prop :=
  ∀ pre c post, calls = pre ++ c :: post →
    rl.allowed (pre ++ [c]) = admitted rl.max rl.window h (pre ++ [c]) →
      (activeKeys rl.window c.2 (h ++ admitted rl.max rl.window h (pre ++ [c]))).card ≤ rl.maxKeys

/-- **Run lemma.**  A limiter that is tied to the admitted hits allows what the window
admits, and stays tied to the admitted hits. -/
theorem Tied.run (hr : Tied rl h t) (hmax : 1 ≤ rl.max) (hW : 0 < rl.window)
    (ht : ∀ c ∈ calls, t ≤ c.2) (hsorted : calls.Pairwise fun c c' => c.2 ≤ c'.2)
    (hcapped : Capped rl h calls) :
    rl.allowed calls = admitted rl.max rl.window h calls ∧
      ∀ now, t ≤ now → (∀ c ∈ calls, c.2 ≤ now) →
        Tied (rl.after calls) (h ++ admitted rl.max rl.window h calls) now := by
  induction calls generalizing rl h t with
  | nil => exact ⟨rfl, fun now hnow _ => by simpa [admitted, after] using hr.mono hnow⟩
  | cons c calls ih =>
      obtain ⟨⟨retry, hanswer⟩, htied⟩ := hr.check (ht c (List.mem_cons_self ..)) hmax hW
      obtain ⟨hits, hhits⟩ := rl.check_hits c.1 c.2
      have hallows : rl.allows c = admits rl.max rl.window h c := by rw [allows, hanswer]; rfl
      have hallowed : ∀ l, rl.allowed (c :: l) = (if admits rl.max rl.window h c then [c] else []) ++
          ({ rl with hits := hits } : RateLimiter K T).allowed l := fun l => by
        rw [allowed, hallows, hhits]
        split_ifs <;> rfl
      have hadmitted : ∀ l, admitted rl.max rl.window h (c :: l) =
          (if admits rl.max rl.window h c then [c] else []) ++
            admitted rl.max rl.window (rl.record h c) l := fun l => by
        rw [admitted, record]
        split_ifs <;> rfl
      rw [hhits] at htied
      have hfirst := hcapped [] c calls rfl (by rw [List.nil_append, hallowed, hadmitted]; rfl)
      rw [List.nil_append, append_admitted_cons, admitted, List.append_nil] at hfirst
      have hrest : Capped { rl with hits := hits } (rl.record h c) calls := fun pre c' post he hl => by
        have hnext := hcapped (c :: pre) c' post (by rw [he]; rfl)
          (by rw [List.cons_append, hallowed, hadmitted, hl])
        rwa [List.cons_append, append_admitted_cons] at hnext
      obtain ⟨hsame, hafter⟩ := ih (htied hfirst) hmax hW (List.pairwise_cons.1 hsorted).1
        (List.pairwise_cons.1 hsorted).2 hrest
      refine ⟨by rw [hallowed, hadmitted, hsame], fun now hnow hle => ?_⟩
      rw [append_admitted_cons, after, List.foldl_cons, hhits]
      exact hafter now (hle c (List.mem_cons_self ..)) fun c' hc' => hle c' (List.mem_cons_of_mem _ hc')

@[simp] theorem max_after (rl : RateLimiter K T) (calls : List (K × T)) :
    (rl.after calls).max = rl.max := by
  induction calls generalizing rl with
  | nil => rfl
  | cons c calls ih => exact (ih _).trans (rl.max_check c.1 c.2)

@[simp] theorem window_after (rl : RateLimiter K T) (calls : List (K × T)) :
    (rl.after calls).window = rl.window := by
  induction calls generalizing rl with
  | nil => rfl
  | cons c calls ih => exact (ih _).trans (rl.window_check c.1 c.2)

@[simp] theorem maxKeys_after (rl : RateLimiter K T) (calls : List (K × T)) :
    (rl.after calls).maxKeys = rl.maxKeys := by
  induction calls generalizing rl with
  | nil => rfl
  | cons c calls ih => exact (ih _).trans (rl.maxKeys_check c.1 c.2)

/-- After each call at most `m` keys are active. -/
def Bounded (n : ℤ) (W : T) (m : ℤ) (calls : List (K × T)) : Prop :=
  ∀ pre c post, calls = pre ++ c :: post →
    (activeKeys W c.2 (admitted n W [] (pre ++ [c]))).card ≤ m

section New
variable (hn : 1 ≤ n) (hW : 0 < W)
include hn hW

/-- A new limiter allows what the window admits. -/
theorem new_run (hsorted : calls.Pairwise fun c c' => c.2 ≤ c'.2)
    (hcapped : Capped (new n W m) [] calls) :
    (new n W m).allowed calls = admitted n W [] calls ∧ ∀ now, (∀ c ∈ calls, c.2 ≤ now) →
      Tied ((new n W m).after calls) (admitted n W [] calls) now := by
  refine ⟨?_, fun now hle => ?_⟩
  · obtain ⟨t₀, hfirst, -⟩ := exists_start hsorted 0
    exact ((tied_new n W m t₀).run hn hW hfirst hsorted hcapped).1
  · obtain ⟨t₀, hfirst, hstart⟩ := exists_start hsorted now
    exact ((tied_new n W m t₀).run hn hW hfirst hsorted hcapped).2 now (hstart hle) hle

theorem allowed_of_bounded (hsorted : calls.Pairwise fun c c' => c.2 ≤ c'.2)
    (hbounded : Bounded n W m calls) : (new n W m).allowed calls = admitted n W [] calls :=
  (new_run hn hW hsorted fun pre c post he _ => hbounded pre c post he).1

/-- A bound on the limiter's hits is one on the window's. -/
theorem bounded_of_active (hsorted : calls.Pairwise fun c c' => c.2 ≤ c'.2)
    (hactive : ∀ pre c post, calls = pre ++ c :: post →
      ((((new n W m).allowed (pre ++ [c])).filter fun c' => c.2 - c'.2 < W).map
        Prod.fst).toFinset.card ≤ m) : Bounded n W m calls := by
  intro pre c post he
  have hpre : calls = (pre ++ [c]) ++ post := by rw [he, List.append_assoc]; rfl
  have hs : (pre ++ [c]).Pairwise fun c c' => c.2 ≤ c'.2 :=
    (List.pairwise_append.1 (hpre ▸ hsorted)).1
  have hcapped : Capped (new n W m) [] (pre ++ [c]) := fun pre' c' post' he' hsame => by
    have hcard := hactive pre' c' (post' ++ post) (by rw [hpre, he', List.append_assoc]; rfl)
    rw [hsame] at hcard
    exact hcard
  rw [← (new_run hn hW hs hcapped).1]
  exact hactive pre c post he

end New

theorem Bounded.of_append (hb : Bounded n W m (pre ++ post)) : Bounded n W m pre :=
  fun pre' c post' he => hb pre' c (post' ++ post) (by rw [he, List.append_assoc]; rfl)

theorem Bounded.mono {m' : ℤ} (hb : Bounded n W m calls) (hm : m ≤ m') : Bounded n W m' calls :=
  fun pre c post he => (hb pre c post he).trans hm

/-- One key is never too many. -/
theorem bounded_filter (hm : 1 ≤ m) (k : K) (calls : List (K × T)) :
    Bounded n W m (calls.filter (·.1 = k)) := by
  intro pre c post he
  have hone : ∀ x ∈ admitted n W [] (pre ++ [c]), x.1 = k := fun x hx => by
    have hmem : x ∈ calls.filter (·.1 = k) := by
      rw [he, List.append_cons]
      exact List.mem_append_left _ (admitted_sublist.subset hx)
    simpa using (List.mem_filter.1 hmem).2
  exact (Int.ofNat_le.2 (card_activeKeys_le_one hone)).trans hm

/-- Without a denied call no more keys are active. -/
theorem Bounded.denied (hb : Bounded n W m (pre ++ c :: post))
    (hd : admits n W (admitted n W [] pre) c = false) : Bounded n W m (pre ++ post) := by
  intro pre' c' post' he
  have hd : admits n W ([] ++ admitted n W [] pre) c = false := hd
  -- a call after the denied one
  have hlater : ∀ mid, pre' = pre ++ mid → post = mid ++ c' :: post' →
      ((activeKeys W c'.2 (admitted n W [] (pre' ++ [c']))).card : ℤ) ≤ m := by
    rintro mid rfl rfl
    have hnext := hb (pre ++ c :: mid) c' post' (by simp)
    rwa [List.append_assoc, List.cons_append, admitted_denied hd, ← List.append_assoc] at hnext
  rcases List.append_eq_append_iff.1 he with ⟨mid, hpre, hpost⟩ | ⟨mid, hpre, hpost⟩
  · exact hlater mid hpre hpost
  · cases mid with
    | nil => exact hlater [] (by rw [hpre, List.append_nil, List.append_nil]) hpost.symm
    | cons d mid =>
        obtain ⟨rfl, -⟩ := List.cons.inj hpost
        exact hb pre' c' (mid ++ c :: post) (by rw [hpre, List.append_assoc]; rfl)

/-- **The limiter is an exact sliding window**, as long as no more than `max_keys`
keys have a young hit: a call is allowed exactly when fewer than `max_requests` allowed
calls on its key are younger than the window.  So the calls on a key are answered as
if there were no other key, as if a denied call had not been made, and as if nothing
were ever evicted. -/
theorem exact_window (hn : 1 ≤ n) (hW : 0 < W) (hm : 1 ≤ m)
    (hsorted : calls.Pairwise fun c c' => c.2 ≤ c'.2)
    (hactive : ∀ pre c post, calls = pre ++ c :: post →
      ((((new n W m).allowed (pre ++ [c])).filter fun c' => c.2 - c'.2 < W).map
        Prod.fst).toFinset.card ≤ m) :
    (∀ pre k t post, calls = pre ++ (k, t) :: post → ∃ ok retryAfter,
      (((new n W m).after pre).check k t).1 = some (ok, retryAfter) ∧
        (ok = true ↔
          (((new n W m).allowed pre).filter fun c => c.1 = k ∧ t - c.2 < W).length < n)) ∧
    (∀ k, ((new n W m).allowed calls).filter (·.1 = k) =
      (new n W m).allowed (calls.filter (·.1 = k))) ∧
    (∀ pre c post, calls = pre ++ c :: post → ((new n W m).after pre).allows c = false →
      (new n W m).allowed (pre ++ post) = (new n W m).allowed calls) ∧
    ∀ m', m ≤ m' → (new n W m').allowed calls = (new n W m).allowed calls := by
  have hbounded := bounded_of_active hn hW hsorted hactive
  have hallowed := allowed_of_bounded hn hW hsorted hbounded
  -- the limiter after some of the calls
  have hafter : ∀ pre c post, calls = pre ++ c :: post →
      (new n W m).allowed pre = admitted n W [] pre ∧ ∃ retry,
        (((new n W m).after pre).check c.1 c.2).1 =
          some (admits n W (admitted n W [] pre) c, retry) := fun pre c post he => by
    have hs := List.pairwise_append.1 (he ▸ hsorted)
    obtain ⟨hsame, htied⟩ := new_run hn hW hs.1 fun pre' c' post' he' _ =>
      (Bounded.of_append (he ▸ hbounded)) pre' c' post' he'
    have hcheck := (htied c.2 fun c' hc' => hs.2.2 c' hc' c (List.mem_cons_self ..)).check le_rfl
      (by rwa [max_after]) (by rwa [window_after])
    rw [max_after, window_after] at hcheck
    exact ⟨hsame, hcheck.1⟩
  refine ⟨fun pre k t post he => ?_, fun k => ?_, fun pre c post he hd => ?_, fun m' hm' => ?_⟩
  · obtain ⟨hsame, retry, hanswer⟩ := hafter pre (k, t) post he
    refine ⟨_, retry, hanswer, ?_⟩
    rw [hsame, ← length_young_timesOf, admits, decide_eq_true_eq]
  · rw [hallowed, admitted_filter, allowed_of_bounded hn hW (hsorted.filter _) (bounded_filter hm k calls)]
    rfl
  · obtain ⟨-, retry, hanswer⟩ := hafter pre c post he
    have hdenied : admits n W (admitted n W [] pre) c = false := by
      rwa [allows, hanswer] at hd
    have hs : (pre ++ post).Pairwise fun c c' => c.2 ≤ c'.2 :=
      (he ▸ hsorted).sublist ((List.sublist_cons_self c post).append_left pre)
    rw [hallowed, allowed_of_bounded hn hW hs ((he ▸ hbounded).denied hdenied), he]
    have hd : admits n W ([] ++ admitted n W [] pre) c = false := hdenied
    exact (admitted_denied hd).symm
  · rw [hallowed, allowed_of_bounded hn hW hsorted (hbounded.mono hm')]

/-- An allowed call, a denied one, and one on another key that evicts the first. -/
def sampleCalls : List (ℕ × ℚ) := [(0, 0), (0, 5), (1, 11)]

/-- One request in ten seconds for one key: the third call is allowed, and the bucket
of the first is gone. -/
theorem exact_window_evicted : ∃ ok retryAfter,
    (((new 1 10 1 : RateLimiter ℕ ℚ).after [(0, 0), (0, 5)]).check 1 11).1 = some (ok, retryAfter) ∧
      ok = true ∧ ((new 1 10 1 : RateLimiter ℕ ℚ).after sampleCalls).hits.lookup 0 = none := by
  have hactive : ∀ pre c post, sampleCalls = pre ++ c :: post →
      ((((new 1 10 1 : RateLimiter ℕ ℚ).allowed (pre ++ [c])).filter fun c' => c.2 - c'.2 < 10).map
        Prod.fst).toFinset.card ≤ (1 : ℤ) := by
    intro pre c post he
    rcases pre with _ | ⟨a, _ | ⟨b, _ | ⟨d, pre⟩⟩⟩ <;>
      simp only [sampleCalls, List.nil_append, List.cons_append, List.cons.injEq] at he
    · obtain ⟨rfl, -⟩ := he
      decide +kernel
    · obtain ⟨rfl, rfl, -⟩ := he
      decide +kernel
    · obtain ⟨rfl, rfl, rfl, -⟩ := he
      decide +kernel
    · simp at he
  obtain ⟨ok, retryAfter, hanswer, hok⟩ := (exact_window (n := 1) (m := 1) (W := 10) (by decide)
    (by decide) (by decide) (by decide) hactive).1 [(0, 0), (0, 5)] 1 11 [] rfl
  exact ⟨ok, retryAfter, hanswer, hok.2 (by decide +kernel), by decide +kernel⟩

end RateLimiter
end PoetryGenerator
