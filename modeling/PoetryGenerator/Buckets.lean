/-
# Rate-limit buckets (`api/app/main.py`, `ratelimit.py`, `deps.py`)

`enforce_rate_limit` asks `NamedClientLimiter` for the rule that covers the peer.
A covered peer is counted under the rule's name by a limiter of the rule's own,
made when it is first needed; any other peer is counted under its own text by the
default limiter.  In memory every limiter has its own hits, in Redis all of them
count on one server, where a name and a peer could be one key.

The limiters and what they share are the state of a machine whose inputs are the
requests with the results of `match` (`Limits.enforce`).  A bucket is compared
with one limiter of its limit that gets the requests of the bucket alone
(`alone`).  The relation between the two (`Simulates`) is equality for the limiter
of a name; for the default limiter and for Redis it is that both are `Tied` to
histories that agree on the bucket's key.
-/

import PoetryGenerator.Clients
import PoetryGenerator.Lib.Unwinding
import PoetryGenerator.RateLimiter
import PoetryGenerator.RedisRateLimiter

namespace PoetryGenerator

open SlidingWindow FixedWindow Unwinding

/-- `RateLimiterLike`: the answer of `check`, nothing if it raises, and what it leaves in the
limiter and outside of it. -/
class RateLimiterLike (L : Type) (S T : outParam Type) where
  check : L → S → Str → T → Option (Bool × ℤ) × L × S

/-- A limiter in memory shares nothing. -/
instance {T : Type} [Clock T] : RateLimiterLike (RateLimiter Str T) Unit T where
  check rl _ key now :=
    let (answer, rl) := rl.check key now
    (answer, rl, ())

/-- The Redis limiters share the server, which answers every command. -/
instance {T : Type} [Field T] [LinearOrder T] [FloorRing T] :
    RateLimiterLike (RedisRateLimiter T) (Counters T) T where
  check rl counters key now :=
    let (answer, counters) := rl.check .ok .ok counters key now
    (some answer, rl, counters)

/-- `_new_rate_limiter` without `REDIS_URL`. -/
def newRateLimiter {T : Type} [Clock T] [OfNat T 60] (maxPerMin : ℤ) : RateLimiter Str T :=
  RateLimiter.new maxPerMin 60

/-- `_new_rate_limiter` with `REDIS_URL`. -/
def newRedisRateLimiter {T : Type} [Field T] (maxPerMin : ℤ) : RedisRateLimiter T := ⟨maxPerMin, 60⟩

/-- `max_per_min or default_max`. -/
def ClientRule.max (rule : ClientRule) (defaultMax : ℤ) : ℤ :=
  match rule.maxPerMin with
  | none => defaultMax
  | some n => if n = 0 then defaultMax else n

/-- `NamedClientLimiter` without its registry. -/
structure NamedClientLimiter (L : Type) where
  factory : ℤ → L
  defaultMax : ℤ
  limiters : Str → Option L := fun _ => none

/-- A request with the result of `match`. -/
structure Identified (T : Type) where
  matched : Option (Option ClientRule)
  peer : Option Str
  now : T

/-- `peer or "anon"`. -/
def Identified.peerKey {T : Type} (c : Identified T) : Str :=
  match c.peer with
  | none => "anon".toList
  | some peer => if peer = [] then "anon".toList else peer

/-- The key under which the request is counted. -/
def Identified.keyFor {T : Type} (c : Identified T) : Option ClientRule → Str
  | none => c.peerKey
  | some rule => rule.name

/-- The named limiters, the default one of `get_rate_limiter`, and what they share. -/
structure Limits (L S : Type) where
  named : NamedClientLimiter L
  default : L
  shared : S

namespace Limits

variable {L S T : Type}

/-- The limiter that counts; one of a name is made when there is none. -/
def limiterFor (s : Limits L S) : Option ClientRule → L
  | none => s.default
  | some rule =>
    (s.named.limiters rule.name).getD (s.named.factory (rule.max s.named.defaultMax))

/-- The limiter after its `check`. -/
def store (s : Limits L S) (l : L) : Option ClientRule → Limits L S
  | none => { s with default := l }
  | some rule =>
    { s with named := { s.named with
        limiters := Function.update s.named.limiters rule.name (some l) } }

/-- `enforce_rate_limit` after `match`: the answer of `check`, nothing for an exception. -/
def enforce [RateLimiterLike L S T] (s : Limits L S) (c : Identified T) :
    Option (Bool × ℤ) × Limits L S :=
  match c.matched with
  | none => (none, s)
  | some rule =>
    let (answer, l, shared) := RateLimiterLike.check (s.limiterFor rule) s.shared (c.keyFor rule) c.now
    (answer, { s.store l rule with shared })

/-- The limiters of a process that has just started. -/
def start (factory : ℤ → L) (defaultMax : ℤ) (shared : S) : Limits L S :=
  ⟨{ factory, defaultMax }, factory defaultMax, shared⟩

end Limits

/-- A request: `request.client.host`, the time of the `check`, and what the lookups of `match`
meet. -/
structure Request (C T : Type) where
  peer : Option Str
  now : T
  lookups : ℕ → Lookup C

section Requests
variable {C L S T : Type} [LinearOrder C] [Add C]

/-- `match` of a request. -/
def identify (reg : ClientRegistry C) (req : Request C T) : Identified T × ClientRegistry C :=
  let (matched, reg) := reg.matchPeer req.lookups req.peer
  (⟨matched, req.peer, req.now⟩, reg)

/-- `enforce_rate_limit`, with the registry and the limiters. -/
def enforceRateLimit [RateLimiterLike L S T] (s : ClientRegistry C × Limits L S) (req : Request C T) :
    Option (Bool × ℤ) × ClientRegistry C × Limits L S :=
  let (c, reg) := identify s.1 req
  let (answer, limits) := s.2.enforce c
  (answer, reg, limits)

end Requests

/-- A key and the limit of what is counted under it. -/
structure Bucket where
  key : Str
  limit : ℤ
  deriving DecidableEq

/-- The bucket of a request: the name of the rule with its limit, or the peer with the default. -/
def Identified.bucket {T : Type} (defaultMax : ℤ) (c : Identified T) : Option Bucket :=
  c.matched.map fun rule => ⟨c.keyFor rule, (rule.map (·.max defaultMax)).getD defaultMax⟩

/-- One limiter that gets the calls on one key, and no others. -/
def alone {L S T : Type} [RateLimiterLike L S T] (key : Str) (s : L × S) (now : T) :
    Option (Bool × ℤ) × L × S :=
  RateLimiterLike.check s.1 s.2 key now

/-! ### A bucket and its limiter -/

section Owner
variable {L S T : Type} {s : Limits L S} {b : Bucket} {dflt : Bool} {d : ℤ} {c : Identified T}
  {rule : Option ClientRule} {l : L}

/-- The limiter of a bucket: the default one, or the one of its name. -/
def Limits.owner (s : Limits L S) (b : Bucket) (dflt : Bool) : L :=
  if dflt then s.default else (s.named.limiters b.key).getD (s.named.factory b.limit)

/-- A request that is counted under the bucket's key is one of the bucket, and counted by its
limiter. -/
def Identified.Owned (c : Identified T) (d : ℤ) (b : Bucket) (dflt : Bool) : Prop :=
  ∀ rule, c.matched = some rule → c.keyFor rule = b.key →
    c.bucket d = some b ∧ (rule = none ↔ dflt = true)

/-- A request of the bucket is counted by the bucket's limiter. -/
theorem Limits.limiterFor_eq_owner (hd : s.named.defaultMax = d) (hm : c.matched = some rule)
    (hb : c.bucket d = some b) (hrule : rule = none ↔ dflt = true) :
    s.limiterFor rule = s.owner b dflt := by
  rw [Identified.bucket, hm] at hb
  obtain rfl := Option.some.inj hb
  cases rule with
  | none =>
      rw [hrule.1 rfl]
      rfl
  | some rule =>
      have hfalse : dflt = false := Bool.eq_false_iff.2 fun ht => absurd (hrule.2 ht) (by simp)
      rw [hfalse, ← hd]
      rfl

theorem Limits.owner_store (hkey : c.keyFor rule = b.key) (hrule : rule = none ↔ dflt = true)
    (shared : S) : ({ s.store l rule with shared } : Limits L S).owner b dflt = l := by
  cases rule with
  | none =>
      rw [hrule.1 rfl]
      rfl
  | some rule =>
      have hfalse : dflt = false := Bool.eq_false_iff.2 fun ht => absurd (hrule.2 ht) (by simp)
      have hname : rule.name = b.key := hkey
      rw [hfalse]
      show (Function.update s.named.limiters rule.name (some l) b.key).getD _ = l
      rw [hname, Function.update_self]
      rfl

/-- Another request leaves the bucket's limiter alone, unless that is the default one. -/
theorem Limits.owner_store_of_ne (hkey : c.keyFor rule ≠ b.key)
    (hrule : ¬ (rule = none ∧ dflt = true)) (shared : S) :
    ({ s.store l rule with shared } : Limits L S).owner b dflt = s.owner b dflt := by
  cases rule with
  | none =>
      have hfalse : dflt = false := Bool.eq_false_iff.2 fun ht => hrule ⟨rfl, ht⟩
      rw [hfalse]
      rfl
  | some rule =>
      have hname : b.key ≠ rule.name := fun h => hkey h.symm
      unfold Limits.owner Limits.store
      simp only [Function.update_of_ne hname]

end Owner

/-! ### The bucket sees what its limiter answers -/

section Simulation
variable {L S T : Type} {factory : ℤ → L} {shared : S} {d : ℤ} {b : Bucket} {dflt : Bool} {l : L}
  {calls : List (Identified T)} {V : L → Prop} {s : Limits L S} {rule : Option ClientRule}
  {Q : L × S → L × S → List (Identified T) → Prop}

/-- Every limiter comes from the factory and the `check`s on it. -/
structure Limits.Made (s : Limits L S) (factory : ℤ → L) (d : ℤ) (V : L → Prop) : Prop where
  factory_eq : s.named.factory = factory
  defaultMax_eq : s.named.defaultMax = d
  default : V s.default
  named : ∀ name l, s.named.limiters name = some l → V l

theorem Limits.Made.limiterFor (h : s.Made factory d V) (hnew : ∀ n, V (factory n))
    (rule : Option ClientRule) : V (s.limiterFor rule) := by
  cases rule with
  | none => exact h.default
  | some rule =>
      show V ((s.named.limiters rule.name).getD (s.named.factory (rule.max s.named.defaultMax)))
      rw [h.factory_eq]
      cases hl : s.named.limiters rule.name with
      | none => exact hnew _
      | some l => exact h.named _ l hl

theorem Limits.Made.store (h : s.Made factory d V) (hl : V l) (rule : Option ClientRule)
    (shared : S) : ({ s.store l rule with shared } : Limits L S).Made factory d V := by
  cases rule with
  | none => exact ⟨h.factory_eq, h.defaultMax_eq, hl, h.named⟩
  | some rule =>
      refine ⟨h.factory_eq, h.defaultMax_eq, h.default, fun name l' hl' => ?_⟩
      have hupdate : Function.update s.named.limiters rule.name (some l) name = some l' := hl'
      rw [Function.update_apply] at hupdate
      split_ifs at hupdate
      · exact Option.some.inj hupdate ▸ hl
      · exact h.named name l' hupdate

variable [RateLimiterLike L S T]

theorem Limits.enforce_of_matched {c : Identified T} (hm : c.matched = some rule) :
    s.enforce c =
      ((alone (c.keyFor rule) (s.limiterFor rule, s.shared) c.now).1,
        { s.store (alone (c.keyFor rule) (s.limiterFor rule, s.shared) c.now).2.1 rule with
          shared := (alone (c.keyFor rule) (s.limiterFor rule, s.shared) c.now).2.2 }) := by
  unfold Limits.enforce
  rw [hm]
  rfl

/-- A bucket sees what one limiter of its limit answers to the bucket's requests alone. -/
def SeenAlone (factory : ℤ → L) (shared : S) (d : ℤ) (b : Bucket) (calls : List (Identified T)) :
    Prop :=
  seen Limits.enforce (·.bucket d = some b) (Limits.start factory d shared) calls =
    (calls.filter (·.bucket d = some b)).zip
      (outputs (alone b.key) (factory b.limit, shared)
        ((calls.filter (·.bucket d = some b)).map Identified.now))

/-- `Q` relates the bucket's limiter and what is shared to the limiter that is alone.  The requests
of the bucket keep it, with equal answers, and so do the others: those on the same limiter, those on
another one, of which `V` is known, and those that raise. -/
structure Simulates (b : Bucket) (dflt : Bool) (V : L → Prop)
    (Q : L × S → L × S → List (Identified T) → Prop) : Prop where
  observed : ∀ y x c cs, Q y x (c :: cs) →
    (dflt = true → c.matched = some none ∧ c.peerKey = b.key) →
      (alone b.key y c.now).1 = (alone b.key x c.now).1 ∧
        Q (alone b.key y c.now).2 (alone b.key x c.now).2 cs
  same : ∀ y x c cs, Q y x (c :: cs) → dflt = true → c.matched = some none → c.peerKey ≠ b.key →
    Q (alone c.peerKey y c.now).2 x cs
  other : ∀ l shared x c cs l' k, Q (l, shared) x (c :: cs) →
    (dflt = true → c.matched ≠ some none) → V l' → k ≠ b.key →
      Q (l, (alone k (l', shared) c.now).2.2) x cs
  raised : ∀ y x c cs, Q y x (c :: cs) → c.matched = none → Q y x cs

/-- **A bucket sees what one limiter of its limit answers** to the bucket's requests alone. -/
theorem seen_enforce (hsim : Simulates b dflt V Q) (hnew : ∀ n, V (factory n))
    (hvalid : ∀ (y : L × S) k (t : T), V y.1 → V (alone k y t).2.1)
    (howned : ∀ c ∈ calls, c.Owned d b dflt) (hlimit : dflt = true → b.limit = d)
    (hstart : Q (factory b.limit, shared) (factory b.limit, shared) calls) :
    SeenAlone factory shared d b calls := by
  refine seen_eq_of_unwinding (R := fun s x cs => Q (s.owner b dflt, s.shared) x cs ∧
    s.Made factory d V ∧ ∀ c ∈ cs, c.Owned d b dflt) ?_ ?_ ?_
  · rintro s x c cs ⟨hQ, hmade, howned⟩ hb
    rw [decide_eq_true_eq] at hb
    obtain ⟨rule, hm, hrule⟩ := Option.map_eq_some_iff.1 hb
    have hkey : c.keyFor rule = b.key := congrArg Bucket.key hrule
    have hdflt := (howned c (List.mem_cons_self ..) rule hm hkey).2
    have howner := s.limiterFor_eq_owner hmade.defaultMax_eq hm hb hdflt
    have hmade' := hmade.store (hvalid (s.limiterFor rule, s.shared) (c.keyFor rule) c.now
      (hmade.limiterFor hnew rule)) rule
    rw [Limits.enforce_of_matched hm, howner, hkey]
    rw [howner, hkey] at hmade'
    obtain ⟨hanswer, hQ'⟩ := hsim.observed _ _ _ _ hQ fun ht => by
      obtain rfl := hdflt.2 ht
      exact ⟨hm, hkey⟩
    refine ⟨hanswer, ?_, hmade' _, fun c' hc' => howned c' (List.mem_cons_of_mem _ hc')⟩
    rw [Limits.owner_store hkey hdflt]
    exact hQ'
  · rintro s x c cs ⟨hQ, hmade, howned⟩ hb
    rw [decide_eq_false_iff_not] at hb
    have hrest : ∀ c' ∈ cs, c'.Owned d b dflt := fun c' hc' => howned c' (List.mem_cons_of_mem _ hc')
    cases hm : c.matched with
    | none =>
        have hs : s.enforce c = (none, s) := by rw [Limits.enforce, hm]
        rw [hs]
        exact ⟨hsim.raised _ _ _ _ hQ hm, hmade, hrest⟩
    | some rule =>
        have hkey : c.keyFor rule ≠ b.key := fun hkey =>
          hb (howned c (List.mem_cons_self ..) rule hm hkey).1
        have hlimiter := hmade.limiterFor hnew rule
        rw [Limits.enforce_of_matched hm]
        refine ⟨?_, hmade.store (hvalid (_, s.shared) _ _ hlimiter) rule _, hrest⟩
        by_cases hdefault : rule = none ∧ dflt = true
        · obtain ⟨rfl, rfl⟩ := hdefault
          exact hsim.same _ _ _ _ hQ rfl hm hkey
        · rw [Limits.owner_store_of_ne hkey hdefault]
          refine hsim.other _ _ _ _ _ _ _ hQ (fun ht hnone => hdefault ⟨?_, ht⟩) hlimiter hkey
          exact Option.some.inj (hm.symm.trans hnone)
  · refine ⟨?_, ⟨rfl, rfl, hnew d, fun _ _ h => absurd h (by simp [Limits.start])⟩, howned⟩
    have howner : (Limits.start factory d shared).owner b dflt = factory b.limit := by
      cases dflt with
      | true => exact congrArg factory (hlimit rfl).symm
      | false => rfl
    rw [howner]
    exact hstart

end Simulation

/-- The requests to come are not before `t`, and in the order of their times. -/
structure Due {T : Type} [LE T] (t : T) (calls : List (Identified T)) : Prop where
  le : ∀ c ∈ calls, t ≤ c.now
  sorted : calls.Pairwise fun c c' => c.now ≤ c'.now

section Due
variable {T : Type} {t : T} {c : Identified T} {calls : List (Identified T)}

theorem exists_due [Preorder T] [Nonempty T] (h : calls.Pairwise fun c c' => c.now ≤ c'.now) :
    ∃ t, Due t calls := by
  obtain ⟨t, ht, -⟩ := exists_start h (Classical.arbitrary T)
  exact ⟨t, ht, h⟩

theorem Due.head [LE T] (h : Due t (c :: calls)) : t ≤ c.now := h.le c (List.mem_cons_self ..)

theorem Due.tail [LE T] (h : Due t (c :: calls)) : Due t calls :=
  ⟨fun c' hc' => h.le c' (List.mem_cons_of_mem _ hc'), (List.pairwise_cons.1 h.sorted).2⟩

/-- The rest is due after the first. -/
theorem Due.next [LE T] (h : Due t (c :: calls)) : Due c.now calls := by
  obtain ⟨hle, hsorted⟩ := List.pairwise_cons.1 h.sorted
  exact ⟨hle, hsorted⟩

end Due

/-! ### In memory -/

section DefaultCalls
variable {T : Type} {c : Identified T} {calls : List (Identified T)}

/-- The call on the default limiter. -/
def Identified.defaultCall (c : Identified T) : Option (Str × T) :=
  match c.matched with
  | some none => some (c.peerKey, c.now)
  | _ => none

/-- The calls on the default limiter. -/
def defaultCalls (calls : List (Identified T)) : List (Str × T) :=
  calls.filterMap Identified.defaultCall

theorem defaultCall_eq_some {x : Str × T} :
    c.defaultCall = some x ↔ c.matched = some none ∧ (c.peerKey, c.now) = x := by
  unfold Identified.defaultCall
  rcases c.matched with _ | _ | _ <;> simp

theorem defaultCalls_of_default (hm : c.matched = some none) :
    defaultCalls (c :: calls) = (c.peerKey, c.now) :: defaultCalls calls :=
  List.filterMap_cons_some (defaultCall_eq_some.2 ⟨hm, rfl⟩)

theorem defaultCalls_of_ne (hm : c.matched ≠ some none) :
    defaultCalls (c :: calls) = defaultCalls calls :=
  List.filterMap_cons_none (Option.eq_none_iff_forall_ne_some.2 fun _ h =>
    hm (defaultCall_eq_some.1 h).1)

theorem sorted_defaultCalls [LE T] (h : calls.Pairwise fun c c' => c.now ≤ c'.now) :
    (defaultCalls calls).Pairwise fun x x' => x.2 ≤ x'.2 := by
  refine List.Pairwise.filterMap _ (fun c c' hle x hx x' hx' => ?_) h
  rw [← (defaultCall_eq_some.1 hx).2, ← (defaultCall_eq_some.1 hx').2]
  exact hle

end DefaultCalls

section Memory
variable {T : Type} [Clock T] {y x rl : RateLimiter Str T} {h h' : List (Str × T)} {t t' : T}
  {k : Str} {c : Str × T} {calls : List (Str × T)}

/-- After each of the calls at most `max_keys` keys have an allowed hit that is younger than the
window. -/
def RateLimiter.FewKeys (rl : RateLimiter Str T) (calls : List (Str × T)) : Prop :=
  ∀ pre c post, calls = pre ++ c :: post →
    ((((rl.allowed (pre ++ [c])).filter fun c' => c.2 - c'.2 < rl.window).map
      Prod.fst).toFinset.card : ℤ) ≤ rl.maxKeys

/-- The same of the window's hits, after the hits `h`. -/
def RateLimiter.Ahead (rl : RateLimiter Str T) (h calls : List (Str × T)) : Prop :=
  ∀ pre c post, calls = pre ++ c :: post →
    (activeKeys rl.window c.2 (h ++ admitted rl.max rl.window h (pre ++ [c]))).card ≤ rl.maxKeys

theorem RateLimiter.Ahead.cons (ha : rl.Ahead h (c :: calls)) :
    ((activeKeys rl.window c.2 (rl.record h c)).card : ℤ) ≤ rl.maxKeys ∧
      (rl.check c.1 c.2).2.Ahead (rl.record h c) calls := by
  constructor
  · have hfirst := ha [] c calls rfl
    rw [List.nil_append, append_admitted_cons, admitted, List.append_nil] at hfirst
    exact hfirst
  · intro pre c' post he
    have hnext := ha (c :: pre) c' post (by rw [he]; rfl)
    rw [List.cons_append, append_admitted_cons] at hnext
    rw [max_check, window_check, maxKeys_check]
    exact hnext

theorem RateLimiter.FewKeys.ahead {n : ℤ} {W : T} {m : ℤ}
    (hf : (RateLimiter.new n W m : RateLimiter Str T).FewKeys calls) (hn : 1 ≤ n) (hW : 0 < W)
    (hsorted : calls.Pairwise fun c c' => c.2 ≤ c'.2) :
    (RateLimiter.new n W m : RateLimiter Str T).Ahead [] calls :=
  bounded_of_active hn hW hsorted hf

/-- One key is never too many. -/
theorem RateLimiter.ahead_of_key (hm : 1 ≤ rl.maxKeys) (hk : ∀ c ∈ calls, c.1 = k) :
    rl.Ahead [] calls := by
  intro pre c post he
  have hone : ∀ x ∈ [] ++ admitted rl.max rl.window [] (pre ++ [c]), x.1 = k := fun x hx => by
    refine hk x ?_
    rw [he, List.append_cons]
    exact List.mem_append_left _ (admitted_sublist.subset hx)
  exact (Int.ofNat_le.2 (card_activeKeys_le_one hone)).trans hm

/-- The default limiter `y` and a limiter `x` that got the calls on one key alone: both are tied to
the hits that they admitted, and these agree on the key. -/
structure Follows (k : Str) (y x : RateLimiter Str T) (h h' : List (Str × T)) (t : T) : Prop where
  left : y.Tied h t
  right : x.Tied h' t
  max_eq : y.max = x.max
  window_eq : y.window = x.window
  one_le_maxKeys : 1 ≤ x.maxKeys
  times : timesOf k h = timesOf k h'
  only : ∀ e ∈ h', e.1 = k

namespace Follows

variable (hf : Follows k y x h h' t) (ht : t ≤ t') (hmax : 1 ≤ y.max) (hW : 0 < y.window)
include hf ht hmax hW

/-- A call on the key is answered alike by both. -/
theorem check_self (hactive : ((activeKeys y.window t' (y.record h (k, t'))).card : ℤ) ≤ y.maxKeys) :
    (y.check k t').1 = (x.check k t').1 ∧
      Follows k (y.check k t').2 (x.check k t').2 (y.record h (k, t')) (x.record h' (k, t')) t' := by
  have hadmits : admits y.max y.window h (k, t') = admits x.max x.window h' (k, t') := by
    rw [admits, admits, hf.times, hf.max_eq, hf.window_eq]
  have honly : ∀ e ∈ x.record h' (k, t'), e.1 = k := fun e he => by
    unfold RateLimiter.record at he
    split_ifs at he
    · rcases List.mem_append.1 he with he | he
      · exact hf.only e he
      · rw [List.mem_singleton.1 he]
    · exact hf.only e he
  have hleft := (hf.left.check (c := (k, t')) ht hmax hW).2 hactive
  have hright := (hf.right.check (c := (k, t')) ht (hf.max_eq ▸ hmax) (hf.window_eq ▸ hW)).2
    ((Int.ofNat_le.2 (card_activeKeys_le_one honly)).trans hf.one_le_maxKeys)
  refine ⟨RateLimiter.check_fst_congr hf.max_eq hf.window_eq ?_, hleft, hright, ?_, ?_, ?_, ?_, honly⟩
  · have hy := (hf.left.mono ht).young k
    have hx := (hf.right.mono ht).young k
    rw [hf.times, hf.window_eq, ← hx] at hy
    rw [hf.window_eq]
    exact hy
  · rw [RateLimiter.max_check, RateLimiter.max_check, hf.max_eq]
  · rw [RateLimiter.window_check, RateLimiter.window_check, hf.window_eq]
  · rw [RateLimiter.maxKeys_check]
    exact hf.one_le_maxKeys
  · unfold RateLimiter.record
    rw [hadmits]
    split_ifs
    · have happend : ∀ l : List (Str × T), timesOf k (l ++ [(k, t')]) = timesOf k l ++ [t'] :=
        fun l => @timesOf_append_self Str T _ l (k, t')
      rw [happend, happend, hf.times]
    · exact hf.times

/-- A call on another key is the default limiter's alone. -/
theorem check_of_ne {k' : Str} (hk : k' ≠ k)
    (hactive : ((activeKeys y.window t' (y.record h (k', t'))).card : ℤ) ≤ y.maxKeys) :
    Follows k (y.check k' t').2 x (y.record h (k', t')) h' t' := by
  have hleft := (hf.left.check (c := (k', t')) ht hmax hW).2 hactive
  refine ⟨hleft, hf.right.mono ht, ?_, ?_, hf.one_le_maxKeys, ?_, hf.only⟩
  · rw [RateLimiter.max_check, hf.max_eq]
  · rw [RateLimiter.window_check, hf.window_eq]
  · rw [y.timesOf_record_of_ne h hk.symm, hf.times]

end Follows

variable {b : Bucket} {d : ℤ} {calls : List (Identified T)} [OfNat T 60]

/-- A bucket of a name has its own limiter. -/
theorem seen_named (howned : ∀ c ∈ calls, c.Owned d b false) :
    SeenAlone (newRateLimiter : ℤ → RateLimiter Str T) () d b calls := by
  refine seen_enforce (Q := fun y x _ => y = x) (V := fun _ => True) ⟨?_, ?_, ?_, ?_⟩
    (fun _ => trivial) (fun _ _ _ _ => trivial) howned ?_ rfl
  · rintro y x c cs rfl -
    exact ⟨rfl, rfl⟩
  · intro y x c cs _ hfalse
    cases hfalse
  · exact fun l shared x c cs l' k hQ _ _ _ => hQ
  · exact fun y x c cs hQ _ => hQ
  · intro hfalse
    cases hfalse

/-- With a default limit below one the default limiter raises, whatever it is asked. -/
theorem seen_default_of_nonpos (hd : d ≤ 0) (howned : ∀ c ∈ calls, c.Owned d b true)
    (hlimit : b.limit = d) :
    SeenAlone (newRateLimiter : ℤ → RateLimiter Str T) () d b calls := by
  have hraises : ∀ (k : Str) (t : T), alone k ((newRateLimiter d : RateLimiter Str T), ()) t =
      (none, newRateLimiter d, ()) := fun k t => by
    have hcheck := RateLimiter.check_new_of_nonpos (m := defaultMaxKeys) (W := (60 : T)) hd k t
    show (let (answer, rl) := (newRateLimiter d : RateLimiter Str T).check k t; (answer, rl, ())) = _
    rw [newRateLimiter, hcheck]
  refine seen_enforce (Q := fun y x _ => y = (newRateLimiter d, ()) ∧ x = (newRateLimiter d, ()))
    (V := fun _ => True) ⟨?_, ?_, ?_, ?_⟩ (fun _ => trivial) (fun _ _ _ _ => trivial) howned
    (fun _ => hlimit) (by rw [hlimit]; exact ⟨rfl, rfl⟩)
  · rintro y x c cs ⟨rfl, rfl⟩ -
    rw [hraises]
    exact ⟨rfl, rfl, rfl⟩
  · rintro y x c cs ⟨rfl, rfl⟩ - - -
    rw [hraises]
    exact ⟨rfl, rfl⟩
  · exact fun l shared x c cs l' k hQ _ _ _ => hQ
  · exact fun y x c cs hQ _ => hQ

/-- **A bucket of a peer** shares the default limiter, and is answered as if it did not. -/
theorem seen_default (h60 : (0 : T) < 60) (hd : 1 ≤ d) (howned : ∀ c ∈ calls, c.Owned d b true)
    (hlimit : b.limit = d) (hsorted : calls.Pairwise fun c c' => c.now ≤ c'.now)
    (hstart : (newRateLimiter d : RateLimiter Str T).Ahead [] (defaultCalls calls)) :
    SeenAlone (newRateLimiter : ℤ → RateLimiter Str T) () d b calls := by
  refine seen_enforce (V := fun _ => True) (Q := fun y x cs => ∃ h h' t,
      Follows b.key y.1 x.1 h h' t ∧ y.1.max = d ∧ y.1.window = 60 ∧ Due t cs ∧
        y.1.Ahead h (defaultCalls cs))
    ⟨?_, ?_, ?_, ?_⟩ (fun _ => trivial) (fun _ _ _ _ => trivial) howned (fun _ => hlimit) ?_
  · rintro ⟨y, _⟩ ⟨x, _⟩ c cs ⟨h, h', t, hf, hmax, hW, hdue, hahead⟩ hdefault
    obtain ⟨hm, hkey⟩ := hdefault rfl
    rw [defaultCalls_of_default hm, hkey] at hahead
    obtain ⟨hactive, hahead⟩ := hahead.cons
    obtain ⟨hanswer, hf⟩ := hf.check_self hdue.head (hmax ▸ hd) (hW ▸ h60) hactive
    exact ⟨hanswer, _, _, c.now, hf, (y.max_check ..).trans hmax, (y.window_check ..).trans hW,
      hdue.next, hahead⟩
  · rintro ⟨y, _⟩ ⟨x, _⟩ c cs ⟨h, h', t, hf, hmax, hW, hdue, hahead⟩ - hm hkey
    rw [defaultCalls_of_default hm] at hahead
    obtain ⟨hactive, hahead⟩ := hahead.cons
    have hf := hf.check_of_ne hdue.head (hmax ▸ hd) (hW ▸ h60) hkey hactive
    exact ⟨_, _, c.now, hf, (y.max_check ..).trans hmax, (y.window_check ..).trans hW, hdue.next,
      hahead⟩
  · rintro l _ x c cs l' k ⟨h, h', t, hf, hmax, hW, hdue, hahead⟩ hm - -
    rw [defaultCalls_of_ne (hm rfl)] at hahead
    exact ⟨h, h', t, hf, hmax, hW, hdue.tail, hahead⟩
  · rintro y x c cs ⟨h, h', t, hf, hmax, hW, hdue, hahead⟩ hm
    rw [defaultCalls_of_ne (by rw [hm]; exact (Option.some_ne_none _).symm)] at hahead
    exact ⟨h, h', t, hf, hmax, hW, hdue.tail, hahead⟩
  · have : Nonempty T := ⟨0⟩
    obtain ⟨t, hdue⟩ := exists_due hsorted
    have hnew := RateLimiter.tied_new (K := Str) d (60 : T) defaultMaxKeys t
    have hkeys : 1 ≤ defaultMaxKeys := by decide
    rw [hlimit]
    exact ⟨[], [], t, ⟨hnew, hnew, rfl, rfl, hkeys, rfl, fun _ he => absurd he List.not_mem_nil⟩,
      rfl, rfl, hdue, hstart⟩

end Memory

/-! ### In Redis -/

section Redis
variable {T : Type} [Field T] [LinearOrder T] [FloorRing T] [IsStrictOrderedRing T] {b : Bucket}
  {d : ℤ} {dflt : Bool} {calls : List (Identified T)}

/-- **Of one server a bucket sees its own counters only.** -/
theorem seen_redis (howned : ∀ c ∈ calls, c.Owned d b dflt) (hlimit : dflt = true → b.limit = d)
    (hsorted : calls.Pairwise fun c c' => c.now ≤ c'.now) :
    SeenAlone (newRedisRateLimiter : ℤ → RedisRateLimiter T) (fun _ => none) d b calls := by
  have h60 : (0 : T) < 60 := by norm_num
  -- a call on the server, tied to one more hit
  have hcheck : ∀ {rl : RedisRateLimiter T} {c : Counters T} {hist : List (Str × T)} {t now : T}
      (k : Str), rl.window = 60 → c.Tied 60 hist t → t ≤ now →
        (rl.check .ok .ok c k now).1 = rl.answer now (hitsOf 60 k (index 60 now) hist + 1) ∧
          (rl.check .ok .ok c k now).2.Tied 60 (hist ++ [(k, now)]) now := by
    rintro ⟨max, _⟩ c hist t now k rfl htied hnow
    exact htied.check h60 hnow k
  have hwindow : ∀ n, (newRedisRateLimiter n : RedisRateLimiter T).window = 60 := fun _ => rfl
  -- a hit on another key
  have hone : ∀ (hist : List (Str × T)) {k : Str} {now : T}, k ≠ b.key → ∀ j,
      hitsOf 60 b.key j (hist ++ [(k, now)]) = hitsOf 60 b.key j hist := fun hist k now hkey j => by
    rw [Counters.hitsOf_append, if_neg fun h => hkey h.1, Nat.add_zero]
  refine seen_enforce (V := fun rl => rl.window = 60) (Q := fun y x cs =>
      y.1 = newRedisRateLimiter b.limit ∧ x.1 = newRedisRateLimiter b.limit ∧ ∃ hist hist' t,
        Counters.Tied 60 y.2 hist t ∧ Counters.Tied 60 x.2 hist' t ∧
          (∀ j, hitsOf 60 b.key j hist = hitsOf 60 b.key j hist') ∧ Due t cs)
    ⟨?_, ?_, ?_, ?_⟩ hwindow (fun _ _ _ h => h) howned hlimit ?_
  · rintro ⟨y, counters⟩ ⟨x, counters'⟩ c cs ⟨rfl, rfl, hist, hist', t, hy, hx, hhits, hdue⟩ -
    obtain ⟨hanswer, hy⟩ := hcheck b.key (hwindow b.limit) hy hdue.head
    obtain ⟨hanswer', hx⟩ := hcheck b.key (hwindow b.limit) hx hdue.head
    refine ⟨?_, rfl, rfl, _, _, c.now, hy, hx, fun j => ?_, hdue.next⟩
    · rw [hhits, ← hanswer'] at hanswer
      exact congrArg some hanswer
    · rw [Counters.hitsOf_append, Counters.hitsOf_append, hhits]
  · rintro ⟨y, counters⟩ x c cs ⟨rfl, hl', hist, hist', t, hy, hx, hhits, hdue⟩ - - hkey
    obtain ⟨-, hy⟩ := hcheck c.peerKey (hwindow b.limit) hy hdue.head
    exact ⟨rfl, hl', _, _, c.now, hy, hx.mono hdue.head,
      fun j => (hone hist hkey j).trans (hhits j), hdue.next⟩
  · rintro y counters x c cs l' k ⟨rfl, hl', hist, hist', t, hy, hx, hhits, hdue⟩ - hvalid hkey
    obtain ⟨-, hy⟩ := hcheck k hvalid hy hdue.head
    exact ⟨rfl, hl', _, _, c.now, hy, hx.mono hdue.head,
      fun j => (hone hist hkey j).trans (hhits j), hdue.next⟩
  · rintro y x c cs ⟨hl, hl', hist, hist', t, hy, hx, hhits, hdue⟩ -
    exact ⟨hl, hl', hist, hist', t, hy, hx, hhits, hdue.tail⟩
  · obtain ⟨t, hdue⟩ := exists_due hsorted
    exact ⟨rfl, rfl, [], [], t, Counters.tied_empty, Counters.tied_empty, fun _ => rfl, hdue⟩

end Redis

/-! ### Every history of requests -/

section Identify
variable {C T : Type} [LinearOrder C] [Add C] {reg : ClientRegistry C} {reqs : List (Request C T)}
  {c c' : Identified T} {r : ClientRule} {d : ℤ} {b : Bucket}

/-- A request is identified by a registry with the same rules. -/
theorem mem_identify (h : c ∈ outputs identify reg reqs) :
    ∃ req ∈ reqs, ∃ reg' : ClientRegistry C, reg'.rules = reg.rules ∧ (reg'.matchPeer req.lookups req.peer).1 = c.matched ∧
      req.peer = c.peer := by
  induction reqs generalizing reg with
  | nil => exact absurd h List.not_mem_nil
  | cons req reqs ih =>
      rw [outputs_cons] at h
      rcases List.mem_cons.1 h with rfl | h
      · exact ⟨req, List.mem_cons_self .., reg, rfl, rfl, rfl⟩
      · obtain ⟨req', hreq', reg', hrules, hc⟩ := ih h
        exact ⟨req', List.mem_cons_of_mem _ hreq', reg', hrules.trans ClientRegistry.rules_matchPeer, hc⟩

theorem map_now_identify : (outputs identify reg reqs).map Identified.now = reqs.map Request.now := by
  induction reqs generalizing reg with
  | nil => rfl
  | cons req reqs ih =>
      rw [outputs_cons, List.map_cons, List.map_cons, ih]
      rfl

theorem sorted_identify [LE T] (h : reqs.Pairwise fun req req' => req.now ≤ req'.now) :
    (outputs identify reg reqs).Pairwise fun c c' => c.now ≤ c'.now := by
  rw [← List.pairwise_map (R := (· ≤ ·)), map_now_identify, List.pairwise_map]
  exact h

section Rules
variable (hrules : ∀ r ∈ reg.rules, r.network = ipNetwork r.name)
  (hnames : (reg.rules.map ClientRule.name).Nodup)
  (hpeers : ∀ req ∈ reqs, ∃ peer address, req.peer = some peer ∧ ipAddress peer = some address)
include hrules hpeers

/-- **No peer of a request is the name of a rule that is in use.** -/
theorem peerKey_ne_name (hc : c ∈ outputs identify reg reqs) (hc' : c' ∈ outputs identify reg reqs)
    (hnone : c.matched = some none) (hsome : c'.matched = some (some r)) : c.peerKey ≠ r.name := by
  obtain ⟨req, hreq, reg₁, h₁, hm, hp⟩ := mem_identify hc
  obtain ⟨req', -, reg₂, h₂, hm', -⟩ := mem_identify hc'
  obtain ⟨peer, address, hpeer, haddress⟩ := hpeers req hreq
  have hne : peer ≠ [] := by
    rintro rfl
    have hempty : ipAddress [] = none := by decide
    rw [hempty] at haddress
    cases haddress
  have hkey : c.peerKey = peer := by
    rw [Identified.peerKey, ← hp, hpeer]
    exact if_neg hne
  rw [hkey]
  rw [hpeer, hnone] at hm
  rw [hsome] at hm'
  exact ClientRegistry.peer_ne_name (h₁ ▸ hrules) (h₂.trans h₁.symm) haddress hm hm'

include hnames

/-- The requests that are counted under the key of a bucket are the bucket's. -/
theorem owned_identify (hc : c ∈ outputs identify reg reqs) (hb : c.bucket d = some b) :
    ∀ c' ∈ outputs identify reg reqs, c'.Owned d b (c.matched.any Option.isNone) := by
  obtain ⟨rule, hm, rfl⟩ := Option.map_eq_some_iff.1 hb
  intro c' hc' rule' hm' hkey
  rw [hm, Identified.bucket, hm']
  -- the two are counted by the same limiter, or their keys differ
  cases rule with
  | none =>
      cases rule' with
      | none => exact ⟨by rw [Option.map_some, hkey], by simp⟩
      | some r' => exact absurd hkey.symm (peerKey_ne_name hrules hpeers hc hc' hm hm')
  | some r =>
      cases rule' with
      | none => exact absurd hkey (peerKey_ne_name hrules hpeers hc' hc hm' hm)
      | some r' =>
          obtain ⟨_, -, reg₁, h₁, hr, -⟩ := mem_identify hc
          obtain ⟨_, -, reg₂, h₂, hr', -⟩ := mem_identify hc'
          have hmem := h₁ ▸ ClientRegistry.mem_rules_of_matchPeer (hr.trans hm)
          have hmem' := h₂ ▸ ClientRegistry.mem_rules_of_matchPeer (hr'.trans hm')
          obtain rfl := List.inj_on_of_nodup_map hnames hmem' hmem hkey
          exact ⟨rfl, by simp⟩

end Rules
end Identify

section Isolation
variable {C L S T : Type} [LinearOrder C] [Add C] [RateLimiterLike L S T] {factory : ℤ → L}
  {shared : S} {d : ℤ} {reg : ClientRegistry C} {reqs : List (Request C T)}

/-- The requests of a bucket, with the results of `match`. -/
def requestsOf (d : ℤ) (reg : ClientRegistry C) (reqs : List (Request C T)) (b : Bucket) :
    List (Identified T) :=
  (outputs identify reg reqs).filter (·.bucket d = some b)

/-- **Isolation.**  The requests of a bucket are answered as they are without the requests of the
other buckets, and as one limiter of the bucket's limit answers them, whoever the peers are. -/
def Isolated (factory : ℤ → L) (shared : S) (d : ℤ) (reg : ClientRegistry C)
    (reqs : List (Request C T)) : Prop :=
  ∀ b : Bucket,
    (((outputs identify reg reqs).zip
        (outputs enforceRateLimit (reg, Limits.start factory d shared) reqs)).filter
          fun x => x.1.bucket d = some b) =
      (requestsOf d reg reqs b).zip
        (outputs Limits.enforce (Limits.start factory d shared) (requestsOf d reg reqs b)) ∧
    outputs Limits.enforce (Limits.start factory d shared) (requestsOf d reg reqs b) =
      outputs (alone b.key) (factory b.limit, shared)
        ((requestsOf d reg reqs b).map Identified.now)

/-- The requests of a process are those of its registry, and then those of its limiters. -/
theorem outputs_enforceRateLimit (limits : Limits L S) :
    outputs enforceRateLimit (reg, limits) reqs =
      outputs Limits.enforce limits (outputs identify reg reqs) :=
  (outputs_cascade : outputs (cascade identify Limits.enforce) (reg, limits) reqs = _)

theorem sublist_of_calls {b : Bucket} {calls : List (Identified T)}
    (h : calls = outputs identify reg reqs ∨ calls = requestsOf d reg reqs b) :
    calls.Sublist (outputs identify reg reqs) := by
  rcases h with rfl | rfl
  · exact List.Sublist.refl _
  · exact List.filter_sublist

theorem isolated_of_seenAlone
    (hall : ∀ b, ∀ c ∈ outputs identify reg reqs, c.bucket d = some b → ∀ calls,
      calls = outputs identify reg reqs ∨ calls = requestsOf d reg reqs b →
        SeenAlone factory shared d b calls) : Isolated factory shared d reg reqs := by
  intro b
  rw [outputs_enforceRateLimit]
  by_cases hb : ∃ c ∈ outputs identify reg reqs, c.bucket d = some b
  · obtain ⟨c, hc, hb⟩ := hb
    exact seen_eq_seen_filter (hall b c hc hb)
  · have hnone : ∀ c ∈ outputs identify reg reqs, decide (c.bucket d = some b) = false :=
      fun c hc => decide_eq_false fun h => hb ⟨c, hc, h⟩
    have hempty : requestsOf d reg reqs b = [] :=
      List.filter_eq_nil_iff.2 fun c hc => by rw [hnone c hc]; exact Bool.false_ne_true
    rw [hempty]
    exact ⟨seen_eq_nil hnone, rfl⟩

end Isolation

section Deployments
variable {C T : Type} [LinearOrder C] [Add C] {spec : Option Str} {ttl : C} {d : ℤ} {b : Bucket}
  {reqs : List (Request C T)} {c : Identified T} {calls : List (Identified T)}

/-- The default limiter has the default limit. -/
theorem limit_of_default (hb : c.bucket d = some b) (h : c.matched.any Option.isNone = true) :
    b.limit = d := by
  obtain ⟨rule, hm, rfl⟩ := Option.map_eq_some_iff.1 hb
  rw [hm] at h
  obtain rfl := Option.isNone_iff_eq_none.1 h
  rfl

variable (hnames : ((parseClientRules spec).map ClientRule.name).Nodup)
  (hpeers : ∀ req ∈ reqs, ∃ peer address, req.peer = some peer ∧ ipAddress peer = some address)
include hnames hpeers

theorem owned_of_calls (hc : c ∈ outputs identify (registryFromEnv spec ttl) reqs)
    (hb : c.bucket d = some b)
    (hcalls : calls.Sublist (outputs identify (registryFromEnv spec ttl) reqs)) :
    ∀ c' ∈ calls, c'.Owned d b (c.matched.any Option.isNone) := fun c' hc' =>
  owned_identify (fun _ hr => (parseClientRules_spec hr).1) hnames hpeers hc hb c' (hcalls.subset hc')

theorem isolated_memory [Clock T] [OfNat T 60] (h60 : (0 : T) < 60)
    (hsorted : reqs.Pairwise fun req req' => req.now ≤ req'.now)
    (hfew : (newRateLimiter d : RateLimiter Str T).FewKeys
      (defaultCalls (outputs identify (registryFromEnv spec ttl) reqs))) :
    Isolated (newRateLimiter : ℤ → RateLimiter Str T) () d (registryFromEnv spec ttl) reqs := by
  refine isolated_of_seenAlone fun b c hc hb calls hcalls => ?_
  have hsub := sublist_of_calls hcalls
  have howned := owned_of_calls hnames hpeers hc hb hsub
  cases hdflt : c.matched.any Option.isNone with
  | false =>
      rw [hdflt] at howned
      exact seen_named howned
  | true =>
      rw [hdflt] at howned
      have hlimit := limit_of_default hb hdflt
      by_cases hpos : 1 ≤ d
      · refine seen_default h60 hpos howned hlimit ((sorted_identify hsorted).sublist hsub) ?_
        rcases hcalls with rfl | rfl
        · exact hfew.ahead hpos h60 (sorted_defaultCalls (sorted_identify hsorted))
        · -- the requests of one peer
          have hkeys : 1 ≤ defaultMaxKeys := by decide
          refine RateLimiter.ahead_of_key (k := b.key) hkeys fun x hx => ?_
          obtain ⟨c', hc', h⟩ := List.mem_filterMap.1 hx
          obtain ⟨hm, rfl⟩ := defaultCall_eq_some.1 h
          have hb' := of_decide_eq_true (List.mem_filter.1 hc').2
          rw [Identified.bucket, hm] at hb'
          exact congrArg Bucket.key (Option.some.inj hb')
      · exact seen_default_of_nonpos (by omega) howned hlimit

theorem isolated_redis [Field T] [LinearOrder T] [FloorRing T] [IsStrictOrderedRing T]
    (hsorted : reqs.Pairwise fun req req' => req.now ≤ req'.now) :
    Isolated (newRedisRateLimiter : ℤ → RedisRateLimiter T) (fun _ => none) d
      (registryFromEnv spec ttl) reqs := by
  refine isolated_of_seenAlone fun b c hc hb calls hcalls => ?_
  have hsub := sublist_of_calls hcalls
  exact seen_redis (owned_of_calls hnames hpeers hc hb hsub) (limit_of_default hb)
    ((sorted_identify hsorted).sublist hsub)

end Deployments

/-- **Buckets do not interfere**, for rules with pairwise distinct names, requests from addresses
and times that do not decrease, whatever the resolver does: in memory, if no more than `max_keys`
peers that no rule covers are active, and in Redis. -/
theorem buckets_isolated {C : Type} [LinearOrder C] [Add C] (spec : Option Str) (ttl : C) (d : ℤ)
    (hnames : ((parseClientRules spec).map ClientRule.name).Nodup) :
    (∀ {T : Type} [Clock T] [OfNat T 60] (reqs : List (Request C T)), (0 : T) < 60 →
      (∀ req ∈ reqs, ∃ peer address, req.peer = some peer ∧ ipAddress peer = some address) →
      (reqs.Pairwise fun req req' => req.now ≤ req'.now) →
      (newRateLimiter d : RateLimiter Str T).FewKeys
        (defaultCalls (outputs identify (registryFromEnv spec ttl) reqs)) →
        Isolated (newRateLimiter : ℤ → RateLimiter Str T) () d (registryFromEnv spec ttl) reqs) ∧
    ∀ {T : Type} [Field T] [LinearOrder T] [FloorRing T] [IsStrictOrderedRing T]
      (reqs : List (Request C T)),
      (∀ req ∈ reqs, ∃ peer address, req.peer = some peer ∧ ipAddress peer = some address) →
      (reqs.Pairwise fun req req' => req.now ≤ req'.now) →
        Isolated (newRedisRateLimiter : ℤ → RedisRateLimiter T) (fun _ => none) d
          (registryFromEnv spec ttl) reqs := by
  exact ⟨fun reqs h60 hpeers hsorted hfew => isolated_memory hnames hpeers h60 hsorted hfew,
    fun reqs hpeers hsorted => isolated_redis hnames hpeers hsorted⟩

/-- The resolver knows two addresses of one name. -/
def sampleLookups (_ : ℕ) : Lookup ℕ :=
  ⟨0, fun name => if name = "frontend".toList then
    .addresses ["172.18.0.5".toList, "172.18.0.6".toList] else .osError⟩

/-- Two replicas of one service, and between them a peer that no rule covers. -/
def sampleRequests : List (Request ℕ ℚ) :=
  [⟨some "172.18.0.5".toList, 0, sampleLookups⟩, ⟨some "9.9.9.9".toList, 1, sampleLookups⟩,
    ⟨some "::ffff:172.18.0.6".toList, 2, sampleLookups⟩]

/-- One request a minute for the name: the second replica is denied, in both deployments. -/
theorem buckets_isolated_replicas :
    outputs Limits.enforce (Limits.start (newRateLimiter : ℤ → RateLimiter Str ℚ) 20 ())
        (requestsOf 20 (registryFromEnv (some "frontend=1".toList) 30) sampleRequests
          ⟨"frontend".toList, 1⟩) = [some (true, 0), some (false, 59)] ∧
      outputs Limits.enforce
        (Limits.start (newRedisRateLimiter : ℤ → RedisRateLimiter ℚ) 20 fun _ => none)
        (requestsOf 20 (registryFromEnv (some "frontend=1".toList) 30) sampleRequests
          ⟨"frontend".toList, 1⟩) = [some (true, 0), some (false, 59)] := by
  have hpeers : ∀ req ∈ sampleRequests,
      ∃ peer address, req.peer = some peer ∧ ipAddress peer = some address := by
    have hsome : ∀ req ∈ sampleRequests, (req.peer.bind ipAddress).isSome := by decide +kernel
    intro req hreq
    obtain ⟨address, haddress⟩ := Option.isSome_iff_exists.1 (hsome req hreq)
    obtain ⟨peer, hpeer, haddress⟩ := Option.bind_eq_some_iff.1 haddress
    exact ⟨peer, address, hpeer, haddress⟩
  have hsorted : sampleRequests.Pairwise fun req req' => req.now ≤ req'.now := by decide +kernel
  have htimes : (requestsOf 20 (registryFromEnv (some "frontend=1".toList) 30) sampleRequests
      ⟨"frontend".toList, 1⟩).map Identified.now = [0, 2] := by decide +kernel
  have hdefault : defaultCalls (outputs identify (registryFromEnv (some "frontend=1".toList) 30)
      sampleRequests) = [("9.9.9.9".toList, 1)] := by decide +kernel
  have hfew : (newRateLimiter 20 : RateLimiter Str ℚ).FewKeys (defaultCalls
      (outputs identify (registryFromEnv (some "frontend=1".toList) 30) sampleRequests)) := by
    rw [hdefault]
    intro pre c post he
    rcases pre with _ | ⟨a, pre⟩
    · obtain ⟨rfl, -⟩ := List.cons.inj he
      decide +kernel
    · simp at he
  obtain ⟨hmemory, hredis⟩ := buckets_isolated (some "frontend=1".toList) 30 20 (by decide +kernel)
  constructor
  · rw [(hmemory sampleRequests (by norm_num) hpeers hsorted hfew _).2, htimes]
    decide +kernel
  · rw [(hredis sampleRequests hpeers hsorted _).2, htimes]
    decide +kernel

end PoetryGenerator
