/-
# The cap on concurrent generations (`api/app/main.py`, `api/app/deps.py`)

`POST /api/generate` runs in the threads of a pool.  Before its handler a request
passes `enforce_rate_limit`, `require_api_key` and `enforce_generation_limit`, in
this order; the last takes a slot of the semaphore that
`get_generation_semaphore` returns and gives it back when the request is over,
however it ends.

The semaphore is made on the first call and kept by `lru_cache`, which has no
lock around the call: a thread that finds the cache empty makes its own
semaphore, and the first one stored is what later calls get.  So each semaphore
bounds the requests it admitted (`slots_of_run`), and there is one semaphore when
one request found the cache empty (`cap_of_run`).
-/

import PoetryGenerator.ImageModels
import PoetryGenerator.Lib.RunLaws
import PoetryGenerator.Lib.Semaphore

namespace PoetryGenerator

/-- `get_api_auth_token`. -/
def getApiAuthToken (env : Env) : Option Str := (env "API_AUTH_TOKEN".toList).filter (· ≠ [])

/-- `require_api_key`: whether the request goes on; else its status is 401. -/
def requireApiKey (token xApiKey : Option Str) : Bool :=
  match token with
  | none => true
  | some token => token = [] ∨ xApiKey.getD [] = token

/-- `threading.BoundedSemaphore(int(os.environ.get("GENERATE_MAX_CONCURRENCY", "4")))`; nothing
is a `ValueError`, of `int` or for a negative value. -/
def newSemaphore (env : Env) : Option BoundedSemaphore :=
  match intOfText ((env "GENERATE_MAX_CONCURRENCY".toList).getD "4".toList) with
  | some n => if n < 0 then none else some (.new n.toNat)
  | none => none

namespace Slots

/-- Where a request is, between two operations. -/
inductive RequestPc
  /-- Before the check of `enforce_rate_limit`. -/
  | rateLimit
  /-- Before `require_api_key`. -/
  | apiKey
  /-- `get_generation_semaphore`, before the cache is read. -/
  | lookup
  /-- The cache was empty. -/
  | create
  /-- Before its semaphore, with this index, is stored in the cache. -/
  | store (k : ℕ)
  /-- `enforce_generation_limit`, before `semaphore.acquire`. -/
  | acquire (k : ℕ)
  /-- Past the dependency: the body and the image model are still to be validated. -/
  | handler (k : ℕ)
  /-- In `generator.generate`, `persist_poem` or the pushes. -/
  | generating (k : ℕ)
  /-- Before `semaphore.release`, with the status of the response. -/
  | release (k : ℕ) (status : ℕ)
  /-- Over. -/
  | ended (status : ℕ)
  /-- `semaphore.release` raised. -/
  | overReleased
deriving DecidableEq

/-- The state of an API process. -/
structure State where
  /-- The index of the semaphore that `lru_cache` keeps. -/
  cache : Option ℕ
  /-- The semaphores made so far. -/
  semaphores : List BoundedSemaphore
  requests : List RequestPc

/-- No request yet. -/
def init : State := ⟨none, [], []⟩

/-- A step of the request at a position, with what decides it. -/
inductive Label
  /-- A request arrives. -/
  | arrive
  /-- What the rate limiter answers. -/
  | rateLimit (i : ℕ) (allowed : Bool)
  /-- The `X-API-Key` header. -/
  | apiKey (i : ℕ) (header : Option Str)
  /-- A step of `get_generation_semaphore`. -/
  | semaphore (i : ℕ)
  | acquire (i : ℕ)
  /-- The body and the model are valid; the generation starts. -/
  | start (i : ℕ)
  /-- The handler, or the validation before it, ends with a status. -/
  | finish (i : ℕ) (status : ℕ)
  | release (i : ℕ)

/-- The state after a step of the request at `i`. -/
def State.next (s : State) (i : ℕ) (pc : RequestPc) : State :=
  { s with requests := s.requests.set i pc }

/-- A step of `get_generation_semaphore`: the cache is read, a semaphore is made, and stored
unless another one was meanwhile. -/
def semaphoreStep (env : Env) (s : State) (i : ℕ) : RequestPc → Option State
  | .lookup =>
    match s.cache with
    | some k => some (s.next i (.acquire k))
    | none => some (s.next i .create)
  | .create =>
    match newSemaphore env with
    | none => some (s.next i (.ended 500))
    | some sem =>
      some { s.next i (.store s.semaphores.length) with semaphores := s.semaphores ++ [sem] }
  | .store k => some { s.next i (.acquire k) with cache := s.cache.or (some k) }
  | _ => none

/-- A step of a request. -/
def requestStep (env : Env) (s : State) (i : ℕ) : RequestPc → Label → Option State
  | .rateLimit, .rateLimit _ allowed => some (s.next i (if allowed then .apiKey else .ended 429))
  | .apiKey, .apiKey _ header =>
    some (s.next i (if requireApiKey (getApiAuthToken env) header then .lookup else .ended 401))
  | pc, .semaphore _ => semaphoreStep env s i pc
  | .acquire k, .acquire _ =>
    (s.semaphores[k]?).map fun sem =>
      match sem.acquire with
      | none => s.next i (.ended 503)
      | some sem => { s.next i (.handler k) with semaphores := s.semaphores.set k sem }
  | .handler k, .start _ => some (s.next i (.generating k))
  | .handler k, .finish _ status => some (s.next i (.release k status))
  | .generating k, .finish _ status => some (s.next i (.release k status))
  | .release k status, .release _ =>
    (s.semaphores[k]?).map fun sem =>
      match sem.release with
      | none => s.next i .overReleased
      | some sem => { s.next i (.ended status) with semaphores := s.semaphores.set k sem }
  | _, _ => none

/-- The request a label is about. -/
def Label.request : Label → Option ℕ
  | arrive => none
  | rateLimit i _ | apiKey i _ | semaphore i | acquire i | start i | finish i _ | release i => some i

/-- The step of a label, where it is enabled. -/
def step (env : Env) (s : State) (l : Label) : Option State :=
  match l.request with
  | none => some { s with requests := s.requests ++ [.rateLimit] }
  | some i => (s.requests[i]?).bind fun pc => requestStep env s i pc l

/-- The request holds a slot of the semaphore. -/
def RequestPc.holds (k : ℕ) : RequestPc → Bool
  | handler k' | generating k' | release k' _ => k' = k
  | _ => false

/-- The request is in the generator. -/
def RequestPc.isGenerating : RequestPc → Bool
  | generating _ => true
  | _ => false

/-- The request found the cache empty: it makes a semaphore. -/
def cacheMiss (s : State) (l : Label) (_ : State) : Bool :=
  match l.request with
  | some i => s.requests[i]? = some .lookup ∧ s.cache = none
  | none => false

/-! ### What one step can do -/

/-- The semaphore the request was given. -/
def RequestPc.index : RequestPc → Option ℕ
  | store k | acquire k | handler k | generating k | release k _ => some k
  | _ => none

/-- The steps of a request: a change of its place that takes and returns no slot, and the
operations of the semaphores. -/
inductive Moves (env : Env) (s : State) (l : Label) : State → Prop
  | arrive (hl : l = .arrive) : Moves env s l { s with requests := s.requests ++ [.rateLimit] }
  | next {i pc pc'} (hl : l.request = some i) (hi : s.requests[i]? = some pc)
      (hh : ∀ k, pc'.holds k = pc.holds k)
      (hx : ∀ k, pc'.index = some k → pc.index = some k ∨ s.cache = some k)
      (ho : pc' ≠ .overReleased) (hc : pc' ≠ .create) : Moves env s l (s.next i pc')
  | missed {i} (hl : l.request = some i) (hi : s.requests[i]? = some .lookup)
      (hc : s.cache = none) : Moves env s l (s.next i .create)
  | made {i sem} (hl : l.request = some i) (hi : s.requests[i]? = some .create)
      (hs : newSemaphore env = some sem) :
      Moves env s l
        { s.next i (.store s.semaphores.length) with semaphores := s.semaphores ++ [sem] }
  | stored {i k} (hl : l.request = some i) (hi : s.requests[i]? = some (.store k)) :
      Moves env s l { s.next i (.acquire k) with cache := s.cache.or (some k) }
  | acquired {i k sem sem'} (hl : l.request = some i) (hi : s.requests[i]? = some (.acquire k))
      (hk : s.semaphores[k]? = some sem) (hs : sem.acquire = some sem') :
      Moves env s l { s.next i (.handler k) with semaphores := s.semaphores.set k sem' }
  | released {i k status sem sem'} (hl : l.request = some i)
      (hi : s.requests[i]? = some (.release k status)) (hk : s.semaphores[k]? = some sem)
      (hs : sem.release = some sem') :
      Moves env s l { s.next i (.ended status) with semaphores := s.semaphores.set k sem' }
  | overReleased {i k status sem} (hl : l.request = some i)
      (hi : s.requests[i]? = some (.release k status)) (hk : s.semaphores[k]? = some sem)
      (hs : sem.release = none) : Moves env s l (s.next i .overReleased)

variable {env : Env} {s s' : State} {l : Label}

/-- **Every step is one of the rules.** -/
theorem moves_of_step (h : step env s l = some s') : Moves env s l s' := by
  unfold step at h
  split at h
  · rename_i hl
    obtain rfl := Option.some.inj h
    refine .arrive ?_
    cases l <;> first | rfl | cases hl
  · rename_i i hl
    obtain ⟨pc, hi, h⟩ := Option.bind_eq_some_iff.1 h
    unfold requestStep at h
    split at h
    · obtain rfl := Option.some.inj h
      refine .next hl hi ?_ ?_ ?_ ?_ <;> split_ifs <;> simp [RequestPc.holds, RequestPc.index]
    · obtain rfl := Option.some.inj h
      refine .next hl hi ?_ ?_ ?_ ?_ <;> split_ifs <;> simp [RequestPc.holds, RequestPc.index]
    · unfold semaphoreStep at h
      split at h
      · split at h <;> obtain rfl := Option.some.inj h
        · refine .next hl hi (fun k => rfl) (fun k hk => .inr ?_) nofun nofun
          rwa [← Option.some.inj hk]
        · exact .missed hl hi ‹_›
      · split at h <;> obtain rfl := Option.some.inj h
        · exact .next hl hi (fun k => rfl) nofun nofun nofun
        · exact .made hl hi ‹_›
      · obtain rfl := Option.some.inj h
        exact .stored hl hi
      · cases h
    · obtain ⟨sem, hk, rfl⟩ := Option.map_eq_some_iff.1 h
      split
      · exact .next hl hi (fun k => rfl) nofun nofun nofun
      · exact .acquired hl hi hk ‹_›
    · obtain rfl := Option.some.inj h
      exact .next hl hi (fun k => rfl) (fun k hk => .inl hk) nofun nofun
    · obtain rfl := Option.some.inj h
      exact .next hl hi (fun k => rfl) (fun k hk => .inl hk) nofun nofun
    · obtain rfl := Option.some.inj h
      exact .next hl hi (fun k => rfl) (fun k hk => .inl hk) nofun nofun
    · obtain ⟨sem, hk, rfl⟩ := Option.map_eq_some_iff.1 h
      split
      · exact .overReleased hl hi hk ‹_›
      · exact .released hl hi hk ‹_›
    · cases h

/-! ### The invariant -/

/-- The request was given one of `n` semaphores, if any, and has not released too much. -/
def RequestPc.Ok (n : ℕ) (pc : RequestPc) : Prop :=
  pc ≠ .overReleased ∧ ∀ k, pc.index = some k → k < n

/-- What holds in every state: each semaphore is made as the others, and those of its slots that
are out are held by the requests past `acquire` and not yet past `release`. -/
structure State.Ok (env : Env) (s : State) : Prop where
  semaphores : ∀ (k : ℕ) (sem : BoundedSemaphore), s.semaphores[k]? = some sem →
    newSemaphore env = some (.new sem.initial) ∧ sem.Holds (RequestPc.holds k) s.requests
  requests : ∀ pc ∈ s.requests, pc.Ok s.semaphores.length
  cache : ∀ k, s.cache = some k → k < s.semaphores.length

theorem State.ok_init : init.Ok env where
  semaphores k sem h := by simp [init] at h
  requests pc h := by simp [init] at h
  cache k h := by simp [init] at h

theorem newSemaphore_eq {sem : BoundedSemaphore} (h : newSemaphore env = some sem) :
    newSemaphore env = some (.new sem.initial) ∧ sem.value = sem.initial := by
  unfold newSemaphore at h ⊢
  split at h
  · split_ifs at h ⊢
    obtain rfl := Option.some.inj h
    exact ⟨rfl, rfl⟩
  · cases h

namespace State.Ok

variable {i k : ℕ} {pc pc' : RequestPc} {sem sem' : BoundedSemaphore}

theorem next (hs : s.Ok env) {n : ℕ} (hn : s.semaphores.length ≤ n) (hpc : pc'.Ok n) :
    ∀ pc ∈ (s.next i pc').requests, pc.Ok n := by
  intro pc hmem
  rcases List.mem_or_eq_of_mem_set hmem with hold | rfl
  · exact ⟨(hs.requests pc hold).1, fun k hk => ((hs.requests pc hold).2 k hk).trans_le hn⟩
  · exact hpc

/-- No request holds a slot of a semaphore that is not there. -/
theorem countP_eq_zero (hs : s.Ok env) (hk : s.semaphores.length ≤ k) :
    s.requests.countP (RequestPc.holds k) = 0 := by
  refine List.countP_eq_zero.2 fun pc hpc hholds => ?_
  have hindex : pc.index = some k := by
    cases pc <;> simp_all [RequestPc.holds, RequestPc.index]
  exact absurd ((hs.requests pc hpc).2 k hindex) (Nat.not_lt.2 hk)

/-- One request changed, and with it the semaphore whose slot it took or returned. -/
theorem update (hs : s.Ok env) (hi : s.requests[i]? = some pc) (hk : s.semaphores[k]? = some sem)
    (hinit : sem'.initial = sem.initial)
    (hsem : sem'.Holds (RequestPc.holds k) (s.requests.set i pc'))
    (hother : ∀ k', k' ≠ k → pc'.holds k' = pc.holds k') (hpc : pc'.Ok s.semaphores.length) :
    State.Ok env { s.next i pc' with semaphores := s.semaphores.set k sem' } where
  semaphores k' x hx := by
    by_cases he : k = k'
    · subst he
      have hlt := (List.getElem?_eq_some_iff.1 hk).1
      rw [List.getElem?_set_self hlt] at hx
      obtain rfl := Option.some.inj hx
      exact ⟨hinit ▸ (hs.semaphores k sem hk).1, hsem⟩
    · rw [List.getElem?_set_ne he] at hx
      obtain ⟨hmade, hholds⟩ := hs.semaphores k' x hx
      exact ⟨hmade, hholds.set hi (hother k' (Ne.symm he))⟩
  requests := by
    rw [List.length_set]
    exact hs.next le_rfl hpc
  cache j hj := by
    rw [List.length_set]
    exact hs.cache j hj

end State.Ok

/-- **Step lemma.** -/
theorem Moves.ok (h : Moves env s l s') (hs : s.Ok env) : s'.Ok env := by
  cases h with
  | arrive =>
      refine ⟨fun k sem hk => ⟨(hs.semaphores k sem hk).1, ?_⟩, fun pc hpc => ?_, hs.cache⟩
      · have hh := (hs.semaphores k sem hk).2
        unfold BoundedSemaphore.Holds at hh ⊢
        rw [List.countP_append]
        exact hh
      · rcases List.mem_append.1 hpc with hpc | hpc
        · exact hs.requests pc hpc
        · rw [List.mem_singleton.1 hpc]
          exact ⟨nofun, nofun⟩
  | @next i pc pc' hl hi hh hx ho hc =>
      refine ⟨fun k sem hk => ?_, hs.next le_rfl ⟨ho, fun k hk => ?_⟩, hs.cache⟩
      · exact ⟨(hs.semaphores k sem hk).1, (hs.semaphores k sem hk).2.set hi (hh k)⟩
      · rcases hx k hk with hold | hcache
        · exact (hs.requests pc (List.mem_of_getElem? hi)).2 k hold
        · exact hs.cache k hcache
  | missed hl hi hc =>
      refine ⟨fun k sem hk => ?_, hs.next le_rfl ⟨nofun, nofun⟩, hs.cache⟩
      exact ⟨(hs.semaphores k sem hk).1, (hs.semaphores k sem hk).2.set hi rfl⟩
  | @made i sem hl hi hnew =>
      obtain ⟨hmade, hfull⟩ := newSemaphore_eq hnew
      have hlen : (s.semaphores ++ [sem]).length = s.semaphores.length + 1 := List.length_append
      refine ⟨fun k sem' hk => ?_, ?_, fun k hk => ?_⟩
      · rw [List.getElem?_append] at hk
        split_ifs at hk with hlt
        · exact ⟨(hs.semaphores k sem' hk).1, (hs.semaphores k sem' hk).2.set hi rfl⟩
        · rw [List.getElem?_singleton] at hk
          split_ifs at hk
          obtain rfl := Option.some.inj hk
          refine ⟨hmade, ?_⟩
          have hzero := hs.countP_eq_zero (Nat.not_lt.1 hlt)
          have hset : (s.requests.set i (.store s.semaphores.length)).countP (RequestPc.holds k) = 0 :=
            (BoundedSemaphore.countP_set_of_eq hi
              (show (RequestPc.store _).holds k = RequestPc.create.holds k from rfl)).trans hzero
          exact (congrArg (sem.value + ·) hset).trans hfull
      · rw [hlen]
        refine hs.next (Nat.le_succ _) ⟨nofun, fun k hk => ?_⟩
        obtain rfl := Option.some.inj hk
        exact Nat.lt_succ_self _
      · rw [hlen]
        exact (hs.cache k hk).trans (Nat.lt_succ_self _)
  | @stored i k hl hi =>
      have hk := (hs.requests _ (List.mem_of_getElem? hi)).2 k rfl
      refine ⟨fun j sem hj => ?_, hs.next le_rfl ⟨nofun, fun j hj => ?_⟩, fun j hj => ?_⟩
      · exact ⟨(hs.semaphores j sem hj).1, (hs.semaphores j sem hj).2.set hi rfl⟩
      · rwa [← Option.some.inj hj]
      · cases hc : s.cache with
        | none =>
            rw [hc, Option.none_or] at hj
            rwa [← Option.some.inj hj]
        | some m =>
            rw [hc, Option.some_or] at hj
            exact Option.some.inj hj ▸ hs.cache m hc
  | @acquired i k sem sem' hl hi hk hacq =>
      refine hs.update hi hk (BoundedSemaphore.acquire_spec hacq).1
        ((hs.semaphores k sem hk).2.acquire hacq hi rfl (decide_eq_true rfl)) (fun k' hne => ?_) ?_
      · exact decide_eq_false (Ne.symm hne)
      · exact ⟨nofun, fun j hj => (hs.requests _ (List.mem_of_getElem? hi)).2 j hj⟩
  | @released i k status sem sem' hl hi hk hrel =>
      refine hs.update hi hk (BoundedSemaphore.release_spec hrel).1
        ((hs.semaphores k sem hk).2.release hrel hi (decide_eq_true rfl) rfl) (fun k' hne => ?_) ?_
      · exact (decide_eq_false (Ne.symm hne)).symm
      · exact ⟨nofun, nofun⟩
  | @overReleased i k status sem hl hi hk hrel =>
      exact absurd hrel ((hs.semaphores k sem hk).2.release_ne_none hi (decide_eq_true rfl))

/-! ### How many semaphores there are -/

/-- The request is about to make a semaphore. -/
def RequestPc.isCreate : RequestPc → Bool
  | create => true
  | _ => false

/-- **Only a request that found the cache empty makes a semaphore.** -/
theorem Moves.semaphores_le (h : Moves env s l s') {n : ℕ}
    (hn : s.semaphores.length + s.requests.countP RequestPc.isCreate ≤ n) :
    s'.semaphores.length + s'.requests.countP RequestPc.isCreate ≤ n + (cacheMiss s l s').toNat := by
  have hset : ∀ {i : ℕ} {pc pc' : RequestPc}, s.requests[i]? = some pc → pc'.isCreate = false →
      s.semaphores.length + (s.requests.set i pc').countP RequestPc.isCreate ≤
        n + (cacheMiss s l s').toNat := by
    intro i pc pc' hi hpc'
    have hle : (s.requests.set i pc').countP RequestPc.isCreate ≤
        s.requests.countP RequestPc.isCreate := by
      cases hpc : pc.isCreate with
      | false => exact (BoundedSemaphore.countP_set_of_eq hi (hpc'.trans hpc.symm)).le
      | true => exact Nat.le_of_succ_le (BoundedSemaphore.countP_set_of_loss hi hpc hpc').le
    omega
  cases h with
  | arrive =>
      have hcount : (s.requests ++ [RequestPc.rateLimit]).countP RequestPc.isCreate =
          s.requests.countP RequestPc.isCreate := List.countP_append
      exact (hcount ▸ hn).trans (Nat.le_add_right _ _)
  | @next i pc pc' hl hi hh hx ho hc =>
      exact hset hi (by cases pc' <;> first | rfl | exact absurd rfl hc)
  | @missed i hl hi hc =>
      have hmiss : cacheMiss s l (s.next i .create) = true := by
        simp only [cacheMiss, hl, hi, hc, decide_true, and_self]
      have hcount : (s.next i .create).requests.countP RequestPc.isCreate =
          s.requests.countP RequestPc.isCreate + 1 :=
        BoundedSemaphore.countP_set_of_gain hi rfl rfl
      rw [hmiss, hcount]
      exact Nat.succ_le_succ hn
  | @made i sem hl hi hs =>
      have hcount : (s.requests.set i (.store s.semaphores.length)).countP RequestPc.isCreate + 1 =
          s.requests.countP RequestPc.isCreate :=
        BoundedSemaphore.countP_set_of_loss hi rfl rfl
      have hlen : (s.semaphores ++ [sem]).length = s.semaphores.length + 1 := List.length_append
      refine le_trans ?_ (Nat.le_add_right _ _)
      simp only [State.next, hlen]
      omega
  | stored hl hi | overReleased hl hi => exact hset hi rfl
  | acquired hl hi | released hl hi =>
      rw [List.length_set]
      exact hset hi rfl

/-- **Run lemmas.** -/
theorem run_ok {ls : List Label} (hr : Runs.run (step env) init ls = some s) : s.Ok env :=
  Runs.run_invariant (P := fun _ _ => True) (fun _ _ _ hs _ h => (moves_of_step h).ok hs)
    State.ok_init (Runs.along_of_forall fun _ _ _ => trivial) hr

theorem semaphores_le_of_run {ls : List Label} (hr : Runs.run (step env) init ls = some s) :
    s.semaphores.length ≤ Runs.countRun (step env) cacheMiss init ls := by
  have h := Runs.countRun_invariant (p := cacheMiss) (P := fun _ _ => True)
    (J := fun n s => s.semaphores.length + s.requests.countP RequestPc.isCreate ≤ n)
    (fun _ _ _ _ hn _ h => (moves_of_step h).semaphores_le hn) le_rfl
    (Runs.along_of_forall fun _ _ _ => trivial) hr
  exact (Nat.le_add_right _ _).trans h

/-- `GENERATE_MAX_CONCURRENCY`, where it makes a semaphore. -/
def capacity (env : Env) : ℕ := ((newSemaphore env).map BoundedSemaphore.initial).getD 0

/-- The requests in the generator are among the holders of the semaphores. -/
theorem State.Ok.exists_holds (hs : s.Ok env) :
    ∀ pc ∈ s.requests, pc.isGenerating = true → ∃ k < s.semaphores.length, pc.holds k = true := by
  intro pc hpc hgen
  cases pc with
  | generating k => exact ⟨k, (hs.requests _ hpc).2 k rfl, decide_eq_true rfl⟩
  | _ => cases hgen

/-- A semaphore has the capacity, and those who hold its slots are what is missing of it. -/
theorem State.Ok.capacity (hs : s.Ok env) {k : ℕ} {sem : BoundedSemaphore}
    (hk : s.semaphores[k]? = some sem) : sem.initial = capacity env ∧
      sem.value + s.requests.countP (RequestPc.holds k) = Slots.capacity env := by
  obtain ⟨hmade, hholds⟩ := hs.semaphores k sem hk
  have hcap : Slots.capacity env = sem.initial := by
    rw [Slots.capacity, hmade]
    rfl
  exact ⟨hcap.symm, hholds.trans hcap.symm⟩

/-- **The cap, in every run.**  Every semaphore has its free slots and its holders, together
the configured number; `release` never raises; the generations in flight are at most that number
for each request that found the cache empty; and when all requests are over every slot is free. -/
theorem slots_of_run {ls : List Label} (hr : Runs.run (step env) init ls = some s) :
    (∀ (k : ℕ) (sem : BoundedSemaphore), s.semaphores[k]? = some sem → sem.initial = capacity env ∧
        sem.value + s.requests.countP (RequestPc.holds k) = capacity env) ∧
      .overReleased ∉ s.requests ∧
      s.requests.countP RequestPc.isGenerating ≤
        Runs.countRun (step env) cacheMiss init ls * capacity env ∧
      ((∀ pc ∈ s.requests, ∃ status, pc = .ended status) →
        ∀ sem ∈ s.semaphores, sem.value = capacity env) := by
  have hs := run_ok hr
  have hlen := semaphores_le_of_run hr
  refine ⟨fun k sem hk => hs.capacity hk, fun hover => (hs.requests _ hover).1 rfl, ?_, ?_⟩
  · refine (BoundedSemaphore.countP_le_mul hs.exists_holds fun k hk => ?_).trans
      (Nat.mul_le_mul_right _ hlen)
    have h := (hs.capacity (List.getElem?_eq_getElem hk)).2
    omega
  · intro hall sem hsem
    obtain ⟨k, hk⟩ := List.mem_iff_getElem?.1 hsem
    have hzero : s.requests.countP (RequestPc.holds k) = 0 := by
      refine List.countP_eq_zero.2 fun pc hpc hholds => ?_
      obtain ⟨status, rfl⟩ := hall pc hpc
      cases hholds
    rw [← (hs.capacity hk).2, hzero, Nat.add_zero]

/-- One slot, and no API key. -/
def sampleEnv : Env := fun key => if key = "GENERATE_MAX_CONCURRENCY".toList then some ['1'] else none

/-- A request arrives and passes the rate limit and the key. -/
def admitted (i : ℕ) : List Label := [.arrive, .rateLimit i true, .apiKey i none]

/-- A generation that is over: the slot is free again. -/
theorem slots_returned : ∃ s, Runs.run (step sampleEnv) init (admitted 0 ++
      [.semaphore 0, .semaphore 0, .semaphore 0, .acquire 0, .start 0, .finish 0 502,
        .release 0]) = some s ∧
    s.requests = [.ended 502] ∧ ∀ sem ∈ s.semaphores, sem.value = capacity sampleEnv := by
  have hrun : ∃ s, Runs.run (step sampleEnv) init (admitted 0 ++
      [.semaphore 0, .semaphore 0, .semaphore 0, .acquire 0, .start 0, .finish 0 502,
        .release 0]) = some s ∧ s.requests = [.ended 502] := ⟨_, rfl, rfl⟩
  obtain ⟨s, hr, hreq⟩ := hrun
  refine ⟨s, hr, hreq, (slots_of_run hr).2.2.2 fun pc hpc => ⟨502, ?_⟩⟩
  rw [hreq] at hpc
  exact List.mem_singleton.1 hpc

/-- Two requests find the cache empty: with one slot there are two generations in flight. -/
example : ∃ s, Runs.run (step sampleEnv) init (admitted 0 ++ admitted 1 ++
    [.semaphore 0, .semaphore 1, .semaphore 0, .semaphore 1, .semaphore 0, .semaphore 1,
      .acquire 0, .acquire 1, .start 0, .start 1]) = some s ∧
    capacity sampleEnv = 1 ∧ s.requests.countP RequestPc.isGenerating = 2 :=
  ⟨_, rfl, by decide, by decide⟩

/-- The request holds a slot. -/
def RequestPc.inside : RequestPc → Bool
  | handler _ | generating _ | release .. => true
  | _ => false

/-- With one semaphore at most, its holders are all requests that hold a slot. -/
theorem State.Ok.countP_inside (hs : s.Ok env) (hlen : s.semaphores.length ≤ 1) :
    s.requests.countP RequestPc.inside = s.requests.countP (RequestPc.holds 0) := by
  refine List.countP_congr fun pc hpc => ?_
  have hindex := (hs.requests pc hpc).2
  cases pc with
  | handler k | generating k | release k status =>
      have hk := hindex k rfl
      have he : k = 0 := by omega
      simp [RequestPc.inside, RequestPc.holds, he]
  | _ => simp [RequestPc.inside, RequestPc.holds]

/-- **One semaphore, one cap.**  In every run in which at most one request found the cache
empty, no more requests than configured are past `acquire` and not over, and the next one to
`acquire` is turned away with 503 exactly when they are that many. -/
theorem cap_of_run {ls : List Label} (hr : Runs.run (step env) init ls = some s)
    (hmiss : Runs.countRun (step env) cacheMiss init ls ≤ 1) :
    s.requests.countP RequestPc.inside ≤ capacity env ∧
      ∀ i k, s.requests[i]? = some (.acquire k) → ∃ s', step env s (.acquire i) = some s' ∧
        s'.requests[i]? = some
          (if s.requests.countP RequestPc.inside = capacity env then .ended 503 else .handler k) := by
  have hs := run_ok hr
  have hlen := (semaphores_le_of_run hr).trans hmiss
  rw [hs.countP_inside hlen]
  refine ⟨?_, fun i k hi => ?_⟩
  · by_cases hzero : 0 < s.semaphores.length
    · have := (hs.capacity (List.getElem?_eq_getElem hzero)).2
      omega
    · rw [hs.countP_eq_zero (Nat.not_lt.1 hzero)]
      exact Nat.zero_le _
  · have hk := (hs.requests _ (List.mem_of_getElem? hi)).2 k rfl
    obtain rfl : k = 0 := by omega
    have hsem := List.getElem?_eq_getElem hk
    have hiff := (hs.semaphores 0 _ hsem).2.acquire_eq_none_iff
    rw [(hs.capacity hsem).1] at hiff
    have hlt := (List.getElem?_eq_some_iff.1 hi).1
    simp only [step, Label.request, hi, Option.bind_some, requestStep, hsem, Option.map_some]
    refine ⟨_, rfl, ?_⟩
    cases hacq : s.semaphores[0].acquire with
    | none =>
        rw [if_pos (hiff.1 hacq)]
        exact List.getElem?_set_self hlt
    | some sem =>
        rw [if_neg fun h => by rw [hiff.2 h] at hacq; cases hacq]
        exact List.getElem?_set_self hlt

/-- One slot: while the first request generates, the second is turned away. -/
theorem cap_second_refused : ∃ s s', Runs.run (step sampleEnv) init (admitted 0 ++
      [.semaphore 0, .semaphore 0, .semaphore 0, .acquire 0, .start 0] ++ admitted 1 ++
      [.semaphore 1]) = some s ∧
    step sampleEnv s (.acquire 1) = some s' ∧ s'.requests[1]? = some (.ended 503) := by
  have hrun : ∃ s, Runs.run (step sampleEnv) init (admitted 0 ++
      [.semaphore 0, .semaphore 0, .semaphore 0, .acquire 0, .start 0] ++ admitted 1 ++
      [.semaphore 1]) = some s ∧ s.requests[1]? = some (.acquire 0) ∧
      s.requests.countP RequestPc.inside = capacity sampleEnv := ⟨_, rfl, rfl, by decide⟩
  obtain ⟨s, hr, hi, hfull⟩ := hrun
  obtain ⟨s', hstep, hnext⟩ := (cap_of_run hr (by decide)).2 1 0 hi
  rw [if_pos hfull] at hnext
  exact ⟨s, s', hr, hstep, hnext⟩

end Slots
end PoetryGenerator
