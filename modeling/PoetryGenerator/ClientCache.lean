/-
# Concurrent lookups (`api/app/clients.py`)

`_addresses` reads the clock, looks into the cache under the lock, asks the
resolver without it, and stores the answer under the lock again.  Calls of
`match` are threads here, with a step for each of these; the resolver takes as
long as it likes and answers as it likes.

An answer is stored with the reading of the call that asked for it, not with the
time of its arrival.  So the order in which answers arrive does not matter: what
is in the cache is as old as its expiry says (`Matching.Fresh`), and an older
answer stored over a newer one expires earlier.

How often a name is resolved needs that the calls do not overlap: then every name
that was asked for is in the cache until `ttl` after the reading of the call that
asked (`Matching.Bounded`).  It needs that the resolver returns, too: a lookup that
raises stores nothing, and the next call asks again (`dns_raising_asked_again`).
-/

import Mathlib.Algebra.Order.Group.Defs
import PoetryGenerator.Clients
import PoetryGenerator.Lib.Runs

namespace PoetryGenerator

/-- A lookup that has read the clock: for which address, of which rule, with the rules after it. -/
structure PendingLookup (T : Type) where
  address : IPAddress
  rule : ClientRule
  rest : List ClientRule
  now : T

/-- Where a call of `match` is. -/
inductive MatchCall (T : Type)
  /-- At the head of the loop. -/
  | scanning (address : IPAddress) (rules : List ClientRule)
  /-- Before the first `with self._lock`. -/
  | read (p : PendingLookup T)
  /-- In `self._resolver(name)`. -/
  | resolving (p : PendingLookup T)
  /-- Before the second `with self._lock`. -/
  | resolved (p : PendingLookup T) (addresses : List Str)
  /-- Returned, or raised. -/
  | finished (result : Option (Option ClientRule))

/-- The addresses of a name, with the reading of the clock of a lookup. -/
structure Answer (T : Type) where
  name : Str
  reading : T
  addresses : List Str

/-- A registry whose `match` is called by threads. -/
structure Matching (T : Type) where
  reg : ClientRegistry T
  /-- The last reading of the clock. -/
  clock : T
  calls : List (MatchCall T)
  /-- The calls of the resolver, with the readings of the lookups that made them. -/
  asked : List (Str × T)
  /-- Those that have returned. -/
  answers : List (Answer T)
  /-- The address sets that were compared, with the readings of the lookups that did. -/
  used : List (Answer T)

namespace MatchCall

variable {T : Type}

/-- A call before its loop. -/
def start (rules : List ClientRule) : Option Str → MatchCall T
  | none => .finished (some none)
  | some peerIp =>
    if rules.isEmpty ∨ peerIp = [] then .finished (some none)
    else match ipAddress peerIp with
      | none => .finished (some none)
      | some address => .scanning address.unmapped rules

/-- A call after `str(address) in addresses`. -/
def compared (p : PendingLookup T) (addresses : List Str) : MatchCall T :=
  if addresses.any (· = p.address.toStr) then .finished (some (some p.rule))
  else .scanning p.address p.rest

/-- It has returned or raised. -/
def Finished : MatchCall T → Prop
  | .finished _ => True
  | _ => False

instance : DecidablePred (Finished (T := T))
  | .finished _ => isTrue trivial
  | .scanning _ _ | .read _ | .resolving _ | .resolved _ _ => isFalse id

/-- The reading of the clock that it goes by. -/
def now? : MatchCall T → Option T
  | .read p | .resolving p | .resolved p _ => some p.now
  | _ => none

/-- The name it has asked for. -/
def asks? : MatchCall T → Option (Str × T)
  | .resolving p | .resolved p _ => some (p.rule.name, p.now)
  | _ => none

end MatchCall

namespace Matching

/-- One step of a call, or a new one. -/
inductive Label (T : Type)
  | start (peer : Option Str)
  /-- The next rule has a network. -/
  | scan (i : ℕ)
  /-- `now = self._clock()`. -/
  | read (i : ℕ) (now : T)
  /-- The first critical section. -/
  | lookup (i : ℕ)
  /-- The resolver returns, or raises. -/
  | answer (i : ℕ) (addresses : Option (List Str))
  /-- The second critical section. -/
  | store (i : ℕ)

variable {T : Type} [LinearOrder T] [Add T]

/-- One step. -/
def step (s : Matching T) : Label T → Option (Matching T)
  | .start peer => some { s with calls := s.calls ++ [.start s.reg.rules peer] }
  | .scan i =>
    match s.calls[i]? with
    | some (.scanning _ []) => some { s with calls := s.calls.set i (.finished (some none)) }
    | some (.scanning address (rule :: rest)) => rule.network.map fun network =>
      { s with
        calls := s.calls.set i (if network.contains address then .finished (some (some rule))
          else .scanning address rest) }
    | _ => none
  | .read i now =>
    match s.calls[i]? with
    | some (.scanning address (rule :: rest)) =>
      if rule.network.isNone ∧ s.clock ≤ now then
        some { s with clock := now, calls := s.calls.set i (.read ⟨address, rule, rest, now⟩) }
      else none
    | _ => none
  | .lookup i =>
    match s.calls[i]? with
    | some (.read p) =>
      match (s.reg.cache p.rule.name).filter (p.now < ·.1) with
      | some (_, addresses) =>
        some { s with
          calls := s.calls.set i (.compared p addresses)
          used := s.used ++ [⟨p.rule.name, p.now, addresses⟩] }
      | none =>
        some { s with
          calls := s.calls.set i (.resolving p)
          asked := s.asked ++ [(p.rule.name, p.now)] }
    | _ => none
  | .answer i addresses =>
    match s.calls[i]? with
    | some (.resolving p) =>
      match addresses with
      | some addresses =>
        some { s with
          calls := s.calls.set i (.resolved p addresses)
          answers := s.answers ++ [⟨p.rule.name, p.now, addresses⟩] }
      | none => some { s with calls := s.calls.set i (.finished none) }
    | _ => none
  | .store i =>
    match s.calls[i]? with
    | some (.resolved p addresses) =>
      some { s with
        reg := { s.reg with
          cache := Function.update s.reg.cache p.rule.name (some (p.now + s.reg.ttl, addresses)) }
        calls := s.calls.set i (.compared p addresses)
        used := s.used ++ [⟨p.rule.name, p.now, addresses⟩] }
    | _ => none

/-- A new registry, and a clock that starts anywhere. -/
def start (rules : List ClientRule) (ttl clock : T) : Matching T :=
  ⟨{ rules, ttl }, clock, [], [], [], []⟩

variable {s s' : Matching T} {l : Label T}

/-- **What a step does to a call.**  A call is started, or one is moved on. -/
theorem step_cases (h : step s l = some s') :
    (∃ peer, l = .start peer ∧ s' = { s with calls := s.calls ++ [.start s.reg.rules peer] }) ∨
    (∃ i address rules next, s.calls[i]? = some (.scanning address rules) ∧ l = .scan i ∧
      ((∃ result, next = MatchCall.finished result) ∨ ∃ rest, next = .scanning address rest) ∧
      s' = { s with calls := s.calls.set i next }) ∨
    (∃ i p, s.calls[i]? = some (.scanning p.address (p.rule :: p.rest)) ∧ l = .read i p.now ∧
      s.clock ≤ p.now ∧ s' = { s with clock := p.now, calls := s.calls.set i (.read p) }) ∨
    (∃ i p e, s.calls[i]? = some (.read p) ∧ l = .lookup i ∧ s.reg.cache p.rule.name = some e ∧
      p.now < e.1 ∧ s' = { s with
        calls := s.calls.set i (.compared p e.2)
        used := s.used ++ [⟨p.rule.name, p.now, e.2⟩] }) ∨
    (∃ i p, s.calls[i]? = some (.read p) ∧ l = .lookup i ∧
      (∀ e, s.reg.cache p.rule.name = some e → e.1 ≤ p.now) ∧ s' = { s with
        calls := s.calls.set i (.resolving p)
        asked := s.asked ++ [(p.rule.name, p.now)] }) ∨
    (∃ i p addresses, s.calls[i]? = some (.resolving p) ∧ l = .answer i (some addresses) ∧
      s' = { s with
        calls := s.calls.set i (.resolved p addresses)
        answers := s.answers ++ [⟨p.rule.name, p.now, addresses⟩] }) ∨
    (∃ i p, s.calls[i]? = some (.resolving p) ∧ l = .answer i none ∧
      s' = { s with calls := s.calls.set i (.finished none) }) ∨
    (∃ i p addresses, s.calls[i]? = some (.resolved p addresses) ∧ l = .store i ∧ s' = { s with
      reg := { s.reg with
        cache := Function.update s.reg.cache p.rule.name (some (p.now + s.reg.ttl, addresses)) }
      calls := s.calls.set i (.compared p addresses)
      used := s.used ++ [⟨p.rule.name, p.now, addresses⟩] }) := by
  cases l with
  | start peer => exact .inl ⟨peer, rfl, (Option.some.inj h).symm⟩
  | scan i =>
      refine .inr (.inl ?_)
      simp only [step] at h
      split at h
      · exact ⟨i, _, _, _, ‹_›, rfl, .inl ⟨_, rfl⟩, (Option.some.inj h).symm⟩
      · obtain ⟨network, -, rfl⟩ := Option.map_eq_some_iff.1 h
        refine ⟨i, _, _, _, ‹_›, rfl, ?_, rfl⟩
        split_ifs
        · exact .inl ⟨_, rfl⟩
        · exact .inr ⟨_, rfl⟩
      · cases h
  | read i now =>
      refine .inr (.inr (.inl ?_))
      simp only [step] at h
      split at h
      · split_ifs at h with hread
        exact ⟨i, ⟨_, _, _, now⟩, ‹_›, rfl, hread.2, (Option.some.inj h).symm⟩
      · cases h
  | lookup i =>
      refine .inr (.inr (.inr ?_))
      simp only [step] at h
      split at h
      · split at h
        · obtain ⟨hcached, hfresh⟩ := Option.filter_eq_some_iff.1 ‹_›
          exact .inl ⟨i, _, _, ‹_›, rfl, hcached, of_decide_eq_true hfresh,
            (Option.some.inj h).symm⟩
        · have hstale := Option.filter_eq_none_iff.1 ‹_›
          refine .inr (.inl ⟨i, _, ‹_›, rfl, fun e he => ?_, (Option.some.inj h).symm⟩)
          exact not_lt.1 fun hlt => hstale e he (decide_eq_true hlt)
      · cases h
  | answer i addresses =>
      refine .inr (.inr (.inr (.inr (.inr ?_))))
      simp only [step] at h
      split at h
      · split at h
        · exact .inl ⟨i, _, _, ‹_›, rfl, (Option.some.inj h).symm⟩
        · exact .inr (.inl ⟨i, _, ‹_›, rfl, (Option.some.inj h).symm⟩)
      · cases h
  | store i =>
      refine .inr (.inr (.inr (.inr (.inr (.inr (.inr ?_))))))
      simp only [step] at h
      split at h
      · exact ⟨i, _, _, ‹_›, rfl, (Option.some.inj h).symm⟩
      · cases h

/-! ### A call that no other overlaps -/

/-- The steps of one lookup. -/
theorem run_lookup {i : ℕ} {p : PendingLookup T} (hi : s.calls[i]? = some (.read p))
    (getaddrinfo : Str → AddrInfo) : ∃ ls s', Runs.run step s ls = some s' ∧
      s'.reg = (s.reg.addresses ⟨p.now, getaddrinfo⟩ p.rule.name).2 ∧ s'.clock = s.clock ∧
      s'.calls = s.calls.set i
        (((s.reg.addresses ⟨p.now, getaddrinfo⟩ p.rule.name).1.map (MatchCall.compared p)).getD
          (.finished none)) := by
  have hlt : i < s.calls.length := (List.getElem?_eq_some_iff.1 hi).1
  have hself : ∀ (calls : List (MatchCall T)) (c : MatchCall T), calls.length = s.calls.length →
      (calls.set i c)[i]? = some c := fun calls c hlen => by
    rw [List.getElem?_set_self (by omega)]
  cases hcache : (s.reg.cache p.rule.name).filter (p.now < ·.1) with
  | some e =>
      have hlookup : step s (.lookup i) = some { s with
          calls := s.calls.set i (.compared p e.2)
          used := s.used ++ [⟨p.rule.name, p.now, e.2⟩] } := by
        simp only [step, hi, hcache]
      refine ⟨[.lookup i], _, by rw [Runs.run_cons, hlookup]; rfl, ?_⟩
      rw [ClientRegistry.addresses_of_cached hcache]
      exact ⟨rfl, rfl, rfl⟩
  | none =>
      have hlookup : step s (.lookup i) = some { s with
          calls := s.calls.set i (.resolving p)
          asked := s.asked ++ [(p.rule.name, p.now)] } := by
        simp only [step, hi, hcache]
      rw [ClientRegistry.addresses_of_stale hcache]
      cases hinfo : resolveHostname getaddrinfo p.rule.name with
      | none =>
          have hrun : Runs.run step s [.lookup i, .answer i none] = some { s with
              calls := (s.calls.set i (.resolving p)).set i (.finished none)
              asked := s.asked ++ [(p.rule.name, p.now)] } := by
            rw [Runs.run_cons, hlookup, Option.bind_some, Runs.run_cons]
            simp only [step, hself s.calls _ rfl]
            rfl
          exact ⟨_, _, hrun, rfl, rfl, List.set_set ..⟩
      | some addresses =>
          have hrun : Runs.run step s [.lookup i, .answer i (some addresses), .store i] = some
              { s with
                reg := { s.reg with
                  cache := Function.update s.reg.cache p.rule.name
                    (some (p.now + s.reg.ttl, addresses)) }
                calls := ((s.calls.set i (.resolving p)).set i (.resolved p addresses)).set i
                  (.compared p addresses)
                asked := s.asked ++ [(p.rule.name, p.now)]
                answers := s.answers ++ [⟨p.rule.name, p.now, addresses⟩]
                used := s.used ++ [⟨p.rule.name, p.now, addresses⟩] } := by
            rw [Runs.run_cons, hlookup, Option.bind_some, Runs.run_cons]
            simp only [step, hself s.calls _ rfl, Option.bind_some, Runs.run_cons,
              hself (s.calls.set i _) _ (List.length_set ..)]
            rfl
          refine ⟨_, _, hrun, rfl, rfl, ?_⟩
          rw [List.set_set, List.set_set]
          rfl

/-- The steps of the loop. -/
theorem exists_run_firstRule {i : ℕ} {address : IPAddress} {rules : List ClientRule}
    {lookups : ℕ → Lookup T} (hi : s.calls[i]? = some (.scanning address rules))
    (hclock : ∀ k, s.clock ≤ (lookups k).clock)
    (hmono : ∀ j k, j ≤ k → (lookups j).clock ≤ (lookups k).clock) :
    ∃ ls s', Runs.run step s ls = some s' ∧
      s'.reg = (ClientRegistry.firstRule address rules lookups s.reg).2 ∧
      s'.calls = s.calls.set i
        (.finished (ClientRegistry.firstRule address rules lookups s.reg).1) := by
  have hlt : i < s.calls.length := (List.getElem?_eq_some_iff.1 hi).1
  induction rules generalizing s lookups with
  | nil =>
      refine ⟨[.scan i], { s with calls := s.calls.set i (.finished (some none)) }, ?_, rfl, rfl⟩
      simp only [Runs.run_cons, step, hi]
      rfl
  | cons rule rules ih =>
      -- the loop goes on in a state in which the call is at its head again
      have hrest : ∀ s₁ : Matching T, s₁.calls = s.calls.set i (.scanning address rules) →
          s₁.clock ≤ (lookups 0).clock ∨ s₁.clock = s.clock →
          ∃ ls s', Runs.run step s₁ ls = some s' ∧
            s'.reg = (ClientRegistry.firstRule address rules (fun k => lookups (k + 1)) s₁.reg).2 ∧
            s'.calls = s.calls.set i (.finished (ClientRegistry.firstRule address rules
              (fun k => lookups (k + 1)) s₁.reg).1) := fun s₁ hcalls hclock₁ => by
        have hle : ∀ k, s₁.clock ≤ (lookups (k + 1)).clock := fun k => by
          rcases hclock₁ with hle | heq
          · exact hle.trans (hmono 0 (k + 1) (Nat.zero_le _))
          · exact heq ▸ hclock (k + 1)
        obtain ⟨ls, s', hrun, hreg, hfinal⟩ := ih (s := s₁)
          (by rw [hcalls, List.getElem?_set_self hlt]) hle
          (fun j k hjk => hmono _ _ (Nat.succ_le_succ hjk)) (by rw [hcalls, List.length_set]; exact hlt)
        rw [hcalls, List.set_set] at hfinal
        exact ⟨ls, s', hrun, hreg, hfinal⟩
      unfold ClientRegistry.firstRule
      cases hnet : rule.network with
      | some network =>
          have hscan : step s (.scan i) = some { s with
              calls := s.calls.set i (if network.contains address then .finished (some (some rule))
                else .scanning address rules) } := by
            simp only [step, hi, hnet, Option.map_some]
          dsimp only
          split_ifs at hscan ⊢ with hin
          · exact ⟨[.scan i], _, Runs.run_cons_eq_some.2 ⟨_, hscan, rfl⟩, rfl, rfl⟩
          · obtain ⟨ls, s', hrun, hreg, hfinal⟩ :=
              hrest { s with calls := s.calls.set i (.scanning address rules) } rfl (.inr rfl)
            exact ⟨.scan i :: ls, s', Runs.run_cons_eq_some.2 ⟨_, hscan, hrun⟩, hreg, hfinal⟩
      | none =>
          have hread : step s (.read i (lookups 0).clock) = some { s with
              clock := (lookups 0).clock
              calls := s.calls.set i (.read ⟨address, rule, rules, (lookups 0).clock⟩) } := by
            simp only [step, hi, hnet, Option.isNone_none, hclock 0, and_self, if_true]
          obtain ⟨ls, s₁, hlookup, hreg, hclock₁, hcalls⟩ := run_lookup (s := { s with
              clock := (lookups 0).clock
              calls := s.calls.set i (.read ⟨address, rule, rules, (lookups 0).clock⟩) })
            (List.getElem?_set_self hlt) (lookups 0).getaddrinfo
          have hrun := Runs.run_cons_eq_some.2 ⟨_, hread, hlookup⟩
          have hreg : s₁.reg = (s.reg.addresses (lookups 0) rule.name).2 := hreg
          have hcalls : s₁.calls = (s.calls.set i _).set i
              (((s.reg.addresses (lookups 0) rule.name).1.map (MatchCall.compared
                ⟨address, rule, rules, (lookups 0).clock⟩)).getD (.finished none)) := hcalls
          rw [List.set_set] at hcalls
          dsimp only
          generalize s.reg.addresses (lookups 0) rule.name = looked at hreg hcalls ⊢
          obtain ⟨_ | addresses, reg'⟩ := looked
          · exact ⟨_, s₁, hrun, hreg, hcalls⟩
          · dsimp only
            have hcalls : s₁.calls = s.calls.set i (.compared ⟨address, rule, rules,
              (lookups 0).clock⟩ addresses) := hcalls
            unfold MatchCall.compared at hcalls
            split_ifs at hcalls ⊢ with hin
            · exact ⟨_, s₁, hrun, hreg, hcalls⟩
            · obtain ⟨ls', s', hrun', hreg', hfinal⟩ := hrest s₁ hcalls (.inl hclock₁.le)
              have hreg : s₁.reg = reg' := hreg
              rw [hreg] at hreg' hfinal
              exact ⟨_, s', Runs.run_append_eq_some.2 ⟨s₁, hrun, hrun'⟩, hreg', hfinal⟩

/-- **A call of `match` that no other overlaps** is `ClientRegistry.matchPeer`. -/
theorem exists_run_matchPeer (s : Matching T) (peer : Option Str) {lookups : ℕ → Lookup T}
    (hclock : ∀ k, s.clock ≤ (lookups k).clock)
    (hmono : ∀ j k, j ≤ k → (lookups j).clock ≤ (lookups k).clock) :
    ∃ ls s', Runs.run step s (.start peer :: ls) = some s' ∧
      s'.reg = (s.reg.matchPeer lookups peer).2 ∧
      s'.calls = s.calls ++ [.finished (s.reg.matchPeer lookups peer).1] := by
  have hfinished : ∀ result, MatchCall.start (T := T) s.reg.rules peer = .finished result →
      s.reg.matchPeer lookups peer = (result, s.reg) →
      ∃ ls s', Runs.run step s (.start peer :: ls) = some s' ∧
        s'.reg = (s.reg.matchPeer lookups peer).2 ∧
        s'.calls = s.calls ++ [.finished (s.reg.matchPeer lookups peer).1] :=
    fun result hstart hmatch => by
      rw [hmatch, ← hstart]
      exact ⟨[], _, rfl, rfl, rfl⟩
  cases peer with
  | none => exact hfinished _ rfl rfl
  | some peerIp =>
      by_cases hempty : s.reg.rules.isEmpty ∨ peerIp = []
      · exact hfinished (some none) (if_pos hempty) (if_pos hempty)
      · cases haddr : ipAddress peerIp with
        | none =>
            refine hfinished (some none) ?_ ?_
            · rw [MatchCall.start, if_neg hempty, haddr]
            · rw [ClientRegistry.matchPeer, if_neg hempty, haddr]
        | some address =>
            have hstart : MatchCall.start (T := T) s.reg.rules (some peerIp) =
                .scanning address.unmapped s.reg.rules := by
              rw [MatchCall.start, if_neg hempty, haddr]
            have hi : (s.calls ++ [MatchCall.start s.reg.rules (some peerIp)])[s.calls.length]? =
                some (.scanning address.unmapped s.reg.rules) := by
              rw [hstart]
              simp
            obtain ⟨ls, s', hrun, hreg, hcalls⟩ := exists_run_firstRule
              (s := { s with calls := s.calls ++ [.start s.reg.rules (some peerIp)] }) hi hclock hmono
            rw [ClientRegistry.matchPeer_of_ipAddress haddr]
            refine ⟨ls, s', hrun, hreg, hcalls.trans ?_⟩
            rw [List.set_append_right _ _ le_rfl, Nat.sub_self]
            rfl

/-! ### Fresh answers -/

/-- **What is in the cache is as old as it says.** -/
structure Fresh (ttl : T) (s : Matching T) : Prop where
  ttl_eq : s.reg.ttl = ttl
  cached : ∀ name e, s.reg.cache name = some e →
    ∃ reading, ⟨name, reading, e.2⟩ ∈ s.answers ∧ e.1 = reading + ttl
  resolved : ∀ p addresses, .resolved p addresses ∈ s.calls →
    ⟨p.rule.name, p.now, addresses⟩ ∈ s.answers
  used : ∀ u ∈ s.used, ∃ reading, ⟨u.name, reading, u.addresses⟩ ∈ s.answers ∧
    (u.reading < reading + ttl ∨ u.reading = reading)

theorem fresh_start (rules : List ClientRule) (ttl clock : T) : (start rules ttl clock).Fresh ttl :=
  ⟨rfl, fun _ _ h => absurd h.symm (Option.some_ne_none _), fun _ _ h => absurd h List.not_mem_nil,
    fun _ h => absurd h List.not_mem_nil⟩

/-- A call is moved on that has no answer to store. -/
theorem Fresh.move {ttl : T} (h : s.Fresh ttl) {i : ℕ} {c : MatchCall T}
    (hc : ∀ p addresses, c ≠ .resolved p addresses) (clock : T) (asked : List (Str × T)) :
    ({ s with calls := s.calls.set i c, clock := clock, asked := asked } : Matching T).Fresh ttl where
  ttl_eq := h.ttl_eq
  cached := h.cached
  resolved p addresses hp := by
    rcases List.mem_or_eq_of_mem_set hp with hold | heq
    · exact h.resolved p addresses hold
    · exact absurd heq.symm (hc p addresses)
  used := h.used

omit [LinearOrder T] [Add T] in
theorem compared_ne_resolved (p p' : PendingLookup T) (addresses addresses' : List Str) :
    MatchCall.compared p addresses ≠ .resolved p' addresses' := by
  unfold MatchCall.compared
  split_ifs <;> exact fun h => by cases h

omit [LinearOrder T] [Add T] in
theorem start_cases (rules : List ClientRule) (peer : Option Str) :
    (∃ result, MatchCall.start (T := T) rules peer = .finished result) ∨
      ∃ address, MatchCall.start (T := T) rules peer = .scanning address rules := by
  unfold MatchCall.start
  split
  · exact .inl ⟨_, rfl⟩
  · split_ifs
    · exact .inl ⟨_, rfl⟩
    · split
      · exact .inl ⟨_, rfl⟩
      · exact .inr ⟨_, rfl⟩

/-- **Step lemma.** -/
theorem Fresh.step {ttl : T} (h : s.Fresh ttl) (hstep : step s l = some s') : s'.Fresh ttl := by
  rcases step_cases hstep with ⟨peer, rfl, rfl⟩ | ⟨i, address, rules, next, hi, rfl, hnext, rfl⟩ |
    ⟨i, p, hi, rfl, -, rfl⟩ | ⟨i, p, e, hi, rfl, he, hlt, rfl⟩ | ⟨i, p, hi, rfl, -, rfl⟩ |
    ⟨i, p, addresses, hi, rfl, rfl⟩ | ⟨i, p, hi, rfl, rfl⟩ | ⟨i, p, addresses, hi, rfl, rfl⟩
  · refine ⟨h.ttl_eq, h.cached, fun p addresses hp => ?_, h.used⟩
    rcases List.mem_append.1 hp with hold | hnew
    · exact h.resolved p addresses hold
    · rcases start_cases (T := T) s.reg.rules peer with ⟨_, heq⟩ | ⟨_, heq⟩ <;>
        · rw [heq, List.mem_singleton] at hnew
          cases hnew
  · refine h.move (fun p addresses => ?_) s.clock s.asked
    rcases hnext with ⟨_, rfl⟩ | ⟨_, rfl⟩ <;> exact fun h => by cases h
  · exact h.move (fun _ _ h => by cases h) p.now s.asked
  · obtain ⟨reading, hanswer, hexpiry⟩ := h.cached _ e he
    have hmoved := h.move (i := i) (compared_ne_resolved p · e.2 ·) s.clock s.asked
    refine ⟨hmoved.ttl_eq, hmoved.cached, hmoved.resolved, fun u hu => ?_⟩
    rcases List.mem_append.1 hu with hold | hnew
    · exact h.used u hold
    · obtain rfl := List.mem_singleton.1 hnew
      exact ⟨reading, hanswer, .inl (hexpiry ▸ hlt)⟩
  · exact h.move (fun _ _ h => by cases h) s.clock _
  · refine ⟨h.ttl_eq, fun name e he => ?_, fun p' addresses' hp => ?_, fun u hu => ?_⟩
    · obtain ⟨reading, hanswer, hexpiry⟩ := h.cached name e he
      exact ⟨reading, List.mem_append_left _ hanswer, hexpiry⟩
    · rcases List.mem_or_eq_of_mem_set hp with hold | heq
      · exact List.mem_append_left _ (h.resolved p' addresses' hold)
      · cases heq
        exact List.mem_append_right _ (List.mem_singleton_self _)
    · obtain ⟨reading, hanswer, hbound⟩ := h.used u hu
      exact ⟨reading, List.mem_append_left _ hanswer, hbound⟩
  · exact h.move (fun _ _ h => by cases h) s.clock s.asked
  · have hanswer := h.resolved p addresses (List.mem_of_getElem? hi)
    have hmoved := h.move (i := i) (compared_ne_resolved p · addresses ·) s.clock s.asked
    refine ⟨h.ttl_eq, fun name e he => ?_, hmoved.resolved, fun u hu => ?_⟩
    · have he : Function.update s.reg.cache p.rule.name (some (p.now + s.reg.ttl, addresses)) name =
        some e := he
      rw [Function.update_apply] at he
      split_ifs at he with hname
      · obtain rfl := Option.some.inj he
        exact ⟨p.now, hname ▸ hanswer, by rw [h.ttl_eq]⟩
      · exact h.cached name e he
    · rcases List.mem_append.1 hu with hold | hnew
      · exact h.used u hold
      · obtain rfl := List.mem_singleton.1 hnew
        exact ⟨p.now, hanswer, .inr rfl⟩

/-! ### Bounded lookups -/

/-- `match` is called when every earlier call has returned. -/
def OneAtATime (s : Matching T) : Label T → Prop
  | .start _ => ∀ c ∈ s.calls, c.Finished
  | _ => True

/-- The resolver returns. -/
def Label.Returns : Label T → Prop
  | .answer _ none => False
  | _ => True

instance (s : Matching T) : DecidablePred s.OneAtATime
  | .start _ => inferInstanceAs (Decidable (∀ c ∈ s.calls, c.Finished))
  | .scan _ | .read _ _ | .lookup _ | .answer _ _ | .store _ => isTrue trivial

instance : DecidablePred (Label.Returns (T := T))
  | .answer _ none => isFalse id
  | .answer _ (some _) | .start _ | .scan _ | .read _ _ | .lookup _ | .store _ => isTrue trivial

/-- **What was asked for is in the cache**, or the only call that is under way is asking. -/
structure Bounded (ttl : T) (s : Matching T) : Prop where
  ttl_eq : s.reg.ttl = ttl
  alone : ∀ (i j : ℕ) (c c' : MatchCall T), s.calls[i]? = some c → s.calls[j]? = some c' →
    ¬ c.Finished → ¬ c'.Finished → i = j
  now_eq : ∀ c ∈ s.calls, ∀ t ∈ c.now?, t = s.clock
  asked_le : ∀ a ∈ s.asked, a.2 ≤ s.clock
  kept : ∀ a ∈ s.asked, (∃ c ∈ s.calls, c.asks? = some a) ∨
    ∃ e, s.reg.cache a.1 = some e ∧ a.2 + ttl ≤ e.1
  apart : s.asked.Pairwise fun a b => a.1 = b.1 → a.2 + ttl ≤ b.2

theorem bounded_start (rules : List ClientRule) (ttl clock : T) :
    (start rules ttl clock).Bounded ttl where
  ttl_eq := rfl
  alone _ _ _ _ h := absurd h (by simp [start])
  now_eq _ h := absurd h List.not_mem_nil
  asked_le _ h := absurd h List.not_mem_nil
  kept _ h := absurd h List.not_mem_nil
  apart := List.Pairwise.nil

section Call
variable {ttl : T} {i : ℕ} {c : MatchCall T} (h : s.Bounded ttl) (hi : s.calls[i]? = some c)
  (hc : ¬ c.Finished)
include h hi hc

/-- When a call is moved on, the others have returned. -/
theorem Bounded.others (x : MatchCall T) : ∀ c' ∈ s.calls.set i x, c' = x ∨ c'.Finished := by
  intro c' hc'
  obtain ⟨j, hj⟩ := List.mem_iff_getElem?.1 hc'
  rw [List.getElem?_set] at hj
  split_ifs at hj with hij
  · exact .inl (Option.some.inj hj).symm
  · exact .inr (by_contra fun hunfinished => hij (h.alone i j c c' hi hj hc hunfinished))

/-- It is the call that asks, or what was asked for is in the cache. -/
theorem Bounded.asks_or_cached {a : Str × T} (ha : a ∈ s.asked) :
    c.asks? = some a ∨ ∃ e, s.reg.cache a.1 = some e ∧ a.2 + ttl ≤ e.1 := by
  rcases h.kept a ha with ⟨c', hc', hasks⟩ | hcached
  · obtain ⟨j, hj⟩ := List.mem_iff_getElem?.1 hc'
    have hunfinished : ¬ c'.Finished := fun hfin => by
      cases c' <;> first | exact hfin | cases hasks
    obtain rfl := h.alone i j c c' hi hj hc hunfinished
    rw [hi] at hj
    exact .inl (Option.some.inj hj ▸ hasks)
  · exact .inr hcached

theorem Bounded.alone_set (x : MatchCall T) : ∀ (j k : ℕ) (c c' : MatchCall T), (s.calls.set i x)[j]? = some c →
    (s.calls.set i x)[k]? = some c' → ¬ c.Finished → ¬ c'.Finished → j = k := by
  have hold : ∀ j c', (s.calls.set i x)[j]? = some c' → ¬ c'.Finished → i = j := by
    intro j c' hj hunfinished
    rw [List.getElem?_set] at hj
    split_ifs at hj with hij
    · exact hij
    · exact h.alone i j c c' hi hj hc hunfinished
  exact fun j k c c' hj hk hc hc' => (hold j c hj hc).symm.trans (hold k c' hk hc')

/-- The call is moved on, and asks for what it has asked for. -/
theorem Bounded.move {x : MatchCall T} {clock : T} (hclock : s.clock ≤ clock)
    (hnow : ∀ t ∈ x.now?, t = clock) (hasks : c.asks? = none ∨ x.asks? = c.asks?)
    (answers used : List (Answer T)) : ({ s with
      calls := s.calls.set i x, clock := clock, answers := answers, used := used } :
        Matching T).Bounded ttl where
  ttl_eq := h.ttl_eq
  alone := h.alone_set hi hc x
  now_eq c' hc' t ht := by
    rcases h.others hi hc x c' hc' with rfl | hfin
    · exact hnow t ht
    · cases c' <;> first | exact absurd hfin id | cases ht
  asked_le a ha := (h.asked_le a ha).trans hclock
  kept a ha := by
    rcases h.asks_or_cached hi hc ha with hc' | hcached
    · rcases hasks with hnone | hsame
      · rw [hnone] at hc'
        cases hc'
      · exact .inl ⟨x, List.mem_set (List.getElem?_eq_some_iff.1 hi).1 x, hsame.trans hc'⟩
    · exact .inr hcached
  apart := h.apart

end Call

omit [LinearOrder T] [Add T] in
theorem compared_now? (p : PendingLookup T) (addresses : List Str) :
    (MatchCall.compared p addresses).now? = none := by
  unfold MatchCall.compared
  split_ifs <;> rfl

end Matching

namespace Matching

variable {T : Type} [AddCommGroup T] [LinearOrder T] [IsOrderedAddMonoid T] {s s' : Matching T}
  {l : Label T} {ttl : T}

omit [IsOrderedAddMonoid T] in
/-- A call starts when every earlier one has returned. -/
theorem Bounded.startCall (h : s.Bounded ttl) (hone : ∀ c ∈ s.calls, c.Finished)
    (peer : Option Str) : ({ s with
      calls := s.calls ++ [.start s.reg.rules peer] } : Matching T).Bounded ttl where
  ttl_eq := h.ttl_eq
  alone j k c c' hj hk hc hc' := by
    have hlast : ∀ (j : ℕ) (c : MatchCall T),
        (s.calls ++ [MatchCall.start s.reg.rules peer])[j]? = some c → ¬ c.Finished →
          j = s.calls.length := fun j c hj hc => by
      rcases lt_trichotomy j s.calls.length with hlt | heq | hgt
      · rw [List.getElem?_append_left hlt] at hj
        exact absurd (hone c (List.mem_of_getElem? hj)) hc
      · exact heq
      · rw [List.getElem?_eq_none (by simp; omega)] at hj
        cases hj
    exact (hlast j c hj hc).trans (hlast k c' hk hc').symm
  now_eq c hc t ht := by
    rcases List.mem_append.1 hc with hold | hnew
    · exact h.now_eq c hold t ht
    · obtain rfl := List.mem_singleton.1 hnew
      rcases start_cases (T := T) s.reg.rules peer with ⟨_, heq⟩ | ⟨_, heq⟩ <;>
        · rw [heq] at ht
          cases ht
  asked_le := h.asked_le
  kept a ha := (h.kept a ha).imp_left fun ⟨c, hc, hasks⟩ => ⟨c, List.mem_append_left _ hc, hasks⟩
  apart := h.apart

omit [IsOrderedAddMonoid T] in
/-- A call asks the resolver when nothing that is cached for the name is good any more. -/
theorem Bounded.ask (h : s.Bounded ttl) {i : ℕ} {p : PendingLookup T}
    (hi : s.calls[i]? = some (.read p))
    (hstale : ∀ e, s.reg.cache p.rule.name = some e → e.1 ≤ p.now) :
    ({ s with
      calls := s.calls.set i (.resolving p)
      asked := s.asked ++ [(p.rule.name, p.now)] } : Matching T).Bounded ttl := by
  have hnow : p.now = s.clock := h.now_eq _ (List.mem_of_getElem? hi) _ rfl
  have hmoved := h.move hi id le_rfl (x := .resolving p) (fun t ht => (Option.some.inj ht).symm.trans
    hnow) (.inl rfl) s.answers s.used
  have hin : MatchCall.resolving p ∈ s.calls.set i (.resolving p) :=
    List.mem_set (List.getElem?_eq_some_iff.1 hi).1 _
  refine ⟨hmoved.ttl_eq, hmoved.alone, hmoved.now_eq, fun a ha => ?_, fun a ha => ?_, ?_⟩
  · rcases List.mem_append.1 ha with hold | hnew
    · exact h.asked_le a hold
    · obtain rfl := List.mem_singleton.1 hnew
      exact hnow.le
  · rcases List.mem_append.1 ha with hold | hnew
    · exact hmoved.kept a hold
    · obtain rfl := List.mem_singleton.1 hnew
      exact .inl ⟨_, hin, rfl⟩
  · refine List.pairwise_append.2 ⟨h.apart, List.pairwise_singleton .., fun a ha b hb hname => ?_⟩
    obtain rfl := List.mem_singleton.1 hb
    obtain ⟨e, he, hle⟩ := (h.asks_or_cached hi id ha).resolve_left (fun hnone => by cases hnone)
    rw [show a.1 = p.rule.name from hname] at he
    exact hle.trans (hstale e he)

/-- A call stores its answer, which is then good for `ttl` from its time. -/
theorem Bounded.store (h : s.Bounded ttl) {i : ℕ} {p : PendingLookup T} {addresses : List Str}
    (hi : s.calls[i]? = some (.resolved p addresses)) :
    ({ s with
      reg := { s.reg with
        cache := Function.update s.reg.cache p.rule.name (some (p.now + s.reg.ttl, addresses)) }
      calls := s.calls.set i (.compared p addresses)
      used := s.used ++ [⟨p.rule.name, p.now, addresses⟩] } : Matching T).Bounded ttl := by
  have hnow : p.now = s.clock := h.now_eq _ (List.mem_of_getElem? hi) _ rfl
  refine ⟨h.ttl_eq, h.alone_set hi id _, fun c hc t ht => ?_, h.asked_le, fun a ha => ?_, h.apart⟩
  · rcases h.others hi id _ c hc with rfl | hfin
    · rw [compared_now?] at ht
      cases ht
    · cases c <;> first | exact absurd hfin id | cases ht
  · right
    show ∃ e, Function.update s.reg.cache p.rule.name (some (p.now + s.reg.ttl, addresses)) a.1 =
      some e ∧ a.2 + ttl ≤ e.1
    rw [Function.update_apply]
    split_ifs with hname
    · refine ⟨_, rfl, ?_⟩
      rw [h.ttl_eq, hnow]
      exact add_le_add_left (h.asked_le a ha) ttl
    · refine (h.asks_or_cached hi id ha).resolve_left fun hasks => hname ?_
      exact (congrArg Prod.fst (Option.some.inj hasks)).symm

/-- **Step lemma.** -/
theorem Bounded.step (h : s.Bounded ttl) (hone : s.OneAtATime l) (hreturns : l.Returns)
    (hstep : step s l = some s') : s'.Bounded ttl := by
  rcases step_cases hstep with ⟨peer, rfl, rfl⟩ | ⟨i, address, rules, next, hi, rfl, hnext, rfl⟩ |
    ⟨i, p, hi, rfl, hclock, rfl⟩ | ⟨i, p, e, hi, rfl, he, hlt, rfl⟩ | ⟨i, p, hi, rfl, hstale, rfl⟩ |
    ⟨i, p, addresses, hi, rfl, rfl⟩ | ⟨i, p, hi, rfl, rfl⟩ | ⟨i, p, addresses, hi, rfl, rfl⟩
  · exact h.startCall hone peer
  · refine h.move hi id le_rfl (fun t ht => ?_) (.inl rfl) s.answers s.used
    rcases hnext with ⟨_, rfl⟩ | ⟨_, rfl⟩ <;> cases ht
  · refine h.move hi id hclock (fun t ht => ?_) (.inl rfl) s.answers s.used
    exact (Option.some.inj ht).symm
  · refine h.move hi id le_rfl (fun t ht => ?_) (.inl rfl) s.answers _
    rw [compared_now?] at ht
    cases ht
  · exact h.ask hi hstale
  · have hnow : p.now = s.clock := h.now_eq _ (List.mem_of_getElem? hi) _ rfl
    exact h.move hi id le_rfl (x := .resolved p addresses)
      (fun t ht => (Option.some.inj ht).symm.trans hnow) (.inr rfl) _ s.used
  · exact absurd hreturns id
  · exact h.store hi

/-! ### Any calls -/

/-- **Answers are fresh, and lookups are bounded.**  An address set that is compared by a lookup was
returned to a lookup of the name with a reading less than `ttl` before its own.  If calls of `match`
do not overlap, and the resolver returns, any two calls of it for one name have readings at least
`ttl` apart. -/
theorem dns_fresh_and_bounded (httl : 0 < ttl) (rules : List ClientRule) (clock : T)
    (ls : List (Label T)) (hr : Runs.run step (start rules ttl clock) ls = some s) :
    (∀ u ∈ s.used, ∃ c ∈ s.answers, c.name = u.name ∧ c.addresses = u.addresses ∧
      u.reading - ttl < c.reading) ∧
    (Runs.Along step (fun s l => s.OneAtATime l ∧ l.Returns) (start rules ttl clock) ls →
      s.asked.Pairwise fun a b => a.1 = b.1 → ttl ≤ b.2 - a.2) := by
  constructor
  · have hfresh : s.Fresh ttl := Runs.run_invariant (P := fun _ _ => True)
      (fun s l s' hs _ h => hs.step h) (fresh_start rules ttl clock)
      (Runs.along_of_forall fun _ _ _ => trivial) hr
    intro u hu
    obtain ⟨reading, hanswer, hbound⟩ := hfresh.used u hu
    refine ⟨_, hanswer, rfl, rfl, sub_lt_iff_lt_add.2 ?_⟩
    rcases hbound with hlt | heq
    · exact hlt
    · rw [heq]
      exact lt_add_of_pos_right reading httl
  · intro hone
    have hbounded : s.Bounded ttl := Runs.run_invariant
      (fun s l s' hs hP h => hs.step hP.1 hP.2 h) (bounded_start rules ttl clock) hone hr
    exact hbounded.apart.imp fun hle hname => le_sub_iff_add_le'.2 (hle hname)

/-- Two calls, a second apart, and the resolver raises in the first. -/
def raising : List (Label ℤ) :=
  [.start (some "172.18.0.5".toList), .read 0 0, .lookup 0, .answer 0 none,
    .start (some "172.18.0.5".toList), .read 1 1, .lookup 1]

/-- A lookup that raises is not cached: the name is asked for again, though the calls do not
overlap. -/
theorem dns_raising_asked_again :
    Runs.Along step (fun s l => s.OneAtATime l)
      (start (parseClientRules (some "api..internal=10".toList)) (30 : ℤ) 0) raising ∧
    ∃ s, Runs.run step (start (parseClientRules (some "api..internal=10".toList)) (30 : ℤ) 0) raising = some s ∧
      ¬s.asked.Pairwise fun a b => a.1 = b.1 → 30 ≤ b.2 - a.2 := by
  refine ⟨by decide +kernel, ?_⟩
  have hasked : (Runs.run step (start (parseClientRules (some "api..internal=10".toList)) (30 : ℤ) 0)
      raising).map asked = some [("api..internal".toList, 0), ("api..internal".toList, 1)] := by decide +kernel
  obtain ⟨s, hs, hasked⟩ := Option.map_eq_some_iff.1 hasked
  refine ⟨s, hs, fun h => ?_⟩
  rw [hasked] at h
  exact absurd ((List.pairwise_cons.1 h).1 _ List.mem_cons_self rfl) (by decide)

/-- An older answer is stored over a newer one. -/
def overtaken : List (Label ℤ) :=
  [.start (some "172.18.0.5".toList), .read 0 0, .lookup 0,
    .start (some "172.18.0.5".toList), .read 1 40, .lookup 1, .answer 1 (some ["172.18.0.9".toList]),
    .store 1, .answer 0 (some ["172.18.0.5".toList]), .store 0,
    .start (some "172.18.0.5".toList), .read 2 45, .lookup 2]

/-- One call, and another half a minute later. -/
def refreshed : List (Label ℤ) :=
  [.start (some "172.18.0.5".toList), .read 0 0, .lookup 0, .answer 0 (some ["172.18.0.5".toList]),
    .store 0, .start (some "172.18.0.5".toList), .read 1 30, .lookup 1]

/-- The older answer is too old for the next lookup, which asks again; and of two calls that do not
overlap both ask, when they are `ttl` apart. -/
theorem dns_fresh_overtaken :
    (∃ s, Runs.run step (start [{ name := "frontend".toList }] (30 : ℤ) 0) overtaken = some s ∧
      s.asked.map Prod.snd = [0, 40, 45] ∧ ∀ u ∈ s.used, ∃ c ∈ s.answers, c.name = u.name ∧
        c.addresses = u.addresses ∧ u.reading - 30 < c.reading) ∧
    ∃ s, Runs.run step (start [{ name := "frontend".toList }] (30 : ℤ) 0) refreshed = some s ∧
      s.asked.map Prod.snd = [0, 30] ∧ s.asked.Pairwise fun a b => a.1 = b.1 → 30 ≤ b.2 - a.2 := by
  have hrun : ∀ ls asked, ((Runs.run step (start [{ name := "frontend".toList }] (30 : ℤ) 0) ls).map
      fun s => s.asked.map Prod.snd) = some asked →
        ∃ s, Runs.run step (start [{ name := "frontend".toList }] (30 : ℤ) 0) ls = some s ∧
          s.asked.map Prod.snd = asked := fun ls asked h => Option.map_eq_some_iff.1 h
  obtain ⟨s, hs, hasked⟩ := hrun overtaken [0, 40, 45] (by decide +kernel)
  obtain ⟨t, ht, hasked'⟩ := hrun refreshed [0, 30] (by decide +kernel)
  exact ⟨⟨s, hs, hasked, (dns_fresh_and_bounded (by decide) _ _ _ hs).1⟩,
    t, ht, hasked', (dns_fresh_and_bounded (by decide) _ _ _ ht).2 (by decide +kernel)⟩

end Matching
end PoetryGenerator
