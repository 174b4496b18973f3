/-
# Callers by name (`api/app/clients.py`)

`RATE_LIMIT_CLIENTS` is a list of rules `name[=per_minute]`.  A name that is an
IP address or a network covers the peers in it; any other name is looked up, and
covers the peers the resolver returns.  `ClientRegistry.match` returns the first
rule that covers a peer.

Each lookup in a call of `match` reads the clock and may ask the resolver
(`Lookup`); nothing is assumed of either.  An exception of `match` is `none`, and
`some none` says that no rule covers the peer.

A peer that no rule covers never has the name of a rule that covers another
(`ClientRegistry.peer_ne_name`): a rule whose name is an address covers that
address, unless it is an IPv4-mapped one, and then it covers none.
-/

import Mathlib.Logic.Function.Basic
import Mathlib.Order.Defs.LinearOrder
import PoetryGenerator.IpAddress

namespace PoetryGenerator

/-! ### Rules -/

/-- `ClientRule`. -/
structure ClientRule where
  name : Str
  maxPerMin : Option ℤ := none
  network : Option IPNetwork := none

/-- One entry of `parse_client_rules`; nothing when it is skipped. -/
def parseClientRule (raw : Str) : Option ClientRule :=
  let entry := Str.strip raw
  if entry = [] then none
  else
    let (name, limitText) := Str.partition entry '='
    let (name, limitText) := (Str.strip name, Str.strip limitText)
    if name = [] then none
    else if limitText = [] then some { name, network := ipNetwork name }
    else (intOfText limitText).bind fun limit =>
      if limit ≤ 0 then none else some { name, maxPerMin := some limit, network := ipNetwork name }

/-- `parse_client_rules`. -/
def parseClientRules (spec : Option Str) : List ClientRule :=
  ((spec.getD []).splitOn ',').filterMap parseClientRule

/-- `test_ignores_blank_and_malformed_entries`. -/
example : (parseClientRules (some " , frontend=abc, =5, worker=0, worker=-1, api=10 ".toList)).map
    (fun r => (r.name, r.maxPerMin)) = [("api".toList, some 10)] := by decide +kernel

/-- **A rule** has the network that its name is, and a limit, if any, of at least one. -/
theorem parseClientRules_spec {spec : Option Str} {r : ClientRule} (h : r ∈ parseClientRules spec) :
    r.network = ipNetwork r.name ∧ ∀ n ∈ r.maxPerMin, 1 ≤ n := by
  obtain ⟨raw, -, h⟩ := List.mem_filterMap.1 h
  simp only [parseClientRule] at h
  split_ifs at h with hentry hname hlimit
  · obtain rfl := Option.some.inj h
    exact ⟨rfl, fun n hn => absurd hn (by simp)⟩
  · obtain ⟨limit, -, h⟩ := Option.bind_eq_some_iff.1 h
    split_ifs at h with hpos
    obtain rfl := Option.some.inj h
    refine ⟨rfl, fun n hn => ?_⟩
    obtain rfl := Option.some.inj hn
    omega

/-! ### The registry -/

/-- What `socket.getaddrinfo` does: it returns addresses, or it raises. -/
inductive AddrInfo
  | addresses (addresses : List Str)
  | osError
  | unicodeError

/-- `resolve_hostname`; it does not catch a `UnicodeError`. -/
def resolveHostname (getaddrinfo : Str → AddrInfo) (name : Str) : Option (List Str) :=
  match getaddrinfo name with
  | .addresses addresses => some addresses
  | .osError => some []
  | .unicodeError => none

/-- What the lookup of a name meets. -/
structure Lookup (T : Type) where
  clock : T
  getaddrinfo : Str → AddrInfo

/-- `ClientRegistry`. -/
structure ClientRegistry (T : Type) where
  rules : List ClientRule
  ttl : T
  cache : Str → Option (T × List Str) := fun _ => none

/-- `registry_from_env`: the registry of the text of `RATE_LIMIT_CLIENTS`. -/
def registryFromEnv {T : Type} (spec : Option Str) (ttl : T) : ClientRegistry T :=
  { rules := parseClientRules spec, ttl }

namespace ClientRegistry

variable {T : Type} [LinearOrder T] [Add T]

/-- `_addresses`. -/
def addresses (reg : ClientRegistry T) (l : Lookup T) (name : Str) :
    Option (List Str) × ClientRegistry T :=
  match (reg.cache name).filter (l.clock < ·.1) with
  | some (_, addresses) => (some addresses, reg)
  | none =>
    match resolveHostname l.getaddrinfo name with
    | some addresses =>
      (some addresses,
        { reg with cache := Function.update reg.cache name (some (l.clock + reg.ttl, addresses)) })
    | none => (none, reg)

/-- The loop of `match` over the rules that are left; the lookups are those for each of them. -/
def firstRule (address : IPAddress) :
    List ClientRule → (ℕ → Lookup T) → ClientRegistry T → Option (Option ClientRule) × ClientRegistry T
  | [], _, reg => (some none, reg)
  | rule :: rules, lookups, reg =>
    match rule.network with
    | some network =>
      if network.contains address then (some (some rule), reg)
      else firstRule address rules (fun i => lookups (i + 1)) reg
    | none =>
      match reg.addresses (lookups 0) rule.name with
      | (some addresses, reg) =>
        if addresses.any (· = address.toStr) then (some (some rule), reg)
        else firstRule address rules (fun i => lookups (i + 1)) reg
      | (none, reg) => (none, reg)

/-- `match`. -/
def matchPeer (reg : ClientRegistry T) (lookups : ℕ → Lookup T) (peerIp : Option Str) :
    Option (Option ClientRule) × ClientRegistry T :=
  match peerIp with
  | none => (some none, reg)
  | some peerIp =>
    if reg.rules.isEmpty ∨ peerIp = [] then (some none, reg)
    else match ipAddress peerIp with
      | none => (some none, reg)
      | some address => firstRule address.unmapped reg.rules lookups reg

variable {reg reg' : ClientRegistry T} {lookups lookups' : ℕ → Lookup T} {address : IPAddress}
  {rules : List ClientRule} {r : ClientRule} {l : Lookup T} {name peer : Str} {peer' : Option Str}

/-- A fresh answer is taken from the cache. -/
theorem addresses_of_cached {e : T × List Str}
    (h : (reg.cache name).filter (l.clock < ·.1) = some e) : reg.addresses l name = (some e.2, reg) := by
  rw [addresses, h]

/-- Without one the resolver is asked, and its answer stored. -/
theorem addresses_of_stale (h : (reg.cache name).filter (l.clock < ·.1) = none) :
    reg.addresses l name = (resolveHostname l.getaddrinfo name, { reg with
      cache := match resolveHostname l.getaddrinfo name with
        | some as => Function.update reg.cache name (some (l.clock + reg.ttl, as))
        | none => reg.cache }) := by
  rw [addresses, h]
  dsimp only
  cases resolveHostname l.getaddrinfo name <;> rfl

theorem rules_addresses : (reg.addresses l name).2.rules = reg.rules := by
  unfold addresses
  split
  · rfl
  · split <;> rfl

theorem rules_firstRule : (firstRule address rules lookups reg).2.rules = reg.rules := by
  induction rules generalizing lookups reg with
  | nil => rfl
  | cons rule rules ih =>
      unfold firstRule
      cases rule.network with
      | some network =>
          dsimp only
          split_ifs
          · rfl
          · exact ih
      | none =>
          have hkept : (reg.addresses (lookups 0) rule.name).2.rules = reg.rules := rules_addresses
          rcases haddr : reg.addresses (lookups 0) rule.name with ⟨_ | addresses, reg'⟩
          · rw [haddr] at hkept
            exact hkept
          · rw [haddr] at hkept
            dsimp only
            split_ifs
            · exact hkept
            · exact ih.trans hkept

/-- A call of `match` changes the cache only. -/
theorem rules_matchPeer : (reg.matchPeer lookups peer').2.rules = reg.rules := by
  unfold matchPeer
  split
  · rfl
  · split_ifs
    · rfl
    · split
      · rfl
      · exact rules_firstRule

/-- The first of the rules is returned, or it does not have the address and the loop goes on. -/
theorem firstRule_cons {rule : ClientRule} {result : Option ClientRule}
    (h : (firstRule address (rule :: rules) lookups reg).1 = some result) :
    (result = some rule ∧ ∀ network ∈ rule.network, network.contains address = true) ∨
      (∀ network ∈ rule.network, network.contains address = false) ∧
        ∃ reg', (firstRule address rules (fun i => lookups (i + 1)) reg').1 = some result := by
  unfold firstRule at h
  cases hnet : rule.network with
  | some network =>
      rw [hnet] at h
      dsimp only at h
      split_ifs at h with hin
      · refine .inl ⟨(Option.some.inj h).symm, fun n hn => ?_⟩
        rwa [← Option.some.inj hn]
      · refine .inr ⟨fun n hn => ?_, reg, h⟩
        rw [← Option.some.inj hn]
        exact Bool.eq_false_iff.2 hin
  | none =>
      rw [hnet] at h
      rcases haddr : reg.addresses (lookups 0) rule.name with ⟨_ | addresses, reg'⟩
      · rw [haddr] at h
        cases h
      · rw [haddr] at h
        dsimp only at h
        split_ifs at h with hin
        · exact .inl ⟨(Option.some.inj h).symm, fun n hn => absurd hn (by simp)⟩
        · exact .inr ⟨fun n hn => absurd hn (by simp), reg', h⟩

/-- **Of the rules with a network** one that is returned has the address in it, and if none is
returned, none has. -/
theorem firstRule_network {result : Option ClientRule}
    (h : (firstRule address rules lookups reg).1 = some result) :
    (∀ r ∈ result, r ∈ rules ∧ ∀ network ∈ r.network, network.contains address = true) ∧
      (result = none → ∀ r ∈ rules, ∀ network ∈ r.network, network.contains address = false) := by
  induction rules generalizing lookups reg with
  | nil =>
      obtain rfl := Option.some.inj h
      exact ⟨fun _ hr => absurd hr (by simp), fun _ _ hr => absurd hr List.not_mem_nil⟩
  | cons rule rules ih =>
      rcases firstRule_cons h with ⟨rfl, hall⟩ | ⟨hnot, reg', hrest⟩
      · refine ⟨fun r hr => ?_, fun hnone => absurd hnone (by simp)⟩
        obtain rfl := Option.some.inj hr
        exact ⟨List.mem_cons_self .., hall⟩
      · obtain ⟨hsome, hnone⟩ := ih hrest
        refine ⟨fun r hr => ⟨List.mem_cons_of_mem _ (hsome r hr).1, (hsome r hr).2⟩, fun he r hr => ?_⟩
        rcases List.mem_cons.1 hr with rfl | hr
        · exact hnot
        · exact hnone he r hr

/-- Of a peer that is an address the loop over the rules is all. -/
theorem matchPeer_of_ipAddress (hpeer : ipAddress peer = some address) :
    reg.matchPeer lookups (some peer) = firstRule address.unmapped reg.rules lookups reg := by
  have hne : peer ≠ [] := by
    rintro rfl
    have hempty : ipAddress [] = none := by decide
    rw [hempty] at hpeer
    cases hpeer
  unfold matchPeer
  dsimp only
  split_ifs with h
  · have hempty : reg.rules = [] := List.isEmpty_iff.1 (h.resolve_right hne)
    rw [hempty, firstRule]
  · rw [hpeer]

/-- A rule is returned for a peer that is an address. -/
theorem ipAddress_of_matchPeer (h : (reg.matchPeer lookups peer').1 = some (some r)) :
    ∃ peer address, peer' = some peer ∧ ipAddress peer = some address := by
  cases peer' with
  | none => cases h
  | some peer =>
      cases hpeer : ipAddress peer with
      | some address => exact ⟨peer, address, rfl, hpeer⟩
      | none =>
          unfold matchPeer at h
          dsimp only at h
          rw [hpeer] at h
          split_ifs at h <;> cases h

theorem mem_rules_of_matchPeer (h : (reg.matchPeer lookups peer').1 = some (some r)) :
    r ∈ reg.rules := by
  obtain ⟨peer, address, rfl, hpeer⟩ := ipAddress_of_matchPeer h
  rw [matchPeer_of_ipAddress hpeer] at h
  exact ((firstRule_network h).1 r rfl).1

/-- **A peer that no rule covers never has the name of a rule that covers a peer**, whatever the
resolver returned to either. -/
theorem peer_ne_name (hrules : ∀ r ∈ reg.rules, r.network = ipNetwork r.name)
    (hsame : reg'.rules = reg.rules) (hpeer : ipAddress peer = some address)
    (hnone : (reg.matchPeer lookups (some peer)).1 = some none)
    (hsome : (reg'.matchPeer lookups' peer').1 = some (some r)) : peer ≠ r.name := by
  rintro rfl
  obtain ⟨_, b, rfl, hb⟩ := ipAddress_of_matchPeer hsome
  rw [matchPeer_of_ipAddress hpeer] at hnone
  rw [matchPeer_of_ipAddress hb, hsame] at hsome
  obtain ⟨hmem, hcovers⟩ := (firstRule_network hsome).1 r rfl
  have hnet : r.network = some address.host :=
    (hrules r hmem).trans (ipNetwork_of_ipAddress hpeer)
  -- the rule covers the unmapped `b`, so its own address is not a mapped one
  have hunmapped : address.unmapped = address := by
    by_contra hmapped
    have hin := hcovers _ hnet
    rw [not_contains_of_mapped hmapped] at hin
    cases hin
  have hout := (firstRule_network hnone).2 rfl r hmem _ hnet
  rw [hunmapped, contains_host] at hout
  cases hout

end ClientRegistry
end PoetryGenerator
