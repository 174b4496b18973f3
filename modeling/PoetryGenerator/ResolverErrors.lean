/-
# A hostname that breaks requests (`api/app/clients.py`)

`parse_client_rules` skips what it cannot read, and `resolve_hostname` "never
raises".  But any text that is no network becomes a hostname, and of a name that
cannot be encoded (one with an empty label, or a label that is too long)
`getaddrinfo` raises a `UnicodeError`, which is no `OSError`.  So an entry such as
`api..internal` makes `match` raise, for every peer that the entries before it let
through (`match_never_raises_iff`).

Which names these are is up to the codec of the system, and a parameter (`rejected`).
A hostname before it lets a peer through whenever it is not resolved, so only
networks can keep all the peers from it.
-/

import PoetryGenerator.AddressText
import PoetryGenerator.Clients

namespace PoetryGenerator

/-- **What is assumed of `getaddrinfo`**: it raises a `UnicodeError` for the names that its codec
rejects. -/
def Rejects (rejected : Str → Bool) (getaddrinfo : Str → AddrInfo) : Prop :=
  ∀ name, getaddrinfo name = .unicodeError ↔ rejected name = true

/-- A resolver that knows no name. -/
def knowsNoName (rejected : Str → Bool) (name : Str) : AddrInfo :=
  if rejected name then .unicodeError else .osError

theorem knowsNoName_rejects (rejected : Str → Bool) : Rejects rejected (knowsNoName rejected) := fun name => by
  unfold knowsNoName
  split_ifs with h <;> simp [h]

namespace ClientRegistry

variable {T : Type} [LinearOrder T] [Add T] {reg : ClientRegistry T} {address : IPAddress}
  {rules : List ClientRule} {lookups : ℕ → Lookup T} {rejected : Str → Bool}

/-- The registry after calls of `match`, each with its lookups. -/
def afterCalls (reg : ClientRegistry T) (calls : List (Option Str × (ℕ → Lookup T))) :
    ClientRegistry T :=
  calls.foldl (fun reg c => (reg.matchPeer c.2 c.1).2) reg

@[simp] theorem rules_afterCalls (calls : List (Option Str × (ℕ → Lookup T))) :
    (reg.afterCalls calls).rules = reg.rules := by
  induction calls generalizing reg with
  | nil => rfl
  | cons c calls ih => exact ih.trans rules_matchPeer

/-- A lookup raises a `UnicodeError` of the resolver. -/
theorem addresses_eq_none {l : Lookup T} {name : Str} (h : (reg.addresses l name).1 = none) :
    l.getaddrinfo name = .unicodeError := by
  cases hcache : (reg.cache name).filter (l.clock < ·.1) with
  | some e =>
      rw [addresses_of_cached hcache] at h
      cases h
  | none =>
      rw [addresses_of_stale hcache, resolveHostname] at h
      cases hinfo : l.getaddrinfo name with
      | addresses as => rw [hinfo] at h; cases h
      | osError => rw [hinfo] at h; cases h
      | unicodeError => rfl

/-- **Where the loop raises**: at a hostname that no network before it kept the peer from. -/
theorem firstRule_eq_none (h : (firstRule address rules lookups reg).1 = none) :
    ∃ pre r post, rules = pre ++ r :: post ∧ r.network = none ∧
      (∃ i, (lookups i).getaddrinfo r.name = .unicodeError) ∧
      ∀ r' ∈ pre, ∀ network ∈ r'.network, network.contains address = false := by
  induction rules generalizing lookups reg with
  | nil => cases h
  | cons r rules ih =>
      -- the rule is gone past, and the loop raises later
      have hlater : ∀ reg', (∀ network ∈ r.network, network.contains address = false) →
          (firstRule address rules (fun i => lookups (i + 1)) reg').1 = none →
          ∃ pre r' post, r :: rules = pre ++ r' :: post ∧ r'.network = none ∧
            (∃ i, (lookups i).getaddrinfo r'.name = .unicodeError) ∧
            ∀ r'' ∈ pre, ∀ network ∈ r''.network, network.contains address = false := by
        intro reg' hout hnone
        obtain ⟨pre, r', post, rfl, hnet, ⟨i, hi⟩, hpre⟩ := ih hnone
        refine ⟨r :: pre, r', post, rfl, hnet, ⟨i + 1, hi⟩, fun r'' hr'' => ?_⟩
        rcases List.mem_cons.1 hr'' with rfl | hr''
        · exact hout
        · exact hpre r'' hr''
      unfold firstRule at h
      cases hnet : r.network with
      | some network =>
          rw [hnet] at h
          dsimp only at h
          split_ifs at h with hin
          refine hlater reg (fun n hn => ?_) h
          rw [hnet] at hn
          rw [← Option.some.inj hn]
          exact Bool.eq_false_iff.2 hin
      | none =>
          rw [hnet] at h
          rcases haddr : reg.addresses (lookups 0) r.name with ⟨_ | addresses, reg'⟩
          · refine ⟨[], r, rules, rfl, hnet, ⟨0, addresses_eq_none (congrArg Prod.fst haddr)⟩, ?_⟩
            exact fun r' hr' => absurd hr' List.not_mem_nil
          · rw [haddr] at h
            dsimp only at h
            split_ifs at h
            exact hlater reg' (fun n hn => by rw [hnet] at hn; cases hn) h

/-- The cache of a registry whose resolver knows no name. -/
def NothingCached (rejected : Str → Bool) (reg : ClientRegistry T) : Prop :=
  ∀ name e, reg.cache name = some e → rejected name = false ∧ e.2 = []

/-- A lookup raises, or there are no addresses. -/
theorem NothingCached.addresses (h : reg.NothingCached rejected) (now : T) (name : Str) :
    (rejected name = true → (reg.addresses ⟨now, knowsNoName rejected⟩ name).1 = none) ∧
      (reg.addresses ⟨now, knowsNoName rejected⟩ name).2.NothingCached rejected ∧
      ∀ as ∈ (reg.addresses ⟨now, knowsNoName rejected⟩ name).1, as = [] := by
  cases hcache : (reg.cache name).filter (now < ·.1) with
  | some e =>
      obtain ⟨hgood, hnil⟩ := h name e (Option.filter_eq_some_iff.1 hcache).1
      rw [addresses_of_cached hcache]
      exact ⟨fun hbad => absurd (hgood.symm.trans hbad) Bool.false_ne_true, h,
        fun as has => (Option.some.inj has).symm.trans hnil⟩
  | none =>
      rw [addresses_of_stale hcache]
      cases hbad : rejected name with
      | true =>
          have hraise : resolveHostname (knowsNoName rejected) name = none := by
            rw [resolveHostname, knowsNoName, if_pos hbad]
          rw [hraise]
          exact ⟨fun _ => rfl, h, fun as has => absurd has (by simp)⟩
      | false =>
          have hnone : resolveHostname (knowsNoName rejected) name = some [] := by
            rw [resolveHostname, knowsNoName, if_neg (by rw [hbad]; exact Bool.false_ne_true)]
          rw [hnone]
          refine ⟨fun h => absurd h Bool.false_ne_true, fun name' e he => ?_,
            fun as has => (Option.some.inj has).symm⟩
          have he : Function.update reg.cache name (some (now + reg.ttl, [])) name' = some e := he
          rw [Function.update_apply] at he
          split_ifs at he with hname
          · obtain rfl := Option.some.inj he
            exact ⟨hname ▸ hbad, rfl⟩
          · exact h name' e he

/-- **It does raise there** when no name is known. -/
theorem NothingCached.firstRule_eq_none (h : reg.NothingCached rejected) {pre post : List ClientRule}
    {r : ClientRule} {now : T}
    (hpre : ∀ r' ∈ pre, ∀ network ∈ r'.network, network.contains address = false)
    (hnet : r.network = none) (hbad : rejected r.name = true) :
    (firstRule address (pre ++ r :: post) (fun _ => ⟨now, knowsNoName rejected⟩) reg).1 = none := by
  induction pre generalizing reg with
  | nil =>
      have hraise := (h.addresses now r.name).1 hbad
      rw [List.nil_append, firstRule, hnet]
      rcases haddr : reg.addresses ⟨now, knowsNoName rejected⟩ r.name with ⟨answer, reg'⟩
      rw [haddr] at hraise
      obtain rfl := hraise
      rfl
  | cons r' pre ih =>
      have hrest := fun r'' hr'' => hpre r'' (List.mem_cons_of_mem _ hr'')
      rw [List.cons_append, firstRule]
      cases hnet' : r'.network with
      | some network =>
          have hout := hpre r' (List.mem_cons_self ..) network hnet'
          simp only [hout, Bool.false_eq_true, if_false]
          exact ih h hrest
      | none =>
          obtain ⟨-, hnext, hnil⟩ := h.addresses now r'.name
          rcases haddr : reg.addresses ⟨now, knowsNoName rejected⟩ r'.name with ⟨_ | as, reg'⟩
          · rfl
          · rw [haddr] at hnext hnil
            rw [hnil as rfl]
            exact ih hnext hrest

end ClientRegistry

/-! ### The texts that are safe -/

/-- An address in IPv4 form without its scope, which no network looks at. -/
def IPAddress.plain : IPAddress → IPAddress
  | .v4 ip => .v4 ip
  | .v6 ip _ => .v6 ip none

theorem exists_peer (a : IPAddress) : ∃ peer address, ipAddress peer = some address ∧
    ∀ network : IPNetwork, network.contains address.unmapped = network.contains a.unmapped := by
  refine ⟨a.plain.toStr, a.plain, ipAddress_toStr ?_, fun network => ?_⟩
  · cases a <;> exact trivial
  · cases a with
    | v4 ip => rfl
    | v6 ip scopeId =>
        rw [IPAddress.plain, IPAddress.unmapped_v6, IPAddress.unmapped_v6]
        cases ipv4Mapped ip <;> cases network <;> rfl

variable {T : Type} [LinearOrder T] [Add T]

/-- **Which texts break no request**: with any resolver, after any calls, `match` returns a rule
or nothing for every peer, exactly when before each hostname that is rejected there are networks
for all addresses. -/
theorem match_never_raises_iff (rejected : Str → Bool) (spec : Option Str) (ttl now : T) :
    (∀ (earlier : List (Option Str × (ℕ → Lookup T))) (lookups : ℕ → Lookup T) (peer : Option Str),
      (∀ c ∈ earlier, ∀ i, Rejects rejected (c.2 i).getaddrinfo) →
      (∀ i, Rejects rejected (lookups i).getaddrinfo) →
        ((((registryFromEnv spec ttl).afterCalls earlier).matchPeer lookups peer).1.isSome)) ↔
    ∀ pre r post, parseClientRules spec = pre ++ r :: post → r.network = none →
      rejected r.name = true →
        ∀ a : IPAddress, ∃ r' ∈ pre, ∃ network ∈ r'.network, network.contains a.unmapped = true := by
  constructor
  · intro hsafe pre r post hrules hnet hbad a
    by_contra hopen
    push Not at hopen
    obtain ⟨peer, address, hpeer, hsame⟩ := exists_peer a
    have hreturns := hsafe [] (fun _ => ⟨now, knowsNoName rejected⟩) (some peer)
      (fun _ h => absurd h List.not_mem_nil) fun _ => knowsNoName_rejects rejected
    have hraises : ((registryFromEnv spec ttl).matchPeer (fun _ => ⟨now, knowsNoName rejected⟩)
        (some peer)).1 = none := by
      rw [ClientRegistry.matchPeer_of_ipAddress hpeer]
      show (ClientRegistry.firstRule _ (parseClientRules spec) _ _).1 = none
      rw [hrules]
      refine ClientRegistry.NothingCached.firstRule_eq_none
        (fun _ _ h => absurd h.symm (Option.some_ne_none _)) (fun r' hr' network hn => ?_) hnet hbad
      rw [hsame]
      exact Bool.eq_false_iff.2 (hopen r' hr' network hn)
    rw [ClientRegistry.afterCalls, List.foldl_nil, hraises] at hreturns
    cases hreturns
  · intro hguarded earlier lookups peer hearlier hlookups
    by_contra hraises
    have hnone := Option.not_isSome_iff_eq_none.1 hraises
    unfold ClientRegistry.matchPeer at hnone
    split at hnone
    · cases hnone
    · split_ifs at hnone
      split at hnone
      · cases hnone
      · obtain ⟨pre, r, post, hrules, hnet, ⟨i, hi⟩, hpre⟩ := ClientRegistry.firstRule_eq_none hnone
        rw [ClientRegistry.rules_afterCalls] at hrules
        obtain ⟨r', hr', network, hn, hin⟩ :=
          hguarded pre r post hrules hnet ((hlookups i r.name).1 hi) ‹_›
        exact absurd hin (Bool.eq_false_iff.1 (hpre r' hr' network hn))

/-- An entry with an empty label: for a resolver that raises for this name, and knows no other, the
first request raises. -/
theorem match_raises_empty_label :
    Rejects (fun name => name = "api..internal".toList)
      (knowsNoName fun name => name = "api..internal".toList) ∧
    ((registryFromEnv (some "api..internal=10".toList) (30 : ℤ)).matchPeer
      (fun _ => ⟨0, knowsNoName fun name => name = "api..internal".toList⟩)
        (some "172.18.0.5".toList)).1 = none :=
  ⟨knowsNoName_rejects _, by decide +kernel⟩

end PoetryGenerator
