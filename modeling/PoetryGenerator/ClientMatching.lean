/-
# Which rule covers a peer (`api/app/clients.py`)

`ClientRule.covers` says what an entry of `RATE_LIMIT_CLIENTS` is for: an address
or a network covers the peers in it as they are written, one of IPv4 also their
IPv4-mapped forms, and a hostname covers the addresses that the resolver returns
for it.  `match` tries the entries on the peer in IPv4 form only, so it goes past
an IPv6 entry that covers an IPv4-mapped peer, be it the very address of the
peer, and past a hostname whose answers have the peer in another spelling.  It
returns the first entry that covers the peer exactly when that is none of these
(`match_first_cover_iff`).

The resolver is a table here.  The cache then holds nothing but answers of the
table (`ClientRegistry.FromTable`), so it does not matter what was asked before.
-/

import PoetryGenerator.AddressText
import PoetryGenerator.Clients
import PoetryGenerator.Lib.Lists

namespace PoetryGenerator

namespace ClientRule

variable {table : Str → List Str} {peer : IPAddress} {r : ClientRule}

/-- **What an entry covers.**  The resolver's answers for the hostnames are a table. -/
def covers (table : Str → List Str) (peer : IPAddress) (r : ClientRule) : Bool :=
  match r.network with
  | some network => network.contains peer || network.contains peer.unmapped
  | none => (table r.name).any fun s => ipAddress s = some peer || ipAddress s = some peer.unmapped

/-- What `match` compares with an address. -/
def has (table : Str → List Str) (address : IPAddress) (r : ClientRule) : Bool :=
  match r.network with
  | some network => network.contains address
  | none => (table r.name).any (· = address.toStr)

/-- An entry that `match` goes past though it may cover the peer: one of IPv6, if the peer is
IPv4-mapped, and a hostname without the peer's address in IPv4 form and in Python's spelling. -/
def GoneBy (table : Str → List Str) (peer : IPAddress) (r : ClientRule) : Prop :=
  match r.network with
  | some (.v4 _) => False
  | some (.v6 _) => peer.unmapped ≠ peer
  | none => peer.unmapped.toStr ∉ table r.name

theorem unmapped_cases (peer : IPAddress) :
    peer.unmapped = peer ∨ ∃ ip ip' scopeId, peer = .v6 ip scopeId ∧ peer.unmapped = .v4 ip' := by
  cases peer with
  | v4 ip => exact .inl rfl
  | v6 ip scopeId =>
      cases hmapped : ipv4Mapped ip with
      | none => exact .inl (by rw [IPAddress.unmapped, hmapped]; rfl)
      | some ip' => exact .inr ⟨ip, ip', scopeId, rfl, by rw [IPAddress.unmapped, hmapped]; rfl⟩

/-- An entry that `match` returns covers the peer. -/
theorem covers_of_has (hpeer : peer.Readable) (h : r.has table peer.unmapped = true) :
    r.covers table peer = true := by
  unfold has at h
  unfold covers
  cases hnet : r.network with
  | some network =>
      rw [hnet] at h
      exact Bool.or_eq_true_iff.2 (.inr h)
  | none =>
      rw [hnet] at h
      obtain ⟨s, hs, heq⟩ := List.any_eq_true.1 h
      refine List.any_eq_true.2 ⟨s, hs, ?_⟩
      rw [of_decide_eq_true heq, ipAddress_toStr hpeer.unmapped, decide_eq_true rfl, Bool.or_true]

/-- Of the entries that cover a peer it returns those that it does not go past. -/
theorem has_iff (h : r.covers table peer = true) :
    r.has table peer.unmapped = true ↔ ¬ r.GoneBy table peer := by
  unfold covers at h
  unfold has GoneBy
  cases hnet : r.network with
  | none => simp
  | some network =>
      rw [hnet] at h
      simp only at h ⊢
      rcases unmapped_cases peer with heq | ⟨ip, ip', scopeId, rfl, heq⟩
      · rw [heq, Bool.or_self] at h
        cases network <;> simp [heq, h]
      · rw [heq] at h ⊢
        cases network with
        | v4 network =>
            simp only [not_false_iff, iff_true]
            exact (Bool.or_eq_true_iff.1 h).resolve_left Bool.false_ne_true
        | v6 network => simp [IPNetwork.contains]

end ClientRule

/-! ### The resolver as a table -/

/-- The lookups of a call, whose answers come from a table. -/
def tableLookups {T : Type} (table : Str → List Str) (clock : ℕ → T) : ℕ → Lookup T :=
  fun i => ⟨clock i, fun name => .addresses (table name)⟩

namespace ClientRegistry

variable {T : Type} [LinearOrder T] [Add T] {table : Str → List Str} {reg : ClientRegistry T}

/-- The cache holds answers of the table. -/
def FromTable (table : Str → List Str) (reg : ClientRegistry T) : Prop :=
  ∀ name e, reg.cache name = some e → e.2 = table name

/-- The registry after calls of `match`, each with a peer and its readings of the clock. -/
def afterMatches (reg : ClientRegistry T) (table : Str → List Str)
    (calls : List (Option Str × (ℕ → T))) : ClientRegistry T :=
  calls.foldl (fun reg c => (reg.matchPeer (tableLookups table c.2) c.1).2) reg

/-- A lookup returns the answer of the table. -/
theorem FromTable.addresses (h : reg.FromTable table) (t : T) (name : Str) :
    (reg.addresses ⟨t, fun name => .addresses (table name)⟩ name).1 = some (table name) ∧
      (reg.addresses ⟨t, fun name => .addresses (table name)⟩ name).2.FromTable table := by
  unfold ClientRegistry.addresses
  cases hcache : (reg.cache name).filter (t < ·.1) with
  | some e => exact ⟨congrArg some (h name e (Option.filter_eq_some_iff.1 hcache).1), h⟩
  | none =>
      refine ⟨rfl, fun name' e he => ?_⟩
      have he : Function.update reg.cache name (some (t + reg.ttl, table name)) name' = some e := he
      rw [Function.update_apply] at he
      split_ifs at he with hname
      · obtain rfl := Option.some.inj he
        rw [hname]
      · exact h name' e he

/-- **The loop over the rules** finds the first that has the address. -/
theorem FromTable.firstRule (h : reg.FromTable table) (address : IPAddress) (rules : List ClientRule)
    (clock : ℕ → T) :
    (firstRule address rules (tableLookups table clock) reg).1 =
        some (rules.find? (·.has table address)) ∧
      (ClientRegistry.firstRule address rules (tableLookups table clock) reg).2.FromTable table := by
  induction rules generalizing reg clock with
  | nil => exact ⟨rfl, h⟩
  | cons r rules ih =>
      unfold ClientRegistry.firstRule
      cases hnet : r.network with
      | some network =>
          have hhas : r.has table address = network.contains address := by rw [ClientRule.has, hnet]
          dsimp only
          split_ifs with hin
          · rw [List.find?_cons_of_pos (by rw [hhas, hin])]
            exact ⟨rfl, h⟩
          · rw [List.find?_cons_of_neg (by rw [hhas]; exact hin)]
            exact ih h fun i => clock (i + 1)
      | none =>
          have hhas : r.has table address = (table r.name).any (· = address.toStr) := by
            rw [ClientRule.has, hnet]
          obtain ⟨hanswer, hnext⟩ := h.addresses (clock 0) r.name
          rcases haddr : reg.addresses (tableLookups table clock 0) r.name with ⟨answer, reg'⟩
          have haddr' : reg.addresses ⟨clock 0, fun name => .addresses (table name)⟩ r.name =
            (answer, reg') := haddr
          rw [haddr'] at hanswer hnext
          obtain rfl := hanswer
          dsimp only
          split_ifs with hin
          · rw [List.find?_cons_of_pos (by rw [hhas, hin])]
            exact ⟨rfl, hnext⟩
          · rw [List.find?_cons_of_neg (by rw [hhas]; exact hin)]
            exact ih hnext fun i => clock (i + 1)

theorem FromTable.matchPeer (h : reg.FromTable table) (peer : Option Str) (clock : ℕ → T) :
    (reg.matchPeer (tableLookups table clock) peer).2.FromTable table := by
  unfold ClientRegistry.matchPeer
  split
  · exact h
  · split_ifs
    · exact h
    · split
      · exact h
      · exact (h.firstRule ..).2

theorem FromTable.afterMatches (h : reg.FromTable table) (calls : List (Option Str × (ℕ → T))) :
    (reg.afterMatches table calls).FromTable table := by
  induction calls generalizing reg with
  | nil => exact h
  | cons c calls ih => exact ih (h.matchPeer c.1 c.2)

@[simp] theorem rules_afterMatches (calls : List (Option Str × (ℕ → T))) :
    (reg.afterMatches table calls).rules = reg.rules := by
  induction calls generalizing reg with
  | nil => rfl
  | cons c calls ih => exact ih.trans rules_matchPeer

end ClientRegistry

/-! ### The first rule that covers a peer -/

variable {T : Type} [LinearOrder T] [Add T]

/-- **When `match` honours every entry.**  For a peer that is an address, after any calls, it
returns the first rule that covers the peer, or nothing if none does, exactly when it does not go
past that rule. -/
theorem match_first_cover_iff (spec : Option Str) (ttl : T) (table : Str → List Str)
    (earlier : List (Option Str × (ℕ → T))) (clock : ℕ → T) {peer : Str} {address : IPAddress}
    (hpeer : ipAddress peer = some address) :
    ((((registryFromEnv spec ttl).afterMatches table earlier).matchPeer (tableLookups table clock)
        (some peer)).1 = some ((parseClientRules spec).find? (·.covers table address))) ↔
      ∀ r, (parseClientRules spec).find? (·.covers table address) = some r →
        ¬ r.GoneBy table address := by
  have hfrom : ((registryFromEnv spec ttl).afterMatches table earlier).FromTable table :=
    ClientRegistry.FromTable.afterMatches (fun _ _ h => absurd h.symm (Option.some_ne_none _)) earlier
  rw [ClientRegistry.matchPeer_of_ipAddress hpeer, (hfrom.firstRule ..).1,
    ClientRegistry.rules_afterMatches, Option.some_inj]
  refine (Lists.find?_eq_find?_iff fun r _ hr =>
    ClientRule.covers_of_has (readable_of_ipAddress hpeer) hr).trans (forall_congr' fun r => ?_)
  refine forall_congr' fun hfirst => ClientRule.has_iff ?_
  exact List.find?_some hfirst

/-- An entry that is the very address of an IPv4-mapped peer covers it, and is not returned. -/
theorem match_goes_past_mapped :
    ipAddress "::ffff:10.0.0.1".toList = some (.v6 0xffff0a000001 none) ∧
    ((registryFromEnv (some "::ffff:10.0.0.1".toList) (30 : ℤ)).matchPeer
        (tableLookups (fun _ => []) fun _ => 0) (some "::ffff:10.0.0.1".toList)).1 ≠
      some ((parseClientRules (some "::ffff:10.0.0.1".toList)).find?
        (·.covers (fun _ => []) (.v6 0xffff0a000001 none))) := by
  refine ⟨by decide +kernel, fun h => ?_⟩
  have hnames := congrArg (Option.map (Option.map ClientRule.name)) h
  exact absurd hnames (by decide +kernel)

/-- An IPv4 network covers an IPv4-mapped peer, before a hostname that has it too. -/
theorem match_first_cover_network :
    (((registryFromEnv (some "10.8.0.0/24=5,frontend".toList) (30 : ℤ)).afterMatches
        (fun _ => ["10.8.0.5".toList]) []).matchPeer
        (tableLookups (fun _ => ["10.8.0.5".toList]) fun _ => 0)
        (some "::ffff:10.8.0.5".toList)).1.map (Option.map ClientRule.name) =
      some (some "10.8.0.0/24".toList) := by
  have hpeer : ipAddress "::ffff:10.8.0.5".toList = some (.v6 0xffff0a080005 none) := by
    decide +kernel
  have hfirst : ((parseClientRules (some "10.8.0.0/24=5,frontend".toList)).find? (·.covers
      (fun _ => ["10.8.0.5".toList]) (.v6 0xffff0a080005 none))).all (fun r =>
        r.network.any (·.contains (.v4 0x0a080005))) = true := by decide +kernel
  rw [(match_first_cover_iff (some "10.8.0.0/24=5,frontend".toList) (30 : ℤ)
    (fun _ => ["10.8.0.5".toList]) [] (fun _ => 0) hpeer).2 fun r hr => ?_]
  · decide +kernel
  · rw [hr, Option.all_some] at hfirst
    unfold ClientRule.GoneBy
    cases hnet : r.network with
    | none =>
        rw [hnet] at hfirst
        cases hfirst
    | some network =>
        rw [hnet] at hfirst
        cases network with
        | v4 network => exact not_false
        | v6 network => cases hfirst

end PoetryGenerator
