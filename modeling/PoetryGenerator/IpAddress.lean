/-
# IP addresses and networks (Python's `ipaddress`)

`ip_address` and `ip_network(.., strict=False)` as Python's standard library
documents and defines them: dotted quads without leading zeros, IPv6 with at most
one `::`, a dotted suffix and a scope, networks with a prefix length or (of IPv4)
a netmask or a hostmask.  An error is `none`.

Two facts are used: the text of an address, read as a network, is the network of
that address alone (`ipNetwork_of_ipAddress`), and no address that has been
`unmapped` lies in the network of an IPv4-mapped one (`not_contains_of_mapped`).
-/

import PoetryGenerator.Text

namespace PoetryGenerator

/-- `s.partition(c)`, without the separator. -/
def Str.partition (s : Str) (c : Char) : Str × Str :=
  (s.takeWhile (· ≠ c), (s.dropWhile (· ≠ c)).drop 1)

theorem Str.partition_of_notMem {s : Str} {c : Char} (h : c ∉ s) : Str.partition s c = (s, []) := by
  have hall : ∀ x ∈ s, decide (x ≠ c) = true := fun x hx => decide_eq_true fun he => h (he ▸ hx)
  rw [Str.partition, List.takeWhile_eq_self_iff.2 hall, List.dropWhile_eq_nil_iff.2 hall,
    List.drop_nil]

theorem Str.partition_append_cons {s : Str} {c : Char} (h : c ∉ s) (t : Str) :
    Str.partition (s ++ c :: t) c = (s, t) := by
  have hall : ∀ x ∈ s, decide (x ≠ c) = true := fun x hx => decide_eq_true fun he => h (he ▸ hx)
  rw [Str.partition, List.takeWhile_append_of_pos hall, List.dropWhile_append_of_pos hall]
  simp

/-- `IPv4Address`, or `IPv6Address` with its scope. -/
inductive IPAddress
  | v4 (ip : BitVec 32)
  | v6 (ip : BitVec 128) (scopeId : Option Str)
  deriving DecidableEq

/-! ### Reading an address -/

/-- `s.isascii() and s.isdigit()`. -/
def isDigits (s : Str) : Bool := !s.isEmpty && s.all Char.isDigit

/-- `_parse_octet`. -/
def parseOctet (s : Str) : Option ℕ :=
  let octet := Nat.ofDigitChars 10 s 0
  if isDigits s ∧ s.length ≤ 3 ∧ (s = ['0'] ∨ s.head? ≠ some '0') ∧ octet ≤ 255 then some octet
  else none

/-- `_BaseV4._ip_int_from_string`. -/
def ipv4IntFromString (s : Str) : Option (BitVec 32) :=
  let octets := s.splitOn '.'
  if octets.length ≠ 4 then none
  else (octets.mapM parseOctet).map (List.foldl (fun ip octet => ip <<< 8 ||| BitVec.ofNat 32 octet) 0)

/-- `IPv4Address(s)`. -/
def ipv4Address (s : Str) : Option (BitVec 32) :=
  if '/' ∈ s then none else ipv4IntFromString s

/-- `_parse_hextet`. -/
def parseHextet (s : Str) : Option ℕ :=
  if s = [] ∨ 4 < s.length then none
  else (s.mapM hexDigit).map (List.foldl (fun n digit => 16 * n + digit) 0)

/-- The parts of an address, a dotted suffix written as two hextets. -/
def withoutSuffix (parts : List Str) : Option (List Str) :=
  match parts.getLast? with
  | none => none
  | some suffix =>
    if '.' ∈ suffix then
      (ipv4Address suffix).map fun ip : BitVec 32 => parts.dropLast ++
        [Nat.toDigits 16 (ip >>> 16).toNat, Nat.toDigits 16 (ip.toNat % 0x10000)]
    else some parts

/-- `parts_hi`, `parts_skipped` and `parts_lo`: how many parts stand before `::`, are left
out, and stand after it. -/
def layout (parts : List Str) : Option (ℕ × ℕ × ℕ) :=
  let n := parts.length
  let first := parts.head? = some []
  let last := parts.getLast? = some []
  match (List.range n).filter fun i => 0 < i ∧ i + 1 < n ∧ parts[i]? = some [] with
  | [] => if n ≠ 8 ∨ first ∨ last then none else some (n, 0, 0)
  | [skip] =>
    -- an empty end is only permitted as part of `::`
    if (first ∧ skip ≠ 1) ∨ (last ∧ n - skip - 1 ≠ 1) then none
    else
      let hi := if first then 0 else skip
      let lo := if last then 0 else n - skip - 1
      if 8 ≤ hi + lo then none else some (hi, 8 - (hi + lo), lo)
  | _ => none

/-- `_BaseV6._ip_int_from_string`. -/
def ipv6IntFromString (s : Str) : Option (BitVec 128) :=
  let parts := s.splitOn ':'
  if parts.length < 3 then none
  else (withoutSuffix parts).bind fun parts =>
    if 9 < parts.length then none
    else (layout parts).bind fun (hi, skipped, lo) =>
      let push := List.foldl fun (ip : BitVec 128) hextet => ip <<< 16 ||| BitVec.ofNat 128 hextet
      ((parts.take hi).mapM parseHextet).bind fun above =>
        ((parts.drop (parts.length - lo)).mapM parseHextet).map fun below =>
          push (push 0 above <<< (16 * skipped)) below

/-- `_split_scope_id`. -/
def splitScopeId (s : Str) : Option (Str × Option Str) :=
  let (addr, scopeId) := Str.partition s '%'
  if '%' ∉ s then some (addr, none)
  else if scopeId = [] ∨ '%' ∈ scopeId then none
  else some (addr, some scopeId)

/-- `IPv6Address(s)`. -/
def ipv6Address (s : Str) : Option (BitVec 128 × Option Str) :=
  if '/' ∈ s then none
  else (splitScopeId s).bind fun (addr, scopeId) => (ipv6IntFromString addr).map (·, scopeId)

/-- `ip_address(s)`. -/
def ipAddress (s : Str) : Option IPAddress :=
  match ipv4Address s with
  | some ip => some (.v4 ip)
  | none => (ipv6Address s).map fun (ip, scopeId) => .v6 ip scopeId

/-! ### Writing an address -/

/-- `_compress_hextets`: the longest run of at least two zeros is left out, of several the first. -/
def compressHextets (hextets : List Str) : List Str :=
  -- the best run, its start and length, and the one that is read
  let ((start, len), _) := hextets.zipIdx.foldl
    (fun ((start, len), run) (hextet, i) =>
      if hextet = ['0'] then
        if len < run + 1 then ((i - run, run + 1), run + 1) else ((start, len), run + 1)
      else ((start, len), 0)) ((0, 0), 0)
  if 1 < len then
    (if start = 0 then [[]] else []) ++ hextets.take start ++ [[]] ++ hextets.drop (start + len) ++
      (if start + len = hextets.length then [[]] else [])
  else hextets

/-- `str(address)`, of an address that is not IPv4-mapped. -/
def IPAddress.toStr : IPAddress → Str
  | .v4 ip => ['.'].intercalate ([24, 16, 8, 0].map fun i =>
      Nat.toDigits 10 ((ip >>> i).toNat % 0x100))
  | .v6 ip scopeId =>
    let hextets := [112, 96, 80, 64, 48, 32, 16, 0].map fun i =>
      Nat.toDigits 16 ((ip >>> i).toNat % 0x10000)
    [':'].intercalate (compressHextets hextets) ++ (scopeId.map ('%' :: ·)).getD []

/-- `ipv4_mapped` of an IPv6 address. -/
def ipv4Mapped (ip : BitVec 128) : Option (BitVec 32) :=
  if ip >>> 32 = 0xFFFF then some (ip.truncate 32) else none

/-- An IPv4-mapped address in IPv4 form. -/
def IPAddress.unmapped : IPAddress → IPAddress
  | .v4 ip => .v4 ip
  | .v6 ip scopeId => ((ipv4Mapped ip).map .v4).getD (.v6 ip scopeId)

theorem IPAddress.unmapped_v6 (ip : BitVec 128) (scopeId : Option Str) :
    (IPAddress.v6 ip scopeId).unmapped = ((ipv4Mapped ip).map .v4).getD (.v6 ip scopeId) := rfl

/-- Both notations of an address of the documentation block, shortened and with zeros. -/
example : (ipAddress "2001:DB8:0::0:192.0.2.33".toList).map IPAddress.toStr =
    some "2001:db8::c000:221".toList := by decide +kernel

/-! ### Networks -/

/-- `network_address` and `netmask`; the address has no host bits. -/
structure Network (w : ℕ) where
  networkAddress : BitVec w
  netmask : BitVec w
  noHostBits : networkAddress &&& netmask = networkAddress

/-- The network that an address is in. -/
def Network.mask {w : ℕ} (ip netmask : BitVec w) : Network w :=
  ⟨ip &&& netmask, netmask, by rw [BitVec.and_assoc, BitVec.and_self]⟩

/-- `_ip_int_from_prefix`. -/
def ipIntFromPrefix (w prefixlen : ℕ) : BitVec w :=
  BitVec.allOnes w ^^^ (BitVec.allOnes w >>> prefixlen)

/-- `IPv4Network` or `IPv6Network`; the scope of a network is not used. -/
inductive IPNetwork
  | v4 (network : Network 32)
  | v6 (network : Network 128)

/-- `address in network`. -/
def IPNetwork.contains : IPNetwork → IPAddress → Bool
  | .v4 network, .v4 ip => ip &&& network.netmask = network.networkAddress
  | .v6 network, .v6 ip _ => ip &&& network.netmask = network.networkAddress
  | _, _ => false

/-- `_prefix_from_prefix_string`; `int` refuses more than 4300 digits. -/
def prefixFromPrefixString (maxPrefixlen : ℕ) (s : Str) : Option ℕ :=
  let prefixlen := Nat.ofDigitChars 10 s 0
  if isDigits s ∧ s.length ≤ 4300 ∧ prefixlen ≤ maxPrefixlen then some prefixlen else none

/-- `_prefix_from_ip_int`: the prefix length whose netmask this is. -/
def prefixFromIpInt (ip : BitVec 32) : Option ℕ :=
  (List.range 33).find? fun prefixlen => ipIntFromPrefix 32 prefixlen = ip

/-- `_prefix_from_ip_string`: a netmask or a hostmask. -/
def prefixFromIpString (s : Str) : Option ℕ :=
  (ipv4IntFromString s).bind fun ip => (prefixFromIpInt ip).or (prefixFromIpInt (~~~ip))

/-- `_split_optional_netmask`. -/
def splitOptionalNetmask (s : Str) : Option (Str × Option Str) :=
  match s.splitOn '/' with
  | [addr] => some (addr, none)
  | [addr, mask] => some (addr, some mask)
  | _ => none

/-- `IPv4Network(s, strict=False)`. -/
def ipv4Network (s : Str) : Option (Network 32) :=
  (splitOptionalNetmask s).bind fun (addr, mask) => (ipv4Address addr).bind fun ip =>
    let prefixlen := match mask with
      | none => some 32
      | some mask => (prefixFromPrefixString 32 mask).or (prefixFromIpString mask)
    prefixlen.map fun prefixlen => Network.mask ip (ipIntFromPrefix 32 prefixlen)

/-- `IPv6Network(s, strict=False)`. -/
def ipv6Network (s : Str) : Option (Network 128) :=
  (splitOptionalNetmask s).bind fun (addr, mask) => (ipv6Address addr).bind fun (ip, _) =>
    let prefixlen := match mask with
      | none => some 128
      | some mask => prefixFromPrefixString 128 mask
    prefixlen.map fun prefixlen => Network.mask ip (ipIntFromPrefix 128 prefixlen)

/-- `ip_network(s, strict=False)`. -/
def ipNetwork (s : Str) : Option IPNetwork :=
  match ipv4Network s with
  | some network => some (.v4 network)
  | none => (ipv6Network s).map .v6

/-! ### An address read as a network -/

variable {s : Str} {a : IPAddress}

/-- The network of one address. -/
def IPAddress.host : IPAddress → IPNetwork
  | .v4 ip => .v4 (Network.mask ip (ipIntFromPrefix 32 32))
  | .v6 ip _ => .v6 (Network.mask ip (ipIntFromPrefix 128 128))

/-- The netmask of the longest prefix keeps every bit. -/
theorem and_ipIntFromPrefix_self {w : ℕ} (ip : BitVec w) : ip &&& ipIntFromPrefix w w = ip := by
  rw [ipIntFromPrefix, BitVec.ushiftRight_eq_zero le_rfl, BitVec.xor_zero, BitVec.and_allOnes]

theorem contains_host (a : IPAddress) : a.host.contains a = true := by
  cases a <;> exact decide_eq_true rfl

theorem splitOptionalNetmask_of_notMem (h : '/' ∉ s) : splitOptionalNetmask s = some (s, none) := by
  rw [splitOptionalNetmask, List.splitOn_eq_singleton h]

/-- Without a netmask it is the longest. -/
theorem ipv4Network_of_notMem (h : '/' ∉ s) : ipv4Network s =
    (ipv4Address s).map fun ip => Network.mask ip (ipIntFromPrefix 32 32) := by
  rw [ipv4Network, splitOptionalNetmask_of_notMem h]
  exact (Option.map_eq_bind ..).symm

theorem ipv6Network_of_notMem (h : '/' ∉ s) : ipv6Network s =
    (ipv6Address s).map fun a => Network.mask a.1 (ipIntFromPrefix 128 128) := by
  rw [ipv6Network, splitOptionalNetmask_of_notMem h]
  exact (Option.map_eq_bind ..).symm

/-- **The text of an address, read as a network, is the network of that address.** -/
theorem ipNetwork_of_ipAddress (h : ipAddress s = some a) : ipNetwork s = some a.host := by
  unfold ipAddress at h
  cases h4 : ipv4Address s with
  | some ip =>
      rw [h4] at h
      obtain rfl := Option.some.inj h
      have hslash : '/' ∉ s := fun hmem => by
        rw [ipv4Address, if_pos hmem] at h4
        cases h4
      rw [ipNetwork, ipv4Network_of_notMem hslash, h4]
      rfl
  | none =>
      rw [h4] at h
      obtain ⟨⟨ip, scopeId⟩, h6, rfl⟩ := Option.map_eq_some_iff.1 h
      have hslash : '/' ∉ s := fun hmem => by
        rw [ipv6Address, if_pos hmem] at h6
        cases h6
      rw [ipNetwork, ipv4Network_of_notMem hslash, ipv6Network_of_notMem hslash, h4, h6]
      rfl

/-- **No unmapped address lies in the network of an IPv4-mapped one.** -/
theorem not_contains_of_mapped (h : a.unmapped ≠ a) (b : IPAddress) :
    a.host.contains b.unmapped = false := by
  -- only an IPv6 address is ever mapped
  cases a with
  | v4 ip => exact absurd rfl h
  | v6 ip scopeId =>
      have hmapped : ipv4Mapped ip ≠ none := fun hnone => h (by rw [IPAddress.unmapped, hnone]; rfl)
      have hother : ∀ ip' scopeId', ipv4Mapped ip' = none →
          (IPAddress.v6 ip scopeId).host.contains (.v6 ip' scopeId') = false := by
        intro ip' scopeId' hnone
        refine decide_eq_false fun heq => hmapped ?_
        have hsame : ip' &&& ipIntFromPrefix 128 128 = ip &&& ipIntFromPrefix 128 128 := heq
        rw [and_ipIntFromPrefix_self, and_ipIntFromPrefix_self] at hsame
        rw [← hsame, hnone]
      cases b with
      | v4 ip' => rfl
      | v6 ip' scopeId' =>
          cases hb : ipv4Mapped ip' with
          | some ip4 =>
              rw [IPAddress.unmapped, hb]
              rfl
          | none =>
              rw [IPAddress.unmapped, hb]
              exact hother ip' scopeId' hb

end PoetryGenerator
