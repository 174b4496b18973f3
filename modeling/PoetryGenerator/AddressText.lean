/-
# An address and its text (Python's `ipaddress`)

`ip_address(str(address))` is the address again, of both versions: an IPv4
address is written as four octets and read as four octets; an IPv6 address is
written as eight hextets of which the longest run of zeros is left out
(`compressHextets`), and read with the zeros put back where `::` stands
(`layout`).  A scope is kept as it is.

Of IPv6 the proof is in three steps: the parts that are written are laid out as
they were before the zeros were left out (`layout_parts`), each part is read as
its number (`parseHextet_toDigits`), and pushing the numbers of an address one
after the other gives the address (`push_hextets`).
-/

import PoetryGenerator.IpAddress
import PoetryGenerator.Lib.Lists

namespace PoetryGenerator

/-! ### Numbers -/

theorem parseOctet_toDigits : ∀ n < 256, parseOctet (Nat.toDigits 10 n) = some n := by
  decide +kernel

theorem hexDigit_digitChar : ∀ d < 16, hexDigit (Nat.digitChar d) = some d := by decide

/-- The digits of a number are read as the number. -/
theorem mapM_hexDigit_toDigits (n : ℕ) : ∃ ds, (Nat.toDigits 16 n).mapM hexDigit = some ds ∧
    ds.foldl (fun n digit => 16 * n + digit) 0 = n := by
  induction n using Nat.strong_induction_on with
  | _ n ih =>
      rw [Nat.toDigits_eq_if (by decide)]
      split_ifs with hn
      · exact ⟨[n], by simp [hexDigit_digitChar n hn], by simp⟩
      · obtain ⟨ds, hds, hvalue⟩ := ih (n / 16) (by omega)
        refine ⟨ds ++ [n % 16], ?_, ?_⟩
        · rw [List.mapM_append, hds]
          simp [hexDigit_digitChar (n % 16) (Nat.mod_lt _ (by decide))]
        · rw [List.foldl_append, hvalue]
          simp only [List.foldl_cons, List.foldl_nil]
          omega

theorem parseHextet_toDigits {n : ℕ} (hn : n < 0x10000) :
    parseHextet (Nat.toDigits 16 n) = some n := by
  obtain ⟨ds, hds, hvalue⟩ := mapM_hexDigit_toDigits n
  have hlen : (Nat.toDigits 16 n).length ≤ 4 :=
    (Nat.length_toDigits_le_iff (by decide) (by decide)).2 hn
  rw [parseHextet, if_neg (not_or.2 ⟨Nat.toDigits_ne_nil, not_lt.2 hlen⟩), hds, Option.map_some,
    hvalue]

/-- The characters of a number are its digits. -/
theorem notMem_toDigits {b n : ℕ} {c : Char} (hb : 1 < b) (hb' : b ≤ 16)
    (hc : ∀ d < 16, Nat.digitChar d ≠ c) : c ∉ Nat.toDigits b n := by
  induction n using Nat.strong_induction_on with
  | _ n ih =>
      rw [Nat.toDigits_eq_if hb]
      split_ifs with hn
      · rw [List.mem_singleton]
        exact fun h => hc n (by omega) h.symm
      · rw [List.mem_append, List.mem_singleton, not_or]
        have hmod := Nat.mod_lt n (show 0 < b by omega)
        exact ⟨ih _ (Nat.div_lt_self (by omega) hb), fun h => hc (n % b) (by omega) h.symm⟩

/-- `m` is so many bits. -/
def IsWidth (m w : ℕ) : Prop := ∀ x j : ℕ, (x % m).testBit j = (decide (j < w) && x.testBit j)

theorem isWidth_octet : IsWidth 0x100 8 := fun x j => Nat.testBit_mod_two_pow x 8 j

theorem isWidth_hextet : IsWidth 0x10000 16 := fun x j => Nat.testBit_mod_two_pow x 16 j

/-- The upper bits, then the next. -/
theorem push_extract {n m w : ℕ} (hm : IsWidth m w) (i : ℕ) (ip : BitVec n) :
    (ip >>> (i + w)) <<< w ||| BitVec.ofNat n ((ip >>> i).toNat % m) = ip >>> i := by
  refine BitVec.eq_of_getLsbD_eq fun j hj => ?_
  rw [BitVec.getLsbD_or, BitVec.getLsbD_shiftLeft, BitVec.getLsbD_ushiftRight,
    BitVec.getLsbD_ushiftRight, BitVec.getLsbD_ofNat, hm, BitVec.testBit_toNat,
    BitVec.getLsbD_ushiftRight]
  by_cases hw : j < w
  · simp [hj, hw]
  · simp only [hj, hw, decide_true, decide_false, Bool.not_false, Bool.true_and, Bool.false_and,
      Bool.and_false, Bool.or_false]
    congr 1
    omega

/-! ### IPv4 -/

/-- A text with a colon is no IPv4 address. -/
theorem ipv4Address_of_colon {s : Str} (h : ':' ∈ s) : ipv4Address s = none := by
  obtain ⟨part, hpart, hcolon⟩ : ∃ part ∈ s.splitOn '.', ':' ∈ part := by
    by_contra hno
    have hjoin : ['.'].intercalate (s.splitOn '.') = s := List.intercalate_splitOn '.'
    rw [← hjoin] at h
    exact Lists.notMem_intercalate (by decide) (fun part hpart hc => hno ⟨part, hpart, hc⟩) h
  have hoctets : (s.splitOn '.').mapM parseOctet = none := by
    cases hm : (s.splitOn '.').mapM parseOctet with
    | none => rfl
    | some octets =>
        have hsome := Lists.isSome_of_mapM hm part hpart
        have hdigits : isDigits part = false := by
          rw [isDigits, Bool.and_eq_false_iff]
          exact .inr (List.all_eq_false.2 ⟨':', hcolon, by decide⟩)
        rw [parseOctet, if_neg (by simp [hdigits])] at hsome
        cases hsome
  rw [ipv4Address, ipv4IntFromString, hoctets]
  split_ifs <;> rfl

theorem ipv4Address_toStr (ip : BitVec 32) : ipv4Address (IPAddress.v4 ip).toStr = some ip := by
  have hchars : ∀ c, (∀ d < 16, Nat.digitChar d ≠ c) → ∀ part ∈ [24, 16, 8, 0].map fun i =>
      Nat.toDigits 10 ((ip >>> i).toNat % 0x100), c ∉ part := fun c hc part hpart => by
    obtain ⟨i, -, rfl⟩ := List.mem_map.1 hpart
    exact notMem_toDigits (by decide) (by decide) hc
  have hslash : '/' ∉ (IPAddress.v4 ip).toStr :=
    Lists.notMem_intercalate (by decide) (hchars '/' (by decide))
  have htop : ip >>> (24 + 8) = 0 := BitVec.ushiftRight_eq_zero le_rfl
  have hparts : ([24, 16, 8, 0].map fun i => Nat.toDigits 10 ((ip >>> i).toNat % 0x100)) =
      ([24, 16, 8, 0].map fun i => (ip >>> i).toNat % 0x100).map (Nat.toDigits 10) := rfl
  rw [ipv4Address, if_neg hslash, ipv4IntFromString, IPAddress.toStr,
    List.splitOn_intercalate '.' (hchars '.' (by decide)) (by simp), hparts,
    Lists.mapM_map_eq_some fun n hn => ?_]
  · simp only [List.map_cons, List.map_nil, List.length_cons, List.length_nil, ne_eq,
      not_true, if_false, Option.map_some, List.foldl_cons, List.foldl_nil]
    have hpush := fun i => push_extract isWidth_octet i ip
    rw [← htop, hpush 24, hpush 16, hpush 8, hpush 0]
    rfl
  · obtain ⟨i, -, rfl⟩ := List.mem_map.1 hn
    exact parseOctet_toDigits _ (Nat.mod_lt _ (by decide))

/-! ### The zeros that are left out -/

/-- One step of `compressHextets`: the best run, its start and length, and the one that is read. -/
def longerRun (best : (ℕ × ℕ) × ℕ) (hextet : Str × ℕ) : (ℕ × ℕ) × ℕ :=
  if hextet.1 = ['0'] then
    if best.1.2 < best.2 + 1 then ((hextet.2 - best.2, best.2 + 1), best.2 + 1)
    else (best.1, best.2 + 1)
  else (best.1, 0)

/-- The best run and the one that is read are runs of zeros. -/
structure ZeroRuns (hextets : List Str) (best : (ℕ × ℕ) × ℕ) : Prop where
  inside : best.1.1 + best.1.2 ≤ hextets.length
  run_le : best.2 ≤ hextets.length
  zeros : ∀ i, best.1.1 ≤ i → i < best.1.1 + best.1.2 → hextets[i]? = some ['0']
  run : ∀ i, hextets.length - best.2 ≤ i → i < hextets.length → hextets[i]? = some ['0']

theorem ZeroRuns.step {hextets : List Str} {best : (ℕ × ℕ) × ℕ} (h : ZeroRuns hextets best)
    (hextet : Str) : ZeroRuns (hextets ++ [hextet]) (longerRun best (hextet, hextets.length)) := by
  obtain ⟨⟨start, len⟩, run⟩ := best
  obtain ⟨hinside, hrun_le, hzeros, hrun⟩ := h
  simp only at hinside hrun_le hzeros hrun
  have hold : ∀ i < hextets.length, (hextets ++ [hextet])[i]? = hextets[i]? := fun i hi =>
    List.getElem?_append_left hi
  have hnew : (hextets ++ [hextet])[hextets.length]? = some hextet := by simp
  have hlonger : hextet = ['0'] → ∀ i, hextets.length - run ≤ i → i < hextets.length + 1 →
      (hextets ++ [hextet])[i]? = some ['0'] := fun hzero i hi hi' => by
    rcases Nat.lt_succ_iff_lt_or_eq.1 hi' with hlt | rfl
    · rw [hold i hlt]
      exact hrun i hi hlt
    · rw [hnew, hzero]
  unfold longerRun
  simp only
  split_ifs with hzero hbetter
  · refine ⟨?_, ?_, fun i hi hi' => ?_, fun i hi hi' => ?_⟩ <;>
      simp only [List.length_append, List.length_singleton] at *
    · omega
    · omega
    · exact hlonger hzero i hi (by omega)
    · exact hlonger hzero i (by omega) hi'
  · refine ⟨?_, ?_, fun i hi hi' => ?_, fun i hi hi' => ?_⟩ <;>
      simp only [List.length_append, List.length_singleton] at *
    · omega
    · omega
    · rw [hold i (by omega)]
      exact hzeros i hi hi'
    · exact hlonger hzero i (by omega) hi'
  · refine ⟨?_, ?_, fun i hi hi' => ?_, fun i hi hi' => ?_⟩ <;>
      simp only [List.length_append, List.length_singleton] at *
    · omega
    · omega
    · rw [hold i (by omega)]
      exact hzeros i hi hi'
    · omega

theorem zeroRuns_foldl (hextets : List Str) :
    ZeroRuns hextets (hextets.zipIdx.foldl longerRun ((0, 0), 0)) := by
  induction hextets using List.reverseRecOn with
  | nil => exact ⟨le_rfl, le_rfl, fun i _ h => absurd h (by simp), fun i _ h => absurd h (by simp)⟩
  | append_singleton hextets hextet ih =>
      rw [List.zipIdx_append, List.foldl_append]
      simpa using ih.step hextet

/-- The parts on one side of the zeros; an empty one stands for none. -/
def side (parts : List Str) : List Str := if parts = [] then [[]] else parts

theorem length_side (parts : List Str) : (side parts).length = max 1 parts.length := by
  unfold side
  split_ifs with h
  · rw [h]
    rfl
  · have := List.length_pos_iff.2 h
    omega

/-- The parts of an address with some zeros left out. -/
def shortened (above below : List Str) : List Str := side above ++ [] :: side below

theorem length_shortened (above below : List Str) : (shortened above below).length =
    max 1 above.length + 1 + max 1 below.length := by
  rw [shortened, List.length_append, List.length_cons, length_side, length_side]
  omega

/-- **Either nothing is left out, or two zeros or more.** -/
theorem compressHextets_cases (hextets : List Str) : compressHextets hextets = hextets ∨
    ∃ above len below, 2 ≤ len ∧ hextets = above ++ List.replicate len ['0'] ++ below ∧
      compressHextets hextets = shortened above below := by
  obtain ⟨hinside, -, hzeros, -⟩ := zeroRuns_foldl hextets
  have heq : compressHextets hextets =
      if 1 < (hextets.zipIdx.foldl longerRun ((0, 0), 0)).1.2 then
        (if (hextets.zipIdx.foldl longerRun ((0, 0), 0)).1.1 = 0 then [[]] else []) ++
          hextets.take (hextets.zipIdx.foldl longerRun ((0, 0), 0)).1.1 ++ [[]] ++
          hextets.drop ((hextets.zipIdx.foldl longerRun ((0, 0), 0)).1.1 +
            (hextets.zipIdx.foldl longerRun ((0, 0), 0)).1.2) ++
          (if (hextets.zipIdx.foldl longerRun ((0, 0), 0)).1.1 +
            (hextets.zipIdx.foldl longerRun ((0, 0), 0)).1.2 = hextets.length then [[]] else [])
      else hextets := rfl
  rw [heq]
  generalize (hextets.zipIdx.foldl longerRun ((0, 0), 0)).1.1 = start at *
  generalize (hextets.zipIdx.foldl longerRun ((0, 0), 0)).1.2 = len at *
  by_cases hlen : 1 < len
  · rw [if_pos hlen]
    have hrun : (hextets.drop start).take len = List.replicate len ['0'] := by
      refine List.eq_replicate_iff.2 ⟨by simp; omega, fun part hpart => ?_⟩
      obtain ⟨i, hi, rfl⟩ := List.mem_iff_getElem.1 hpart
      have hzero := hzeros (start + i) (by omega) (by simp at hi; omega)
      rw [List.getElem_take, List.getElem_drop]
      exact Option.some.inj ((List.getElem?_eq_getElem _).symm.trans hzero)
    have hstart : hextets.take start = [] ↔ start = 0 := by
      rw [← List.length_eq_zero_iff, List.length_take]
      omega
    have hend : hextets.drop (start + len) = [] ↔ start + len = hextets.length := by
      rw [← List.length_eq_zero_iff, List.length_drop]
      omega
    refine .inr ⟨hextets.take start, len, hextets.drop (start + len), hlen, ?_, ?_⟩
    · rw [← hrun, List.append_assoc, ← List.drop_drop, List.take_append_drop, List.take_append_drop]
    · simp only [shortened, side, hstart, hend]
      split_ifs with hzero hall hall
      · rw [hend.2 hall, hzero]
        simp
      · simp [hzero]
      · rw [hend.2 hall]
        simp
      · simp
  · exact .inl (if_neg hlen)

theorem mem_shortened {above below : List Str} {part : Str} (h : part ∈ shortened above below) :
    part = [] ∨ part ∈ above ∨ part ∈ below := by
  unfold shortened side at h
  split_ifs at h <;> simp at h <;> tauto

theorem mem_compressHextets {hextets : List Str} {part : Str}
    (h : part ∈ compressHextets hextets) : part = [] ∨ part ∈ hextets := by
  rcases compressHextets_cases hextets with heq | ⟨above, len, below, -, hparts, heq⟩
  · exact .inr (heq ▸ h)
  · rw [heq] at h
    rw [hparts]
    rcases mem_shortened h with hnil | hmem | hmem
    · exact .inl hnil
    · exact .inr (List.mem_append_left _ (List.mem_append_left _ hmem))
    · exact .inr (List.mem_append_right _ hmem)

theorem two_le_length_compressHextets {hextets : List Str} (h : 2 ≤ hextets.length) :
    2 ≤ (compressHextets hextets).length := by
  rcases compressHextets_cases hextets with heq | ⟨above, len, below, -, -, heq⟩
  · rwa [heq]
  · rw [heq, length_shortened]
    omega

/-- A filter that one number meets. -/
theorem filter_range_eq_singleton {n k : ℕ} {p : ℕ → Bool} (hk : k < n)
    (hp : ∀ i < n, p i = true ↔ i = k) : (List.range n).filter p = [k] := by
  have hsame : (List.range n).filter p = (List.range n).filter (· == k) :=
    List.filter_congr fun i hi => by
      rw [Bool.eq_iff_iff, hp i (List.mem_range.1 hi), beq_iff_eq]
  rw [hsame, List.filter_beq, List.nodup_range.count, if_pos (List.mem_range.2 hk)]
  rfl

theorem getElem?_side {parts : List Str} (h : [] ∉ parts) {i : ℕ} :
    (side parts)[i]? = some [] ↔ parts.length = 0 ∧ i = 0 := by
  rw [List.length_eq_zero_iff]
  unfold side
  split_ifs with hnil
  · cases i <;> simp [hnil]
  · exact iff_of_false (fun hget => h (List.mem_of_getElem? hget)) fun hboth => hnil hboth.1

/-- **The parts are laid out as they were.** -/
theorem layout_shortened {above below : List Str} (habove : [] ∉ above) (hbelow : [] ∉ below)
    (hlen : above.length + below.length < 8) : layout (shortened above below) =
      some (above.length, 8 - (above.length + below.length), below.length) := by
  have ha := length_side above
  have hb := length_side below
  have hn := length_shortened above below
  rw [← ha, ← hb] at hn
  have hget : ∀ i, (shortened above below)[i]? = some [] ↔
      (above.length = 0 ∧ i = 0) ∨ i = (side above).length ∨
        (below.length = 0 ∧ i = (side above).length + 1) := fun i => by
    rw [shortened, List.getElem?_append]
    split_ifs with hi
    · rw [getElem?_side habove]
      omega
    · obtain ⟨j, rfl⟩ := Nat.exists_eq_add_of_le (not_lt.1 hi)
      rw [Nat.add_sub_cancel_left]
      cases j with
      | zero => simp
      | succ j =>
          rw [List.getElem?_cons_succ, getElem?_side hbelow]
          omega
  have hfilter : ((List.range (shortened above below).length).filter fun i => decide (0 < i ∧
      i + 1 < (shortened above below).length ∧ (shortened above below)[i]? = some [])) =
        [(side above).length] := by
    refine filter_range_eq_singleton (by omega) fun i hi => ?_
    rw [decide_eq_true_iff, hget i]
    omega
  have hfirst : (shortened above below).head? = some [] ↔ above.length = 0 := by
    rw [List.head?_eq_getElem?, hget 0]
    omega
  have hlast : (shortened above below).getLast? = some [] ↔ below.length = 0 := by
    rw [List.getLast?_eq_getElem?, hget]
    omega
  unfold layout
  simp only [hfirst, hlast]
  rw [hfilter]
  simp only [hn]
  split_ifs <;> first | omega | (simp only [Option.some.injEq, Prod.mk.injEq]; omega)

theorem take_shortened (above below : List Str) :
    (shortened above below).take above.length = above := by
  unfold shortened side
  split_ifs with h
  · simp [h]
  · simp [h]
  · simp
  · simp

theorem drop_shortened (above below : List Str) : (shortened above below).drop
    ((shortened above below).length - below.length) = below := by
  obtain ⟨front, hfront⟩ : ∃ front, shortened above below = front ++ below := by
    unfold shortened side
    split_ifs with _ h h
    · exact ⟨_, by rw [h, List.append_nil]⟩
    · exact ⟨_, List.append_cons ..⟩
    · exact ⟨_, by rw [h, List.append_nil]⟩
    · exact ⟨_, List.append_cons ..⟩
  rw [hfront, List.length_append, Nat.add_sub_cancel, List.drop_left]

theorem layout_eight {parts : List Str} (hlen : parts.length = 8) (hparts : [] ∉ parts) :
    layout parts = some (8, 0, 0) := by
  have hget : ∀ i, parts[i]? ≠ some [] := fun i h => hparts (List.mem_of_getElem? h)
  have hhead : parts.head? ≠ some [] := fun h => hparts (List.mem_of_head? h)
  have hlast : parts.getLast? ≠ some [] := fun h => hparts (List.mem_of_getLast? h)
  unfold layout
  simp only [hget, and_false, decide_false, List.filter_false, hlen, hhead, hlast, ne_eq,
    not_true, or_false, if_false]

/-! ### IPv6 -/

/-- Hextets pushed onto a value. -/
def push (ip : BitVec 128) (hextets : List ℕ) : BitVec 128 :=
  hextets.foldl (fun ip hextet => ip <<< 16 ||| BitVec.ofNat 128 hextet) ip

theorem push_append (ip : BitVec 128) (above below : List ℕ) :
    push ip (above ++ below) = push (push ip above) below := List.foldl_append

/-- Zeros are a shift. -/
theorem push_replicate (ip : BitVec 128) (n : ℕ) :
    push ip (List.replicate n 0) = ip <<< (16 * n) := by
  induction n generalizing ip with
  | zero => simp [push]
  | succ n ih =>
      rw [List.replicate_succ, push, List.foldl_cons, ← push, ih, BitVec.or_zero,
        ← BitVec.shiftLeft_add, Nat.mul_succ, Nat.add_comm]

/-- The hextets of an address. -/
def hextets (ip : BitVec 128) : List ℕ :=
  [112, 96, 80, 64, 48, 32, 16, 0].map fun i => (ip >>> i).toNat % 0x10000

theorem push_hextets (ip : BitVec 128) : push 0 (hextets ip) = ip := by
  have htop : ip >>> (112 + 16) = 0 := BitVec.ushiftRight_eq_zero le_rfl
  simp only [push, hextets, List.map_cons, List.map_nil, List.foldl_cons, List.foldl_nil]
  have hpush := fun i => push_extract isWidth_hextet i ip
  rw [← htop, hpush 112, hpush 96, hpush 80, hpush 64, hpush 48, hpush 32, hpush 16, hpush 0]
  rfl

section Parts
variable {parts : List Str} (hcolon : ∀ part ∈ parts, ':' ∉ part) (hdot : ∀ part ∈ parts, '.' ∉ part)
include hcolon hdot

/-- What is read of separated parts, when none of them is a dotted suffix. -/
theorem ipv6IntFromString_intercalate (hmin : 3 ≤ parts.length) (hmax : parts.length ≤ 9)
    {hi skipped lo : ℕ} {above below : List ℕ} (hlayout : layout parts = some (hi, skipped, lo))
    (habove : (parts.take hi).mapM parseHextet = some above)
    (hbelow : (parts.drop (parts.length - lo)).mapM parseHextet = some below) :
    ipv6IntFromString ([':'].intercalate parts) =
      some (push (push 0 above <<< (16 * skipped)) below) := by
  have hne : parts ≠ [] := by
    rintro rfl
    cases hmin
  have hsuffix : withoutSuffix parts = some parts := by
    rw [withoutSuffix, List.getLast?_eq_some_getLast hne]
    exact if_neg (hdot _ (List.getLast_mem hne))
  rw [ipv6IntFromString, List.splitOn_intercalate ':' hcolon hne]
  simp only [if_neg (not_lt.2 hmin), hsuffix, Option.bind_some, if_neg (not_lt.2 hmax), hlayout,
    habove, hbelow, Option.map_some]
  rfl

end Parts

/-- The texts of the hextets. -/
theorem mem_map_toDigits {ns : List ℕ} {part : Str} (h : part ∈ ns.map (Nat.toDigits 16)) :
    part ≠ [] ∧ ∀ c, (∀ d < 16, Nat.digitChar d ≠ c) → c ∉ part := by
  obtain ⟨n, -, rfl⟩ := List.mem_map.1 h
  exact ⟨Nat.toDigits_ne_nil, fun c hc => notMem_toDigits (by decide) (by decide) hc⟩

theorem eq_replicate_of_map_toDigits {ns : List ℕ} {len : ℕ} (hns : ∀ n ∈ ns, n < 0x10000)
    (h : ns.map (Nat.toDigits 16) = List.replicate len ['0']) : ns = List.replicate len 0 := by
  have hlen := congrArg List.length h
  rw [List.length_map, List.length_replicate] at hlen
  refine List.eq_replicate_iff.2 ⟨hlen, fun n hn => ?_⟩
  have hzero : Nat.toDigits 16 n = ['0'] :=
    List.eq_of_mem_replicate (h ▸ List.mem_map_of_mem hn)
  have hread := parseHextet_toDigits (hns n hn)
  rw [hzero] at hread
  exact (Option.some.inj (hread.symm.trans (by decide : parseHextet ['0'] = some 0)))

/-- **The text of an address without its scope is read as the address.** -/
theorem ipv6IntFromString_hextets (ip : BitVec 128) : ipv6IntFromString
    ([':'].intercalate (compressHextets ((hextets ip).map (Nat.toDigits 16)))) = some ip := by
  have hlt : ∀ n ∈ hextets ip, n < 0x10000 := fun n hn => by
    obtain ⟨i, -, rfl⟩ := List.mem_map.1 hn
    exact Nat.mod_lt _ (by decide)
  have hread : ∀ ns : List ℕ, (∀ n ∈ ns, n ∈ hextets ip) →
      (ns.map (Nat.toDigits 16)).mapM parseHextet = some ns := fun ns hns =>
    Lists.mapM_map_eq_some fun n hn => parseHextet_toDigits (hlt n (hns n hn))
  have hpush := push_hextets ip
  have hlen : (hextets ip).length = 8 := rfl
  have hnil : ∀ ns : List ℕ, [] ∉ ns.map (Nat.toDigits 16) := fun ns h => (mem_map_toDigits h).1 rfl
  rcases compressHextets_cases ((hextets ip).map (Nat.toDigits 16)) with
    heq | ⟨above, len, below, hlen2, hparts, heq⟩
  · have hlen8 : ((hextets ip).map (Nat.toDigits 16)).length = 8 := rfl
    have htake : (((hextets ip).map (Nat.toDigits 16)).take 8).mapM parseHextet = some (hextets ip) := by
      rw [List.take_of_length_le hlen8.le]
      exact hread _ fun n hn => hn
    have hdrop : (((hextets ip).map (Nat.toDigits 16)).drop
        (((hextets ip).map (Nat.toDigits 16)).length - 0)).mapM parseHextet = some [] := by
      rw [Nat.sub_zero, List.drop_length]
      rfl
    rw [heq, ipv6IntFromString_intercalate (fun part hp => (mem_map_toDigits hp).2 _ (by decide))
      (fun part hp => (mem_map_toDigits hp).2 _ (by decide)) (by rw [hlen8]; decide)
      (by rw [hlen8]; decide) (layout_eight hlen8 (hnil _)) htake hdrop, hpush]
    exact congrArg some (BitVec.shiftLeft_zero _)
  · obtain ⟨front, lower, hfront, hfrontmap, rfl⟩ := List.map_eq_append_iff.1 hparts
    obtain ⟨upper, zeros, hsplit, rfl, hzeros⟩ := List.map_eq_append_iff.1 hfrontmap
    obtain rfl := eq_replicate_of_map_toDigits (fun n hn => hlt n (by simp [hfront, hsplit, hn])) hzeros
    have hcount : upper.length + len + lower.length = 8 := by
      have hall := congrArg List.length hfront
      rw [hlen, hsplit, List.length_append, List.length_append, List.length_replicate] at hall
      exact hall.symm
    have hchar : ∀ c, (∀ d < 16, Nat.digitChar d ≠ c) → ∀ part ∈
        shortened (upper.map (Nat.toDigits 16)) (lower.map (Nat.toDigits 16)), c ∉ part := by
      intro c hc part hpart
      rcases mem_shortened hpart with rfl | hmem | hmem
      · exact List.not_mem_nil
      · exact (mem_map_toDigits hmem).2 c hc
      · exact (mem_map_toDigits hmem).2 c hc
    have hlayout := layout_shortened (hnil upper) (hnil lower) (by simp only [List.length_map]; omega)
    have htake := take_shortened (upper.map (Nat.toDigits 16)) (lower.map (Nat.toDigits 16))
    have hdrop := drop_shortened (upper.map (Nat.toDigits 16)) (lower.map (Nat.toDigits 16))
    have hshort := length_shortened (upper.map (Nat.toDigits 16)) (lower.map (Nat.toDigits 16))
    simp only [List.length_map] at hshort
    rw [heq, ipv6IntFromString_intercalate (hchar _ (by decide)) (hchar _ (by decide))
      (by omega) (by omega) hlayout
      (by rw [htake]; exact hread _ fun n hn => by simp [hfront, hsplit, hn])
      (by rw [hdrop]; exact hread _ fun n hn => by simp [hfront, hn])]
    rw [← hpush, hfront, hsplit, push_append, push_append, push_replicate]
    simp only [List.length_map]
    congr 4
    omega

/-! ### The text of an address -/

/-- A scope as it is read. -/
def IPAddress.Readable : IPAddress → Prop
  | .v6 _ (some scopeId) => scopeId ≠ [] ∧ '%' ∉ scopeId ∧ '/' ∉ scopeId
  | _ => True

variable {s : Str} {a : IPAddress}

theorem readable_of_ipAddress (h : ipAddress s = some a) : a.Readable := by
  unfold ipAddress at h
  cases h4 : ipv4Address s with
  | some ip =>
      rw [h4] at h
      obtain rfl := Option.some.inj h
      exact trivial
  | none =>
      rw [h4] at h
      obtain ⟨⟨ip, scopeId⟩, h6, rfl⟩ := Option.map_eq_some_iff.1 h
      unfold ipv6Address at h6
      split_ifs at h6 with hslash
      obtain ⟨⟨addr, scopeId'⟩, hscope, h6⟩ := Option.bind_eq_some_iff.1 h6
      obtain ⟨ip', -, heq⟩ := Option.map_eq_some_iff.1 h6
      obtain ⟨-, rfl⟩ := Prod.mk.inj heq
      cases scopeId' with
      | none => exact trivial
      | some scopeId =>
          simp only [splitScopeId] at hscope
          split_ifs at hscope with hpercent hbad
          · obtain ⟨-, hid⟩ := Prod.mk.inj (Option.some.inj hscope)
            obtain rfl := Option.some.inj hid
            obtain ⟨hne, hno⟩ := not_or.1 hbad
            refine ⟨hne, hno, fun hmem => hslash ?_⟩
            exact (List.dropWhile_sublist _).subset (List.mem_of_mem_drop hmem)
          · cases hscope

theorem IPAddress.Readable.unmapped (h : a.Readable) : a.unmapped.Readable := by
  cases a with
  | v4 ip => exact trivial
  | v6 ip scopeId =>
      rw [IPAddress.unmapped_v6]
      cases ipv4Mapped ip with
      | none => exact h
      | some ip' => exact trivial

/-- **The text of an address is read as the address.** -/
theorem ipAddress_toStr (h : a.Readable) : ipAddress a.toStr = some a := by
  cases a with
  | v4 ip => rw [ipAddress, ipv4Address_toStr]
  | v6 ip scopeId =>
      have hread := ipv6IntFromString_hextets ip
      have hcolon : ':' ∈ [':'].intercalate
          (compressHextets ((hextets ip).map (Nat.toDigits 16))) :=
        Lists.mem_intercalate_of_mem (List.mem_singleton_self _) (two_le_length_compressHextets (Nat.le_add_left 2 6))
      have hchar : ∀ c, c ≠ ':' → (∀ d < 16, Nat.digitChar d ≠ c) → c ∉ [':'].intercalate
          (compressHextets ((hextets ip).map (Nat.toDigits 16))) := fun c hc hdigit =>
        Lists.notMem_intercalate (fun h => hc (List.mem_singleton.1 h)) fun part hpart => by
          rcases mem_compressHextets hpart with rfl | hmem
          · exact List.not_mem_nil
          · exact (mem_map_toDigits hmem).2 c hdigit
      have hslash := hchar '/' (by decide) (by decide)
      have hpercent := hchar '%' (by decide) (by decide)
      show ipAddress ([':'].intercalate (compressHextets ((hextets ip).map (Nat.toDigits 16))) ++
        (scopeId.map ('%' :: ·)).getD []) = _
      generalize [':'].intercalate (compressHextets ((hextets ip).map (Nat.toDigits 16))) = addr at *
      rw [ipAddress, ipv4Address_of_colon (List.mem_append_left _ hcolon), ipv6Address]
      cases scopeId with
      | none =>
          rw [Option.map_none, Option.getD_none, List.append_nil, if_neg hslash, splitScopeId,
            Str.partition_of_notMem hpercent]
          simp only [if_pos hpercent, Option.bind_some, hread, Option.map_some]
      | some scopeId =>
          obtain ⟨hne, hno, hno'⟩ := h
          rw [Option.map_some, Option.getD_some, if_neg, splitScopeId,
            Str.partition_append_cons hpercent]
          · have hin : '%' ∈ addr ++ '%' :: scopeId := by simp
            simp only [hin, not_true, if_false, hne, hno, or_self, Option.bind_some, hread,
              Option.map_some]
          · simp [hslash, hno']

end PoetryGenerator
