/-
# The JSON log (`api/app/observability.py`)

With `LOG_FORMAT=json` every record is one JSON object on a line of its own.  A message or
a request id may hold anything that a client sent, so what keeps the lines apart is the
escaping of `json.dumps`: it leaves no control character in a line.

A reader that splits the log at the line ends and parses each line has the records that
were logged, in order, with the texts they had (`log_decodes`).
-/

import PoetryGenerator.Json
import PoetryGenerator.Lib.Lists

namespace PoetryGenerator

namespace Json

/-! ### json.dumps -/

/-- A hexadecimal digit of `'\\u{0:04x}'`. -/
def hexChar (n : ℕ) : Char := Char.ofNat (if n < 10 then 48 + n else 87 + n)

/-- `ESCAPE_DCT`, with `ensure_ascii=False`. -/
def escape (c : Char) : Str :=
  if c = '\\' then "\\\\".toList
  else if c = '"' then "\\\"".toList
  else if c.toNat = 8 then "\\b".toList
  else if c.toNat = 12 then "\\f".toList
  else if c.toNat = 10 then "\\n".toList
  else if c.toNat = 13 then "\\r".toList
  else if c.toNat = 9 then "\\t".toList
  else if c.toNat ≤ 0x1f then ['\\', 'u', '0', '0', hexChar (c.toNat / 16), hexChar (c.toNat % 16)]
  else [c]

/-- `py_encode_basestring`. -/
def encodeString (s : Str) : Str := '"' :: (s.flatMap escape ++ ['"'])

/-- A member of a dict, with the default separator. -/
def encodeMember (member : Str × Str) : Str := encodeString member.1 ++ ": ".toList ++ encodeString member.2

/-- `json.dumps(payload, ensure_ascii=False)` of a dict with texts. -/
def dumps (payload : List (Str × Str)) : Str :=
  '{' :: (", ".toList.intercalate (payload.map encodeMember) ++ ['}'])

/-! ### A string is read back -/

/-- One character is read back. -/
theorem scanUnits_escape (c : Char) (s : Str) :
    scanUnits (escape c ++ s) = (scanUnits s).map fun (units, rest) => (c.toNat :: units, rest) := by
  unfold escape
  split_ifs with h₁ h₂ h₃ h₄ h₅ h₆ h₇ h₈
  · subst h₁
    rfl
  · subst h₂
    rfl
  · rw [h₃]
    rfl
  · rw [h₄]
    rfl
  · rw [h₅]
    rfl
  · rw [h₆]
    rfl
  · rw [h₇]
    rfl
  · have hu : ∀ n ≤ 0x1f, unicodeEscape '0' '0' (hexChar (n / 16)) (hexChar (n % 16)) = some n := by decide
    show scanUnits ('\\' :: 'u' :: '0' :: '0' :: _ :: _ :: s) = _
    rw [scanUnits, hu _ h₈]
  · rw [List.singleton_append, scanUnits.eq_def]
    split
    · next heq => exact absurd (List.cons.inj heq).1 h₂
    · next heq => exact absurd (List.cons.inj heq).1 h₁
    · next heq => exact absurd (List.cons.inj heq).1 h₁
    · next heq =>
        obtain ⟨rfl, rfl⟩ := List.cons.inj heq
        rw [if_neg (not_or.2 ⟨h₁, h₈⟩)]
    · next heq => cases heq

theorem scanUnits_flatMap_escape (s rest : Str) :
    scanUnits (s.flatMap escape ++ '"' :: rest) = .ok (s.points, rest) := by
  induction s with
  | nil => rfl
  | cons c s ih =>
      rw [List.flatMap_cons, List.append_assoc, scanUnits_escape, ih]
      rfl

/-- Characters are not surrogates. -/
theorem joinSurrogates_points (s : Str) : joinSurrogates s.points = s.points := by
  unfold Str.points
  induction s with
  | nil => rfl
  | cons c s ih =>
      cases s with
      | nil => rfl
      | cons d s =>
          have hd : ¬(0xdc00 ≤ d.toNat ∧ d.toNat ≤ 0xdfff) := by
            have hvalid : d.toNat.isValidChar := d.valid
            rcases hvalid with h | h <;> omega
          rw [List.map_cons, List.map_cons, joinSurrogates, if_neg (fun h => hd h.2.2)]
          exact congrArg _ ih

/-- **A string is read back.** -/
theorem scanString_encodeString (s rest : Str) :
    scanString (s.flatMap escape ++ '"' :: rest) = .ok (s.points, rest) := by
  rw [scanString, scanUnits_flatMap_escape]
  show Except.ok (joinSurrogates s.points, rest) = _
  rw [joinSurrogates_points]

/-! ### A dict is read back -/

/-- The member that a text of it gives. -/
def member (p : Str × Str) : CodePoints × Json := (p.1.points, .str p.2.points)

theorem scanOnce_encodeString (depth : ℕ) (s rest : Str) :
    scanOnce depth (encodeString s ++ rest) = .ok (.str s.points, rest) := by
  have happend : encodeString s ++ rest = '"' :: (s.flatMap escape ++ '"' :: rest) := by
    simp [encodeString]
  rw [happend, scanOnce.eq_def]
  dsimp only
  rw [if_pos rfl, scanString_encodeString]
  rfl

theorem scanMember_encodeMember (depth : ℕ) (p : Str × Str) (rest : Str) :
    scanMember (scanOnce depth) (encodeMember p ++ rest) = .ok (member p, rest) := by
  have happend : encodeMember p ++ rest =
      '"' :: (p.1.flatMap escape ++ '"' :: ':' :: ' ' :: (encodeString p.2 ++ rest)) := by
    simp [encodeMember, encodeString]
  have hcolon : skipWs (':' :: ' ' :: (encodeString p.2 ++ rest)) = ':' :: ' ' :: (encodeString p.2 ++ rest) := by
    simp [skipWs]
  have hspace : skipWs (' ' :: (encodeString p.2 ++ rest)) = encodeString p.2 ++ rest := by
    simp [skipWs, encodeString]
  rw [happend, scanMember, scanString_encodeString]
  simp only [bind, Except.bind, hcolon, hspace, scanOnce_encodeString]
  rfl

/-- The members up to the brace. -/
theorem scanItems_encodeMember {depth fuel : ℕ} {p : Str × Str} {payload : List (Str × Str)} (rest : Str)
    (hfuel : payload.length < fuel) :
    scanItems (scanMember (scanOnce depth)) '}' fuel
      (", ".toList.intercalate ((p :: payload).map encodeMember) ++ '}' :: rest) =
        .ok ((p :: payload).map member, rest) := by
  induction payload generalizing p fuel with
  | nil =>
      obtain ⟨fuel, rfl⟩ := Nat.exists_eq_succ_of_ne_zero (Nat.ne_of_gt hfuel)
      have hbrace : skipWs ('}' :: rest) = '}' :: rest := by simp [skipWs]
      rw [List.map_singleton, List.intercalate_singleton, Nat.succ_eq_add_one, scanItems]
      simp only [bind, Except.bind, scanMember_encodeMember, hbrace]
      rfl
  | cons q payload ih =>
      obtain ⟨fuel, rfl⟩ := Nat.exists_eq_succ_of_ne_zero (Nat.ne_of_gt (Nat.zero_lt_of_lt hfuel))
      generalize htext : ", ".toList.intercalate ((q :: payload).map encodeMember) ++ '}' :: rest = text
      have hread := htext ▸ ih (p := q) (Nat.lt_of_succ_lt_succ hfuel)
      have hhead : ∃ t, text = '"' :: t := by
        rw [← htext]
        cases payload <;> exact ⟨_, rfl⟩
      obtain ⟨t, ht⟩ := hhead
      have hcomma : skipWs (',' :: ' ' :: text) = ',' :: ' ' :: text := by simp [skipWs]
      have hspace : skipWs (' ' :: text) = text := by simp [skipWs, ht]
      have happend : ", ".toList.intercalate ((p :: q :: payload).map encodeMember) ++ '}' :: rest =
          encodeMember p ++ ',' :: ' ' :: text := by
        rw [← htext, List.map_cons, List.map_cons, List.intercalate_cons_cons]
        simp
      rw [happend, Nat.succ_eq_add_one, scanItems]
      simp only [bind, Except.bind, scanMember_encodeMember, hcomma, hspace, hread]
      rfl

theorem scanBrackets_dumps (depth : ℕ) (payload : List (Str × Str)) :
    scanBrackets (scanMember (scanOnce depth)) '}' (", ".toList.intercalate (payload.map encodeMember) ++ ['}']) =
      .ok (payload.map member, []) := by
  cases payload with
  | nil => rfl
  | cons p payload =>
      have hlen : (p :: payload).length ≤ (", ".toList.intercalate ((p :: payload).map encodeMember)).length := by
        have h := Lists.length_le_length_intercalate ", ".toList fun s (hs : s ∈ (p :: payload).map encodeMember) => by
          obtain ⟨q, -, rfl⟩ := List.mem_map.1 hs
          exact List.cons_ne_nil _ _
        rwa [List.length_map] at h
      generalize htext : ", ".toList.intercalate ((p :: payload).map encodeMember) ++ ['}'] = text
      have htextlen := congrArg List.length htext
      have hhead : ∃ t, text = '"' :: t := by
        rw [← htext]
        cases payload <;> exact ⟨_, rfl⟩
      obtain ⟨t, rfl⟩ := hhead
      have hquote : skipWs ('"' :: t) = '"' :: t := by simp [skipWs]
      rw [List.length_append, List.length_singleton, List.length_cons] at htextlen
      rw [List.length_cons] at hlen
      rw [scanBrackets, hquote]
      dsimp only
      rw [if_neg (by decide), ← htext]
      exact scanItems_encodeMember [] (by omega)

/-- **A dict is read back.** -/
theorem loads_dumps (depth : ℕ) (payload : List (Str × Str)) :
    loads (depth + 1) (dumps payload) = .ok (.obj (payload.map member)) := by
  have hbrace : ∀ s : Str, skipWs ('{' :: s) = '{' :: s := fun s => by simp [skipWs]
  rw [loads, dumps, if_neg (by simp), hbrace, scanOnce.eq_def]
  dsimp only
  rw [if_neg (by decide), if_pos rfl, scanBrackets_dumps]
  rfl

/-! ### No line end -/

/-- A character that is escaped leaves no control character. -/
theorem escape_isPrint {c d : Char} (h : d ∈ escape c) : 0x20 ≤ d.toNat := by
  have hfix : ∀ s : Str, (s.all fun d => 0x20 ≤ d.toNat) = true → d ∈ s → 0x20 ≤ d.toNat :=
    fun s hs hd => of_decide_eq_true (List.all_eq_true.1 hs d hd)
  unfold escape at h
  split_ifs at h with h₁ h₂ h₃ h₄ h₅ h₆ h₇ h₈
  iterate 7 exact hfix _ (by decide) h
  · have hhex : ∀ n < 16, 0x20 ≤ (hexChar n).toNat := by decide
    simp only [List.mem_cons, List.not_mem_nil, or_false] at h
    rcases h with rfl | rfl | rfl | rfl | rfl | rfl
    iterate 4 decide
    · exact hhex _ (by omega)
    · exact hhex _ (by omega)
  · obtain rfl := List.mem_singleton.1 h
    omega

theorem encodeString_isPrint {s : Str} {d : Char} (h : d ∈ encodeString s) : 0x20 ≤ d.toNat := by
  simp only [encodeString, List.mem_cons, List.mem_append, List.mem_flatMap, List.not_mem_nil,
    or_false] at h
  rcases h with rfl | ⟨c, -, hd⟩ | rfl
  · decide
  · exact escape_isPrint hd
  · decide

/-- **A dict has no control character.** -/
theorem dumps_isPrint {payload : List (Str × Str)} {d : Char} (h : d ∈ dumps payload) :
    0x20 ≤ d.toNat := by
  have hfix : ∀ s : Str, (s.all fun d => 0x20 ≤ d.toNat) = true → d ∈ s → 0x20 ≤ d.toNat :=
    fun s hs hd => of_decide_eq_true (List.all_eq_true.1 hs d hd)
  rcases List.mem_cons.1 h with rfl | h
  · decide
  · rcases List.mem_append.1 h with h | h
    · rcases Lists.mem_of_mem_intercalate h with h | ⟨s, hs, h⟩
      · exact hfix _ (by decide) h
      · obtain ⟨p, -, rfl⟩ := List.mem_map.1 hs
        rcases List.mem_append.1 h with h | h
        · rcases List.mem_append.1 h with h | h
          · exact encodeString_isPrint h
          · exact hfix _ (by decide) h
        · exact encodeString_isPrint h
    · exact hfix _ (by decide) h

end Json

/-! ### The records -/

/-- What a formatter reads of a `logging.LogRecord`. -/
structure LogRecord where
  /-- `formatTime`. -/
  time : Str
  levelname : Str
  name : Str
  /-- The attribute that the filter sets. -/
  requestId : Option Str := none
  /-- `getMessage()`. -/
  message : Str
  /-- `formatException(exc_info)`. -/
  excInfo : Option Str := none

/-- `RequestIdFilter.filter`, with the value of `request_id_var`. -/
def LogRecord.filter (current : Str) (record : LogRecord) : LogRecord :=
  { record with requestId := some current }

/-- The payload of `JsonFormatter.format`. -/
def LogRecord.payload (record : LogRecord) : List (Str × Str) :=
  [("ts".toList, record.time), ("level".toList, record.levelname), ("logger".toList, record.name),
    ("request_id".toList, record.requestId.getD "-".toList), ("message".toList, record.message)] ++
  (record.excInfo.map fun exc => ("exc".toList, exc)).toList

/-- `JsonFormatter.format`. -/
def LogRecord.format (record : LogRecord) : Str := Json.dumps record.payload

/-- What the handler of `configure_logging` writes for the records, each with the request id that
is current when it is logged. -/
def logStream (records : List (Str × LogRecord)) : Str :=
  records.flatMap fun (current, record) => (record.filter current).format ++ ['\n']

/-- **The log is read back**: the lines are the records, in order, and each parses to the texts of
its record, whatever characters these have. -/
theorem log_decodes (depth : ℕ) (records : List (Str × LogRecord)) :
    (logStream records).splitOn '\n' =
      records.map (fun (current, record) => (record.filter current).format) ++ [[]] ∧
    ∀ record : LogRecord, Json.loads (depth + 1) record.format = .ok (.obj (record.payload.map Json.member)) := by
  refine ⟨?_, fun record => Json.loads_dumps depth record.payload⟩
  induction records with
  | nil => rfl
  | cons p records ih =>
      have hline : '\n' ∉ (p.2.filter p.1).format := fun h => absurd (Json.dumps_isPrint h) (by decide)
      rw [logStream, List.flatMap_cons, List.append_assoc, List.singleton_append,
        List.splitOn_append_cons_self_of_not_mem hline, ← logStream, ih]
      rfl

end PoetryGenerator
