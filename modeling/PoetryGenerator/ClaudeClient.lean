/-
# Asking Claude for a poem (`api/app/claude_client.py` and `api/app/schemas.py`)

`PoemGenerator.generate` calls the client up to `parse_retries + 1` times.  A reply
that is no valid poem is followed by a sleep and another call, a refusal is an error
at once, and the first valid poem is returned under the character of the request.

Only `JSONDecodeError` and `ValidationError` are caught.  What else `json.loads`
raises ends the loop, as does an exception of the client, and `0.5 * (2**attempt)`
is an `OverflowError` from the attempt 1024 on.  `run_cases` says how a run ends:
at the first attempt that is not merely invalid, at the last one, or at that sleep.

The nesting that `json.loads` bears and what pydantic takes for a float are
parameters.
-/

import Mathlib.Algebra.Order.Field.Rat
import PoetryGenerator.Extraction
import PoetryGenerator.Json
import PoetryGenerator.Prompts

namespace PoetryGenerator
namespace Claude

open Extraction

/-! ### Configuration and messages -/

/-- The fields of `PoemConfig` that `generate` and `_call` read. -/
structure PoemConfig where
  model : Str := "claude-sonnet-4-6".toList
  maxTokens : ℤ := 1500
  temperature : Option ℚ := none
  parseRetries : ℤ := 2

/-- A block of a message. -/
structure ContentBlock where
  type : Str
  text : Str

/-- A message of the Messages API. -/
structure Message where
  stopReason : Option Str
  content : List ContentBlock
  requestId : Option Str := none

/-- A message with one block of text. -/
def textMessage (text : Str) : Message := ⟨some "end_turn".toList, [⟨"text".toList, text⟩], none⟩

/-- The arguments of `messages.create`. -/
structure CreateArgs where
  model : Str
  maxTokens : ℤ
  system : Str
  user : Str
  temperature : Option ℚ

/-- `_extract_text`. -/
def extractText (message : Message) : Str :=
  Str.strip ((message.content.filter fun block => block.type = "text".toList).flatMap ContentBlock.text)

/-! ### PoemResult.model_validate -/

/-- `PoemResult`.  pydantic takes every Python string for a `str`, one with a lone surrogate too. -/
structure PoemResult where
  title : CodePoints
  titleJa : CodePoints := []
  character : CodePoints := []
  poemEn : CodePoints
  poemJa : CodePoints
  imagePrompt : CodePoints := []
  imageNegative : CodePoints := []
  mood : CodePoints := Str.points "neutral".toList
deriving DecidableEq, Repr

/-- The value of a key; of two members with one key the last counts. -/
def member (members : List (CodePoints × Json)) (key : String) : Option Json :=
  (members.reverse.find? fun m => m.1 = Str.points key.toList).map Prod.snd

/-- A `str` field without a default. -/
def requiredStr (members : List (CodePoints × Json)) (key : String) : Option CodePoints :=
  match member members key with
  | some (.str s) => some s
  | _ => none

/-- A `str` field with a default. -/
def defaultStr (members : List (CodePoints × Json)) (key : String) (default : CodePoints) :
    Option CodePoints :=
  match member members key with
  | none => some default
  | some (.str s) => some s
  | some _ => none

section Validation
variable (isFloat : Json → Bool)

/-- `VoiceHints`, two floats with defaults. -/
def voiceHints : Json → Bool
  | .obj members => ["rate", "pitch"].all fun key => (member members key).all isFloat
  | _ => false

/-- `PoemResult.model_validate`; nothing is a `ValidationError`. -/
def modelValidate : Json → Option PoemResult
  | .obj members => do
    let title ← requiredStr members "title"
    let titleJa ← defaultStr members "title_ja" []
    let character ← defaultStr members "character" []
    let poemEn ← requiredStr members "poem_en"
    let poemJa ← requiredStr members "poem_ja"
    let imagePrompt ← defaultStr members "image_prompt" []
    let imageNegative ← defaultStr members "image_negative" []
    let mood ← defaultStr members "mood" (Str.points "neutral".toList)
    if (member members "voice_hints").all (voiceHints isFloat) then
      some { title, titleJa, character, poemEn, poemJa, imagePrompt, imageNegative, mood }
    else none
  | _ => none

end Validation

/-! ### PoemGenerator.generate -/

/-- What the body of the `try` raises. -/
inductive ParseError
  | jsonDecodeError
  | validationError
  /-- The `ValueError` of an integer that is too long. -/
  | valueError
  | recursionError
deriving DecidableEq, Repr

/-- `except (json.JSONDecodeError, ValidationError)`. -/
def ParseError.caught : ParseError → Bool
  | jsonDecodeError | validationError => true
  | valueError | recursionError => false

/-- The exceptions of `json.loads` in the body of the `try`. -/
def ParseError.ofLoads : LoadsError → ParseError
  | .jsonDecodeError => jsonDecodeError
  | .valueError => valueError
  | .recursionError => recursionError

/-- What `messages.create` raises after its own retries. -/
inductive SdkError
  | timeout
  | connection
  | status (code : ℕ)
  | other (name : Str)
deriving DecidableEq, Repr

/-- What `generate` raises. -/
inductive GenerateError
  | poemGenerationError (text : Str)
  | parse (e : ParseError)
  | overflowError
  | client (e : SdkError)
deriving DecidableEq, Repr

/-- The outcome of a call of the client. -/
inductive Outcome
  | message (m : Message)
  | raises (e : SdkError)

/-- What a run has done. -/
structure Trace where
  calls : List CreateArgs := []
  sleeps : List ℚ := []

/-- A call is made. -/
def Trace.call (trace : Trace) (args : CreateArgs) : Trace := { trace with calls := trace.calls ++ [args] }

/-- `self._sleep(d)`. -/
def Trace.sleep (trace : Trace) (d : ℚ) : Trace := { trace with sleeps := trace.sleeps ++ [d] }

/-- `min(0.5 * (2**attempt), 8.0)`; nothing when `2**attempt` is no float. -/
def backoff (attempt : ℕ) : Option ℚ :=
  if attempt < 1024 then some (min (1 / 2 * 2 ^ attempt) 8) else none

section Generate
variable (depth : ℕ) (isFloat : Json → Bool)

/-- `PoemResult.model_validate(json.loads(_extract_json(text)))`. -/
def parsePoem (text : Str) : Except ParseError PoemResult :=
  match extractJson text with
  | none => .error .jsonDecodeError
  | some o =>
    match Json.loads depth o with
    | .error e => .error (.ofLoads e)
    | .ok data =>
      match modelValidate isFloat data with
      | none => .error .validationError
      | some result => .ok result

variable (cfg : PoemConfig) (character : Character) (theme : Option Str) (client : ℕ → Outcome)

/-- The arguments of each call. -/
def createArgs : CreateArgs :=
  { model := cfg.model
    maxTokens := cfg.maxTokens
    system := buildSystemPrompt character
    user := buildUserPrompt character theme
    temperature := cfg.temperature }

/-- `PoemGenerationError(f"model refused the request ...")`. -/
def refused (m : Message) : GenerateError :=
  .poemGenerationError ("model refused the request (request_id=".toList ++
    m.requestId.getD "None".toList ++ ")".toList)

/-- `PoemGenerationError(f"failed to produce a valid poem ...")`. -/
def exhausted : GenerateError :=
  .poemGenerationError ("failed to produce a valid poem after ".toList ++
    (toString (cfg.parseRetries + 1)).toList ++ " attempt(s)".toList)

/-- The attempts from one on, with the number that is left. -/
def attempts : ℕ → ℕ → Trace → Except GenerateError PoemResult × Trace
  | _, 0, trace => (.error (exhausted cfg), trace)
  | attempt, left + 1, trace =>
    let trace := trace.call (createArgs cfg character theme)
    match client attempt with
    | .raises e => (.error (.client e), trace)
    | .message m =>
      if m.stopReason = some "refusal".toList then (.error (refused m), trace)
      else
        match parsePoem depth isFloat (extractText m) with
        | .ok result => (.ok { result with character := character.value.points }, trace)
        | .error e =>
          if e.caught then
            if attempt < cfg.parseRetries then
              match backoff attempt with
              | none => (.error .overflowError, trace)
              | some d => attempts (attempt + 1) left (trace.sleep d)
            else attempts (attempt + 1) left trace
          else (.error (.parse e), trace)

/-- `PoemGenerator.generate`, over the outcomes of its calls. -/
def generate : Except GenerateError PoemResult × Trace :=
  attempts depth isFloat cfg character theme client 0 (cfg.parseRetries + 1).toNat {}

/-! ### One attempt -/

/-- What an outcome means for the run. -/
inductive Verdict
  | poem (result : PoemResult)
  /-- `except` takes it, and the loop goes on. -/
  | invalid
  | fails (e : GenerateError)

/-- The outcomes, one by one. -/
def verdict : Outcome → Verdict
  | .raises e => .fails (.client e)
  | .message m =>
    if m.stopReason = some "refusal".toList then .fails (refused m)
    else
      match parsePoem depth isFloat (extractText m) with
      | .ok result => .poem { result with character := character.value.points }
      | .error e => if e.caught then .invalid else .fails (.parse e)

/-- How the run goes on after the call of an attempt. -/
def resume (attempt left : ℕ) (trace : Trace) : Verdict → Except GenerateError PoemResult × Trace
  | .poem result => (.ok result, trace)
  | .fails e => (.error e, trace)
  | .invalid =>
    if attempt < cfg.parseRetries then
      match backoff attempt with
      | none => (.error .overflowError, trace)
      | some d => attempts depth isFloat cfg character theme client (attempt + 1) left (trace.sleep d)
    else attempts depth isFloat cfg character theme client (attempt + 1) left trace

theorem attempts_succ (attempt left : ℕ) (trace : Trace) :
    attempts depth isFloat cfg character theme client attempt (left + 1) trace =
      resume depth isFloat cfg character theme client attempt left
        (trace.call (createArgs cfg character theme)) (verdict depth isFloat character (client attempt)) := by
  unfold attempts verdict
  cases client attempt with
  | raises e => rfl
  | message m =>
      dsimp only
      by_cases hrefusal : m.stopReason = some "refusal".toList
      · rw [if_pos hrefusal, if_pos hrefusal]
        rfl
      · rw [if_neg hrefusal, if_neg hrefusal]
        cases parsePoem depth isFloat (extractText m) with
        | ok result => rfl
        | error e =>
            dsimp only
            by_cases hcaught : e.caught = true
            · rw [if_pos hcaught, if_pos hcaught]
              rfl
            · rw [if_neg hcaught, if_neg hcaught]
              rfl

/-- The sleep after an attempt. -/
def delay (attempt : ℕ) : ℚ := min (1 / 2 * 2 ^ attempt) 8

/-- So many calls, all with one request, and so many sleeps. -/
def traceOf (calls sleeps : ℕ) : Trace :=
  { calls := List.replicate calls (createArgs cfg character theme)
    sleeps := (List.range sleeps).map delay }

theorem call_traceOf (calls sleeps : ℕ) :
    (traceOf cfg character theme calls sleeps).call (createArgs cfg character theme) =
      traceOf cfg character theme (calls + 1) sleeps := by
  rw [traceOf, traceOf, List.replicate_succ']
  rfl

theorem sleep_traceOf (calls sleeps : ℕ) :
    (traceOf cfg character theme calls sleeps).sleep (delay sleeps) =
      traceOf cfg character theme calls (sleeps + 1) := by
  rw [traceOf, traceOf, List.range_succ, List.map_append]
  rfl

/-- `generate` has come to an attempt. -/
def atAttempt (k left : ℕ) : Except GenerateError PoemResult × Trace :=
  attempts depth isFloat cfg character theme client k left (traceOf cfg character theme k k)

section Step
variable {depth isFloat cfg character theme client} {n k : ℕ}

/-- **An invalid reply** before the last attempt leads to the next attempt, after a sleep. -/
theorem atAttempt_invalid (hn : cfg.parseRetries = n) (h : verdict depth isFloat character (client k) = .invalid)
    (hlt : k < n) (hk : k < 1024) (left : ℕ) :
    atAttempt depth isFloat cfg character theme client k (left + 1) =
      atAttempt depth isFloat cfg character theme client (k + 1) left := by
  rw [atAttempt, attempts_succ, h, resume, if_pos (by rw [hn]; exact Int.ofNat_lt.2 hlt), backoff, if_pos hk]
  dsimp only
  rw [call_traceOf]
  exact congrArg _ (sleep_traceOf ..)

theorem generate_eq_atAttempt (hn : cfg.parseRetries = n) (hk : k ≤ n) (hk' : k ≤ 1024)
    (h : ∀ i < k, verdict depth isFloat character (client i) = .invalid) :
    generate depth isFloat cfg character theme client =
      atAttempt depth isFloat cfg character theme client k (n + 1 - k) := by
  induction k with
  | zero =>
      rw [generate, hn]
      rfl
  | succ k ih =>
      rw [ih (by omega) (by omega) (fun i hi => h i (by omega)), Nat.sub_add_eq]
      obtain ⟨left, hleft⟩ : ∃ left, n + 1 - k = left + 1 := ⟨n - k, by omega⟩
      rw [hleft]
      exact atAttempt_invalid hn (h k (Nat.lt_succ_self k)) (by omega) (by omega) left

theorem atAttempt_last (hn : cfg.parseRetries = n)
    (h : verdict depth isFloat character (client n) = .invalid) :
    atAttempt depth isFloat cfg character theme client n 1 =
      (.error (exhausted cfg), traceOf cfg character theme (n + 1) n) := by
  rw [atAttempt, attempts_succ, h, resume, if_neg (by rw [hn]; exact lt_irrefl _), call_traceOf]
  rfl

theorem atAttempt_overflow (hn : cfg.parseRetries = n) (hlt : 1024 < n) (left : ℕ)
    (h : verdict depth isFloat character (client 1024) = .invalid) :
    atAttempt depth isFloat cfg character theme client 1024 (left + 1) =
      (.error .overflowError, traceOf cfg character theme 1025 1024) := by
  rw [atAttempt, attempts_succ, h, resume, if_pos (by rw [hn]; exact Int.ofNat_lt.2 hlt), call_traceOf]
  rfl

end Step

variable (n : ℕ)

/-- How a run ends at an attempt. -/
inductive EndsAt (k : ℕ) : Verdict → Except GenerateError PoemResult → Prop
  | poem (result : PoemResult) : EndsAt k (.poem result) (.ok result)
  | fails (e : GenerateError) : EndsAt k (.fails e) (.error e)
  | exhausted (hk : k = n) : EndsAt k .invalid (.error (exhausted cfg))
  | overflow (hlt : k < n) (hk : k = 1024) : EndsAt k .invalid (.error .overflowError)

/-- **How a run ends.**  Up to some attempt all replies are invalid; the run has made one
call more than it has slept, and the verdict on the reply of that attempt decides. -/
theorem run_cases (hn : cfg.parseRetries = n) : ∃ k ≤ n, k ≤ 1024 ∧
    (∀ i < k, verdict depth isFloat character (client i) = .invalid) ∧
      (generate depth isFloat cfg character theme client).2 = traceOf cfg character theme (k + 1) k ∧
      EndsAt cfg n k (verdict depth isFloat character (client k))
        (generate depth isFloat cfg character theme client).1 := by
  classical
  have hex : ∃ k, verdict depth isFloat character (client k) ≠ .invalid ∨ k = n ∨ k = 1024 :=
    ⟨n, .inr (.inl rfl)⟩
  obtain ⟨k, hk, hmin⟩ : ∃ k, (verdict depth isFloat character (client k) ≠ .invalid ∨ k = n ∨ k = 1024) ∧
      ∀ i < k, verdict depth isFloat character (client i) = .invalid ∧ i ≠ n ∧ i ≠ 1024 :=
    ⟨_, Nat.find_spec hex, fun i hi => by simpa only [not_or, not_not] using Nat.find_min hex hi⟩
  have hkn : k ≤ n := not_lt.1 fun h => (hmin n h).2.1 rfl
  have hk1024 : k ≤ 1024 := not_lt.1 fun h => (hmin 1024 h).2.2 rfl
  obtain ⟨left, hleft⟩ : ∃ left, n + 1 - k = left + 1 := ⟨n - k, by omega⟩
  have hgenerate : generate depth isFloat cfg character theme client =
      atAttempt depth isFloat cfg character theme client k (left + 1) :=
    hleft ▸ generate_eq_atAttempt hn hkn hk1024 fun i hi => (hmin i hi).1
  refine ⟨k, hkn, hk1024, fun i hi => (hmin i hi).1, ?_⟩
  rw [hgenerate]
  cases hv : verdict depth isFloat character (client k) with
  | poem result =>
      rw [atAttempt, attempts_succ, hv, call_traceOf]
      exact ⟨rfl, .poem result⟩
  | fails e =>
      rw [atAttempt, attempts_succ, hv, call_traceOf]
      exact ⟨rfl, .fails e⟩
  | invalid =>
      rcases eq_or_lt_of_le hkn with rfl | hlt
      · obtain rfl : left = 0 := by omega
        rw [atAttempt_last hn hv]
        exact ⟨rfl, .exhausted rfl⟩
      · obtain rfl : k = 1024 := by
          rcases hk with hk | hk | hk
          · exact absurd hv hk
          · omega
          · exact hk
        rw [atAttempt_overflow hn hlt left hv]
        exact ⟨rfl, .overflow hlt rfl⟩

/-- **A poem that is returned** has the character of the request. -/
theorem character_of_generate {r : PoemResult} (h : (generate depth isFloat cfg character theme client).1 = .ok r) :
    r.character = character.value.points := by
  rcases lt_or_ge cfg.parseRetries 0 with hneg | hpos
  · rw [generate, Int.toNat_of_nonpos (by omega)] at h
    cases h
  · obtain ⟨n, hn⟩ := Int.eq_ofNat_of_zero_le hpos
    obtain ⟨k, -, -, -, -, hends⟩ := run_cases depth isFloat cfg character theme client n hn
    rw [h] at hends
    generalize hv : verdict depth isFloat character (client k) = v at hends
    cases hends
    unfold verdict at hv
    split at hv
    · cases hv
    · split_ifs at hv
      split at hv
      · cases hv
        rfl
      · split_ifs at hv

end Generate
end Claude
end PoetryGenerator
