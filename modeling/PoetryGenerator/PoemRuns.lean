/-
# Retries and failures of a generation

A run should follow the first reply that decides: the poem it yields is returned, a
refusal is an error, and when none of the replies decides the run ends with a
`PoemGenerationError` after the last.  Each reply looked at before is followed by a
sleep of `min(0.5 * 2^i, 8)`.

It does so exactly when every reply up to there fails with one of the two exceptions
that are caught (`follows_first_iff`).  `json.loads` has two more: the `ValueError` of
an integer with more than 4300 digits, and the `RecursionError` of a text that is
nested too deep.  And no more than 1024 sleeps can be computed.

The same three exits, and the exceptions of the client, are what the endpoint does not
answer with the status 502 (`failures_reported_iff`).
-/

import PoetryGenerator.ClaudeClient

namespace PoetryGenerator
namespace Claude

section Messages
variable (depth : ℕ) (isFloat : Json → Bool)

/-- The model refuses. -/
def Message.Refusal (m : Message) : Prop := m.stopReason = some "refusal".toList

/-- The text of a message is a valid poem. -/
def Yields (m : Message) (r : PoemResult) : Prop :=
  ¬m.Refusal ∧ parsePoem depth isFloat (extractText m) = .ok r

/-- The extraction, the parsing or the validation of a text fails. -/
def Fails (m : Message) : Prop := ¬m.Refusal ∧ ∃ e, parsePoem depth isFloat (extractText m) = .error e

/-- When it fails, with a `JSONDecodeError` or a `ValidationError`. -/
def Caught (m : Message) : Prop :=
  ∀ e, parsePoem depth isFloat (extractText m) = .error e → e.caught = true

theorem refusal_or_yields_or_fails (m : Message) :
    m.Refusal ∨ (∃ r, Yields depth isFloat m r) ∨ Fails depth isFloat m := by
  by_cases hrefusal : m.Refusal
  · exact .inl hrefusal
  · cases hparse : parsePoem depth isFloat (extractText m) with
    | ok r => exact .inr (.inl ⟨r, hrefusal, hparse⟩)
    | error e => exact .inr (.inr ⟨hrefusal, e, hparse⟩)

variable {depth isFloat} (character : Character) {m : Message}

theorem Message.Refusal.not_fails (h : m.Refusal) : ¬Fails depth isFloat m := fun hfails => hfails.1 h

theorem Yields.not_fails {r : PoemResult} (h : Yields depth isFloat m r) : ¬Fails depth isFloat m := by
  rintro ⟨-, e, he⟩
  rw [h.2] at he
  cases he

theorem verdict_of_refusal (h : m.Refusal) :
    verdict depth isFloat character (.message m) = .fails (refused m) := if_pos h

theorem verdict_of_yields {r : PoemResult} (h : Yields depth isFloat m r) :
    verdict depth isFloat character (.message m) = .poem { r with character := character.value.points } := by
  refine (if_neg h.1).trans ?_
  rw [h.2]

theorem verdict_of_fails (h : Fails depth isFloat m) (hcaught : Caught depth isFloat m) :
    verdict depth isFloat character (.message m) = .invalid := by
  obtain ⟨hrefusal, e, he⟩ := h
  refine (if_neg hrefusal).trans ?_
  rw [he]
  exact if_pos (hcaught e he)

theorem verdict_of_not_caught (hrefusal : ¬m.Refusal) (h : ¬Caught depth isFloat m) :
    ∃ e, e.caught = false ∧ parsePoem depth isFloat (extractText m) = .error e ∧
      verdict depth isFloat character (.message m) = .fails (.parse e) := by
  simp only [Caught, not_forall, Bool.not_eq_true] at h
  obtain ⟨e, he, hcaught⟩ := h
  refine ⟨e, hcaught, he, (if_neg hrefusal).trans ?_⟩
  rw [he]
  exact if_neg (by rw [hcaught]; decide)

theorem fails_of_invalid (h : verdict depth isFloat character (.message m) = .invalid) :
    Fails depth isFloat m ∧ Caught depth isFloat m := by
  rcases refusal_or_yields_or_fails depth isFloat m with hrefusal | ⟨r, hyields⟩ | hfails
  · rw [verdict_of_refusal character hrefusal] at h
    cases h
  · rw [verdict_of_yields character hyields] at h
    cases h
  · refine ⟨hfails, by_contra fun hcaught => ?_⟩
    obtain ⟨e, -, -, he⟩ := verdict_of_not_caught character hfails.1 hcaught
    rw [he] at h
    cases h

end Messages

section Retries
variable (depth : ℕ) (isFloat : Json → Bool) (cfg : PoemConfig) (character : Character)
  (theme : Option Str) (n : ℕ) (ms : ℕ → Message)

/-- The configuration with `parse_retries` set. -/
def PoemConfig.withRetries : PoemConfig := { cfg with parseRetries := n }

/-- **A run follows the first reply that decides.** -/
structure FollowsFirst (out : Except GenerateError PoemResult × Trace) : Prop where
  poem : ∀ k ≤ n, (∀ i < k, Fails depth isFloat (ms i)) → ∀ r, Yields depth isFloat (ms k) r →
    out = (.ok { r with character := character.value.points }, traceOf cfg character theme (k + 1) k)
  refusal : ∀ k ≤ n, (∀ i < k, Fails depth isFloat (ms i)) → (ms k).Refusal →
    (∃ text, out.1 = .error (.poemGenerationError text)) ∧ out.2 = traceOf cfg character theme (k + 1) k
  exhausted : (∀ i ≤ n, Fails depth isFloat (ms i)) →
    (∃ text, out.1 = .error (.poemGenerationError text)) ∧ out.2 = traceOf cfg character theme (n + 1) n

variable {depth isFloat cfg character theme n ms} {out : Except GenerateError PoemResult × Trace}

/-- Without a poem there is a `PoemGenerationError`. -/
def Reported (result : Except GenerateError PoemResult) : Prop :=
  (∃ r, result = .ok r) ∨ ∃ text, result = .error (.poemGenerationError text)

theorem FollowsFirst.reported (h : FollowsFirst depth isFloat cfg character theme n ms out) :
    Reported out.1 := by
  classical
  by_cases hall : ∀ i ≤ n, Fails depth isFloat (ms i)
  · exact .inr (h.exhausted hall).1
  · have hex : ∃ i, i ≤ n ∧ ¬Fails depth isFloat (ms i) := by
      simpa only [not_forall, exists_prop] using hall
    obtain ⟨k, ⟨hk, hdecides⟩, hbefore⟩ : ∃ k, (k ≤ n ∧ ¬Fails depth isFloat (ms k)) ∧
        ∀ i < k, Fails depth isFloat (ms i) :=
      ⟨Nat.find hex, Nat.find_spec hex, fun i hi => by_contra fun hfails =>
        Nat.find_min hex hi ⟨hi.le.trans (Nat.find_spec hex).1, hfails⟩⟩
    rcases refusal_or_yields_or_fails depth isFloat (ms k) with hrefusal | ⟨r, hyields⟩ | hfails
    · exact .inr (h.refusal k hk hbefore hrefusal).1
    · exact .inl ⟨_, congrArg Prod.fst (h.poem k hk hbefore r hyields)⟩
    · exact absurd hfails hdecides

/-- A reply that fails ends a run well only when it is the last. -/
theorem eq_of_reported {k : ℕ} {result : Except GenerateError PoemResult}
    (hends : EndsAt cfg n k (verdict depth isFloat character (.message (ms k))) result)
    (hfails : Fails depth isFloat (ms k)) (h : Reported result) :
    k = n ∧ Caught depth isFloat (ms k) := by
  by_cases hcaught : Caught depth isFloat (ms k)
  · rw [verdict_of_fails character hfails hcaught] at hends
    cases hends with
    | exhausted hk => exact ⟨hk, hcaught⟩
    | overflow => rcases h with ⟨_, h⟩ | ⟨_, h⟩ <;> cases h
  · obtain ⟨e, -, -, he⟩ := verdict_of_not_caught character hfails.1 hcaught
    rw [he] at hends
    cases hends
    rcases h with ⟨_, h⟩ | ⟨_, h⟩ <;> cases h

/-- One reply is the first that decides. -/
theorem eq_of_first {P : ℕ → Prop} {j k : ℕ} (hj : ¬P j) (hk : ¬P k) (hj' : ∀ i < j, P i)
    (hk' : ∀ i < k, P i) : j = k :=
  le_antisymm (not_lt.1 fun h => hk (hj' k h)) (not_lt.1 fun h => hj (hk' j h))

/-- **A run follows the first reply that decides** exactly when the replies that fail up to
there fail with an exception that is caught, and no more than 1024 of them are slept after. -/
theorem follows_first_iff : FollowsFirst depth isFloat cfg character theme n ms
      (generate depth isFloat (cfg.withRetries n) character theme fun i => .message (ms i)) ↔
    (∀ k ≤ n, (∀ i ≤ k, Fails depth isFloat (ms i)) → Caught depth isFloat (ms k)) ∧
      (1024 < n → ∃ i ≤ 1024, ¬Fails depth isFloat (ms i)) := by
  obtain ⟨k, hk, hk1024, hinvalid, htrace, hends⟩ := run_cases depth isFloat (cfg.withRetries n)
    character theme (fun i => .message (ms i)) n rfl
  have hbefore : ∀ i < k, Fails depth isFloat (ms i) := fun i hi => (fails_of_invalid character (hinvalid i hi)).1
  constructor
  · intro h
    have hlast := fun hfails => eq_of_reported hends hfails h.reported
    refine ⟨fun j hj hfails => ?_, fun hn => ⟨k, hk1024, fun hfails => ?_⟩⟩
    · rcases lt_or_ge j k with hjk | hkj
      · exact (fails_of_invalid character (hinvalid j hjk)).2
      · obtain ⟨rfl, hcaught⟩ := hlast (hfails k hkj)
        obtain rfl := le_antisymm hkj hj
        exact hcaught
    · have := (hlast hfails).1
      omega
  · rintro ⟨hcaught, hsleeps⟩
    rcases refusal_or_yields_or_fails depth isFloat (ms k) with hrefusal | ⟨r, hyields⟩ | hfails
    · rw [verdict_of_refusal character hrefusal] at hends
      have hfirst : ¬Fails depth isFloat (ms k) := hrefusal.not_fails
      generalize hout : (generate depth isFloat _ character theme _).1 = result at hends
      cases hends with
      | fails e =>
          refine ⟨fun j _ hj r hr => ?_, fun j _ hj hr => ?_, fun hall => absurd (hall k hk) hfirst⟩
          · obtain rfl := eq_of_first hr.not_fails hfirst hj hbefore
            exact absurd hrefusal hr.1
          · obtain rfl := eq_of_first hr.not_fails hfirst hj hbefore
            exact ⟨⟨_, hout⟩, htrace⟩
    · rw [verdict_of_yields character hyields] at hends
      have hfirst := hyields.not_fails
      generalize hout : (generate depth isFloat _ character theme _).1 = result at hends
      cases hends with
      | poem =>
          refine ⟨fun j _ hj r' hr => ?_, fun j _ hj hr => ?_, fun hall => absurd (hall k hk) hfirst⟩
          · obtain rfl := eq_of_first hr.not_fails hfirst hj hbefore
            obtain rfl : r = r' := Except.ok.inj (hyields.2.symm.trans hr.2)
            exact Prod.ext hout htrace
          · obtain rfl := eq_of_first hr.not_fails hfirst hj hbefore
            exact absurd hr hyields.1
    · have hall : ∀ i ≤ k, Fails depth isFloat (ms i) := fun i hi =>
        (eq_or_lt_of_le hi).elim (fun h => h ▸ hfails) (hbefore i)
      rw [verdict_of_fails character hfails (hcaught k hk hall)] at hends
      generalize hout : (generate depth isFloat _ character theme _).1 = result at hends
      cases hends with
      | exhausted hkn =>
          subst hkn
          refine ⟨fun j hj _ r hr => ?_, fun j hj _ hr => ?_, fun _ => ⟨⟨_, hout⟩, htrace⟩⟩
          · exact absurd (hall j hj) hr.not_fails
          · exact absurd (hall j hj) hr.not_fails
      | overflow hlt hk =>
          subst hk
          obtain ⟨i, hi, hdecides⟩ := hsleeps hlt
          exact absurd (hall i hi) hdecides

end Retries

/-- The title is an integer of 4301 digits. -/
def longTitle : Str := "\x7b\"title\": ".toList ++ List.replicate 4301 '9' ++ ['}']

/-- **A long integer** in a reply ends the run with a `ValueError`. -/
theorem follows_first_long_title : ¬FollowsFirst 100 (fun _ => true) {} .sayori none 0
    (fun _ => textMessage longTitle)
    (generate 100 (fun _ => true) (PoemConfig.withRetries {} 0) .sayori none
      fun _ => .message (textMessage longTitle)) := by
  intro h
  have hraises : (generate 100 (fun _ => true) (PoemConfig.withRetries {} 0) .sayori none
      fun _ => .message (textMessage longTitle)).1 = .error (.parse .valueError) := by decide +kernel
  rcases h.reported with ⟨r, hr⟩ | ⟨text, hr⟩ <;> cases hraises.symm.trans hr

/-! ### The answer of the endpoint -/

/-- The status for an exception of `generate`: that of the handler, or of the server. -/
def failureStatus : GenerateError → ℕ
  | .poemGenerationError _ => 502
  | _ => 500

/-- The status of the endpoint for the outcome of `generate`, and whether the rows are
committed and the jobs pushed. -/
def generateStatus (req : GenerateRequest) (env : Env) (result : Except GenerateError PoemResult)
    (stored : Bool) : ℕ :=
  match ImageModels.resolve req.model env, result with
  | none, _ => 422
  | some _, .error e => failureStatus e
  | some _, .ok _ => if stored then 200 else 500

section Failures
variable (depth : ℕ) (isFloat : Json → Bool) (cfg : PoemConfig) (character : Character)
  (theme : Option Str) (client : ℕ → Outcome)

/-- A reply that fails with an exception that is caught. -/
def Outcome.Invalid : Outcome → Prop
  | .message m => Fails depth isFloat m ∧ Caught depth isFloat m
  | .raises _ => False

/-- The call raises, or the reply fails with another exception. -/
def Outcome.Escapes : Outcome → Prop
  | .message m => ¬m.Refusal ∧ ¬Caught depth isFloat m
  | .raises _ => True

/-- **Every failure is reported as one.** -/
structure FailuresReported (result : Except GenerateError PoemResult) : Prop where
  outcome : (∃ k m r, client k = .message m ∧ Yields depth isFloat m r ∧
      result = .ok { r with character := character.value.points }) ∨
    ∃ text, result = .error (.poemGenerationError text)
  answer : ∀ (req : GenerateRequest) (env : Env) (stored : Bool) (e : GenerateError),
    ImageModels.resolve req.model env ≠ none → result = .error e →
      generateStatus req env result stored = 502

variable {depth isFloat cfg theme client}

theorem verdict_of_invalid {o : Outcome} (h : o.Invalid depth isFloat) :
    verdict depth isFloat character o = .invalid := by
  cases o with
  | message m => exact verdict_of_fails character h.1 h.2
  | raises e => exact h.elim

theorem invalid_of_verdict {o : Outcome} (h : verdict depth isFloat character o = .invalid) :
    o.Invalid depth isFloat := by
  cases o with
  | message m => exact fails_of_invalid character h
  | raises e => cases h

theorem verdict_of_escapes {o : Outcome} (h : o.Escapes depth isFloat) :
    ∃ e, (∀ text, e ≠ .poemGenerationError text) ∧ verdict depth isFloat character o = .fails e := by
  cases o with
  | message m =>
      obtain ⟨e, -, -, he⟩ := verdict_of_not_caught character h.1 h.2
      exact ⟨.parse e, nofun, he⟩
  | raises e => exact ⟨.client e, nofun, rfl⟩

/-- The verdict on an outcome that does not escape. -/
theorem verdict_cases {o : Outcome} (h : ¬o.Escapes depth isFloat) :
    (∃ m r, o = .message m ∧ Yields depth isFloat m r ∧
      verdict depth isFloat character o = .poem { r with character := character.value.points }) ∨
    (∃ text, verdict depth isFloat character o = .fails (.poemGenerationError text)) ∨
      o.Invalid depth isFloat := by
  cases o with
  | raises e => exact absurd trivial h
  | message m =>
      rcases refusal_or_yields_or_fails depth isFloat m with
        hrefusal | ⟨r, hyields⟩ | hfails
      · exact .inr (.inl ⟨_, verdict_of_refusal character hrefusal⟩)
      · exact .inl ⟨m, r, rfl, hyields, verdict_of_yields character hyields⟩
      · exact .inr (.inr ⟨hfails, by_contra fun hcaught => h ⟨hfails.1, hcaught⟩⟩)

variable {character}

/-- What the handler of `PoemGenerationError` answers. -/
theorem generateStatus_of_error {req : GenerateRequest} {env : Env} {stored : Bool} {text : Str}
    (h : ImageModels.resolve req.model env ≠ none) :
    generateStatus req env (.error (.poemGenerationError text)) stored = 502 := by
  obtain ⟨m, hm⟩ := Option.ne_none_iff_exists'.1 h
  unfold generateStatus
  rw [hm]
  rfl

theorem FailuresReported.of_outcome {result : Except GenerateError PoemResult}
    (h : (∃ k m r, client k = .message m ∧ Yields depth isFloat m r ∧
        result = .ok { r with character := character.value.points }) ∨
      ∃ text, result = .error (.poemGenerationError text)) :
    FailuresReported depth isFloat character client result := by
  refine ⟨h, fun req env stored e hmodel he => ?_⟩
  rcases h with ⟨_, _, _, -, -, rfl⟩ | ⟨text, rfl⟩
  · cases he
  · exact generateStatus_of_error hmodel

theorem FailuresReported.reported {result : Except GenerateError PoemResult}
    (h : FailuresReported depth isFloat character client result) : Reported result :=
  h.outcome.imp (fun ⟨_, _, _, _, _, hr⟩ => ⟨_, hr⟩) id

/-- Without attempts there is nothing but the error. -/
theorem generate_of_neg (h : cfg.parseRetries < 0) :
    generate depth isFloat cfg character theme client = (.error (exhausted cfg), {}) := by
  rw [generate, Int.toNat_of_nonpos (by omega)]
  rfl

/-- A run over an invalid reply ends well only at the last attempt. -/
theorem eq_of_reported_invalid {n k : ℕ} {result : Except GenerateError PoemResult}
    (hends : EndsAt cfg n k (verdict depth isFloat character (client k)) result)
    (hinvalid : (client k).Invalid depth isFloat) (h : Reported result) : k = n := by
  rw [verdict_of_invalid character hinvalid] at hends
  cases hends with
  | exhausted hk => exact hk
  | overflow => rcases h with ⟨_, h⟩ | ⟨_, h⟩ <;> cases h

/-- **Every failure is reported as one** exactly when no call that the run comes to raises,
no reply it comes to fails with an exception that is not caught, and no more than 1024
replies are slept after. -/
theorem failures_reported_iff :
    FailuresReported depth isFloat character client
        (generate depth isFloat cfg character theme client).1 ↔
      (∀ k : ℕ, (k : ℤ) ≤ cfg.parseRetries → (∀ i < k, (client i).Invalid depth isFloat) →
        ¬(client k).Escapes depth isFloat) ∧
      (1024 < cfg.parseRetries → ∃ i ≤ 1024, ¬(client i).Invalid depth isFloat) := by
  rcases lt_or_ge cfg.parseRetries 0 with hneg | hpos
  · rw [generate_of_neg hneg]
    exact ⟨fun _ => ⟨fun k hk => by omega, fun h => by omega⟩,
      fun _ => .of_outcome (.inr ⟨_, rfl⟩)⟩
  · obtain ⟨n, hn⟩ := Int.eq_ofNat_of_zero_le hpos
    obtain ⟨k, hk, hk1024, hinvalid, -, hends⟩ := run_cases depth isFloat cfg character theme client n hn
    constructor
    · intro h
      refine ⟨fun j hj hbefore hescapes => ?_, fun hlt => ?_⟩
      · obtain ⟨e, hne, he⟩ := verdict_of_escapes character hescapes
        obtain rfl : j = k := by
          refine le_antisymm (not_lt.1 fun hkj => ?_) (not_lt.1 fun hjk => ?_)
          · have := eq_of_reported_invalid hends (hbefore k hkj) h.reported
            omega
          · rw [hinvalid j hjk] at he
            cases he
        rw [he] at hends
        generalize (generate depth isFloat cfg character theme client).1 = result at h hends
        cases hends
        rcases h.reported with ⟨_, hr⟩ | ⟨text, hr⟩
        · cases hr
        · exact hne text (Except.error.inj hr)
      · by_contra hall
        simp only [not_exists, not_and, not_not] at hall
        have := eq_of_reported_invalid hends (hall k hk1024) h.reported
        omega
    · rintro ⟨hescapes, hsleeps⟩
      have hk' : (k : ℤ) ≤ cfg.parseRetries := by omega
      generalize (generate depth isFloat cfg character theme client).1 = result at hends
      refine .of_outcome ?_
      rcases verdict_cases character
          (hescapes k hk' fun i hi => invalid_of_verdict character (hinvalid i hi)) with
        ⟨m, r, hm, hyields, hv⟩ | ⟨text, hv⟩ | hlast
      · rw [hv] at hends
        cases hends
        exact .inl ⟨k, m, r, hm, hyields, rfl⟩
      · rw [hv] at hends
        cases hends
        exact .inr ⟨text, rfl⟩
      · rw [verdict_of_invalid character hlast] at hends
        cases hends with
        | exhausted => exact .inr ⟨_, rfl⟩
        | overflow hlt hk =>
            obtain ⟨i, hi, hdecides⟩ := hsleeps (by omega)
            rcases eq_or_lt_of_le (hk ▸ hi) with rfl | hik
            · exact absurd hlast hdecides
            · exact absurd (invalid_of_verdict character (hinvalid i hik)) hdecides

end Failures

/-- **A timeout of the client** is no `PoemGenerationError`. -/
theorem failures_unreported_timeout : ¬FailuresReported 100 (fun _ => true) .sayori
    (fun _ => .raises .timeout)
    (generate 100 (fun _ => true) {} .sayori none fun _ => .raises .timeout).1 := by
  intro h
  have hraises : (generate 100 (fun _ => true) {} .sayori none fun _ => .raises .timeout).1 =
      .error (.client .timeout) := rfl
  rcases h.reported with ⟨r, hr⟩ | ⟨text, hr⟩ <;> cases hraises.symm.trans hr

end Claude
end PoetryGenerator
