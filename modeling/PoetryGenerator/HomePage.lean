/-
# The Home page (`frontend/app/page.tsx` and `frontend/app/poem-utils.ts`)

A submission asks the API for a poem.  While an asset of the displayed poem is
neither done nor failed, an effect arms a timer of two seconds, and the timer
fetches the poem again.  The effect runs when the poem *object* changes, so the
next timer is armed by the answer of a poll and by nothing else: a poll that
fails leaves the object as it is.

The button of the form is disabled while a submission is under way.  `Regenerate`,
under an image that failed, submits as the form does and is not, so a second call
may be in flight with the first (`Calls`).

Setting the poem, the render after it and the effect are one step here; a state
is what the page is in when React is done.
-/

import PoetryGenerator.Lib.Runs
import PoetryGenerator.Text

namespace PoetryGenerator

/-- `TERMINAL_STATUSES`. -/
def terminalStatuses : List Str := ["done".toList, "failed".toList]

/-- `isTerminal`. -/
def isTerminal (status : Str) : Bool := status ∈ terminalStatuses

/-- `hasPendingAssets`, of the statuses of the assets. -/
def hasPendingAssets (assets : List Str) : Bool := assets.any fun status => !isTerminal status

/-- What the page reads of a `Poem`: its id, and the statuses of its assets. -/
structure PoemView where
  id : ℤ
  images : List Str
  audios : List Str
deriving DecidableEq, Repr

/-- An asset is still being produced. -/
def PoemView.pending (p : PoemView) : Bool := hasPendingAssets (p.images ++ p.audios)

/-- The page between two events. -/
structure HomePage where
  poem : Option PoemView := none
  /-- A submission is under way; the button is disabled meanwhile. -/
  loading : Bool := false
  error : Option Str := none
  /-- The poem id in the closure of the armed timer. -/
  timer : Option ℤ := none
  /-- The poem ids of the polls in flight. -/
  polls : List ℤ := []
deriving DecidableEq, Repr

namespace HomePage

/-- What the polling effect arms. -/
def effect (poem : Option PoemView) : Option ℤ :=
  poem.bind fun p => if p.pending then some p.id else none

/-- `setPoem`: the effect of the old poem is cleaned up, that of the new one runs. -/
def setPoem (s : HomePage) (poem : Option PoemView) : HomePage :=
  { s with poem, timer := effect poem }

/-- An event of the page. -/
inductive Label
  /-- The form is submitted. -/
  | submit
  /-- `POST /api/generate` is answered with a poem. -/
  | generated (poem : PoemView)
  /-- It is answered with an error status, or the request fails. -/
  | generateFailed (error : Str)
  /-- The timer goes off. -/
  | fire
  /-- Poll `i` is answered with its poem. -/
  | polled (i : ℕ) (images audios : List Str)
  /-- It is answered with an error status, or the request fails. -/
  | pollFailed (i : ℕ)
  /-- The effect runs again without a new poem. -/
  | rerun

/-- What the timer, the polls and the effect do; the other events are those of `Calls`. -/
def step (s : HomePage) : Label → Option HomePage
  | .fire => s.timer.map fun id => { s with timer := none, polls := s.polls ++ [id] }
  | .polled i images audios => s.polls[i]?.map fun id =>
    { s with polls := s.polls.eraseIdx i }.setPoem (some ⟨id, images, audios⟩)
  | .pollFailed i => s.polls[i]?.map fun _ => { s with polls := s.polls.eraseIdx i }
  | .rerun => some { s with timer := effect s.poem }
  | .submit | .generated _ | .generateFailed _ => none

/-- The button `Regenerate` is there: the first image of the displayed poem has failed. -/
def offersRegenerate (s : HomePage) : Bool :=
  s.poem.bind (fun p => p.images.head?) = some "failed".toList

/-- The page with its calls of `POST /api/generate`. -/
structure Calls where
  page : HomePage := {}
  /-- How many are in flight. -/
  generates : ℕ := 0
  /-- The poem of the call that was accepted first since the last submission; no step reads it. -/
  accepted : Option ℤ := none
deriving DecidableEq, Repr

/-- An event of the page, or a click on `Regenerate`. -/
inductive Event
  | page (l : Label)
  | regenerate

namespace Calls

/-- `generate`, up to the request. -/
def generate (s : Calls) : Calls :=
  { page := { s.page.setPoem none with loading := true, error := none }
    generates := s.generates + 1
    accepted := none }

/-- The rest of `generate` when the answer is a poem. -/
def accept (s : Calls) (p : PoemView) : Calls :=
  { page := { s.page.setPoem (some p) with loading := false }
    generates := s.generates - 1
    accepted := s.accepted.or (some p.id) }

/-- The rest of `generate` when there is no poem. -/
def giveUp (s : Calls) (error : Str) : Calls :=
  { s with
    page := { s.page with loading := false, error := some error }
    generates := s.generates - 1 }

/-- One event. -/
def act (s : Calls) : Event → Option Calls
  | .page .submit => if s.page.loading then none else some s.generate
  | .regenerate => if s.page.offersRegenerate then some s.generate else none
  | .page (.generated p) => if s.generates = 0 then none else some (s.accept p)
  | .page (.generateFailed e) => if s.generates = 0 then none else some (s.giveUp e)
  | .page l => (s.page.step l).map fun page => { s with page }

end Calls

/-! ### Polling -/

/-- **What polling is for**: while an asset of the displayed poem is being produced, a timer
for it is armed or a poll for it is in flight. -/
def Polling (s : HomePage) : Prop :=
  ∀ p ∈ s.poem, p.pending = true → s.timer = some p.id ∨ p.id ∈ s.polls

/-- Poll `i` is the only one for the displayed poem, an asset of this poem is being produced, and no
timer for it is armed. -/
def LastPoll (s : HomePage) (i : ℕ) : Prop :=
  ∃ p ∈ s.poem, p.pending = true ∧ s.timer ≠ some p.id ∧ s.polls[i]? = some p.id ∧
    ∀ j < s.polls.length, s.polls[j]? = some p.id → j = i

instance (s : HomePage) (i : ℕ) : Decidable (s.LastPoll i) :=
  inferInstanceAs (Decidable (∃ p ∈ s.poem, p.pending = true ∧ s.timer ≠ some p.id ∧
    s.polls[i]? = some p.id ∧ ∀ j < s.polls.length, s.polls[j]? = some p.id → j = i))

variable {s : HomePage} {i : ℕ} {id : ℤ}

/-- The effect arms a timer for a poem that needs one. -/
theorem polling_of_effect (h : s.timer = effect s.poem) : s.Polling := by
  intro p hp hpending
  refine .inl (h.trans ?_)
  rw [Option.mem_def.1 hp]
  exact if_pos hpending

/-- **A poll that fails** leaves the displayed poem polled unless it was the last. -/
theorem polling_eraseIdx_iff (hs : s.Polling) :
    Polling { s with polls := s.polls.eraseIdx i } ↔ ¬s.LastPoll i := by
  constructor
  · rintro h ⟨p, hp, hpending, htimer, -, honly⟩
    rcases h p hp hpending with htimer' | hpoll
    · exact htimer htimer'
    · obtain ⟨j, hne, hj⟩ := List.mem_eraseIdx_iff_getElem?.1 hpoll
      exact hne (honly j (List.getElem?_eq_some_iff.1 hj).1 hj)
  · intro hlast p hp hpending
    by_contra hnone
    obtain ⟨htimer, hpoll⟩ := not_or.1 hnone
    have hother : ∀ j, s.polls[j]? = some p.id → j = i := fun j hj =>
      by_contra fun hne => hpoll (List.mem_eraseIdx_iff_getElem?.2 ⟨j, hne, hj⟩)
    obtain ⟨j, hj⟩ := List.mem_iff_getElem?.1 ((hs p hp hpending).resolve_left htimer)
    exact hlast ⟨p, hp, hpending, htimer, hother j hj ▸ hj, fun j _ hj => hother j hj⟩

/-- A timer that goes off becomes a poll. -/
theorem Polling.fire (hs : s.Polling) (hid : s.timer = some id) :
    Polling { s with timer := none, polls := s.polls ++ [id] } := by
  intro p hp hpending
  refine .inr (List.mem_append.2 ?_)
  rcases hs p hp hpending with htimer | hpoll
  · exact .inr (List.mem_singleton.2 (Option.some.inj (htimer.symm.trans hid)))
  · exact .inl hpoll

namespace Calls

variable {s s' : Calls} {e : Event} {ls : List Event}

/-- The poll that fails is not the last. -/
def Spared (s : Calls) : Event → Prop
  | .page (.pollFailed i) => ¬s.page.LastPoll i
  | _ => True

instance (s : Calls) : (e : Event) → Decidable (s.Spared e)
  | .page (.pollFailed i) => inferInstanceAs (Decidable (¬s.page.LastPoll i))
  | .page .submit | .page (.generated _) | .page (.generateFailed _) | .page .fire
  | .page (.polled ..) | .page .rerun | .regenerate => isTrue trivial

/-- **Step lemma.**  An event keeps the displayed poem polled, a failing poll when it is not the
last. -/
theorem step_polling (hs : s.page.Polling) (h : s.act e = some s') : s'.page.Polling ↔ s.Spared e := by
  cases e with
  | regenerate =>
      rw [act] at h
      split_ifs at h
      obtain rfl := Option.some.inj h
      exact iff_of_true (polling_of_effect rfl) trivial
  | page l =>
      cases l with
      | submit =>
          rw [act] at h
          split_ifs at h
          obtain rfl := Option.some.inj h
          exact iff_of_true (polling_of_effect rfl) trivial
      | generated p =>
          rw [act] at h
          split_ifs at h
          obtain rfl := Option.some.inj h
          exact iff_of_true (polling_of_effect rfl) trivial
      | generateFailed error =>
          rw [act] at h
          split_ifs at h
          obtain rfl := Option.some.inj h
          exact iff_of_true hs trivial
      | fire =>
          obtain ⟨page, hpage, rfl⟩ := Option.map_eq_some_iff.1 h
          obtain ⟨id, hid, rfl⟩ := Option.map_eq_some_iff.1 hpage
          exact iff_of_true (hs.fire hid) trivial
      | polled i images audios =>
          obtain ⟨page, hpage, rfl⟩ := Option.map_eq_some_iff.1 h
          obtain ⟨id, -, rfl⟩ := Option.map_eq_some_iff.1 hpage
          exact iff_of_true (polling_of_effect rfl) trivial
      | pollFailed i =>
          obtain ⟨page, hpage, rfl⟩ := Option.map_eq_some_iff.1 h
          obtain ⟨id, -, rfl⟩ := Option.map_eq_some_iff.1 hpage
          exact polling_eraseIdx_iff hs
      | rerun =>
          obtain rfl := Option.some.inj h
          exact iff_of_true (polling_of_effect rfl) trivial

/-- **Polling.**  On a run of the page the displayed poem is polled in every state exactly
when no poll fails that is the last one for it. -/
theorem polling_of_run_iff (hr : Runs.run act {} ls = some s) :
    Runs.Along act Spared {} ls ↔ ∀ pre post s', ls = pre ++ post →
      Runs.run act {} pre = some s' → s'.page.Polling :=
  Runs.along_iff_forall_prefix (I := fun s : Calls => s.page.Polling) (fun _ _ _ hs h => step_polling hs h)
    (polling_of_effect rfl) hr

/-- A poem with an image to come is shown, and its first poll fails. -/
def firstPollFails : List Event :=
  [.page .submit, .page (.generated ⟨1, ["pending".toList], []⟩), .page .fire, .page (.pollFailed 0)]

/-- Nothing polls the poem any more. -/
theorem polling_stops : ∃ s, Runs.run act {} firstPollFails = some s ∧ ¬s.page.Polling := by
  obtain ⟨s, hs, hpage⟩ : ∃ s, Runs.run act {} firstPollFails = some s ∧
      s.page = { poem := some ⟨1, ["pending".toList], []⟩ } := ⟨_, rfl, rfl⟩
  refine ⟨s, hs, fun h => ?_⟩
  rw [hpage] at h
  rcases h _ rfl (by decide) with htimer | hpoll
  · exact absurd htimer (by decide)
  · exact absurd hpoll (by decide)

/-- A poll of the first poem brings it back while the second is loading, `Regenerate` makes a second
call, and of the polls of the poem that is then accepted the first is answered, and the next fails
while a timer is armed again. -/
def answered : List Event :=
  [.page .submit, .page (.generated ⟨1, ["failed".toList], ["pending".toList]⟩), .page .fire, .page .submit,
    .page (.polled 0 ["failed".toList] ["running".toList]), .regenerate,
    .page (.generated ⟨2, ["pending".toList], []⟩), .page .fire,
    .page (.polled 0 ["running".toList] []), .page .fire, .page .rerun, .page (.pollFailed 0)]

/-- The timer keeps the poem polled, and a call is still in flight. -/
theorem polling_answered : ∃ s, Runs.run act {} answered = some s ∧ s.generates = 1 ∧ s.page.Polling := by
  obtain ⟨s, hs, hcalls⟩ : ∃ s, Runs.run act {} answered = some s ∧ s.generates = 1 := ⟨_, rfl, rfl⟩
  exact ⟨s, hs, hcalls, (polling_of_run_iff hs).1 (by decide) answered [] s (List.append_nil _).symm hs⟩

end Calls
end HomePage
end PoetryGenerator
