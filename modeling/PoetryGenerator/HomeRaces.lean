/-
# Submissions and polls that overlap (`frontend/app/page.tsx`)

A submission clears the poem, and the effect's clean-up cancels a timer that has not gone off;
a poll that is already in flight keeps its setter, so the poem of an earlier submission comes
back with its answer.

A second call can be in flight with the first only through `Regenerate`.  That needs a poem
beside a submission, which only such a poll can put there (`step_keeps`).
-/

import PoetryGenerator.HomePage

namespace PoetryGenerator
namespace HomePage
namespace Calls

/-- **What is displayed**: nothing while a submission is loading, and the accepted poem until
the next submission. -/
structure Keeps (s : Calls) : Prop where
  loading : s.page.loading = true → s.page.poem = none
  accepted : ∀ id ∈ s.accepted, s.page.poem.map PoemView.id = some id

/-- No submission is loading when a poll is answered, and it is a poll of the accepted poem. -/
def Timely (s : Calls) : Event → Prop
  | .page (.polled i _ _) => s.page.loading = false ∧
      ∀ id ∈ s.page.polls[i]?, ∀ a ∈ s.accepted, id = a
  | _ => True

instance (s : Calls) : (e : Event) → Decidable (s.Timely e)
  | .page (.polled i _ _) => inferInstanceAs (Decidable (s.page.loading = false ∧
      ∀ id ∈ s.page.polls[i]?, ∀ a ∈ s.accepted, id = a))
  | .page .submit | .page (.generated _) | .page (.generateFailed _) | .page .fire
  | .page (.pollFailed _) | .page .rerun | .regenerate => isTrue trivial

/-- One call is in flight while the page is loading, and none otherwise. -/
structure Single (s : Calls) : Prop where
  generates : s.generates = s.page.loading.toNat
  accepted : s.page.loading = true → s.accepted = none

variable {s s' : Calls} {e : Event} {ls : List Event}

/-- `Regenerate` is not there while nothing is displayed. -/
theorem Keeps.not_loading (h : s.Keeps) (hr : s.page.offersRegenerate = true) :
    s.page.loading = false := by
  rw [← Bool.not_eq_true]
  intro hloading
  rw [offersRegenerate, h.loading hloading] at hr
  exact absurd hr (by decide)

/-- `generate` is called while no call is in flight. -/
theorem Single.generate (h : s.Single) (hl : s.page.loading = false) :
    s.generate.Single ∧ s.generate.Keeps := by
  refine ⟨⟨?_, fun _ => rfl⟩, ⟨fun _ => rfl, fun _ ha => absurd ha (Option.not_mem_none _)⟩⟩
  rw [Calls.generate, h.generates, hl]
  rfl

/-- A call is in flight while the page is loading only, and it is the only one. -/
theorem Single.of_call (h : s.Single) (hg : s.generates ≠ 0) :
    s.generates = 1 ∧ s.accepted = none := by
  have hloading : s.page.loading = true := by
    rw [h.generates] at hg
    cases hl : s.page.loading with
    | false => exact absurd (congrArg Bool.toNat hl) hg
    | true => rfl
  exact ⟨h.generates.trans (congrArg Bool.toNat hloading), h.accepted hloading⟩

/-- The poem of a call is the first that is accepted. -/
theorem Single.accept (h : s.Single) (hg : s.generates ≠ 0) (p : PoemView) :
    (s.accept p).Single ∧ (s.accept p).Keeps := by
  obtain ⟨hone, hnone⟩ := h.of_call hg
  refine ⟨⟨?_, fun hl => absurd hl Bool.false_ne_true⟩,
    ⟨fun hl => absurd hl Bool.false_ne_true, fun id hid => ?_⟩⟩
  · rw [Calls.accept, hone]
    rfl
  · rw [Calls.accept, hnone] at hid
    exact hid

theorem Single.giveUp (h : s.Single) (hk : s.Keeps) (hg : s.generates ≠ 0) (error : Str) :
    (s.giveUp error).Single ∧ (s.giveUp error).Keeps := by
  refine ⟨⟨?_, fun hl => absurd hl Bool.false_ne_true⟩,
    ⟨fun hl => absurd hl Bool.false_ne_true, hk.accepted⟩⟩
  rw [Calls.giveUp, (h.of_call hg).1]
  rfl

/-- An event that leaves the poem and the loading alone. -/
theorem Single.quiet (h : s.Single) (hk : s.Keeps) (page : HomePage)
    (hpoem : page.poem = s.page.poem) (hl : page.loading = s.page.loading) :
    Single { s with page } ∧ Keeps { s with page } := by
  refine ⟨⟨?_, fun hloading => h.accepted (hl ▸ hloading)⟩, ⟨fun hloading => ?_, fun id hid => ?_⟩⟩
  · rw [h.generates, hl]
  · exact hpoem.trans (hk.loading (hl ▸ hloading))
  · exact (congrArg (Option.map PoemView.id) hpoem).trans (hk.accepted id hid)

/-- **A poll that is answered** keeps what is displayed when it is in time, and only then. -/
theorem keeps_polled_iff {i : ℕ} {images audios : List Str} {id : ℤ} {polls : List ℤ}
    (hid : s.page.polls[i]? = some id) :
    Keeps { s with page := { s.page with polls }.setPoem (some ⟨id, images, audios⟩) } ↔
      s.Timely (.page (.polled i images audios)) := by
  simp only [Timely, hid, Option.mem_def, Option.some.injEq, forall_eq']
  constructor
  · intro hkeeps
    constructor
    · refine Bool.eq_false_of_not_eq_true fun hl => ?_
      exact absurd (hkeeps.loading hl) (Option.some_ne_none _)
    · exact fun a ha => Option.some.inj (hkeeps.accepted a ha)
  · rintro ⟨hl, hacc⟩
    constructor
    · exact fun hloading => absurd (hl.symm.trans hloading) Bool.false_ne_true
    · exact fun a ha => congrArg some (hacc a ha)

/-- **Step lemma.**  One call at a time stays so, and what is displayed is kept exactly when a
poll is answered in time. -/
theorem step_keeps (h : s.Single) (hk : s.Keeps) (hs : s.act e = some s') :
    s'.Single ∧ (s'.Keeps ↔ s.Timely e) := by
  cases e with
  | regenerate =>
      rw [Calls.act] at hs
      split_ifs at hs with hr
      obtain rfl := Option.some.inj hs
      exact (h.generate (hk.not_loading hr)).imp_right fun hkeeps => iff_of_true hkeeps trivial
  | page l =>
      cases l with
      | submit =>
          rw [Calls.act] at hs
          split_ifs at hs with hl
          obtain rfl := Option.some.inj hs
          have hl := Bool.eq_false_of_not_eq_true hl
          exact (h.generate hl).imp_right fun hkeeps => iff_of_true hkeeps trivial
      | generated p =>
          rw [Calls.act] at hs
          split_ifs at hs with hg
          obtain rfl := Option.some.inj hs
          exact (h.accept hg p).imp_right fun hkeeps => iff_of_true hkeeps trivial
      | generateFailed error =>
          rw [Calls.act] at hs
          split_ifs at hs with hg
          obtain rfl := Option.some.inj hs
          exact (h.giveUp hk hg error).imp_right fun hkeeps => iff_of_true hkeeps trivial
      | fire =>
          obtain ⟨page, hpage, rfl⟩ := Option.map_eq_some_iff.1 hs
          obtain ⟨id, -, rfl⟩ := Option.map_eq_some_iff.1 hpage
          refine (h.quiet hk _ ?_ ?_).imp_right fun hkeeps => iff_of_true hkeeps trivial
          · rfl
          · rfl
      | polled i images audios =>
          obtain ⟨page, hpage, rfl⟩ := Option.map_eq_some_iff.1 hs
          obtain ⟨id, hid, rfl⟩ := Option.map_eq_some_iff.1 hpage
          exact ⟨⟨h.generates, h.accepted⟩, keeps_polled_iff hid⟩
      | pollFailed i =>
          obtain ⟨page, hpage, rfl⟩ := Option.map_eq_some_iff.1 hs
          obtain ⟨id, -, rfl⟩ := Option.map_eq_some_iff.1 hpage
          refine (h.quiet hk _ ?_ ?_).imp_right fun hkeeps => iff_of_true hkeeps trivial
          · rfl
          · rfl
      | rerun =>
          obtain rfl := Option.some.inj hs
          refine (h.quiet hk _ ?_ ?_).imp_right fun hkeeps => iff_of_true hkeeps trivial
          · rfl
          · rfl

theorem single_mounted : Single {} := ⟨rfl, fun h => absurd h Bool.false_ne_true⟩

theorem keeps_mounted : Keeps {} := ⟨fun _ => rfl, fun _ h => absurd h (Option.not_mem_none _)⟩

/-- **The poem that is displayed.**  On a run of the page the accepted poem stays until the next
submission, and no poem is displayed while one is loading, exactly when polls are answered
while no submission is loading and for the accepted poem. -/
theorem keeps_iff_timely (hr : Runs.run act {} ls = some s) :
    Runs.Along act Timely {} ls ↔ ∀ pre post s', ls = pre ++ post →
      Runs.run act {} pre = some s' → s'.Keeps :=
  Runs.along_iff_forall_prefix_of_invariant (fun _ _ _ h hk hs => (step_keeps h hk hs).1)
    (fun _ _ _ h hk hs => (step_keeps h hk hs).2) single_mounted keeps_mounted hr

/-- The poll of the first poem is answered before the second poem is submitted. -/
def inTime : List Event :=
  [.page .submit, .page (.generated ⟨1, ["pending".toList], []⟩), .page .fire,
    .page (.polled 0 ["running".toList] []), .page .submit,
    .page (.generated ⟨2, ["pending".toList], []⟩)]

/-- The second poem is displayed. -/
theorem inTime_keeps : ∃ s, Runs.run act {} inTime = some s ∧ s.accepted = some 2 ∧ s.Keeps := by
  obtain ⟨s, hs⟩ : ∃ s, Runs.run act {} inTime = some s := ⟨_, rfl⟩
  refine ⟨s, hs, ?_, (keeps_iff_timely hs).1 (by decide) inTime [] s rfl hs⟩
  exact Option.some.inj ((congrArg (Option.map accepted) hs).symm.trans rfl)

/-- It is answered after the second poem has been accepted. -/
def lateAnswer : List Event :=
  [.page .submit, .page (.generated ⟨1, ["pending".toList], []⟩), .page .fire, .page .submit,
    .page (.generated ⟨2, ["pending".toList], []⟩), .page (.polled 0 ["running".toList] [])]

/-- The first poem is displayed again. -/
theorem lateAnswer_not_keeps : ∃ s, Runs.run act {} lateAnswer = some s ∧ s.accepted = some 2 ∧
    s.page.poem.map PoemView.id = some 1 ∧ ¬ s.Keeps := by
  refine ⟨_, rfl, rfl, rfl, fun h => ?_⟩
  exact absurd (h.accepted 2 rfl) (by decide)

end Calls
end HomePage
end PoetryGenerator
