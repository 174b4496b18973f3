/-
# Runs of a partial step function

A system is given by `step : S → L → Option S`: from a state, a label either is
not enabled (`none`) or leads to one next state.  Nondeterminism (who moves,
what fails, what the environment answers) is in the label, so a run is a list
of labels and everything below can be evaluated.

* `run` performs a list of labels;
* `Along P` says that every step of a run, taken with the state it is taken in,
  meets `P`;
* `recordRun f` folds a history along a run, and `countRun p` counts its steps;
* `run_invariant`, `along_iff_forall_prefix_of_invariant`, `recordRun_invariant` and
  `countRun_invariant` are the induction over runs, stated once.
-/

import Mathlib.Data.Nat.Notation
import Mathlib.Logic.Basic

namespace Runs

variable {S L H : Type*} (step : S → L → Option S)

/-- The state a list of labels leads to, or `none` when one is not enabled. -/
def run : S → List L → Option S
  | s, [] => some s
  | s, l :: ls => (step s l).bind fun s' => run s' ls

/-- Every step of the run meets `P`, in the state it is taken in. -/
def Along (P : S → L → Prop) : S → List L → Prop
  | _, [] => True
  | s, l :: ls => P s l ∧ ∀ s', step s l = some s' → Along P s' ls

instance Along.decidable (P : S → L → Prop) [∀ s l, Decidable (P s l)] :
    (s : S) → (ls : List L) → Decidable (Along step P s ls)
  | _, [] => isTrue trivial
  | s, l :: ls =>
    match h : step s l with
    | none => decidable_of_iff (P s l) (by simp [Along, h])
    | some s' =>
      have := Along.decidable P s' ls
      decidable_of_iff (P s l ∧ Along step P s' ls) (by simp [Along, h])

/-- What a run leaves in a history variable `H` that no step reads. -/
def recordRun (f : H → S → L → S → H) : H → S → List L → H
  | h, _, [] => h
  | h, s, l :: ls => match step s l with
    | none => h
    | some s' => recordRun f (f h s l s') s' ls

/-- How many steps of the run meet `p`. -/
def countRun (p : S → L → S → Bool) (s : S) (ls : List L) : ℕ :=
  recordRun step (fun n s l s' => n + (p s l s').toNat) 0 s ls

section
variable {step} {I : S → Prop} {P Q : S → L → Prop} {s s' t : S} {l : L} {ls ls' : List L}

theorem run_cons : run step s (l :: ls) = (step s l).bind fun s' => run step s' ls := rfl

theorem run_cons_eq_some :
    run step s (l :: ls) = some t ↔ ∃ s', step s l = some s' ∧ run step s' ls = some t := by
  rw [run_cons, Option.bind_eq_some_iff]

theorem run_append : run step s (ls ++ ls') = (run step s ls).bind fun s' => run step s' ls' := by
  induction ls generalizing s with
  | nil => rfl
  | cons l ls ih =>
      rw [List.cons_append, run_cons, run_cons, Option.bind_assoc]
      exact Option.bind_congr fun s' _ => ih

theorem run_append_eq_some :
    run step s (ls ++ ls') = some t ↔ ∃ s', run step s ls = some s' ∧ run step s' ls' = some t := by
  rw [run_append, Option.bind_eq_some_iff]

/-- A system that another one follows step by step has its runs. -/
theorem run_map {S' : Type*} {step' : S' → L → Option S'} {f : S' → S}
    (h : ∀ s l, (step' s l).map f = step (f s) l) (s : S') :
    (run step' s ls).map f = run step (f s) ls := by
  induction ls generalizing s with
  | nil => rfl
  | cons l ls ih =>
      rw [run_cons, run_cons, ← h, Option.map_bind, Option.bind_map]
      exact Option.bind_congr fun s' _ => ih s'

theorem Along.mono (h : ∀ s l, P s l → Q s l) : Along step P s ls → Along step Q s ls := by
  induction ls generalizing s with
  | nil => exact id
  | cons l ls ih => exact fun ⟨hp, hr⟩ => ⟨h s l hp, fun s' hs => ih (hr s' hs)⟩

theorem along_of_forall (h : ∀ s, ∀ l ∈ ls, P s l) : Along step P s ls := by
  induction ls generalizing s with
  | nil => trivial
  | cons l ls ih =>
      exact ⟨h s l (List.mem_cons_self ..),
        fun s' _ => ih fun s l hl => h s l (List.mem_cons_of_mem _ hl)⟩

theorem along_append (hr : run step s ls = some t) :
    Along step P s (ls ++ ls') ↔ Along step P s ls ∧ Along step P t ls' := by
  induction ls generalizing s with
  | nil =>
      obtain rfl := Option.some.inj hr
      exact ⟨fun h => ⟨trivial, h⟩, fun h => h.2⟩
  | cons l ls ih =>
      obtain ⟨s₁, hs, hr⟩ := run_cons_eq_some.1 hr
      constructor
      · rintro ⟨hp, h⟩
        obtain ⟨h₁, h₂⟩ := (ih hr).1 (h s₁ hs)
        refine ⟨⟨hp, fun s' hs' => ?_⟩, h₂⟩
        rwa [Option.some.inj (hs'.symm.trans hs)]
      · rintro ⟨⟨hp, h⟩, h₂⟩
        refine ⟨hp, fun s' hs' => ?_⟩
        rw [Option.some.inj (hs'.symm.trans hs)]
        exact (ih hr).2 ⟨h s₁ hs, h₂⟩

/-- **Invariant rule.**  What every allowed step keeps holds at the end of
every allowed run. -/
theorem run_invariant (hstep : ∀ s l s', I s → P s l → step s l = some s' → I s')
    (hs : I s) (hP : Along step P s ls) (hr : run step s ls = some t) : I t := by
  induction ls generalizing s with
  | nil => exact Option.some.inj hr ▸ hs
  | cons l ls ih =>
      obtain ⟨s', hs', hr'⟩ := run_cons_eq_some.1 hr
      exact ih (hstep s l s' hs hP.1 hs') (hP.2 s' hs') hr'

/-- **Invariant rule for an exact condition.**  Where, under an invariant `I`, a step keeps
`Q` exactly when it meets `P`, the steps of a run meet `P` exactly when `Q` holds in every
state on the way.  The invariant may need `Q` to be kept. -/
theorem along_iff_forall_prefix_of_invariant {Q : S → Prop}
    (hI : ∀ s l s', I s → Q s → step s l = some s' → I s')
    (hQ : ∀ s l s', I s → Q s → step s l = some s' → (Q s' ↔ P s l))
    (hs : I s) (hq : Q s) (hr : run step s ls = some t) :
    Along step P s ls ↔ ∀ pre post s', ls = pre ++ post → run step s pre = some s' → Q s' := by
  constructor
  · rintro hP pre post s' rfl hpre
    have hkeep : ∀ s l s', I s ∧ Q s → P s l → step s l = some s' → I s' ∧ Q s' :=
      fun s l s' hs hp h => ⟨hI s l s' hs.1 hs.2 h, (hQ s l s' hs.1 hs.2 h).2 hp⟩
    exact (run_invariant hkeep ⟨hs, hq⟩ ((along_append hpre).1 hP).1 hpre).2
  · intro hall
    induction ls generalizing s with
    | nil => trivial
    | cons l ls ih =>
        obtain ⟨s₁, hs₁, hr₁⟩ := run_cons_eq_some.1 hr
        have hq₁ : Q s₁ := hall [l] ls s₁ rfl (run_cons_eq_some.2 ⟨s₁, hs₁, rfl⟩)
        refine ⟨(hQ s l s₁ hs hq hs₁).1 hq₁, fun s' hs' => ?_⟩
        obtain rfl := Option.some.inj (hs₁.symm.trans hs')
        exact ih (hI s l s₁ hs hq hs₁) hq₁ hr₁ fun pre post s' he hpre =>
          hall (l :: pre) post s' (by rw [he]; rfl) (run_cons_eq_some.2 ⟨s₁, hs₁, hpre⟩)

/-- The rule without an invariant beside the property. -/
theorem along_iff_forall_prefix (hstep : ∀ s l s', I s → step s l = some s' → (I s' ↔ P s l))
    (hs : I s) (hr : run step s ls = some t) :
    Along step P s ls ↔ ∀ pre post s', ls = pre ++ post → run step s pre = some s' → I s' :=
  along_iff_forall_prefix_of_invariant (I := fun _ => True) (fun _ _ _ _ _ _ => trivial)
    (fun s l s' _ => hstep s l s') trivial hs hr

/-- **Invariant rule with a history.**  A relation between the history and the
state that every allowed step keeps holds at the end of every allowed run. -/
theorem recordRun_invariant {f : H → S → L → S → H} {J : H → S → Prop} {h : H}
    (hstep : ∀ h s l s', J h s → P s l → step s l = some s' → J (f h s l s') s')
    (hs : J h s) (hP : Along step P s ls) (hr : run step s ls = some t) :
    J (recordRun step f h s ls) t := by
  induction ls generalizing s h with
  | nil => exact Option.some.inj hr ▸ hs
  | cons l ls ih =>
      obtain ⟨s', hs', hr'⟩ := run_cons_eq_some.1 hr
      rw [recordRun, hs']
      exact ih (hstep h s l s' hs hP.1 hs') (hP.2 s' hs') hr'

/-- A history of what the labels carry, the last first. -/
theorem recordRun_labels {f : L → Option H} {h : List H} (hr : run step s ls = some t) :
    recordRun step (fun h _ l _ => (f l).toList ++ h) h s ls = (ls.filterMap f).reverse ++ h := by
  induction ls generalizing s h with
  | nil => rfl
  | cons l ls ih =>
      obtain ⟨s', hs', hr'⟩ := run_cons_eq_some.1 hr
      rw [recordRun, hs', List.filterMap_cons]
      refine (ih hr').trans ?_
      cases f l <;> simp

/-- **Invariant rule with a count** of the steps so far that meet `p`. -/
theorem countRun_invariant {p : S → L → S → Bool} {J : ℕ → S → Prop}
    (hstep : ∀ n s l s', J n s → P s l → step s l = some s' → J (n + (p s l s').toNat) s')
    (hs : J 0 s) (hP : Along step P s ls) (hr : run step s ls = some t) :
    J (countRun step p s ls) t :=
  recordRun_invariant hstep hs hP hr

end

end Runs
