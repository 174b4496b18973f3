/-
# Laws of runs

Rules for whole runs of a partial step function, beside the invariant rules of
`Lib.Runs`.

* `run_reaches`: a measure that every step decreases until a goal is reached
  bounds the steps before it.  An invariant may be needed for the decrease, and
  the goal is kept once it holds.  In `run_reaches_countP` only some steps
  decrease it and the others leave it alone.
* `run_flow`: where each step conserves what is held (`held ++ in = out ++ held'`),
  so does a run, in order.
* `keyed_of_run`: values that are given out with a key, each at most once, keep
  their key wherever they are held afterwards.

`run_map_labels` reads a run whose labels all come from one process as a run of
that process.
-/

import Mathlib.Data.List.Induction
import PoetryGenerator.Lib.Runs

namespace Runs

variable {S L K : Type*} {step : S → L → Option S} {I Q : S → Prop} {P : S → L → Prop}
  {s t : S} {ls : List L} {m : S → ℕ}

/-- A run of relabelled steps. -/
theorem run_map_labels (f : K → L) (ks : List K) :
    run step s (ks.map f) = run (fun s k => step s (f k)) s ks := by
  induction ks generalizing s with
  | nil => rfl
  | cons k ks ih =>
      rw [List.map_cons, run_cons, run_cons]
      exact Option.bind_congr fun s' _ => ih

/-- What meets every step of the run, with the steps before it, is met along the run. -/
theorem along_of_prefixes
    (h : ∀ pre l post s', ls = pre ++ l :: post → run step s pre = some s' → P s' l) :
    Along step P s ls := by
  induction ls generalizing s with
  | nil => trivial
  | cons l ls ih =>
      refine ⟨h [] l ls s rfl rfl, fun s' hst => ih fun pre l' post s'' he hr => ?_⟩
      exact h (l :: pre) l' post s'' (he ▸ rfl) (run_cons_eq_some.2 ⟨s', hst, hr⟩)

/-- What every allowed step keeps together with an invariant, once it holds. -/
theorem run_keeps (hI : ∀ s l s', I s → P s l → step s l = some s' → I s')
    (hQ : ∀ s l s', I s → P s l → Q s → step s l = some s' → Q s')
    (hs : I s) (hq : Q s) (hP : Along step P s ls) (hr : run step s ls = some t) : Q t :=
  (run_invariant (I := fun s => I s ∧ Q s)
    (fun s l s' h hp hst => ⟨hI s l s' h.1 hp hst, hQ s l s' h.1 hp h.2 hst⟩) ⟨hs, hq⟩ hP hr).2

/-- **Variant rule with other steps between.**  A run in which more steps meet `p` than the
measure of its first state ends at the goal, where those decrease it and no other raises it. -/
theorem run_reaches_countP (p : L → Bool) (hI : ∀ s l s', I s → P s l → step s l = some s' → I s')
    (hQ : ∀ s l s', I s → P s l → Q s → step s l = some s' → Q s')
    (hm : ∀ s l s', I s → P s l → ¬ Q s → step s l = some s' → m s' + (p l).toNat ≤ m s)
    (hs : I s) (hP : Along step P s ls) (hr : run step s ls = some t) (hlen : m s < ls.countP p) :
    Q t := by
  induction ls generalizing s with
  | nil => exact absurd hlen (Nat.not_lt_zero _)
  | cons l ls ih =>
      by_cases hq : Q s
      · exact run_keeps hI hQ hs hq hP hr
      · obtain ⟨s', hst, hr'⟩ := run_cons_eq_some.1 hr
        have hle := hm s l s' hs hP.1 hq hst
        have hcount : (l :: ls).countP p = ls.countP p + (p l).toNat := by
          rw [List.countP_cons]
          cases p l <;> rfl
        refine ih (hI s l s' hs hP.1 hst) (hP.2 s' hst) hr' ?_
        rw [hcount] at hlen
        omega

/-- **Variant rule.**  A run with more steps than the measure of its first state
ends at the goal. -/
theorem run_reaches (hI : ∀ s l s', I s → P s l → step s l = some s' → I s')
    (hQ : ∀ s l s', I s → P s l → Q s → step s l = some s' → Q s')
    (hm : ∀ s l s', I s → P s l → ¬ Q s → step s l = some s' → m s' < m s)
    (hs : I s) (hP : Along step P s ls) (hr : run step s ls = some t) (hlen : m s < ls.length) :
    Q t :=
  run_reaches_countP (fun _ => true) hI hQ hm hs hP hr (List.countP_true ▸ hlen)

/-- What the steps of a run give off, in the order of the steps. -/
def collect {A : Type*} (step : S → L → Option S) (f : S → L → List A) : S → List L → List A
  | _, [] => []
  | s, l :: ls => match step s l with
    | none => []
    | some s' => f s l ++ collect step f s' ls

/-- **Conservation rule.**  Where each allowed step holds what it held and takes in, less what it
gives off at the front, a run lets everything through in order. -/
theorem run_flow {A : Type*} {held : S → List A} {arriving leaving : S → L → List A}
    (h : ∀ s l s', P s l → step s l = some s' → held s ++ arriving s l = leaving s l ++ held s')
    (hP : Along step P s ls) (hr : run step s ls = some t) :
    held s ++ collect step arriving s ls = collect step leaving s ls ++ held t := by
  induction ls generalizing s with
  | nil =>
      obtain rfl := Option.some.inj hr
      exact List.append_nil _
  | cons l ls ih =>
      obtain ⟨s', hst, hr'⟩ := run_cons_eq_some.1 hr
      simp only [collect, hst]
      rw [← List.append_assoc, h s l s' hP.1 hst, List.append_assoc, ih (hP.2 s' hst) hr',
        List.append_assoc]

/-- **Rule for values with a key.**  Where `R` gets a value only from a step that gives it out for
its key (`N`), and no value is given out twice, every value of `R` was given out and has one
key. -/
theorem keyed_of_run {A B : Type*} {R : S → A → B → Prop} {N : S → L → A → B → Prop}
    {f : L → Option B} (hI : ∀ s l s', I s → step s l = some s' → I s')
    (hR : ∀ s l s' a b, I s → step s l = some s' → R s' a b → R s a b ∨ N s l a b)
    (hout : ∀ s l a b, N s l a b → f l = some b)
    (hkey : ∀ s l a a' b, N s l a b → N s l a' b → a = a')
    (hs : I s) (hnone : ∀ a b, ¬ R s a b) (hr : run step s ls = some t)
    (hn : (ls.filterMap f).Nodup) :
    (∀ a b, R t a b → b ∈ ls.filterMap f) ∧ ∀ a a' b, R t a b → R t a' b → a = a' := by
  induction ls using List.reverseRecOn generalizing t with
  | nil =>
      obtain rfl := Option.some.inj hr
      exact ⟨fun a b h => absurd h (hnone a b), fun a a' b h => absurd h (hnone a b)⟩
  | append_singleton ls l ih =>
      obtain ⟨s₁, hr₁, hlast⟩ := run_append_eq_some.1 hr
      obtain ⟨t', hst, ht⟩ := run_cons_eq_some.1 hlast
      obtain rfl := Option.some.inj ht
      rw [List.filterMap_append, List.nodup_append] at hn
      obtain ⟨hmem, hinj⟩ := ih hr₁ hn.1
      have hI₁ : I s₁ := run_invariant (P := fun _ _ => True) (fun s l s' h _ => hI s l s' h) hs
        (along_of_forall fun _ _ _ => trivial) hr₁
      have hgiven : ∀ {a b}, N s₁ l a b → b ∈ [l].filterMap f := fun h =>
        List.mem_filterMap.2 ⟨l, List.mem_singleton_self l, hout _ _ _ _ h⟩
      -- what is given out now was not held before
      have hfresh : ∀ {a a' b}, R s₁ a b → ¬ N s₁ l a' b := fun h hnew =>
        hn.2.2 _ (hmem _ _ h) _ (hgiven hnew) rfl
      refine ⟨fun a b h => ?_, fun a a' b h h' => ?_⟩
      · rw [List.filterMap_append, List.mem_append]
        exact (hR _ _ _ _ _ hI₁ hst h).imp (hmem a b) hgiven
      · rcases hR _ _ _ _ _ hI₁ hst h with hold | hnew <;>
          rcases hR _ _ _ _ _ hI₁ hst h' with hold' | hnew'
        · exact hinj a a' b hold hold'
        · exact absurd hnew' (hfresh hold)
        · exact absurd hnew (hfresh hold')
        · exact hkey _ _ _ _ _ hnew hnew'

end Runs
