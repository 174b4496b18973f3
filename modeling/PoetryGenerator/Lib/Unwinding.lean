/-
# Noninterference by unwinding

A deterministic machine `step : S → A → O × S` gives an output to each input.  An
observer of the inputs that meet `p` sees these and their outputs (`seen`).  The
other inputs do not interfere when the observer sees the same without them.

The rule `seen_eq_of_unwinding` compares the machine with another one that gets
the observed inputs only: a relation between their states that an observed input
keeps, with equal outputs, and that no other input changes.  The relation may
speak of the inputs still to come.
-/

import Mathlib.Data.Nat.Notation

namespace Unwinding

variable {S S' A A' O : Type*} (step : S → A → O × S) (p : A → Bool)

/-- The outputs to a list of inputs. -/
def outputs : S → List A → List O
  | _, [] => []
  | s, a :: as => (step s a).1 :: outputs (step s a).2 as

/-- The inputs that meet `p`, with their outputs. -/
def seen (s : S) (as : List A) : List (A × O) :=
  (as.zip (outputs step s as)).filter fun x => p x.1

/-- Two machines in a row: the second gets the outputs of the first. -/
def cascade {S' B : Type*} (step₁ : S → A → B × S) (step₂ : S' → B → O × S') (s : S × S') (a : A) :
    O × S × S' :=
  let (b, s₁) := step₁ s.1 a
  let (o, s₂) := step₂ s.2 b
  (o, s₁, s₂)

variable {step p} {step' : S' → A' → O × S'} {f : A → A'} {R : S → S' → List A → Prop} {s : S}
  {s' : S'} {a : A} {as : List A}

theorem outputs_cons : outputs step s (a :: as) = (step s a).1 :: outputs step (step s a).2 as := rfl

theorem length_outputs : (outputs step s as).length = as.length := by
  induction as generalizing s with
  | nil => rfl
  | cons a as ih => rw [outputs_cons, List.length_cons, List.length_cons, ih]

theorem outputs_cascade {step₁ : S → A → A' × S} {step₂ : S' → A' → O × S'} :
    outputs (cascade step₁ step₂) (s, s') as = outputs step₂ s' (outputs step₁ s as) := by
  induction as generalizing s s' with
  | nil => rfl
  | cons a as ih => rw [outputs_cons, outputs_cons, outputs_cons, ← ih]; rfl

theorem seen_cons_of_pos (h : p a = true) :
    seen step p s (a :: as) = (a, (step s a).1) :: seen step p (step s a).2 as :=
  List.filter_cons_of_pos h

theorem seen_cons_of_neg (h : p a = false) :
    seen step p s (a :: as) = seen step p (step s a).2 as :=
  List.filter_cons_of_neg (by rw [h]; exact Bool.false_ne_true)

theorem seen_eq_nil (h : ∀ a ∈ as, p a = false) : seen step p s as = [] :=
  List.filter_eq_nil_iff.2 fun x hx => by
    rw [h x.1 (List.of_mem_zip hx).1]
    exact Bool.false_ne_true

/-- Where every input is observed, everything is seen. -/
theorem seen_filter : seen step p s (as.filter p) =
    (as.filter p).zip (outputs step s (as.filter p)) :=
  List.filter_eq_self.2 fun _ hx => (List.mem_filter.1 (List.of_mem_zip hx).1).2

/-- **Unwinding.**  The observer sees what the other machine outputs. -/
theorem seen_eq_of_unwinding
    (hobserved : ∀ s s' a as, R s s' (a :: as) → p a = true →
      (step s a).1 = (step' s' (f a)).1 ∧ R (step s a).2 (step' s' (f a)).2 as)
    (hother : ∀ s s' a as, R s s' (a :: as) → p a = false → R (step s a).2 s' as)
    (h : R s s' as) :
    seen step p s as = (as.filter p).zip (outputs step' s' ((as.filter p).map f)) := by
  induction as generalizing s s' with
  | nil => rfl
  | cons a as ih =>
      cases ha : p a with
      | true =>
          obtain ⟨hout, hrest⟩ := hobserved s s' a as h ha
          rw [seen_cons_of_pos ha, List.filter_cons_of_pos ha, List.map_cons, outputs_cons,
            List.zip_cons_cons, hout, ih hrest]
      | false =>
          rw [seen_cons_of_neg ha, ih (hother s s' a as h ha),
            List.filter_cons_of_neg (by rw [ha]; exact Bool.false_ne_true)]

/-- **Noninterference.**  If the other machine outputs what the observer sees, of all inputs and of
the observed ones alone, then the observer sees the same without the other inputs. -/
theorem seen_eq_seen_filter
    (hall : ∀ bs, bs = as ∨ bs = as.filter p →
      seen step p s bs = (bs.filter p).zip (outputs step' s' ((bs.filter p).map f))) :
    seen step p s as = (as.filter p).zip (outputs step s (as.filter p)) ∧
      outputs step s (as.filter p) = outputs step' s' ((as.filter p).map f) := by
  have halone := hall (as.filter p) (.inr rfl)
  rw [List.filter_filter, seen_filter] at halone
  simp only [Bool.and_self] at halone
  have hsame := congrArg (List.map Prod.snd) halone
  rw [List.map_snd_zip (Nat.le_of_eq length_outputs), List.map_snd_zip (Nat.le_of_eq (length_outputs.trans (List.length_map _)))]
    at hsame
  exact ⟨(hall as (.inl rfl)).trans (by rw [hsame]), hsame⟩

end Unwinding
