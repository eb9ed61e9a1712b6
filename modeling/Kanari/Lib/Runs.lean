import Mathlib.Data.List.Basic

/-!
# Runs that record what each step did

`Run step start h s`: `s` is reached from `start` by steps that did, in this order, what `h` lists.
What a step may do can depend on the whole history before it.
-/

namespace Kanari.Lib

variable {σ ω : Type}

inductive Run (step : List ω → σ → ω → σ → Prop) (start : σ) : List ω → σ → Prop
  | start : Run step start [] start
  | step {h : List ω} {s s' : σ} {o : ω} (hrun : Run step start h s) (hstep : step h s o s') :
      Run step start (h ++ [o]) s'

namespace Run

variable {step step' : List ω → σ → ω → σ → Prop} {start s : σ} {h h₁ h₂ : List ω} {o : ω}

/-- Every entry of the history was made by a step from a state that the entries before it reach. -/
lemma split (hrun : Run step start h s) (heq : h = h₁ ++ o :: h₂) :
    ∃ s₁ s₂, Run step start h₁ s₁ ∧ step h₁ s₁ o s₂ := by
  induction hrun generalizing h₂ with
  | start => simp at heq
  | @step h s s' o' hrun hstep ih =>
    rcases List.eq_nil_or_concat h₂ with rfl | ⟨h₃, last, rfl⟩
    · obtain ⟨rfl, hlast⟩ := List.append_inj' heq rfl
      obtain rfl : o' = o := List.head_eq_of_cons_eq hlast
      exact ⟨s, s', hrun, hstep⟩
    · have hinit : h = h₁ ++ o :: h₃ := by
        rw [List.concat_eq_append, ← List.cons_append, ← List.append_assoc] at heq
        exact (List.append_inj' heq rfl).1
      exact ih hinit

end Run

end Kanari.Lib
