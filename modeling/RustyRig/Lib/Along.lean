/-
Runs under a discipline.

A system takes one step after another, and a discipline says which step is allowed in which
state.  What holds at the start and is kept by every allowed step holds after a run that was
allowed throughout, and at every point on its way.
-/
import Mathlib.Data.List.Basic

namespace RustyRig.Lib

variable {σ ε : Type*} {step : σ → ε → σ} {allowed : σ → ε → Prop} {s : σ} {es : List ε}

/-- Every step of the run was allowed in the state that it found. -/
def Along (step : σ → ε → σ) (allowed : σ → ε → Prop) : σ → List ε → Prop
  | _, [] => True
  | s, e :: es => allowed s e ∧ Along step allowed (step s e) es

namespace Along

/-- A run whose events are all of one kind is allowed to have only these. -/
theorem and_forall {p : ε → Prop} (h : Along step allowed s es) (hp : ∀ e ∈ es, p e) :
    Along step (fun s e => allowed s e ∧ p e) s es := by
  induction es generalizing s with
  | nil => exact trivial
  | cons e es ih =>
      exact ⟨⟨h.1, hp e List.mem_cons_self⟩, ih h.2 fun x hx => hp x (List.mem_cons_of_mem e hx)⟩

/-- What every allowed step keeps, an allowed run keeps. -/
theorem invariant {P : σ → Prop} (h : Along step allowed s es) (hs : P s)
    (hstep : ∀ s e, P s → allowed s e → P (step s e)) : P (es.foldl step s) := by
  induction es generalizing s with
  | nil => exact hs
  | cons e es ih => exact ih h.2 (hstep s e hs h.1)

/-- Every event was allowed where it came. -/
theorem allowed_at {pre post : List ε} {e : ε} (h : Along step allowed s (pre ++ e :: post)) :
    allowed (pre.foldl step s) e := by
  induction pre generalizing s with
  | nil => exact h.1
  | cons x pre ih => exact ih h.2

end Along

end RustyRig.Lib
