/-
Steps that may fail, in a row.

An attempt answers whether it succeeded and leaves a state in either case.  `sequence` makes one
attempt after the other and stops at the first that fails.  `Triple` describes an attempt by what
it finds, what it leaves when it succeeds and what it leaves when it fails.
-/
import Mathlib.Logic.Basic

namespace RustyRig.Lib

variable {σ : Type} {P Q R S T : σ → Prop} {f : σ → Bool × σ} {fs : List (σ → Bool × σ)}

abbrev Attempt (σ : Type) := σ → Bool × σ

namespace Attempt

/-- One attempt after the other, up to the first that fails. -/
def sequence : List (Attempt σ) → Attempt σ
  | [] => fun s => (true, s)
  | f :: rest => fun s =>
      match f s with
      | (true, s) => sequence rest s
      | (false, s) => (false, s)

theorem sequence_cons_cases (f : Attempt σ) (fs : List (Attempt σ)) (s : σ) :
    ((f s).1 = true ∧ sequence (f :: fs) s = sequence fs (f s).2) ∨
      ((f s).1 = false ∧ sequence (f :: fs) s = (false, (f s).2)) := by
  rw [sequence]
  dsimp only
  split
  · rename_i heq
    rw [heq]
    exact Or.inl ⟨rfl, rfl⟩
  · rename_i heq
    rw [heq]
    exact Or.inr ⟨rfl, rfl⟩

/-- From `P` a success leaves `Q`, a failure `R`. -/
structure Triple (P : σ → Prop) (f : Attempt σ) (Q R : σ → Prop) : Prop where
  success : ∀ s, P s → (f s).1 = true → Q (f s).2
  failure : ∀ s, P s → (f s).1 = false → R (f s).2

/-- A failure may be said to leave less. -/
theorem Triple.weaken (h : Triple P f Q R) (hR : ∀ s, R s → S s) : Triple P f Q S :=
  ⟨h.success, fun s hs hfailed => hR _ (h.failure s hs hfailed)⟩

/-- An attempt that keeps a predicate either way. -/
theorem triple_of_keeps (h : ∀ s, P s → P (f s).2) : Triple P f P P :=
  ⟨fun s hs _ => h s hs, fun s hs _ => h s hs⟩

theorem triple_nil : Triple P (sequence []) P R := by
  refine ⟨fun s hs _ => hs, fun s _ hfailed => ?_⟩
  change true = false at hfailed
  exact absurd hfailed.symm Bool.false_ne_true

theorem triple_cons (h : Triple P f S R) (hrest : Triple S (sequence fs) Q R) :
    Triple P (sequence (f :: fs)) Q R := by
  constructor
  · intro s hs hok
    rcases sequence_cons_cases f fs s with ⟨hf, heq⟩ | ⟨-, heq⟩
    · rw [heq] at hok ⊢
      exact hrest.success _ (h.success s hs hf) hok
    · rw [heq] at hok
      exact absurd hok Bool.false_ne_true
  · intro s hs hok
    rcases sequence_cons_cases f fs s with ⟨hf, heq⟩ | ⟨hf, heq⟩
    · rw [heq] at hok ⊢
      exact hrest.failure _ (h.success s hs hf) hok
    · rw [heq]
      exact h.failure s hs hf

/-- What every attempt of a row keeps when it succeeds. -/
theorem triple_sequence (h : ∀ f ∈ fs, Triple P f P R) : Triple P (sequence fs) P R := by
  induction fs with
  | nil => exact triple_nil
  | cons f rest ih =>
      have hrest : ∀ g ∈ rest, Triple P g P R := fun g hg => h g (List.mem_cons_of_mem f hg)
      exact triple_cons (h f List.mem_cons_self) (ih hrest)

end Attempt

end RustyRig.Lib
