/-
Relations without a directed cycle.

One step more keeps a relation acyclic exactly when the step does not lead back: nothing the end
of the step reaches is its beginning.
-/
import Mathlib.Logic.Relation

namespace RustyRig.Lib

open Relation

variable {α : Type*} {r : α → α → Prop} {a b x y : α}

def Acyclic (r : α → α → Prop) : Prop := ∀ v, ¬ TransGen r v v

/-- The relation with one step more. -/
def withStep (r : α → α → Prop) (a b : α) (x y : α) : Prop := r x y ∨ (x = a ∧ y = b)

theorem reflTransGen_withStep (h : ReflTransGen r x y) : ReflTransGen (withStep r a b) x y :=
  ReflTransGen.mono (fun _ _ => Or.inl) _ _ h

/-- A path through the new step uses it once, unless the step leads back. -/
theorem transGen_withStep (hback : ¬ ReflTransGen r b a) (h : TransGen (withStep r a b) x y) :
    TransGen r x y ∨ (ReflTransGen r x a ∧ ReflTransGen r b y) := by
  induction h with
  | single hstep =>
      rcases hstep with hstep | ⟨rfl, rfl⟩
      · exact Or.inl (.single hstep)
      · exact Or.inr ⟨.refl, .refl⟩
  | tail _ hstep ih =>
      rcases hstep with hstep | ⟨rfl, rfl⟩
      · rcases ih with hpath | ⟨hbefore, hafter⟩
        · exact Or.inl (hpath.tail hstep)
        · exact Or.inr ⟨hbefore, hafter.tail hstep⟩
      · rcases ih with hpath | ⟨-, hafter⟩
        · exact Or.inr ⟨hpath.to_reflTransGen, .refl⟩
        · exact absurd hafter hback

theorem acyclic_withStep_iff (h : Acyclic r) : Acyclic (withStep r a b) ↔ ¬ ReflTransGen r b a := by
  constructor
  · intro hacyclic hback
    have hfirst : TransGen (withStep r a b) a b := .single (Or.inr ⟨rfl, rfl⟩)
    exact hacyclic a (hfirst.trans_left (reflTransGen_withStep hback))
  · intro hback v hcycle
    rcases transGen_withStep hback hcycle with hpath | ⟨hbefore, hafter⟩
    · exact h v hpath
    · exact hback (hafter.trans hbefore)

theorem acyclic_congr {r' : α → α → Prop} (h : ∀ x y, r x y ↔ r' x y) : Acyclic r ↔ Acyclic r' := by
  have heq : r = r' := by
    funext x y
    exact propext (h x y)
  rw [heq]

end RustyRig.Lib
