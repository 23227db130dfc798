/-
Version stamps.

A table's slots are stamped from one clock: a slot that changes takes the next tick.
Whoever remembers the clock finds later what changed since, provided that no two slots
carry one stamp, that none is ahead of the clock and that the clock never runs ahead of
them.  `Stamped` says so.
-/
import Mathlib.Data.List.Basic

namespace RustyRig.Lib

/-- The stamps of a table's slots, under its clock.  Zero is a slot never stamped. -/
structure Stamped (clock : Nat) (stamps : List Nat) : Prop where
  /-- No stamp is ahead of the clock. -/
  le : ∀ x ∈ stamps, x ≤ clock
  /-- The clock stands at a stamp it gave out. -/
  attained : clock = 0 ∨ clock ∈ stamps
  /-- No two slots were stamped with one tick. -/
  distinct : stamps.Pairwise fun a b => a = b → a = 0

namespace Stamped

variable {clock x : Nat} {stamps pre post : List Nat}

theorem nil : Stamped 0 [] := ⟨by simp, .inl rfl, .nil⟩

/-- A slot that is new has no stamp. -/
theorem snoc (h : Stamped clock stamps) : Stamped clock (stamps ++ [0]) where
  le := by
    intro x hx
    rcases List.mem_append.mp hx with hx | hx
    · exact h.le x hx
    · rw [List.mem_singleton.mp hx]
      exact Nat.zero_le _
  attained := h.attained.imp_right (List.mem_append_left _)
  distinct := by
    rw [List.pairwise_append]
    refine ⟨h.distinct, List.pairwise_singleton _ _, fun a _ b hb heq => ?_⟩
    rw [heq, List.mem_singleton.mp hb]

/-- The slot that changes takes the next tick. -/
theorem tick (h : Stamped clock (pre ++ x :: post)) :
    Stamped (clock + 1) (pre ++ (clock + 1) :: post) where
  le := by
    intro y hy
    have hle : y = clock + 1 ∨ y ∈ pre ++ x :: post := by
      simp only [List.mem_append, List.mem_cons] at hy ⊢
      tauto
    rcases hle with rfl | hmem
    · exact Nat.le_refl _
    · exact Nat.le_succ_of_le (h.le y hmem)
  attained := .inr (by simp)
  distinct := by
    have hbelow : ∀ y ∈ pre ++ post, y ≠ clock + 1 := by
      intro y hy
      have hmem : y ∈ pre ++ x :: post := by
        simp only [List.mem_append, List.mem_cons] at hy ⊢
        tauto
      have := h.le y hmem
      omega
    obtain ⟨hpre, hpost, hcross⟩ := List.pairwise_append.mp h.distinct
    refine List.pairwise_append.mpr ⟨hpre, ?_, fun a ha b hb heq => ?_⟩
    · refine List.pairwise_cons.mpr ⟨fun b hb heq => ?_, (List.pairwise_cons.mp hpost).2⟩
      exact absurd heq.symm (hbelow b (List.mem_append_right _ hb))
    · rcases List.mem_cons.mp hb with rfl | hb
      · exact absurd heq (hbelow a (List.mem_append_left _ ha))
      · exact hcross a ha b (List.mem_cons_of_mem _ hb) heq

/-- The clock is the latest of the stamps. -/
theorem foldr_max (h : Stamped clock stamps) : stamps.foldr max 0 = clock := by
  have hle : stamps.foldr max 0 ≤ clock := by
    have hall := h.le
    clear h
    induction stamps with
    | nil => exact Nat.zero_le _
    | cons y ys ih =>
        exact Nat.max_le.mpr ⟨hall y (by simp), ih fun z hz => hall z (List.mem_cons_of_mem _ hz)⟩
  refine Nat.le_antisymm hle ?_
  rcases h.attained with hzero | hmem
  · omega
  · clear h hle
    induction stamps with
    | nil => exact absurd hmem List.not_mem_nil
    | cons y ys ih =>
        rcases List.mem_cons.mp hmem with heq | hmem
        · rw [heq]
          exact Nat.le_max_left _ _
        · exact Nat.le_trans (ih hmem) (Nat.le_max_right _ _)

end Stamped

end RustyRig.Lib
