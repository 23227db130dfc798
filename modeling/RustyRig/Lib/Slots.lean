/-
Numbered slots.

Of the numbers below a bound some are in use, and the first free one from some number on is
looked for.  Fewer numbers in use than there are leave one free; as many of them, all different
and below the bound, leave none.
-/
import Mathlib.Data.Finset.Card
import Mathlib.Order.Interval.Finset.Nat

namespace RustyRig.Lib

variable {bound start j : Nat} {used l : List Nat}

/-- The first number that is not in use, or the bound. -/
def firstFree (bound start : Nat) (used : List Nat) : Nat :=
  ((List.range' start (bound - start)).find? fun i => !used.contains i).getD bound

theorem firstFree_cases (bound start : Nat) (used : List Nat) :
    (firstFree bound start used < bound ∧ firstFree bound start used ∉ used ∧
        ∀ j, start ≤ j → j < firstFree bound start used → j ∈ used) ∨
      (firstFree bound start used = bound ∧ ∀ j, start ≤ j → j < bound → j ∈ used) := by
  cases hfind : (List.range' start (bound - start)).find? fun i => !used.contains i with
  | none =>
      refine Or.inr ⟨by rw [firstFree, hfind, Option.getD_none], fun j hstart hj => ?_⟩
      have hin := List.find?_eq_none.mp hfind j (List.mem_range'_1.mpr ⟨hstart, by omega⟩)
      simpa using hin
  | some i =>
      obtain ⟨hfree, hmem, hbefore⟩ := List.find?_range'_eq_some.mp hfind
      obtain ⟨hstart, hlt⟩ := List.mem_range'_1.mp hmem
      have hi : firstFree bound start used = i := by rw [firstFree, hfind, Option.getD_some]
      rw [hi]
      refine Or.inl ⟨by omega, by simpa using hfree, fun j hj hji => ?_⟩
      simpa using hbefore j hj hji

/-- Numbers that are all on a list are no more than its length. -/
theorem sub_le_length (h : ∀ j, start ≤ j → j < bound → j ∈ l) : bound - start ≤ l.length := by
  have hsubset : Finset.Ico start bound ⊆ l.toFinset := by
    intro j hj
    obtain ⟨hstart, hlt⟩ := Finset.mem_Ico.mp hj
    exact List.mem_toFinset.mpr (h j hstart hlt)
  have hcard := Finset.card_le_card hsubset
  rw [Nat.card_Ico] at hcard
  exact hcard.trans (List.toFinset_card_le l)

/-- Distinct numbers below a bound are all of them, if there are that many. -/
theorem mem_of_length (hnodup : l.Nodup) (hlt : ∀ i ∈ l, i < bound) (hlength : l.length = bound)
    (hj : j < bound) : j ∈ l := by
  have hsubset : l.toFinset ⊆ Finset.range bound := by
    intro i hi
    exact Finset.mem_range.mpr (hlt i (List.mem_toFinset.mp hi))
  have hcard : (Finset.range bound).card ≤ l.toFinset.card := by
    rw [Finset.card_range, List.toFinset_card_of_nodup hnodup, hlength]
  have heq := Finset.eq_of_subset_of_card_le hsubset hcard
  rw [← List.mem_toFinset, heq, Finset.mem_range]
  exact hj

/-- Too few numbers in use to fill every slot. -/
theorem firstFree_lt (h : used.length < bound) : firstFree bound 0 used < bound := by
  rcases firstFree_cases bound 0 used with ⟨hlt, -⟩ | ⟨-, hall⟩
  · exact hlt
  · have hle := sub_le_length hall
    omega

end RustyRig.Lib
