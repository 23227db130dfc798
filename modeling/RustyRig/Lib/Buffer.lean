/-
Buffers of fixed size.

A copy or a store that would read or write past the end of what it is given comes to nothing, so
whatever a computation comes to, it stayed within its buffers.
-/
import Mathlib.Data.List.Basic

namespace RustyRig.Lib.Buffer

variable {α : Type}

/-- `memcpy` and `memmove` of `count` elements of `source` behind `first` into `cells` behind `target`. -/
def copy (cells : List α) (target : Nat) (source : List α) (first count : Nat) : Option (List α) :=
  if target + count ≤ cells.length ∧ first + count ≤ source.length then
    some (cells.take target ++ (source.drop first).take count ++ cells.drop (target + count))
  else none

/-- A store to one cell. -/
def put (cells : List α) (target : Nat) (a : α) : Option (List α) := copy cells target [a] 0 1

/-- A copy within its buffers. -/
theorem copy_spec (cells source : List α) (target first count : Nat) (hcells : target + count ≤ cells.length)
    (hsource : first + count ≤ source.length) :
    ∃ cells', copy cells target source first count = some cells' ∧ cells'.length = cells.length ∧
      cells'.take (target + count) = cells.take target ++ (source.drop first).take count := by
  refine ⟨_, if_pos ⟨hcells, hsource⟩, ?_, List.take_left' ?_⟩
  · rw [List.length_append, List.length_append, List.length_take, List.length_take, List.length_drop, List.length_drop]
    omega
  · rw [List.length_append, List.length_take, List.length_take, List.length_drop]
    omega

/-- A copy to the front of its buffer. -/
theorem copy_front (cells source : List α) (first count : Nat) (hcells : count ≤ cells.length)
    (hsource : first + count ≤ source.length) :
    ∃ cells', copy cells 0 source first count = some cells' ∧ cells'.length = cells.length ∧
      cells'.take count = (source.drop first).take count := by
  obtain ⟨cells', hcopy, hlen, htake⟩ := copy_spec cells source 0 first count (by omega) hsource
  rw [Nat.zero_add, List.take_zero, List.nil_append] at htake
  exact ⟨cells', hcopy, hlen, htake⟩

/-- A whole source is copied. -/
theorem copy_all (cells source : List α) (target : Nat) (hcells : target + source.length ≤ cells.length) :
    ∃ cells', copy cells target source 0 source.length = some cells' ∧ cells'.length = cells.length ∧
      cells'.take (target + source.length) = cells.take target ++ source := by
  have hspec := copy_spec cells source target 0 source.length hcells (by omega)
  rwa [List.drop_zero, List.take_length] at hspec

/-- A store within its buffer. -/
theorem put_spec (cells : List α) (target : Nat) (a : α) (h : target < cells.length) :
    ∃ cells', put cells target a = some cells' ∧ cells'.length = cells.length ∧
      cells'.take (target + 1) = cells.take target ++ [a] :=
  copy_all cells [a] target h

end RustyRig.Lib.Buffer
