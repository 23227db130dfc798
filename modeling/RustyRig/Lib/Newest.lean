/-
The newest part of a stream.

`newest n l` is what a window of `n` elements shows at the end of a stream.  It does not matter what
a window that was full enough has lost before more came (`newest_newest`), so the window can be kept
as the stream goes on.
-/
import Mathlib.Data.List.Basic

namespace RustyRig.Lib

/-- The last elements, at most `n` of them. -/
def newest {α : Type} (n : Nat) (l : List α) : List α := l.drop (l.length - n)

namespace Newest

variable {α : Type} {n m : Nat} {a b l : List α}

theorem length_newest (n : Nat) (l : List α) : (newest n l).length = min n l.length := by
  unfold newest
  rw [List.length_drop]
  omega

theorem newest_of_le (h : l.length ≤ n) : newest n l = l := by
  unfold newest
  rw [Nat.sub_eq_zero_of_le h, List.drop_zero]

/-- What comes last fills the window. -/
theorem newest_append_of_le (h : n ≤ b.length) : newest n (a ++ b) = newest n b := by
  unfold newest
  rw [List.length_append, List.drop_append, List.drop_eq_nil_of_le (by omega), List.nil_append]
  congr 1
  omega

/-- What comes last leaves room in the window. -/
theorem newest_append (h : b.length ≤ n) : newest n (a ++ b) = newest (n - b.length) a ++ b := by
  unfold newest
  rw [List.length_append, List.drop_append_of_le_length (by omega)]
  congr 2
  omega

/-- A window may be taken of a window. -/
theorem newest_newest (n : Nat) (a b : List α) : newest n (newest n a ++ b) = newest n (a ++ b) := by
  by_cases h : n ≤ b.length
  · rw [newest_append_of_le h, newest_append_of_le h]
  · have hle : b.length ≤ n := Nat.le_of_not_le h
    rw [newest_append hle, newest_append hle]
    congr 1
    unfold newest
    rw [List.drop_drop, List.length_drop]
    congr 1
    omega

/-- Of a stream of whole samples, a window of whole samples starts at one. -/
theorem dvd_lost {k : Nat} (hn : k ∣ n) (hl : k ∣ l.length) : k ∣ l.length - n :=
  Nat.dvd_sub hl hn

end Newest

end RustyRig.Lib
