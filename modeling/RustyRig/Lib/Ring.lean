/-
A ring of cells as a queue.

The cells are an array of fixed size, and the queue is so many of them from a head on, around the
end of the array.  Taking from the front moves the head; adding at the back copies in two pieces,
up to the end of the array and then from its beginning.  Read in order, the one drops from a list
and the other appends to it.
-/
import Mathlib.Data.List.Basic
import Mathlib.Tactic.SplitIfs

namespace RustyRig.Lib

namespace Ring

variable {α : Type} {cap head count pos k i j : Nat} {cells : Nat → α} {l : List α}

/-- The queue, from its front. -/
def contents (cap : Nat) (cells : Nat → α) (head count : Nat) : List α :=
  (List.range count).map fun i => cells ((head + i) % cap)

/-- Copies a list into the cells from a position on. -/
def blit (cells : Nat → α) (pos : Nat) (l : List α) (i : Nat) : α :=
  if pos ≤ i then (l[i - pos]?).getD (cells i) else cells i

/-- Copies a list behind a position, around the end of the array. -/
def store (cap : Nat) (cells : Nat → α) (tail : Nat) (l : List α) : Nat → α :=
  let first := min l.length (cap - tail)
  let cells := blit cells tail (l.take first)
  if first < l.length then blit cells 0 (l.drop first) else cells

theorem length_contents (cap : Nat) (cells : Nat → α) (head count : Nat) :
    (contents cap cells head count).length = count := by
  rw [contents, List.length_map, List.length_range]

theorem getElem?_contents (hi : i < count) :
    (contents cap cells head count)[i]? = some (cells ((head + i) % cap)) := by
  rw [contents, List.getElem?_map, List.getElem?_range hi]
  rfl

/-- Around the end at most once. -/
theorem mod_eq (h : i < 2 * cap) : i % cap = if i < cap then i else i - cap := by
  split
  · rename_i hlt
    exact Nat.mod_eq_of_lt hlt
  · rename_i hge
    rw [Nat.mod_eq_sub_mod (by omega), Nat.mod_eq_of_lt (by omega)]

/-- Moving the head takes from the front. -/
theorem contents_drop (hk : k ≤ count) :
    contents cap cells ((head + k) % cap) (count - k) = (contents cap cells head count).drop k := by
  refine List.ext_getElem? fun i => ?_
  rw [List.getElem?_drop]
  by_cases hi : i < count - k
  · rw [getElem?_contents hi, getElem?_contents (by omega), Nat.mod_add_mod, Nat.add_assoc]
  · rw [List.getElem?_eq_none (by rw [length_contents]; omega),
      List.getElem?_eq_none (by rw [length_contents]; omega)]

theorem blit_of_lt (h : i < pos) : blit cells pos l i = cells i := if_neg (by omega)

theorem blit_of_ge (h : pos + l.length ≤ i) : blit cells pos l i = cells i := by
  rw [blit, List.getElem?_eq_none (by omega), Option.getD_none, ite_self]

theorem blit_add (hi : i < l.length) : blit cells pos l (pos + i) = l[i] := by
  rw [blit, if_pos (Nat.le_add_right pos i), Nat.add_sub_cancel_left, List.getElem?_eq_getElem hi, Option.getD_some]

/-- A copied element is found around the end. -/
theorem store_of_lt {tail : Nat} (htail : tail < cap) (hlength : l.length ≤ cap) (hi : i < l.length) :
    store cap cells tail l ((tail + i) % cap) = l[i] := by
  have hfirst : (l.take (min l.length (cap - tail))).length = min l.length (cap - tail) := by
    rw [List.length_take, Nat.min_eq_left (Nat.min_le_left _ _)]
  unfold store
  rw [mod_eq (by omega)]
  by_cases hwrap : tail + i < cap
  · -- in the first piece, below which the second ends
    have hpiece : i < (l.take (min l.length (cap - tail))).length := by
      rw [hfirst]
      omega
    have hcopied : blit cells tail (l.take (min l.length (cap - tail))) (tail + i) = l[i] := by
      rw [blit_add hpiece, List.getElem_take]
    rw [if_pos hwrap]
    split
    · rw [blit_of_ge (by rw [List.length_drop]; omega)]
      exact hcopied
    · exact hcopied
  · rw [if_neg hwrap, if_pos (by omega)]
    have hpiece : tail + i - cap < (l.drop (min l.length (cap - tail))).length := by
      rw [List.length_drop]
      omega
    have hcopied : ∀ cells : Nat → α, blit cells 0 (l.drop (min l.length (cap - tail))) (tail + i - cap) =
        (l.drop (min l.length (cap - tail)))[tail + i - cap] := by
      intro cells
      have hadd : blit cells 0 _ (0 + (tail + i - cap)) = _ := blit_add hpiece
      rw [Nat.zero_add] at hadd
      exact hadd
    rw [hcopied, List.getElem_drop]
    congr 1
    omega

/-- What is not copied over stays. -/
theorem store_of_ge {tail : Nat} (htail : tail < cap) (hi : l.length ≤ i) (hcap : i < cap) :
    store cap cells tail l ((tail + i) % cap) = cells ((tail + i) % cap) := by
  have hfirst : (l.take (min l.length (cap - tail))).length = min l.length (cap - tail) := by
    rw [List.length_take, Nat.min_eq_left (Nat.min_le_left _ _)]
  unfold store
  rw [mod_eq (by omega)]
  by_cases hwrap : tail + i < cap
  · have hkept : blit cells tail (l.take (min l.length (cap - tail))) (tail + i) = cells (tail + i) :=
      blit_of_ge (by rw [hfirst]; omega)
    rw [if_pos hwrap, if_neg (by omega)]
    exact hkept
  · have hkept : blit cells tail (l.take (min l.length (cap - tail))) (tail + i - cap) = cells (tail + i - cap) :=
      blit_of_lt (by omega)
    rw [if_neg hwrap]
    split
    · rw [blit_of_ge (by rw [List.length_drop]; omega)]
      exact hkept
    · exact hkept

/-- Copying behind the queue appends to it. -/
theorem contents_store (hhead : head < cap) (hroom : count + l.length ≤ cap) :
    contents cap (store cap cells ((head + count) % cap) l) head (count + l.length) =
      contents cap cells head count ++ l := by
  have hpos : 0 < cap := by omega
  have htail : (head + count) % cap < cap := Nat.mod_lt _ hpos
  refine List.ext_getElem? fun i => ?_
  by_cases hi : i < count
  · rw [getElem?_contents (by omega), List.getElem?_append_left (by rw [length_contents]; exact hi),
      getElem?_contents hi]
    -- so far before the tail is as far behind it, around the end
    have hplace : (head + i) % cap = ((head + count) % cap + (cap - count + i)) % cap := by
      rw [Nat.mod_add_mod]
      have hsum : head + count + (cap - count + i) = head + i + cap := by omega
      rw [hsum, Nat.add_mod_right]
    rw [hplace, store_of_ge htail (by omega) (by omega)]
  · rw [List.getElem?_append_right (by rw [length_contents]; omega), length_contents]
    by_cases hend : i < count + l.length
    · rw [getElem?_contents hend, List.getElem?_eq_getElem (by omega)]
      have hplace : (head + i) % cap = ((head + count) % cap + (i - count)) % cap := by
        rw [Nat.mod_add_mod]
        have hsum : head + count + (i - count) = head + i := by omega
        rw [hsum]
      rw [hplace, store_of_lt htail (by omega) (by omega)]
    · rw [List.getElem?_eq_none (by rw [length_contents]; omega), List.getElem?_eq_none (by omega)]

end Ring

end RustyRig.Lib
