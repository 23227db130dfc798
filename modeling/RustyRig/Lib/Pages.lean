/-
Slots that are filled page by page.

Of a row of slots the pages before `p` are full, those after it are empty, and page `p` is
being filled in any order.  The number of filled slots then tells when the page is full.
-/
import Mathlib.Data.List.Basic

namespace RustyRig.Lib

variable {α : Type*} {k p i n : Nat} {slots : List (Option α)} {a : α}

def filled (slots : List (Option α)) : Nat := slots.countP Option.isSome

/-- Something is in slot `i`. -/
def Has (slots : List (Option α)) (i : Nat) : Prop := ∃ a, slots[i]? = some (some a)

/-- Page `p` of `k` slots is being filled. -/
structure Paged (k p : Nat) (slots : List (Option α)) : Prop where
  within : k * p < slots.length
  below : ∀ i, i < k * p → Has slots i
  above : ∀ i, Has slots i → i < k * (p + 1)

theorem Has.lt (h : Has slots i) : i < slots.length := by
  obtain ⟨a, ha⟩ := h
  by_contra hi
  rw [List.getElem?_eq_none (Nat.not_lt.mp hi)] at ha
  exact absurd ha (by simp)

theorem has_set (hi : i < slots.length) {j : Nat} :
    Has (slots.set i (some a)) j ↔ j = i ∨ Has slots j := by
  unfold Has
  rw [List.getElem?_set]
  by_cases hj : i = j
  · subst hj
    simp [hi]
  · simp [hj, Ne.symm hj]

theorem filled_set (h : slots[i]? = some none) :
    filled (slots.set i (some a)) = filled slots + 1 := by
  obtain ⟨hi, hnone⟩ := List.getElem?_eq_some_iff.mp h
  unfold filled
  rw [List.countP_set hi, hnone]
  simp

theorem filled_split (n : Nat) (slots : List (Option α)) :
    filled slots = filled (slots.take n) + filled (slots.drop n) := by
  unfold filled
  rw [← List.countP_append, List.take_append_drop]

theorem filled_le_length (slots : List (Option α)) : filled slots ≤ slots.length :=
  List.countP_le_length

/-- All slots of a row are filled if as many are as there are. -/
theorem filled_eq_length : filled slots = slots.length ↔ ∀ i, i < slots.length → Has slots i := by
  unfold filled
  rw [List.countP_eq_length]
  constructor
  · intro h i hi
    obtain ⟨a, ha⟩ := Option.isSome_iff_exists.mp (h _ (List.getElem_mem hi))
    exact ⟨a, by rw [List.getElem?_eq_getElem hi, ha]⟩
  · intro h x hx
    obtain ⟨i, hi, rfl⟩ := List.mem_iff_getElem.mp hx
    obtain ⟨a, ha⟩ := h i hi
    rw [List.getElem?_eq_getElem hi] at ha
    simp [Option.some.inj ha]

theorem filled_eq_zero (h : ∀ i, ¬ Has slots i) : filled slots = 0 := by
  unfold filled
  rw [List.countP_eq_zero]
  intro x hx hsome
  obtain ⟨i, hi, rfl⟩ := List.mem_iff_getElem.mp hx
  obtain ⟨a, ha⟩ := Option.isSome_iff_exists.mp hsome
  exact h i ⟨a, by rw [List.getElem?_eq_getElem hi, ha]⟩

theorem has_take (hi : i < n) : Has (slots.take n) i ↔ Has slots i := by
  unfold Has
  rw [List.getElem?_take_of_lt hi]

theorem has_drop : Has (slots.drop n) i ↔ Has slots (n + i) := by
  unfold Has
  rw [List.getElem?_drop]

/-- The first `n` slots are filled. -/
theorem filled_take (hn : n ≤ slots.length) (h : ∀ i, i < n → Has slots i) :
    filled (slots.take n) = n := by
  have hlen : (slots.take n).length = n := by
    rw [List.length_take, Nat.min_eq_left hn]
  have hall : filled (slots.take n) = (slots.take n).length := by
    rw [filled_eq_length]
    intro i hi
    rw [hlen] at hi
    exact (has_take hi).mpr (h i hi)
  rw [hall, hlen]

/-- The slots are filled from the front. -/
theorem filled_of_has_iff (hn : n ≤ slots.length) (h : ∀ i, Has slots i ↔ i < n) : filled slots = n := by
  have hrest : filled (slots.drop n) = 0 := by
    refine filled_eq_zero fun i hi => ?_
    have hlt := (h _).mp (has_drop.mp hi)
    omega
  rw [filled_split n, filled_take hn fun i hi => (h i).mpr hi, hrest, Nat.add_zero]

namespace Paged

/-- Page 0 of an empty row. -/
theorem start (hn : 0 < n) : Paged k 0 (List.replicate n (none : Option α)) where
  within := by simpa using hn
  below := fun i hi => absurd hi (by simp)
  above := fun i hi => by
    obtain ⟨a, ha⟩ := hi
    have hmem := List.mem_of_getElem? ha
    exact absurd (List.eq_of_mem_replicate hmem) (by simp)

theorem set (h : Paged k p slots) (hi : i < k * (p + 1)) (hlen : i < slots.length) :
    Paged k p (slots.set i (some a)) where
  within := by simpa using h.within
  below := fun j hj => (has_set hlen).mpr (Or.inr (h.below j hj))
  above := fun j hj => by
    rcases (has_set hlen).mp hj with rfl | hj
    · exact hi
    · exact h.above j hj

theorem le_filled (h : Paged k p slots) : k * p ≤ filled slots := by
  rw [filled_split (k * p), filled_take (Nat.le_of_lt h.within) h.below]
  exact Nat.le_add_right _ _

theorem drop_empty (h : Paged k p slots) : filled (slots.drop (k * (p + 1))) = 0 := by
  refine filled_eq_zero fun i hi => ?_
  have hlt := h.above _ (has_drop.mp hi)
  omega

theorem filled_le (h : Paged k p slots) : filled slots ≤ k * (p + 1) := by
  have hlen := filled_le_length (slots.take (k * (p + 1)))
  rw [filled_split (k * (p + 1)), h.drop_empty]
  rw [List.length_take] at hlen
  omega

/-- A full page gives way to the next. -/
theorem next (h : Paged k p slots) (hfull : filled slots = k * (p + 1))
    (hmore : filled slots < slots.length) : Paged k (p + 1) slots := by
  have hlen : (slots.take (k * (p + 1))).length = k * (p + 1) := by
    rw [List.length_take]
    omega
  have htake : filled (slots.take (k * (p + 1))) = (slots.take (k * (p + 1))).length := by
    have hsplit := filled_split (k * (p + 1)) slots
    rw [h.drop_empty, Nat.add_zero] at hsplit
    rw [hlen, ← hsplit, hfull]
  refine ⟨hfull ▸ hmore, fun i hi => ?_, fun i hi => ?_⟩
  · exact (has_take hi).mp (filled_eq_length.mp htake i (by rw [hlen]; exact hi))
  · exact Nat.lt_of_lt_of_le (h.above i hi) (Nat.mul_le_mul_left k (Nat.le_succ _))

/-- A page that lacks nothing is full. -/
theorem full (h : Paged k p slots)
    (hall : ∀ i, k * p ≤ i → i < k * (p + 1) → i < slots.length → Has slots i) :
    filled slots = min (k * (p + 1)) slots.length := by
  have hbelow : ∀ i, i < k * (p + 1) → i < slots.length → Has slots i := by
    intro i hi hlen
    by_cases hlow : i < k * p
    · exact h.below i hlow
    · exact hall i (Nat.not_lt.mp hlow) hi hlen
  rw [filled_split (min (k * (p + 1)) slots.length),
    filled_take (Nat.min_le_right _ _) fun i hi => hbelow i (by omega) (by omega)]
  have hrest : filled (slots.drop (min (k * (p + 1)) slots.length)) = 0 := by
    refine filled_eq_zero fun i hi => ?_
    have hlow := h.above _ (has_drop.mp hi)
    have hlen := (has_drop.mp hi).lt
    omega
  rw [hrest, Nat.add_zero]

end Paged

end RustyRig.Lib
