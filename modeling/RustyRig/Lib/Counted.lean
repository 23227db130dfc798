/-
Lists with a counter.

A linked list and the counter that goes with it.  New items are linked in at the head; a walk
over the list looks at every item once, changes it where it stands or unlinks it, and counts
down with each item that it unlinks.  `Sound` says that the counter is the length and that the
list is within its bound.
-/
import Mathlib.Data.List.Count

namespace RustyRig.Lib

variable {α σ : Type*}

/-- A list and its counter. -/
structure Counted (α : Type*) where
  entries : List α
  count : Nat
deriving DecidableEq, Repr

namespace Counted

/-- The list with nothing in it. -/
def empty : Counted α := ⟨[], 0⟩

/-- Links an item in. -/
def push (t : Counted α) (a : α) : Counted α := ⟨a :: t.entries, t.count + 1⟩

/-- Visits every item.  One for which `visit` answers with nothing is unlinked, and `drop` does
what is to be done about it. -/
def walk (visit : α → Option α) (drop : α → σ → σ) : List α → Nat → σ → Counted α × σ
  | [], n, st => (⟨[], n⟩, st)
  | a :: l, n, st =>
      match visit a with
      | some b =>
          let (t, st) := walk visit drop l n st
          (⟨b :: t.entries, t.count⟩, st)
      | none => walk visit drop l (n - 1) (drop a st)

/-- Unlinks every item that passes. -/
def purge (p : α → Bool) (t : Counted α) : Counted α :=
  (walk (fun a => if p a then none else some a) (fun _ st => st) t.entries t.count ()).1

/-- Unlinks the first item that passes. -/
def unlink (p : α → Bool) (t : Counted α) : Counted α :=
  if t.entries.any p then ⟨t.entries.eraseP p, t.count - 1⟩ else t

/-- The counter is right, and the list is within its bound. -/
structure Sound (bound : Nat) (t : Counted α) : Prop where
  counted : t.count = t.entries.length
  bounded : t.count ≤ bound

variable {visit : α → Option α} {drop : α → σ → σ} {p : α → Bool} {t : Counted α} {bound n : Nat}
  {l : List α} {st : σ} {a : α}

theorem walk_eq : walk visit drop l n st =
    (⟨l.filterMap visit, n - l.countP (visit · |>.isNone)⟩,
      (l.filter (visit · |>.isNone)).foldl (fun st a => drop a st) st) := by
  induction l generalizing n st with
  | nil => rfl
  | cons a l ih =>
      unfold walk
      cases ha : visit a with
      | some b => simp only [ih, List.filterMap_cons, List.countP_cons, List.filter_cons, ha]; simp
      | none =>
          simp only [ih, List.filterMap_cons, List.countP_cons, List.filter_cons, ha,
            Option.isNone_none, if_true, List.foldl_cons]
          rw [Nat.sub_sub, Nat.add_comm]

@[simp]
theorem entries_purge (p : α → Bool) (t : Counted α) :
    (t.purge p).entries = t.entries.filter fun a => !p a := by
  have hguard : (fun a => if p a then none else some a) = Option.guard fun a => !p a := by
    funext a
    cases ha : p a <;> simp [Option.guard, ha]
  unfold purge
  rw [walk_eq, hguard]
  exact congrFun List.filterMap_eq_filter t.entries

/-- What a walk leaves and what it unlinks make up the list. -/
theorem length_filterMap_add_countP (visit : α → Option α) (l : List α) :
    (l.filterMap visit).length + l.countP (visit · |>.isNone) = l.length := by
  induction l with
  | nil => rfl
  | cons a l ih =>
      rw [List.filterMap_cons, List.countP_cons, List.length_cons, ← ih]
      cases visit a with
      | none => rfl
      | some b => exact Nat.add_right_comm _ _ _

namespace Sound

theorem empty : Sound bound (empty : Counted α) := ⟨rfl, Nat.zero_le _⟩

theorem push (h : Sound bound t) (hroom : t.count ≠ bound) (a : α) : Sound bound (t.push a) where
  counted := congrArg (· + 1) h.counted
  bounded := Nat.lt_of_le_of_ne h.bounded hroom

/-- A walk keeps the counter right. -/
theorem walk (h : Sound bound t) (visit : α → Option α) (drop : α → σ → σ) (st : σ) :
    Sound bound (walk visit drop t.entries t.count st).1 := by
  have hlen := length_filterMap_add_countP visit t.entries
  rw [walk_eq]
  refine ⟨?_, Nat.le_trans (Nat.sub_le _ _) h.bounded⟩
  show t.count - _ = (t.entries.filterMap visit).length
  rw [h.counted, ← hlen, Nat.add_sub_cancel]

theorem purge (h : Sound bound t) (p : α → Bool) : Sound bound (t.purge p) := h.walk _ _ ()

theorem unlink (h : Sound bound t) (p : α → Bool) : Sound bound (t.unlink p) := by
  unfold Counted.unlink
  split
  · rename_i hany
    obtain ⟨a, ha, hp⟩ := List.any_eq_true.mp hany
    have hlen := List.length_eraseP_of_mem ha hp
    have hcounted := h.counted
    have hbounded := h.bounded
    constructor
    · show t.count - 1 = (t.entries.eraseP p).length
      omega
    · show t.count - 1 ≤ bound
      omega
  · exact h

/-- Items that are changed in their places. -/
theorem changed (h : Sound bound t) (hlen : l.length = t.entries.length) :
    Sound bound ⟨l, t.count⟩ := ⟨h.counted.trans hlen.symm, h.bounded⟩

end Sound

end Counted

end RustyRig.Lib
