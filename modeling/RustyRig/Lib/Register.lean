/-
Registers.

A list of items that are looked up by name, where an item may answer to several names.
`Apart` says that no two answer to one, so that a lookup finds the only candidate: it does
not depend on the order and survives deletions.  Items that are changed in their places
without gaining or losing a name are found as before.
-/
import Mathlib.Data.List.Forall2

namespace RustyRig.Lib

variable {α κ : Type*} {m : α → κ → Bool} {l l' : List α} {a b : α} {k : κ}

/-- No two items answer to one name. -/
def Apart (m : α → κ → Bool) (l : List α) : Prop :=
  l.Pairwise fun a b => ∀ k, m a k = true → m b k = false

/-- Changes the first item that passes. -/
def changeFirst (p : α → Bool) (f : α → α) : List α → List α
  | [] => []
  | a :: l => if p a then f a :: l else a :: changeFirst p f l

/-! ### Changes in place -/

theorem forall₂_changeFirst {R : α → α → Prop} {p : α → Bool} {f : α → α}
    (hrefl : ∀ a ∈ l, R a a) (hf : ∀ a ∈ l, p a = true → R a (f a)) :
    List.Forall₂ R l (changeFirst p f l) := by
  induction l with
  | nil => exact List.Forall₂.nil
  | cons a l ih =>
      unfold changeFirst
      by_cases hp : p a = true
      · rw [if_pos hp]
        refine .cons (hf a List.mem_cons_self hp) (List.forall₂_same.mpr fun x hx => ?_)
        exact hrefl x (List.mem_cons_of_mem _ hx)
      · rw [if_neg hp]
        exact .cons (hrefl a List.mem_cons_self)
          (ih (fun x hx => hrefl x (List.mem_cons_of_mem _ hx))
            fun x hx => hf x (List.mem_cons_of_mem _ hx))

/-- Everything in the changed list was changed from something. -/
theorem exists_of_mem_forall₂ {R : α → α → Prop} (h : List.Forall₂ R l l') (hb : b ∈ l') :
    ∃ a ∈ l, R a b := by
  induction h with
  | nil => exact absurd hb List.not_mem_nil
  | cons hr _ ih =>
      rcases List.mem_cons.mp hb with rfl | hb
      · exact ⟨_, List.mem_cons_self, hr⟩
      · obtain ⟨a, ha, hab⟩ := ih hb
        exact ⟨a, List.mem_cons_of_mem _ ha, hab⟩

/-- What related items have in common. -/
theorem map_eq_of_forall₂ {β : Type*} {R : α → α → Prop} {f : α → β} (h : List.Forall₂ R l l')
    (hf : ∀ a b, R a b → f b = f a) : l'.map f = l.map f := by
  induction h with
  | nil => rfl
  | cons hr _ ih => rw [List.map_cons, List.map_cons, hf _ _ hr, ih]

/-- What a change that keeps the names does to a lookup. -/
theorem find_forall₂ {R : α → α → Prop} (hm : ∀ a b, R a b → ∀ k, m b k = m a k)
    (h : List.Forall₂ R l l') (hf : l.find? (m · k) = some a) :
    ∃ b, l'.find? (m · k) = some b ∧ R a b := by
  induction h with
  | nil => exact absurd hf (by simp)
  | @cons x y _ _ hr _ ih =>
      rw [List.find?_cons] at hf
      rw [List.find?_cons, hm x y hr]
      cases hx : m x k with
      | true =>
          rw [hx] at hf
          obtain rfl := Option.some.inj hf
          exact ⟨y, rfl, hr⟩
      | false =>
          rw [hx] at hf
          exact ih hf

namespace Apart

theorem nil : Apart m [] := List.Pairwise.nil

/-- An item joins under names that nobody has. -/
theorem cons (h : Apart m l) (hnew : ∀ k, m a k = true → l.find? (m · k) = none) :
    Apart m (a :: l) := by
  refine List.pairwise_cons.mpr ⟨fun b hb k hk => ?_, h⟩
  exact Bool.eq_false_iff.mpr (List.find?_eq_none.mp (hnew k hk) b hb)

theorem sublist (h : Apart m l) (hs : l'.Sublist l) : Apart m l' := List.Pairwise.sublist hs h

/-- Whoever answers to a name is who is found under it. -/
theorem find_eq (h : Apart m l) (ha : a ∈ l) (hk : m a k = true) :
    l.find? (m · k) = some a := by
  induction l with
  | nil => exact absurd ha List.not_mem_nil
  | cons x l ih =>
      obtain ⟨hx, hl⟩ := List.pairwise_cons.mp h
      rw [List.find?_cons]
      rcases List.mem_cons.mp ha with rfl | ha
      · rw [hk]
      · cases hm : m x k with
        | true =>
            have habs := hx a ha k hm
            rw [hk] at habs
            exact absurd habs.symm Bool.false_ne_true
        | false => exact ih hl ha

/-- What a deletion leaves is found as before. -/
theorem find_of_sublist (h : Apart m l) (hs : l'.Sublist l) (hf : l'.find? (m · k) = some a) :
    l.find? (m · k) = some a := by
  have hk := List.find?_some hf
  exact h.find_eq (hs.subset (List.mem_of_find?_eq_some hf)) hk

/-- Items that change but keep their names stay apart. -/
theorem forall₂ {R : α → α → Prop} (h : Apart m l) (hm : ∀ a b, R a b → ∀ k, m b k = m a k)
    (hf : List.Forall₂ R l l') : Apart m l' := by
  induction hf with
  | nil => exact nil
  | @cons x y _ _ hr hrest ih =>
      obtain ⟨hx, hl⟩ := List.pairwise_cons.mp h
      refine List.pairwise_cons.mpr ⟨fun b hb k hk => ?_, ih hl⟩
      obtain ⟨a, ha, hab⟩ := exists_of_mem_forall₂ hrest hb
      rw [hm x y hr] at hk
      rw [hm a b hab]
      exact hx a ha k hk

end Apart

end RustyRig.Lib
