/-
Patterns with a star.

A pattern is a list of symbols, each of them a star or a test for one element; a star stands for any
list.  A matcher that goes from left to right needs to come back to the last star only: whatever a star
before it could have taken more, the last one can take as well (`last_star`).
-/
import Mathlib.Data.List.Forall2

namespace RustyRig.Lib

/-- A list matches a pattern; `none` is the star. -/
inductive Glob {α : Type} : List (Option (α → Bool)) → List α → Prop
  | nil : Glob [] []
  | one {f : α → Bool} {a : α} {ps : List (Option (α → Bool))} {l : List α} (h : f a = true) (hrest : Glob ps l) :
      Glob (some f :: ps) (a :: l)
  | skip {ps : List (Option (α → Bool))} {l : List α} (hrest : Glob ps l) : Glob (none :: ps) l
  | take {a : α} {ps : List (Option (α → Bool))} {l : List α} (hrest : Glob (none :: ps) l) : Glob (none :: ps) (a :: l)

namespace Glob

variable {α : Type} {f : α → Bool} {a : α} {ps qs : List (Option (α → Bool))} {l u n : List α} {v : List (α → Bool)}

/-- Elements that pass tests, one each. -/
abbrev Fits (v : List (α → Bool)) (u : List α) : Prop := List.Forall₂ (fun f a => f a = true) v u

theorem one_iff : Glob (some f :: ps) (a :: l) ↔ f a = true ∧ Glob ps l := by
  constructor
  · intro h
    cases h with
    | one hf hrest => exact ⟨hf, hrest⟩
  · exact fun h => one h.1 h.2

/-- A star takes nothing or the first element. -/
theorem star_cons : Glob (none :: ps) (a :: l) ↔ Glob ps (a :: l) ∨ Glob (none :: ps) l := by
  constructor
  · intro h
    cases h with
    | skip hrest => exact Or.inl hrest
    | take hrest => exact Or.inr hrest
  · rintro (h | h)
    · exact skip h
    · exact take h

/-- Nothing but stars matches nothing. -/
theorem nil_iff : Glob ps ([] : List α) ↔ ∀ x ∈ ps, x = none := by
  induction ps with
  | nil => exact iff_of_true nil fun x hx => absurd hx List.not_mem_nil
  | cons x ps ih =>
      rw [List.forall_mem_cons, ← ih]
      constructor
      · intro h
        cases h with
        | skip hrest => exact ⟨rfl, hrest⟩
      · rintro ⟨rfl, hrest⟩
        exact skip hrest

/-- A star takes a part off the front. -/
theorem star_iff : Glob (none :: ps) l ↔ ∃ k, Glob ps (l.drop k) := by
  induction l with
  | nil =>
      constructor
      · intro h
        cases h with
        | skip hrest => exact ⟨0, hrest⟩
      · rintro ⟨k, h⟩
        rw [List.drop_nil] at h
        exact skip h
  | cons a l ih =>
      rw [star_cons, ih]
      constructor
      · rintro (h | ⟨k, h⟩)
        · exact ⟨0, h⟩
        · exact ⟨k + 1, h⟩
      · rintro ⟨k, h⟩
        cases k with
        | zero => exact Or.inl h
        | succ k => exact Or.inr ⟨k, h⟩

/-- Tests at the front take one element each. -/
theorem fits_append : Glob (v.map some ++ ps) l ↔ ∃ u n, l = u ++ n ∧ Fits v u ∧ Glob ps n := by
  induction v generalizing l with
  | nil =>
      constructor
      · exact fun h => ⟨[], l, rfl, List.Forall₂.nil, h⟩
      · rintro ⟨u, n, rfl, hfits, h⟩
        cases hfits
        exact h
  | cons f v ih =>
      constructor
      · intro h
        cases h with
        | one hf hrest =>
            obtain ⟨u, n, rfl, hfits, h⟩ := ih.mp hrest
            exact ⟨_ :: u, n, rfl, List.Forall₂.cons hf hfits, h⟩
      · rintro ⟨u, n, rfl, hfits, h⟩
        cases hfits with
        | cons hf hfits => exact one hf (ih.mpr ⟨_, n, rfl, hfits, h⟩)

/-- What passed the tests at the front can be taken off. -/
theorem fits_iff (hfits : Fits v u) : Glob (v.map some ++ ps) (u ++ n) ↔ Glob ps n := by
  constructor
  · intro h
    obtain ⟨u', n', happ, hfits', h⟩ := fits_append.mp h
    obtain ⟨-, rfl⟩ := List.append_inj happ (hfits.length_eq.symm.trans hfits'.length_eq)
    exact h
  · exact fun h => fits_append.mpr ⟨u, n, rfl, hfits, h⟩

/-- Only the last star needs to be tried again. -/
theorem last_star (hfits : Fits v u) : Glob (none :: (v.map some ++ none :: qs)) (u ++ n) ↔ Glob (none :: qs) n := by
  constructor
  · intro h
    obtain ⟨k, h⟩ := star_iff.mp h
    obtain ⟨u', n', happ, hfits', h⟩ := fits_append.mp h
    -- what is left for the last star is a part of what is left for it without the first
    have hn' : n' = n.drop k := by
      have hdrop := congrArg (List.drop u'.length) happ
      rw [List.drop_left, List.drop_drop, Nat.add_comm, ← List.drop_drop, ← hfits'.length_eq, hfits.length_eq,
        List.drop_left] at hdrop
      exact hdrop.symm
    obtain ⟨j, h⟩ := star_iff.mp (hn' ▸ h)
    rw [List.drop_drop] at h
    exact star_iff.mpr ⟨k + j, h⟩
  · exact fun h => skip ((fits_iff hfits).mpr h)

/-- Every test takes an element. -/
theorem count_le (h : Glob ps l) : ps.countP Option.isSome ≤ l.length := by
  induction h with
  | nil => exact Nat.le_refl 0
  | one _ _ ih =>
      rw [List.countP_cons_of_pos rfl]
      exact Nat.succ_le_succ ih
  | skip _ ih => exact ih
  | take _ ih => exact Nat.le_succ_of_le ih

/-- Where the tests behind a star have taken everything, only stars are left. -/
theorem star_fits_iff (hfits : Fits v u) : Glob (none :: (v.map some ++ ps)) u ↔ ∀ x ∈ ps, x = none := by
  constructor
  · intro h x hx
    have hcount := count_le h
    have hall : (v.map (some : (α → Bool) → _)).countP Option.isSome = v.length := by
      rw [List.countP_map]
      exact List.countP_eq_length.mpr fun _ _ => rfl
    rw [List.countP_cons_of_neg Bool.false_ne_true, List.countP_append, hall, hfits.length_eq] at hcount
    have hzero : ps.countP Option.isSome = 0 := by omega
    exact Option.not_isSome_iff_eq_none.mp (List.countP_eq_zero.mp hzero x hx)
  · intro h
    have hrest := (fits_iff hfits).mpr (nil_iff.mpr h)
    rw [List.append_nil] at hrest
    exact skip hrest

end Glob

end RustyRig.Lib
