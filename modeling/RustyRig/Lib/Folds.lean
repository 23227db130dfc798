/-
Loops that may stop.

A loop that checks one element after another and gives up at the first that fails is a
monadic fold in `Option`.  What holds before it and is kept by every element that passes
holds after it, of all the elements.
-/
import Mathlib.Data.List.Basic

namespace RustyRig.Lib

variable {σ α : Type*} {f : σ → α → Option σ} {s s' : σ} {l : List α}

/-- A loop invariant that may speak of the elements passed so far. -/
theorem foldlM_passed {P : List α → σ → Prop} (h : l.foldlM f s = some s') (hs : P [] s)
    (hstep : ∀ done a t t', a ∈ l → P done t → f t a = some t' → P (done ++ [a]) t') : P l s' := by
  suffices hgo : ∀ (rest done : List α) (t : σ), done ++ rest = l → P done t →
      rest.foldlM f t = some s' → P l s' from hgo l [] s rfl hs h
  intro rest
  induction rest with
  | nil =>
      intro done t hl ht hrest
      rw [List.append_nil] at hl
      rw [← hl, ← Option.some.inj hrest]
      exact ht
  | cons a rest ih =>
      intro done t hl ht hrest
      rw [List.foldlM_cons] at hrest
      obtain ⟨t', hpass, hrest⟩ := Option.bind_eq_some_iff.mp hrest
      refine ih (done ++ [a]) t' (by rw [List.append_assoc]; exact hl) ?_ hrest
      exact hstep done a t t' (by rw [← hl]; simp) ht hpass

/-- What every element keeps, the loop keeps. -/
theorem foldlM_kept {P : σ → Prop} (h : l.foldlM f s = some s') (hs : P s)
    (hstep : ∀ a t t', a ∈ l → P t → f t a = some t' → P t') : P s' :=
  foldlM_passed (P := fun _ => P) h hs fun _ a t t' ha ht hpass => hstep a t t' ha ht hpass

end RustyRig.Lib

/-!
Lists changed at one place.

What stands at an index after `List.modify`, and which items of the list are there: those
that were, or the change of the one at that index.
-/

namespace RustyRig.Lib

variable {α β : Type*} {l : List α} {i j : Nat} {f : α → α} {x : α}

theorem getElem?_of_modify (h : (l.modify i f)[j]? = some x) :
    (j ≠ i ∧ l[j]? = some x) ∨ (j = i ∧ ∃ y, l[j]? = some y ∧ x = f y) := by
  by_cases hij : i = j
  · subst hij
    rw [List.getElem?_modify_eq] at h
    obtain ⟨y, hy, hx⟩ := Option.map_eq_some_iff.mp h
    exact .inr ⟨rfl, y, hy, hx.symm⟩
  · rw [List.getElem?_modify_ne _ _ hij] at h
    exact .inl ⟨fun he => hij he.symm, h⟩

theorem mem_of_modify (h : x ∈ l.modify i f) : x ∈ l ∨ ∃ y, l[i]? = some y ∧ x = f y := by
  obtain ⟨j, hj⟩ := List.mem_iff_getElem?.mp h
  rcases getElem?_of_modify hj with ⟨-, hj⟩ | ⟨rfl, y, hy, rfl⟩
  · exact .inl (List.mem_of_getElem? hj)
  · exact .inr ⟨y, hy, rfl⟩

/-- A field that the change keeps is the same all over. -/
theorem map_modify {g : α → β} (hf : ∀ y, l[i]? = some y → g (f y) = g y) :
    (l.modify i f).map g = l.map g := by
  refine List.ext_getElem? fun j => ?_
  rw [List.getElem?_map, List.getElem?_map]
  by_cases hij : i = j
  · subst hij
    rw [List.getElem?_modify_eq]
    cases hy : l[i]? with
    | none => rfl
    | some y => exact congrArg some (hf y hy)
  · rw [List.getElem?_modify_ne _ _ hij]

end RustyRig.Lib
