/-
A text cut at a separator.

`cut` takes a word off the front of a text, up to the first separator or the end, and leaves what
is behind the separator.  Runs of separators in front of a word are passed over by `skip`.
-/
import Mathlib.Data.List.TakeWhile

namespace RustyRig.Lib.Words

variable {α : Type} [DecidableEq α] {sep a : α} {s w rest : List α}

/-- The word before the first separator, and what is behind that. -/
def cut (sep : α) (s : List α) : List α × List α :=
  (s.takeWhile (· != sep), (s.dropWhile (· != sep)).tail)

/-- The text without the separators in front of it. -/
def skip (sep : α) (s : List α) : List α := s.dropWhile (· == sep)

theorem length_skip_le (sep : α) (s : List α) : (skip sep s).length ≤ s.length := by
  unfold skip
  exact (List.dropWhile_sublist _).length_le

/-- A cut leaves less. -/
theorem length_cut_lt (sep : α) (h : s ≠ []) : (cut sep s).2.length < s.length := by
  have hle : (s.dropWhile (· != sep)).length ≤ s.length := (List.dropWhile_sublist _).length_le
  have hpos : 0 < s.length := List.length_pos_iff.mpr h
  unfold cut
  rw [List.length_tail]
  omega

/-- A word without separators is all there is, or a separator ends it. -/
theorem cut_word (h : sep ∉ w) : cut sep w = (w, []) := by
  have hall : ∀ x ∈ w, (x != sep) = true := fun x hx => bne_iff_ne.mpr fun he => h (he ▸ hx)
  unfold cut
  rw [List.takeWhile_eq_self_iff.mpr hall, List.dropWhile_eq_nil_iff.mpr hall]
  rfl

theorem cut_append (h : sep ∉ w) : cut sep (w ++ sep :: rest) = (w, rest) := by
  have hall : ∀ x ∈ w, (x != sep) = true := fun x hx => bne_iff_ne.mpr fun he => h (he ▸ hx)
  unfold cut
  rw [List.takeWhile_append_of_pos hall, List.dropWhile_append_of_pos hall,
    List.takeWhile_cons_of_neg (by simp), List.dropWhile_cons_of_neg (by simp), List.append_nil]
  rfl

/-- What a text is cut into. -/
theorem cut_cases (sep : α) (s : List α) :
    sep ∉ (cut sep s).1 ∧ ((s = (cut sep s).1 ∧ (cut sep s).2 = []) ∨ s = (cut sep s).1 ++ sep :: (cut sep s).2) := by
  unfold cut
  refine ⟨fun hmem => ?_, ?_⟩
  · have hne := List.mem_takeWhile_imp hmem
    rw [bne_self_eq_false] at hne
    exact Bool.false_ne_true hne
  · have hsplit := List.takeWhile_append_dropWhile (p := (· != sep)) (l := s)
    cases hrest : s.dropWhile (· != sep) with
    | nil =>
        rw [hrest, List.append_nil] at hsplit
        exact Or.inl ⟨hsplit.symm, rfl⟩
    | cons x rest =>
        have hx : x = sep := by
          have hhead := List.head?_dropWhile_not (· != sep) s
          rw [hrest] at hhead
          by_contra hne
          rw [List.head?_cons] at hhead
          simp [hne] at hhead
        rw [hrest] at hsplit
        subst hx
        exact Or.inr hsplit.symm

/-- A text with a separator is cut there. -/
theorem cut_of_mem (h : sep ∈ s) : sep ∉ (cut sep s).1 ∧ s = (cut sep s).1 ++ sep :: (cut sep s).2 := by
  obtain ⟨hword, hcut⟩ := cut_cases sep s
  rcases hcut with ⟨hs, -⟩ | hs
  · rw [hs] at h
    exact absurd h hword
  · exact ⟨hword, hs⟩

/-- Behind the separators in front comes nothing, or something else. -/
theorem skip_cases (sep : α) (s : List α) :
    ∃ n, s = List.replicate n sep ++ skip sep s ∧ (skip sep s).head? ≠ some sep := by
  induction s with
  | nil => exact ⟨0, rfl, (Option.some_ne_none sep).symm⟩
  | cons x s ih =>
      obtain ⟨n, hs, hhead⟩ := ih
      by_cases hx : x = sep
      · subst hx
        have hskip : skip x (x :: s) = skip x s := List.dropWhile_cons_of_pos (beq_self_eq_true x)
        refine ⟨n + 1, ?_, hskip ▸ hhead⟩
        rw [hskip, List.replicate_succ, List.cons_append, ← hs]
      · have hskip : skip sep (x :: s) = x :: s := List.dropWhile_cons_of_neg (by simp [hx])
        refine ⟨0, by rw [hskip]; rfl, ?_⟩
        rw [hskip, List.head?_cons]
        exact fun h => hx (Option.some.inj h)

theorem skip_replicate (n : Nat) (h : s.head? ≠ some sep) : skip sep (List.replicate n sep ++ s) = s := by
  unfold skip
  rw [List.dropWhile_append_of_pos fun x hx => beq_iff_eq.mpr (List.eq_of_mem_replicate hx)]
  cases s with
  | nil => rfl
  | cons x s =>
      rw [List.head?_cons] at h
      exact List.dropWhile_cons_of_neg (by simpa using fun he => h (congrArg some he))

end RustyRig.Lib.Words
