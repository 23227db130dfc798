/-
Lines on a stream.

A line is closed by a separator that it does not contain.  The reader keeps what it has of
the line it is in and takes one symbol after another, so the stream may be cut anywhere: what
the reader has and what is still to come are together the lines that it has not finished.
-/
import RustyRig.Lib.SelfDelimiting

namespace RustyRig.Lib

/-- `held` is a part of a line, and with `stream` behind it the lines of `rest`. -/
structure Partway {α β : Type} (line : α → List β) (sep : β) (held stream : List β)
    (rest : List α) : Prop where
  clean : sep ∉ held
  split : held ++ stream = rest.flatMap fun a => line a ++ [sep]

namespace Partway

variable {α β : Type} {line : α → List β} {sep c : β} {held stream : List β} {rest : List α} {a : α}

theorem start : Partway line sep [] [] [] := ⟨by simp, rfl⟩

/-- Another line is sent. -/
theorem send (h : Partway line sep held stream rest) :
    Partway line sep held (stream ++ (line a ++ [sep])) (rest ++ [a]) where
  clean := h.clean
  split := by
    rw [← List.append_assoc, h.split, List.flatMap_append, List.flatMap_singleton]

/-- Nothing is left of a stream whose reader has nothing. -/
theorem eq_nil (h : Partway line sep held [] rest) : held = [] ∧ rest = [] := by
  have hsplit := h.split
  rw [List.append_nil] at hsplit
  cases rest with
  | nil => exact ⟨hsplit, rfl⟩
  | cons a rest =>
      refine absurd ?_ h.clean
      rw [hsplit]
      simp

/-- The separator closes the line that the reader has. -/
theorem close (h : Partway line sep held (sep :: stream) rest) (hline : ∀ a ∈ rest, sep ∉ line a) :
    ∃ a rest', rest = a :: rest' ∧ held = line a ∧ Partway line sep [] stream rest' := by
  have hsplit := h.split
  cases rest with
  | nil => exact absurd hsplit (by simp)
  | cons a rest =>
      rw [List.flatMap_cons, List.append_assoc, List.singleton_append] at hsplit
      obtain ⟨hheld, hstream⟩ := Delimited.append_sep_inj h.clean (hline a List.mem_cons_self) hsplit
      exact ⟨a, rest, rfl, hheld, by simp, hstream⟩

/-- Any other symbol belongs to the line that comes next. -/
theorem more (h : Partway line sep held (c :: stream) rest) (hc : c ≠ sep) :
    Partway line sep (held ++ [c]) stream rest ∧ ∃ a ∈ rest, c ∈ line a ∧ held.length < (line a).length := by
  have hsplit := h.split
  have hclean : sep ∉ held ++ [c] := by
    simp [h.clean, Ne.symm hc]
  refine ⟨⟨hclean, by rw [List.append_assoc]; exact hsplit⟩, ?_⟩
  cases rest with
  | nil => exact absurd hsplit (by simp)
  | cons a rest =>
      refine ⟨a, List.mem_cons_self, ?_⟩
      rw [List.flatMap_cons, List.append_assoc, List.singleton_append] at hsplit
      have hlong : (held ++ [c]) ++ stream = line a ++ sep :: rest.flatMap fun a => line a ++ [sep] := by
        rw [List.append_assoc]
        exact hsplit
      rcases List.append_eq_append_iff.mp hlong with ⟨d, hd, -⟩ | ⟨d, hd, hrest⟩
      · exact ⟨by rw [hd]; simp, by rw [hd]; simp⟩
      · cases d with
        | nil =>
            rw [List.append_nil] at hd
            exact ⟨by rw [← hd]; simp, by rw [← hd]; simp⟩
        | cons x d =>
            obtain rfl := (List.cons.inj hrest).1
            exact absurd (by rw [hd]; simp) hclean

end Partway

end RustyRig.Lib
