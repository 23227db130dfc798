/-
Server identities.

`rr_object_uuid_valid` belongs to the protocol library, which is not part of this
tree, so it enters the development as a parameter: some test on strings, of which
the server relies on nothing but that what passes fits the `char[37]` it is copied
into.  NULL never passes.

On top of it `link.tree.c` and `link.mesh.c` each define the same stricter test,
which admits one spelling per identity.
-/
namespace RustyRig

/-- The protocol library's UUID test. -/
structure UuidFormat where
  valid : String → Bool
  length_of_valid : ∀ id, valid id = true → id.length = 36

/-- `valid_id` of `link.tree.c`, `valid` of `link.mesh.c`: one spelling per identity. -/
def validId (u : UuidFormat) : Option String → Bool
  | none => false
  | some id => u.valid id && id.toList.all fun c => !(decide ('A' ≤ c) && decide (c ≤ 'F'))

/-- The layout `8-4-4-4-12` of hexadecimal digits, as one test the parameter may be. -/
def UuidFormat.hex : UuidFormat where
  valid id := id.length == 36 && id.toList.zipIdx.all fun e =>
    if e.2 ∈ [8, 13, 18, 23] then e.1 == '-' else e.1.isDigit || e.1.toLower ∈ ['a', 'b', 'c', 'd', 'e', 'f']
  length_of_valid := by
    intro id h
    simp only [Bool.and_eq_true, beq_iff_eq] at h
    exact h.1

theorem validId_some {u : UuidFormat} {id : Option String} (h : validId u id = true) :
    ∃ s, id = some s ∧ u.valid s = true := by
  cases id with
  | none => simp [validId] at h
  | some s =>
      simp only [validId, Bool.and_eq_true] at h
      exact ⟨s, rfl, h.1⟩

/-- An identity is never the empty string, which marks "no peer" and "no parent". -/
theorem validId_ne_empty {u : UuidFormat} {s : String} (h : validId u (some s) = true) :
    s ≠ "" := by
  simp only [validId, Bool.and_eq_true] at h
  rintro rfl
  have := u.length_of_valid "" h.1
  simp at this

end RustyRig
