/-
Quota patterns (`rrserver_quota_matches` of `rrserver/usage.c`).

A pattern is a glob over user names.  The matcher keeps what is left of the pattern and of the name, and
where to go back to: the last star and the place in the name that it was tried from.  A character stands
for a byte, and the C library for the C locale.  The bound on names comes from a header that is not part
of this tree.
-/
import Mathlib.Data.Prod.Lex

namespace RustyRig

namespace Quota

/-- A C string, without its terminator. -/
abbrev Text := List Char

/-- Where the matcher goes back to: `star` and `retry`. -/
structure Back where
  star : Text
  retry : Text

/-- The variables of the loop.  What is left of the name is part of what is behind the place to go back to. -/
structure Scan where
  pattern : Text
  name : Text
  back : Option Back
  behind : ∀ b ∈ back, name.length ≤ b.retry.length

/-- What may still be tried, for the loop to end. -/
def limit (name : Text) (back : Option Back) : Nat :=
  match back with
  | none => name.length + 1
  | some b => b.retry.length

/-- A round that tries no more than was left to try, and comes nearer to the end of the name or the pattern. -/
theorem lex_of_le {r r' n n' p p' : Nat} (hr : r' ≤ r) (h : n' < n ∨ n' = n ∧ p' < p) :
    Prod.Lex (· < ·) (Prod.Lex (· < ·) (· < ·)) (r', n', p') (r, n, p) := by
  rcases Nat.lt_or_eq_of_le hr with hlt | rfl
  · exact Prod.Lex.left _ _ hlt
  · rcases h with hlt | ⟨rfl, hlt⟩
    · exact Prod.Lex.right _ (Prod.Lex.left _ _ hlt)
    · exact Prod.Lex.right _ (Prod.Lex.right _ hlt)

/-- Whether the pattern goes on with the character. -/
def sameNext (pattern : Text) (c : Char) : Bool :=
  match pattern with
  | [] => false
  | p :: _ => p == '?' || p.toLower == c.toLower

/-- The characters of a pattern. -/
def patternChar (c : Char) : Bool := c.isAlphanum || c == '_' || c == '-' || c == '*' || c == '?'

/-- The loop over the name. -/
def scan (s : Scan) : Bool :=
  match hname : s.name with
  | [] => s.pattern.all (· == '*')
  | c :: name =>
      if sameNext s.pattern c then
        scan
          { pattern := s.pattern.tail
            name := name
            back := s.back
            behind := fun b hb => by
              have hle := s.behind b hb
              rw [hname, List.length_cons] at hle
              exact Nat.le_of_succ_le hle }
      else if hstar : s.pattern.head? = some '*' then
        scan
          { pattern := s.pattern.tail
            name := c :: name
            back := some { star := s.pattern, retry := c :: name }
            behind := fun b hb => by
              cases hb
              exact Nat.le_refl _ }
      else
        match hback : s.back with
        | none => false
        | some b =>
            scan
              { pattern := b.star.tail
                name := b.retry.tail
                back := some { star := b.star, retry := b.retry.tail }
                behind := fun b' hb' => by
                  cases hb'
                  exact Nat.le_refl _ }
termination_by (limit s.name s.back, s.name.length, s.pattern.length)
decreasing_by
  · refine lex_of_le ?_ (Or.inl (by rw [hname, List.length_cons]; exact Nat.lt_succ_self _))
    rw [hname]
    cases s.back with
    | none => exact Nat.succ_le_succ (Nat.le_succ _)
    | some b => exact Nat.le_refl _
  · obtain ⟨tail, hpattern⟩ := List.head?_eq_some_iff.mp hstar
    refine lex_of_le ?_ (Or.inr ⟨by rw [hname], by rw [hpattern]; exact Nat.lt_succ_self _⟩)
    change (c :: name).length ≤ _
    rw [← hname]
    cases hback : s.back with
    | none => exact Nat.le_succ _
    | some b => exact s.behind b hback
  · refine Prod.Lex.left _ _ ?_
    have hle := s.behind b hback
    rw [hname, List.length_cons] at hle
    rw [hback]
    unfold limit
    dsimp only
    rw [List.length_tail]
    omega

/-- `rrserver_quota_matches`. -/
def quotaMatches (userLen : Nat) (pattern name : Text) : Bool :=
  if pattern = [] ∨ userLen < pattern.length then false
  else if pattern.all patternChar = false then false
  else scan { pattern := pattern, name := name, back := none, behind := fun _ hb => nomatch hb }

end Quota

end RustyRig
