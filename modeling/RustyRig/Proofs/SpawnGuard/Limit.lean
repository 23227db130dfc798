/-
How often the media manager starts a worker.

As long as its entry is not taken by another key, a key's answers are those of one limiter.  Of the
table only that is used: where an entry is found or put (`guardOf_spec`), and that all limiters in
it are sound.
-/
import RustyRig.Libfwdspmgr.SpawnGuard

namespace RustyRig

namespace Fwdsp

open Lib

variable {guards guards' : SpawnGuards} {guard : SpawnGuard} {sp : Subproc} {key : Text} {current start i : Nat}
  {l : List (Subproc × Nat)}

/-! ### Entries -/

/-- The first entry of a key. -/
def entry (guards : SpawnGuards) (key : Text) : Option SpawnGuard := guards.find? fun guard => guard.key == key

/-- The search has found the first entry of the key; or there is none, and it stops at an empty entry,
or where all are taken at one whose window is the oldest. -/
inductive Found (guards : SpawnGuards) (key : Text) : Bool × Nat → Prop where
  | found (i : Nat) (guard : SpawnGuard) (hget : guards[i]? = some guard) (hkey : guard.key = key)
      (hfirst : ∀ j < i, ∀ old, guards[j]? = some old → old.key ≠ key) : Found guards key (true, i)
  | absent (i : Nat) (guard : SpawnGuard) (hget : guards[i]? = some guard) (hnone : ∀ old ∈ guards, old.key ≠ key)
      (holdest : guard.key = [] ∨ ∀ old ∈ guards, old.key ≠ [] ∧ guard.limiter.started ≤ old.limiter.started) :
      Found guards key (false, i)

/-- Every limiter of the table is sound. -/
def Sound (guards : SpawnGuards) : Prop := ∀ guard ∈ guards, guard.limiter.Sound 3

theorem Sound.spawnPermitted (h : Sound guards) (hpos : 0 < current) (sp : Subproc) :
    Sound (spawnPermitted guards sp current).2 := by
  have hnew := Limiter.sound_new 3
  unfold Fwdsp.spawnPermitted
  dsimp only
  intro guard hguard
  rcases List.mem_or_eq_of_mem_set hguard with hguard | rfl
  · exact h guard hguard
  · refine Limiter.Sound.ask ?_ (by decide) hpos
    split
    · rename_i old _ hold
      exact h old (List.mem_of_getElem? hold)
    · exact hnew

/-- No attempt takes the key's entry. -/
def keeps (guards : SpawnGuards) (key : Text) : List (Subproc × Nat) → Prop
  | [] => True
  | (sp, current) :: l => evicts guards sp key = false ∧ keeps (spawnPermitted guards sp current).2 key l

/-- The starts of a key that were permitted. -/
def starts (key : Text) (answers : List (Text × Nat × Limiter.Verdict)) : Nat :=
  answers.countP fun answer => answer.1 == key && answer.2.2 == .admitted

def plain : Subproc := { Subproc.cleared with role := .codec, plId := [111, 112, 117, 115] }

end Fwdsp

end RustyRig
