/-
Leases.

A lease taken at one time stays alive as long as its holder acts often enough.  What is
kept of the holder is one stamp, the last action that counted; what is meant is that no
window as long as the limit went by without one.
-/
import Mathlib.Order.Basic

namespace RustyRig.Lib

/-- A lease taken at `start` whose stamp is the last index: each action renewed it in time. -/
inductive Renewed (limit : Nat) (acts : Nat → Prop) (start : Nat) : Nat → Prop
  | start : Renewed limit acts start start
  | renew {stamp time : Nat} (h : Renewed limit acts start stamp) (le : stamp ≤ time)
      (lt : time - stamp < limit) (act : acts time) : Renewed limit acts start time

namespace Renewed

variable {limit start stamp : Nat} {acts acts' : Nat → Prop}

/-- More actions do no harm. -/
theorem mono (h : Renewed limit acts start stamp) (hsub : ∀ t, acts t → acts' t) :
    Renewed limit acts' start stamp := by
  induction h with
  | start => exact .start
  | renew _ le lt act ih => exact .renew ih le lt (hsub _ act)

/-- The holder acted in every window of the limit's length, up to any time at which the stamp
still counts. -/
theorem attended (h : Renewed limit acts start stamp) {now : Nat} (hlt : now - stamp < limit) :
    ∀ x, start ≤ x → x + limit ≤ now → ∃ t, x < t ∧ t < x + limit ∧ acts t := by
  induction h generalizing now with
  | start => intro x hx hnow; omega
  | @renew stamp time _ le lt act ih =>
      intro x hx hnow
      by_cases hafter : x < time
      · by_cases hbefore : time < x + limit
        · exact ⟨time, hafter, hbefore, act⟩
        · exact ih lt x hx (by omega)
      · omega

end Renewed

end RustyRig.Lib
