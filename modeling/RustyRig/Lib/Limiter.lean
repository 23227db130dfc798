/-
A limit on how often something may be begun.

Time is cut into windows, each opened by the first request after the last has run its length.  A
window admits so many requests; the one after those closes the way for a longer time.  A stretch of
time shorter than a window reaches into two of them at most, and of the earlier it misses the
request that opened it.
-/
import Mathlib.Tactic.SplitIfs

namespace RustyRig.Lib

/-- The window that is open, and what it has admitted. -/
structure Limiter where
  started : Nat
  blockedUntil : Nat
  admitted : Nat
deriving DecidableEq, Repr

namespace Limiter

inductive Verdict where
  | admitted
  | blocked
  | limited
deriving DecidableEq, Repr

variable {most window block now t : Nat} {l : Limiter}

def new : Limiter := ⟨0, 0, 0⟩

/-- A request: at most so many in a window, and after one too many none for a time. -/
def ask (most window block : Nat) (l : Limiter) (now : Nat) : Verdict × Limiter :=
  if now < l.blockedUntil then (.blocked, l)
  else
    let l := if l.started = 0 ∨ window ≤ now - l.started then { l with started := now, admitted := 0 } else l
    if most ≤ l.admitted then (.limited, { l with blockedUntil := now + block })
    else (.admitted, { l with admitted := l.admitted + 1 })

/-- A window that has been opened has admitted one, and none too many. -/
structure Sound (most : Nat) (l : Limiter) : Prop where
  unopened : l.started = 0 → l.admitted = 0
  opened : l.started ≠ 0 → 1 ≤ l.admitted
  within : l.admitted ≤ most

theorem sound_new (most : Nat) : Sound most new where
  unopened _ := rfl
  opened h := absurd rfl h
  within := Nat.zero_le _

/-- The three answers, and what each leaves. -/
theorem ask_cases (most window block : Nat) (l : Limiter) (now : Nat) :
    (now < l.blockedUntil ∧ ask most window block l now = (.blocked, l)) ∨
    (l.blockedUntil ≤ now ∧ ∃ started admitted,
      ((started = now ∧ admitted = 0 ∧ (l.started = 0 ∨ window ≤ now - l.started)) ∨
        (started = l.started ∧ admitted = l.admitted ∧ l.started ≠ 0 ∧ now - l.started < window)) ∧
      ((most ≤ admitted ∧ ask most window block l now = (.limited, ⟨started, now + block, admitted⟩)) ∨
        (admitted < most ∧ ask most window block l now = (.admitted, ⟨started, l.blockedUntil, admitted + 1⟩)))) := by
  unfold ask
  by_cases hblocked : now < l.blockedUntil
  · exact Or.inl ⟨hblocked, if_pos hblocked⟩
  · rw [if_neg hblocked]
    refine Or.inr ⟨Nat.le_of_not_lt hblocked, ?_⟩
    by_cases hopens : l.started = 0 ∨ window ≤ now - l.started
    · refine ⟨now, 0, Or.inl ⟨rfl, rfl, hopens⟩, ?_⟩
      rw [if_pos hopens]
      by_cases hmost : most ≤ 0
      · exact Or.inl ⟨hmost, if_pos hmost⟩
      · exact Or.inr ⟨Nat.lt_of_not_le hmost, if_neg hmost⟩
    · rw [if_neg hopens]
      rw [not_or, Nat.not_le] at hopens
      refine ⟨l.started, l.admitted, Or.inr ⟨rfl, rfl, hopens.1, hopens.2⟩, ?_⟩
      by_cases hmost : most ≤ l.admitted
      · exact Or.inl ⟨hmost, if_pos hmost⟩
      · exact Or.inr ⟨Nat.lt_of_not_le hmost, if_neg hmost⟩

theorem Sound.ask (h : Sound most l) (hmost : 0 < most) (hpos : 0 < t) : Sound most (ask most window block l t).2 := by
  obtain ⟨hunopened, hopened, hwithin⟩ := h
  rcases ask_cases most window block l t with ⟨-, heq⟩ | ⟨-, started, admitted, hwhich, hend⟩
  · rw [heq]
    exact ⟨hunopened, hopened, hwithin⟩
  · rcases hend with ⟨hlimit, heq⟩ | ⟨hroom, heq⟩
    · rw [heq]
      refine ⟨fun h0 => ?_, fun h0 => ?_, ?_⟩ <;> dsimp only at * <;> omega
    · rw [heq]
      refine ⟨fun h0 => ?_, fun h0 => ?_, ?_⟩ <;> dsimp only at * <;> omega

/-! ### Less than a window -/

/-- How many may still be admitted before a time has passed by a window. -/
def left (most start : Nat) (l : Limiter) : Nat :=
  if l.started = 0 ∨ start ≤ l.started then most - l.admitted else most - l.admitted + most

end Limiter

end RustyRig.Lib
