/-
What every function of the bridge manager keeps.

A request is sent where none is pending, and whatever clears `pending` settles it: its
callback is called there and forgotten.  So the requests that were sent are the settled
ones and the one pending, and the callbacks of accepted controls are those called and the
one that waits.  Between a result and the setpoint queued behind its request nothing is
pending and something is queued; everywhere else the queue is behind a pending request.
-/
import RustyRig.Rrserver.BridgeManager
import Mathlib.Data.List.Nodup
import Mathlib.Data.List.Perm.Basic

namespace RustyRig

namespace Bridge

/-- What the record library documents: a mode that it finds valid is one of the list, and it lets
no result pass that names no request. -/
structure Env.Documented (env : Env) : Prop where
  modes : ∀ ms m, env.modeValid ms m = true → m ∈ ms
  requests : ∀ m request success, env.recvValid m = true → m.body = .result request success →
    request ≠ 0

variable {env : Env} {t : Moment} {b b' : Bridge} {s : Setpoint} {r : Control}

/-! ### Setpoints -/

/-- A mode that fits its field. -/
def Short (s : Setpoint) : Prop := s.mode.utf8ByteSize < 16

theorem clipped_short (h : Short s) : clipped s = s := by
  unfold clipped clip
  rw [if_pos (show s.mode.utf8ByteSize < 16 from h)]

theorem short_of_fits (hdoc : env.Documented) {caps : Caps} (h : fits env caps s = true) : Short s := by
  unfold fits at h
  simp only [Bool.and_eq_true] at h
  exact caps.short _ (hdoc.modes _ _ h.2)

theorem bump_ne_zero (n : Nat) : bump n ≠ 0 := by
  unfold bump
  split
  · decide
  · assumption

/-! ### What the functions can do -/

/-- The bridge after a request is sent. -/
def requesting (t : Moment) (b : Bridge) (s : Setpoint) (callback : Option Nat) : Bridge :=
  { b with
    nextRequest := bump b.nextRequest
    pending := bump b.nextRequest
    deadline := t.now + 5000000
    requested := clipped s
    complete := callback
    sent := b.sent ++ [(bump b.nextRequest, s, callback)] }

/-- The bridge after a send that failed. -/
def broken (b : Bridge) : Bridge := closed { b with nextRequest := bump b.nextRequest }

theorem sendSetting_cases (env : Env) (t : Moment) (b : Bridge) (s : Setpoint)
    (callback : Option Nat) :
    (sendSetting env t b s callback = (false, b) ∧
        ¬ (b.ready = true ∧ b.online = true ∧ b.pending = 0 ∧ fits env b.caps s = true)) ∨
      (b.pending = 0 ∧ t.sends = false ∧ sendSetting env t b s callback = (false, broken b)) ∨
        (b.pending = 0 ∧ b.ready = true ∧ b.online = true ∧ fits env b.caps s = true ∧
          sendSetting env t b s callback = (true, requesting t b s callback)) := by
  unfold sendSetting
  split
  · rename_i hrefused
    refine Or.inl ⟨rfl, ?_⟩
    rintro ⟨hready, honline, hpending, hfits⟩
    simp [hready, honline, hpending, hfits] at hrefused
  · rename_i hready
    simp only [ne_eq, Bool.or_eq_true, Bool.not_eq_true', decide_eq_true_eq, not_or,
      Bool.not_eq_false, not_not] at hready
    simp only
    split
    · rename_i hsends
      exact Or.inr (Or.inl ⟨hready.1.2, by simpa using hsends, rfl⟩)
    · exact Or.inr (Or.inr ⟨hready.1.2, hready.1.1.1, hready.1.1.2, hready.2, rfl⟩)

/-- A control is refused and changes nothing, fails in sending, or is accepted with what it builds
on changed: behind the pending request, or as the next one. -/
theorem control_cases (env : Env) (t : Moment) (b : Bridge) (r : Control) :
    ((control env t b r).1 ≠ .pending ∧ (control env t b r).2 = b) ∨
      (b.online = true ∧ b.pending = 0 ∧ (control env t b r).1 ≠ .pending ∧
        (control env t b r).2 = broken b) ∨
      (∃ s, r.change.apply (base b) = some s ∧ b.online = true ∧ b.desired = true ∧
        fits env b.caps s = true ∧ b.pending ≠ 0 ∧ b.complete = none ∧ r.complete = false ∧
        control env t b r = (.pending, { accept b r with queued := some (clipped s) })) ∨
      (∃ s, r.change.apply (base b) = some s ∧ b.online = true ∧ b.ready = true ∧
        b.desired = true ∧ fits env b.caps s = true ∧ b.pending = 0 ∧
        control env t b r = (.pending, accept (requesting t b s
          (if r.complete then some b.nextToken else none)) r)) := by
  unfold control
  split
  · exact Or.inl ⟨by simp, rfl⟩
  split
  · exact Or.inl ⟨by simp, rfl⟩
  rename_i hup
  simp only [Bool.or_eq_true, Bool.not_eq_true', not_or, Bool.not_eq_false] at hup
  split
  · exact Or.inl ⟨by simp, rfl⟩
  rename_i s hs
  split
  · rename_i hqueue
    simp only [ne_eq, Bool.and_eq_true, decide_eq_true_eq, Option.isNone_iff_eq_none,
      Bool.not_eq_true'] at hqueue
    exact Or.inr (Or.inr (Or.inl ⟨s, hs, hup.2, hup.1, hqueue.2, hqueue.1.1.1.1.1,
      hqueue.1.1.1.1.2, hqueue.1.1.1.2, rfl⟩))
  · rcases sendSetting_cases env t b s (if r.complete then some b.nextToken else none) with
      ⟨heq, -⟩ | ⟨hpending, -, heq⟩ | ⟨hpending, hready, -, hfits, heq⟩
    · rw [heq]
      exact Or.inl ⟨by simp, rfl⟩
    · rw [heq]
      exact Or.inr (Or.inl ⟨hup.2, hpending, by simp, rfl⟩)
    · rw [heq]
      exact Or.inr (Or.inr (Or.inr ⟨s, hs, hup.2, hready, hup.1, hfits, hpending, rfl⟩))

/-- Nothing is accepted while the receiver is offline. -/
theorem control_offline (h : b.online = false) : (control env t b r).2 = b := by
  rcases control_cases env t b r with ⟨-, heq⟩ | ⟨hon, -⟩ | ⟨_, _, hon, -⟩ | ⟨_, _, hon, -⟩
  · exact heq
  all_goals
    rw [h] at hon
    exact absurd hon (by simp)

/-- The bridge once its request is over, before the callback is called. -/
def freed (b : Bridge) : Bridge :=
  { b with
    pending := 0
    complete := none
    settled := if b.pending ≠ 0 then b.settled ++ [b.pending] else b.settled }

theorem finish_none (result : Result) (h : b.complete = none) : finish env t result b = freed b := by
  unfold finish
  rw [h]
  rfl

/-- What is recorded of the callback that a finished request calls. -/
def called (b : Bridge) (result : Result) : Bridge :=
  { freed b with completed := b.completed ++ b.complete.toList.map fun token => (token, result) }

theorem called_none (result : Result) (h : b.complete = none) : called b result = freed b := by
  unfold called
  rw [h]
  simp [freed]

theorem finish_some {token : Nat} (result : Result) (h : b.complete = some token) :
    finish env t result b =
      (env.react token result).foldl (fun b r => (control env t b r).2) (called b result) := by
  unfold finish called
  rw [h]
  rfl

/-- Offline, the callbacks get nothing done. -/
theorem finish_offline (result : Result) (h : b.online = false) :
    finish env t result b = called b result := by
  cases hc : b.complete with
  | none => rw [finish_none result hc, called_none result hc]
  | some token =>
      have hstill : ∀ (rs : List Control) (x : Bridge), x.online = false →
          rs.foldl (fun b r => (control env t b r).2) x = x := by
        intro rs
        induction rs with
        | nil => exact fun _ _ => rfl
        | cons r rs ih =>
            intro x hx
            rw [List.foldl_cons, control_offline hx]
            exact ih x hx
      rw [finish_some result hc]
      exact hstill _ (called b result) h

theorem offline_eq (env : Env) (t : Moment) (b : Bridge) :
    offline env t b = if b.pending ≠ 0 then called (dropped b) .backendFailed else dropped b := by
  unfold offline
  split
  · exact finish_offline _ rfl
  · rfl

end Bridge

end RustyRig
