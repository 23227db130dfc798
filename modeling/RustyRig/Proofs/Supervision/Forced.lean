/-
Whom a tick forces off.

A tick looks at one request after the other, and what it does for one leaves the consent of the
others alone; so it releases exactly if a client keys under a request that had no consent to begin
with.  The permission to transmit is decided otherwise: only a noob needs consent, and of its
requests the first with its token counts.  And a release is one of all transmissions.
-/
import RustyRig.Proofs.Supervision.Consent

namespace RustyRig

namespace Supervision

variable {p : Setup} {i : Nat} {r : Request} {w w' w'' : World}

/-- The release of a tick. -/
def lost : Output := .allOff "supervision-lost"

theorem Frame.conn (h : Frame w w') (client : Option Nat) : w'.conn? client = w.conn? client := by
  unfold World.conn?
  rw [h.clients]

theorem Frame.allowed (h : Frame w w') (r : Request) : w'.allowed p r = w.allowed p r := by
  have hactive : w'.active p = w.active p := by
    funext s
    unfold World.active
    rw [h.conn, h.now]
  unfold World.allowed
  rw [hactive, h.conn, h.now]

/-- Offers are made for request `i`, and nothing else. -/
structure Mild (i : Nat) (w w' : World) : Prop extends Frame w w' where
  others : ∀ j, j ≠ i → w'.requests[j]? = w.requests[j]?
  request : ∀ r, w.requests[i]? = some r → ∃ r', w'.requests[i]? = some r' ∧ r'.client = r.client ∧
    r'.token = r.token ∧ r'.room = r.room ∧ r'.granted = r.granted ∧ r'.elmers = r.elmers
  sent : lost ∈ w'.sent ↔ lost ∈ w.sent

theorem Mild.refl (i : Nat) (w : World) : Mild i w w :=
  ⟨.refl w, fun _ _ => rfl, fun r hr => ⟨r, hr, rfl, rfl, rfl, rfl, rfl⟩, Iff.rfl⟩

theorem Mild.trans (h : Mild i w w') (h' : Mild i w' w'') : Mild i w w'' where
  toFrame := h.toFrame.trans h'.toFrame
  others := fun j hj => (h'.others j hj).trans (h.others j hj)
  request := fun r hr => by
    obtain ⟨r', hr', hc, ht, hroom, hg, he⟩ := h.request r hr
    obtain ⟨r'', hr'', hc', ht', hroom', hg', he'⟩ := h'.request r' hr'
    exact ⟨r'', hr'', hc'.trans hc, ht'.trans ht, hroom'.trans hroom, hg'.trans hg, he'.trans he⟩
  sent := h'.sent.trans h.sent

/-- The tick forces the client's transmission off. -/
def Forced (p : Setup) (w : World) (c : Conn) : Prop :=
  c.isPtt = true ∧ lost ∈ (({ w with sent := [] } : World).tick p).sent

/-- The client keys under a request of its own. -/
def Tracked (w : World) (c : Conn) : Prop :=
  c.isPtt = true ∧ ∃ r ∈ w.requests, r.client = some c.handle ∧ r.room = c.pttRoom

/-- The tick forces off whom permission would deny, and nobody else. -/
def Agrees (p : Setup) (w : World) : Prop :=
  ∀ h c, w.conn? (some h) = some c →
    (Forced p w c ↔ Tracked w c ∧ w.supervisionAllowed p h = false)

end Supervision

end RustyRig
