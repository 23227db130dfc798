/-
The remembered setpoints lie inside the announced capabilities.

A setpoint is checked when it is queued or sent, against the coverage of that moment, and it is
remembered across every later record.  So the desired and the queued one stay inside until
the child announces less: `capabilities` replaces the coverage and looks at neither.  A
request may also be confirmed after its setpoint has fallen out.  From there a reconnect is
hopeless: the desired setpoint cannot be sent, which counts as a bad record of the child,
and the child is disconnected, whatever its state says and however often it comes back.
`Covers` says that neither happens.
-/
import RustyRig.Lib.Along
import RustyRig.Proofs.BridgeManager.Newest

namespace RustyRig

namespace Bridge

variable {env : Env} {t : Moment} {b b' : Bridge} {s : Setpoint} {r : Control}

/-- The remembered setpoints can be sent. -/
structure Covered (env : Env) (b : Bridge) : Prop where
  target : b.desired = true → fits env b.caps b.target = true
  queued : ∀ s ∈ b.queued, fits env b.caps s = true

/-- A record that reaches `handle` past its handshake. -/
def Heard (env : Env) (b : Bridge) (m : Record) : Prop :=
  b.opened = true ∧ env.recvValid m = true ∧ b.idling = false ∧ m.named = true ∧ b.hello = true

/-- New capabilities cover the setpoints that are remembered, and what the receiver confirms is still
covered. -/
def Covers (env : Env) (b : Bridge) : Event → Prop
  | .record m => Heard env b m →
      match m.body with
      | .capabilities (some caps) => Covered env { b with caps := caps }
      | .result request true =>
          request = b.pending → b.ready = true → fits env b.caps b.requested = true
      | _ => True
  | _ => True

theorem covered_create (env : Env) (hints : Caps) : Covered env (create hints) where
  target := fun h => absurd h (by simp [create])
  queued := by simp [create]

/-! ### One function at a time -/

theorem Covered.dropped (h : Covered env b) : Covered env (dropped b) where
  target := by
    intro hd
    show fits env b.caps (b.queued.getD b.target) = true
    cases hq : b.queued with
    | some s => exact h.queued s hq
    | none =>
        refine h.target ?_
        simpa [Bridge.dropped, hq] using hd
  queued := by simp [Bridge.dropped]

theorem Covered.offline (h : Covered env b) : Covered env (offline env t b) := by
  rw [offline_eq]
  split
  · exact { h.dropped with }
  · exact h.dropped

theorem Covered.disconnect (h : Covered env b) : Covered env (disconnect env t b) :=
  { h.offline with }

theorem Covered.broken (h : Covered env b) : Covered env (broken b) := by
  have hbumped : Covered env { b with nextRequest := bump b.nextRequest } := { h with }
  exact { hbumped.dropped with }

theorem Covered.sendSetting (h : Covered env b) {callback : Option Nat} :
    Covered env (sendSetting env t b s callback).2 := by
  rcases sendSetting_cases env t b s callback with ⟨heq, -⟩ | ⟨-, -, heq⟩ | ⟨-, -, -, -, heq⟩
  · rw [heq]
    exact h
  · rw [heq]
    exact h.broken
  · rw [heq]
    exact { h with }

theorem Covered.control (hdoc : env.Documented) (h : Covered env b) (r : Control) :
    Covered env (control env t b r).2 := by
  rcases control_cases env t b r with ⟨-, heq⟩ | ⟨-, -, -, heq⟩ |
      ⟨s, -, -, -, hfits, -, -, -, heq⟩ | ⟨s, -, -, -, -, -, -, heq⟩
  · rw [heq]
    exact h
  · rw [heq]
    exact h.broken
  · rw [heq]
    refine { h with queued := fun x hx => ?_ }
    obtain rfl : clipped s = x := Option.mem_some.mp hx
    rw [clipped_short (short_of_fits hdoc hfits)]
    exact hfits
  · rw [heq]
    exact { h with }

theorem Covered.controls (hdoc : env.Documented) (rs : List Control) : ∀ {b : Bridge},
    Covered env b → Covered env (rs.foldl (fun b r => (Bridge.control env t b r).2) b) := by
  induction rs with
  | nil => exact fun h => h
  | cons r rs ih => exact fun h => ih (h.control hdoc r)

/-- What an answered request leaves: the setpoint it confirms is the desired one. -/
theorem Covered.settled (h : Covered env b) {success : Bool}
    (hconfirmed : success = true → fits env b.caps b.requested = true) :
    Covered env { called (answered b success) (verdict success) with queued := none } := by
  cases success with
  | false => exact ⟨h.target, by simp⟩
  | true => exact ⟨fun _ => hconfirmed rfl, by simp⟩

theorem Covered.handleResult (hdoc : env.Documented) (hs : Steady b) (h : Covered env b)
    (hp : b.pending ≠ 0) (success : Bool)
    (hconfirmed : success = true → fits env b.caps b.requested = true) :
    Covered env (handleResult env t b b.pending success).2 := by
  have hsettled := h.settled hconfirmed
  obtain ⟨x, hx, ⟨rs, -, rfl⟩ | ⟨s, -, -, rfl⟩ | ⟨s, -, -, rfl⟩⟩ :=
    handleResult_cases hdoc t hs hp success
  · rw [hx]
    exact Covered.controls hdoc rs hsettled
  · rw [hx]
    exact hsettled
  · rw [hx]
    exact hsettled.sendSetting

theorem Covered.handleState (hdoc : env.Documented) (h : Covered env b) (available : Bool) :
    Covered env (handleState env t b available s).2 := by
  unfold Bridge.handleState
  split
  · exact h.offline
  split
  · exact h
  rename_i hfits
  have hfits : fits env b.caps s = true := by simpa using hfits
  have hup : Covered env { b with online := true } := { h with }
  simp only
  split
  · refine { hup with target := fun _ => ?_ }
    show fits env b.caps (clipped s) = true
    rw [clipped_short (short_of_fits hdoc hfits)]
    exact hfits
  split
  · exact hup.sendSetting
  · exact hup

/-- With the desired setpoint covered, a state that is inside the coverage is taken. -/
theorem Covered.handleState_taken (h : Covered env b) (hsends : t.sends = true)
    (hready : b.ready = true) (hfits : fits env b.caps s = true) :
    (Bridge.handleState env t b true s).1 = true := by
  unfold Bridge.handleState
  rw [if_neg (by simp), if_neg (by simp [hfits])]
  simp only
  split
  · rfl
  rename_i hd
  have hd : b.desired = true := by simpa using hd
  split
  · rename_i hoff
    have hp : b.pending = 0 := by
      simp only [Bool.and_eq_true, decide_eq_true_eq] at hoff
      exact hoff.2
    rcases sendSetting_cases env t { b with online := true } b.target none with
      ⟨-, hrefused⟩ | ⟨-, hbroken, -⟩ | ⟨-, -, -, -, heq⟩
    · exact absurd ⟨hready, rfl, hp, h.target hd⟩ hrefused
    · exact absurd (hsends.symm.trans hbroken) (by simp)
    · rw [heq]
  · rfl

/-! ### A record -/

theorem Covered.handle (hdoc : env.Documented) (hs : Steady b) (h : Covered env b) {m : Record}
    (hopened : b.opened = true) (hvalid : env.recvValid m = true)
    (hheard : b.idling = false ∨ m.isLog = true) (hcovers : Covers env b (.record m)) :
    Covered env (handle env t b m).2 := by
  unfold Bridge.handle
  split
  · exact h
  rename_i hnamed
  have hnamed : m.named = true := by simpa using hnamed
  split
  · split
    · exact { h with }
    · exact h
  rename_i hhello
  have hhello : b.hello = true := by simpa using hhello
  have hheard : m.isLog = false → Heard env b m := fun hlog =>
    ⟨hopened, hvalid, hheard.resolve_right (by simp [hlog]), hnamed, hhello⟩
  unfold Covers at hcovers
  cases hbody : m.body with
  | log terminal =>
      cases terminal with
      | true => exact h.disconnect
      | false => exact h
  | capabilities caps =>
      cases caps with
      | none => exact h
      | some caps =>
          have hcaps : Covered env { b with caps := caps } := by
            simpa [hbody] using hcovers (hheard (by simp [Record.isLog, hbody]))
          exact { hcaps with }
  | metadata ok => exact h
  | heartbeat => exact h
  | state available s =>
      simp only
      split
      · exact h.handleState hdoc available
      · exact h
  | result request success =>
      simp only
      split
      · rename_i hready
        by_cases heq : request = b.pending
        · subst heq
          refine h.handleResult hdoc hs (hdoc.requests m _ success hvalid hbody) success ?_
          rintro rfl
          have hconfirmed := hcovers (hheard (by simp [Record.isLog, hbody]))
          rw [hbody] at hconfirmed
          exact hconfirmed rfl hready
        · unfold Bridge.handleResult
          rw [if_neg heq]
          exact h
      · exact h
  | hello => exact h
  | other => exact h

theorem Covered.receive (hdoc : env.Documented) (hs : Steady b) (h : Covered env b) {m : Record}
    (hcovers : Covers env b (.record m)) : Covered env (receive env t b m) := by
  unfold Bridge.receive
  split
  · exact h
  rename_i hopened
  split
  · exact h.disconnect
  rename_i hvalid
  split
  · exact h
  rename_i hheard
  have hheard : b.idling = false ∨ m.isLog = true := by
    cases hidle : b.idling
    · exact Or.inl rfl
    · exact Or.inr (by simpa [hidle] using hheard)
  have hhandle := h.handle (t := t) hdoc hs (by simpa using hopened) (by simpa using hvalid) hheard hcovers
  by_cases hok : (Bridge.handle env t b m).1 = true
  · simp only [hok, if_true]
    exact hhandle
  · simp only [hok]
    exact hhandle.disconnect

theorem Covered.step (hdoc : env.Documented) (hs : Steady b) (h : Covered env b) {e : Event}
    (hcovers : Covers env b e) : Covered env (step env t b e) := by
  cases e with
  | control r => exact h.control hdoc r
  | record m => exact h.receive hdoc hs hcovers
  | tick expired =>
      unfold Bridge.step
      simp only
      split
      · exact h.disconnect
      · exact h
  | hangup => exact h.disconnect
  | idle =>
      have hidle : Covered env { b with idling := true } := { h with }
      unfold Bridge.step
      simp only
      split
      · exact h
      split
      · exact hidle.offline
      · exact hidle
  | wanted => exact { h with }
  | spawn =>
      unfold Bridge.step
      simp only
      split
      · exact h
      · exact { h with }

/-! ### Every run -/

/-- A state record of an available receiver. -/
def available (s : Setpoint) : Record := ⟨true, .state true s⟩

/-- What the capabilities promise about the remembered setpoints. -/
structure Inside (env : Env) (b : Bridge) : Prop where
  /-- The desired setpoint of a receiver that is online, and the one queued, lie inside. -/
  setpoints : b.ready = true → b.online = true →
    b.desired = true ∧ fits env b.caps b.target = true ∧ ∀ s ∈ b.queued, fits env b.caps s = true
  /-- A state inside the capabilities is taken, and the child stays, unless the socket fails. -/
  welcome : ∀ t s, t.sends = true → env.recvValid (available s) = true → b.opened = true →
    b.hello = true → b.ready = true → fits env b.caps s = true →
      (handle env t b (available s)).1 = true ∧ (receive env t b (available s)).opened = true

theorem handle_available (hhello : b.hello = true) (hready : b.ready = true) :
    Bridge.handle env t b (available s) = Bridge.handleState env t b true s := by
  unfold Bridge.handle
  simp [available, hhello, hready]

/-- A bridge that takes a record of a receiver it hears keeps its child. -/
theorem handleState_opened (hopened : b.opened = true) (hok : (Bridge.handleState env t b true s).1 = true) :
    (Bridge.handleState env t b true s).2.opened = true := by
  unfold Bridge.handleState at hok ⊢
  rw [if_neg (by simp)] at hok ⊢
  split
  · exact hopened
  rename_i hfits
  rw [if_neg hfits] at hok
  simp only at hok ⊢
  split
  · exact hopened
  rename_i hd
  rw [if_neg hd] at hok
  split
  · rename_i hoff
    rw [if_pos hoff] at hok
    rcases sendSetting_cases env t { b with online := true } b.target none with
      ⟨heq, -⟩ | ⟨-, -, heq⟩ | ⟨-, -, -, -, heq⟩
    · rw [heq] at hok
      exact absurd hok (by simp)
    · rw [heq] at hok
      exact absurd hok (by simp)
    · rw [heq]
      exact hopened
  · exact hopened

theorem Covered.inside (hs : Steady b) (h : Covered env b) : Inside env b where
  setpoints := fun _ honline =>
    have hd := (hs.online honline).1
    ⟨hd, h.target hd, h.queued⟩
  welcome := by
    intro t s hsends hvalid hopened hhello hready hfits
    have htaken := h.handleState_taken hsends hready hfits
    rw [handle_available hhello hready]
    refine ⟨htaken, ?_⟩
    unfold Bridge.receive
    rw [if_neg (by simp [hopened]), if_neg (by simp [hvalid])]
    split
    · exact hopened
    · rw [handle_available hhello hready]
      simp only [htaken, if_true]
      exact handleState_opened hopened htaken

/-- As long as the child announces nothing less than the remembered setpoints need, and confirms
nothing that its announcements exclude, these stay inside and no reconnect fails for them. -/
theorem inside_run (hdoc : env.Documented) (hints : Caps) {es : List (Moment × Event)}
    (hcovers : Lib.Along (fun b e => step env e.1 b e.2) (fun b e => Covers env b e.2)
      (create hints) es) :
    Inside env (es.foldl (fun b e => step env e.1 b e.2) (create hints)) := by
  have hrun := hcovers.invariant (P := fun b => Steady b ∧ Covered env b)
    ⟨steady_create hints, covered_create env hints⟩
    fun b e h hc => ⟨h.1.step hdoc e.2, h.2.step hdoc h.1 hc⟩
  exact hrun.2.inside hrun.1

/-- A receiver that is tuned from 200 to 300 while its coverage changes to `caps`, confirms that,
and comes back at 500 once its child has been started again. -/
def returns (caps : Caps) : List Event :=
  found ++ [.control ⟨true, .frequency 300, false⟩, .record ⟨true, .capabilities (some caps)⟩,
    .record ⟨true, .result 1 true⟩, .hangup, .spawn, .record ⟨true, .hello⟩,
    .record ⟨true, .capabilities (some caps)⟩, .record (available ⟨500, "am"⟩)]

theorem inside_run_returns :
    Inside plain (settles (timed (returns ⟨200, 800, ["am"], by decide⟩))) :=
  inside_run plain_documented narrow
    ⟨trivial, fun _ => trivial, fun _ => ⟨by decide +kernel, by decide +kernel⟩, fun _ => trivial,
      trivial, fun _ => ⟨by decide +kernel, by decide +kernel⟩, fun _ _ _ => by decide +kernel,
      trivial, trivial, fun _ => trivial, fun _ => ⟨by decide +kernel, by decide +kernel⟩,
      fun _ => trivial, trivial⟩

theorem short_modes : ∀ m ∈ ["am", "usb"], m.utf8ByteSize < 16 := by decide

/-- A coverage that no longer has 200 in it. -/
def higher : Caps := ⟨300, 900, ["am", "usb"], short_modes⟩

/-- The child starts again, announces `higher` and says that the receiver is at 500. -/
def retries : List Event :=
  [.hangup, .spawn, .record ⟨true, .hello⟩, .record ⟨true, .capabilities (some higher)⟩]

/-- A receiver at 200 whose coverage becomes `higher`. -/
def refreshed : Bridge := settles (timed (found ++ [.record ⟨true, .capabilities (some higher)⟩]))

/-- A receiver at 200 whose child starts again with `higher`. -/
def restarted : Bridge := settles (timed (found ++ retries))

/-- The same, once more after a state at 500. -/
def restartedTwice : Bridge :=
  settles (timed (found ++ retries ++ .record (available ⟨500, "am"⟩) :: retries))

/-- Refreshed, the receiver is online outside of its coverage; started again, its child is
disconnected for a state inside of it, and so it is the next time. -/
theorem shrunk_refused :
    (refreshed.ready = true ∧ refreshed.online = true ∧
      fits plain refreshed.caps refreshed.target = false ∧ ¬ Inside plain refreshed) ∧
    (fits plain restarted.caps ⟨500, "am"⟩ = true ∧ restarted.opened = true ∧
      (receive plain ⟨9, true⟩ restarted (available ⟨500, "am"⟩)).opened = false ∧
        ¬ Inside plain restarted) ∧
    fits plain restartedTwice.caps ⟨500, "am"⟩ = true ∧ restartedTwice.opened = true ∧
      (receive plain ⟨19, true⟩ restartedTwice (available ⟨500, "am"⟩)).opened = false := by
  refine ⟨⟨by decide +kernel, by decide +kernel, by decide +kernel, fun h => ?_⟩,
    ⟨by decide +kernel, by decide +kernel, by decide +kernel, fun h => ?_⟩,
    by decide +kernel, by decide +kernel, by decide +kernel⟩
  · have htarget := (h.setpoints (by decide +kernel) (by decide +kernel)).2.1
    exact absurd htarget (by decide +kernel)
  · have htaken := h.welcome ⟨9, true⟩ ⟨500, "am"⟩ rfl rfl (by decide +kernel) (by decide +kernel)
      (by decide +kernel) (by decide +kernel)
    exact absurd htaken.2 (by decide +kernel)

end Bridge

end RustyRig
