/-
The setpoint that a control builds on is the last one accepted.

It is the queued one, else the pending, else the desired, and every step that moves one of
them moves it to where it is looked for next, with two exceptions.  A receiver that drops
takes its pending request with it: only what is queued becomes desired.  And a queued
setpoint is taken out of the queue before it is sent, so that a send that fails loses it.
`Kept` says that neither happens to a setpoint that is not the receiver's already.
-/
import RustyRig.Lib.Along
import RustyRig.Proofs.BridgeManager.Tuning

namespace RustyRig

namespace Bridge

variable {env : Env} {t : Moment} {b b' : Bridge} {s : Setpoint} {r : Control}

/-- The records after which the receiver of a pending request is gone. -/
def drops (env : Env) (b : Bridge) : Body → Bool
  | .hello => true
  | .log terminal => terminal
  | .capabilities caps => caps.isNone
  | .metadata ok => !ok
  | .heartbeat => false
  | .state available s => !available || !fits env b.caps s
  | .result request _ => request ≠ b.pending
  | .other => true

/-- The receiver of a pending request is gone after this. -/
def Drops (env : Env) (t : Moment) (b : Bridge) : Event → Prop
  | .control _ => False
  | .record m => env.recvValid m = false ∨
      (b.idling = false ∨ m.isLog = true) ∧ (m.named = false ∨ drops env b m.body = true)
  | .tick expired => b.deadline ≤ t.now ∨ expired = true
  | .hangup => True
  | .idle => b.idling = false
  | .wanted => False
  | .spawn => False

/-- Neither a pending setpoint nor a queued one is lost, unless the receiver has it already. -/
structure Kept (env : Env) (t : Moment) (b : Bridge) (e : Event) : Prop where
  pending : Drops env t b e → b.pending ≠ 0 → b.queued = none → b.requested = b.target
  queued : ∀ success, e = .record ⟨true, .result b.pending success⟩ →
    env.recvValid ⟨true, .result b.pending success⟩ = true → b.idling = false →
    ∀ s ∈ b.queued, s = (if success then b.requested else b.target) ∨
      t.sends = true ∧ fits env b.caps s = true

/-- A control builds on the last setpoint accepted. -/
def Newest (b : Bridge) : Prop := b.desired = true → base b = b.latest

theorem base_idle (hp : b.pending = 0) (hq : b.queued = none) : base b = b.target := by
  simp [base, hp, hq]

theorem kept_control : Kept env t b (.control r) where
  pending := False.elim
  queued := fun _ h => nomatch h

theorem kept_idle (hdoc : env.Documented) {e : Event} (hp : b.pending = 0) : Kept env t b e where
  pending := fun _ hp' => absurd hp hp'
  queued := fun success _ hvalid => absurd hp (hdoc.requests _ _ success hvalid rfl)

/-! ### One function at a time -/

theorem Newest.offline (hs : Steady b) (h : Newest b)
    (hkept : b.pending ≠ 0 → b.queued = none → b.requested = b.target) :
    Newest (offline env t b) := by
  have hbase : base (Bridge.offline env t b) = b.queued.getD b.target := by
    rw [offline_eq]
    split
    · simp [base, called, freed, dropped]
    · rename_i hp
      have hp : b.pending = 0 := not_not.mp hp
      simp [base, dropped, hp]
  have hdesired : (Bridge.offline env t b).desired = (b.desired || b.queued.isSome) := by
    rw [offline_eq]
    split <;> rfl
  have hlatest : (Bridge.offline env t b).latest = b.latest := by
    rw [offline_eq]
    split <;> rfl
  intro hd
  rw [hbase, hlatest]
  cases hq : b.queued with
  | some s =>
      have hp : b.pending ≠ 0 := hs.behind (by simp [hq])
      have hnewest := h (hs.online (hs.busy hp)).1
      rw [← hnewest]
      simp [base, hq]
  | none =>
      rw [hdesired, hq] at hd
      have hnewest := h (by simpa using hd)
      rw [← hnewest]
      by_cases hp : b.pending = 0
      · rw [base_idle hp hq]
        rfl
      · simp [base, hq, hp, hkept hp hq]

theorem Newest.disconnect (hs : Steady b) (h : Newest b)
    (hkept : b.pending ≠ 0 → b.queued = none → b.requested = b.target) :
    Newest (disconnect env t b) :=
  h.offline hs hkept

/-- A send that fails where nothing is pending. -/
theorem Newest.broken (hs : Steady b) (h : Newest b) (hp : b.pending = 0) : Newest (broken b) := by
  have hq := hs.queued_none hp
  intro hd
  have hd : b.desired = true := by simpa [Bridge.broken, closed, dropped, hq] using hd
  have hnewest := h hd
  rw [base_idle hp hq] at hnewest
  show base (Bridge.broken b) = b.latest
  rw [← hnewest]
  simp [Bridge.broken, closed, dropped, base, hp, hq]

/-- The newest setpoint is sent. -/
theorem Newest.sendSetting (hs : Steady b) (h : Newest b)
    (hshort : Short b.target) : Newest (sendSetting env t b b.target none).2 := by
  rcases sendSetting_cases env t b b.target none with ⟨heq, -⟩ | ⟨hp, -, heq⟩ |
      ⟨hp, -, hon, hfits, heq⟩
  · rw [heq]
    exact h
  · rw [heq]
    exact h.broken hs hp
  · rw [heq]
    intro hd
    have hnewest := h hd
    rw [base_idle hp (hs.queued_none hp)] at hnewest
    show base (requesting t b b.target none) = b.latest
    rw [← hnewest]
    simp [base, requesting, hs.queued_none hp, clipped_short hshort, bump_ne_zero]

/-- An accepted control is what the next one builds on. -/
theorem Newest.control (hdoc : env.Documented) (hs : Steady b) (h : Newest b) (r : Control) :
    Newest (control env t b r).2 := by
  rcases control_cases env t b r with ⟨-, heq⟩ | ⟨-, hp, -, heq⟩ |
      ⟨s, hs', -, hd, hfits, hp, -, -, heq⟩ | ⟨s, hs', -, -, hd, hfits, hp, heq⟩
  · rw [heq]
    exact h
  · rw [heq]
    exact h.broken hs hp
  · have hshort := short_of_fits hdoc hfits
    rw [heq]
    intro _
    rw [h hd] at hs'
    simp [base, accept, hs', clipped_short hshort]
  · have hshort := short_of_fits hdoc hfits
    rw [heq]
    intro _
    rw [h hd] at hs'
    simp [base, accept, requesting, hs.queued_none hp, hs', clipped_short hshort, bump_ne_zero]

theorem Newest.controls (hdoc : env.Documented) (rs : List Control) : ∀ {b : Bridge}, Steady b →
    Newest b → Newest (rs.foldl (fun b r => (Bridge.control env t b r).2) b) := by
  induction rs with
  | nil => exact fun _ h => h
  | cons r rs ih => exact fun hs h => ih (hs.control hdoc r) (h.control hdoc hs r)

/-- An answered request: its setpoint is the receiver's, or the receiver's is the newest. -/
theorem Newest.settled (hs : Steady b) (h : Newest b) (hp : b.pending ≠ 0) {success : Bool}
    (hq : ∀ s ∈ b.queued, s = (answered b success).target) :
    Newest { called (answered b success) (verdict success) with queued := none } := by
  intro _
  have hnewest := h (hs.online (hs.busy hp)).1
  show (answered b success).target = (answered b success).latest
  cases hb : b.queued with
  | some s =>
      have hs : s = b.latest := by simpa [base, hb] using hnewest
      rw [← hq s hb, hs]
      cases success <;> simp [answered, hb]
  | none =>
      cases success with
      | false => simp [answered, hb]
      | true => simpa [answered, base, hb, hp] using hnewest

theorem Newest.handleResult (hdoc : env.Documented) (hs : Steady b) (h : Newest b)
    (hp : b.pending ≠ 0) (success : Bool)
    (hkept : ∀ s ∈ b.queued, s = (answered b success).target ∨
      t.sends = true ∧ fits env b.caps s = true) :
    Newest (handleResult env t b b.pending success).2 := by
  have hsettled := hs.toSound.settled hp success
  obtain ⟨x, hx, ⟨rs, hq, rfl⟩ | ⟨s, hq, hst, rfl⟩ | ⟨s, hq, hst, rfl⟩⟩ :=
    handleResult_cases hdoc t hs hp success
  · rw [hx]
    refine Newest.controls hdoc rs hsettled (h.settled hs hp ?_)
    simp [hq]
  · rw [hx]
    refine h.settled hs hp fun x hx => ?_
    rw [hq] at hx
    rw [← Option.mem_some.mp hx]
    exact hst
  · rw [hx]
    obtain ⟨hsends, hfits⟩ := (hkept s hq).resolve_left hst
    have hup := hs.online (hs.busy hp)
    have hlatest : s = (answered b success).latest := by
      have hnewest := h hup.1
      cases success <;> simpa [answered, base, hq] using hnewest
    have hcaps : (answered b success).caps = b.caps := by
      cases success <;> rfl
    rcases sendSetting_cases env t
        { called (answered b success) (verdict success) with queued := none } s none with
      ⟨-, hrefused⟩ | ⟨-, hfails, -⟩ | ⟨-, -, -, -, heq⟩
    · refine absurd ⟨?_, ?_, rfl, ?_⟩ hrefused
      · simpa [called, freed] using hup.2.1
      · simpa [called, freed] using hs.busy hp
      · simpa [called, freed, hcaps] using hfits
    · exact absurd (hsends.symm.trans hfails) (by simp)
    · rw [heq]
      intro _
      show base (requesting t _ s none) = (answered b success).latest
      rw [← hlatest]
      simp [base, requesting, bump_ne_zero, clipped_short (short_of_fits hdoc hfits)]

theorem Newest.handleState (hdoc : env.Documented) (hs : Steady b) (h : Newest b)
    (hready : b.ready = true) (hhello : b.hello = true) (hopened : b.opened = true)
    (available : Bool) (hkept : available = false → b.pending ≠ 0 → b.queued = none →
      b.requested = b.target) :
    Newest (handleState env t b available s).2 ∧
      ((Bridge.handleState env t b available s).1 = false →
        (Bridge.handleState env t b available s).2.pending = 0 ∨
          fits env b.caps s = false ∧ (Bridge.handleState env t b available s).2 = b) := by
  unfold Bridge.handleState
  split
  · rename_i havailable
    exact ⟨h.offline hs (hkept (by simpa using havailable)), fun h => absurd h (by simp)⟩
  split
  · rename_i hfits
    exact ⟨h, fun _ => Or.inr ⟨by simpa using hfits, rfl⟩⟩
  rename_i hfits
  have hfits : fits env b.caps s = true := by simpa using hfits
  have hshort := short_of_fits hdoc hfits
  have hdown : b.desired = false → b.pending = 0 := fun hd => by
    by_contra hp
    exact absurd ((hs.online (hs.busy hp)).1.symm.trans hd) (by simp)
  split
  · rename_i hd
    have hd : b.desired = false := by simpa using hd
    refine ⟨fun _ => ?_, fun h => absurd h (by simp)⟩
    simp [base, hdown hd, hs.queued_none (hdown hd), clipped_short hshort]
  rename_i hd
  have hd : b.desired = true := by simpa using hd
  have hup := hs.up hd hready hhello hopened
  have hnewest : Newest { b with online := true } := fun _ => h hd
  split
  · have hsent : Newest (Bridge.sendSetting env t { b with online := true } b.target none).2 :=
      hnewest.sendSetting hup (hs.shortTarget hd)
    refine ⟨hsent, fun hfailed => Or.inl ?_⟩
    rename_i hoff
    have hp : b.pending = 0 := by
      simp only [Bool.and_eq_true, decide_eq_true_eq] at hoff
      exact hoff.2
    rcases sendSetting_cases env t { b with online := true } b.target none with
      ⟨heq, -⟩ | ⟨-, -, heq⟩ | ⟨-, -, -, -, heq⟩
    · rw [heq]
      exact hp
    · rw [heq]
      exact hp
    · rw [heq] at hfailed
      exact absurd hfailed (by simp)
  · exact ⟨hnewest, fun h => absurd h (by simp)⟩

/-! ### A record -/

/-- What may be lost with the receiver of a pending request. -/
def Spare (b : Bridge) : Prop := b.pending ≠ 0 → b.queued = none → b.requested = b.target

theorem spare_idle (hp : b.pending = 0) : Spare b := fun hp' => absurd hp hp'

theorem Newest.handle (hdoc : env.Documented) (hs : Steady b) (h : Newest b) {m : Record}
    (hopened : b.opened = true) (hvalid : env.recvValid m = true)
    (hheard : b.idling = false ∨ m.isLog = true) (hkept : Kept env t b (.record m)) :
    Newest (handle env t b m).2 ∧ ((Bridge.handle env t b m).1 = false →
      Spare (Bridge.handle env t b m).2) := by
  have hdrop : m.named = false ∨ drops env b m.body = true → Spare b :=
    fun hd => hkept.pending (Or.inr ⟨hheard, hd⟩)
  have hfresh : b.ready = false ∨ b.hello = false → Spare b := by
    intro hnot hp
    obtain ⟨-, hready, hhello, -⟩ := hs.online (hs.busy hp)
    rcases hnot with hnot | hnot
    · exact absurd (hready.symm.trans hnot) (by simp)
    · exact absurd (hhello.symm.trans hnot) (by simp)
  unfold Bridge.handle
  split
  · rename_i hnamed
    exact ⟨h, fun _ => hdrop (Or.inl (by simpa using hnamed))⟩
  rename_i hnamed
  have hnamed : m.named = true := by simpa using hnamed
  split
  · rename_i hhello
    split
    · exact ⟨h, fun h => absurd h (by simp)⟩
    · exact ⟨h, fun _ => hfresh (Or.inr (by simpa using hhello))⟩
  rename_i hhello
  have hhello : b.hello = true := by simpa using hhello
  cases hbody : m.body with
  | log terminal =>
      refine ⟨?_, fun h => absurd h (by simp)⟩
      cases terminal with
      | true => exact h.disconnect hs (hdrop (Or.inr (by simp [hbody, drops])))
      | false => exact h
  | capabilities caps =>
      cases caps with
      | none => exact ⟨h, fun _ => hdrop (Or.inr (by simp [hbody, drops]))⟩
      | some caps => exact ⟨h, fun h => absurd h (by simp [capabilities])⟩
  | metadata ok =>
      refine ⟨h, fun hno => ?_⟩
      cases ok with
      | false => exact hdrop (Or.inr (by simp [hbody, drops]))
      | true => exact hfresh (Or.inl (by simpa using hno))
  | heartbeat => exact ⟨h, fun hno => hfresh (Or.inl hno)⟩
  | state available s =>
      simp only
      split
      · rename_i hready
        have hstate := h.handleState (t := t) (s := s) hdoc hs hready hhello hopened available
          fun hno => hdrop (Or.inr (by simp [hbody, drops, hno]))
        refine ⟨hstate.1, fun hno => ?_⟩
        rcases hstate.2 hno with hp | ⟨hfits, heq⟩
        · exact spare_idle hp
        · rw [heq]
          exact hdrop (Or.inr (by simp [hbody, drops, hfits]))
      · rename_i hready
        exact ⟨h, fun _ => hfresh (Or.inl (by simpa using hready))⟩
  | result request success =>
      have hm : m = ⟨true, .result request success⟩ := by
        cases m
        simp_all
      have hrequest := hdoc.requests m request success hvalid hbody
      simp only
      split
      · by_cases heq : request = b.pending
        · subst heq
          have hheard : b.idling = false := by simpa [Record.isLog, hbody] using hheard
          have hqueued := hkept.queued success (by rw [hm]) (by rw [← hm]; exact hvalid) hheard
          obtain ⟨x, hx, -⟩ := handleResult_cases hdoc t hs hrequest success
          refine ⟨h.handleResult hdoc hs hrequest success ?_, fun hno => ?_⟩
          · intro s hs'
            rcases hqueued s hs' with heq | hsends
            · refine Or.inl (heq.trans ?_)
              cases success <;> rfl
            · exact Or.inr hsends
          · rw [hx] at hno
            exact absurd hno (by simp)
        · unfold Bridge.handleResult
          rw [if_neg heq]
          exact ⟨h, fun _ => hdrop (Or.inr (by simp [hbody, drops, heq]))⟩
      · rename_i hready
        exact ⟨h, fun _ => hfresh (Or.inl (by simpa using hready))⟩
  | hello => exact ⟨h, fun _ => hdrop (Or.inr (by simp [hbody, drops]))⟩
  | other => exact ⟨h, fun _ => hdrop (Or.inr (by simp [hbody, drops]))⟩

theorem Newest.receive (hdoc : env.Documented) (hs : Steady b) (h : Newest b) {m : Record}
    (hkept : Kept env t b (.record m)) : Newest (receive env t b m) := by
  unfold Bridge.receive
  split
  · exact h
  rename_i hopened
  split
  · rename_i hvalid
    exact h.disconnect hs (hkept.pending (Or.inl (by simpa using hvalid)))
  rename_i hvalid
  split
  · exact h
  rename_i hheard
  have hheard : b.idling = false ∨ m.isLog = true := by
    cases hidle : b.idling
    · exact Or.inl rfl
    · exact Or.inr (by simpa [hidle] using hheard)
  have hopened : b.opened = true := by simpa using hopened
  have hvalid : env.recvValid m = true := by simpa using hvalid
  have hhandle := h.handle hdoc hs hopened hvalid hheard hkept
  by_cases hok : (Bridge.handle env t b m).1 = true
  · simp only [hok, if_true]
    exact hhandle.1
  · simp only [hok]
    exact hhandle.1.disconnect (hs.handle hdoc hopened hvalid) (hhandle.2 (by simpa using hok))

theorem Newest.step (hdoc : env.Documented) (hs : Steady b) (h : Newest b) {e : Event}
    (hkept : Kept env t b e) : Newest (step env t b e) := by
  cases e with
  | control r => exact h.control hdoc hs r
  | record m => exact h.receive hdoc hs hkept
  | tick expired =>
      unfold Bridge.step
      simp only
      split
      · rename_i hover
        refine h.disconnect hs fun hp => ?_
        refine hkept.pending ?_ hp
        simp only [Bool.and_eq_true, Bool.or_eq_true, decide_eq_true_eq] at hover
        exact hover.2.imp (fun hd => hd.2) id
      · exact h
  | hangup => exact h.disconnect hs (hkept.pending trivial)
  | idle =>
      have hidle : Steady { b with idling := true } := { hs with }
      unfold Bridge.step
      simp only
      split
      · exact h
      rename_i hidling
      have hidling : b.idling = false := by simpa using hidling
      split
      · exact Newest.offline hidle h (hkept.pending hidling)
      · exact h
  | wanted => exact h
  | spawn =>
      unfold Bridge.step
      simp only
      split
      · exact h
      · exact h

/-! ### Every run -/

/-- What tuning through a bridge promises. -/
structure Tuned (env : Env) (b : Bridge) : Prop where
  /-- The callback of an accepted control has been called, or it waits for the pending request. -/
  once : b.accepted.Nodup ∧ b.accepted.Perm (b.completed.map Prod.fst ++ b.complete.toList)
  /-- It does not wait longer than the request may take. -/
  due : ∀ t expired, b.deadline ≤ t.now → (step env t b (.tick expired)).accepted.Perm
    ((step env t b (.tick expired)).completed.map Prod.fst)
  /-- A callback belongs to one request, and hears of success if the receiver has confirmed that. -/
  confirmed : b.sent.filterMap (fun q => q.2.2) = b.accepted ∧
    ∀ n, (n, Result.ok) ∈ b.completed → ∃ q ∈ b.acked, q ∈ b.sent ∧ q.2.2 = some n
  /-- At most the last request is not answered or given up. -/
  serial : b.sent.map Prod.fst = b.settled ++ if b.pending ≠ 0 then [b.pending] else []
  composed : ∀ t r, (control env t b r).1 = .pending → ∃ s, r.change.apply b.latest = some s ∧
    base (control env t b r).2 = s ∧ (control env t b r).2.latest = s
  restored : ∀ t s, b.online = false → b.desired = true → fits env b.caps s = true →
    handleState env t b true s = sendSetting env t { b with online := true } b.latest none

theorem disconnect_complete (h : Sound b) : (disconnect env t b).complete = none := by
  show (offline env t b).complete = none
  rw [offline_eq]
  split
  · rfl
  · rename_i hp
    exact h.free (not_not.mp hp)

/-- No callback waits beyond the deadline of its request. -/
theorem Steady.due (hdoc : env.Documented) (h : Steady b) (hlate : b.deadline ≤ t.now)
    (expired : Bool) :
    (Bridge.step env t b (.tick expired)).accepted.Perm
      ((Bridge.step env t b (.tick expired)).completed.map Prod.fst) := by
  have hnone : (Bridge.step env t b (.tick expired)).complete = none := by
    unfold Bridge.step
    simp only
    split
    · exact disconnect_complete h.toSound
    · rename_i hover
      by_cases hp : b.pending = 0
      · exact h.free hp
      · have hopened := (h.online (h.busy hp)).2.2.2
        exact absurd (by simp [hopened, hp, hlate]) hover
  have hbooked := (h.step (t := t) hdoc (.tick expired)).booked
  rw [hnone, Option.toList_none, List.append_nil] at hbooked
  exact hbooked

theorem Newest.composed (hdoc : env.Documented) (hs : Steady b) (h : Newest b)
    (haccepted : (Bridge.control env t b r).1 = .pending) :
    ∃ s, r.change.apply b.latest = some s ∧ base (Bridge.control env t b r).2 = s ∧
      (Bridge.control env t b r).2.latest = s := by
  have hnewest := h.control (t := t) hdoc hs r
  rcases control_cases env t b r with ⟨hrefused, -⟩ | ⟨-, -, hrefused, -⟩ |
      ⟨s, hs', -, hd, -, -, -, -, heq⟩ | ⟨s, hs', -, -, hd, -, -, heq⟩
  · exact absurd haccepted hrefused
  · exact absurd haccepted hrefused
  all_goals
    rw [h hd] at hs'
    rw [heq] at hnewest ⊢
    have hlatest : (r.change.apply b.latest).getD b.latest = s := by rw [hs']; rfl
    exact ⟨s, hs', (hnewest hd).trans hlatest, hlatest⟩

/-- A receiver that comes back is sent the newest setpoint. -/
theorem Newest.restored (hs : Steady b) (h : Newest b) (hoff : b.online = false)
    (hd : b.desired = true) (hfits : fits env b.caps s = true) :
    Bridge.handleState env t b true s =
      Bridge.sendSetting env t { b with online := true } b.latest none := by
  have hp : b.pending = 0 := by
    by_contra hp
    exact absurd ((hs.busy hp).symm.trans hoff) (by simp)
  have hnewest := h hd
  rw [base_idle hp (hs.queued_none hp)] at hnewest
  unfold Bridge.handleState
  simp [hfits, hd, hoff, hp, hnewest]

/-- As long as neither a pending nor a queued setpoint is lost, the newest one is what controls build
on and what a reconnect restores, and every callback is called once. -/
theorem tuned_run (hdoc : env.Documented) (hints : Caps) {es : List (Moment × Event)}
    (hkept : Lib.Along (fun b e => step env e.1 b e.2) (fun b e => Kept env e.1 b e.2)
      (create hints) es) :
    Tuned env (es.foldl (fun b e => step env e.1 b e.2) (create hints)) := by
  have hrun := hkept.invariant (P := fun b => Steady b ∧ Newest b)
    ⟨steady_create hints, fun hd => absurd hd (by simp [create])⟩
    fun b e h hk => ⟨h.1.step hdoc e.2, h.2.step hdoc h.1 hk⟩
  obtain ⟨hs, h⟩ := hrun
  exact
    { once := ⟨hs.nodup, hs.booked⟩
      due := fun _ expired hlate => hs.due hdoc hlate expired
      confirmed := ⟨hs.carried, fun n hn => by
        obtain ⟨q, hq, hcall⟩ := hs.confirmed n hn
        exact ⟨q, hq, hs.acked hq, hcall⟩⟩
      serial := hs.serial
      composed := fun _ _ haccepted => h.composed hdoc hs haccepted
      restored := fun _ _ hoff hd hfits => h.restored hs hoff hd hfits }

/-- A record library that checks what it documents, and callbacks that ask for nothing. -/
def plain : Env where
  recvValid m := match m.body with
    | .result request _ => request ≠ 0
    | _ => true
  modeValid := List.contains
  react _ _ := []

theorem plain_documented : plain.Documented where
  modes _ _ h := List.elem_iff.mp h
  requests m request success h hbody := by simpa [plain, hbody] using h

/-- A receiver between 100 and 900. -/
def narrow : Caps := ⟨100, 900, ["am", "usb"], by decide⟩

/-- A child that starts. -/
def starts : List Event :=
  [.spawn, .record ⟨true, .hello⟩, .record ⟨true, .capabilities (some narrow)⟩]

/-- A bridge whose receiver is found at 200. -/
def found : List Event := starts ++ [.record ⟨true, .state true ⟨200, "am"⟩⟩]

/-- One event a microsecond, with a socket that takes what it is given. -/
def timed (es : List Event) : List (Moment × Event) :=
  es.zipIdx.map fun e => (⟨e.2, true⟩, e.1)

def settles (es : List (Moment × Event)) : Bridge :=
  es.foldl (fun b e => step plain e.1 b e.2) (create narrow)

/-- Tuned to 300, then twice more while that is pending; the last mode is queued when the receiver
goes away. -/
def dialled : List Event :=
  found ++ [.control ⟨true, .frequency 300, false⟩, .control ⟨true, .frequency 310, false⟩,
    .control ⟨true, .mode "usb", false⟩, .record ⟨true, .state false ⟨0, ""⟩⟩]

theorem tuned_run_dialled : Tuned plain (settles (timed dialled)) :=
  tuned_run plain_documented narrow
    ⟨kept_idle plain_documented (by decide +kernel),
      kept_idle plain_documented (by decide +kernel),
      kept_idle plain_documented (by decide +kernel),
      kept_idle plain_documented (by decide +kernel),
      kept_control, kept_control, kept_control,
      ⟨fun _ _ hq => absurd hq (by decide +kernel), fun _ h => nomatch h⟩, trivial⟩

/-- Tuned to 300, which is pending when the receiver goes away. -/
def fell : List (Moment × Event) :=
  timed (found ++ [.control ⟨true, .frequency 300, false⟩, .record ⟨true, .state false ⟨0, ""⟩⟩])

/-- Tuned to 300 and then to 310, which cannot be sent once the first is answered; the child starts
again. -/
def blocked : List (Moment × Event) :=
  timed (found ++ [.control ⟨true, .frequency 300, false⟩, .control ⟨true, .frequency 310, false⟩]) ++
    (⟨9, false⟩, .record ⟨true, .result 1 true⟩) :: timed starts

/-- A setpoint that is pending when the receiver goes away is not what a reconnect restores, and one
that is queued is lost when it cannot be sent. -/
theorem tuned_loses :
    ((settles fell).latest = ⟨300, "am"⟩ ∧ (settles fell).target = ⟨200, "am"⟩ ∧
      ¬ Tuned plain (settles fell)) ∧
    (settles blocked).latest = ⟨310, "am"⟩ ∧ (settles blocked).target = ⟨300, "am"⟩ ∧
      ¬ Tuned plain (settles blocked) := by
  refine ⟨⟨by decide +kernel, by decide +kernel, fun h => ?_⟩,
    by decide +kernel, by decide +kernel, fun h => ?_⟩
  · have hrestored := h.restored ⟨10, true⟩ ⟨200, "am"⟩ (by decide +kernel) (by decide +kernel)
      (by decide +kernel)
    exact absurd (congrArg (fun x => x.2.requested) hrestored) (by decide +kernel)
  · have hrestored := h.restored ⟨10, true⟩ ⟨200, "am"⟩ (by decide +kernel) (by decide +kernel)
      (by decide +kernel)
    exact absurd (congrArg (fun x => x.2.requested) hrestored) (by decide +kernel)

end Bridge

end RustyRig
