/-
Tuning is last-writer-wins, and every callback is called once.

`Sound` holds throughout, `Steady` wherever no result is being handled.  On top of them the
setpoint that a control builds on is the last one accepted, as long as the receiver does
not drop while the last one accepted is pending, and what is queued behind a pending
request can be sent once that is answered.  Where either fails the newest setpoint is
lost: only a queued one is kept when the receiver drops, and it is taken out of the queue
before it is sent.
-/
import RustyRig.Lib.Along
import RustyRig.Proofs.BridgeManager.Steps

namespace RustyRig

namespace Bridge

variable {env : Env} {t : Moment} {b b' : Bridge} {s : Setpoint} {r : Control}

/-- What holds of a bridge at any time. -/
structure Sound (b : Bridge) : Prop where
  /-- The pending request is the last one sent. -/
  last : b.pending ≠ 0 → b.sent.getLast? = some (b.pending, b.requested, b.complete)
  free : b.pending = 0 → b.complete = none
  single : b.queued.isSome = true → b.complete = none
  online : b.online = true →
    b.desired = true ∧ b.ready = true ∧ b.hello = true ∧ b.opened = true
  shortTarget : b.desired = true → Short b.target
  shortRequested : b.pending ≠ 0 → Short b.requested
  shortQueued : ∀ s ∈ b.queued, Short s
  serial : b.sent.map Prod.fst = b.settled ++ if b.pending ≠ 0 then [b.pending] else []
  fresh : ∀ n ∈ b.accepted, n < b.nextToken
  nodup : b.accepted.Nodup
  booked : b.accepted.Perm (b.completed.map Prod.fst ++ b.complete.toList)
  carried : b.sent.filterMap (fun q => q.2.2) = b.accepted
  acked : b.acked ⊆ b.sent
  confirmed : ∀ n, (n, Result.ok) ∈ b.completed → ∃ q ∈ b.acked, q.2.2 = some n

/-- What holds where no result is being handled. -/
structure Steady (b : Bridge) : Prop extends Sound b where
  busy : b.pending ≠ 0 → b.online = true
  behind : b.queued.isSome = true → b.pending ≠ 0

theorem steady_create (hints : Caps) : Steady (create hints) where
  last := fun h => absurd rfl h
  free := fun _ => rfl
  single := fun _ => rfl
  online := fun h => absurd h (by simp [create])
  shortTarget := fun h => absurd h (by simp [create])
  shortRequested := fun h => absurd rfl h
  shortQueued := by simp [create]
  serial := rfl
  fresh := by simp [create]
  nodup := List.nodup_nil
  booked := List.Perm.refl _
  carried := rfl
  acked := List.Subset.refl _
  confirmed := by simp [create]
  busy := fun h => absurd rfl h
  behind := fun h => absurd h (by simp [create])

theorem Steady.queued_none (h : Steady b) (hp : b.pending = 0) : b.queued = none := by
  cases hq : b.queued with
  | none => rfl
  | some s => exact absurd hp (h.behind (by simp [hq]))

/-! ### The end of a request -/

theorem Sound.called (h : Sound b) {result : Result}
    (hack : result = .ok → (b.pending, b.requested, b.complete) ∈ b.acked) :
    Sound (called b result) where
  last := fun hp => absurd rfl hp
  free := fun _ => rfl
  single := fun _ => rfl
  online := h.online
  shortTarget := h.shortTarget
  shortRequested := fun hp => absurd rfl hp
  shortQueued := h.shortQueued
  serial := by
    have hserial := h.serial
    by_cases hp : b.pending = 0
    · simpa [Bridge.called, freed, hp] using hserial
    · simpa [Bridge.called, freed, hp] using hserial
  fresh := h.fresh
  nodup := h.nodup
  booked := by
    have hbooked := h.booked
    have hmap : (b.completed ++ b.complete.toList.map fun token => (token, result)).map Prod.fst =
        b.completed.map Prod.fst ++ b.complete.toList := by
      rw [List.map_append, List.map_map]
      congr 1
      exact List.map_id'' (fun _ => rfl) _
    show b.accepted.Perm ((b.completed ++
      b.complete.toList.map fun token => (token, result)).map Prod.fst ++ [])
    rw [hmap, List.append_nil]
    exact hbooked
  carried := h.carried
  acked := h.acked
  confirmed := by
    intro n hn
    rcases List.mem_append.mp hn with hn | hn
    · exact h.confirmed n hn
    · obtain ⟨token, htoken, heq⟩ := List.mem_map.mp hn
      obtain ⟨rfl, hok⟩ := Prod.mk.inj heq
      exact ⟨_, hack hok, by simpa using htoken⟩

theorem Sound.dropped (h : Sound b) : Sound (dropped b) where
  last := h.last
  free := h.free
  single := fun hq => absurd hq (by simp [Bridge.dropped])
  online := fun hon => absurd hon (by simp [Bridge.dropped])
  shortTarget := by
    intro hd
    show Short (b.queued.getD b.target)
    cases hq : b.queued with
    | none =>
        refine h.shortTarget ?_
        simpa [Bridge.dropped, hq] using hd
    | some s => exact h.shortQueued s hq
  shortRequested := h.shortRequested
  shortQueued := by simp [Bridge.dropped]
  serial := h.serial
  fresh := h.fresh
  nodup := h.nodup
  booked := h.booked
  carried := h.carried
  acked := h.acked
  confirmed := h.confirmed

/-- Closing the connection of a bridge that is offline. -/
theorem Steady.closing (h : Steady b) (hoff : b.online = false) :
    Steady { b with opened := false, hello := false, ready := false } :=
  { h with online := fun hon => absurd (hon.symm.trans hoff) (by simp) }

theorem offline_idle (env : Env) (t : Moment) (b : Bridge) :
    (offline env t b).online = false ∧ (offline env t b).queued = none := by
  rw [offline_eq]
  split <;> exact ⟨rfl, rfl⟩

theorem Sound.offline (h : Sound b) : Steady (offline env t b) := by
  rw [offline_eq]
  split
  · exact { h.dropped.called (by simp) with
      busy := fun hp => absurd rfl hp
      behind := fun hq => absurd hq (by simp [Bridge.called, freed, Bridge.dropped]) }
  · rename_i hp
    exact { h.dropped with
      busy := fun hp' => absurd hp' hp
      behind := fun hq => absurd hq (by simp [Bridge.dropped]) }

theorem Sound.disconnect (h : Sound b) : Steady (disconnect env t b) :=
  h.offline.closing (offline_idle env t b).1

/-! ### Sending -/

theorem Steady.broken (h : Steady b) (hp : b.pending = 0) : Steady (broken b) := by
  have hd : Sound (Bridge.dropped b) := h.toSound.dropped
  exact { hd with
    online := fun hon => absurd hon (by simp [Bridge.broken, closed, Bridge.dropped])
    busy := fun hp' => absurd hp hp'
    behind := fun hq => absurd hq (by simp [Bridge.broken, closed, Bridge.dropped]) }

/-- A request without a callback. -/
theorem Steady.requesting (hdoc : env.Documented) (h : Steady b) (hp : b.pending = 0)
    (hon : b.online = true) (hfits : fits env b.caps s = true) : Steady (requesting t b s none) := by
  have hshort := short_of_fits hdoc hfits
  have hfree := h.free hp
  refine { h with
    last := fun _ => by simp [Bridge.requesting, clipped_short hshort]
    free := fun _ => rfl
    single := fun _ => rfl
    shortRequested := fun _ => by
      show Short (clipped s)
      rw [clipped_short hshort]
      exact hshort
    serial := ?_
    booked := ?_
    carried := ?_
    acked := List.subset_append_of_subset_left _ h.acked
    busy := fun _ => hon
    behind := fun _ => bump_ne_zero _ }
  · have hserial := h.serial
    rw [hp] at hserial
    have hb : bump b.nextRequest ≠ 0 := bump_ne_zero _
    simpa [Bridge.requesting, hb] using hserial
  · have hbooked := h.booked
    rw [hfree] at hbooked
    exact hbooked
  · show (b.sent ++ [(bump b.nextRequest, s, none)]).filterMap _ = b.accepted
    rw [List.filterMap_append, h.carried]
    exact List.append_nil _

/-- What is accepted without a callback is in nobody's books. -/
theorem Steady.accept (h : Steady b) (hr : r.complete = false) : Steady (accept b r) :=
  { h with
    fresh := fun n hn => by
      have hn : n ∈ b.accepted := by simpa [Bridge.accept, hr] using hn
      exact Nat.lt_succ_of_lt (h.fresh n hn)
    nodup := by simpa [Bridge.accept, hr] using h.nodup
    booked := by simpa [Bridge.accept, hr] using h.booked
    carried := by simpa [Bridge.accept, hr] using h.carried }

/-- A request with a callback, which is accepted with it. -/
theorem Steady.calling (hdoc : env.Documented) (h : Steady b) (hp : b.pending = 0)
    (hon : b.online = true) (hfits : fits env b.caps s = true) (hr : r.complete = true) :
    Steady (Bridge.accept (Bridge.requesting t b s (some b.nextToken)) r) := by
  have hsent := h.requesting (t := t) hdoc hp hon hfits
  have hnew : b.nextToken ∉ b.accepted := fun hn => absurd (h.fresh _ hn) (Nat.lt_irrefl _)
  have hshort := short_of_fits hdoc hfits
  refine { hsent with
    last := fun _ => by simp [Bridge.accept, Bridge.requesting, clipped_short hshort]
    free := fun hp' => absurd hp' (bump_ne_zero _)
    single := fun hq => ?_
    serial := ?_
    fresh := fun n hn => ?_
    nodup := ?_
    booked := ?_
    carried := ?_
    acked := List.subset_append_of_subset_left _ h.acked }
  · rw [show (Bridge.accept (Bridge.requesting t b s (some b.nextToken)) r).queued = b.queued from rfl,
      h.queued_none hp] at hq
    exact absurd hq (by simp)
  · have hserial := h.serial
    rw [hp] at hserial
    have hb : bump b.nextRequest ≠ 0 := bump_ne_zero _
    simpa [Bridge.accept, Bridge.requesting, hb] using hserial
  · have hn : n ∈ b.accepted ++ [b.nextToken] := by
      simpa [Bridge.accept, Bridge.requesting, hr] using hn
    show n < b.nextToken + 1
    rcases List.mem_append.mp hn with hn | hn
    · exact Nat.lt_succ_of_lt (h.fresh n hn)
    · rw [List.mem_singleton.mp hn]
      exact Nat.lt_succ_self _
  · have hnodup : (b.accepted ++ [b.nextToken]).Nodup := by
      refine List.nodup_append.mpr ⟨h.nodup, by simp, fun a ha c hc => ?_⟩
      rw [List.mem_singleton.mp hc]
      rintro rfl
      exact hnew ha
    simpa [Bridge.accept, Bridge.requesting, hr] using hnodup
  · have hbooked := h.booked
    rw [h.free hp, Option.toList_none, List.append_nil] at hbooked
    simpa [Bridge.accept, Bridge.requesting, hr] using hbooked.append_right [b.nextToken]
  · have hcarried : (b.sent ++ [(bump b.nextRequest, s, some b.nextToken)]).filterMap (fun q => q.2.2) =
        b.accepted ++ [b.nextToken] := by
      rw [List.filterMap_append, h.carried]
      rfl
    simpa [Bridge.accept, Bridge.requesting, hr] using hcarried

/-- A setpoint that goes behind the pending request. -/
theorem Steady.queue (hdoc : env.Documented) (h : Steady b) (hp : b.pending ≠ 0)
    (hc : b.complete = none) (hfits : fits env b.caps s = true) :
    Steady { b with queued := some (clipped s) } :=
  { h with
    single := fun _ => hc
    shortQueued := fun x hx => by
      have hshort := short_of_fits hdoc hfits
      rw [← Option.mem_some.mp hx, clipped_short hshort]
      exact hshort
    behind := fun _ => hp }

theorem Steady.control (hdoc : env.Documented) (h : Steady b) (r : Control) :
    Steady (control env t b r).2 := by
  rcases control_cases env t b r with ⟨-, heq⟩ | ⟨-, hp, -, heq⟩ |
      ⟨s, -, -, -, hfits, hp, hc, hr, heq⟩ | ⟨s, -, hon, -, -, hfits, hp, heq⟩
  · rw [heq]
    exact h
  · rw [heq]
    exact h.broken hp
  · rw [heq]
    exact (h.accept hr).queue hdoc hp hc hfits
  · rw [heq]
    cases hr : r.complete with
    | false =>
        simp only [Bool.false_eq_true, if_false]
        exact (h.requesting hdoc hp hon hfits).accept hr
    | true =>
        simp only [if_true]
        exact h.calling hdoc hp hon hfits hr

theorem Steady.controls (hdoc : env.Documented) (rs : List Control) : ∀ {b : Bridge}, Steady b →
    Steady (rs.foldl (fun b r => (Bridge.control env t b r).2) b) := by
  induction rs with
  | nil => exact fun h => h
  | cons r rs ih => exact fun h => ih (h.control hdoc r)

/-! ### A result -/

/-- The bridge with the receiver's answer to its request, before the request is over. -/
def answered (b : Bridge) (success : Bool) : Bridge :=
  if success then
    { b with
      target := b.requested
      acked := b.acked ++ [(b.pending, b.requested, b.complete)] }
  else { b with latest := if b.queued.isNone then b.target else b.latest }

/-- What the callback of an answered request is called with. -/
def verdict (success : Bool) : Result := if success then .ok else .backendFailed

@[simp] theorem answered_pending (b : Bridge) (success : Bool) :
    (answered b success).pending = b.pending := by
  cases success <;> rfl

@[simp] theorem answered_queued (b : Bridge) (success : Bool) :
    (answered b success).queued = b.queued := by
  cases success <;> rfl

@[simp] theorem answered_complete (b : Bridge) (success : Bool) :
    (answered b success).complete = b.complete := by
  cases success <;> rfl

@[simp] theorem answered_online (b : Bridge) (success : Bool) :
    (answered b success).online = b.online := by
  cases success <;> rfl

@[simp] theorem answered_ready (b : Bridge) (success : Bool) :
    (answered b success).ready = b.ready := by
  cases success <;> rfl

theorem Sound.answered (h : Sound b) (hp : b.pending ≠ 0) (success : Bool) :
    Sound (answered b success) := by
  cases success with
  | false => exact { h with }
  | true =>
      refine { h with
        shortTarget := fun _ => h.shortRequested hp
        acked := ?_
        confirmed := fun n hn => ?_ }
      · intro q hq
        rcases List.mem_append.mp hq with hq | hq
        · exact h.acked hq
        · rw [List.mem_singleton.mp hq]
          exact List.mem_of_getLast? (h.last hp)
      · obtain ⟨q, hq, hn⟩ := h.confirmed n hn
        exact ⟨q, List.mem_append_left _ hq, hn⟩

/-- An answered request is over, and nothing is left in the queue. -/
theorem Sound.settled (h : Sound b) (hp : b.pending ≠ 0) (success : Bool) :
    Steady { Bridge.called (Bridge.answered b success) (verdict success) with queued := none } := by
  have hack : verdict success = .ok →
      ((Bridge.answered b success).pending, (Bridge.answered b success).requested,
        (Bridge.answered b success).complete) ∈ (Bridge.answered b success).acked := by
    cases success with
    | false => exact fun h => absurd h (by simp [verdict])
    | true => exact fun _ => List.mem_append_right _ (List.mem_singleton_self _)
  exact { (h.answered hp success).called hack with
    single := fun hq => absurd hq (by simp)
    shortQueued := by simp
    busy := fun hp' => absurd rfl hp'
    behind := fun hq => absurd hq (by simp) }

/-- A queue is flushed only once its request is over. -/
theorem Steady.flush_eq (h : Steady b) : flush env t b = b := by
  unfold flush
  cases hq : b.queued with
  | none => rfl
  | some s =>
      have hp : b.pending ≠ 0 := h.behind (by simp [hq])
      simp [hp]

/-- An answered request is over: its callback takes what it asks for, or the setpoint queued behind
the request is sent, unless the receiver is there already. -/
theorem handleResult_cases (hdoc : env.Documented) (t : Moment) (h : Steady b) (hp : b.pending ≠ 0)
    (success : Bool) :
    ∃ x, handleResult env t b b.pending success = (true, x) ∧
      ((∃ rs : List Control, b.queued = none ∧
          x = rs.foldl (fun b r => (control env t b r).2)
            { called (answered b success) (verdict success) with queued := none }) ∨
        (∃ s, b.queued = some s ∧ s = (answered b success).target ∧
          x = { called (answered b success) (verdict success) with queued := none }) ∨
        ∃ s, b.queued = some s ∧ s ≠ (answered b success).target ∧
          x = (sendSetting env t
            { called (answered b success) (verdict success) with queued := none } s none).2) := by
  have heq : handleResult env t b b.pending success =
      (true, flush env t (finish env t (verdict success) (answered b success))) := by
    unfold handleResult
    rw [if_pos rfl]
    rfl
  refine ⟨_, heq, ?_⟩
  cases hq : b.queued with
  | none =>
      left
      have hsame : called (answered b success) (verdict success) =
          { called (answered b success) (verdict success) with queued := none } := by
        have hq' : (called (answered b success) (verdict success)).queued = none := by
          simp [called, freed, hq]
        exact congrArg (fun q =>
          { called (answered b success) (verdict success) with queued := q }) hq'
      have hsettled := h.toSound.settled hp success
      cases hc : b.complete with
      | none =>
          refine ⟨[], rfl, ?_⟩
          rw [finish_none _ (by rw [answered_complete, hc]),
            ← called_none (verdict success) (by rw [answered_complete, hc]), hsame]
          exact hsettled.flush_eq
      | some token =>
          refine ⟨env.react token (verdict success), rfl, ?_⟩
          rw [finish_some _ (by rw [answered_complete, hc]), hsame]
          exact (hsettled.controls hdoc _).flush_eq
  | some s =>
      have hcall : (answered b success).complete = none := by
        rw [answered_complete]
        exact h.single (by simp [hq])
      have hup := h.online (h.busy hp)
      rw [finish_none _ hcall, ← called_none (verdict success) hcall]
      have hflush : flush env t (called (answered b success) (verdict success)) =
          if s ≠ (answered b success).target then
            (sendSetting env t
              { called (answered b success) (verdict success) with queued := none } s none).2
          else { called (answered b success) (verdict success) with queued := none } := by
        have hq' : (called (answered b success) (verdict success)).queued = some s := by
          simp [called, freed, hq]
        unfold flush
        rw [hq']
        simp only
        rw [if_pos (by simp [called, freed, h.busy hp, hup.2.1])]
        rfl
      rw [hflush]
      by_cases hs : s = (answered b success).target
      · exact Or.inr (Or.inl ⟨s, rfl, hs, by rw [if_neg (not_not.mpr hs)]⟩)
      · exact Or.inr (Or.inr ⟨s, rfl, hs, by rw [if_pos hs]⟩)

/-! ### Every step -/

theorem Steady.sendSetting (hdoc : env.Documented) (h : Steady b) :
    Steady (sendSetting env t b s none).2 := by
  rcases sendSetting_cases env t b s none with ⟨heq, -⟩ | ⟨hp, -, heq⟩ | ⟨hp, -, hon, hfits, heq⟩
  · rw [heq]
    exact h
  · rw [heq]
    exact h.broken hp
  · rw [heq]
    exact h.requesting hdoc hp hon hfits

theorem Steady.handleResult (hdoc : env.Documented) (h : Steady b) {request : Nat}
    (hrequest : request ≠ 0) (success : Bool) :
    Steady (handleResult env t b request success).2 := by
  by_cases heq : request = b.pending
  · subst heq
    have hsettled := h.toSound.settled hrequest success
    obtain ⟨x, hx, ⟨rs, -, rfl⟩ | ⟨s, -, -, rfl⟩ | ⟨s, -, -, rfl⟩⟩ :=
      handleResult_cases hdoc t h hrequest success
    · rw [hx]
      exact hsettled.controls hdoc rs
    · rw [hx]
      exact hsettled
    · rw [hx]
      exact hsettled.sendSetting hdoc
  · unfold Bridge.handleResult
    rw [if_neg heq]
    exact h

/-- The receiver is there, and the bridge knows what it wants of it. -/
theorem Steady.up (h : Steady b) (hd : b.desired = true) (hready : b.ready = true)
    (hhello : b.hello = true) (hopened : b.opened = true) : Steady { b with online := true } :=
  { h with
    online := fun _ => ⟨hd, hready, hhello, hopened⟩
    busy := fun _ => rfl }

/-- The receiver's own setpoint is the first to be desired. -/
theorem Steady.found (hdoc : env.Documented) (h : Steady b) (hready : b.ready = true)
    (hhello : b.hello = true) (hopened : b.opened = true) (hfits : fits env b.caps s = true) :
    Steady { b with online := true, desired := true, target := clipped s, latest := s } :=
  { h with
    online := fun _ => ⟨rfl, hready, hhello, hopened⟩
    shortTarget := fun _ => by
      have hshort := short_of_fits hdoc hfits
      show Short (clipped s)
      rw [clipped_short hshort]
      exact hshort
    busy := fun _ => rfl }

theorem Steady.handleState (hdoc : env.Documented) (h : Steady b) (hready : b.ready = true)
    (hhello : b.hello = true) (hopened : b.opened = true) (available : Bool) :
    Steady (handleState env t b available s).2 := by
  unfold Bridge.handleState
  split
  · exact h.toSound.offline
  split
  · exact h
  rename_i hfits
  have hfits : fits env b.caps s = true := by simpa using hfits
  split
  · have hfound := h.found hdoc hready hhello hopened hfits
    exact hfound
  rename_i hd
  have hup := h.up (by simpa using hd) hready hhello hopened
  split
  · exact hup.sendSetting hdoc
  · exact hup

theorem Steady.capabilities (h : Steady b) : ∀ c, Steady (capabilities b c).2
  | none => h
  | some _ => { h with
      online := fun hon => by
        obtain ⟨hd, -, hhello, hopened⟩ := h.online hon
        exact ⟨hd, rfl, hhello, hopened⟩ }

theorem Steady.handle (hdoc : env.Documented) (h : Steady b) (hopened : b.opened = true) {m : Record}
    (hvalid : env.recvValid m = true) : Steady (handle env t b m).2 := by
  unfold Bridge.handle
  split
  · exact h
  split
  · split
    · exact { h with
        online := fun hon => by
          obtain ⟨hd, hready, -, hopened⟩ := h.online hon
          exact ⟨hd, hready, rfl, hopened⟩ }
    · exact h
  rename_i hhello
  have hhello : b.hello = true := by simpa using hhello
  split
  · split
    · exact h.toSound.disconnect
    · exact h
  · exact h.capabilities _
  · exact h
  · exact h
  · split
    · rename_i hready
      exact h.handleState hdoc hready hhello hopened _
    · exact h
  · rename_i request success hbody
    split
    · exact h.handleResult hdoc (hdoc.requests m request success hvalid hbody) success
    · exact h
  · exact h

theorem Steady.receive (hdoc : env.Documented) (h : Steady b) (m : Record) :
    Steady (receive env t b m) := by
  unfold Bridge.receive
  split
  · exact h
  rename_i hopened
  split
  · exact h.toSound.disconnect
  rename_i hvalid
  split
  · exact h
  have hhandle := h.handle (t := t) hdoc (by simpa using hopened) (m := m) (by simpa using hvalid)
  by_cases hok : (Bridge.handle env t b m).1 = true
  · simp only [hok, if_true]
    exact hhandle
  · simp only [hok]
    exact hhandle.toSound.disconnect

theorem Steady.step (hdoc : env.Documented) (h : Steady b) (e : Event) : Steady (step env t b e) := by
  cases e with
  | control r => exact h.control hdoc r
  | record m => exact h.receive hdoc m
  | tick expired =>
      unfold Bridge.step
      simp only
      split
      · exact h.toSound.disconnect
      · exact h
  | hangup => exact h.toSound.disconnect
  | idle =>
      have hidle : Steady { b with idling := true } := { h with }
      unfold Bridge.step
      simp only
      split
      · exact h
      split
      · exact hidle.toSound.offline
      · exact hidle
  | wanted => exact { h with }
  | spawn =>
      unfold Bridge.step
      simp only
      split
      · exact h
      · rename_i hopened
        have hoff : b.online = false := by
          cases hon : b.online with
          | false => rfl
          | true => exact absurd (h.online hon).2.2.2 hopened
        exact { h with online := fun hon => absurd (hon.symm.trans hoff) (by simp) }

end Bridge

end RustyRig
