/-
How often the driver connects, and how it gives up.

Only an attempt, a redirect and a close touch the counters.  An attempt adds one, the close
that follows a redirect takes one back and makes up for it with `followed`; nothing else
does, not even that the receiver comes online.  A close at three attempts says that the
driver stops.  An attempt that leaves no connection says nothing, and if it is the third no
close will: `Connects` excludes that.
-/
import RustyRig.Lib.Along
import RustyRig.Proofs.Kiwi.Response
import RustyRig.Rrserver.BridgeManager

namespace RustyRig

namespace Kiwi

variable {k k' x : Kiwi} {t : Moment} {reason : String}

/-- What decides about connecting. -/
structure Route where
  started : Bool
  linked : Bool
  attempts : Nat
  redirects : Nat
  redirecting : Bool
  made : Nat
  followed : Nat
deriving DecidableEq

def route (k : Kiwi) : Route :=
  ⟨k.started, k.connection.isSome, k.attempts, k.redirects, k.redirecting, k.made, k.followed⟩

/-- What leaves the route alone and takes nothing back from the host. -/
structure Stays (k k' : Kiwi) : Prop where
  route : route k' = route k
  calls : k.calls <+: k'.calls

theorem Stays.refl (k : Kiwi) : Stays k k := ⟨rfl, List.prefix_rfl⟩

theorem Stays.trans (h : Stays k k') (h' : Stays k' x) : Stays k x :=
  ⟨h'.route.trans h.route, h.calls.trans h'.calls⟩

/-! ### What stays -/

theorem stays_tell (k : Kiwi) (call : Call) : Stays k (tell k call) :=
  ⟨rfl, List.prefix_append _ _⟩

theorem stays_note (k : Kiwi) (text : String) : Stays k (note k text) := stays_tell k _

theorem stays_settle (k : Kiwi) (success : Bool) : Stays k (settle k success) := by
  unfold settle
  split
  · exact Stays.refl k
  · exact (stays_tell k (.complete k.request success)).trans ⟨rfl, List.prefix_rfl⟩

theorem stays_unavailable (k : Kiwi) : Stays k (unavailable k) :=
  ((stays_settle k false).trans (stays_tell _ _)).trans ⟨rfl, List.prefix_rfl⟩

theorem stays_hangUp (k : Kiwi) : Stays k (hangUp k) := by
  refine ⟨?_, List.prefix_rfl⟩
  unfold route hangUp
  rw [Option.isSome_map]

theorem stays_fail (k : Kiwi) (reason : String) : Stays k (fail k reason) := by
  unfold fail
  split
  · exact Stays.refl k
  · have hfailed : Stays k { k with failed := true } := ⟨rfl, List.prefix_rfl⟩
    exact ((hfailed.trans (stays_note _ reason)).trans (stays_unavailable _)).trans (stays_hangUp _)

theorem stays_configure (k : Kiwi) (t : Moment) : Stays k (configure k t).2 := by
  unfold configure
  split
  · exact Stays.refl k
  split
  · exact Stays.refl k
  · exact ⟨rfl, List.prefix_rfl⟩

theorem stays_parameter (k : Kiwi) (t : Moment) (p : Parameter) : Stays k (parameter k t p).2 := by
  have hset : ∀ x : Kiwi, Stays k x → Stays k (configure x t).2 := fun x hx =>
    hx.trans (stays_configure x t)
  cases p with
  | loadCfg extApi =>
      have hfail : Stays k (if extApi = some 0 then
          fail k "Kiwi receiver has disabled external API access" else k) := by
        split
        · exact stays_fail k _
        · exact Stays.refl k
      unfold parameter
      simp only
      generalize (if extApi = some 0 then
        fail k "Kiwi receiver has disabled external API access" else k) = y at hfail
      split
      · exact hfail
      · exact hset y hfail
  | badp rejected =>
      unfold parameter
      simp only
      split
      · exact stays_fail k _
      · exact hset _ ⟨rfl, List.prefix_rfl⟩
  | tooBusy => exact stays_fail k _
  | down => exact stays_fail k _
  | redirect => exact stays_fail k _
  | passwordTimeout => exact stays_fail k _
  | bandwidth hz =>
      cases hz with
      | none => exact Stays.refl k
      | some hz => exact hset _ ⟨rfl, List.prefix_rfl⟩
  | sampleRate rate =>
      cases rate with
      | none => exact Stays.refl k
      | some rate =>
          unfold parameter
          simp only
          split
          · exact Stays.refl k
          · exact hset _ ⟨rfl, List.prefix_rfl⟩
  | audioRate rate =>
      cases rate with
      | none => exact Stays.refl k
      | some rate =>
          unfold parameter
          simp only
          split
          · exact hset k (Stays.refl k)
          · exact Stays.refl k
  | freqOffset zero =>
      unfold parameter
      simp only
      split
      · exact hset k (Stays.refl k)
      · exact stays_fail k _
  | other => exact hset k (Stays.refl k)

theorem stays_parameters (k : Kiwi) (t : Moment) (ps : List Parameter) :
    Stays k (parameters t k ps).2 := by
  induction ps generalizing k with
  | nil => exact Stays.refl k
  | cons p ps ih =>
      have hone := stays_parameter k t p
      unfold parameters
      simp only
      split
      · exact hone.trans (ih _)
      · exact hone

theorem stays_confirm (k : Kiwi) : Stays k (confirm k) := by
  have happlied : Stays k { k with hz := k.wantedHz, mode := k.wantedMode } := ⟨rfl, List.prefix_rfl⟩
  unfold confirm
  refine Stays.trans ?_ (stays_settle _ true)
  refine Stays.trans ?_ (stays_tell _ _)
  split
  · exact happlied.trans ⟨rfl, List.prefix_rfl⟩
  · exact (happlied.trans (stays_note _ _)).trans ⟨rfl, List.prefix_rfl⟩

theorem stays_receive (k : Kiwi) (t : Moment) (frame : Frame) : Stays k (receive k t frame).2 := by
  cases frame with
  | invalid => exact Stays.refl k
  | other => exact Stays.refl k
  | msg ps => exact stays_parameters k t ps
  | sound flags seq length =>
      unfold receive
      simp only
      split
      · exact Stays.refl k
      split
      · exact Stays.refl k
      split
      · exact Stays.refl k
      split
      · exact Stays.refl k
      · have hheard : Stays k { k with sequence := some seq, received := t.now } := ⟨rfl, List.prefix_rfl⟩
        simp only
        split
        · exact hheard.trans (stays_confirm _)
        · exact hheard

theorem stays_setReceiver (k : Kiwi) (t : Moment) (request hz : Nat) (mode : String) :
    Stays k (setReceiver k t request hz mode).2 := by
  unfold setReceiver
  split
  · exact Stays.refl k
  split
  · exact stays_tell k _
  split
  · exact Stays.refl k
  · exact ⟨rfl, List.prefix_rfl⟩

/-! ### What does not -/

/-- A redirect that is followed once the connection closes. -/
structure Hops (k k' : Kiwi) : Prop where
  few : k.redirects < 8
  idle : k.redirecting = false
  route : route k' = { route k with redirects := k.redirects + 1, redirecting := true }
  calls : k.calls <+: k'.calls

/-- An attempt, which may leave no connection. -/
structure Attempts (k k' : Kiwi) (linked : Bool) : Prop where
  due : k.started = true ∧ k.connection = none ∧ k.attempts < 3
  route : route k' = { route k with
    linked := linked, attempts := k.attempts + 1, made := k.made + 1 }
  calls : k.calls <+: k'.calls

/-- The end of a connection. -/
structure Closes (k k' : Kiwi) : Prop where
  linked : k.connection.isSome = true
  route : route k' =
    if k.redirecting then
      { route k with
        linked := false, redirecting := false, attempts := k.attempts - 1, followed := k.followed + 1 }
    else { route k with linked := false }
  calls : k.calls <+: k'.calls
  announced : k.redirecting = false → 3 ≤ k.attempts → .status stopped ∈ k'.calls

theorem follow_cases (k : Kiwi) (password : Option (List UInt8)) (target : List UInt8)
    (hfew : k.redirects < 8) (hidle : k.redirecting = false) :
    ((follow k password target).1 = false ∧ Stays k (follow k password target).2) ∨
      ((follow k password target).1 = true ∧ Hops k (follow k password target).2) := by
  unfold follow
  split
  · exact Or.inl ⟨rfl, Stays.refl k⟩
  split
  · exact Or.inl ⟨rfl, Stays.refl k⟩
  split
  · split
    · exact Or.inl ⟨rfl, stays_note k _⟩
    simp only
    split
    · exact Or.inl ⟨rfl, Stays.refl k⟩
    · refine Or.inr ⟨rfl, hfew, hidle, ?_, List.prefix_append _ _⟩
      unfold route hangUp
      rw [Option.isSome_map]
      rfl
  · exact Or.inl ⟨rfl, Stays.refl k⟩

theorem redirect_cases (k : Kiwi) (password : Option (List UInt8)) (websocket : Bool) (buf : List UInt8)
    (hidle : k.redirecting = false) :
    ∃ ok k', redirect k password websocket buf = some (ok, k') ∧
      (ok = false ∧ Stays k k' ∨ ok = true ∧ Hops k k') := by
  obtain ⟨r, hr, -⟩ := response_spec buf
  have hread : ∃ r, (if websocket then some .other else response buf) = some r := by
    cases websocket
    · exact ⟨r, hr⟩
    · exact ⟨.other, rfl⟩
  obtain ⟨r, hr⟩ := hread
  unfold redirect
  rw [hr]
  cases r with
  | other => exact ⟨false, k, rfl, Or.inl ⟨rfl, Stays.refl k⟩⟩
  | moved target =>
      simp only [Option.map_some]
      split
      · exact ⟨false, _, rfl, Or.inl ⟨rfl, stays_note k _⟩⟩
      rename_i hfew
      cases target with
      | none => exact ⟨false, k, rfl, Or.inl ⟨rfl, Stays.refl k⟩⟩
      | some target => exact ⟨_, _, rfl, follow_cases k password target (Nat.lt_of_not_le hfew) hidle⟩

theorem readable_cases (k : Kiwi) (t : Moment) (buf : List UInt8) :
    Stays k (readable k t buf) ∨ Hops k (readable k t buf) := by
  have hlimited : ∀ x : Kiwi, Stays k x → Stays k
      (if 65536 < buf.length then fail x "Kiwi WebSocket receive limit exceeded" else x) := by
    intro x hx
    split
    · exact hx.trans (stays_fail x _)
    · exact hx
  unfold readable
  simp only
  split
  · exact Or.inl (hlimited k (Stays.refl k))
  rename_i hidle
  obtain ⟨ok, k', hk, ⟨rfl, hstays⟩ | ⟨rfl, hhops⟩⟩ :=
    redirect_cases k t.password (websocket k) buf (by simpa using hidle)
  · rw [hk]
    exact Or.inl (hlimited k' hstays)
  · rw [hk]
    exact Or.inr hhops

theorem errored_cases (k : Kiwi) (t : Moment) (buf : List UInt8) :
    Stays k (errored k t buf) ∨ Hops k (errored k t buf) := by
  unfold errored
  split
  · exact Or.inl (Stays.refl k)
  rename_i hidle
  obtain ⟨ok, k', hk, ⟨rfl, hstays⟩ | ⟨rfl, hhops⟩⟩ :=
    redirect_cases k t.password (websocket k) buf (by simpa using hidle)
  · rw [hk]
    exact Or.inl (hstays.trans (stays_fail k' _))
  · rw [hk]
    exact Or.inr hhops

/-- Nothing has been received of a connection that is not yet known. -/
theorem stays_errored_nil (k : Kiwi) (t : Moment) : Stays k (errored k t []) := by
  have hnone : redirect k t.password (websocket k) [] = some (false, k) := by
    unfold redirect response
    cases websocket k <;> rfl
  unfold errored
  split
  · exact Stays.refl k
  · rw [hnone]
    exact stays_fail k _

theorem connect_cases (k : Kiwi) (t : Moment) (result : Connect) :
    connect k t result = k ∨
      ∃ linked, due k t = true ∧ Attempts k (connect k t result) linked ∧
        (agentValid t.userAgent = true → result ≠ .fails → linked = true) := by
  unfold connect
  split
  · exact Or.inl rfl
  rename_i hdue
  right
  have hnow : due k t = true := by simpa using hdue
  simp only [due, Bool.not_eq_true', Bool.not_eq_false, Bool.and_eq_true, decide_eq_true_eq,
    Option.isNone_iff_eq_none] at hdue
  obtain ⟨⟨⟨hstarted, hnone⟩, -⟩, hfew⟩ := hdue
  have hwatch : ∀ (x : Kiwi) (c : Option Connection), Stays (prepare k) x →
      Attempts k (watched x t c) c.isSome := by
    intro x c hx
    refine ⟨⟨hstarted, hnone, hfew⟩, ?_, hx.calls⟩
    calc route (watched x t c) = { route x with linked := c.isSome } := rfl
      _ = { route (prepare k) with linked := c.isSome } := by rw [hx.route]
      _ = _ := rfl
  simp only
  split
  · rename_i hagent
    have hfail := stays_fail (prepare k) "Invalid Kiwi User-Agent configuration"
    refine ⟨false, hnow, ⟨⟨hstarted, hnone, hfew⟩, ?_, hfail.calls⟩, fun h => ?_⟩
    · rw [hfail.route]
      unfold route prepare
      rw [hnone]
      rfl
    · rw [h] at hagent
      exact absurd hagent (by simp)
  cases result with
  | fails =>
      have hattempt := hwatch (prepare k) none (Stays.refl _)
      exact ⟨false, hnow, ⟨hattempt.due, hattempt.route, hattempt.calls⟩, fun _ h => absurd rfl h⟩
  | opens => exact ⟨true, hnow, hwatch (prepare k) (some ⟨false, false⟩) (Stays.refl _), fun _ _ => rfl⟩
  | errs => exact ⟨true, hnow, hwatch _ (some ⟨false, true⟩) (stays_errored_nil _ t), fun _ _ => rfl⟩

theorem closes_closed (k : Kiwi) (t : Moment) (hlinked : k.connection.isSome = true) :
    Closes k (closed k t) := by
  unfold closed
  simp only
  by_cases hre : k.redirecting = true
  · rw [if_pos hre]
    exact ⟨hlinked, by rw [if_pos hre]; rfl, List.prefix_append _ _, fun h => absurd (hre.symm.trans h) (by simp)⟩
  · rw [if_neg hre]
    have hgone : ∀ x : Kiwi, Stays { k with connection := none } x →
        (3 ≤ k.attempts → .status stopped ∈ x.calls) → Closes k x := fun x hx hsaid =>
      ⟨hlinked, by rw [if_neg hre]; exact hx.route, hx.calls, fun _ => hsaid⟩
    have hout := stays_unavailable { k with connection := none }
    have hlost : Stays { k with connection := none }
        (if k.online then note (unavailable { k with connection := none })
          "Kiwi WebSocket connection lost after receiver was online"
        else unavailable { k with connection := none }) := by
      split
      · exact hout.trans (stays_note _ _)
      · exact hout
    generalize (if k.online then note (unavailable { k with connection := none })
          "Kiwi WebSocket connection lost after receiver was online"
        else unavailable { k with connection := none }) = x at hlost
    have hattempts : x.attempts = k.attempts := congrArg Route.attempts hlost.route
    have hnoted : ∀ (failures retry : Nat) (text : String),
        Stays x { note { x with failures := failures } text with retry := retry } :=
      fun failures retry text => ⟨rfl, List.prefix_append _ _⟩
    split
    · exact hgone _ (hlost.trans (hnoted x.failures _ stopped))
        fun _ => List.mem_append_right _ (List.mem_singleton_self _)
    · rename_i hfew
      exact hgone _ (hlost.trans (hnoted _ _ _)) fun h => absurd h (hattempts ▸ hfew)

theorem stays_opened (k : Kiwi) (t : Moment) : Stays k (opened k t) := by
  have hsocket : Stays k { k with connection := k.connection.map fun c => { c with websocket := true } } := by
    refine ⟨?_, List.prefix_rfl⟩
    unfold route
    rw [Option.isSome_map]
  unfold opened
  simp only
  split
  · exact hsocket.trans (stays_fail _ _)
  split
  · exact hsocket
  · exact hsocket.trans (stays_fail _ _)

theorem stays_message (k : Kiwi) (t : Moment) (frame : Frame) : Stays k (message k t frame) := by
  unfold message
  split
  · exact Stays.refl k
  simp only
  split
  · exact stays_receive k t frame
  · exact (stays_receive k t frame).trans (stays_fail _ _)

theorem stays_watch (k : Kiwi) (t : Moment) : Stays k (watch k t) := by
  unfold watch
  split
  · exact Stays.refl k
  split
  · exact stays_fail k _
  split
  · have hsent : Stays k (if sendCommand k t then k else fail k "Cannot send Kiwi keepalive") := by
      split
      · exact Stays.refl k
      · exact stays_fail k _
    exact hsent.trans ⟨rfl, List.prefix_rfl⟩
  · exact Stays.refl k

/-! ### Every step -/

/-- An attempt leaves a connection. -/
def Lasts (t : Moment) (result : Connect) : Prop := agentValid t.userAgent = true ∧ result ≠ .fails

theorem step_cases (k : Kiwi) (e : Moment × Event) :
    Stays k (step k e) ∨ (k.connection.isSome = true ∧ Hops k (step k e)) ∨ Closes k (step k e) ∨
      ∃ result linked, e.2 = .connect result ∧ due k e.1 = true ∧ Attempts k (step k e) linked ∧
        (Lasts e.1 result → linked = true) := by
  obtain ⟨t, event⟩ := e
  have hidle : k.connection.isNone = true → (∀ result, event ≠ .connect result) → event ≠ .watch →
      (∀ request hz mode, event ≠ .setReceiver request hz mode) → step k (t, event) = k := by
    intro hnone hconnect hwatch hset
    cases event <;> simp_all [step]
  cases event with
  | connect result =>
      rcases connect_cases k t result with heq | ⟨linked, hdue, hattempt, hlasts⟩
      · left
        rw [show step k (t, .connect result) = k from heq]
        exact Stays.refl k
      · exact Or.inr (Or.inr (Or.inr ⟨result, linked, rfl, hdue, hattempt, fun h => hlasts h.1 h.2⟩))
  | watch => exact Or.inl (stays_watch k t)
  | setReceiver request hz mode => exact Or.inl (stays_setReceiver k t request hz mode)
  | opened =>
      left
      show Stays k (if _ then _ else _)
      split
      · exact Stays.refl k
      · exact stays_opened k t
  | message frame =>
      left
      show Stays k (if _ then _ else _)
      split
      · exact Stays.refl k
      · exact stays_message k t frame
  | readable buf =>
      cases hlinked : k.connection.isSome with
      | false =>
          left
          rw [hidle (by simpa using hlinked) (by simp) (by simp) (by simp)]
          exact Stays.refl k
      | true =>
          have hstep : step k (t, .readable buf) = readable k t buf := by
            simp [step, Option.isSome_iff_ne_none.mp hlinked]
          rw [hstep]
          exact (readable_cases k t buf).imp id fun h => Or.inl ⟨rfl, h⟩
  | errored buf =>
      cases hlinked : k.connection.isSome with
      | false =>
          left
          rw [hidle (by simpa using hlinked) (by simp) (by simp) (by simp)]
          exact Stays.refl k
      | true =>
          have hstep : step k (t, .errored buf) = errored k t buf := by
            simp [step, Option.isSome_iff_ne_none.mp hlinked]
          rw [hstep]
          exact (errored_cases k t buf).imp id fun h => Or.inl ⟨rfl, h⟩
  | closed =>
      cases hlinked : k.connection.isSome with
      | false =>
          left
          rw [hidle (by simpa using hlinked) (by simp) (by simp) (by simp)]
          exact Stays.refl k
      | true =>
          have hstep : step k (t, .closed) = closed k t := by
            simp [step, Option.isSome_iff_ne_none.mp hlinked]
          rw [hstep]
          exact Or.inr (Or.inr (Or.inl (closes_closed k t hlinked)))

/-- What the counters say. -/
structure Route.Counted (r : Route) : Prop where
  started : r.started = true
  linked : r.linked = true → 1 ≤ r.attempts
  routed : r.redirecting = true → r.linked = true
  few : r.attempts ≤ 3
  most : r.redirects ≤ 8
  hops : r.redirects = r.followed + r.redirecting.toNat
  made : r.made = r.attempts + r.followed

theorem counted_start (url : Url) (hz : Nat) (mode : String) : (route (start url hz mode)).Counted where
  started := rfl
  linked := fun h => absurd h (by simp [route, start])
  routed := fun h => absurd h (by simp [route, start])
  few := Nat.zero_le _
  most := Nat.zero_le _
  hops := rfl
  made := rfl

theorem counted_step (h : (route k).Counted) (e : Moment × Event) : (route (step k e)).Counted := by
  rcases step_cases k e with hstays | ⟨hlinked, hhops⟩ | hcloses | ⟨_, linked, -, -, hattempt, -⟩
  · rw [hstays.route]
    exact h
  · rw [hhops.route]
    have hidle : (route k).redirecting = false := hhops.idle
    have hsum := h.hops
    rw [hidle] at hsum
    exact { h with
      routed := fun _ => hlinked
      most := hhops.few
      hops := congrArg Nat.succ hsum }
  · rw [hcloses.route]
    split
    · rename_i hre
      have hre : (route k).redirecting = true := hre
      have hsum := h.hops
      have hpos := h.linked hcloses.linked
      have hmade := h.made
      have hfew := h.few
      rw [hre] at hsum
      exact
        { started := h.started
          linked := fun h => absurd h (by simp)
          routed := fun h => absurd h (by simp)
          few := Nat.le_trans (Nat.sub_le _ _) hfew
          most := h.most
          hops := hsum
          made := by
            show (route k).made = (route k).attempts - 1 + ((route k).followed + 1)
            omega }
    · rename_i hre
      exact { h with
        linked := fun h => absurd h (by simp)
        routed := fun h => absurd h hre }
  · rw [hattempt.route]
    have hnone : (route k).linked = false := by
      show k.connection.isSome = false
      rw [hattempt.due.2.1]
      rfl
    have hmade := h.made
    exact { h with
      linked := fun _ => Nat.le_add_left 1 _
      routed := fun hre => absurd (h.routed hre) (by simp [hnone])
      few := hattempt.due.2.2
      made := by
        show (route k).made + 1 = (route k).attempts + 1 + (route k).followed
        omega }

theorem counted_run (h : (route k).Counted) (es : List (Moment × Event)) :
    (route (es.foldl step k)).Counted := by
  induction es generalizing k with
  | nil => exact h
  | cons e es ih => exact ih (counted_step h e)

/-! ### Giving up -/

/-- An attempt that is the last one leaves a connection. -/
def Connects (k : Kiwi) (e : Moment × Event) : Prop :=
  ∀ result, e.2 = .connect result → due k e.1 = true → k.attempts = 2 → Lasts e.1 result

/-- The driver has no connection and will not attempt another. -/
def Spent (k : Kiwi) : Prop := k.connection = none ∧ ∀ es : List (Moment × Event), (es.foldl step k).made = k.made

/-- At three attempts without a connection the host has been told. -/
def Announced (k : Kiwi) : Prop :=
  k.connection.isSome = false → k.attempts = 3 → .status stopped ∈ k.calls

theorem announced_step {e : Moment × Event} (h : Announced k) (hconnects : Connects k e)
    (hcounted : (route k).Counted) : Announced (step k e) := by
  rcases step_cases k e with hstays | ⟨hlinked, hhops⟩ | hcloses |
      ⟨result, linked, hevent, hdue, hattempt, hlasts⟩
  · intro hnone hthree
    have hlink : (step k e).connection.isSome = k.connection.isSome := congrArg Route.linked hstays.route
    have hcount : (step k e).attempts = k.attempts := congrArg Route.attempts hstays.route
    exact hstays.calls.subset (h (hlink ▸ hnone) (hcount ▸ hthree))
  · intro hnone
    have hlink : (step k e).connection.isSome = k.connection.isSome := congrArg Route.linked hhops.route
    exact absurd (hlinked.symm.trans (hlink.symm.trans hnone)) (by simp)
  · intro _ hthree
    have hcount := congrArg Route.attempts hcloses.route
    by_cases hre : k.redirecting = true
    · rw [if_pos hre] at hcount
      have hcount : (step k e).attempts = k.attempts - 1 := hcount
      have hfew : k.attempts ≤ 3 := hcounted.few
      omega
    · rw [if_neg hre] at hcount
      have hcount : (step k e).attempts = k.attempts := hcount
      exact hcloses.announced (by simpa using hre) (by omega)
  · intro hnone hthree
    have hcount : (step k e).attempts = k.attempts + 1 := congrArg Route.attempts hattempt.route
    have hlink : (step k e).connection.isSome = linked := congrArg Route.linked hattempt.route
    have hlinked := hlasts (hconnects result hevent hdue (by omega))
    exact absurd (hlinked.symm.trans (hlink.symm.trans hnone)) (by simp)

/-- Only a third attempt is the last. -/
theorem Spent.attempts (h : Spent k) (hcounted : (route k).Counted) : k.attempts = 3 := by
  have hfew : k.attempts ≤ 3 := hcounted.few
  have hstarted : k.started = true := hcounted.started
  by_contra hne
  have hdue : due k ⟨k.retry, true, none, none⟩ = true := by
    unfold due
    rw [hstarted, h.1]
    simp
    omega
  have hmade := h.2 [(⟨k.retry, true, none, none⟩, .connect .opens)]
  have hone : (step k (⟨k.retry, true, none, none⟩, .connect .opens)).made = k.made + 1 := by
    show (connect k ⟨k.retry, true, none, none⟩ .opens).made = k.made + 1
    unfold connect
    rw [hdue]
    rfl
  rw [List.foldl_cons, List.foldl_nil, hone] at hmade
  exact absurd hmade (Nat.succ_ne_self _)

/-- At three attempts, what is without a connection stays so. -/
theorem spent_of_attempts (hnone : k.connection = none) (hthree : k.attempts = 3) : Spent k := by
  refine ⟨hnone, fun es => ?_⟩
  have hlinked : k.connection.isSome = false := by rw [hnone]; rfl
  clear hnone
  induction es generalizing k with
  | nil => rfl
  | cons e es ih =>
      rcases step_cases k e with hstays | ⟨hlink, -⟩ | hcloses | ⟨_, _, -, -, hattempt, -⟩
      · have hlink : (step k e).connection.isSome = k.connection.isSome :=
          congrArg Route.linked hstays.route
        have hcount : (step k e).attempts = k.attempts := congrArg Route.attempts hstays.route
        have hmade : (step k e).made = k.made := congrArg Route.made hstays.route
        rw [List.foldl_cons, ih (hcount.trans hthree) (hlink.trans hlinked), hmade]
      · exact absurd (hlink.symm.trans hlinked) (by simp)
      · exact absurd (hcloses.linked.symm.trans hlinked) (by simp)
      · have hfew := hattempt.due.2.2
        omega

theorem terminal_stopped (front rest : List UInt8) :
    terminal true (front ++ (ascii stopped ++ rest)) = true := by
  have hinfix : ascii stopped <:+: front ++ (ascii stopped ++ rest) := ⟨front, rest, by simp⟩
  obtain ⟨i, hi⟩ := find_isSome hinfix
  unfold terminal
  rw [hi]
  rfl

/-- The server disconnects a child for good whose receiver is given up. -/
theorem receive_terminal (env : Bridge.Env) (t : Bridge.Moment) (b : Bridge) :
    (Bridge.receive env t b ⟨true, .log true⟩).opened = false := by
  unfold Bridge.receive
  split
  · rename_i hclosed
    simpa using hclosed
  split
  · rfl
  split
  · rename_i hidle
    simp [Bridge.Record.isLog] at hidle
  · cases hhello : b.hello <;> simp [Bridge.handle, hhello, Bridge.disconnect]

/-- A run follows at most eight redirects, to the URLs that `redirect` has left, and `redirect` is safe
exactly where every target offered is judged rightly. -/
theorem redirect_safe (k : Kiwi) (password : Option (List UInt8)) (websocket : Bool) (buf : List UInt8)
    (t : Moment) (url : Url) (hz : Nat) (mode : String) (es : List (Moment × Event)) :
    (Safe k password websocket buf ↔ ∀ target, Offered k websocket buf target → Apart k password target) ∧
    (k.redirecting = true → (closed k t).url = k.redirectUrl) ∧
    (ran url hz mode es).followed ≤ 8 := by
  refine ⟨redirect_iff k password websocket buf, fun hre => ?_, ?_⟩
  · unfold closed
    simp only [hre, if_true]
    rfl
  · have hcounted := counted_run (counted_start url hz mode) es
    have hsum : (ran url hz mode es).redirects =
        (ran url hz mode es).followed + (ran url hz mode es).redirecting.toNat := hcounted.hops
    have hmost : (ran url hz mode es).redirects ≤ 8 := hcounted.most
    omega

/-- A sound stream over a plain WebSocket, and over a secure one. -/
def plain : Url := ⟨ascii "ws://kiwi:8073/1/SND", by decide⟩

def secure : Url := ⟨ascii "wss://kiwi:8073/1/SND", by decide⟩

def moved (target : String) : List UInt8 :=
  ascii ("HTTP/1.1 307 Moved\r\nLocation: " ++ target ++ "\r\n\r\n")

/-- Redirected to the root, the driver follows to the URL that it used; and redirected to a plain
WebSocket of the same host and port, it follows with its password. -/
theorem redirect_unsafe :
    ((redirect (start plain 0 "USB") none false (moved "/")).map fun r =>
      (r.1, r.2.redirectUrl)) = some (true, plain) ∧
    ((redirect (start secure 0 "USB") (some (ascii "secret")) false
      (moved "http://kiwi:8073/1/SND")).map fun r => (r.1, r.2.redirectUrl)) = some (true, plain) ∧
    ¬ Safe (start plain 0 "USB") none false (moved "/") ∧
    ¬ Safe (start secure 0 "USB") (some (ascii "secret")) false (moved "http://kiwi:8073/1/SND") := by
  have hunsafe : ∀ {k : Kiwi} {password : Option (List UInt8)} {buf : List UInt8} {next : Url},
      (redirect k password false buf).map (fun r => (r.1, r.2.redirectUrl)) = some (true, next) →
      (∀ k', k'.redirectUrl = next → ¬ Followed k k' password buf) → ¬ Safe k password false buf := by
    rintro k password buf next hnext hno ⟨ok, k', hk, hok⟩
    rw [hk] at hnext
    obtain ⟨rfl, rfl⟩ := Prod.mk.inj (Option.some.inj hnext)
    exact hno k' rfl (hok rfl)
  have hloop : (redirect (start plain 0 "USB") none false (moved "/")).map (fun r =>
      (r.1, r.2.redirectUrl)) = some (true, plain) := by decide +kernel
  have hdown : (redirect (start secure 0 "USB") (some (ascii "secret")) false
      (moved "http://kiwi:8073/1/SND")).map (fun r => (r.1, r.2.redirectUrl)) = some (true, plain) := by
    decide +kernel
  refine ⟨hloop, hdown, hunsafe hloop fun k' hk' h => ?_, hunsafe hdown fun k' hk' h => ?_⟩
  · exact h.fresh (congrArg Url.bytes hk')
  · have horigin := h.origin (by decide)
    rw [hk'] at horigin
    exact absurd horigin (by decide +kernel)

/-- Attempts are bounded in every run by the redirects that were followed; and as long as no last
attempt fails at once, a driver that has given up has said so, for which the server tears a
temporary receiver down. -/
theorem attempts_run (url : Url) (hz : Nat) (mode : String) :
    (∀ es mid, (ran url hz mode (es ++ mid)).made + (ran url hz mode es).followed ≤
      (ran url hz mode es).made + 3 + (ran url hz mode (es ++ mid)).followed) ∧
    (∀ es, Lib.Along step Connects (start url hz mode) es → Spent (ran url hz mode es) →
      .status stopped ∈ (ran url hz mode es).calls) ∧
    ∀ env t b front rest, (Bridge.receive env t b
      ⟨true, .log (terminal true (front ++ (ascii stopped ++ rest)))⟩).opened = false := by
  refine ⟨fun es mid => ?_, fun es hconnects hspent => ?_, fun env t b front rest => ?_⟩
  · have hbefore := counted_run (counted_start url hz mode) es
    have hafter := counted_run (counted_start url hz mode) (es ++ mid)
    have hmade : (ran url hz mode es).made =
        (ran url hz mode es).attempts + (ran url hz mode es).followed := hbefore.made
    have hmade' : (ran url hz mode (es ++ mid)).made =
        (ran url hz mode (es ++ mid)).attempts + (ran url hz mode (es ++ mid)).followed := hafter.made
    have hfew : (ran url hz mode (es ++ mid)).attempts ≤ 3 := hafter.few
    omega
  · have hrun := hconnects.invariant (P := fun k => (route k).Counted ∧ Announced k)
      ⟨counted_start url hz mode, fun _ h => absurd h (by simp [start])⟩
      fun k e h hc => ⟨counted_step h.1 e, announced_step h.2 hc h.1⟩
    refine hrun.2 ?_ (hspent.attempts hrun.1)
    rw [show (es.foldl step (start url hz mode)).connection = none from hspent.1]
    rfl
  · rw [terminal_stopped]
    exact receive_terminal env t b

/-- A moment with what the header of an attempt says. -/
def second (n : Nat) (userAgent : Option (List UInt8)) : Moment := ⟨n * 1000000, true, none, userAgent⟩

/-- Three attempts that come to nothing, a minute apart. -/
def tries (result : Connect) (userAgent : Option (List UInt8)) : List (Moment × Event) :=
  [(second 60 userAgent, .connect result), (second 61 userAgent, .closed),
    (second 120 userAgent, .connect result), (second 121 userAgent, .closed),
    (second 180 userAgent, .connect result), (second 181 userAgent, .closed)]

theorem lasts_opens (n : Nat) : Lasts (second n none) .opens := ⟨rfl, by simp⟩

theorem attempts_run_closed :
    .status stopped ∈ (ran plain 0 "USB" (tries .opens none)).calls :=
  (attempts_run plain 0 "USB").2.1 (tries .opens none)
    ⟨fun _ h _ _ => Event.connect.inj h ▸ lasts_opens 60, (fun _ h => nomatch h),
      fun _ h _ _ => Event.connect.inj h ▸ lasts_opens 120, (fun _ h => nomatch h),
      fun _ h _ _ => Event.connect.inj h ▸ lasts_opens 180, (fun _ h => nomatch h), trivial⟩
    (spent_of_attempts (by decide +kernel) (by decide +kernel))

/-- A third attempt that fails at once, for its header or without a connection, is the last and goes
unsaid. -/
theorem attempts_silent :
    (Spent (ran plain 0 "USB" (tries .fails none)) ∧
      .status stopped ∉ (ran plain 0 "USB" (tries .fails none)).calls) ∧
    Spent (ran plain 0 "USB" (tries .opens (some [10]))) ∧
      .status stopped ∉ (ran plain 0 "USB" (tries .opens (some [10]))).calls :=
  ⟨⟨spent_of_attempts (by decide +kernel) (by decide +kernel), by decide +kernel⟩,
    spent_of_attempts (by decide +kernel) (by decide +kernel), by decide +kernel⟩

end Kiwi

end RustyRig
