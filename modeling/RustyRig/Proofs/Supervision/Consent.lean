/-
Consent and where it comes from.

Every elmer in a request's slots got there by an acceptance on the record that nothing
ended since, and its stamp was renewed by its own activity in time.  `Sound` says so of one
request, together with whom the slots may name; here is what the writes to a request and
the ticks keep of it.
-/
import RustyRig.Lib.Lease
import RustyRig.Lib.Folds
import RustyRig.Rrserver.Supervision

namespace RustyRig

namespace Supervision

open Lib

variable {p : Setup} {log : List Entry} {now i : Nat} {live : Nat → Prop} {r : Request} {w w' : World}

/-- Entries after which an acceptance counts no more. -/
def Entry.Ends (slot elmer noob : Nat) : Entry → Prop
  | .declined i e => i = slot ∧ e = elmer
  | .revoked i => i = slot
  | .closed c => c = elmer ∨ c = noob
  | _ => False

/-- The elmer showed activity at that time. -/
def Acted (elmer : Nat) (log : List Entry) (time : Nat) : Prop := .activity elmer time ∈ log

/-- An elmer's slot rests on an acceptance: `post` is what happened since. -/
structure Backed (p : Setup) (log : List Entry) (now i : Nat) (r : Request) (s : Supervisor) (e : Nat)
    (a : Acceptance) (post pre : List Entry) : Prop where
  log : log = post ++ .accepted a :: pre
  slot : a.slot = i
  elmer : a.elmer.handle = e
  elmerToken : a.elmer.token = s.token
  standing : a.elmer.isElmer a.time = true
  noob : r.client = some a.noob
  other : a.noob ≠ e
  token : a.token = r.token
  ticket : a.ticket = r.id
  pending : r.id ≠ ""
  unended : ∀ x ∈ post, ¬ x.Ends i e a.noob
  renewed : Renewed p.idle (Acted e post) a.time s.active
  past : s.active ≤ now

/-- What holds of the request in a slot.  `live` are the clients it may name. -/
structure Sound (p : Setup) (log : List Entry) (now : Nat) (live : Nat → Prop) (i : Nat) (r : Request) :
    Prop where
  client : ∀ c, r.client = some c → live c
  elmers : ∀ (j : Nat) s e, r.elmers[j]? = some s → s.client = some e →
    live e ∧ ∃ a post pre, Backed p log now i r s e a post pre
  distinct : ∀ (j k : Nat) s t e, r.elmers[j]? = some s → r.elmers[k]? = some t → s.client = some e →
    t.client = some e → j = k
  invited : ∀ (j : Nat) s e, r.invited[j]? = some s → s.client = some e → live e

/-- All requests are sound. -/
def Kept (p : Setup) (live : Nat → Prop) (w : World) : Prop :=
  ∀ i r, w.requests[i]? = some r → Sound p w.log w.now live i r

/-! ### Slots -/

variable {slots : List Supervisor} {j e : Nat} {s : Supervisor}

theorem client_of_cleared (h : (cleared slots)[j]? = some s) : s.client = none := by
  unfold cleared at h
  rw [List.getElem?_map] at h
  obtain ⟨-, -, rfl⟩ := Option.map_eq_some_iff.mp h
  rfl

theorem of_dropped {c : Nat} (h : (dropped c slots)[j]? = some s) (he : s.client = some e) :
    slots[j]? = some s ∧ e ≠ c := by
  unfold dropped at h
  rw [List.getElem?_map] at h
  obtain ⟨t, ht, heq⟩ := Option.map_eq_some_iff.mp h
  by_cases hc : t.client = some c
  · rw [if_pos hc] at heq
    rw [← heq] at he
    exact absurd he (by simp [Supervisor.zero])
  · rw [if_neg hc] at heq
    subst heq
    refine ⟨ht, fun hec => hc ?_⟩
    rw [he, hec]

theorem lastIdx_spec {α : Type} {f : α → Bool} {l : List α} {k : Nat} (h : lastIdx? f l = some k) :
    ∃ x, l[k]? = some x ∧ f x = true := by
  induction l generalizing k with
  | nil => exact absurd h (by simp [lastIdx?])
  | cons x xs ih =>
      unfold lastIdx? at h
      cases hxs : lastIdx? f xs with
      | some i =>
          rw [hxs] at h
          rw [← Option.some.inj h]
          exact ih hxs
      | none =>
          rw [hxs] at h
          dsimp only at h
          by_cases hx : f x = true
          · rw [if_pos hx] at h
            rw [← Option.some.inj h]
            exact ⟨x, rfl, hx⟩
          · rw [if_neg hx] at h
            exact absurd h (by simp)

/-! ### Sound requests -/

/-- More happened, but nothing that ends a consent of this request. -/
theorem Sound.record (h : Sound p log now live i r) {x : Entry}
    (hx : ∀ e noob, live e → r.client = some noob → ¬ x.Ends i e noob) :
    Sound p (x :: log) now live i r where
  client := h.client
  elmers := by
    intro j s e hs he
    obtain ⟨hlive, a, post, pre, hb⟩ := h.elmers j s e hs he
    refine ⟨hlive, a, x :: post, pre, { hb with
      log := by rw [hb.log]; rfl
      unended := fun y hy => ?_
      renewed := hb.renewed.mono fun t ht => List.mem_cons_of_mem _ ht }⟩
    rcases List.mem_cons.mp hy with rfl | hy
    · exact hx e a.noob hlive hb.noob
    · exact hb.unended y hy
  distinct := h.distinct
  invited := h.invited

/-- Time passes. -/
theorem Sound.wait (h : Sound p log now live i r) (seconds : Nat) :
    Sound p log (now + seconds) live i r where
  client := h.client
  elmers := by
    intro j s e hs he
    obtain ⟨hlive, a, post, pre, hb⟩ := h.elmers j s e hs he
    exact ⟨hlive, a, post, pre, { hb with past := Nat.le_add_right_of_le hb.past }⟩
  distinct := h.distinct
  invited := h.invited

/-- Clients come and go. -/
theorem Sound.among (h : Sound p log now live i r) {live' : Nat → Prop} (hsub : ∀ c, live c → live' c) :
    Sound p log now live' i r where
  client := fun c hc => hsub c (h.client c hc)
  elmers := fun j s e hs he => ⟨hsub e (h.elmers j s e hs he).1, (h.elmers j s e hs he).2⟩
  distinct := h.distinct
  invited := fun j s e hs he => hsub e (h.invited j s e hs he)

/-- A request without elmers owes nothing to the record. -/
theorem Sound.vacant (hclient : ∀ c, r.client = some c → live c)
    (helmers : ∀ (j : Nat) s, r.elmers[j]? = some s → s.client = none)
    (hinvited : ∀ (j : Nat) s e, r.invited[j]? = some s → s.client = some e → live e) :
    Sound p log now live i r where
  client := hclient
  elmers := by
    intro j s e hs he
    rw [helmers j s hs] at he
    exact absurd he (by simp)
  distinct := by
    intro j k s t e hs _ he _
    rw [helmers j s hs] at he
    exact absurd he (by simp)
  invited := hinvited

/-- Nobody answers for a request that is not pending. -/
theorem Sound.elmers_none (h : Sound p log now live i r) (hr : r.client = none ∨ r.id = "") (j : Nat)
    (s : Supervisor) (hs : r.elmers[j]? = some s) : s.client = none := by
  cases he : s.client with
  | none => rfl
  | some e =>
      obtain ⟨-, a, post, pre, hb⟩ := h.elmers j s e hs he
      rcases hr with hr | hr
      · rw [hb.noob] at hr
        exact absurd hr (by simp)
      · exact absurd hr hb.pending

theorem sound_zero : Sound p log now live i (.zero p) := by
  have hzero : ∀ (j : Nat) s, (List.replicate p.maxSessions Supervisor.zero)[j]? = some s →
      s.client = none := by
    intro j s hs
    rw [List.eq_of_mem_replicate (List.mem_of_getElem? hs)]
    rfl
  refine .vacant (fun c hc => ?_) hzero fun j s e hs he => ?_
  · exact absurd hc (by simp [Request.zero])
  · rw [hzero j s hs] at he
    exact absurd he (by simp)

/-! ### Writes -/

theorem Kept.write (hk : Kept p live w) {f : Request → Request}
    (hrequests : w'.requests = w.requests.modify i f) (hlog : w'.log = w.log) (hnow : w'.now = w.now)
    (hf : ∀ r, w.requests[i]? = some r → Sound p w.log w.now live i r →
      Sound p w.log w.now live i (f r)) : Kept p live w' := by
  intro j r hr
  rw [hlog, hnow]
  rw [hrequests] at hr
  rcases Lib.getElem?_of_modify hr with ⟨-, hr⟩ | ⟨rfl, r', hr', rfl⟩
  · exact hk j r hr
  · exact hf r' hr' (hk j r' hr')

/-- A write that goes on the record and concerns no other request. -/
theorem Kept.write_record (hk : Kept p live w) {f : Request → Request} {x : Entry}
    (hrequests : w'.requests = w.requests.modify i f) (hlog : w'.log = x :: w.log)
    (hnow : w'.now = w.now) (hx : ∀ j e noob, j ≠ i → ¬ x.Ends j e noob)
    (hf : ∀ r, w.requests[i]? = some r → Sound p w.log w.now live i r →
      Sound p (x :: w.log) w.now live i (f r)) : Kept p live w' := by
  intro j r hr
  rw [hlog, hnow]
  rw [hrequests] at hr
  rcases Lib.getElem?_of_modify hr with ⟨hne, hr⟩ | ⟨rfl, r', hr', rfl⟩
  · exact (hk j r hr).record fun e noob _ _ => hx j e noob hne
  · exact hf r' hr' (hk j r' hr')

/-- Two worlds that differ in what was sent. -/
structure Same (w w' : World) : Prop where
  requests : w'.requests = w.requests
  log : w'.log = w.log
  now : w'.now = w.now
  clients : w'.clients = w.clients
  closing : w'.closing = w.closing

theorem Same.kept (h : Same w w') (hk : Kept p live w) : Kept p live w' := by
  intro i r hr
  rw [h.requests] at hr
  rw [h.log, h.now]
  exact hk i r hr

theorem same_closeOffer (r : Request) (w : World) (c : Conn) : Same w (w.closeOffer r c) := by
  unfold World.closeOffer
  split
  · exact ⟨rfl, rfl, rfl, rfl, rfl⟩
  · exact ⟨rfl, rfl, rfl, rfl, rfl⟩

end Supervision

end RustyRig

/-!
What a tick keeps.

A tick takes consent away and makes offers, and so touches one request at a time; the
clients it brings into a request are those it visits, without the one that is closing.
-/

namespace RustyRig

namespace Supervision

variable {p : Setup} {i : Nat} {live : Nat → Prop} {w w' w'' : World}

/-- Clock and clients are as before. -/
structure Frame (w w' : World) : Prop where
  now : w'.now = w.now
  clients : w'.clients = w.clients
  closing : w'.closing = w.closing

theorem Frame.refl (w : World) : Frame w w := ⟨rfl, rfl, rfl⟩

theorem Frame.trans (h : Frame w w') (h' : Frame w' w'') : Frame w w'' :=
  ⟨h'.now.trans h.now, h'.clients.trans h.clients, h'.closing.trans h.closing⟩

theorem Same.frame (h : Same w w') : Frame w w' := ⟨h.now, h.clients, h.closing⟩

theorem Same.trans (h : Same w w') (h' : Same w' w'') : Same w w'' :=
  ⟨h'.requests.trans h.requests, h'.log.trans h.log, h'.now.trans h.now,
    h'.clients.trans h.clients, h'.closing.trans h.closing⟩

/-- The clients a visit finds may be named. -/
def Visits (live : Nat → Prop) (w : World) : Prop :=
  ∀ c ∈ w.clients, w.closing ≠ some c.handle → live c.handle

theorem Frame.visits (h : Frame w w') (hv : Visits live w) : Visits live w' := by
  intro c hc hne
  rw [h.clients] at hc
  rw [h.closing] at hne
  exact hv c hc hne

/-! ### Visits -/

theorem same_visit_closeOffer (r : Request) (w : World) : Same w (w.visit (World.closeOffer r)) := by
  unfold World.visit
  generalize w.clients = cs
  induction cs generalizing w with
  | nil => exact ⟨rfl, rfl, rfl, rfl, rfl⟩
  | cons c cs ih => exact (same_closeOffer r w c).trans (ih _)

theorem kept_offer (hk : Kept p live w) {c : Conn} (hlive : w.closing ≠ some c.handle → live c.handle) :
    Kept p live (w.offer i c) ∧ Frame w (w.offer i c) := by
  unfold World.offer
  cases hr : w.requests[i]? with
  | none => exact ⟨hk, .refl w⟩
  | some r =>
      dsimp only
      split
      · exact ⟨hk, .refl w⟩
      · rename_i hcond
        split
        · exact ⟨hk, .refl w⟩
        · split
          · exact ⟨hk, .refl w⟩
          · refine ⟨hk.write (i := i) rfl rfl rfl fun r' hr' hs => ?_, ⟨rfl, rfl, rfl⟩⟩
            refine { client := hs.client, elmers := ?_, distinct := hs.distinct, invited := ?_ }
            · intro j s e hj he
              obtain ⟨hl, a, post, pre, hb⟩ := hs.elmers j s e hj he
              exact ⟨hl, a, post, pre, { hb with }⟩
            · intro j s e hj he
              rcases Lib.getElem?_of_modify hj with ⟨-, hj⟩ | ⟨-, y, -, rfl⟩
              · exact hs.invited j s e hj he
              · rw [← Option.some.inj he]
                exact hlive fun h => hcond (.inl h)

theorem kept_visit_offer (hk : Kept p live w) (hv : Visits live w) :
    Kept p live (w.visit (World.offer i)) ∧ Frame w (w.visit (World.offer i)) := by
  have hall : ∀ (cs : List Conn) (w : World), Kept p live w →
      (∀ c ∈ cs, w.closing ≠ some c.handle → live c.handle) →
      Kept p live (cs.foldl (World.offer i) w) ∧ Frame w (cs.foldl (World.offer i) w) := by
    intro cs
    induction cs with
    | nil => intro w hk _; exact ⟨hk, .refl w⟩
    | cons c cs ih =>
        intro w hk hv
        obtain ⟨hk', hf⟩ := kept_offer (i := i) hk (hv c List.mem_cons_self)
        obtain ⟨hk'', hf'⟩ := ih _ hk' fun d hd hne =>
          hv d (List.mem_cons_of_mem _ hd) (by rw [← hf.closing]; exact hne)
        exact ⟨hk'', hf.trans hf'⟩
  exact hall w.clients w hk hv

/-! ### Ticks -/

theorem kept_lapse (hk : Kept p live w) : Kept p live (w.lapse p i) ∧ Frame w (w.lapse p i) := by
  unfold World.lapse
  cases hr : w.requests[i]? with
  | none => exact ⟨hk, .refl w⟩
  | some r =>
      dsimp only
      split
      · have hsame := same_visit_closeOffer r w
        refine ⟨Kept.write_record (w := w) (i := i) (f := Request.revoke) (x := .revoked i) hk ?_ ?_ ?_ ?_ ?_, ?_⟩
        · exact congrArg (fun l : List Request => l.modify i Request.revoke) hsame.requests
        · exact congrArg (List.cons _) hsame.log
        · exact hsame.now
        · intro j e noob hne he
          exact hne he.symm
        · intro r' _ hs
          refine .vacant hs.client (fun j s hj => client_of_cleared hj) fun j s e hj he => ?_
          rw [client_of_cleared hj] at he
          exact absurd he (by simp)
        · exact ⟨hsame.now, hsame.clients, hsame.closing⟩
      · exact ⟨hk, .refl w⟩

theorem kept_reoffer (hk : Kept p live w) (hv : Visits live w) :
    Kept p live (w.reoffer i) ∧ Frame w (w.reoffer i) := by
  unfold World.reoffer
  cases hr : w.requests[i]? with
  | none => exact ⟨hk, .refl w⟩
  | some r =>
      dsimp only
      split
      · exact ⟨hk, .refl w⟩
      · exact kept_visit_offer hk hv

theorem same_release : Same w (w.release p i) := by
  unfold World.release
  cases hr : w.requests[i]? with
  | none => exact ⟨rfl, rfl, rfl, rfl, rfl⟩
  | some r =>
      dsimp only
      split
      · exact ⟨rfl, rfl, rfl, rfl, rfl⟩
      · exact ⟨rfl, rfl, rfl, rfl, rfl⟩

theorem kept_tickOne (hk : Kept p live w) (hv : Visits live w) (i : Nat) :
    Kept p live (w.tickOne p i) ∧ Frame w (w.tickOne p i) := by
  unfold World.tickOne
  cases hr : w.requests[i]? with
  | none => exact ⟨hk, .refl w⟩
  | some r =>
      dsimp only
      split
      · exact ⟨hk, .refl w⟩
      · obtain ⟨hk₁, hf₁⟩ := kept_lapse (i := i) hk
        obtain ⟨hk₂, hf₂⟩ := kept_reoffer (i := i) hk₁ (hf₁.visits hv)
        have hsame := same_release (p := p) (i := i) (w := (w.lapse p i).reoffer i)
        exact ⟨hsame.kept hk₂, (hf₁.trans hf₂).trans hsame.frame⟩

theorem kept_tick (hk : Kept p live w) (hv : Visits live w) :
    Kept p live (w.tick p) ∧ Frame w (w.tick p) := by
  have hall : ∀ (is : List Nat) (w : World), Kept p live w → Visits live w →
      Kept p live (is.foldl (World.tickOne p) w) ∧ Frame w (is.foldl (World.tickOne p) w) := by
    intro is
    induction is with
    | nil => intro w hk _; exact ⟨hk, .refl w⟩
    | cons i is ih =>
        intro w hk hv
        obtain ⟨hk', hf⟩ := kept_tickOne hk hv i
        obtain ⟨hk'', hf'⟩ := ih _ hk' (hf.visits hv)
        exact ⟨hk'', hf.trans hf'⟩
  exact hall _ w hk hv

end Supervision

end RustyRig
