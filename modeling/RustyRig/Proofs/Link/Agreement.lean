/-
A neighbour and the server agree, up to what is still in flight.

The invariant says it with the frames on the channel: they are valid, each fits where
it will be applied, and together they lead from what the neighbour holds to what the
server shares.  A step of the server appends what it posts to the channel, a delivery
takes the first frame off, and nothing else touches either side.

The start is the exchange of snapshots, which makes both sides equal with nothing in
flight.
-/
import RustyRig.Proofs.Link.Receive

namespace RustyRig

open Lib

namespace Links

open LinkTree

variable {u : UuidFormat} {s s' r : Links} {id : Nat} {node : String} {c : Ends} {st : Pair}

/-! ### A session that is gone -/

theorem Handled.node_eq {actor : Option Nat} (hh : Handled u s actor s') : s'.node = s.node := by
  cases hh with
  | same => rfl
  | opened => unfold newSession; split <;> rfl
  | failed => rfl
  | greeted => unfold sendSnapshot sendMessage; split <;> rfl
  | attached => unfold sendMessage; split <;> rfl
  | established => rw [foldl_announce]; rfl
  | introduced => rfl
  | withdrawn => rfl
  | dropped => rfl
  | lost x s₁ _ _ hs₁ => subst hs₁; show Links.node (if _ then _ else _) = _; split <;> rfl

/-- Only a session that is up can be up after a change of sessions that opens none. -/
theorem not_up_modify {i : Nat} {f : LinkSession → LinkSession} (hid : ∀ x, (f x).id = x.id)
    (hdown : ¬ s.Up id)
    (hf : ∀ x ∈ s.sessions, x.id = i → i = id → (f x).established = true → (f x).closing = false →
      x.established = true ∧ x.closing = false) : ¬ (s.modify i f).Up id := by
  rintro ⟨y, hy, hyid, hest, hopen⟩
  obtain ⟨x, hx, rfl⟩ := mem_modify.mp hy
  by_cases hxi : x.id = i
  · rw [if_pos hxi] at hyid hest hopen
    rw [hid] at hyid
    obtain ⟨hxest, hxopen⟩ := hf x hx hxi (hxi.symm.trans hyid) hest hopen
    exact hdown ⟨x, hx, hyid, hxest, hxopen⟩
  · rw [if_neg hxi] at hyid hest hopen
    exact hdown ⟨x, hx, hyid, hest, hopen⟩

/-- A session that went down stays down, and nothing is posted to it. -/
theorem Handled.down {actor : Option Nat} (hh : Handled u s actor s') (h : Sound u s)
    (hsent : s.sent = [])
    (hp : Peered s id node) (hdown : ¬ s.Up id) : s'.posted id = [] ∧ ¬ s'.Up id := by
  have hquiet : s.posted id = [] := by
    unfold posted
    rw [hsent]
    rfl
  cases hh with
  | same => exact ⟨hquiet, hdown⟩
  | opened =>
      unfold newSession
      split
      · exact ⟨hquiet, hdown⟩
      · refine ⟨hquiet, ?_⟩
        rintro ⟨x, hx, hxid, hest, hopen⟩
        rcases List.mem_cons.mp hx with rfl | hx
        · exact absurd hest (by simp)
        · exact hdown ⟨x, hx, hxid, hest, hopen⟩
  | failed i =>
      exact ⟨hquiet, not_up_modify (fun _ => rfl) hdown fun x _ _ _ _ hopen => absurd hopen (by simp)⟩
  | greeted x peer n hx hnew =>
      have hxid : x.id ≠ id := by
        intro hc
        have hest := (hp.session x hx hc).1
        have ho := h.inOrder x hx
        rw [ho.snapshot (ho.admitted ▸ h.admitted_of_established hx hest)] at hnew
        exact absurd hnew (by simp)
      have hgreet := not_up_modify (i := x.id) (f := fun x =>
        { x with peer := peer, node := n, hello := true, identitySeen := true }) (fun _ => rfl) hdown
        fun y _ _ _ hest hopen => ⟨hest, hopen⟩
      unfold sendSnapshot
      rw [posted_sendMessage]
      rotate_left
      · exact hsent
      · exact hxid
      refine ⟨rfl, ?_⟩
      unfold Up
      rw [sendMessage_sessions]
      exact not_up_modify (fun _ => rfl) hgreet fun y _ _ _ hest hopen => ⟨hest, hopen⟩
  | attached x nodes hx hhello hnew hopen =>
      have hxid : x.id ≠ id := fun hc =>
        hdown ⟨x, hx, hc, (hp.session x hx hc).1, hopen⟩
      rw [posted_sendMessage]
      rotate_left
      · exact hsent
      · exact hxid
      refine ⟨rfl, ?_⟩
      unfold Up
      rw [sendMessage_sessions]
      exact not_up_modify (s := { s with tree := _, generation := _ }) (fun _ => rfl) hdown
        fun y _ _ _ hest hopen => ⟨hest, hopen⟩
  | established x hx hadm hnew =>
      have hxid := hp.ne_of_new hx hnew
      have hdown' : ¬ (s.modify x.id fun x => { x with ready := true, established := true }).Up id :=
        not_up_modify (fun _ => rfl) hdown fun y _ _ hc _ _ => absurd hc hxid
      refine ⟨posted_announce_not (s := s.modify _ _) hsent (fun hc => hdown' hc.1) _, ?_⟩
      rw [foldl_announce]
      exact hdown'
  | introduced => exact ⟨posted_broadcast_not hsent (fun hc => hdown hc.1) _, hdown⟩
  | withdrawn => exact ⟨posted_broadcast_not hsent (fun hc => hdown hc.1) _, hdown⟩
  | dropped =>
      exact ⟨hquiet, fun ⟨x, hx, hrest⟩ => hdown ⟨x, (List.mem_filter.mp hx).1, hrest⟩⟩
  | lost x s₁ _ _ hs₁ =>
      subst hs₁
      split
      · exact ⟨posted_broadcast_not hsent (fun hc => hdown hc.1) _,
          fun ⟨x, hx, hrest⟩ => hdown ⟨x, (List.mem_filter.mp hx).1, hrest⟩⟩
      · exact ⟨hquiet, fun ⟨x, hx, hrest⟩ => hdown ⟨x, (List.mem_filter.mp hx).1, hrest⟩⟩

/-! ### The invariant of a pair -/

/-- What is assumed of an arriving frame: an introduction meets no policy, no full table and no
other branch. -/
def GrantedFrame (c : Ends) (st : Pair) : List LinkFrame → Prop
  | .introduce n q w :: _ =>
      (∀ x ∈ st.receiver.sessions, x.id = c.toSender →
        introductionPolicy st.receiver.tree x w q = true) ∧
      st.receiver.tree.count ≠ st.receiver.tree.limit ∧
      ∀ m ∈ st.receiver.tree.nodes, m.server = n → m.peer = st.sender.node
  | _ => True

/-- What is assumed of an event.  The receiver's own end of the link is not touched from outside. -/
def Granted (c : Ends) (st : Pair) : PairEvent → Prop
  | .atSender _ => True
  | .atReceiver e => e.actor ≠ some c.toSender
  | .deliver => GrantedFrame c st st.inFlight

/-- It is assumed of every event of the run, in the state it meets. -/
def GrantedRun (c : Ends) : Pair → List PairEvent → Prop
  | _, [] => True
  | st, e :: es => Granted c st e ∧ GrantedRun c (Pair.step c st e) es

instance (c : Ends) (st : Pair) : (fs : List LinkFrame) → Decidable (GrantedFrame c st fs)
  | .introduce _ _ _ :: _ => inferInstanceAs (Decidable (_ ∧ _ ∧ _))
  | [] | .snapshot _ :: _ | .ready :: _ | .withdraw _ :: _ => isTrue trivial

instance (c : Ends) (st : Pair) : (e : PairEvent) → Decidable (Granted c st e)
  | .atSender _ => isTrue trivial
  | .atReceiver e => inferInstanceAs (Decidable (e.actor ≠ some c.toSender))
  | .deliver => inferInstanceAs (Decidable (GrantedFrame c st st.inFlight))

instance GrantedRun.decidable (c : Ends) :
    (st : Pair) → (es : List PairEvent) → Decidable (GrantedRun c st es)
  | _, [] => isTrue trivial
  | st, e :: es =>
      have := GrantedRun.decidable c (Pair.step c st e) es
      inferInstanceAs (Decidable (Granted c st e ∧ GrantedRun c (Pair.step c st e) es))

/-- The frames in flight lead from what the receiver holds to what the sender shares. -/
structure Agrees (c : Ends) (sender receiver : String) (st : Pair) : Prop where
  soundS : Sound c.uuid st.sender
  soundR : Sound c.uuid st.receiver
  nodeS : st.sender.node = sender
  toReceiver : Peered st.sender c.toReceiver receiver
  toSender : Peered st.receiver c.toSender sender
  up : st.receiver.Up c.toSender
  carried : ∃ last, Carries c.uuid sender (Held st.receiver sender) st.inFlight last ∧
    (st.sender.Up c.toReceiver → last = Shared st.sender receiver)

variable {sender receiver : String}

theorem Agrees.atSender (h : Agrees c sender receiver st) (e : Event) :
    Agrees c sender receiver (Pair.step c st (.atSender e)) := by
  have hclear : Sound c.uuid { st.sender with sent := [] } := h.soundS.sent []
  have hp : Peered { st.sender with sent := [] } c.toReceiver receiver :=
    ⟨h.toReceiver.session, h.toReceiver.old⟩
  have hh := handle_cases hclear e
  obtain ⟨last, hcar, hlast⟩ := h.carried
  refine ⟨hh.sound hclear, h.soundR, hh.node_eq.trans h.nodeS, hh.peered hclear hp, h.toSender, h.up, ?_⟩
  by_cases hup : st.sender.Up c.toReceiver
  · have hstep := hh.carries hclear rfl hp hup
    obtain rfl := hlast hup
    rw [show ({ st.sender with sent := [] } : Links).node = sender from h.nodeS] at hstep
    exact ⟨_, hcar.append hstep, fun _ => rfl⟩
  · obtain ⟨hposted, hdown⟩ := hh.down hclear rfl hp hup
    refine ⟨last, ?_, fun hc => absurd hc hdown⟩
    show Carries _ _ _ (st.inFlight ++ Links.posted _ _) _
    rw [show (Links.step c.uuid st.sender e).posted c.toReceiver = [] from hposted, List.append_nil]
    exact hcar

theorem Agrees.atReceiver (h : Agrees c sender receiver st) {e : Event}
    (hg : Granted c st (.atReceiver e)) :
    Agrees c sender receiver (Pair.step c st (.atReceiver e)) := by
  have hclear : Sound c.uuid { st.receiver with sent := [] } := h.soundR.sent []
  have hp : Peered { st.receiver with sent := [] } c.toSender sender :=
    ⟨h.toSender.session, h.toSender.old⟩
  have hh := handle_cases hclear e
  obtain ⟨last, hcar, hlast⟩ := h.carried
  have hheld : Held (Links.step c.uuid st.receiver e) sender = Held st.receiver sender :=
    hh.held_other hclear hp h.up hg
  refine ⟨h.soundS, hh.sound hclear, h.nodeS, h.toReceiver, hh.peered hclear hp,
    hh.up_other h.up hg, last, ?_, hlast⟩
  show Carries _ _ (Held (Links.step c.uuid st.receiver e) sender) st.inFlight last
  rw [hheld]
  exact hcar

/-- What is delivered is accepted, and does its edit. -/
theorem Agrees.head (h : Agrees c sender receiver st) {f : LinkFrame} {rest : List LinkFrame}
    (hf : st.inFlight = f :: rest) (hg : Granted c st .deliver) :
    ∃ e, f.edit = some e ∧ e.Fits sender (Held st.receiver sender) ∧
      Held (Links.step c.uuid st.receiver (.frame c.toSender f)) sender =
        e.apply (Held st.receiver sender) ∧
      (Links.step c.uuid st.receiver (.frame c.toSender f)).sessions = st.receiver.sessions := by
  obtain ⟨last, hcar, -⟩ := h.carried
  rw [Granted, hf] at hg
  rw [hf] at hcar
  have hvalid := hcar.valid f List.mem_cons_self
  obtain ⟨x, hx, hxid, hest, hopen⟩ := h.up
  obtain ⟨-, hnode⟩ := h.toSender.session x hx hxid
  have hclear : Sound c.uuid { st.receiver with sent := [] } := h.soundR.sent []
  cases f with
  | snapshot nodes => exact absurd hvalid id
  | ready => exact absurd hvalid id
  | introduce n q w =>
      have hreplays := hcar.replays
      rw [List.filterMap_cons_some (show (LinkFrame.introduce n q w).edit = some (.grow n q) from rfl)]
        at hreplays
      cases hreplays with
      | cons fits _ =>
          obtain ⟨hpolicy, hroom, hover⟩ := hg
          rw [h.nodeS] at hover
          have hok := add_accepts h.soundR hx hest hnode hvalid fits hroom hover
          subst hnode
          obtain ⟨hheld, hsess⟩ := deliver_introduce hclear hx hest hopen fits
            (hpolicy x hx hxid) hok
          rw [hxid] at hheld hsess
          exact ⟨_, rfl, fits, hheld, hsess⟩
  | withdraw n =>
      have hreplays := hcar.replays
      rw [List.filterMap_cons_some (show (LinkFrame.withdraw n).edit = some (.prune n) from rfl)]
        at hreplays
      cases hreplays with
      | cons fits _ =>
          subst hnode
          obtain ⟨hheld, hsess⟩ := deliver_withdraw hclear hx hest hopen fits
          rw [hxid] at hheld hsess
          exact ⟨_, rfl, fits, hheld, hsess⟩

theorem Agrees.deliver (h : Agrees c sender receiver st) (hg : Granted c st .deliver) :
    Agrees c sender receiver (Pair.step c st .deliver) := by
  cases hf : st.inFlight with
  | nil =>
      have hsame : Pair.step c st .deliver = st := by
        unfold Pair.step
        simp [hf]
      rw [hsame]
      exact h
  | cons f rest =>
      obtain ⟨e, he, fits, hheld, hsess⟩ := h.head hf hg
      obtain ⟨last, hcar, hlast⟩ := h.carried
      have hstep : Pair.step c st .deliver =
          { st with receiver := Links.step c.uuid st.receiver (.frame c.toSender f)
                    inFlight := rest } := by
        unfold Pair.step
        simp [hf]
      rw [hstep]
      rw [hf] at hcar
      have hclear : Sound c.uuid { st.receiver with sent := [] } := h.soundR.sent []
      have hp : Peered { st.receiver with sent := [] } c.toSender sender :=
        ⟨h.toSender.session, h.toSender.old⟩
      have hh := handle_cases hclear (.frame c.toSender f)
      refine ⟨h.soundS, hh.sound hclear, h.nodeS, h.toReceiver, hh.peered hclear hp, ?_, last,
        ⟨fun g hg => hcar.valid g (List.mem_cons_of_mem _ hg), ?_⟩, hlast⟩
      · obtain ⟨x, hx, hopen⟩ := h.up
        exact ⟨x, hsess ▸ hx, hopen⟩
      · have hreplays := hcar.replays
        rw [List.filterMap_cons_some he] at hreplays
        cases hreplays with
        | cons _ hrest =>
            show Replays sender (Held (Links.step c.uuid st.receiver (.frame c.toSender f)) sender)
              _ last
            rw [hheld]
            exact hrest

theorem Agrees.step (h : Agrees c sender receiver st) {e : PairEvent} (hg : Granted c st e) :
    Agrees c sender receiver (Pair.step c st e) := by
  cases e with
  | atSender e => exact h.atSender e
  | atReceiver e => exact h.atReceiver hg
  | deliver => exact h.deliver hg

theorem Agrees.run (es : List PairEvent) : ∀ {st : Pair}, Agrees c sender receiver st →
    GrantedRun c st es → Agrees c sender receiver (Pair.run c st es) := by
  induction es with
  | nil => exact fun h _ => h
  | cons e es ih => exact fun h hg => ih (h.step hg.1) hg.2

end Links

end RustyRig

/-!
Which servers a server has an established session with.

A frame may establish the session it came on; nothing else establishes one, and only a close
takes one away.
-/

namespace RustyRig

namespace Links

open LinkTree

variable {u : UuidFormat} {s s' : Links}

/-! ### Which sessions are established -/

theorem linked_fail (id : Nat) (p : String) : (s.fail id).Linked p ↔ s.Linked p :=
  linked_modify fun _ _ _ => ⟨rfl, fun _ => rfl⟩

theorem linked_newSession (p : String) : s.newSession.Linked p ↔ s.Linked p := by
  unfold newSession
  split
  · exact Iff.rfl
  constructor
  · rintro ⟨x, hx, hest, hnode⟩
    rcases List.mem_cons.mp hx with rfl | hx
    · exact absurd hest (by simp)
    · exact ⟨x, hx, hest, hnode⟩
  · rintro ⟨x, hx, hest, hnode⟩
    exact ⟨x, List.mem_cons_of_mem _ hx, hest, hnode⟩

theorem linked_sendMessage (id : Nat) (f : LinkFrame) (p : String) :
    (s.sendMessage id f).Linked p ↔ s.Linked p := by
  unfold Linked
  rw [sendMessage_sessions]

/-- A session that greets is not established yet. -/
theorem linked_greeted (h : Sound u s) {x : LinkSession} (hx : x ∈ s.sessions)
    (hnew : x.hello = false) (peer : LinkPeer) (node p : String) :
    ((s.modify x.id fun x =>
      { x with peer := peer, node := node, hello := true, identitySeen := true }).sendSnapshot
        x.id).Linked p ↔ s.Linked p := by
  refine (linked_sendMessage _ _ p).trans (Iff.trans (linked_modify ?_) (linked_modify ?_))
  · exact fun _ _ _ => ⟨rfl, fun _ => rfl⟩
  intro y hy hid
  refine ⟨rfl, fun hest => ?_⟩
  obtain rfl := h.inj hy hx hid
  have ho := h.inOrder y hy
  rw [ho.snapshot (ho.ready (ho.established ▸ hest))] at hnew
  exact absurd hnew (by simp)

theorem linked_handleHello (h : Sound u s) (id : Nat) (peer : LinkPeer) (node : String)
    (accepted : Bool) (p : String) :
    (s.handleHello u id peer node accepted).Linked p ↔ s.Linked p := by
  unfold handleHello
  split
  · exact Iff.rfl
  rename_i x hx
  obtain ⟨hmem, rfl⟩ := session_some hx
  split
  · exact Iff.rfl
  split
  · exact linked_fail x.id p
  rename_i hargs
  split
  · exact linked_fail x.id p
  simp only [Bool.or_eq_true, not_or, Bool.not_eq_true] at hargs
  exact linked_greeted h hmem hargs.1.1.1 peer node p

/-- No frame opens a session or takes one away. -/
theorem handleFrame_ids (h : Sound u s) (id : Nat) (f : LinkFrame) :
    (s.handleFrame u id f).sessions.map (·.id) = s.sessions.map (·.id) := by
  have hfail : ∀ i, (s.fail i).sessions.map (·.id) = s.sessions.map (·.id) :=
    fun i => ids_modify fun _ => rfl
  unfold handleFrame
  split
  · rfl
  rename_i x hx
  obtain ⟨hmem, rfl⟩ := session_some hx
  split
  · rfl
  cases f with
  | snapshot nodes =>
      rcases handleSnapshot_cases h hx nodes with heq | ⟨-, -, -, heq⟩
      · simp only [heq]
        exact hfail x.id
      · simp only [heq, sendMessage_sessions]
        exact ids_modify fun _ => rfl
  | ready =>
      simp only
      split
      swap
      · exact hfail x.id
      rename_i hready
      simp only [Bool.and_eq_true, Bool.not_eq_true'] at hready
      split
      · exact hfail x.id
      rename_i hsnap
      simp only [Bool.or_eq_true, Bool.not_eq_true', not_or, Bool.not_eq_false] at hsnap
      rw [(establish_ready h hx hready.2 hsnap.1).2, foldl_announce]
      exact ids_modify fun _ => rfl
  | introduce node parent site =>
      simp only
      split
      · exact hfail x.id
      split
      · exact hfail x.id
      split
      · rfl
      · exact hfail x.id
  | withdraw node =>
      simp only
      split
      · exact hfail x.id
      split
      · exact hfail x.id
      split
      · rfl
      · exact hfail x.id

/-- A frame leaves the established sessions as they are, or establishes the one it came on. -/
theorem handleFrame_linked (h : Sound u s) (id : Nat) (f : LinkFrame) :
    (∃ x, s.session id = some x ∧ x.established = false ∧ x.admitted = true ∧
      (s.handleFrame u id f).session id = some { x with ready := true, established := true } ∧
      ∀ p, (s.handleFrame u id f).Linked p ↔ s.Linked p ∨ p = x.node) ∨
    ((∀ x y, s.session id = some x → (s.handleFrame u id f).session id = some y →
        y.established = x.established) ∧
      ∀ p, (s.handleFrame u id f).Linked p ↔ s.Linked p) := by
  have hids := handleFrame_ids h id f
  have hcases := handleFrame_cases h id f
  generalize s.handleFrame u id f = s' at hids hcases ⊢
  -- the session is established after the step if it was before
  let Stays (t : Links) : Prop :=
    ∀ x y, s.session id = some x → t.session id = some y → y.established = x.established
  have hstays : Stays s := fun x y hx hy => by rw [Option.some.inj (hx.symm.trans hy)]
  have hmodify : ∀ (t : Links) (g : LinkSession → LinkSession), (∀ x, (g x).id = x.id) →
      (∀ x, (g x).established = x.established) → Stays t → Stays (t.modify id g) := by
    intro t g hid hest ht x y hx hy
    rw [session_modify id hid] at hy
    obtain ⟨z, hz, rfl⟩ := Option.map_eq_some_iff.mp hy
    rw [hest z]
    exact ht x z hx hz
  have hsend : ∀ (t : Links) (f : LinkFrame), Stays t → Stays (t.sendMessage id f) := by
    intro t f ht x y hx hy
    rw [session, sendMessage_sessions] at hy
    exact ht x y hx hy
  have hgone : ∀ x ∈ s.sessions, ∀ (t : Links), s'.sessions = t.sessions.filter (·.id != x.id) →
      False := by
    intro x hx t hs'
    have hmem : x.id ∈ s'.sessions.map (·.id) := by
      rw [hids]
      exact List.mem_map_of_mem hx
    rw [hs'] at hmem
    obtain ⟨y, hy, he⟩ := List.mem_map.mp hmem
    have hne := (List.mem_filter.mp hy).2
    rw [he] at hne
    simp at hne
  cases hcases with
  | same => exact .inr ⟨hstays, fun _ => Iff.rfl⟩
  | failed =>
      exact .inr ⟨hmodify s _ (fun _ => rfl) (fun _ => rfl) hstays, fun p => linked_fail id p⟩
  | greeted x peer node hx hnew halone =>
      refine .inr ⟨hsend _ _ ?_, linked_greeted h hx hnew peer node⟩
      exact hmodify _ _ (fun _ => rfl) (fun _ => rfl)
        (hmodify s _ (fun _ => rfl) (fun _ => rfl) hstays)
  | attached x nodes hx hhello hnew hopen hc =>
      refine .inr ⟨hsend _ _ (hmodify _ _ (fun _ => rfl) (fun _ => rfl) hstays), fun p => ?_⟩
      exact (linked_sendMessage _ _ p).trans (linked_modify fun _ _ _ => ⟨rfl, fun _ => rfl⟩)
  | established x hx hadm hnew =>
      have hlook := session_of_mem h.toOrdered hx
      rw [foldl_announce]
      refine .inl ⟨x, hlook, hnew, hadm, ?_, fun p => ?_⟩
      · have hmod := session_modify (s := s) x.id
          (f := fun x => { x with ready := true, established := true }) fun _ => rfl
        rw [hlook] at hmod
        exact hmod
      · constructor
        · rintro ⟨y, hy, hest, rfl⟩
          obtain ⟨z, hz, rfl⟩ := mem_modify.mp hy
          by_cases hzx : z.id = x.id
          · obtain rfl := h.inj hz hx hzx
            rw [if_pos rfl]
            exact .inr rfl
          · rw [if_neg hzx] at hest ⊢
            exact .inl ⟨z, hz, hest, rfl⟩
        · rintro (⟨y, hy, hest, rfl⟩ | rfl)
          · refine ⟨y, mem_modify.mpr ⟨y, hy, ?_⟩, hest, rfl⟩
            rw [if_neg]
            intro he
            obtain rfl := h.inj hy hx he
            rw [hnew] at hest
            exact absurd hest (by simp)
          · exact ⟨_, mem_modify.mpr ⟨x, hx, rfl⟩, by rw [if_pos rfl], by rw [if_pos rfl]⟩
  | introduced => exact .inr ⟨hstays, fun _ => Iff.rfl⟩
  | withdrawn => exact .inr ⟨hstays, fun _ => Iff.rfl⟩
  | dropped x hx hadm => exact (hgone x hx s rfl).elim
  | lost x s₁ hx hadm hs₁ => exact (hgone x hx s₁ rfl).elim

/-- The session that is closed takes its peer with it. -/
theorem closeSession_linked (h : Sound u s) {id : Nat} {x : LinkSession}
    (hx : s.session id = some x) (p : String) :
    (s.closeSession id).Linked p ↔ s.Linked p ∧ (x.established = true → p ≠ x.node) := by
  obtain ⟨hmem, rfl⟩ := session_some hx
  have hsessions : (s.closeSession x.id).sessions = s.sessions.filter fun y => y.id != x.id := by
    unfold closeSession
    rw [hx]
    simp only
    split
    · split <;> rfl
    · rfl
  have hother : ∀ y ∈ s.sessions, y.established = true → (y.id ≠ x.id ↔
      (x.established = true → y.node ≠ x.node)) := by
    intro y hy hest
    constructor
    · intro hne hestx he
      exact hne (congrArg (·.id) (h.single y hy x hmem (h.admitted_of_established hy hest)
        (h.admitted_of_established hmem hestx) he))
    · intro hne he
      obtain rfl := h.inj hy hmem he
      exact hne hest rfl
  unfold Linked
  rw [hsessions]
  constructor
  · rintro ⟨y, hy, hest, rfl⟩
    obtain ⟨hy, hne⟩ := List.mem_filter.mp hy
    exact ⟨⟨y, hy, hest, rfl⟩, (hother y hy hest).mp (by simpa using hne)⟩
  · rintro ⟨⟨y, hy, hest, rfl⟩, hne⟩
    exact ⟨y, List.mem_filter.mpr ⟨hy, by simpa using (hother y hy hest).mpr hne⟩, hest, rfl⟩

/-- A session's station name is not part of the invariant. -/
theorem Sound.renamed (h : Sound u s) (peer : LinkSession → LinkPeer) :
    Sound u { s with sessions := s.sessions.map fun x => { x with peer := peer x } } := by
  have hmem : ∀ y, y ∈ s.sessions.map (fun x => { x with peer := peer x }) ↔
      ∃ x ∈ s.sessions, { x with peer := peer x } = y := fun y => List.mem_map
  refine ⟨⟨?_, ?_, ?_, ?_⟩, h.tree, h.sites, ?_, ?_, ?_⟩
  · rintro y hy
    obtain ⟨x, hx, rfl⟩ := (hmem y).mp hy
    exact h.fresh x hx
  · rw [List.map_map]
    exact h.ids
  · rintro y hy
    obtain ⟨x, hx, rfl⟩ := (hmem y).mp hy
    have ho := h.inOrder x hx
    exact ⟨ho.greeted, ho.snapshot, ho.admitted, ho.ready, ho.established⟩
  · rintro y hy z hz hyp hzp
    obtain ⟨x, hx, rfl⟩ := (hmem y).mp hy
    obtain ⟨k, hk, rfl⟩ := (hmem z).mp hz
    rw [h.pending x hx k hk hyp hzp]
  · rintro y hy
    obtain ⟨x, hx, rfl⟩ := (hmem y).mp hy
    exact h.rooted x hx
  · rintro y hy z hz hyadm hzadm he
    obtain ⟨x, hx, rfl⟩ := (hmem y).mp hy
    obtain ⟨k, hk, rfl⟩ := (hmem z).mp hz
    rw [h.single x hx k hk hyadm hzadm he]
  · intro n hn
    obtain ⟨x, hx, hown⟩ := h.owned n hn
    exact ⟨_, (hmem _).mpr ⟨x, hx, rfl⟩, hown⟩

theorem linked_renamed (peer : LinkSession → LinkPeer) (p : String) :
    ({ s with sessions := s.sessions.map fun x => { x with peer := peer x } } : Links).Linked p ↔
      s.Linked p := by
  constructor
  · rintro ⟨y, hy, hest, hnode⟩
    obtain ⟨x, hx, rfl⟩ := List.mem_map.mp hy
    exact ⟨x, hx, hest, hnode⟩
  · rintro ⟨x, hx, hest, hnode⟩
    exact ⟨_, List.mem_map.mpr ⟨x, hx, rfl⟩, hest, hnode⟩

end Links

end RustyRig
