/-
From the exchange of snapshots on, two linked servers agree.

A session that is up after the other side's snapshot and `ready` has attached that very
snapshot in between, to a tree that was its own when its snapshot went out.  Admissions
are serialized, so every branch in that tree belonged to an established session: what
one side sent is what it shares, and what the other side holds.
-/
import RustyRig.Proofs.Link.Agreement

namespace RustyRig

open Lib

namespace Links

open LinkTree

variable {u : UuidFormat} {s r : Links} {id : Nat} {c : Ends}

/-! ### An admission -/

theorem open_of_up (h : Ordered s) (hup : s.Up id) :
    ∃ x, s.session id = some x ∧ x.closing = false := by
  obtain ⟨x, hx, rfl, -, hopen⟩ := hup
  exact ⟨x, session_of_mem h hx, hopen⟩

/-- Frames only count on an open session. -/
theorem handleFrame_down (hdown : ¬ ∃ x, s.session id = some x ∧ x.closing = false)
    (f : LinkFrame) : s.handleFrame u id f = s := by
  unfold handleFrame
  split
  · rfl
  rename_i x hx
  split
  · rfl
  · rename_i hopen
    exact absurd ⟨x, hx, by simpa using hopen⟩ hdown

theorem fail_down : ¬ ∃ x, (s.fail id).session id = some x ∧ x.closing = false := by
  rintro ⟨x, hx, hopen⟩
  unfold fail at hx
  rw [session_modify] at hx
  · obtain ⟨y, -, rfl⟩ := Option.map_eq_some_iff.mp hx
    exact absurd hopen (by simp)
  · exact fun _ => rfl

/-- A session that is up after a snapshot and `ready` was admitted by them. -/
theorem admission (h : Sound u s) (nodes : List LinkNodeT)
    (hup : (run u s [.frame id (.snapshot nodes), .frame id .ready]).Up id) :
    ∃ x ∈ s.sessions, x.id = id ∧ Pending x ∧
      Component u s.tree x.node (if 256 < nodes.length then [] else nodes) ∧
      (run u s [.frame id (.snapshot nodes), .frame id .ready]).tree =
        s.tree.attached x.node (if 256 < nodes.length then [] else nodes) ∧
      (run u s [.frame id (.snapshot nodes), .frame id .ready]).sessions =
        (s.modify id fun x => { x with admitted := true, snapshot := true, ready := true,
                                       established := true }).sessions := by
  have hclear := h.sent []
  have h₁ := (h.step (.frame id (.snapshot nodes))).sent []
  have hrun : run u s [.frame id (.snapshot nodes), .frame id .ready] =
      step u (step u s (.frame id (.snapshot nodes))) (.frame id .ready) := rfl
  rw [hrun] at hup ⊢
  generalize hs₁ : step u s (.frame id (.snapshot nodes)) = s₁ at hup h₁ ⊢
  -- the session is open when `ready` comes, and when the snapshot comes
  have hopen₁ : ∃ x, s₁.session id = some x ∧ x.closing = false := by
    by_contra hdown
    have hsame : step u s₁ (.frame id .ready) = { s₁ with sent := [] } := by
      show handleFrame u { s₁ with sent := [] } id .ready = _
      exact handleFrame_down (s := { s₁ with sent := [] }) hdown _
    rw [hsame] at hup
    exact hdown (open_of_up (s := { s₁ with sent := [] }) h₁.toOrdered hup)
  have hopen : ∃ x, s.session id = some x ∧ x.closing = false := by
    by_contra hdown
    have hsame : step u s (.frame id (.snapshot nodes)) = { s with sent := [] } := by
      show handleFrame u { s with sent := [] } id (.snapshot nodes) = _
      exact handleFrame_down (s := { s with sent := [] }) hdown _
    rw [hs₁] at hsame
    rw [hsame] at hopen₁
    exact hdown hopen₁
  obtain ⟨x, hx, hxopen⟩ := hopen
  obtain ⟨hmem, rfl⟩ := session_some hx
  have hattach : s₁ = handleSnapshot u { s with sent := [] } x nodes := by
    rw [← hs₁]
    show handleFrame u { s with sent := [] } x.id (.snapshot nodes) = _
    unfold handleFrame
    rw [show ({ s with sent := [] } : Links).session x.id = some x from hx]
    simp [hxopen]
  rcases handleSnapshot_cases hclear hx nodes with hfail | ⟨hhello, hsnap, hc, heq⟩
  · rw [hattach, hfail] at hopen₁
    exact absurd hopen₁ fail_down
  have hord := h.inOrder x hmem
  have hready : x.ready = false := by
    rw [Bool.eq_false_iff]
    exact fun hr => absurd (hord.ready hr) (by simp [hsnap])
  refine ⟨x, hmem, rfl, ⟨hord.established.trans hready, Or.inr ⟨hhello, hxopen⟩⟩, hc, ?_⟩
  generalize (if 256 < nodes.length then [] else nodes) = nodes at heq hc ⊢
  rw [heq] at hattach
  have htree₁ : s₁.tree = s.tree.attached x.node nodes := by
    rw [hattach, sendMessage_tree]
    rfl
  have hsess₁ : s₁.sessions =
      (s.modify x.id fun x => { x with admitted := true, snapshot := true }).sessions := by
    rw [hattach, sendMessage_sessions]
    rfl
  have hx₁ : s₁.session x.id = some { x with admitted := true, snapshot := true } := by
    have hlook := session_modify (s := s) x.id
      (f := fun x => { x with admitted := true, snapshot := true }) fun _ => rfl
    rw [hx] at hlook
    unfold session at hlook ⊢
    rw [hsess₁]
    exact hlook
  -- `ready` either fails the session or establishes it
  have hstep : step u s₁ (.frame x.id .ready) = fail { s₁ with sent := [] } x.id ∨
      step u s₁ (.frame x.id .ready) =
        (modify { s₁ with sent := [] } x.id fun x => { x with ready := true }).establish x.id := by
    show handleFrame u { s₁ with sent := [] } x.id .ready = _ ∨
      handleFrame u { s₁ with sent := [] } x.id .ready = _
    unfold handleFrame
    rw [show ({ s₁ with sent := [] } : Links).session x.id =
      some { x with admitted := true, snapshot := true } from hx₁]
    simp only [hxopen, hhello, hready, Bool.not_false, Bool.and_self, Bool.not_true, Bool.false_or,
      Bool.false_eq_true, if_false, if_true]
    split
    · exact Or.inl rfl
    · exact Or.inr rfl
  rcases hstep with hfail | hest
  · rw [hfail] at hup
    exact absurd (open_of_up (h₁.fail x.id).toOrdered hup) fail_down
  · have hestablish := (establish_ready h₁ (x := { x with admitted := true, snapshot := true })
      hx₁ hready rfl).2
    rw [hest, hestablish, foldl_announce]
    refine ⟨htree₁, ?_⟩
    show (s₁.sessions.map _) = _
    rw [hsess₁]
    show ((s.modify x.id _).modify x.id _).sessions = _
    rw [modify_modify]
    · rfl
    · exact fun _ => rfl

/-! ### Snapshots -/

theorem node_getElem {t : LinkTree} {i : Nat} {k : LinkNodeT} (hk : t.node i = some k) :
    ∃ n, t.nodes[i]? = some n ∧ k = { server := some n.server
                                      parent := if i = 0 then none else some n.parent
                                      site := some n.site } := by
  obtain ⟨n, hn, rfl⟩ := Option.map_eq_some_iff.mp hk
  exact ⟨n, hn, rfl⟩

theorem length_snapshotNodes {t : LinkTree} {loc : String} (h : WellFormed u loc t) :
    ¬ 256 < (snapshotNodes t).length := by
  have hle := List.length_filterMap_le t.node (List.range t.count)
  rw [List.length_range] at hle
  have hcount := h.count_le
  have hlimit := h.limit_le
  unfold snapshotNodes
  omega

/-- Attached below its sender, a snapshot has the sender's own parents. -/
theorem snapshot_edges {t : LinkTree} {loc : String} (h : WellFormed u loc t) (t' : LinkTree)
    {a q : String} :
    (∃ n ∈ (snapshotNodes t).map (t'.admitted loc), n.server = a ∧ n.parent = q ∧ a ≠ loc) ↔
      t.Edge a q := by
  obtain ⟨site, hroot⟩ := h.root
  constructor
  · rintro ⟨n, hn, rfl, rfl, hne⟩
    obtain ⟨k, hk, rfl⟩ := List.mem_map.mp hn
    obtain ⟨i, -, hi⟩ := List.mem_filterMap.mp hk
    obtain ⟨m, hm, rfl⟩ := node_getElem hi
    have hpos : i ≠ 0 := by
      rintro rfl
      rw [hroot] at hm
      obtain rfl := Option.some.inj hm
      exact hne rfl
    refine ⟨m, h.remote_getElem?.mpr ⟨i, Nat.pos_of_ne_zero hpos, hm⟩, rfl, ?_⟩
    simp [admitted, hpos]
  · rintro ⟨m, hm, rfl, rfl⟩
    obtain ⟨i, hpos, hi⟩ := h.remote_getElem?.mp hm
    have hne : i ≠ 0 := by omega
    have hk : { server := some m.server, parent := some m.parent, site := some m.site } ∈
        snapshotNodes t := by
      obtain ⟨hlt, -⟩ := List.getElem?_eq_some_iff.mp hi
      exact List.mem_filterMap.mpr ⟨i, List.mem_range.mpr hlt, by simp [LinkTree.node, hi, hne]⟩
    exact ⟨_, List.mem_map_of_mem hk, rfl, rfl, h.remote_ne hm⟩

/-! ### Agreement -/

/-- The session leads to `node`, is established and open. -/
def UpWith (s : Links) (id : Nat) (node : String) : Prop :=
  ∃ x ∈ s.sessions, x.id = id ∧ x.established = true ∧ x.closing = false ∧ x.node = node

theorem UpWith.up {node : String} (h : s.UpWith id node) : s.Up id := by
  obtain ⟨x, hx, hxid, hest, hopen, -⟩ := h
  exact ⟨x, hx, hxid, hest, hopen⟩

theorem UpWith.peered {node : String} (h : s.UpWith id node) (hs : Sound u s) :
    Peered s id node := by
  obtain ⟨x, hx, rfl, hest, -, hnode⟩ := h
  refine ⟨fun y hy he => ?_, hs.fresh x hx⟩
  obtain rfl := hs.inj hy hx he
  exact ⟨hest, hnode⟩

/-- Once the last admission is done, all branches but the newest were shared before. -/
theorem join_shared (h : Sound u s) {nodes : List LinkNodeT} {node : String}
    (hup : (run u s [.frame id (.snapshot nodes), .frame id .ready]).UpWith id node) :
    Shared (run u s [.frame id (.snapshot nodes), .frame id .ready]) node = s.tree.Edge := by
  obtain ⟨x, hx, hxid, hpend, hc, htree, hsess⟩ := admission h nodes hup.up
  have hpeered := hup.peered (h.run [.frame id (.snapshot nodes), .frame id .ready])
  have hmod : { x with admitted := true, snapshot := true, ready := true, established := true } ∈
      (run u s [.frame id (.snapshot nodes), .frame id .ready]).sessions := by
    rw [hsess]
    exact mem_modify.mpr ⟨x, hx, by rw [if_pos hxid]⟩
  have hnode : x.node = node := (hpeered.session _ hmod hxid).2
  obtain ⟨-, hfresh⟩ := component_root h.tree hc
  have hremote : (run u s [.frame id (.snapshot nodes), .frame id .ready]).tree.remote =
      s.tree.remote ++ (if 256 < nodes.length then [] else nodes).map (s.tree.admitted x.node) := by
    rw [htree]
    exact h.tree.remote_extended _
  funext a q
  apply propext
  unfold Shared
  rw [hremote]
  constructor
  · rintro ⟨n, hn, ha, hq, hne, -⟩
    rcases List.mem_append.mp hn with hn | hn
    · exact ⟨n, hn, ha, hq⟩
    · obtain ⟨k, -, rfl⟩ := List.mem_map.mp hn
      exact absurd hnode hne
  · rintro ⟨n, hn, ha, hq⟩
    obtain ⟨y, hy, hadm, hpeer⟩ := h.owned n hn
    have hyid : y.id ≠ id := by
      intro hc
      obtain rfl := h.inj hy hx (hc.trans hxid.symm)
      obtain ⟨m, hm, hms, -⟩ := h.rooted y hy hadm
      exact find_none.mp hfresh m (WellFormed.remote_mem hm) hms
    have hyest : y.established = true := by
      by_contra hest
      have hsame := h.pending y hy x hx ⟨by simpa using hest, Or.inl hadm⟩ hpend
      exact hyid (hsame ▸ hxid)
    refine ⟨n, List.mem_append_left _ hn, ha, hq, ?_, y, ?_, hyest, hpeer⟩
    · rw [← hnode, ← hpeer]
      intro hc
      obtain ⟨m, hm, hms, -⟩ := h.rooted y hy hadm
      exact find_none.mp hfresh m (WellFormed.remote_mem hm) (hms.trans hc)
    · rw [hsess]
      exact mem_modify.mpr ⟨y, hy, by rw [if_neg hyid]⟩

/-- What is attached from a snapshot is the sender's tree. -/
theorem join_held (h : Sound u s) (hr : Sound u r)
    (hup : (run u r [.frame id (.snapshot (snapshotNodes s.tree)), .frame id .ready]).UpWith id
      s.node) :
    Held (run u r [.frame id (.snapshot (snapshotNodes s.tree)), .frame id .ready]) s.node =
      s.tree.Edge := by
  obtain ⟨x, hx, hxid, -, hc, htree, hsess⟩ := admission hr _ hup.up
  have hpeered := hup.peered
    (hr.run [.frame id (.snapshot (snapshotNodes s.tree)), .frame id .ready])
  have hmod : { x with admitted := true, snapshot := true, ready := true, established := true } ∈
      (run u r [.frame id (.snapshot (snapshotNodes s.tree)), .frame id .ready]).sessions := by
    rw [hsess]
    exact mem_modify.mpr ⟨x, hx, by rw [if_pos hxid]⟩
  have hnode : x.node = s.node := (hpeered.session _ hmod hxid).2
  rw [if_neg (length_snapshotNodes h.tree), hnode] at hc htree
  obtain ⟨-, hfresh⟩ := component_root hr.tree hc
  funext a q
  apply propext
  rw [← snapshot_edges h.tree r.tree]
  unfold Held
  rw [htree, show r.tree.attached s.node (snapshotNodes s.tree) =
    r.tree.extended ((snapshotNodes s.tree).map (r.tree.admitted s.node)) from rfl,
    hr.tree.remote_extended]
  constructor
  · rintro ⟨n, hn, ha, hq, hp, hne⟩
    rcases List.mem_append.mp hn with hn | hn
    · -- the server was in no branch before
      obtain ⟨b, hb, hbs, -, -⟩ := hr.tree.peer_child hn
      exact absurd (hbs.trans hp) (find_none.mp hfresh b (WellFormed.remote_mem hb))
    · exact ⟨n, hn, ha, hq, hne⟩
  · rintro ⟨n, hn, ha, hq, hne⟩
    refine ⟨n, List.mem_append_right _ hn, ha, hq, ?_, hne⟩
    obtain ⟨k, -, rfl⟩ := List.mem_map.mp hn
    rfl

theorem run_node (es : List Event) : ∀ {s : Links}, Sound u s → (run u s es).node = s.node := by
  induction es with
  | nil => exact fun _ => rfl
  | cons e es ih =>
      intro s hs
      exact (ih (hs.step e)).trans (handle_cases (hs.sent []) e).node_eq

theorem init_node {node site : String} {limit : Nat} (hinit : init u node limit site = some s) :
    s.node = node := by
  unfold init at hinit
  split at hinit
  · exact absurd hinit (by simp)
  split at hinit
  · rw [← Option.some.inj hinit]
  · exact absurd hinit (by simp)

theorem join_agrees (hs : Sound c.uuid s) (hr : Sound c.uuid r)
    (hups : (Pair.join c s r).sender.UpWith c.toReceiver r.node)
    (hupr : (Pair.join c s r).receiver.UpWith c.toSender s.node) :
    Agrees c s.node r.node (Pair.join c s r) where
  soundS := hs.run _
  soundR := hr.run _
  nodeS := run_node _ hs
  toReceiver := hups.peered (hs.run _)
  toSender := hupr.peered (hr.run _)
  up := hupr.up
  carried := by
    refine ⟨Shared (Pair.join c s r).sender r.node, ?_, fun _ => rfl⟩
    have hheld : Held (Pair.join c s r).receiver s.node = s.tree.Edge := join_held hs hr hupr
    have hshared : Shared (Pair.join c s r).sender r.node = s.tree.Edge := join_shared hs hups
    rw [hheld, hshared]
    exact Carries.nil

/-- **A server and its neighbour agree, up to what is in flight.**

Two servers, each reached by any events, exchange snapshots and are linked; after that
anything happens at the sender, anything that does not concern this link at the
receiver, and deliveries.  Then every introduction that arrives is accepted, every
withdrawal that arrives is accepted, nothing else is ever posted, and while the sender
has the link, applying the frames in flight to the receiver's branch gives the parents
in all of the sender's branches that belong to established sessions, the receiver's own
left out. -/
theorem link_agreement (c : Ends) (nodeS nodeR siteS siteR : String) (limitS limitR : Nat)
    (startS startR : Links) (hS : init c.uuid nodeS limitS siteS = some startS)
    (hR : init c.uuid nodeR limitR siteR = some startR) (beforeS beforeR : List Event) :
    let start := Pair.join c (run c.uuid startS beforeS) (run c.uuid startR beforeR)
    start.sender.UpWith c.toReceiver nodeR → start.receiver.UpWith c.toSender nodeS →
    ∀ es, GrantedRun c start es →
    let st := Pair.run c start es
    (∀ n q w rest, st.inFlight = .introduce n q w :: rest → Granted c st .deliver →
      (LinkTree.add c.uuid st.receiver.tree (some nodeS) (some n) (some q) (some w)).1 = .ok) ∧
    (∀ n rest, st.inFlight = .withdraw n :: rest →
      (LinkTree.remove st.receiver.tree (some nodeS) (some n)).1 = true) ∧
    (∀ f ∈ st.inFlight, f.Valid c.uuid) ∧ st.receiver.Up c.toSender ∧
    (st.sender.Up c.toReceiver →
      (st.inFlight.filterMap LinkFrame.edit).foldl Edit.apply (Held st.receiver nodeS) =
        Shared st.sender nodeR) := by
  intro start hups hupr es hg st
  have hs : Sound c.uuid (run c.uuid startS beforeS) := (sound_init hS).run beforeS
  have hr : Sound c.uuid (run c.uuid startR beforeR) := (sound_init hR).run beforeR
  have hnodeS : (run c.uuid startS beforeS).node = nodeS :=
    (run_node beforeS (sound_init hS)).trans (init_node hS)
  have hnodeR : (run c.uuid startR beforeR).node = nodeR :=
    (run_node beforeR (sound_init hR)).trans (init_node hR)
  have h : Agrees c nodeS nodeR st := by
    have hjoin := join_agrees hs hr (hnodeR.symm ▸ hups) (hnodeS.symm ▸ hupr)
    rw [hnodeS, hnodeR] at hjoin
    exact hjoin.run es hg
  obtain ⟨last, hcar, hlast⟩ := h.carried
  refine ⟨fun n q w rest hf hgrant => ?_, fun n rest hf => ?_, hcar.valid, h.up, fun hup => ?_⟩
  · obtain ⟨x, hx, hxid, hest, -⟩ := h.up
    obtain ⟨e, he, fits, -⟩ := h.head hf hgrant
    obtain rfl := Option.some.inj he
    rw [Granted, hf] at hgrant
    obtain ⟨-, hroom, hover⟩ := hgrant
    rw [h.nodeS] at hover
    exact add_accepts h.soundR hx hest (h.toSender.session x hx hxid).2
      (hcar.valid _ (by rw [hf]; exact List.mem_cons_self)) fits hroom hover
  · have hgrant : Granted c st .deliver := by
      rw [Granted, hf]
      trivial
    obtain ⟨e, he, fits, -⟩ := h.head hf hgrant
    obtain rfl := Option.some.inj he
    exact remove_accepts h.soundR fits
  · rw [hcar.replays.foldl_eq]
    exact hlast hup

instance (s : Links) (id : Nat) : Decidable (s.Up id) :=
  inferInstanceAs (Decidable (∃ x ∈ s.sessions, _ ∧ _ ∧ _))

instance (s : Links) (id : Nat) (node : String) : Decidable (s.UpWith id node) :=
  inferInstanceAs (Decidable (∃ x ∈ s.sessions, _ ∧ _ ∧ _ ∧ _))

/-! ### A third server joins -/

namespace Example

def a : String := "aaaaaaaa-0000-4000-8000-000000000001"
def b : String := "bbbbbbbb-0000-4000-8000-000000000002"
def x : String := "cccccccc-0000-4000-8000-000000000003"
def y : String := "dddddddd-0000-4000-8000-000000000004"

def ends : Ends := ⟨.hex, 0, 0⟩

def alone (node site : String) : Links := ⟨node, ⟨[⟨node, "", "", site⟩], 8⟩, 0, [], 0, []⟩

def hello (id : Nat) (node site : String) : Event := .hello id ⟨site, "", false, 0⟩ node true

def linked : Pair :=
  Pair.join ends (run ends.uuid (alone a "A") [.newSession, hello 0 b "B"])
    (run ends.uuid (alone b "B") [.newSession, hello 0 a "A"])

/-- `x`, with `y` behind it, is admitted by `a`. -/
def joining : List PairEvent :=
  [.atSender .newSession, .atSender (hello 1 x "X"),
    .atSender (.frame 1 (.snapshot [⟨some y, some x, some "Y"⟩, ⟨some x, none, some "X"⟩]))]

end Example

open Example in
/-- Once the link is established and its first introduction delivered, the other is in flight. -/
theorem link_agreement_join :
    let st := Pair.run ends linked (joining ++ [.atSender (.frame 1 .ready), .deliver])
    st.inFlight = [.introduce y x "Y"] ∧
      (LinkTree.add ends.uuid st.receiver.tree (some a) (some y) (some x) (some "Y")).1 = .ok ∧
      (st.inFlight.filterMap LinkFrame.edit).foldl Edit.apply (Held st.receiver a) =
        Shared st.sender b := by
  intro st
  have hflight : st.inFlight = [.introduce y x "Y"] := by decide +kernel
  have h := link_agreement ends a b "A" "B" 8 8 (alone a "A") (alone b "B") (by decide +kernel)
    (by decide +kernel) [.newSession, hello 0 b "B"] [.newSession, hello 0 a "A"]
    (by decide +kernel) (by decide +kernel) (joining ++ [.atSender (.frame 1 .ready), .deliver])
    (by decide +kernel)
  exact ⟨hflight, h.1 y x "Y" [] hflight (by decide +kernel), h.2.2.2.2 (by decide +kernel)⟩

open Example in
/-- While the third server is admitted and not yet established, it is in the sender's table and
neither in flight nor with the neighbour. -/
theorem link_agreement_not_before_established :
    let st := Pair.run ends linked joining
    init ends.uuid a 8 "A" = some (alone a "A") ∧ init ends.uuid b 8 "B" = some (alone b "B") ∧
      linked.sender.UpWith 0 b ∧ linked.receiver.UpWith 0 a ∧ GrantedRun ends linked joining ∧
      st.sender.Up 0 ∧ st.receiver.Up 0 ∧
      ¬ ((st.inFlight.filterMap LinkFrame.edit).foldl Edit.apply (Held st.receiver a) =
        fun s q => ∃ n ∈ st.sender.tree.remote, n.server = s ∧ n.parent = q ∧ n.peer ≠ b) := by
  intro st
  refine ⟨by decide +kernel, by decide +kernel, by decide +kernel, by decide +kernel,
    by decide +kernel, by decide +kernel, by decide +kernel, fun heq => ?_⟩
  have hflight : st.inFlight = [] := by decide +kernel
  have htable : ∃ n ∈ st.sender.tree.remote, n.server = x ∧ n.parent = a ∧ n.peer ≠ b := by
    decide +kernel
  have hnot : ¬ ∃ n ∈ st.receiver.tree.remote, n.server = x ∧ n.parent = a ∧ n.peer = a ∧ x ≠ a := by
    decide +kernel
  rw [hflight] at heq
  exact hnot ((congrFun (congrFun heq x) a).mpr htable)

end Links

end RustyRig
