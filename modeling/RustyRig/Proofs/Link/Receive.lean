/-
What a neighbour holds of a server's branch, and how it takes in what is posted to it.

`Held` is the parent relation of the branch that hangs on the session with the server,
below the server itself.  Only the frames of that session change it.  A frame whose
edit fits is accepted by the tree, so its edit is what happens to the branch.
-/
import RustyRig.Proofs.Link.Share

namespace RustyRig

open Lib

namespace Links

open LinkTree

variable {u : UuidFormat} {s s' : Links} {id : Nat} {node : String}

/-- The parents in the branch of `via`, below `via`. -/
def Held (s : Links) (via : String) (a q : String) : Prop :=
  ∃ n ∈ s.tree.remote, n.server = a ∧ n.parent = q ∧ n.peer = via ∧ a ≠ via

/-! ### What other sessions do -/

theorem held_extended (h : Sound u s) {l : List LinkNode} (hl : ∀ n ∈ l, n.peer ≠ node)
    (htree : s'.tree = s.tree.extended l) : Held s' node = Held s node := by
  funext a q
  apply propext
  unfold Held
  rw [htree, h.tree.remote_extended]
  constructor
  · rintro ⟨n, hn, ha, hq, hp, hne⟩
    rcases List.mem_append.mp hn with hn | hn
    · exact ⟨n, hn, ha, hq, hp, hne⟩
    · exact absurd hp (hl n hn)
  · rintro ⟨n, hn, hrest⟩
    exact ⟨n, List.mem_append_left _ hn, hrest⟩

theorem held_pruned (h : Sound u s) {n : LinkNode} (hn : n ∈ s.tree.remote) (hne : n.peer ≠ node)
    (htree : s'.tree = s.tree.pruned n.server) : Held s' node = Held s node := by
  have hremote := fun m => h.tree.mem_remote_pruned (n := m) (h.tree.remote_ne hn)
  funext a q
  apply propext
  unfold Held
  rw [htree]
  constructor
  · rintro ⟨m, hm, hrest⟩
    exact ⟨m, ((hremote m).mp hm).1, hrest⟩
  · rintro ⟨m, hm, ha, hq, hp, hav⟩
    refine ⟨m, (hremote m).mpr ⟨hm, fun hb => ?_⟩, ha, hq, hp, hav⟩
    obtain ⟨k, hk, hks, hkp, -⟩ := below_peer h.tree hn hb
    obtain rfl := h.tree.mem_inj (WellFormed.remote_mem hk) (WellFormed.remote_mem hm) hks
    exact hne (hkp.symm.trans hp)

/-- A session is untouched by what concerns another. -/
theorem up_of_mem (hup : s.Up id) (hmem : ∀ x ∈ s.sessions, x.id = id → x ∈ s'.sessions) :
    s'.Up id := by
  obtain ⟨x, hx, hxid, hopen⟩ := hup
  exact ⟨x, hmem x hx hxid, hxid, hopen⟩

theorem mem_modify_other {i : Nat} {f : LinkSession → LinkSession} (hne : i ≠ id) :
    ∀ x ∈ s.sessions, x.id = id → x ∈ (s.modify i f).sessions := by
  intro x hx hxid
  refine mem_modify.mpr ⟨x, hx, ?_⟩
  rw [if_neg fun hc => hne (hc.symm.trans hxid)]

theorem Handled.up_other {actor : Option Nat} (hh : Handled u s actor s') (hup : s.Up id)
    (hne : actor ≠ some id) : s'.Up id := by
  have hx : ∀ {x : LinkSession}, some x.id ≠ some id → x.id ≠ id := fun hc he => hc (congrArg some he)
  cases hh with
  | same => exact hup
  | opened =>
      unfold newSession
      split
      · exact hup
      · exact up_of_mem hup fun x hx _ => List.mem_cons_of_mem _ hx
  | failed i => exact up_of_mem hup (mem_modify_other fun hc => hne (congrArg some hc))
  | greeted x peer n =>
      refine up_of_mem hup fun y hy hyid => ?_
      unfold sendSnapshot
      rw [sendMessage_sessions]
      exact mem_modify_other (hx hne) y (mem_modify_other (hx hne) y hy hyid) hyid
  | attached x nodes =>
      refine up_of_mem hup fun y hy hyid => ?_
      rw [sendMessage_sessions]
      exact mem_modify_other (hx hne) y hy hyid
  | established x =>
      rw [foldl_announce]
      exact up_of_mem hup fun y hy hyid => mem_modify_other (hx hne) y hy hyid
  | introduced => exact hup
  | withdrawn => exact hup
  | dropped x =>
      refine up_of_mem hup fun y hy hyid => List.mem_filter.mpr ⟨hy, ?_⟩
      rw [bne_iff_ne]
      exact fun hc => hx hne (hc.symm.trans hyid)
  | lost x s₁ _ _ hs₁ =>
      refine up_of_mem hup fun y hy hyid => List.mem_filter.mpr ⟨?_, ?_⟩
      · rw [hs₁]
        split <;> exact hy
      · rw [bne_iff_ne]
        exact fun hc => hx hne (hc.symm.trans hyid)

/-- What concerns another session leaves the branch alone. -/
theorem Handled.held_other {actor : Option Nat} (hh : Handled u s actor s') (h : Sound u s)
    (hp : Peered s id node) (hup : s.Up id) (hne : actor ≠ some id) :
    Held s' node = Held s node := by
  have hx : ∀ {x : LinkSession}, some x.id ≠ some id → x.id ≠ id := fun hc he => hc (congrArg some he)
  cases hh with
  | same => rfl
  | opened =>
      unfold newSession
      split <;> rfl
  | failed i => rfl
  | greeted x peer n =>
      unfold Held sendSnapshot
      rw [sendMessage_tree]
      rfl
  | attached x nodes hmem _ _ _ hc =>
      refine held_extended h (l := nodes.map (s.tree.admitted x.node)) ?_ (sendMessage_tree _ _)
      intro n hn
      obtain ⟨k, hk, rfl⟩ := List.mem_map.mp hn
      -- the server is in the tree, and what joins is not
      obtain ⟨y, hy, hyid, hest, -⟩ := hup
      obtain ⟨m, hm, hms, -⟩ := h.rooted y hy (h.admitted_of_established hy hest)
      obtain ⟨-, hfresh⟩ := component_root h.tree hc
      intro hpeer
      exact find_none.mp hfresh m (WellFormed.remote_mem hm)
        (hms.trans ((hp.session y hy hyid).2.trans hpeer.symm))
  | established x =>
      unfold Held
      rw [foldl_announce]
      rfl
  | introduced x n q w hmem hest hclosing hadd =>
      refine held_extended h (l := [⟨n, q, x.node, w⟩]) ?_ rfl
      intro k hk
      rw [List.mem_singleton.mp hk]
      exact hp.node_ne h hup hmem (h.admitted_of_established hmem hest) (hx hne)
  | withdrawn x n hmem hest hclosing hn hpeer =>
      refine held_pruned h hn ?_ rfl
      rw [hpeer]
      exact hp.node_ne h hup hmem (h.admitted_of_established hmem hest) (hx hne)
  | dropped => rfl
  | lost x s₁ hmem hadm hs₁ =>
      obtain ⟨root, hroot, hrs, hrp⟩ := h.rooted x hmem hadm
      refine held_pruned h hroot ?_ ?_
      · rw [hrp]
        exact hp.node_ne h hup hmem hadm (hx hne)
      · rw [hrs]
        show s₁.tree = _
        rw [hs₁]
        split <;> rfl

/-! ### What its own session brings -/

theorem session_of_mem (h : Ordered s) {x : LinkSession} (hx : x ∈ s.sessions) :
    s.session x.id = some x := by
  cases hf : s.session x.id with
  | none => exact absurd (List.find?_eq_none.mp hf x hx) (by simp)
  | some y =>
      obtain ⟨hy, hid⟩ := session_some hf
      rw [h.inj hy hx hid]

theorem member_held {a : String} (hm : Member (Held s node) a) :
    ∃ n ∈ s.tree.remote, n.server = a ∧ n.peer = node := by
  obtain ⟨q, n, hn, ha, -, hp, -⟩ := hm
  exact ⟨n, hn, ha, hp⟩

/-- An introduction that fits is accepted, given room and no overlap with another branch. -/
theorem add_accepts (h : Sound u s) {x : LinkSession} (hx : x ∈ s.sessions)
    (hest : x.established = true) (hnode : x.node = node) {n q w : String}
    (hvalid : (LinkFrame.introduce n q w).Valid u)
    (hfits : (Edit.grow n q).Fits node (Held s node)) (hroom : s.tree.count ≠ s.tree.limit)
    (hover : ∀ m ∈ s.tree.nodes, m.server = n → m.peer = node) :
    (LinkTree.add u s.tree (some node) (some n) (some q) (some w)).1 = .ok := by
  obtain ⟨root, hroot, hrs, hrp⟩ := h.rooted x hx (h.admitted_of_established hx hest)
  rw [hnode] at hrs hrp
  obtain ⟨hn, hq, hw⟩ := hvalid
  obtain ⟨hne, hnew, hparent⟩ := hfits
  have hfind : s.tree.find (some node) = some root :=
    hrs ▸ h.tree.find_eq (WellFormed.remote_mem hroot)
  refine add_ok_iff.mpr ⟨⟨hrs ▸ h.tree.valid root (WellFormed.remote_mem hroot), hn, hq, hw⟩, ?_, ?_,
    hroom⟩
  · rcases hparent with rfl | hm
    · exact ⟨root, root, hfind, hfind, hrp, hrs.trans hrp.symm, hrp⟩
    · obtain ⟨k, hk, rfl, hkp⟩ := member_held hm
      exact ⟨k, root, h.tree.find_eq (WellFormed.remote_mem hk), hfind, hrp, hrs.trans hrp.symm, hkp⟩
  · refine find_none.mpr fun m hm hms => ?_
    have hpeer := hover m hm hms
    refine hnew ⟨m.parent, m, h.tree.mem_remote hm ?_, hms, rfl, hpeer, hne⟩
    rw [hpeer, ← hrp]
    exact h.tree.peer_ne hroot

/-- A withdrawal that fits is accepted. -/
theorem remove_accepts (h : Sound u s) {n : String}
    (hfits : (Edit.prune n).Fits node (Held s node)) :
    (LinkTree.remove s.tree (some node) (some n)).1 = true := by
  obtain ⟨k, hk, rfl, hkp⟩ := member_held hfits.2
  have hfind := h.tree.find_eq (WellFormed.remote_mem hk)
  have hne := h.tree.peer_ne hk
  obtain ⟨i, hi⟩ := List.mem_iff_getElem?.mp (WellFormed.remote_mem hk)
  have hindex := h.tree.indexOf_iff.mpr ⟨k, hi, rfl⟩
  rw [hkp] at hne
  simp [LinkTree.remove, hfind, hindex, hkp, hne]

/-- A frame that is accepted does its edit to the branch. -/
theorem deliver_introduce (h : Sound u s) {x : LinkSession} (hx : x ∈ s.sessions)
    (hest : x.established = true) (hopen : x.closing = false) {n q w : String}
    (hfits : (Edit.grow n q).Fits x.node (Held s x.node))
    (hpolicy : introductionPolicy s.tree x w q = true)
    (hok : (LinkTree.add u s.tree (some x.node) (some n) (some q) (some w)).1 = .ok) :
    Held (s.handleFrame u x.id (.introduce n q w)) x.node =
      (Edit.grow n q).apply (Held s x.node) ∧
    (s.handleFrame u x.id (.introduce n q w)).sessions = s.sessions := by
  have heq : LinkTree.add u s.tree (some x.node) (some n) (some q) (some w) =
      (.ok, s.tree.extended [⟨n, q, x.node, w⟩]) := by
    rcases add_cases (u := u) (t := s.tree) (some x.node) (some n) (some q) (some w) with
      ⟨p, n', q', w', owner, source, hp, hn, hq, hw, -, -, -, -, -, -, -, -, -, heq⟩ | ⟨hne, -⟩
    · cases hp
      cases hn
      cases hq
      cases hw
      exact heq
    · exact absurd hok hne
  unfold handleFrame
  rw [session_of_mem h.toOrdered hx]
  simp only [hopen, hest, hpolicy, heq, Bool.not_true, Bool.false_eq_true, if_false]
  refine ⟨?_, rfl⟩
  funext a b
  apply propext
  unfold Held Edit.apply broadcast
  simp only
  rw [h.tree.remote_extended]
  constructor
  · rintro ⟨m, hm, ha, hb, hp, hne⟩
    rcases List.mem_append.mp hm with hm | hm
    · exact Or.inl ⟨m, hm, ha, hb, hp, hne⟩
    · rw [List.mem_singleton.mp hm] at ha hb
      exact Or.inr ⟨ha.symm, hb.symm⟩
  · rintro (⟨m, hm, hrest⟩ | ⟨rfl, rfl⟩)
    · exact ⟨m, List.mem_append_left _ hm, hrest⟩
    · exact ⟨_, List.mem_append_right _ (List.mem_singleton_self _), rfl, rfl, rfl, hfits.1⟩

theorem deliver_withdraw (h : Sound u s) {x : LinkSession} (hx : x ∈ s.sessions)
    (hest : x.established = true) (hopen : x.closing = false) {n : String}
    (hfits : (Edit.prune n).Fits x.node (Held s x.node)) :
    Held (s.handleFrame u x.id (.withdraw n)) x.node = (Edit.prune n).apply (Held s x.node) ∧
    (s.handleFrame u x.id (.withdraw n)).sessions = s.sessions := by
  have hok := remove_accepts h hfits
  obtain ⟨k, hk, rfl, hkp⟩ := member_held hfits.2
  have heq : LinkTree.remove s.tree (some x.node) (some k.server) =
      (true, s.tree.pruned k.server) := by
    rcases h.tree.remove_cases (some x.node) (some k.server) with
      ⟨p, m, j, hp, hm, -, -, -, heq⟩ | heq
    · cases hm
      exact heq
    · rw [heq] at hok
      exact absurd hok (by simp)
  unfold handleFrame
  rw [session_of_mem h.toOrdered hx]
  simp only [hopen, hest, heq, beq_eq_false_iff_ne.mpr hfits.1, Bool.not_true, Bool.false_eq_true,
    if_false]
  refine ⟨?_, rfl⟩
  have hbelow := below_iff (r := Held s x.node) h.tree
    (fun a q ⟨m, hm, hs, hq, _⟩ => ⟨m, hm, hs, hq⟩) hk
    (fun m hm hp hcase => ⟨m, hm, rfl, rfl, hp.trans hkp, by
      rcases hcase with hc | hc
      · exact hkp ▸ hc
      · exact hc ▸ hfits.1⟩)
  have hremote := fun m => h.tree.mem_remote_pruned (n := m) (h.tree.remote_ne hk)
  funext a b
  apply propext
  simp only [Edit.apply, hbelow]
  unfold Held broadcast
  simp only
  constructor
  · rintro ⟨m, hm, rfl, rfl, hp, hne⟩
    obtain ⟨hm, hb⟩ := (hremote m).mp hm
    exact ⟨⟨m, hm, rfl, rfl, hp, hne⟩, hb⟩
  · rintro ⟨⟨m, hm, rfl, rfl, hp, hne⟩, hb⟩
    exact ⟨m, (hremote m).mpr ⟨hm, hb⟩, rfl, rfl, hp, hne⟩

end Links

end RustyRig
