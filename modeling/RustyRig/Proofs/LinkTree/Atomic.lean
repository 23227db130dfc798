/-
Which components `attach` admits, and what it does with them.

`attach_cases` says what an accepted call has checked, in the terms of the two loops.
Here the loops are replaced by what they are for: the offered list is a tree whose
root is the peer.  One direction is `climb_of_walk`; the other is that a climb visits
no server twice, so the bounded walk is never cut short.
-/
import RustyRig.Proofs.LinkTree.Table
import Mathlib.Data.List.Perm.Subperm

namespace RustyRig

open Lib

namespace LinkTree

variable {u : UuidFormat} {t : LinkTree} {peer : String} {nodes : List LinkNodeT}

/-- The offered list, in any order, is a tree rooted at the peer that is new to the table
and fits it. -/
structure OfferedTree (u : UuidFormat) (t : LinkTree) (peer : String)
    (nodes : List LinkNodeT) : Prop where
  nonempty : nodes ≠ []
  valid : ∀ n ∈ nodes, validId u n.server = true
  distinct : (nodes.map (·.server)).Nodup
  fresh : ∀ n ∈ nodes, t.find n.server = none
  /-- The peer is offered, and it alone has no parent. -/
  peer_mem : ∃ n ∈ nodes, n.server = some peer
  root : ∀ n ∈ nodes, n.parent = none ↔ n.server = some peer
  /-- Every other node's parent is in the list. -/
  parent_mem : ∀ n ∈ nodes, ∀ q, n.parent = some q → ∃ m ∈ nodes, m.server = some q
  /-- Every parent chain ends at the peer. -/
  chain : ∀ n ∈ nodes, ∃ s p, n.server = some s ∧ Climb (OfferedEdge nodes) peer s p
  room : t.count + nodes.length ≤ t.limit

/-! ### Offered parents -/

theorem server_inj (hd : (nodes.map (·.server)).Nodup) {m n : LinkNodeT} (hm : m ∈ nodes)
    (hn : n ∈ nodes) (hs : m.server = n.server) : m = n :=
  List.inj_on_of_nodup_map hd hm hn hs

theorem find_offered (hd : (nodes.map (·.server)).Nodup) {n : LinkNodeT} (hn : n ∈ nodes)
    {s : String} (hs : n.server = some s) : nodes.find? (·.server == some s) = some n := by
  cases hf : nodes.find? (·.server == some s) with
  | none => exact absurd (beq_iff_eq.mpr hs) (List.find?_eq_none.mp hf n hn)
  | some m =>
      have hms : m.server = some s := by simpa using List.find?_some hf
      rw [server_inj hd (List.mem_of_find?_eq_some hf) hn (hms.trans hs.symm)]

/-- Distinct servers make the offered parents a function, and the peer has none. -/
theorem offered_rooted (hd : (nodes.map (·.server)).Nodup)
    (hroot : ∀ n ∈ nodes, n.server = some peer → n.parent = none) :
    Rooted (OfferedEdge nodes) peer where
  unique := by
    rintro a b c ⟨m, hm, hma, hmb⟩ ⟨n, hn, hna, hnc⟩
    obtain rfl := server_inj hd hm hn (hma.trans hna.symm)
    exact Option.some.inj (hmb.symm.trans hnc)
  orphan := by
    rintro b ⟨n, hn, hs, hb⟩
    rw [hroot n hn hs] at hb
    exact absurd hb (by simp)

/-- What an offered climb visits is offered. -/
theorem climb_offered {s : String} {p : List String} (hp : Climb (OfferedEdge nodes) peer s p)
    (hpeer : ∃ n ∈ nodes, n.server = some peer) :
    ∀ x ∈ p, some x ∈ nodes.map (·.server) := by
  induction hp with
  | root =>
      intro x hx
      obtain ⟨n, hn, hs⟩ := hpeer
      rw [List.mem_singleton.mp hx, ← hs]
      exact List.mem_map_of_mem hn
  | step he _ ih =>
      intro x hx
      rcases List.mem_cons.mp hx with rfl | hx
      · obtain ⟨n, hn, hs, -⟩ := he
        rw [← hs]
        exact List.mem_map_of_mem hn
      · exact ih x hx

/-- A climb is no longer than the offered list. -/
theorem climb_length (hr : Rooted (OfferedEdge nodes) peer)
    (hpeer : ∃ n ∈ nodes, n.server = some peer) {s : String} {p : List String}
    (hp : Climb (OfferedEdge nodes) peer s p) : p.length ≤ nodes.length := by
  have hnodup : (p.map some).Nodup := (hp.nodup hr).map fun _ _ h => Option.some.inj h
  have hsub : p.map some ⊆ nodes.map (·.server) := by
    intro x hx
    obtain ⟨y, hy, rfl⟩ := List.mem_map.mp hx
    exact climb_offered hp hpeer y hy
  have hlen := (List.Nodup.subperm hnodup hsub).length_le
  rwa [List.length_map, List.length_map] at hlen

/-- The bounded walk finds every climb it has the steps for. -/
theorem walk_of_climb (hd : (nodes.map (·.server)).Nodup) {s : String} {p : List String}
    (hp : Climb (OfferedEdge nodes) peer s p) :
    ∀ {steps : Nat}, p.length ≤ steps + 1 → walk nodes peer steps s = true := by
  induction hp with
  | root =>
      intro steps _
      unfold walk
      rw [if_pos rfl]
  | @step a b p he hb ih =>
      intro steps hlen
      unfold walk
      by_cases ha : a = peer
      · rw [if_pos ha]
      rw [if_neg ha]
      obtain ⟨n, hn, hs, hq⟩ := he
      obtain ⟨l, rfl⟩ := hb.head
      cases steps with
      | zero => simp at hlen
      | succ steps =>
          simp only [find_offered hd hn hs, hq]
          exact ih (by simpa using hlen)

/-! ### The two loops accept exactly the offered trees -/

theorem OfferedTree.rooted (h : OfferedTree u t peer nodes) : Rooted (OfferedEdge nodes) peer :=
  offered_rooted h.distinct fun n hn => (h.root n hn).mpr

theorem OfferedTree.component (h : OfferedTree u t peer nodes)
    (hsite : ∀ n ∈ nodes, validSite n.site = true) : Component u t peer nodes where
  peerValid := by
    obtain ⟨n, hn, hs⟩ := h.peer_mem
    rw [← hs]
    exact h.valid n hn
  room := by
    have := h.room
    omega
  offered := by
    intro n hn
    refine ⟨h.valid n hn, hsite n hn, h.fresh n hn, ?_⟩
    by_cases hs : n.server = some peer
    · rw [if_pos hs]
      exact (h.root n hn).mpr hs
    · rw [if_neg hs]
      cases hq : n.parent with
      | none => exact absurd ((h.root n hn).mp hq) hs
      | some q =>
          obtain ⟨m, hm, hms⟩ := h.parent_mem n hn q hq
          rw [← hms]
          exact h.valid m hm
  distinct := h.distinct
  roots := by
    obtain ⟨n, hn, hs⟩ := h.peer_mem
    have hcount : nodes.countP (·.server == some peer) =
        (nodes.map (·.server)).count (some peer) := by
      rw [List.count, List.countP_map]
      rfl
    rw [hcount]
    exact List.count_eq_one_of_mem h.distinct (hs ▸ List.mem_map_of_mem hn)
  walks := by
    intro n hn
    obtain ⟨s, p, hs, hp⟩ := h.chain n hn
    have hlen := climb_length h.rooted h.peer_mem hp
    rw [hs]
    exact walk_of_climb h.distinct hp (by omega)

theorem Component.offeredTree (h : Component u t peer nodes) (hne : nodes ≠ []) :
    OfferedTree u t peer nodes where
  nonempty := hne
  valid n hn := (h.offered n hn).valid
  distinct := h.distinct
  fresh n hn := (h.offered n hn).fresh
  peer_mem := by
    obtain ⟨n, hn, hs⟩ := List.countP_pos_iff.mp (Nat.lt_of_lt_of_eq Nat.one_pos h.roots.symm)
    exact ⟨n, hn, beq_iff_eq.mp hs⟩
  root := by
    intro n hn
    have hshape := (h.offered n hn).shape
    by_cases hs : n.server = some peer
    · rw [if_pos hs] at hshape
      exact ⟨fun _ => hs, fun _ => hshape⟩
    · rw [if_neg hs] at hshape
      obtain ⟨q, hq, -⟩ := validId_some hshape
      simp [hs, hq]
  parent_mem := by
    intro n hn q hq
    obtain ⟨s, hs, -⟩ := validId_some (h.offered n hn).valid
    obtain ⟨p, hp⟩ := climb_of_walk _ _ (h.walks n hn)
    rw [hs, Option.getD_some] at hp
    obtain ⟨r, hr, hrs⟩ := List.countP_pos_iff.mp (Nat.lt_of_lt_of_eq Nat.one_pos h.roots.symm)
    rw [beq_iff_eq] at hrs
    rcases hp.uncons with rfl | ⟨b, l, -, ⟨m, hm, hms, hmb⟩, hb⟩
    · have hshape := (h.offered n hn).shape
      rw [if_pos hs, hq] at hshape
      exact absurd hshape (by simp)
    · obtain rfl := server_inj h.distinct hm hn (hms.trans hs.symm)
      obtain rfl := Option.some.inj (hmb.symm.trans hq)
      obtain ⟨k, hk, hks⟩ := List.mem_map.mp (climb_offered hb ⟨r, hr, hrs⟩ b hb.self_mem)
      exact ⟨k, hk, hks⟩
  chain := by
    intro n hn
    obtain ⟨s, hs, -⟩ := validId_some (h.offered n hn).valid
    obtain ⟨p, hp⟩ := climb_of_walk _ _ (h.walks n hn)
    rw [hs, Option.getD_some] at hp
    exact ⟨s, p, hs, hp⟩
  room := by
    have hlen := List.length_pos_of_ne_nil hne
    have := h.room
    omega

/-- The tree `attach` leaves behind is decided by whether the list is a tree of nodes with
valid sites. -/
theorem attach_eq_ok (h : OfferedTree u t peer nodes)
    (hsite : ∀ n ∈ nodes, validSite n.site = true) :
    attach u t (some peer) nodes = (.ok, t.attached peer nodes) := by
  have hc := h.component hsite
  have hscan : scan u t peer [] nodes 0 = .ok 1 := by
    refine (scan_ok_iff nodes [] 0).mpr ⟨hc.offered, hc.distinct, by simp, ?_⟩
    rw [hc.roots]
  have hempty : nodes.isEmpty = false := by simpa using h.nonempty
  unfold attach
  simp only [hc.peerValid, hempty, Nat.not_lt.mpr hc.room, hscan, List.all_eq_true.mpr hc.walks,
    Bool.not_true, Bool.or_false, Bool.false_eq_true, ne_eq, not_true_eq_false, if_false, if_true]
  rfl

theorem attach_ok_iff {p : Option String} :
    (attach u t p nodes).1 = .ok ↔
      ∃ q, p = some q ∧ OfferedTree u t q nodes ∧ ∀ n ∈ nodes, validSite n.site = true := by
  refine ⟨fun hok => ?_, ?_⟩
  · rcases attach_cases p nodes with ⟨q, hq, hne, hc, -⟩ | ⟨hno, -⟩
    · exact ⟨q, hq, hc.offeredTree hne, fun n hn => (hc.offered n hn).site⟩
    · exact absurd hok hno
  · rintro ⟨q, rfl, h, hsite⟩
    rw [attach_eq_ok h hsite]

/-- **`attach` admits a component whole or not at all.**  It succeeds exactly for a list
that is a tree rooted at the named peer, new to the table and within its limit, whose
sites are all valid.  Then exactly those nodes are appended, the root under the local
server and the others under the parents they came with; otherwise the tree is as it was. -/
theorem attach_atomic (u : UuidFormat) (t : LinkTree) (p : Option String)
    (nodes : List LinkNodeT) :
    ((attach u t p nodes).1 = .ok ↔
        ∃ q, p = some q ∧ OfferedTree u t q nodes ∧ ∀ n ∈ nodes, validSite n.site = true) ∧
      ((attach u t p nodes).1 ≠ .ok → (attach u t p nodes).2 = t) ∧
      ((attach u t p nodes).1 = .ok →
        (attach u t p nodes).2 =
          { t with
            nodes := t.nodes ++ nodes.map fun n =>
              { server := n.server.getD "", site := n.site.getD "", peer := p.getD "",
                parent := if n.server = p then t.localServer else n.parent.getD "" } }) := by
  refine ⟨attach_ok_iff, fun hno => ?_, fun hok => ?_⟩
  · rcases attach_cases (u := u) p nodes with ⟨q, hq, hne, hc, heq⟩ | ⟨-, heq⟩
    · rw [heq] at hno
      exact absurd rfl hno
    · exact heq
  · obtain ⟨q, rfl, h, hsite⟩ := attach_ok_iff.mp hok
    rw [attach_eq_ok h hsite]
    show t.attached q nodes = _
    rw [attached]
    congr 2
    refine List.map_congr_left fun n hn => ?_
    by_cases hs : n.server = some q
    · simp [admitted, hs, (h.root n hn).mpr hs]
    · obtain ⟨r, hr⟩ := Option.ne_none_iff_exists'.mp fun hc => hs ((h.root n hn).mp hc)
      simp [admitted, hs, hr]

/-- A root without a site is a tree of one node, and is turned away. -/
theorem attach_needs_site :
    let t : LinkTree :=
      { nodes := [⟨"aaaaaaaa-0000-4000-8000-000000000001", "", "", "home"⟩], limit := 8 }
    let b := "bbbbbbbb-0000-4000-8000-000000000002"
    OfferedTree .hex t b [⟨some b, none, some ""⟩] ∧
      attach .hex t (some b) [⟨some b, none, some ""⟩] = (.invalid, t) := by
  intro t b
  refine ⟨⟨by simp, ?_, by simp, ?_, ⟨_, List.mem_singleton_self _, rfl⟩, ?_, ?_, ?_, by decide⟩,
    by decide⟩
  all_goals
    intro n hn
    obtain rfl := List.mem_singleton.mp hn
  · decide
  · decide
  · simp
  · simp
  · exact ⟨b, [b], rfl, .root⟩

end LinkTree

end RustyRig
