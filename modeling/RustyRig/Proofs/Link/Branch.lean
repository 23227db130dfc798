/-
The invariant of the sessions is kept by every event.

An admission appends one branch and one owner of it; an introduction or a withdrawal
stays inside the branch of the session it came by, since nothing else lies below one
of its nodes; a loss takes the owner and the branch together.
-/
import RustyRig.Proofs.Link.Session

namespace RustyRig

open Lib

namespace Links

open LinkTree

variable {u : UuidFormat} {s s' : Links}

/-! ### Sessions -/

theorem Sound.sent (h : Sound u s) (l : List (Nat × LinkFrame)) : Sound u { s with sent := l } :=
  ⟨⟨h.fresh, h.ids, h.inOrder, h.pending⟩, h.tree, h.sites, h.rooted, h.single, h.owned⟩

theorem Sound.sendMessage (h : Sound u s) (id : Nat) (f : LinkFrame) :
    Sound u (s.sendMessage id f) := by
  unfold Links.sendMessage
  split
  · exact h.sent _
  · exact h

/-- One session changes, and stays the only one that joins if it joins. -/
theorem Ordered.modify (h : Ordered s) (id : Nat) (f : LinkSession → LinkSession)
    (hid : ∀ x, (f x).id = x.id) (hord : ∀ x ∈ s.sessions, x.id = id → InOrder (f x))
    (hpend : ∀ x ∈ s.sessions, x.id = id → Pending (f x) →
      ∀ y ∈ s.sessions, y.id ≠ id → ¬ Pending y) : Ordered (s.modify id f) := by
  refine ⟨?_, ?_, ?_, ?_⟩
  · intro y hy
    obtain ⟨x, hx, rfl⟩ := mem_modify.mp hy
    by_cases hxid : x.id = id
    · rw [if_pos hxid, hid]
      exact h.fresh x hx
    · rw [if_neg hxid]
      exact h.fresh x hx
  · rw [ids_modify hid]
    exact h.ids
  · intro y hy
    obtain ⟨x, hx, rfl⟩ := mem_modify.mp hy
    by_cases hxid : x.id = id
    · rw [if_pos hxid]
      exact hord x hx hxid
    · rw [if_neg hxid]
      exact h.inOrder x hx
  · intro y hy z hz hyp hzp
    obtain ⟨x, hx, rfl⟩ := mem_modify.mp hy
    obtain ⟨k, hk, rfl⟩ := mem_modify.mp hz
    by_cases hxid : x.id = id
    · by_cases hkid : k.id = id
      · rw [h.inj hx hk (hxid.trans hkid.symm)]
      · rw [if_pos hxid] at hyp
        rw [if_neg hkid] at hzp
        exact absurd hzp (hpend x hx hxid hyp k hk hkid)
    · rw [if_neg hxid] at hyp ⊢
      by_cases hkid : k.id = id
      · rw [if_pos hkid] at hzp
        exact absurd hyp (hpend k hk hkid hzp x hx hxid)
      · rw [if_neg hkid] at hzp ⊢
        exact h.pending x hx k hk hyp hzp

/-- A session moves on without changing its branch. -/
theorem Sound.modify (h : Sound u s) (id : Nat) (f : LinkSession → LinkSession)
    (hid : ∀ x, (f x).id = x.id) (hord : ∀ x ∈ s.sessions, x.id = id → InOrder (f x))
    (hpend : ∀ x ∈ s.sessions, x.id = id → Pending (f x) →
      ∀ y ∈ s.sessions, y.id ≠ id → ¬ Pending y)
    (hadm : ∀ x ∈ s.sessions, x.id = id → (f x).admitted = x.admitted)
    (hnode : ∀ x ∈ s.sessions, x.id = id → x.admitted = true → (f x).node = x.node) :
    Sound u (s.modify id f) := by
  -- admission and its node are those of the session before
  have hsame : ∀ x ∈ s.sessions, (if x.id = id then f x else x).admitted = x.admitted ∧
      (x.admitted = true → (if x.id = id then f x else x).node = x.node) := by
    intro x hx
    by_cases hxid : x.id = id
    · rw [if_pos hxid]
      exact ⟨hadm x hx hxid, hnode x hx hxid⟩
    · rw [if_neg hxid]
      exact ⟨rfl, fun _ => rfl⟩
  refine ⟨h.toOrdered.modify id f hid hord hpend, h.tree, h.sites, ?_, ?_, ?_⟩
  · intro y hy hadm
    obtain ⟨x, hx, rfl⟩ := mem_modify.mp hy
    rw [(hsame x hx).1] at hadm
    rw [(hsame x hx).2 hadm]
    exact h.rooted x hx hadm
  · intro y hy z hz hyadm hzadm hyz
    obtain ⟨x, hx, rfl⟩ := mem_modify.mp hy
    obtain ⟨k, hk, rfl⟩ := mem_modify.mp hz
    rw [(hsame x hx).1] at hyadm
    rw [(hsame k hk).1] at hzadm
    rw [(hsame x hx).2 hyadm, (hsame k hk).2 hzadm] at hyz
    rw [h.single x hx k hk hyadm hzadm hyz]
  · intro n hn
    obtain ⟨x, hx, hadm, hpeer⟩ := h.owned n hn
    exact ⟨_, mem_modify.mpr ⟨x, hx, rfl⟩, (hsame x hx).1.trans hadm, ((hsame x hx).2 hadm).trans hpeer⟩

theorem Sound.fail (h : Sound u s) (id : Nat) : Sound u (s.fail id) := by
  refine h.modify id _ (fun _ => rfl) (fun x hx _ => ?_) ?_ (fun _ _ _ => rfl) (fun _ _ _ _ => rfl)
  · have ho := h.inOrder x hx
    exact ⟨ho.greeted, ho.snapshot, ho.admitted, ho.ready, ho.established⟩
  · rintro x hx rfl ⟨hest, hadm | ⟨-, hclosing⟩⟩ y hy hne hp
    · exact hne (congrArg (·.id) (h.pending y hy x hx hp ⟨hest, Or.inl hadm⟩))
    · exact absurd hclosing (by simp)

theorem Sound.opened (h : Sound u s) : Sound u s.newSession := by
  unfold newSession
  split
  · exact h
  refine ⟨⟨?_, ?_, ?_, ?_⟩, h.tree, h.sites, ?_, ?_, ?_⟩
  · intro x hx
    show x.id < s.opened + 1
    rcases List.mem_cons.mp hx with rfl | hx
    · exact Nat.lt_succ_self _
    · exact Nat.lt_succ_of_lt (h.fresh x hx)
  · refine List.nodup_cons.mpr ⟨fun hmem => ?_, h.ids⟩
    obtain ⟨x, hx, he⟩ := List.mem_map.mp hmem
    exact absurd (h.fresh x hx) (by rw [he]; exact Nat.lt_irrefl _)
  · intro x hx
    rcases List.mem_cons.mp hx with rfl | hx
    · exact ⟨by simp, by simp, rfl, by simp, rfl⟩
    · exact h.inOrder x hx
  · intro x hx y hy hxp hyp
    rcases List.mem_cons.mp hx with rfl | hx
    · rcases hxp with ⟨-, hc | ⟨hc, -⟩⟩ <;> exact absurd hc (by simp)
    rcases List.mem_cons.mp hy with rfl | hy
    · rcases hyp with ⟨-, hc | ⟨hc, -⟩⟩ <;> exact absurd hc (by simp)
    exact h.pending x hx y hy hxp hyp
  · intro x hx hadm
    rcases List.mem_cons.mp hx with rfl | hx
    · exact absurd hadm (by simp)
    · exact h.rooted x hx hadm
  · intro x hx y hy hxadm hyadm
    rcases List.mem_cons.mp hx with rfl | hx
    · exact absurd hxadm (by simp)
    rcases List.mem_cons.mp hy with rfl | hy
    · exact absurd hyadm (by simp)
    exact h.single x hx y hy hxadm hyadm
  · intro n hn
    obtain ⟨x, hx, hown⟩ := h.owned n hn
    exact ⟨x, List.mem_cons_of_mem _ hx, hown⟩

theorem Sound.greeted (h : Sound u s) {x : LinkSession} (peer : LinkPeer) (node : String)
    (hx : x ∈ s.sessions) (hnew : x.hello = false)
    (halone : ∀ y ∈ s.sessions, y.id ≠ x.id → ¬ Pending y) :
    Sound u ((s.modify x.id fun x =>
      { x with peer := peer, node := node, hello := true, identitySeen := true }).sendSnapshot
        x.id) := by
  have hgreet : Sound u (s.modify x.id fun x =>
      { x with peer := peer, node := node, hello := true, identitySeen := true }) := by
    refine h.modify x.id _ (fun _ => rfl) (fun y hy _ => ?_) ?_ (fun _ _ _ => rfl) ?_
    · have ho := h.inOrder y hy
      exact ⟨fun _ => rfl, fun _ => rfl, ho.admitted, ho.ready, ho.established⟩
    · exact fun _ _ _ _ => halone
    · intro y hy he hadm
      obtain rfl := h.inj hy hx he
      have ho := h.inOrder y hy
      rw [ho.snapshot (ho.admitted ▸ hadm)] at hnew
      exact absurd hnew (by simp)
  refine Sound.sendMessage ?_ _ _
  refine hgreet.modify x.id _ (fun _ => rfl) (fun y hy _ => ?_) ?_ (fun _ _ _ => rfl)
    fun _ _ _ _ => rfl
  · have ho := hgreet.inOrder y hy
    exact ⟨ho.greeted, ho.snapshot, ho.admitted, ho.ready, ho.established⟩
  · intro y hy he hp z hz hne hq
    exact hne ((congrArg (·.id) (hgreet.pending z hz y hy hq hp)).trans he)

/-- The peer's own node, of an admitted component. -/
theorem component_root {t : LinkTree} {loc peer : String} {nodes : List LinkNodeT}
    (h : WellFormed u loc t) (hc : Component u t peer nodes) :
    (∃ n ∈ (t.attached peer nodes).remote, n.server = peer ∧ n.peer = peer) ∧
      t.find (some peer) = none := by
  obtain ⟨k, hk, hkp⟩ := List.countP_pos_iff.mp (Nat.lt_of_lt_of_eq Nat.one_pos hc.roots.symm)
  have hks : k.server = some peer := beq_iff_eq.mp hkp
  refine ⟨⟨t.admitted peer k, ?_, ?_, rfl⟩, hks ▸ (hc.offered k hk).fresh⟩
  · rw [show t.attached peer nodes = t.extended (nodes.map (t.admitted peer)) from rfl,
      h.remote_extended]
    exact List.mem_append_right _ (List.mem_map_of_mem hk)
  · simp [admitted, hks]

theorem Sound.attached (h : Sound u s) {x : LinkSession} {nodes : List LinkNodeT}
    (hx : x ∈ s.sessions) (hhello : x.hello = true) (hnew : x.snapshot = false)
    (hopen : x.closing = false) (hc : Component u s.tree x.node nodes) :
    Sound u ({ s with tree := s.tree.attached x.node nodes, generation := s.generation + 1
      }.modify x.id fun x => { x with admitted := true, snapshot := true }) := by
  have hordx := h.inOrder x hx
  have hest : x.established = false := by
    rw [hordx.established, Bool.eq_false_iff]
    exact fun hr => absurd (hordx.ready hr) (by simp [hnew])
  have hpendx : Pending x := ⟨hest, Or.inr ⟨hhello, hopen⟩⟩
  obtain ⟨⟨root, hroot, hrs, hrp⟩, hfresh⟩ := component_root h.tree hc
  have hremote : (s.tree.attached x.node nodes).remote =
      s.tree.remote ++ nodes.map (s.tree.admitted x.node) := h.tree.remote_extended _
  -- no session admitted before leads to the same server
  have hother : ∀ y ∈ s.sessions, y.admitted = true → y.node ≠ x.node := by
    intro y hy hadm he
    obtain ⟨n, hn, hs, -⟩ := h.rooted y hy hadm
    exact find_none.mp hfresh n (WellFormed.remote_mem hn) (hs.trans he)
  have hords : Ordered { s with tree := s.tree.attached x.node nodes
                                generation := s.generation + 1 } :=
    ⟨h.fresh, h.ids, h.inOrder, h.pending⟩
  refine ⟨hords.modify x.id _ (fun _ => rfl) ?_ ?_, h.tree.attached hc, ?_, ?_, ?_, ?_⟩
  · intro y hy he
    obtain rfl := h.inj hy hx he
    exact ⟨hordx.greeted, fun _ => hhello, rfl, fun _ => rfl, hordx.established⟩
  · intro y hy he _ z hz hne hp
    exact hne (congrArg (·.id) (h.pending z hz x hx hp hpendx))
  · intro n hn
    rcases List.mem_append.mp hn with hn | hn
    · exact h.sites n hn
    · obtain ⟨k, hk, rfl⟩ := List.mem_map.mp hn
      have hsite := (hc.offered k hk).site
      cases hks : k.site with
      | none => simp [hks, validSite] at hsite
      | some w => rw [hks] at hsite; simpa [admitted, hks] using hsite
  · intro y hy hadm
    obtain ⟨k, hk, rfl⟩ := mem_modify.mp hy
    by_cases hkid : k.id = x.id
    · obtain rfl := h.inj hk hx hkid
      rw [if_pos rfl]
      exact ⟨root, hroot, hrs, hrp⟩
    · rw [if_neg hkid] at hadm ⊢
      obtain ⟨n, hn, hown⟩ := h.rooted k hk hadm
      refine ⟨n, ?_, hown⟩
      show n ∈ (s.tree.attached x.node nodes).remote
      rw [hremote]
      exact List.mem_append_left _ hn
  · intro y hy z hz hyadm hzadm hyz
    obtain ⟨k, hk, rfl⟩ := mem_modify.mp hy
    obtain ⟨m, hm, rfl⟩ := mem_modify.mp hz
    by_cases hkid : k.id = x.id
    · by_cases hmid : m.id = x.id
      · rw [h.inj hk hm (hkid.trans hmid.symm)]
      · obtain rfl := h.inj hk hx hkid
        rw [if_neg hmid] at hzadm hyz
        rw [if_pos rfl] at hyz
        exact absurd hyz.symm (hother m hm hzadm)
    · rw [if_neg hkid] at hyadm hyz ⊢
      by_cases hmid : m.id = x.id
      · obtain rfl := h.inj hm hx hmid
        rw [if_pos rfl] at hyz
        exact absurd hyz (hother k hk hyadm)
      · rw [if_neg hmid] at hzadm hyz ⊢
        exact h.single k hk m hm hyadm hzadm hyz
  · intro n hn
    have hn' : n ∈ s.tree.remote ++ nodes.map (s.tree.admitted x.node) := hremote ▸ hn
    rcases List.mem_append.mp hn' with hn | hn
    · obtain ⟨y, hy, hadm, hpeer⟩ := h.owned n hn
      refine ⟨_, mem_modify.mpr ⟨y, hy, rfl⟩, ?_, ?_⟩
      · split
        · rfl
        · exact hadm
      · split
        · exact hpeer
        · exact hpeer
    · obtain ⟨k, hk, rfl⟩ := List.mem_map.mp hn
      exact ⟨_, mem_modify.mpr ⟨x, hx, rfl⟩, by rw [if_pos rfl], by rw [if_pos rfl]; rfl⟩

theorem Sound.established (h : Sound u s) {x : LinkSession} (hx : x ∈ s.sessions)
    (hadm : x.admitted = true) :
    Sound u (s.modify x.id fun x => { x with ready := true, established := true }) := by
  refine h.modify x.id _ (fun _ => rfl) (fun y hy he => ?_) ?_ (fun _ _ _ => rfl) fun _ _ _ _ => rfl
  · obtain rfl := h.inj hy hx he
    have ho := h.inOrder y hy
    exact ⟨ho.greeted, ho.snapshot, ho.admitted, fun _ => ho.admitted ▸ hadm, rfl⟩
  · rintro y - - ⟨hest, -⟩
    exact absurd hest (by simp)

/-- An established session is admitted. -/
theorem Ordered.admitted_of_established (h : Ordered s) {x : LinkSession} (hx : x ∈ s.sessions)
    (hest : x.established = true) : x.admitted = true := by
  have ho := h.inOrder x hx
  rw [ho.admitted]
  exact ho.ready (ho.established ▸ hest)

theorem Sound.introduced (h : Sound u s) {x : LinkSession} {node parent site : String}
    (hx : x ∈ s.sessions) (hest : x.established = true)
    (hadd : LinkTree.add u s.tree (some x.node) (some node) (some parent) (some site) =
      (.ok, s.tree.extended [⟨node, parent, x.node, site⟩])) :
    Sound u { s with tree := s.tree.extended [⟨node, parent, x.node, site⟩]
                     generation := s.generation + 1 } := by
  have htree : WellFormed u s.node (s.tree.extended [⟨node, parent, x.node, site⟩]) := by
    have happly := h.tree.apply (.add (some x.node) (some node) (some parent) (some site))
    rwa [LinkTree.apply, hadd] at happly
  have hsite : validSite (some site) = true := (add_ok_iff.mp (congrArg Prod.fst hadd)).1.2.2.2
  have hremote := h.tree.remote_extended [⟨node, parent, x.node, site⟩]
  refine ⟨⟨h.fresh, h.ids, h.inOrder, h.pending⟩, htree, ?_, ?_, h.single, ?_⟩
  · intro n hn
    rcases List.mem_append.mp hn with hn | hn
    · exact h.sites n hn
    · rw [List.mem_singleton.mp hn]
      exact hsite
  · intro y hy hadm
    obtain ⟨n, hn, hown⟩ := h.rooted y hy hadm
    refine ⟨n, ?_, hown⟩
    rw [hremote]
    exact List.mem_append_left _ hn
  · intro n hn
    have hn' : n ∈ s.tree.remote ++ [⟨node, parent, x.node, site⟩] := hremote ▸ hn
    rcases List.mem_append.mp hn' with hn | hn
    · exact h.owned n hn
    · rw [List.mem_singleton.mp hn]
      exact ⟨x, hx, h.admitted_of_established hx hest, rfl⟩

/-! ### Branches -/

/-- Below a node of a branch there is only that branch. -/
theorem below_peer {t : LinkTree} {loc : String} (h : WellFormed u loc t) {n : LinkNode}
    (hn : n ∈ t.remote) {a : String} (hb : t.Below n.server a) :
    ∃ m ∈ t.remote, m.server = a ∧ m.peer = n.peer ∧ (a = n.server ∨ a ≠ n.peer) := by
  induction hb using Relation.ReflTransGen.head_induction_on with
  | refl => exact ⟨n, hn, rfl, rfl, Or.inl rfl⟩
  | @head a c hac _ ih =>
      obtain ⟨k, hk, rfl, rfl⟩ := hac
      obtain ⟨m, hm, hms, hmp, -⟩ := ih
      rcases h.parent_cases hk with ⟨-, hloc⟩ | ⟨m', hm', hms', hmp'⟩
      · exact absurd (hms.trans hloc) (h.remote_ne hm)
      · obtain rfl := h.mem_inj (WellFormed.remote_mem hm) (WellFormed.remote_mem hm')
          (hms.trans hms'.symm)
        refine ⟨k, hk, rfl, hmp'.symm.trans hmp, Or.inr fun hc => ?_⟩
        -- a peer hangs under the local server, which is below nothing
        obtain ⟨b, hb, hbs, hbl, -⟩ := h.peer_child hk
        obtain rfl := h.mem_inj (WellFormed.remote_mem hb) (WellFormed.remote_mem hk)
          (hbs.trans ((hmp'.symm.trans hmp).trans hc.symm))
        exact absurd (hms.trans hbl) (h.remote_ne hm)

/-- A branch is what lies below its peer. -/
theorem below_of_peer {t : LinkTree} {loc : String} (h : WellFormed u loc t) {n : LinkNode}
    (hn : n ∈ t.remote) : t.Below n.peer n.server := by
  obtain ⟨q, hq⟩ := h.branch n hn
  exact hq.reaches (by simp)

theorem Sound.withdrawn (h : Sound u s) {x : LinkSession} {n : LinkNode} (hn : n ∈ s.tree.remote)
    (hpeer : n.peer = x.node) (hne : n.server ≠ x.node) :
    Sound u { s with tree := s.tree.pruned n.server, generation := s.generation + 1 } := by
  have hloc := h.tree.remote_ne hn
  have hremote : ∀ m, m ∈ (s.tree.pruned n.server).remote ↔
      m ∈ s.tree.remote ∧ ¬ s.tree.Below n.server m.server :=
    fun m => h.tree.mem_remote_pruned hloc
  refine ⟨⟨h.fresh, h.ids, h.inOrder, h.pending⟩, h.tree.pruned hloc, ?_, ?_, h.single, ?_⟩
  · exact fun m hm => h.sites m (WellFormed.mem_pruned.mp hm).1
  · intro y hy hadm
    obtain ⟨m, hm, hms, hmp⟩ := h.rooted y hy hadm
    refine ⟨m, (hremote m).mpr ⟨hm, fun hb => ?_⟩, hms, hmp⟩
    -- a peer lies below nothing but itself
    obtain ⟨k, hk, hks, hkp, hc⟩ := below_peer h.tree hn hb
    obtain rfl := h.tree.mem_inj (WellFormed.remote_mem hk) (WellFormed.remote_mem hm) hks
    have hnode : y.node = x.node := hmp.symm.trans (hkp.trans hpeer)
    rcases hc with hc | hc
    · exact hne (hc.symm.trans (hms.trans hnode))
    · exact hc (hms.trans (hmp.symm.trans hkp))
  · exact fun m hm => h.owned m ((hremote m).mp hm).1

/-- Losing a session that owns no branch. -/
theorem Sound.dropped (h : Sound u s) {x : LinkSession} (hx : x ∈ s.sessions)
    (hadm : x.admitted = false) :
    Sound u { s with sessions := s.sessions.filter fun y => y.id != x.id } := by
  have hmem : ∀ y, y ∈ s.sessions.filter (fun y => y.id != x.id) ↔ y ∈ s.sessions ∧ y.id ≠ x.id := by
    simp
  refine ⟨⟨?_, ?_, ?_, ?_⟩, h.tree, h.sites, ?_, ?_, ?_⟩
  · exact fun y hy => h.fresh y ((hmem y).mp hy).1
  · exact h.ids.sublist (List.filter_sublist.map _)
  · exact fun y hy => h.inOrder y ((hmem y).mp hy).1
  · exact fun y hy z hz => h.pending y ((hmem y).mp hy).1 z ((hmem z).mp hz).1
  · exact fun y hy => h.rooted y ((hmem y).mp hy).1
  · exact fun y hy z hz => h.single y ((hmem y).mp hy).1 z ((hmem z).mp hz).1
  · intro n hn
    obtain ⟨y, hy, hown, hpeer⟩ := h.owned n hn
    refine ⟨y, (hmem y).mpr ⟨hy, fun he => ?_⟩, hown, hpeer⟩
    rw [h.inj hy hx he, hadm] at hown
    exact absurd hown (by simp)

/-- Losing a session together with its branch. -/
theorem Sound.lost (h : Sound u s) {x : LinkSession} (hx : x ∈ s.sessions)
    (hadm : x.admitted = true) :
    Sound u { s with tree := s.tree.pruned x.node, generation := s.generation + 1
                     sessions := s.sessions.filter fun y => y.id != x.id } := by
  obtain ⟨root, hroot, hrs, hrp⟩ := h.rooted x hx hadm
  have hloc : x.node ≠ s.node := hrs ▸ h.tree.remote_ne hroot
  have hmem : ∀ y, y ∈ s.sessions.filter (fun y => y.id != x.id) ↔ y ∈ s.sessions ∧ y.id ≠ x.id := by
    simp
  have hremote : ∀ m, m ∈ (s.tree.pruned x.node).remote ↔
      m ∈ s.tree.remote ∧ ¬ s.tree.Below x.node m.server :=
    fun m => h.tree.mem_remote_pruned hloc
  refine ⟨⟨?_, ?_, ?_, ?_⟩, h.tree.pruned hloc, ?_, ?_, ?_, ?_⟩
  · exact fun y hy => h.fresh y ((hmem y).mp hy).1
  · exact h.ids.sublist (List.filter_sublist.map _)
  · exact fun y hy => h.inOrder y ((hmem y).mp hy).1
  · exact fun y hy z hz => h.pending y ((hmem y).mp hy).1 z ((hmem z).mp hz).1
  · exact fun m hm => h.sites m (WellFormed.mem_pruned.mp hm).1
  · intro y hy hyadm
    obtain ⟨hy, hne⟩ := (hmem y).mp hy
    obtain ⟨m, hm, hms, hmp⟩ := h.rooted y hy hyadm
    refine ⟨m, (hremote m).mpr ⟨hm, fun hb => ?_⟩, hms, hmp⟩
    rw [← hrs] at hb
    obtain ⟨k, hk, hks, hkp, -⟩ := below_peer h.tree hroot hb
    obtain rfl := h.tree.mem_inj (WellFormed.remote_mem hk) (WellFormed.remote_mem hm) hks
    exact hne (congrArg (·.id) (h.single y hy x hx hyadm hadm (hmp.symm.trans (hkp.trans hrp))))
  · exact fun y hy z hz => h.single y ((hmem y).mp hy).1 z ((hmem z).mp hz).1
  · intro n hn
    obtain ⟨hn, hkeep⟩ := (hremote n).mp hn
    obtain ⟨y, hy, hown, hpeer⟩ := h.owned n hn
    refine ⟨y, (hmem y).mpr ⟨hy, fun he => hkeep ?_⟩, hown, hpeer⟩
    rw [← h.inj hy hx he, hpeer]
    exact below_of_peer h.tree hn

/-- Whatever an event does keeps the invariant. -/
theorem Handled.sound {actor : Option Nat} (hh : Handled u s actor s') (h : Sound u s) : Sound u s' := by
  cases hh with
  | same => exact h
  | opened => exact h.opened
  | failed id => exact h.fail id
  | greeted x peer node hx hnew halone => exact h.greeted peer node hx hnew halone
  | attached x nodes hx hhello hnew hopen hc =>
      exact (h.attached hx hhello hnew hopen hc).sendMessage _ _
  | established x hx hadm hnew =>
      rw [foldl_announce]
      exact (h.established hx hadm).sent _
  | introduced x node parent site hx hest hclosing hadd => exact (h.introduced hx hest hadd).sent _
  | withdrawn x n hx hest hclosing hn hpeer hne => exact (h.withdrawn hn hpeer hne).sent _
  | dropped x hx hadm => exact h.dropped hx hadm
  | lost x s₁ hx hadm hs₁ =>
      subst hs₁
      split
      · exact (h.lost hx hadm).sent _
      · exact h.lost hx hadm

theorem Sound.step (h : Sound u s) (e : Event) : Sound u (step u s e) :=
  (handle_cases (h.sent []) e).sound (h.sent [])

theorem Sound.run (es : List Event) : ∀ {s : Links}, Sound u s → Sound u (run u s es) := by
  induction es with
  | nil => exact fun h => h
  | cons e es ih => exact fun h => ih (h.step e)

theorem sound_init {node site : String} {limit : Nat} (hinit : init u node limit site = some s) :
    Sound u s := by
  unfold init at hinit
  split at hinit
  · exact absurd hinit (by simp)
  rename_i t hnew
  split at hinit
  swap
  · exact absurd hinit (by simp)
  rename_i hsite
  obtain rfl := Option.some.inj hinit
  have hroot : t.nodes = [{ server := node, parent := "", peer := "", site := "" }] := by
    unfold LinkTree.new at hnew
    split at hnew
    · exact absurd hnew (by simp)
    · obtain rfl := Option.some.inj hnew
      rfl
  have ht := (WellFormed.new hnew).1
  have hnone : ∀ {P : LinkSession → Prop}, ∀ x ∈ ([] : List LinkSession), P x :=
    fun x hx => absurd hx List.not_mem_nil
  refine ⟨⟨hnone, List.nodup_nil, hnone, hnone⟩, ⟨?_, ?_, ?_, ht.limit_le, ⟨site, ?_⟩, ?_⟩, ?_,
    hnone, hnone, ?_⟩
  · intro n hn
    obtain ⟨m, hm, rfl⟩ := List.mem_map.mp hn
    exact ht.valid m hm
  · rw [List.map_map]
    exact ht.distinct
  · simpa [count] using ht.count_le
  · simp [hroot, remote]
  · simp [hroot, remote]
  · intro n hn
    obtain ⟨m, -, rfl⟩ := List.mem_map.mp hn
    exact hsite
  · simp [hroot, remote]

end Links

end RustyRig
