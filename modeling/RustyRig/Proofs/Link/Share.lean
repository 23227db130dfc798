/-
What a server shares with a neighbour, and what it posts to keep it shared.

`Shared` is the parent relation of every branch of the tree that belongs to an
established session, the neighbour's own branch left out.  Each event changes it by
the edits it posts to the neighbour, in their order: nothing for what goes on in the
neighbour's branch or before a session is established, one frame for a forwarded
change or a lost branch, and a whole branch, parent first, for a new link.
-/
import RustyRig.Proofs.Link.Branch
import RustyRig.Lib.Grove

namespace RustyRig

open Lib

/-- The edit a frame asks for. -/
def LinkFrame.edit : LinkFrame → Option (Edit String)
  | .introduce node parent _ => some (.grow node parent)
  | .withdraw node => some (.prune node)
  | _ => none

/-- A frame of an established link, with arguments the tree's own checks pass. -/
def LinkFrame.Valid (u : UuidFormat) : LinkFrame → Prop
  | .introduce node parent site => validId u (some node) = true ∧ validId u (some parent) = true ∧
      LinkTree.validSite (some site) = true
  | .withdraw _ => True
  | _ => False

namespace Links

open LinkTree

variable {u : UuidFormat} {s s' : Links} {id : Nat} {node root : String}
  {r r' r'' : String → String → Prop}

/-- The frames are valid, and lead from one relation to the other. -/
structure Carries (u : UuidFormat) (root : String) (r : String → String → Prop)
    (fs : List LinkFrame) (r' : String → String → Prop) : Prop where
  valid : ∀ f ∈ fs, f.Valid u
  replays : Replays root r (fs.filterMap LinkFrame.edit) r'

theorem Carries.nil : Carries u root r [] r :=
  ⟨fun _ hf => absurd hf List.not_mem_nil, .nil⟩

theorem Carries.none (heq : r' = r) : Carries u root r [] r' := by
  rw [heq]
  exact Carries.nil

theorem Carries.append {fs gs : List LinkFrame} (h : Carries u root r fs r')
    (h' : Carries u root r' gs r'') : Carries u root r (fs ++ gs) r'' := by
  refine ⟨fun f hf => ?_, ?_⟩
  · rcases List.mem_append.mp hf with hf | hf
    · exact h.valid f hf
    · exact h'.valid f hf
  · rw [List.filterMap_append]
    exact h.replays.append h'.replays

/-! ### Sessions towards a neighbour -/

/-- The session is established and open. -/
def Up (s : Links) (id : Nat) : Prop :=
  ∃ x ∈ s.sessions, x.id = id ∧ x.established = true ∧ x.closing = false

/-- The session was established with `node`. -/
structure Peered (s : Links) (id : Nat) (node : String) : Prop where
  session : ∀ x ∈ s.sessions, x.id = id → x.established = true ∧ x.node = node
  old : id < s.opened

/-- Some established session leads to the server. -/
def Linked (s : Links) (p : String) : Prop := ∃ x ∈ s.sessions, x.established = true ∧ x.node = p

/-- What the sessions do with established ones: they may fail, and no more. -/
theorem linked_modify {f : LinkSession → LinkSession} {p : String}
    (hf : ∀ x ∈ s.sessions, x.id = id → (f x).established = x.established ∧
      (x.established = true → (f x).node = x.node)) :
    (s.modify id f).Linked p ↔ s.Linked p := by
  have hsame : ∀ x ∈ s.sessions, (if x.id = id then f x else x).established = x.established ∧
      (x.established = true → (if x.id = id then f x else x).node = x.node) := by
    intro x hx
    by_cases hxid : x.id = id
    · rw [if_pos hxid]
      exact hf x hx hxid
    · rw [if_neg hxid]
      exact ⟨rfl, fun _ => rfl⟩
  constructor
  · rintro ⟨y, hy, hest, hnode⟩
    obtain ⟨x, hx, rfl⟩ := mem_modify.mp hy
    rw [(hsame x hx).1] at hest
    exact ⟨x, hx, hest, ((hsame x hx).2 hest).symm.trans hnode⟩
  · rintro ⟨x, hx, hest, hnode⟩
    exact ⟨_, mem_modify.mpr ⟨x, hx, rfl⟩, (hsame x hx).1.trans hest, ((hsame x hx).2 hest).trans hnode⟩

/-- The neighbour's session is not one that is still to be established. -/
theorem Peered.ne_of_new (hp : Peered s id node) {x : LinkSession} (hx : x ∈ s.sessions)
    (hnew : x.established = false) : x.id ≠ id := by
  intro he
  rw [(hp.session x hx he).1] at hnew
  exact absurd hnew (by simp)

/-- Another admitted session leads elsewhere. -/
theorem Peered.node_ne (hp : Peered s id node) (h : Sound u s) (hup : s.Up id) {x : LinkSession}
    (hx : x ∈ s.sessions) (hadm : x.admitted = true) (hne : x.id ≠ id) : x.node ≠ node := by
  obtain ⟨y, hy, hyid, hest, -⟩ := hup
  intro hc
  have hsame := h.single x hx y hy hadm (h.admitted_of_established hy hest)
    (hc.trans (hp.session y hy hyid).2.symm)
  exact hne (hsame ▸ hyid)

theorem Handled.peered {actor : Option Nat} (hh : Handled u s actor s') (h : Sound u s)
    (hp : Peered s id node) : Peered s' id node := by
  -- a session changes only until it is established
  have hmodify : ∀ (s₁ : Links) (i : Nat) (f : LinkSession → LinkSession), Peered s₁ id node →
      (∀ x, (f x).id = x.id) →
      (∀ x ∈ s₁.sessions, x.id = i → x.established = true → (f x).established = true ∧
        (f x).node = x.node) → Peered (s₁.modify i f) id node := by
    intro s₁ i f hp hid hf
    refine ⟨fun y hy hyid => ?_, hp.old⟩
    obtain ⟨x, hx, rfl⟩ := mem_modify.mp hy
    by_cases hxi : x.id = i
    · rw [if_pos hxi] at hyid ⊢
      rw [hid] at hyid
      obtain ⟨hest, hnode⟩ := hp.session x hx hyid
      exact ⟨(hf x hx hxi hest).1, (hf x hx hxi hest).2.trans hnode⟩
    · rw [if_neg hxi] at hyid ⊢
      exact hp.session x hx hyid
  have hsend : ∀ (s₁ : Links) (i : Nat) (f : LinkFrame), Peered s₁ id node →
      Peered (s₁.sendMessage i f) id node := by
    intro s₁ i f hp
    unfold sendMessage
    split
    · exact ⟨hp.session, hp.old⟩
    · exact hp
  cases hh with
  | same => exact hp
  | opened =>
      unfold newSession
      split
      · exact hp
      · refine ⟨fun x hx hxid => ?_, Nat.lt_succ_of_lt hp.old⟩
        rcases List.mem_cons.mp hx with rfl | hx
        · exact absurd hp.old (by rw [← hxid]; exact Nat.lt_irrefl _)
        · exact hp.session x hx hxid
  | failed i => exact hmodify s i _ hp (fun _ => rfl) fun x _ _ hest => ⟨hest, rfl⟩
  | greeted x peer n hx hnew halone =>
      refine hsend _ _ _ (hmodify _ _ _ (hmodify _ _ _ hp (fun _ => rfl) ?_) (fun _ => rfl)
        fun y _ _ hest => ⟨hest, rfl⟩)
      intro y hy hyid hest
      obtain rfl := h.inj hy hx hyid
      have ho := h.inOrder y hy
      rw [ho.snapshot (ho.admitted ▸ h.admitted_of_established hy hest)] at hnew
      exact absurd hnew (by simp)
  | attached x nodes hx hhello hnew hopen hc =>
      exact hsend _ _ _ (hmodify _ _ _ ⟨hp.session, hp.old⟩ (fun _ => rfl)
        fun y _ _ hest => ⟨hest, rfl⟩)
  | established x hx hadm hnew =>
      rw [foldl_announce]
      have hm := hmodify s x.id (fun x => { x with ready := true, established := true }) hp
        (fun _ => rfl) fun y _ _ _ => ⟨rfl, rfl⟩
      exact ⟨hm.session, hm.old⟩
  | introduced => exact ⟨hp.session, hp.old⟩
  | withdrawn => exact ⟨hp.session, hp.old⟩
  | dropped => exact ⟨fun x hx => hp.session x (List.mem_filter.mp hx).1, hp.old⟩
  | lost x s₁ hx hadm hs₁ =>
      subst hs₁
      split
      · exact ⟨fun x hx => hp.session x (List.mem_filter.mp hx).1, hp.old⟩
      · exact ⟨fun x hx => hp.session x (List.mem_filter.mp hx).1, hp.old⟩

/-! ### What a step posts -/

theorem reached_up (h : Ordered s) (hup : s.Up id) {exclude : Nat} (hne : id ≠ exclude) :
    ∃ x, (s.reached exclude).filter (·.id == id) = [x] := by
  obtain ⟨x, hx, hxid, hest, hclosing⟩ := hup
  refine ⟨x, ?_⟩
  have hcongr : s.sessions.filter (fun y => y.id == id &&
      (y.id != exclude && y.established && !y.closing)) = s.sessions.filter (· == x) := by
    refine List.filter_congr fun y hy => ?_
    by_cases hyx : y = x
    · subst hyx
      simp [hxid, hest, hclosing, hne]
    · have hyid : y.id ≠ id := fun he => hyx (h.inj hy hx (he.trans hxid.symm))
      rw [show (y.id == id) = false from beq_eq_false_iff_ne.mpr hyid,
        show (y == x) = false from beq_eq_false_iff_ne.mpr hyx]
      rfl
  unfold reached
  rw [List.filter_filter, hcongr, List.filter_beq, List.count_eq_one_of_mem (h.ids.of_map _) hx]
  rfl

theorem reached_not {exclude : Nat} (hn : ¬ (s.Up id ∧ id ≠ exclude)) :
    (s.reached exclude).filter (·.id == id) = [] := by
  refine List.filter_eq_nil_iff.mpr fun x hx => ?_
  obtain ⟨hx, hopen⟩ := List.mem_filter.mp hx
  simp only [Bool.and_eq_true, bne_iff_ne, Bool.not_eq_true'] at hopen
  rw [beq_iff_eq]
  rintro rfl
  exact hn ⟨⟨x, hx, rfl, hopen.1.2, hopen.2⟩, hopen.1.1⟩

theorem posted_reached (l : List LinkSession) (f : LinkFrame) :
    ((l.map fun x => (x.id, f)).filter (·.1 == id)).map (·.2) =
      (l.filter (·.id == id)).map fun _ => f := by
  rw [List.filter_map, List.map_map]
  rfl

theorem posted_broadcast (h : Ordered s) (hsent : s.sent = []) (hup : s.Up id) {exclude : Nat}
    (hne : id ≠ exclude) (f : LinkFrame) : (s.broadcast exclude f).posted id = [f] := by
  obtain ⟨x, hx⟩ := reached_up h hup hne
  show ((s.sent ++ (s.reached exclude).map fun x => (x.id, f)).filter (·.1 == id)).map (·.2) = [f]
  rw [hsent, List.nil_append, posted_reached, hx]
  rfl

theorem posted_broadcast_not (hsent : s.sent = []) {exclude : Nat} (hn : ¬ (s.Up id ∧ id ≠ exclude))
    (f : LinkFrame) : (s.broadcast exclude f).posted id = [] := by
  show ((s.sent ++ (s.reached exclude).map fun x => (x.id, f)).filter (·.1 == id)).map (·.2) = []
  rw [hsent, List.nil_append, posted_reached, reached_not hn]
  rfl

theorem posted_announce (h : Ordered s) (hsent : s.sent = []) (hup : s.Up id) {exclude : Nat}
    (hne : id ≠ exclude) (ns : List LinkNode) :
    (ns.foldl (announceNode exclude) s).posted id =
      ns.map fun n => .introduce n.server n.parent n.site := by
  obtain ⟨x, hx⟩ := reached_up h hup hne
  rw [foldl_announce]
  unfold posted
  simp only [hsent, List.nil_append, List.filter_flatMap, List.map_flatMap, posted_reached, hx,
    List.map_cons, List.map_nil]
  induction ns with
  | nil => rfl
  | cons n ns ih => rw [List.flatMap_cons, ih]; rfl

theorem posted_announce_not (hsent : s.sent = []) {exclude : Nat} (hn : ¬ (s.Up id ∧ id ≠ exclude))
    (ns : List LinkNode) : (ns.foldl (announceNode exclude) s).posted id = [] := by
  rw [foldl_announce]
  unfold posted
  simp only [hsent, List.nil_append, List.filter_flatMap, List.map_flatMap, posted_reached,
    reached_not hn, List.map_nil]
  induction ns with
  | nil => rfl
  | cons n ns ih => rw [List.flatMap_cons, ih]; rfl

theorem posted_sendMessage (hsent : s.sent = []) {target : Nat} (hne : target ≠ id) (f : LinkFrame) :
    (s.sendMessage target f).posted id = [] := by
  unfold sendMessage
  split
  · unfold posted
    simp [hsent, hne]
  · unfold posted
    rw [hsent]
    rfl

/-! ### What is shared -/

/-- The parents in the branches of established sessions, but for the branch `skip`. -/
def Shared (s : Links) (skip : String) (a q : String) : Prop :=
  ∃ n ∈ s.tree.remote, n.server = a ∧ n.parent = q ∧ n.peer ≠ skip ∧ s.Linked n.peer

theorem shared_congr (htree : s'.tree = s.tree)
    (hlinked : ∀ n ∈ s.tree.remote, n.peer ≠ node → (s'.Linked n.peer ↔ s.Linked n.peer)) :
    Shared s' node = Shared s node := by
  funext a q
  apply propext
  unfold Shared
  rw [htree]
  constructor
  · rintro ⟨n, hn, hs, hq, hne, hl⟩
    exact ⟨n, hn, hs, hq, hne, (hlinked n hn hne).mp hl⟩
  · rintro ⟨n, hn, hs, hq, hne, hl⟩
    exact ⟨n, hn, hs, hq, hne, (hlinked n hn hne).mpr hl⟩

/-- Below a node, the parents of its own branch are all that counts. -/
theorem below_iff {t : LinkTree} {loc : String} (h : WellFormed u loc t)
    (hsub : ∀ a q, r a q → t.Edge a q) {n : LinkNode} (hn : n ∈ t.remote)
    (hcov : ∀ m ∈ t.remote, m.peer = n.peer → m.server ≠ n.peer ∨ m.server = n.server →
      r m.server m.parent) (a : String) :
    Relation.ReflTransGen r a n.server ↔ t.Below n.server a := by
  constructor
  · exact fun hb => Relation.ReflTransGen.mono hsub _ _ hb
  · intro hb
    induction hb using Relation.ReflTransGen.head_induction_on with
    | refl => exact .refl
    | @head a c hac hc ih =>
        obtain ⟨m, hm, hms, hmp, hcase⟩ := below_peer h hn (.head hac hc)
        obtain ⟨k, hk, hka, rfl⟩ := hac
        obtain rfl := h.mem_inj (WellFormed.remote_mem hm) (WellFormed.remote_mem hk)
          (hms.trans hka.symm)
        subst hka
        exact .head (hcov m hm hmp hcase.symm) ih

/-- Withdrawing a shared node is the edit that is posted for it. -/
theorem shared_pruned (h : Sound u s) {n : LinkNode} (hn : n ∈ s.tree.remote)
    (hskip : n.peer ≠ node) (hl : s.Linked n.peer) (htree : s'.tree = s.tree.pruned n.server)
    (hlinked : ∀ m ∈ s.tree.remote, ¬ s.tree.Below n.server m.server →
      (s'.Linked m.peer ↔ s.Linked m.peer)) :
    (Edit.prune n.server).apply (Shared s node) = Shared s' node := by
  have hbelow := below_iff (r := Shared s node) h.tree
    (fun a q ⟨m, hm, hs, hq, _⟩ => ⟨m, hm, hs, hq⟩) hn
    (fun m hm hp _ => ⟨m, hm, rfl, rfl, hp ▸ hskip, hp ▸ hl⟩)
  have hremote := fun m => h.tree.mem_remote_pruned (n := m) (h.tree.remote_ne hn)
  funext a q
  apply propext
  simp only [Edit.apply, hbelow]
  unfold Shared
  rw [htree]
  constructor
  · rintro ⟨⟨m, hm, rfl, rfl, hne, hml⟩, hb⟩
    exact ⟨m, (hremote m).mpr ⟨hm, hb⟩, rfl, rfl, hne, (hlinked m hm hb).mpr hml⟩
  · rintro ⟨m, hm, rfl, rfl, hne, hml⟩
    obtain ⟨hm, hb⟩ := (hremote m).mp hm
    exact ⟨⟨m, hm, rfl, rfl, hne, (hlinked m hm hb).mp hml⟩, hb⟩

/-- Withdrawing a node that is not shared changes nothing. -/
theorem shared_pruned_not (h : Sound u s) {n : LinkNode} (hn : n ∈ s.tree.remote)
    (hnot : n.peer = node ∨ ¬ s.Linked n.peer) (htree : s'.tree = s.tree.pruned n.server)
    (hlinked : ∀ m ∈ s.tree.remote, m.peer ≠ node → ¬ s.tree.Below n.server m.server →
      (s'.Linked m.peer ↔ s.Linked m.peer)) :
    Shared s' node = Shared s node := by
  have hremote := fun m => h.tree.mem_remote_pruned (n := m) (h.tree.remote_ne hn)
  funext a q
  apply propext
  unfold Shared
  rw [htree]
  constructor
  · rintro ⟨m, hm, rfl, rfl, hne, hml⟩
    obtain ⟨hm, hb⟩ := (hremote m).mp hm
    exact ⟨m, hm, rfl, rfl, hne, (hlinked m hm hne hb).mp hml⟩
  · rintro ⟨m, hm, rfl, rfl, hne, hml⟩
    have hb : ¬ s.tree.Below n.server m.server := by
      intro hb
      obtain ⟨k, hk, hks, hkp, -⟩ := below_peer h.tree hn hb
      obtain rfl := h.tree.mem_inj (WellFormed.remote_mem hk) (WellFormed.remote_mem hm) hks
      rcases hnot with hc | hc
      · exact hne (hkp.trans hc)
      · exact hc (hkp ▸ hml)
    exact ⟨m, (hremote m).mpr ⟨hm, hb⟩, rfl, rfl, hne, (hlinked m hm hne hb).mpr hml⟩

theorem member_shared (h : Sound u s) {n : LinkNode} (hn : n ∈ s.tree.remote) :
    Member (Shared s node) n.server ↔ n.peer ≠ node ∧ s.Linked n.peer := by
  constructor
  · rintro ⟨b, m, hm, hms, -, hne, hl⟩
    obtain rfl := h.tree.mem_inj (WellFormed.remote_mem hm) (WellFormed.remote_mem hn) hms
    exact ⟨hne, hl⟩
  · rintro ⟨hne, hl⟩
    exact ⟨n.parent, n, hn, rfl, rfl, hne, hl⟩

/-- Only one admitted session leads to a server. -/
theorem Sound.linked_iff (h : Sound u s) {x : LinkSession} (hx : x ∈ s.sessions)
    (hadm : x.admitted = true) : s.Linked x.node ↔ x.established = true := by
  constructor
  · rintro ⟨y, hy, hest, hnode⟩
    rw [h.single x hx y hy hadm (h.admitted_of_established hy hest) hnode.symm]
    exact hest
  · exact fun hest => ⟨x, hx, hest, rfl⟩

/-! ### Each event posts what it changes -/

/-- A link that becomes established posts its branch. -/
theorem carries_established (h : Sound u s) (hsent : s.sent = []) (hp : Peered s id node)
    (hup : s.Up id) {x : LinkSession} (hx : x ∈ s.sessions) (hadm : x.admitted = true)
    (hnew : x.established = false) :
    let s' := (publication s.tree x.node).foldl (announceNode x.id)
      (s.modify x.id fun x => { x with ready := true, established := true })
    Carries u s.node (Shared s node) (s'.posted id) (Shared s' node) := by
  intro s'
  have hxid : x.id ≠ id := hp.ne_of_new hx hnew
  have hxnode : x.node ≠ node := hp.node_ne h hup hx hadm hxid
  have hpub := published h.tree x.node
  have hnl : ¬ s.Linked x.node := by
    rw [h.linked_iff hx hadm, hnew]
    simp
  have hup' : (s.modify x.id fun x => { x with ready := true, established := true }).Up id := by
    obtain ⟨y, hy, hyid, hest, hclosing⟩ := hup
    refine ⟨y, mem_modify.mpr ⟨y, hy, ?_⟩, hyid, hest, hclosing⟩
    rw [if_neg fun hc => hxid (hc.symm.trans hyid)]
  have hposted : s'.posted id = (publication s.tree x.node).map fun n =>
      .introduce n.server n.parent n.site :=
    posted_announce (h.established hx hadm).toOrdered hsent hup' hxid.symm _
  have hlinked : ∀ p, s'.Linked p ↔ s.Linked p ∨ p = x.node := by
    intro p
    have hs : s'.sessions = (s.modify x.id fun x =>
        { x with ready := true, established := true }).sessions := by
      show ((publication s.tree x.node).foldl (announceNode x.id) _).sessions = _
      rw [foldl_announce]
    unfold Linked
    rw [hs]
    constructor
    · rintro ⟨y, hy, hest, hnode⟩
      obtain ⟨k, hk, rfl⟩ := mem_modify.mp hy
      by_cases hkid : k.id = x.id
      · obtain rfl := h.inj hk hx hkid
        rw [if_pos rfl] at hnode
        exact Or.inr hnode.symm
      · rw [if_neg hkid] at hest hnode
        exact Or.inl ⟨k, hk, hest, hnode⟩
    · rintro (⟨k, hk, hest, hnode⟩ | rfl)
      · refine ⟨_, mem_modify.mpr ⟨k, hk, rfl⟩, ?_, ?_⟩
        · split
          · rfl
          · exact hest
        · split
          · exact hnode
          · exact hnode
      · exact ⟨_, mem_modify.mpr ⟨x, hx, rfl⟩, by rw [if_pos rfl], by rw [if_pos rfl]⟩
  have htree : s'.tree = s.tree := by
    show ((publication s.tree x.node).foldl (announceNode x.id) _).tree = _
    rw [foldl_announce]
    rfl
  have hshared : Shared s' node = fun a q => Shared s node a q ∨
      ∃ n ∈ publication s.tree x.node, a = n.server ∧ q = n.parent := by
    funext a q
    apply propext
    unfold Shared
    simp only [htree, hlinked, hpub.branch]
    constructor
    · rintro ⟨n, hn, rfl, rfl, hne, hl | hl⟩
      · exact Or.inl ⟨n, hn, rfl, rfl, hne, hl⟩
      · exact Or.inr ⟨n, ⟨hn, hl⟩, rfl, rfl⟩
    · rintro (⟨n, hn, rfl, rfl, hne, hl⟩ | ⟨n, ⟨hn, hl⟩, rfl, rfl⟩)
      · exact ⟨n, hn, rfl, rfl, hne, Or.inl hl⟩
      · exact ⟨n, hn, rfl, rfl, hl ▸ hxnode, Or.inr hl⟩
  rw [hposted, hshared]
  refine ⟨?_, ?_⟩
  · intro f hf
    obtain ⟨n, hn, rfl⟩ := List.mem_map.mp hf
    have hmem := ((hpub.branch n).mp hn).1
    obtain ⟨m, hm, hms⟩ := h.tree.parent_known hmem
    exact ⟨h.tree.valid n (WellFormed.remote_mem hmem), hms ▸ h.tree.valid m hm,
      h.sites n (WellFormed.remote_mem hmem)⟩
  · have hedits : ((publication s.tree x.node).map fun n =>
        LinkFrame.introduce n.server n.parent n.site).filterMap LinkFrame.edit =
        (publication s.tree x.node).map fun n => Edit.grow n.server n.parent := by
      rw [List.filterMap_map, ← List.filterMap_eq_map]
      rfl
    rw [hedits]
    refine Replays.grows LinkNode.server LinkNode.parent _ _ hpub.nodup ?_ ?_ ?_
    · exact fun n hn => h.tree.remote_ne ((hpub.branch n).mp hn).1
    · intro n hn
      obtain ⟨hmem, hpeer⟩ := (hpub.branch n).mp hn
      rw [member_shared h hmem, hpeer]
      exact fun hc => hnl hc.2
    · intro pre n post hsplit
      rcases hpub.ordered pre n post hsplit with hloc | hm
      · exact Or.inl (hloc.trans h.tree.localServer_eq)
      · exact Or.inr (Or.inr hm)

/-- An introduction that is taken in is passed on. -/
theorem carries_introduced (h : Sound u s) (hsent : s.sent = []) (hp : Peered s id node)
    (hup : s.Up id) {x : LinkSession} {n q w : String} (hx : x ∈ s.sessions)
    (hest : x.established = true)
    (hadd : LinkTree.add u s.tree (some x.node) (some n) (some q) (some w) =
      (.ok, s.tree.extended [⟨n, q, x.node, w⟩])) :
    let s' := { s with tree := s.tree.extended [⟨n, q, x.node, w⟩]
                       generation := s.generation + 1 }.broadcast x.id (.introduce n q w)
    Carries u s.node (Shared s node) (s'.posted id) (Shared s' node) := by
  intro s'
  have hadm := h.admitted_of_established hx hest
  obtain ⟨⟨-, hn, hq, hw⟩, ⟨owner, source, howner, -, -, -, hop⟩, hfresh, -⟩ :=
    add_ok_iff.mp (congrArg Prod.fst hadd)
  have hremote : s'.tree.remote = s.tree.remote ++ [⟨n, q, x.node, w⟩] :=
    h.tree.remote_extended _
  have hord : Ordered { s with tree := s.tree.extended [⟨n, q, x.node, w⟩]
                               generation := s.generation + 1 } :=
    ⟨h.fresh, h.ids, h.inOrder, h.pending⟩
  by_cases hxid : x.id = id
  · have hposted : s'.posted id = [] := posted_broadcast_not hsent (fun hc => hc.2 hxid.symm) _
    rw [hposted]
    refine Carries.none ?_
    funext a b
    apply propext
    unfold Shared
    rw [hremote]
    constructor
    · rintro ⟨m, hm, hma, hmb, hne, hl⟩
      rcases List.mem_append.mp hm with hm | hm
      · exact ⟨m, hm, hma, hmb, hne, hl⟩
      · rw [List.mem_singleton.mp hm] at hne
        exact absurd (hp.session x hx hxid).2 hne
    · rintro ⟨m, hm, hma, hmb, hne, hl⟩
      exact ⟨m, List.mem_append_left _ hm, hma, hmb, hne, hl⟩
  · have hxnode := hp.node_ne h hup hx hadm hxid
    have hposted : s'.posted id = [.introduce n q w] :=
      posted_broadcast hord hsent hup (Ne.symm hxid) _
    have hl : s.Linked x.node := (h.linked_iff hx hadm).mpr hest
    rw [hposted]
    refine ⟨fun f hf => ?_, ?_⟩
    · rw [List.mem_singleton.mp hf]
      exact ⟨hn, hq, hw⟩
    refine Replays.single ⟨?_, ?_, Or.inr ?_⟩ ?_
    · intro hc
      obtain ⟨site, hroot⟩ := h.tree.root
      exact find_none.mp hfresh _ (by rw [hroot]; exact List.mem_cons_self) hc.symm
    · rintro ⟨b, m, hm, hms, -⟩
      exact find_none.mp hfresh m (WellFormed.remote_mem hm) hms
    · obtain ⟨hmem, hid⟩ := find_mem howner
      have hown : owner ∈ s.tree.remote := by
        refine h.tree.mem_remote hmem ?_
        obtain ⟨k, hk, hks, hkp⟩ := h.rooted x hx hadm
        rw [hop, ← hkp]
        exact h.tree.peer_ne hk
      rw [Option.some.inj hid]
      exact (member_shared h hown).mpr ⟨hop ▸ hxnode, hop ▸ hl⟩
    · funext a b
      apply propext
      unfold Shared Edit.apply
      rw [hremote]
      constructor
      · rintro (⟨m, hm, hms⟩ | ⟨rfl, rfl⟩)
        · exact ⟨m, List.mem_append_left _ hm, hms⟩
        · exact ⟨_, List.mem_append_right _ (List.mem_singleton_self _), rfl, rfl, hxnode, hl⟩
      · rintro ⟨m, hm, hma, hmb, hne, hml⟩
        rcases List.mem_append.mp hm with hm | hm
        · exact Or.inl ⟨m, hm, hma, hmb, hne, hml⟩
        · obtain rfl := List.mem_singleton.mp hm
          exact Or.inr ⟨hma.symm, hmb.symm⟩

/-- A withdrawal that is taken in is passed on. -/
theorem carries_withdrawn (h : Sound u s) (hsent : s.sent = []) (hp : Peered s id node)
    (hup : s.Up id) {x : LinkSession} {n : LinkNode} (hx : x ∈ s.sessions)
    (hest : x.established = true) (hn : n ∈ s.tree.remote) (hpeer : n.peer = x.node) :
    let s' := { s with tree := s.tree.pruned n.server
                       generation := s.generation + 1 }.broadcast x.id (.withdraw n.server)
    Carries u s.node (Shared s node) (s'.posted id) (Shared s' node) := by
  intro s'
  have hadm := h.admitted_of_established hx hest
  by_cases hxid : x.id = id
  · have hposted : s'.posted id = [] := posted_broadcast_not hsent (fun hc => hc.2 hxid.symm) _
    rw [hposted]
    exact Carries.none (shared_pruned_not h hn (Or.inl (hpeer.trans (hp.session x hx hxid).2)) rfl
      fun m _ _ _ => Iff.rfl)
  · have hxnode := hp.node_ne h hup hx hadm hxid
    have hl : s.Linked n.peer := hpeer ▸ (h.linked_iff hx hadm).mpr hest
    have hord : Ordered { s with tree := s.tree.pruned n.server, generation := s.generation + 1 } :=
      ⟨h.fresh, h.ids, h.inOrder, h.pending⟩
    have hposted : s'.posted id = [.withdraw n.server] :=
      posted_broadcast hord hsent hup (Ne.symm hxid) _
    rw [hposted]
    refine ⟨fun f hf => ?_, Replays.single ⟨h.tree.remote_ne hn, ?_⟩ ?_⟩
    · rw [List.mem_singleton.mp hf]
      trivial
    · exact (member_shared h hn).mpr ⟨hpeer ▸ hxnode, hl⟩
    · exact shared_pruned h hn (hpeer ▸ hxnode) hl rfl fun m _ _ => Iff.rfl

/-- A branch that is lost is withdrawn, if it was shared. -/
theorem carries_lost (h : Sound u s) (hsent : s.sent = []) (hp : Peered s id node) (hup : s.Up id)
    {x : LinkSession} {s₁ : Links} (hx : x ∈ s.sessions) (hadm : x.admitted = true)
    (hs₁ : s₁ = if x.established then
        { s with tree := s.tree.pruned x.node, generation := s.generation + 1 }.broadcast x.id
          (.withdraw x.node)
      else { s with tree := s.tree.pruned x.node, generation := s.generation + 1 }) :
    let s' := { s₁ with sessions := s₁.sessions.filter fun y => y.id != x.id }
    Carries u s.node (Shared s node) (s'.posted id) (Shared s' node) := by
  intro s'
  obtain ⟨root, hroot, hrs, hrp⟩ := h.rooted x hx hadm
  have hs' : s'.tree = s.tree.pruned root.server ∧
      s'.sessions = s.sessions.filter fun y => y.id != x.id := by
    rw [hrs]
    show s₁.tree = _ ∧ s₁.sessions.filter _ = _
    rw [hs₁]
    split <;> exact ⟨rfl, rfl⟩
  -- the other links are as they were
  have hlinked : ∀ p, p ≠ x.node → (s'.Linked p ↔ s.Linked p) := by
    intro p hne
    unfold Linked
    rw [hs'.2]
    constructor
    · rintro ⟨y, hy, hest, hnode⟩
      exact ⟨y, (List.mem_filter.mp hy).1, hest, hnode⟩
    · rintro ⟨y, hy, hest, hnode⟩
      refine ⟨y, List.mem_filter.mpr ⟨hy, ?_⟩, hest, hnode⟩
      rw [bne_iff_ne]
      intro hc
      rw [h.inj hy hx hc] at hnode
      exact hne hnode.symm
  have hkept : ∀ m ∈ s.tree.remote, ¬ s.tree.Below root.server m.server → m.peer ≠ x.node := by
    intro m hm hb hc
    refine hb ?_
    rw [hrs, ← hc]
    exact below_of_peer h.tree hm
  by_cases hxid : x.id = id
  · have hposted : s'.posted id = [] := by
      show s₁.posted id = []
      rw [hs₁]
      split
      · exact posted_broadcast_not hsent (fun hc => hc.2 hxid.symm) _
      · simp [posted, hsent]
    rw [hposted]
    exact Carries.none (shared_pruned_not h hroot
      (Or.inl (hrp.trans (hp.session x hx hxid).2)) hs'.1
      fun m hm _ hb => hlinked m.peer (hkept m hm hb))
  · have hxnode := hp.node_ne h hup hx hadm hxid
    by_cases hest : x.established = true
    · have hl : s.Linked root.peer := hrp ▸ (h.linked_iff hx hadm).mpr hest
      have hord : Ordered { s with tree := s.tree.pruned x.node
                                   generation := s.generation + 1 } :=
        ⟨h.fresh, h.ids, h.inOrder, h.pending⟩
      have hposted : s'.posted id = [.withdraw x.node] := by
        show s₁.posted id = _
        rw [hs₁, if_pos hest]
        exact posted_broadcast hord hsent hup (Ne.symm hxid) _
      rw [hposted]
      refine ⟨fun f hf => ?_, Replays.single ⟨hrs ▸ h.tree.remote_ne hroot, ?_⟩ ?_⟩
      · rw [List.mem_singleton.mp hf]
        trivial
      · rw [← hrs]
        exact (member_shared h hroot).mpr ⟨hrp ▸ hxnode, hl⟩
      · rw [← hrs]
        exact shared_pruned h hroot (hrp ▸ hxnode) hl hs'.1
          fun m hm hb => hlinked m.peer (hkept m hm hb)
    · have hposted : s'.posted id = [] := by
        show s₁.posted id = []
        rw [hs₁, if_neg hest]
        simp [posted, hsent]
      have hnl : ¬ s.Linked root.peer := by
        rw [hrp, h.linked_iff hx hadm]
        exact hest
      rw [hposted]
      exact Carries.none (shared_pruned_not h hroot (Or.inr hnl) hs'.1
        fun m hm _ hb => hlinked m.peer (hkept m hm hb))

/-- **Each event posts to a neighbour exactly what it changes in what is shared.** -/
theorem Handled.carries {actor : Option Nat} (hh : Handled u s actor s') (h : Sound u s)
    (hsent : s.sent = []) (hp : Peered s id node) (hup : s.Up id) :
    Carries u s.node (Shared s node) (s'.posted id) (Shared s' node) := by
  have hquiet : s.posted id = [] := by
    unfold posted
    rw [hsent]
    rfl
  cases hh with
  | same =>
      rw [hquiet]
      exact Carries.nil
  | opened =>
      unfold newSession
      split
      · rw [hquiet]
        exact Carries.nil
      · show Carries u s.node _ (s.posted id) _
        rw [hquiet]
        refine Carries.none (shared_congr rfl fun n _ _ => ?_)
        constructor
        · rintro ⟨y, hy, hest, hnode⟩
          rcases List.mem_cons.mp hy with rfl | hy
          · exact absurd hest (by simp)
          · exact ⟨y, hy, hest, hnode⟩
        · rintro ⟨y, hy, hest, hnode⟩
          exact ⟨y, List.mem_cons_of_mem _ hy, hest, hnode⟩
  | failed i =>
      show Carries u s.node _ (s.posted id) _
      rw [hquiet]
      exact Carries.none (shared_congr rfl fun n _ _ => linked_modify fun _ _ _ => ⟨rfl, fun _ => rfl⟩)
  | greeted x peer n hx hnew halone =>
      have hest : x.established = false := by
        rw [Bool.eq_false_iff]
        intro hest
        have ho := h.inOrder x hx
        rw [ho.snapshot (ho.admitted ▸ h.admitted_of_established hx hest)] at hnew
        exact absurd hnew (by simp)
      unfold sendSnapshot
      rw [posted_sendMessage]
      · refine Carries.none (shared_congr (sendMessage_tree _ _) fun m _ _ => ?_)
        unfold Linked
        rw [sendMessage_sessions]
        refine Iff.trans (linked_modify ?_) (linked_modify ?_)
        · exact fun _ _ _ => ⟨rfl, fun _ => rfl⟩
        · intro y hy hyid
          obtain rfl := h.inj hy hx hyid
          exact ⟨rfl, fun hc => absurd hc (by simp [hest])⟩
      · exact hsent
      · exact hp.ne_of_new hx hest
  | attached x nodes hx hhello hnew hopen hc =>
      have hest : x.established = false := by
        rw [Bool.eq_false_iff]
        intro hest
        rw [← (h.inOrder x hx).admitted, h.admitted_of_established hx hest] at hnew
        exact absurd hnew (by simp)
      obtain ⟨-, hfresh⟩ := component_root h.tree hc
      have hremote : (s.tree.attached x.node nodes).remote =
          s.tree.remote ++ nodes.map (s.tree.admitted x.node) := h.tree.remote_extended _
      have hlinked : ∀ p, (({ s with tree := s.tree.attached x.node nodes
                                     generation := s.generation + 1 }.modify x.id
          fun x => { x with admitted := true, snapshot := true }).sendMessage x.id .ready).Linked p ↔
          s.Linked p := by
        intro p
        unfold Linked
        rw [sendMessage_sessions]
        exact linked_modify fun _ _ _ => ⟨rfl, fun _ => rfl⟩
      rw [posted_sendMessage]
      rotate_left
      · exact hsent
      · exact hp.ne_of_new hx hest
      refine Carries.none ?_
      funext a q
      apply propext
      unfold Shared
      simp only [hlinked]
      rw [sendMessage_tree]
      show (∃ n ∈ (s.tree.attached x.node nodes).remote, _) ↔ _
      rw [hremote]
      constructor
      · rintro ⟨n, hn, hns, hnq, hne, hl⟩
        rcases List.mem_append.mp hn with hn | hn
        · exact ⟨n, hn, hns, hnq, hne, hl⟩
        · -- nobody else is linked to the server that joins
          obtain ⟨k, hk, rfl⟩ := List.mem_map.mp hn
          obtain ⟨y, hy, hyest, hynode⟩ := hl
          obtain ⟨m, hm, hms, -⟩ := h.rooted y hy (h.admitted_of_established hy hyest)
          exact absurd (hms.trans hynode) (find_none.mp hfresh m (WellFormed.remote_mem hm))
      · rintro ⟨n, hn, hns⟩
        exact ⟨n, List.mem_append_left _ hn, hns⟩
  | established x hx hadm hnew => exact carries_established h hsent hp hup hx hadm hnew
  | introduced x n q w hx hest hclosing hadd => exact carries_introduced h hsent hp hup hx hest hadd
  | withdrawn x n hx hest hclosing hn hpeer hne =>
      exact carries_withdrawn h hsent hp hup hx hest hn hpeer
  | dropped x hx hadm =>
      show Carries u s.node _ (s.posted id) _
      rw [hquiet]
      refine Carries.none (shared_congr rfl fun n _ _ => ?_)
      constructor
      · rintro ⟨y, hy, hest, hnode⟩
        exact ⟨y, (List.mem_filter.mp hy).1, hest, hnode⟩
      · rintro ⟨y, hy, hest, hnode⟩
        refine ⟨y, List.mem_filter.mpr ⟨hy, ?_⟩, hest, hnode⟩
        rw [bne_iff_ne]
        intro hc
        rw [h.inj hy hx hc] at hest
        rw [h.admitted_of_established hx hest] at hadm
        exact absurd hadm (by simp)
  | lost x s₁ hx hadm hs₁ => exact carries_lost h hsent hp hup hx hadm hs₁

end Links

end RustyRig
