/-
The sessions of a server and the branches of its tree.

Every branch of the tree belongs to one admitted session, and every admitted session
has its branch, rooted at the server it leads to.  Two sessions admitted for one
server cannot be, since the tree refuses an overlap.  `Handled` lists what an event
can do to the state; the invariant is kept case by case.
-/
import RustyRig.Proofs.LinkTree.Run
import RustyRig.Proofs.Link.Publish

namespace RustyRig

open Lib

namespace Links

open LinkTree

variable {u : UuidFormat} {s s' : Links}

/-! ### Looking a session up, and changing it -/

theorem session_some {id : Nat} {x : LinkSession} (h : s.session id = some x) :
    x ∈ s.sessions ∧ x.id = id :=
  ⟨List.mem_of_find?_eq_some h, by simpa using List.find?_some h⟩

theorem mem_modify {id : Nat} {f : LinkSession → LinkSession} {y : LinkSession} :
    y ∈ (s.modify id f).sessions ↔ ∃ x ∈ s.sessions, y = if x.id = id then f x else x := by
  simp only [modify, List.mem_map, eq_comm]

theorem session_modify (id : Nat) {f : LinkSession → LinkSession} (hf : ∀ x, (f x).id = x.id) :
    (s.modify id f).session id = (s.session id).map f := by
  unfold session modify
  induction s.sessions with
  | nil => rfl
  | cons x xs ih =>
      by_cases hx : x.id = id
      · simp [hx, hf]
      · simp only [List.map_cons, List.find?_cons, hx, if_false, beq_eq_false_iff_ne.mpr hx]
        exact ih

theorem modify_modify {id : Nat} {f g : LinkSession → LinkSession} (hf : ∀ x, (f x).id = x.id) :
    (s.modify id f).modify id g = s.modify id (g ∘ f) := by
  simp only [modify, List.map_map]
  congr 1
  refine List.map_congr_left fun x _ => ?_
  by_cases hx : x.id = id
  · simp [hx, hf]
  · simp [hx]

/-- Changing one session keeps the ids. -/
theorem ids_modify {id : Nat} {f : LinkSession → LinkSession} (hf : ∀ x, (f x).id = x.id) :
    (s.modify id f).sessions.map (·.id) = s.sessions.map (·.id) := by
  simp only [modify, List.map_map]
  refine List.map_congr_left fun x _ => ?_
  by_cases hx : x.id = id
  · simp [hx, hf]
  · simp [hx]

/-- The open sessions a broadcast reaches. -/
def reached (s : Links) (exclude : Nat) : List LinkSession :=
  s.sessions.filter fun x => x.id != exclude && x.established && !x.closing

theorem foldl_announce (id : Nat) (ns : List LinkNode) (s : Links) :
    ns.foldl (announceNode id) s =
      { s with sent := s.sent ++ ns.flatMap fun n => (s.reached id).map fun x =>
          (x.id, .introduce n.server n.parent n.site) } := by
  induction ns generalizing s with
  | nil => simp
  | cons n ns ih =>
      rw [List.foldl_cons, ih]
      simp [announceNode, broadcast, reached]

/-! ### The invariant -/

/-- A session that may still be admitted, or is admitted and not yet established. -/
def Pending (x : LinkSession) : Prop :=
  x.established = false ∧ (x.admitted = true ∨ (x.hello = true ∧ x.closing = false))

/-- The steps of an admission come in order. -/
structure InOrder (x : LinkSession) : Prop where
  greeted : x.hello = true → x.identitySeen = true
  snapshot : x.snapshot = true → x.hello = true
  admitted : x.admitted = x.snapshot
  ready : x.ready = true → x.snapshot = true
  established : x.established = x.ready

/-- Sessions differ, each is in order, and admissions are serialized. -/
structure Ordered (s : Links) : Prop where
  fresh : ∀ x ∈ s.sessions, x.id < s.opened
  ids : (s.sessions.map (·.id)).Nodup
  inOrder : ∀ x ∈ s.sessions, InOrder x
  pending : ∀ x ∈ s.sessions, ∀ y ∈ s.sessions, Pending x → Pending y → x = y

/-- The sessions own the branches of the tree. -/
structure Sound (u : UuidFormat) (s : Links) : Prop extends Ordered s where
  tree : WellFormed u s.node s.tree
  sites : ∀ n ∈ s.tree.nodes, validSite (some n.site) = true
  rooted : ∀ x ∈ s.sessions, x.admitted = true →
    ∃ n ∈ s.tree.remote, n.server = x.node ∧ n.peer = x.node
  single : ∀ x ∈ s.sessions, ∀ y ∈ s.sessions, x.admitted = true → y.admitted = true →
    x.node = y.node → x = y
  owned : ∀ n ∈ s.tree.remote, ∃ x ∈ s.sessions, x.admitted = true ∧ x.node = n.peer

theorem Ordered.inj (h : Ordered s) {x y : LinkSession} (hx : x ∈ s.sessions) (hy : y ∈ s.sessions)
    (he : x.id = y.id) : x = y :=
  List.inj_on_of_nodup_map h.ids hx hy he

/-- What an event that concerns a session, or none, can do to a server. -/
inductive Handled (u : UuidFormat) (s : Links) : Option Nat → Links → Prop
  | same (actor : Option Nat) : Handled u s actor s
  | opened : Handled u s none s.newSession
  | failed (id : Nat) : Handled u s (some id) (s.fail id)
  /-- A hello is taken: nobody else is joining. -/
  | greeted (x : LinkSession) (peer : LinkPeer) (node : String) (hx : x ∈ s.sessions)
      (hnew : x.hello = false)
      (halone : ∀ y ∈ s.sessions, y.id ≠ x.id → ¬ Pending y) :
      Handled u s (some x.id) ((s.modify x.id fun x =>
        { x with peer := peer, node := node, hello := true, identitySeen := true }).sendSnapshot
          x.id)
  /-- A snapshot is attached; the session is not established by it. -/
  | attached (x : LinkSession) (nodes : List LinkNodeT) (hx : x ∈ s.sessions)
      (hhello : x.hello = true) (hnew : x.snapshot = false) (hopen : x.closing = false)
      (hc : Component u s.tree x.node nodes) :
      Handled u s (some x.id)
        (({ s with tree := s.tree.attached x.node nodes, generation := s.generation + 1 }.modify x.id
          fun x => { x with admitted := true, snapshot := true }).sendMessage x.id .ready)
  /-- The last step of an admission. -/
  | established (x : LinkSession) (hx : x ∈ s.sessions) (hadm : x.admitted = true)
      (hnew : x.established = false) :
      Handled u s (some x.id) ((publication s.tree x.node).foldl (announceNode x.id)
        (s.modify x.id fun x => { x with ready := true, established := true }))
  | introduced (x : LinkSession) (node parent site : String) (hx : x ∈ s.sessions)
      (hest : x.established = true) (hclosing : x.closing = false)
      (hadd : LinkTree.add u s.tree (some x.node) (some node) (some parent) (some site) =
        (.ok, s.tree.extended [⟨node, parent, x.node, site⟩])) :
      Handled u s (some x.id)
        ({ s with tree := s.tree.extended [⟨node, parent, x.node, site⟩]
                  generation := s.generation + 1 }.broadcast x.id (.introduce node parent site))
  | withdrawn (x : LinkSession) (n : LinkNode) (hx : x ∈ s.sessions) (hest : x.established = true)
      (hclosing : x.closing = false) (hn : n ∈ s.tree.remote) (hpeer : n.peer = x.node)
      (hne : n.server ≠ x.node) :
      Handled u s (some x.id)
        ({ s with tree := s.tree.pruned n.server, generation := s.generation + 1 }.broadcast x.id
          (.withdraw n.server))
  | dropped (x : LinkSession) (hx : x ∈ s.sessions) (hadm : x.admitted = false) :
      Handled u s (some x.id) { s with sessions := s.sessions.filter fun y => y.id != x.id }
  /-- An admitted session is lost with its branch; the others hear of it if it was established. -/
  | lost (x : LinkSession) (s₁ : Links) (hx : x ∈ s.sessions) (hadm : x.admitted = true)
      (hs₁ : s₁ = if x.established then
          { s with tree := s.tree.pruned x.node, generation := s.generation + 1 }.broadcast x.id
            (.withdraw x.node)
        else { s with tree := s.tree.pruned x.node, generation := s.generation + 1 }) :
      Handled u s (some x.id) { s₁ with sessions := s₁.sessions.filter fun y => y.id != x.id }

/-- The session an event concerns. -/
def Event.actor : Event → Option Nat
  | .newSession => none
  | .hello id _ _ _ | .frame id _ | .fail id | .close id => some id

theorem sendMessage_sessions (id : Nat) (f : LinkFrame) :
    (s.sendMessage id f).sessions = s.sessions := by
  unfold sendMessage
  split <;> rfl

theorem sendMessage_tree (id : Nat) (f : LinkFrame) : (s.sendMessage id f).tree = s.tree := by
  unfold sendMessage
  split <;> rfl

/-- Without the peer's `ready` there is nothing to establish. -/
theorem establish_unready {id : Nat} {x : LinkSession} (hx : s.session id = some x)
    (hready : x.ready = false) : s.establish id = s := by
  unfold establish
  rw [hx]
  simp [hready]

theorem handleHello_cases (id : Nat) (peer : LinkPeer) (node : String) (accepted : Bool) :
    Handled u s (some id) (s.handleHello u id peer node accepted) := by
  unfold handleHello
  split
  · exact .same _
  rename_i x hx
  obtain ⟨hmem, rfl⟩ := session_some hx
  split
  · exact .same _
  split
  · exact .failed x.id
  rename_i hargs
  split
  · exact .failed x.id
  rename_i halone
  simp only [Bool.or_eq_true, not_or, Bool.not_eq_true] at hargs
  refine .greeted x peer node hmem hargs.1.1.1 ?_
  intro y hy hne hpend
  refine halone (List.any_eq_true.mpr ⟨y, hy, ?_⟩)
  rcases hpend with ⟨hest, hadm | ⟨hhello, hclosing⟩⟩
  · simp [hne, hest, hadm]
  · simp [hne, hest, hhello, hclosing]

/-- A snapshot is refused, or its component is attached. -/
theorem handleSnapshot_cases (h : Sound u s) {x : LinkSession} (hx : s.session x.id = some x)
    (nodes : List LinkNodeT) :
    s.handleSnapshot u x nodes = s.fail x.id ∨
      (x.hello = true ∧ x.snapshot = false ∧
        Component u s.tree x.node (if 256 < nodes.length then [] else nodes) ∧
        s.handleSnapshot u x nodes =
          ({ s with tree := s.tree.attached x.node (if 256 < nodes.length then [] else nodes)
                    generation := s.generation + 1 }.modify x.id
            fun x => { x with admitted := true, snapshot := true }).sendMessage x.id .ready) := by
  obtain ⟨hmem, -⟩ := session_some hx
  have hord := h.inOrder x hmem
  unfold handleSnapshot
  split
  · exact Or.inl rfl
  rename_i hargs
  simp only [Bool.or_eq_true, Bool.not_eq_true', not_or, Bool.not_eq_false, Bool.not_eq_true]
    at hargs
  obtain ⟨⟨⟨hhello, -⟩, hsnap⟩, -⟩ := hargs
  have hready : x.ready = false := by
    rw [Bool.eq_false_iff]
    exact fun hr => absurd (hord.ready hr) (by simp [hsnap])
  simp only
  generalize (if 256 < nodes.length then [] else nodes) = nodes
  split
  · exact Or.inl rfl
  split
  · exact Or.inl rfl
  split
  swap
  · exact Or.inl rfl
  rename_i tree hattach
  rcases attach_cases (u := u) (t := s.tree) (some x.node) nodes with
    ⟨p, hp, -, hc, heq⟩ | ⟨hne, -⟩
  swap
  · rw [hattach] at hne
    exact absurd rfl hne
  obtain rfl := Option.some.inj hp
  rw [heq] at hattach
  obtain rfl := (Prod.mk.inj hattach).2
  rw [establish_unready (x := { x with admitted := true, snapshot := true }) ?_ hready]
  · exact Or.inr ⟨hhello, hsnap, hc, rfl⟩
  · have hlook : ({ s with tree := s.tree.attached x.node nodes, generation := s.generation + 1
        }.modify x.id fun x => { x with admitted := true, snapshot := true }).session x.id =
        some { x with admitted := true, snapshot := true } := by
      rw [session_modify]
      · exact congrArg (Option.map _) hx
      · exact fun _ => rfl
    unfold session at hlook ⊢
    rw [sendMessage_sessions]
    exact hlook

/-- A peer's `ready` establishes the session. -/
theorem establish_ready (h : Sound u s) {x : LinkSession} (hx : s.session x.id = some x)
    (hready : x.ready = false) (hsnap : x.snapshot = true) :
    x.established = false ∧ (s.modify x.id fun x => { x with ready := true }).establish x.id =
      (publication s.tree x.node).foldl (announceNode x.id)
        (s.modify x.id fun x => { x with ready := true, established := true }) := by
  obtain ⟨hmem, -⟩ := session_some hx
  have hord := h.inOrder x hmem
  have hest : x.established = false := hord.established.trans hready
  have hlook : (s.modify x.id fun x => { x with ready := true }).session x.id =
      some { x with ready := true } := by
    rw [session_modify, hx]
    · rfl
    · exact fun _ => rfl
  refine ⟨hest, ?_⟩
  unfold establish
  rw [hlook]
  simp only [hord.greeted (hord.snapshot hsnap), hsnap, hest, Bool.not_true, Bool.or_false,
    Bool.false_eq_true, if_false]
  rw [modify_modify]
  · rfl
  · exact fun _ => rfl

theorem handleFrame_cases (h : Sound u s) (id : Nat) (f : LinkFrame) :
    Handled u s (some id) (s.handleFrame u id f) := by
  unfold handleFrame
  split
  · exact .same _
  rename_i x hx
  obtain ⟨hmem, rfl⟩ := session_some hx
  split
  · exact .same _
  rename_i hclosing
  rw [Bool.not_eq_true] at hclosing
  cases f with
  | snapshot nodes =>
      rcases handleSnapshot_cases h hx nodes with heq | ⟨hhello, hsnap, hc, heq⟩
      · simp only [heq]
        exact .failed x.id
      · simp only [heq]
        exact .attached x _ hmem hhello hsnap hclosing hc
  | ready =>
      simp only
      split
      swap
      · exact .failed x.id
      rename_i hready
      simp only [Bool.and_eq_true, Bool.not_eq_true'] at hready
      split
      · exact .failed x.id
      rename_i hsnap
      simp only [Bool.or_eq_true, Bool.not_eq_true', not_or, Bool.not_eq_false] at hsnap
      obtain ⟨hest, heq⟩ := establish_ready h hx hready.2 hsnap.1
      rw [heq]
      exact .established x hmem ((h.inOrder x hmem).admitted.trans hsnap.1) hest
  | introduce node parent site =>
      simp only
      split
      · exact .failed x.id
      rename_i hest
      split
      · exact .failed x.id
      split
      swap
      · exact .failed x.id
      rename_i tree hadd
      rcases add_cases (u := u) (t := s.tree) (some x.node) (some node) (some parent) (some site)
        with ⟨p, n, q, w, owner, source, hp, hn, hq, hw, -, -, -, -, -, -, -, -, -, heq⟩ | ⟨hne, -⟩
      · obtain rfl := Option.some.inj hp
        obtain rfl := Option.some.inj hn
        obtain rfl := Option.some.inj hq
        obtain rfl := Option.some.inj hw
        rw [heq] at hadd
        obtain rfl := (Prod.mk.inj hadd).2
        exact .introduced x node parent site hmem (by simpa using hest) hclosing heq
      · rw [hadd] at hne
        exact absurd rfl hne
  | withdraw node =>
      simp only
      split
      · exact .failed x.id
      rename_i hest
      split
      · exact .failed x.id
      rename_i hne
      split
      swap
      · exact .failed x.id
      rename_i tree hremove
      rcases h.tree.remove_cases (some x.node) (some node) with
        ⟨p, n, k, hp, hn, hfind, hpeer, hpne, heq⟩ | heq
      · obtain rfl := Option.some.inj hp
        obtain rfl := Option.some.inj hn
        rw [heq] at hremove
        obtain rfl := (Prod.mk.inj hremove).2
        obtain ⟨hk, hid⟩ := find_mem hfind
        obtain rfl := Option.some.inj hid
        exact .withdrawn x k hmem (by simpa using hest) hclosing
          (h.tree.mem_remote hk (by rw [hpeer]; exact hpne)) hpeer (by simpa using hne)
      · rw [heq] at hremove
        exact absurd (Prod.mk.inj hremove).1 (by simp)

theorem closeSession_cases (h : Sound u s) (id : Nat) :
    Handled u s (some id) (s.closeSession id) := by
  unfold closeSession
  split
  · exact .same _
  rename_i x hx
  obtain ⟨hmem, rfl⟩ := session_some hx
  by_cases hadm : x.admitted = true
  · obtain ⟨n, hn, hserver, hpeer⟩ := h.rooted x hmem hadm
    have hremove : (LinkTree.remove s.tree (some x.node) (some x.node)).2 = s.tree.pruned x.node := by
      have hfind := h.tree.find_eq (WellFormed.remote_mem hn)
      rw [hserver] at hfind
      rcases h.tree.remove_cases (some x.node) (some x.node) with
        ⟨p, m, k, hp, hm, -, -, -, heq⟩ | heq
      · obtain rfl := Option.some.inj hm
        rw [heq]
      · have hne := h.tree.peer_ne hn
        obtain ⟨i, hi⟩ := List.mem_iff_getElem?.mp (WellFormed.remote_mem hn)
        have hindex := h.tree.indexOf_iff.mpr ⟨n, hi, hserver⟩
        simp only [LinkTree.remove, hfind, Option.bind_some, hindex, hpeer, ne_eq, not_true_eq_false,
          decide_false, Bool.or_false, decide_eq_true_eq] at heq
        rw [hpeer] at hne
        simp [hne] at heq
    rw [if_pos hadm, hremove]
    exact .lost x _ hmem hadm rfl
  · rw [if_neg hadm]
    exact .dropped x hmem (by simpa using hadm)

theorem handle_cases (h : Sound u s) (e : Event) : Handled u s e.actor (handle u s e) := by
  cases e with
  | newSession => exact .opened
  | hello id peer node accepted => exact handleHello_cases id peer node accepted
  | frame id f => exact handleFrame_cases h id f
  | fail id => exact .failed id
  | close id => exact closeSession_cases h id

end Links

end RustyRig
