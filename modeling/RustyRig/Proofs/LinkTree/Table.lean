/-
What it means for a link tree to be a tree.

`WellFormed` is what a table must satisfy for routing by it to mean anything: ids
are distinct and fit the limit, node 0 is the local server, and climbing parents
from any node reaches it, entering through the node's own `peer`.

Everything hangs on the last clause.  `Climb` carries the walk as a derivation, so
acyclicity never has to be argued: an attached component brings the walks the
bounded check found, an added node extends its parent's, and a removal keeps the
walks of what it keeps because the marking loop only stops once nothing kept hangs
below something marked.
-/
import Mathlib.Data.List.Basic
import RustyRig.Rrserver.LinkTree
import RustyRig.Lib.Climb

namespace RustyRig

open Lib

namespace LinkTree

variable {u : UuidFormat} {t : LinkTree} {loc : String}

/-- Every node but the local server. -/
def remote (t : LinkTree) : List LinkNode := t.nodes.tail

/-- Server `s` is in the table with parent `q`. -/
def Edge (t : LinkTree) (s q : String) : Prop := ∃ n ∈ t.remote, n.server = s ∧ n.parent = q

/-- What the table promises of a tree whose local server is `loc`. -/
structure WellFormed (u : UuidFormat) (loc : String) (t : LinkTree) : Prop where
  /-- Server ids are canonical. -/
  valid : ∀ n ∈ t.nodes, validId u (some n.server) = true
  /-- Server ids are pairwise distinct. -/
  distinct : (t.nodes.map (·.server)).Nodup
  /-- The count never exceeds the limit, nor the limit the marking array. -/
  count_le : t.count ≤ t.limit
  limit_le : t.limit ≤ 256
  /-- Node 0 is the local server, with an empty parent and an empty peer. -/
  root : ∃ site, t.nodes = { server := loc, parent := "", peer := "", site := site } :: t.remote
  /-- Parents lead from every other node to the local server, through the node's peer last. -/
  branch : ∀ n ∈ t.remote, ∃ q, Climb t.Edge loc n.server (q ++ [n.peer, loc])

/-! ### Looking a server up -/

theorem find_mem {id : Option String} {n : LinkNode} (h : t.find id = some n) :
    n ∈ t.nodes ∧ id = some n.server := by
  cases id with
  | none => simp [find] at h
  | some s =>
      simp only [find, Option.bind_some] at h
      have hs := List.find?_some h
      exact ⟨List.mem_of_find?_eq_some h, by rw [beq_iff_eq.mp hs]⟩

theorem find_none {s : String} : t.find (some s) = none ↔ ∀ n ∈ t.nodes, n.server ≠ s := by
  simp [find]

namespace WellFormed

theorem mem_inj (h : WellFormed u loc t) {m n : LinkNode} (hm : m ∈ t.nodes) (hn : n ∈ t.nodes)
    (hs : m.server = n.server) : m = n :=
  List.inj_on_of_nodup_map h.distinct hm hn hs

theorem mem_remote (h : WellFormed u loc t) {n : LinkNode} (hn : n ∈ t.nodes)
    (hpeer : n.peer ≠ "") : n ∈ t.remote := by
  obtain ⟨site, hroot⟩ := h.root
  rw [hroot] at hn
  rcases List.mem_cons.mp hn with rfl | hn
  · exact absurd rfl hpeer
  · exact hn

theorem remote_mem {n : LinkNode} (hn : n ∈ t.remote) : n ∈ t.nodes := List.mem_of_mem_tail hn

theorem localServer_eq (h : WellFormed u loc t) : t.localServer = loc := by
  obtain ⟨site, hroot⟩ := h.root
  simp [localServer, hroot]

theorem remote_ne (h : WellFormed u loc t) {n : LinkNode} (hn : n ∈ t.remote) :
    n.server ≠ loc := by
  obtain ⟨site, hroot⟩ := h.root
  have hd := h.distinct
  rw [hroot, List.map_cons, List.nodup_cons] at hd
  intro hs
  refine hd.1 ?_
  show loc ∈ t.remote.map (·.server)
  rw [← hs]
  exact List.mem_map_of_mem hn

theorem find_eq (h : WellFormed u loc t) {n : LinkNode} (hn : n ∈ t.nodes) :
    t.find (some n.server) = some n := by
  cases hf : t.find (some n.server) with
  | none => exact absurd rfl (find_none.mp hf n hn)
  | some m =>
      obtain ⟨hm, hs⟩ := find_mem hf
      rw [h.mem_inj hm hn (by simpa using hs.symm)]

/-- Distinct ids make the parent relation a function, and the local server has no parent. -/
theorem rooted (h : WellFormed u loc t) : Rooted t.Edge loc where
  unique := by
    rintro a b c ⟨m, hm, hma, rfl⟩ ⟨n, hn, hna, rfl⟩
    rw [h.mem_inj (remote_mem hm) (remote_mem hn) (hma.trans hna.symm)]
  orphan := by
    rintro b ⟨n, hn, hs, -⟩
    exact h.remote_ne hn hs

/-- From every node, parents lead to the local server. -/
theorem climbs (h : WellFormed u loc t) {n : LinkNode} (hn : n ∈ t.nodes) :
    ∃ p, Climb t.Edge loc n.server p ∧ p.Nodup := by
  obtain ⟨site, hroot⟩ := h.root
  rw [hroot] at hn
  rcases List.mem_cons.mp hn with rfl | hn
  · exact ⟨_, .root, List.nodup_singleton _⟩
  · obtain ⟨q, hq⟩ := h.branch n hn
    exact ⟨_, hq, hq.nodup h.rooted⟩

/-- Whatever parents lead to is in the table. -/
theorem climb_known (h : WellFormed u loc t) {s : String} {p : List String}
    (hp : Climb t.Edge loc s p) : ∃ m ∈ t.nodes, m.server = s := by
  rcases hp.uncons with rfl | ⟨b, -, -, ⟨n, hn, hs, -⟩, -⟩
  · obtain ⟨site, hroot⟩ := h.root
    exact ⟨_, by rw [hroot]; exact List.mem_cons_self, rfl⟩
  · exact ⟨n, remote_mem hn, hs⟩

/-- Every parent is a server in the table. -/
theorem parent_known (h : WellFormed u loc t) {n : LinkNode} (hn : n ∈ t.remote) :
    ∃ m ∈ t.nodes, m.server = n.parent := by
  obtain ⟨q, hq⟩ := h.branch n hn
  rcases hq.uncons with heq | ⟨b, p, -, he, hp⟩
  · exact absurd heq (h.remote_ne hn)
  · rw [h.rooted.unique ⟨n, hn, rfl, rfl⟩ he]
    exact h.climb_known hp

/-- A peer is a direct child of the local server, and lies on the way there. -/
theorem peer_child (h : WellFormed u loc t) {n : LinkNode} (hn : n ∈ t.remote) :
    ∃ b ∈ t.remote, b.server = n.peer ∧ b.parent = loc ∧ b.peer = n.peer := by
  obtain ⟨q, hq⟩ := h.branch n hn
  obtain ⟨q', b, heq, hb⟩ := hq.branch h.rooted (h.remote_ne hn)
  have hpeer : n.peer = b := by
    have hlast := congrArg (List.drop q.length) heq
    have hlen := congrArg List.length heq
    simp only [List.length_append, List.length_cons, List.length_nil] at hlen
    rw [List.drop_left, show q.length = q'.length by omega, List.drop_left] at hlast
    simpa using hlast
  subst hpeer
  obtain ⟨m, hm, hms, hmp⟩ := hb
  obtain ⟨r, hr⟩ := h.branch m hm
  have hdirect : Climb t.Edge loc m.server [m.server, loc] := .step ⟨m, hm, rfl, hmp⟩ .root
  have hsame := hr.unique h.rooted hdirect
  have hlen := congrArg List.length hsame
  simp only [List.length_append, List.length_cons, List.length_nil] at hlen
  obtain rfl : r = [] := List.length_eq_zero_iff.mp (by omega)
  have hmpeer : m.peer = m.server := by simpa using hsame
  exact ⟨m, hm, hms, hmp, by rw [hmpeer, hms]⟩

theorem peer_ne (h : WellFormed u loc t) {n : LinkNode} (hn : n ∈ t.remote) : n.peer ≠ "" := by
  obtain ⟨b, hb, hs, -, -⟩ := h.peer_child hn
  rw [← hs]
  exact validId_ne_empty (h.valid b (remote_mem hb))

/-! ### Routes -/

theorem route_server (h : WellFormed u loc t) {n : LinkNode} (hn : n ∈ t.remote) :
    t.route (some n.server) = some n.peer := by
  simp [route, h.find_eq (remote_mem hn), h.peer_ne hn]

theorem route_loc (h : WellFormed u loc t) : t.route (some loc) = none := by
  obtain ⟨site, hroot⟩ := h.root
  have hmem : { server := loc, parent := "", peer := "", site := site } ∈ t.nodes := by
    rw [hroot]
    exact List.mem_cons_self
  have hfind := h.find_eq hmem
  simp only at hfind
  simp [route, hfind]

end WellFormed

end LinkTree

end RustyRig

/-!
Attaching a component and adding a server keep the tree.

Both append to the table.  A climb already there survives, since appending only adds
edges; what each call has to bring is a climb for every node it appends.
-/

namespace RustyRig

open Lib

namespace LinkTree

variable {u : UuidFormat} {t : LinkTree} {loc : String}

/-! ### Attaching a component

`scan` accepts a list of nodes exactly when each of them is well formed on its own
and no two share a server; it returns how many were roots.  `walk` accepts a node
exactly when the offered parents climb from it to the peer.
-/

/-- What the first loop of `attach` asks of one offered node. -/
structure Offered (u : UuidFormat) (t : LinkTree) (peer : String) (n : LinkNodeT) : Prop where
  valid : validId u n.server = true
  site : validSite n.site = true
  fresh : t.find n.server = none
  shape : if n.server = some peer then n.parent = none else validId u n.parent = true

/-- One turn of the loop: the node passes its own checks and repeats none before it. -/
theorem scan_cons {peer : String} {r roots : Nat} {n : LinkNodeT} {rest seen : List LinkNodeT} :
    scan u t peer seen (n :: rest) roots = .ok r ↔
      Offered u t peer n ∧ (∀ m ∈ seen, m.server ≠ n.server) ∧
        scan u t peer (seen ++ [n]) rest (roots + if n.server = some peer then 1 else 0) = .ok r := by
  have hoff : Offered u t peer n ↔ validId u n.server = true ∧ validSite n.site = true ∧
      t.find n.server = none ∧
      (if n.server = some peer then n.parent = none else validId u n.parent = true) :=
    ⟨fun h => ⟨h.valid, h.site, h.fresh, h.shape⟩, fun ⟨h1, h2, h3, h4⟩ => ⟨h1, h2, h3, h4⟩⟩
  rw [scan, hoff]
  by_cases hid : validId u n.server = true ∧ validSite n.site = true
  swap
  · rw [if_pos (by simpa [imp_iff_not_or] using hid)]
    simp only [reduceCtorEq, false_iff]
    exact fun h => hid ⟨h.1.1, h.1.2.1⟩
  rw [if_neg (by simp [hid.1, hid.2])]
  by_cases hfresh : t.find n.server = none
  swap
  · rw [if_pos (Option.isSome_iff_ne_none.mpr hfresh)]
    simp [hfresh]
  rw [if_neg (by simp [hfresh])]
  by_cases hseen : ∀ m ∈ seen, m.server ≠ n.server
  swap
  · rw [if_pos (by simpa using hseen)]
    simp [hseen]
  rw [if_neg (by simpa using hseen)]
  by_cases hroot : n.server = some peer
  · rw [if_pos (by simp [hroot]), if_pos hroot, if_pos hroot]
    cases hpar : n.parent with
    | none => exact ⟨fun h => ⟨⟨hid.1, hid.2, hfresh, rfl⟩, hseen, h⟩, fun h => h.2.2⟩
    | some q => simp
  · rw [if_neg (by simpa using hroot), if_neg hroot, if_neg hroot]
    cases hpar : validId u n.parent with
    | true => exact ⟨fun h => ⟨⟨hid.1, hid.2, hfresh, rfl⟩, hseen, h⟩, fun h => h.2.2⟩
    | false => simp

/-- A rejection is never reported as success. -/
theorem scan_ne_ok {peer : String} :
    ∀ (rest seen : List LinkNodeT) (roots : Nat), scan u t peer seen rest roots ≠ .error .ok := by
  intro rest
  induction rest with
  | nil => intro seen roots; simp [scan]
  | cons n rest ih =>
      intro seen roots
      rw [scan]
      repeat' split
      all_goals first | exact ih _ _ | simp

theorem scan_ok_iff {peer : String} {r : Nat} :
    ∀ (rest seen : List LinkNodeT) (roots : Nat),
      scan u t peer seen rest roots = .ok r ↔
        (∀ n ∈ rest, Offered u t peer n) ∧ (rest.map (·.server)).Nodup ∧
          (∀ n ∈ rest, ∀ m ∈ seen, m.server ≠ n.server) ∧
          r = roots + rest.countP (·.server == some peer) := by
  intro rest
  induction rest with
  | nil => intro seen roots; simp [scan, eq_comm]
  | cons n rest ih =>
      intro seen roots
      have hnodup : ((n :: rest).map (·.server)).Nodup ↔
          (∀ k ∈ rest, n.server ≠ k.server) ∧ (rest.map (·.server)).Nodup := by
        rw [List.map_cons, List.nodup_cons]
        refine and_congr_left fun _ => ?_
        simp only [List.mem_map, not_exists, not_and]
        exact forall₂_congr fun k _ => ⟨fun h e => h e.symm, fun h e => h e.symm⟩
      have hcount : (roots + if n.server = some peer then 1 else 0) +
          rest.countP (·.server == some peer) =
            roots + (n :: rest).countP (·.server == some peer) := by
        rw [List.countP_cons]
        by_cases hn : n.server = some peer
        · simp only [hn, beq_self_eq_true, if_true]; omega
        · simp [hn]
      rw [scan_cons, ih, hnodup, hcount]
      simp only [List.forall_mem_cons, List.mem_append, List.mem_singleton, or_imp, forall_and,
        forall_eq]
      tauto

/-- Offered node `s` names `q` as its parent. -/
def OfferedEdge (nodes : List LinkNodeT) (s q : String) : Prop :=
  ∃ n ∈ nodes, n.server = some s ∧ n.parent = some q

/-- An accepted walk is a climb of the offered parents. -/
theorem climb_of_walk {nodes : List LinkNodeT} {peer : String} :
    ∀ (steps : Nat) (id : String), walk nodes peer steps id = true →
      ∃ p, Climb (OfferedEdge nodes) peer id p := by
  intro steps
  induction steps with
  | zero =>
      intro id h
      by_cases hid : id = peer
      · rw [hid]; exact ⟨_, .root⟩
      · simp [walk, hid] at h
  | succ steps ih =>
      intro id h
      by_cases hid : id = peer
      · rw [hid]; exact ⟨_, .root⟩
      · rw [walk, if_neg hid] at h
        cases hfind : nodes.find? (·.server == some id) with
        | none => simp [hfind] at h
        | some n =>
            cases hpar : n.parent with
            | none => simp [hfind, hpar] at h
            | some q =>
                simp only [hfind, hpar] at h
                obtain ⟨p, hp⟩ := ih q h
                have hserver : n.server = some id := by simpa using List.find?_some hfind
                exact ⟨_, .step ⟨n, List.mem_of_find?_eq_some hfind, hserver, hpar⟩ hp⟩

/-- What an accepted `attach` has checked. -/
structure Component (u : UuidFormat) (t : LinkTree) (peer : String)
    (nodes : List LinkNodeT) : Prop where
  peerValid : validId u (some peer) = true
  room : nodes.length ≤ t.limit - t.count
  offered : ∀ n ∈ nodes, Offered u t peer n
  distinct : (nodes.map (·.server)).Nodup
  roots : nodes.countP (·.server == some peer) = 1
  walks : ∀ n ∈ nodes, walk nodes peer nodes.length (n.server.getD "") = true

/-- The tree an accepted `attach` leaves behind. -/
def attached (t : LinkTree) (peer : String) (nodes : List LinkNodeT) : LinkTree :=
  { t with nodes := t.nodes ++ nodes.map (t.admitted peer) }

/-- **`attach` either admits a whole checked component or changes nothing.** -/
theorem attach_cases (peer : Option String) (nodes : List LinkNodeT) :
    (∃ p, peer = some p ∧ nodes ≠ [] ∧ Component u t p nodes ∧
        attach u t peer nodes = (.ok, t.attached p nodes)) ∨
      ((attach u t peer nodes).1 ≠ .ok ∧ (attach u t peer nodes).2 = t) := by
  cases peer with
  | none => exact Or.inr ⟨by simp [attach], rfl⟩
  | some p =>
      by_cases hargs : (!validId u (some p) || nodes.isEmpty) = true
      · exact Or.inr (by simp [attach, hargs])
      by_cases hroom : t.limit - t.count < nodes.length
      · exact Or.inr (by simp [attach, hargs, hroom])
      cases hscan : scan u t p [] nodes 0 with
      | error e =>
          refine Or.inr ?_
          have he : attach u t (some p) nodes = (e, t) := by simp [attach, hargs, hroom, hscan]
          rw [he]
          refine ⟨?_, rfl⟩
          rintro rfl
          exact scan_ne_ok _ _ _ hscan
      | ok r =>
          by_cases hr : r = 1
          swap
          · exact Or.inr (by simp [attach, hargs, hroom, hscan, hr])
          by_cases hwalk : nodes.all fun n => walk nodes p nodes.length (n.server.getD "")
          swap
          · exact Or.inr (by simp [attach, hargs, hroom, hscan, hr, hwalk])
          obtain ⟨hoff, hnd, -, hcount⟩ := (scan_ok_iff nodes [] 0).mp hscan
          simp only [Bool.or_eq_true, Bool.not_eq_true', not_or, Bool.not_eq_false,
            List.isEmpty_iff] at hargs
          refine Or.inl ⟨p, rfl, hargs.2, ⟨hargs.1, Nat.not_lt.mp hroom, hoff, hnd, by omega,
            List.all_eq_true.mp hwalk⟩, ?_⟩
          simp [attach, hargs, hroom, hscan, hr, hwalk, attached]

/-! ### Appending nodes keeps the tree

`attach` and `add` both append; what they have to bring is a climb for each new
node.  The climbs already there survive, since appending only adds edges.
-/

/-- The table with more nodes at its end. -/
def extended (t : LinkTree) (l : List LinkNode) : LinkTree := { t with nodes := t.nodes ++ l }

/-- More servers take no route away. -/
theorem route_extended {l : List LinkNode} {s p : String} (h : t.route (some s) = some p) :
    (t.extended l).route (some s) = some p := by
  unfold route find extended at *
  rw [Option.bind_some] at h ⊢
  rw [List.find?_append]
  cases hf : t.nodes.find? (·.server == s) with
  | none => simp [hf] at h
  | some n => simpa [hf] using h

namespace WellFormed

theorem remote_extended (h : WellFormed u loc t) (l : List LinkNode) :
    (t.extended l).remote = t.remote ++ l := by
  obtain ⟨site, hroot⟩ := h.root
  have hne : t.nodes ≠ [] := by rw [hroot]; simp
  exact List.tail_append_of_ne_nil hne

theorem edge_extended (h : WellFormed u loc t) (l : List LinkNode) {s q : String} :
    (t.extended l).Edge s q ↔ t.Edge s q ∨ ∃ n ∈ l, n.server = s ∧ n.parent = q := by
  simp only [Edge, h.remote_extended l, List.mem_append, or_and_right, exists_or]

theorem extend (h : WellFormed u loc t) {l : List LinkNode}
    (hvalid : ∀ n ∈ l, validId u (some n.server) = true)
    (hfresh : ∀ n ∈ l, ∀ m ∈ t.nodes, m.server ≠ n.server)
    (hnodup : (l.map (·.server)).Nodup) (hroom : t.count + l.length ≤ t.limit)
    (hbranch : ∀ n ∈ l, ∃ q, Climb (t.extended l).Edge loc n.server (q ++ [n.peer, loc])) :
    WellFormed u loc (t.extended l) where
  valid := by
    intro n hn
    rcases List.mem_append.mp hn with hn | hn
    · exact h.valid n hn
    · exact hvalid n hn
  distinct := by
    show ((t.nodes ++ l).map (·.server)).Nodup
    rw [List.map_append, List.nodup_append]
    refine ⟨h.distinct, hnodup, ?_⟩
    intro a ha b hb
    obtain ⟨m, hm, rfl⟩ := List.mem_map.mp ha
    obtain ⟨n, hn, rfl⟩ := List.mem_map.mp hb
    exact hfresh n hn m hm
  count_le := by
    show (t.nodes ++ l).length ≤ t.limit
    rw [List.length_append]
    exact hroom
  limit_le := h.limit_le
  root := by
    obtain ⟨site, hroot⟩ := h.root
    refine ⟨site, ?_⟩
    rw [h.remote_extended l]
    show t.nodes ++ l = _
    rw [hroot]
    rfl
  branch := by
    intro n hn
    rw [h.remote_extended l] at hn
    rcases List.mem_append.mp hn with hn | hn
    · obtain ⟨q, hq⟩ := h.branch n hn
      exact ⟨q, hq.mono fun he => (h.edge_extended l).mpr (Or.inl he)⟩
    · exact hbranch n hn

theorem attached (h : WellFormed u loc t) {peer : String} {nodes : List LinkNodeT}
    (hc : Component u t peer nodes) : WellFormed u loc (t.attached peer nodes) := by
  have hserver : ∀ k ∈ nodes, k.server = some (t.admitted peer k).server := by
    intro k hk
    obtain ⟨s, hs, -⟩ := validId_some (hc.offered k hk).valid
    simp [admitted, hs]
  have hedge : ∀ {s q : String}, OfferedEdge nodes s q →
      (t.extended (nodes.map (t.admitted peer))).Edge s q := by
    rintro s q ⟨k, hk, hs, hq⟩
    refine (h.edge_extended _).mpr (Or.inr ⟨_, List.mem_map_of_mem hk, ?_, ?_⟩)
    · simp [admitted, hs]
    · simp [admitted, hq]
  -- The one offered root is the peer, re-parented to the local server.
  have hroot : (t.extended (nodes.map (t.admitted peer))).Edge peer loc := by
    obtain ⟨k, hk, hkp⟩ := List.countP_pos_iff.mp (Nat.lt_of_lt_of_eq Nat.one_pos hc.roots.symm)
    have hks : k.server = some peer := beq_iff_eq.mp hkp
    have hshape := (hc.offered k hk).shape
    rw [if_pos hks] at hshape
    refine (h.edge_extended _).mpr (Or.inr ⟨_, List.mem_map_of_mem hk, ?_, ?_⟩)
    · simp [admitted, hks]
    · simp [admitted, hshape, h.localServer_eq]
  refine h.extend ?_ ?_ ?_ ?_ ?_
  · intro n hn
    obtain ⟨k, hk, rfl⟩ := List.mem_map.mp hn
    rw [← hserver k hk]
    exact (hc.offered k hk).valid
  · intro n hn m hm
    obtain ⟨k, hk, rfl⟩ := List.mem_map.mp hn
    have hfresh := (hc.offered k hk).fresh
    rw [hserver k hk] at hfresh
    exact find_none.mp hfresh m hm
  · have hmap : ((nodes.map (t.admitted peer)).map (·.server)).map some = nodes.map (·.server) := by
      rw [List.map_map, List.map_map]
      exact List.map_congr_left fun k hk => (hserver k hk).symm
    exact List.Nodup.of_map some (by rw [hmap]; exact hc.distinct)
  · have hle := h.count_le
    have hroom := hc.room
    rw [List.length_map]
    have hpos : 0 < nodes.length := List.length_pos_of_mem
      (List.countP_pos_iff.mp (Nat.lt_of_lt_of_eq Nat.one_pos hc.roots.symm)).choose_spec.1
    omega
  · intro n hn
    obtain ⟨k, hk, rfl⟩ := List.mem_map.mp hn
    obtain ⟨p, hp⟩ := climb_of_walk _ _ (hc.walks k hk)
    obtain ⟨q, rfl⟩ := hp.last
    refine ⟨q, ?_⟩
    have := hp.append hedge hroot Climb.root
    simpa [admitted] using this

end WellFormed

/-- **`add` either extends one peer's own branch by a new server or changes nothing.** -/
theorem add_cases (peer server parent site : Option String) :
    (∃ p s q w owner source, peer = some p ∧ server = some s ∧ parent = some q ∧ site = some w ∧
        validId u (some s) = true ∧ t.find (some q) = some owner ∧ owner.peer = p ∧
        t.find (some p) = some source ∧ source.peer = p ∧ source.server = p ∧
        p ≠ "" ∧ t.find (some s) = none ∧ t.count ≠ t.limit ∧
        add u t peer server parent site =
          (.ok, t.extended [{ server := s, parent := q, peer := p, site := w }])) ∨
      ((add u t peer server parent site).1 ≠ .ok ∧ (add u t peer server parent site).2 = t) := by
  unfold add
  split
  swap
  · exact Or.inr ⟨by simp, rfl⟩
  rename_i p s q w
  split
  · exact Or.inr ⟨by simp, rfl⟩
  rename_i hargs
  split
  swap
  · exact Or.inr ⟨by simp, rfl⟩
  rename_i owner source howner hsource
  split
  · exact Or.inr ⟨by simp, rfl⟩
  rename_i hpeer
  split
  · exact Or.inr ⟨by simp, rfl⟩
  rename_i hfresh
  split
  · exact Or.inr ⟨by simp, rfl⟩
  rename_i hroom
  simp only [Bool.or_eq_true, Bool.not_eq_true', not_or, Bool.not_eq_false] at hargs
  simp only [Bool.or_eq_true, decide_eq_true_eq, not_or, not_not] at hpeer
  refine Or.inl ⟨p, s, q, w, owner, source, rfl, rfl, rfl, rfl, hargs.1.1.2, howner, hpeer.2,
    hsource, hpeer.1.1, by rw [hpeer.1.2, hpeer.1.1], validId_ne_empty hargs.1.1.1, ?_, ?_, rfl⟩
  · simpa using hfresh
  · simpa using hroom

/-- When an introduction is accepted. -/
theorem add_ok_iff {p s q w : String} :
    (add u t (some p) (some s) (some q) (some w)).1 = .ok ↔
      (validId u (some p) = true ∧ validId u (some s) = true ∧ validId u (some q) = true ∧
          validSite (some w) = true) ∧
        (∃ owner source, t.find (some q) = some owner ∧ t.find (some p) = some source ∧
          source.peer = p ∧ source.server = source.peer ∧ owner.peer = p) ∧
        t.find (some s) = none ∧ t.count ≠ t.limit := by
  unfold add
  simp only
  split
  · rename_i hargs
    simp only [Bool.or_eq_true, Bool.not_eq_true'] at hargs
    simp only [reduceCtorEq, false_iff]
    rintro ⟨⟨hp, hs, hq, hw⟩, -⟩
    simp [hp, hs, hq, hw] at hargs
  rename_i hargs
  simp only [Bool.or_eq_true, Bool.not_eq_true', not_or, Bool.not_eq_false] at hargs
  simp only [hargs.1.1.1, hargs.1.1.2, hargs.1.2, hargs.2, and_self, true_and]
  split
  swap
  · rename_i hno
    simp only [reduceCtorEq, false_iff]
    rintro ⟨⟨owner, source, howner, hsource, -⟩, -⟩
    exact hno owner source howner hsource
  rename_i owner source howner hsource
  have hends : (∃ owner source, t.find (some q) = some owner ∧ t.find (some p) = some source ∧
      source.peer = p ∧ source.server = source.peer ∧ owner.peer = p) ↔
      source.peer = p ∧ source.server = source.peer ∧ owner.peer = p := by
    constructor
    · rintro ⟨o, k, ho, hk, hends⟩
      obtain rfl := Option.some.inj (howner.symm.trans ho)
      obtain rfl := Option.some.inj (hsource.symm.trans hk)
      exact hends
    · exact fun hends => ⟨owner, source, howner, hsource, hends⟩
  rw [hends]
  split
  · rename_i hpeer
    simp only [Bool.or_eq_true, decide_eq_true_eq] at hpeer
    simp only [reduceCtorEq, false_iff]
    rintro ⟨⟨hp, hs, ho⟩, -⟩
    exact hpeer.elim (fun hc => hc.elim (fun hc => hc hp) fun hc => hc hs) fun hc => hc ho
  rename_i hpeer
  simp only [Bool.or_eq_true, decide_eq_true_eq, not_or, not_not] at hpeer
  split
  · rename_i hfind
    simp only [reduceCtorEq, false_iff]
    rintro ⟨-, hnone, -⟩
    simp [hnone] at hfind
  rename_i hfind
  simp only [Bool.not_eq_true, Option.isSome_eq_false_iff, Option.isNone_iff_eq_none] at hfind
  split
  · rename_i hroom
    simp only [reduceCtorEq, false_iff]
    exact fun hc => hc.2.2 (beq_iff_eq.mp hroom)
  · rename_i hroom
    simp only [true_iff]
    exact ⟨⟨hpeer.1.1, hpeer.1.2, hpeer.2⟩, hfind, fun hc => hroom (beq_iff_eq.mpr hc)⟩

theorem WellFormed.added (h : WellFormed u loc t) {n owner : LinkNode}
    (hvalid : validId u (some n.server) = true) (hfresh : t.find (some n.server) = none)
    (howner : t.find (some n.parent) = some owner) (hpeer : owner.peer = n.peer)
    (hne : n.peer ≠ "") (hroom : t.count ≠ t.limit) : WellFormed u loc (t.extended [n]) := by
  obtain ⟨hmem, hid⟩ := find_mem howner
  have hown : owner ∈ t.remote := h.mem_remote hmem (by rw [hpeer]; exact hne)
  refine h.extend ?_ ?_ (by simp) ?_ ?_
  · intro k hk
    rw [List.mem_singleton.mp hk]
    exact hvalid
  · intro k hk m hm
    rw [List.mem_singleton.mp hk]
    exact find_none.mp hfresh m hm
  · have hle := h.count_le
    simp only [List.length_singleton]
    omega
  · intro k hk
    obtain rfl := List.mem_singleton.mp hk
    obtain ⟨q, hq⟩ := h.branch owner hown
    refine ⟨k.server :: q, .step (b := k.parent) ?_ ?_⟩
    · exact (h.edge_extended _).mpr (Or.inr ⟨k, hk, rfl, rfl⟩)
    · rw [hpeer, ← Option.some.inj hid] at hq
      exact hq.mono fun he => (h.edge_extended _).mpr (Or.inl he)

end LinkTree

end RustyRig
