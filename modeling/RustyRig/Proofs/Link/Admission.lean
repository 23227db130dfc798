/-
A component admitted at once and one admitted node by node.

`snapshot_policy` walks a whole offered component; `introduction_policy` climbs the
live tree from one new parent.  Both count the hops to the peer, so on a component
whose nodes come parents first they agree step by step, and with them `attach` and
`add`.  The order does not matter to a snapshot, and a component that is a tree always
has such an order: by depth.
-/
import RustyRig.Proofs.LinkTree.Atomic
import RustyRig.Rrserver.Link
import Mathlib.Data.List.Find

namespace RustyRig

open Lib

namespace Links

open LinkTree

variable {u : UuidFormat} {t : LinkTree} {x : LinkSession} {root : String}
variable {nodes order : List LinkNodeT}

/-- A snapshot from the session's peer: the policy, then the tree. -/
def admitSnapshot (u : UuidFormat) (x : LinkSession) (t : LinkTree) (nodes : List LinkNodeT) :
    Option LinkTree :=
  if snapshotPolicy x.peer nodes x.node then
    match attach u t (some x.node) nodes with
    | (.ok, t') => some t'
    | _ => none
  else none

/-- An introduction from the session's peer: the policy, then the tree. -/
def admitIntroduction (u : UuidFormat) (x : LinkSession) (t : LinkTree) (n : LinkNodeT) :
    Option LinkTree :=
  if introductionPolicy t x (n.site.getD "") (n.parent.getD "") then
    match add u t (some x.node) n.server n.parent n.site with
    | (.ok, t') => some t'
    | _ => none
  else none

/-- The first node as a snapshot of its own, the others as introductions. -/
def admitOneByOne (u : UuidFormat) (x : LinkSession) (t : LinkTree) :
    List LinkNodeT → Option LinkTree
  | [] => none
  | r :: rest => (admitSnapshot u x t [r]).bind fun t' => rest.foldlM (admitIntroduction u x) t'

/-- An order that starts with the root and names no parent before it is there. -/
inductive ParentFirst (root : String) : List LinkNodeT → Prop
  | root {r : LinkNodeT} (h : r.server = some root) : ParentFirst root [r]
  | snoc {order : List LinkNodeT} {n : LinkNodeT} {q : String} (h : ParentFirst root order)
      (hq : n.parent = some q) (hk : ∃ m ∈ order, m.server = some q) :
      ParentFirst root (order ++ [n])

namespace ParentFirst

theorem head (h : ParentFirst root order) : ∃ r rest, order = r :: rest ∧ r.server = some root := by
  induction h with
  | root hr => exact ⟨_, [], rfl, hr⟩
  | snoc _ _ _ ih =>
      obtain ⟨r, rest, rfl, hr⟩ := ih
      exact ⟨r, rest ++ [_], rfl, hr⟩

theorem root_mem (h : ParentFirst root order) : ∃ n ∈ order, n.server = some root := by
  obtain ⟨r, rest, rfl, hr⟩ := h.head
  exact ⟨r, List.mem_cons_self, hr⟩

/-- Everything but the root has its parent in the list. -/
theorem parent_mem (h : ParentFirst root order) {n : LinkNodeT} (hn : n ∈ order)
    (hs : n.server ≠ some root) : ∃ q, n.parent = some q ∧ ∃ m ∈ order, m.server = some q := by
  induction h with
  | root hr =>
      rw [List.mem_singleton.mp hn] at hs
      exact absurd hr hs
  | @snoc order k q _ hq hk ih =>
      rcases List.mem_append.mp hn with hn | hn
      · obtain ⟨q, hq, m, hm, hms⟩ := ih hn
        exact ⟨q, hq, m, List.mem_append_left _ hm, hms⟩
      · obtain rfl := List.mem_singleton.mp hn
        obtain ⟨m, hm, hms⟩ := hk
        exact ⟨q, hq, m, List.mem_append_left _ hm, hms⟩

end ParentFirst

theorem offeredEdge_append {s q : String} (l : List LinkNodeT) (h : OfferedEdge order s q) :
    OfferedEdge (order ++ l) s q := by
  obtain ⟨n, hn, hs, hq⟩ := h
  exact ⟨n, List.mem_append_left _ hn, hs, hq⟩

/-- Parents first, every chain of parents ends at the root. -/
theorem ParentFirst.chain (h : ParentFirst root order) {n : LinkNodeT} (hn : n ∈ order)
    {s : String} (hs : n.server = some s) : ∃ p, Climb (OfferedEdge order) root s p := by
  induction h generalizing n s with
  | root hr =>
      rw [List.mem_singleton.mp hn, hr] at hs
      rw [← Option.some.inj hs]
      exact ⟨_, .root⟩
  | @snoc order k q _ hq hk ih =>
      rcases List.mem_append.mp hn with hn | hn
      · obtain ⟨p, hp⟩ := ih hn hs
        exact ⟨p, hp.mono (offeredEdge_append _)⟩
      · obtain rfl := List.mem_singleton.mp hn
        obtain ⟨m, hm, hms⟩ := hk
        obtain ⟨p, hp⟩ := ih hm hms
        refine ⟨s :: p, .step ⟨n, ?_, hs, hq⟩ (hp.mono (offeredEdge_append _))⟩
        exact List.mem_append_right _ (List.mem_singleton_self n)

/-! ### Depth -/

/-- The chain of parents from `q` is within the peer's depth; 0 is no limit. -/
def Within (peer : LinkPeer) (nodes : List LinkNodeT) (root q : String) : Prop :=
  ∃ p, Climb (OfferedEdge nodes) root q p ∧ (peer.maxDepth = 0 ∨ p.length ≤ peer.maxDepth)

theorem within_iff (h : OfferedTree u t root nodes) {peer : LinkPeer} {q : String}
    {p : List String} (hp : Climb (OfferedEdge nodes) root q p) :
    Within peer nodes root q ↔ peer.maxDepth = 0 ∨ p.length ≤ peer.maxDepth := by
  refine ⟨?_, fun hmax => ⟨p, hp, hmax⟩⟩
  rintro ⟨p', hp', hmax⟩
  rwa [hp.unique h.rooted hp']

/-- The walk of `snapshot_policy` counts the nodes of the climb. -/
theorem snapshotDepth_of_climb (h : OfferedTree u t root nodes) {s : String} {p : List String}
    (hp : Climb (OfferedEdge nodes) root s p) :
    ∀ {turns depth : Nat}, p.length ≤ turns →
      snapshotDepth nodes root turns (some s) depth = (some root, depth + p.length) := by
  induction hp with
  | root =>
      intro turns depth hlen
      cases turns with
      | zero => simp at hlen
      | succ turns => simp [snapshotDepth]
  | @step a b p he hb ih =>
      intro turns depth hlen
      have ha : a ≠ root := by
        rintro rfl
        exact absurd he h.rooted.orphan
      obtain ⟨n, hn, hs, hq⟩ := he
      cases turns with
      | zero => simp at hlen
      | succ turns =>
          rw [snapshotDepth, if_neg ha, find_offered h.distinct hn hs, Option.bind_some, hq,
            ih (by simpa using hlen), List.length_cons]
          congr 1
          omega

/-- What `snapshot_policy` asks of a component that is a tree. -/
theorem snapshotPolicy_iff (h : OfferedTree u t root nodes) (peer : LinkPeer) :
    snapshotPolicy peer nodes root = true ↔
      (peer.leafOnly = true → nodes.length = 1) ∧
        ∀ n ∈ nodes, ∀ q, n.parent = some q →
          sitePermitted peer (n.site.getD "") = true ∧ Within peer nodes root q := by
  have hnode : ∀ n ∈ nodes,
      ((n.server == some root ||
        (sitePermitted peer (n.site.getD "") &&
          ((snapshotDepth nodes root (nodes.length + 1) n.parent 0).1.isSome &&
            decide ((snapshotDepth nodes root (nodes.length + 1) n.parent 0).2 ≤ nodes.length) &&
            (peer.maxDepth == 0 ||
              decide ((snapshotDepth nodes root (nodes.length + 1) n.parent 0).2 ≤ peer.maxDepth))))) = true ↔
        ∀ q, n.parent = some q →
          sitePermitted peer (n.site.getD "") = true ∧ Within peer nodes root q) := by
    intro n hn
    cases hq : n.parent with
    | none => simp [(h.root n hn).mp hq]
    | some q =>
        have hs : n.server ≠ some root := by
          intro hs
          rw [(h.root n hn).mpr hs] at hq
          exact absurd hq (by simp)
        obtain ⟨m, hm, hms⟩ := h.parent_mem n hn q hq
        obtain ⟨s, p, hs', hp⟩ := h.chain m hm
        obtain rfl := Option.some.inj (hms.symm.trans hs')
        have hlen := climb_length h.rooted h.peer_mem hp
        rw [snapshotDepth_of_climb h hp (by omega), Nat.zero_add]
        simp only [beq_eq_false_iff_ne.mpr hs, Bool.false_or, Option.isSome_some, Bool.true_and,
          decide_eq_true hlen, Bool.and_eq_true, Bool.or_eq_true, beq_iff_eq, decide_eq_true_eq,
          Option.some.injEq, forall_eq']
        rw [within_iff h hp]
  rw [snapshotPolicy, Bool.and_eq_true, List.all_eq_true]
  refine and_congr ?_ (forall₂_congr hnode)
  cases peer.leafOnly <;> simp

/-! ### The tree a component is admitted into -/

/-- A server of the component is found as it was admitted. -/
theorem find_admitted (h : OfferedTree u t root nodes) {n : LinkNodeT} (hn : n ∈ nodes)
    {s : String} (hs : n.server = some s) :
    (t.attached root nodes).find (some s) = some (t.admitted root n) := by
  unfold find attached
  rw [Option.bind_some, List.find?_append]
  have hfresh := h.fresh n hn
  rw [hs] at hfresh
  have hold : t.nodes.find? (·.server == s) = none :=
    List.find?_eq_none.mpr fun m hm => by simpa using find_none.mp hfresh m hm
  rw [hold, Option.none_or, List.find?_map]
  have hcongr : nodes.find? ((·.server == s) ∘ t.admitted root) =
      nodes.find? (·.server == some s) := by
    refine List.find?_congr fun m hm => ?_
    obtain ⟨r, hr, -⟩ := validId_some (h.valid m hm)
    simp [admitted, hr]
  rw [hcongr, find_offered h.distinct hn hs, Option.map_some]

/-- What is found is found at an index. -/
theorem indexOf_of_find {s : String} {n : LinkNode} (h : t.find (some s) = some n) :
    ∃ i, t.indexOf s = some i ∧ t.nodes[i]? = some n := by
  obtain ⟨hs, i, hi, rfl, hfirst⟩ := List.find?_eq_some_iff_getElem.mp h
  refine ⟨i, List.findIdx?_eq_some_iff_getElem.mpr ⟨hi, hs, fun j hj => ?_⟩,
    List.getElem?_eq_getElem hi⟩
  simpa using hfirst j hj

/-- The live tree answers for a server below the root with the parent it came with. -/
theorem node_parent (h : OfferedTree u t root order) (hpf : ParentFirst root order)
    {n : LinkNodeT} (hn : n ∈ order) {s q : String} (hs : n.server = some s)
    (hq : n.parent = some q) (hne : s ≠ root) :
    ∃ k, ((t.attached root order).indexOf s).bind (t.attached root order).node = some k ∧
      k.parent = some q := by
  obtain ⟨i, hi, hget⟩ := indexOf_of_find (find_admitted h hn hs)
  have hserver : (t.admitted root n).server = s := by simp [admitted, hs]
  -- Node 0 is the local server or, in an empty table, the root itself.
  have hpos : i ≠ 0 := by
    rintro rfl
    obtain ⟨r, rest, rfl, hr⟩ := hpf.head
    cases hnil : t.nodes with
    | nil =>
        rw [attached, hnil] at hget
        have hhead : t.admitted root r = t.admitted root n := by simpa using hget
        rw [← hhead] at hserver
        exact hne (by simpa [admitted, hr] using hserver.symm)
    | cons m old =>
        rw [attached, hnil] at hget
        have hhead : m = t.admitted root n := by simpa using hget
        have hfresh := h.fresh n hn
        rw [hs] at hfresh
        refine find_none.mp hfresh m (by rw [hnil]; exact List.mem_cons_self) ?_
        rw [hhead, hserver]
  rw [hi, Option.bind_some, LinkTree.node, hget, Option.map_some]
  refine ⟨_, rfl, ?_⟩
  simp [hpos, admitted, hq]

/-- The walk of `introduction_policy` counts the hops of the climb. -/
theorem introductionDepth_of_climb (h : OfferedTree u t root order) (hpf : ParentFirst root order)
    {s : String} {p : List String} (hp : Climb (OfferedEdge order) root s p) :
    ∀ (turns depth : Nat), p.length ≤ turns + 1 →
      introductionDepth (t.attached root order) root turns (some s) depth =
        some (some root, depth + p.length - 1) := by
  induction hp with
  | root =>
      intro turns depth _
      cases turns with
      | zero => rfl
      | succ turns => simp [introductionDepth]
  | @step a b p he hb ih =>
      intro turns depth hlen
      have ha : a ≠ root := by
        rintro rfl
        exact absurd he h.rooted.orphan
      obtain ⟨n, hn, hs, hq⟩ := he
      obtain ⟨l, rfl⟩ := hb.head
      cases turns with
      | zero => simp at hlen
      | succ turns =>
          obtain ⟨k, hk, hkq⟩ := node_parent h hpf hn hs hq ha
          rw [introductionDepth, if_neg ha, hk]
          simp only [hkq]
          rw [ih turns (depth + 1) (by simpa using hlen)]
          simp only [List.length_cons]
          congr 2
          omega

/-- What `introduction_policy` asks of a node below one already admitted. -/
theorem introductionPolicy_iff (h : OfferedTree u t x.node order)
    (hpf : ParentFirst x.node order) {site q : String} {m : LinkNodeT} (hm : m ∈ order)
    (hms : m.server = some q) :
    introductionPolicy (t.attached x.node order) x site q = true ↔
      x.peer.leafOnly = false ∧ sitePermitted x.peer site = true ∧
        Within x.peer order x.node q := by
  obtain ⟨p, hp⟩ := hpf.chain hm hms
  have hlen := climb_length h.rooted h.peer_mem hp
  have hcount : (t.attached x.node order).count = t.count + order.length := by
    simp [count, attached]
  obtain ⟨l, hl⟩ := hp.head
  have hdepth := introductionDepth_of_climb h hpf hp (t.attached x.node order).count 1 (by omega)
  rw [introductionPolicy, hdepth, within_iff h hp]
  have hle : 1 + p.length - 1 ≤ (t.attached x.node order).count + 1 := by omega
  have hlenEq : 1 + p.length - 1 = p.length := by omega
  simp only [hlenEq] at hle ⊢
  simp only [Option.isSome_some, Bool.true_and, decide_eq_true hle, Bool.and_eq_true,
    Bool.not_eq_true', Bool.or_eq_true, beq_iff_eq, decide_eq_true_eq, and_assoc]

/-! ### One more node -/

theorem find_attached_none (hvalid : ∀ m ∈ order, validId u m.server = true) {s : String} :
    (t.attached root order).find (some s) = none ↔
      t.find (some s) = none ∧ ∀ m ∈ order, m.server ≠ some s := by
  rw [find_none, find_none]
  have hserver : ∀ m ∈ order, (t.admitted root m).server ≠ s ↔ m.server ≠ some s := by
    intro m hm
    obtain ⟨r, hr, -⟩ := validId_some (hvalid m hm)
    simp [admitted, hr]
  simp only [attached, List.mem_append, or_imp, forall_and, List.forall_mem_map]
  exact and_congr_right fun _ => forall₂_congr hserver

/-- A node below one already offered makes a larger tree, if it is new and there is room. -/
theorem offeredTree_snoc (hpf : ParentFirst root order) {n : LinkNodeT} {s q : String}
    (hs : n.server = some s) (hq : n.parent = some q) (hk : ∃ m ∈ order, m.server = some q) :
    OfferedTree u t root (order ++ [n]) ↔
      OfferedTree u t root order ∧ validId u (some s) = true ∧
        (t.attached root order).find (some s) = none ∧
        (t.attached root order).count ≠ (t.attached root order).limit := by
  have hcount : (t.attached root order).count = t.count + order.length := by
    simp [count, attached]
  have hmem : n ∈ order ++ [n] := List.mem_append_right _ (List.mem_singleton_self n)
  have hne : order ≠ [] := by
    obtain ⟨r, rest, rfl, -⟩ := hpf.head
    exact List.cons_ne_nil _ _
  have hnodup : ((order ++ [n]).map (·.server)).Nodup ↔
      (order.map (·.server)).Nodup ∧ ∀ m ∈ order, m.server ≠ some s := by
    simp [List.nodup_append, hs]
  rw [hcount]
  constructor
  · intro h
    have hold : ∀ {m}, m ∈ order → m ∈ order ++ [n] := fun hm => List.mem_append_left _ hm
    have hroom := h.room
    rw [List.length_append, List.length_singleton] at hroom
    have hvalid : ∀ m ∈ order, validId u m.server = true := fun m hm => h.valid m (hold hm)
    refine ⟨⟨hne, hvalid, (hnodup.mp h.distinct).1, fun m hm => h.fresh m (hold hm), hpf.root_mem,
      fun m hm => h.root m (hold hm), ?_, ?_, by omega⟩, hs ▸ h.valid n hmem, ?_, ?_⟩
    · intro m hm q' hq'
      have hms : m.server ≠ some root := by
        intro hms
        rw [(h.root m (hold hm)).mpr hms] at hq'
        exact absurd hq' (by simp)
      obtain ⟨q'', hq'', hmem'⟩ := hpf.parent_mem hm hms
      obtain rfl := Option.some.inj (hq'.symm.trans hq'')
      exact hmem'
    · intro m hm
      obtain ⟨r, hr, -⟩ := validId_some (hvalid m hm)
      obtain ⟨p, hp⟩ := hpf.chain hm hr
      exact ⟨r, p, hr, hp⟩
    · exact (find_attached_none hvalid).mpr ⟨hs ▸ h.fresh n hmem, (hnodup.mp h.distinct).2⟩
    · show t.count + order.length ≠ t.limit
      omega
  · rintro ⟨h, hid, hfresh, hroom⟩
    obtain ⟨hfresh, hnew⟩ := (find_attached_none h.valid).mp hfresh
    have hpf' : ParentFirst root (order ++ [n]) := .snoc hpf hq hk
    have hnroot : s ≠ root := by
      rintro rfl
      obtain ⟨m, hm, hms⟩ := hpf.root_mem
      exact hnew m hm hms
    have hlt : t.count + order.length ≠ t.limit := hroom
    have hle := h.room
    refine ⟨by simp, ?_, hnodup.mpr ⟨h.distinct, hnew⟩, ?_, hpf'.root_mem, ?_, ?_, ?_, ?_⟩
    · intro m hm
      rcases List.mem_append.mp hm with hm | hm
      · exact h.valid m hm
      · rw [List.mem_singleton.mp hm, hs]
        exact hid
    · intro m hm
      rcases List.mem_append.mp hm with hm | hm
      · exact h.fresh m hm
      · rw [List.mem_singleton.mp hm, hs]
        exact hfresh
    · intro m hm
      rcases List.mem_append.mp hm with hm | hm
      · exact h.root m hm
      · rw [List.mem_singleton.mp hm, hs, hq]
        simp [hnroot]
    · intro m hm q' hq'
      rcases List.mem_append.mp hm with hm | hm
      · obtain ⟨k, hk, hks⟩ := h.parent_mem m hm q' hq'
        exact ⟨k, List.mem_append_left _ hk, hks⟩
      · rw [List.mem_singleton.mp hm, hq] at hq'
        obtain rfl := Option.some.inj hq'
        obtain ⟨k, hk, hks⟩ := hk
        exact ⟨k, List.mem_append_left _ hk, hks⟩
    · intro m hm
      have hvalid : validId u m.server = true := by
        rcases List.mem_append.mp hm with hm | hm
        · exact h.valid m hm
        · rw [List.mem_singleton.mp hm, hs]
          exact hid
      obtain ⟨r, hr, -⟩ := validId_some hvalid
      obtain ⟨p, hp⟩ := hpf'.chain hm hr
      exact ⟨r, p, hr, hp⟩
    · rw [List.length_append, List.length_singleton]
      omega

/-- What a snapshot must satisfy to be admitted. -/
structure Admissible (u : UuidFormat) (x : LinkSession) (t : LinkTree)
    (nodes : List LinkNodeT) : Prop where
  tree : OfferedTree u t x.node nodes
  site : ∀ n ∈ nodes, validSite n.site = true
  policy : snapshotPolicy x.peer nodes x.node = true

theorem admitSnapshot_eq_some {t' : LinkTree} :
    admitSnapshot u x t nodes = some t' ↔
      Admissible u x t nodes ∧ t.attached x.node nodes = t' := by
  unfold admitSnapshot
  by_cases hpolicy : snapshotPolicy x.peer nodes x.node = true
  swap
  · rw [if_neg hpolicy]
    exact ⟨fun h => absurd h (by simp), fun h => absurd h.1.policy hpolicy⟩
  rw [if_pos hpolicy]
  by_cases hok : (attach u t (some x.node) nodes).1 = .ok
  · obtain ⟨q, hq, h, hsite⟩ := attach_ok_iff.mp hok
    obtain rfl := Option.some.inj hq
    rw [attach_eq_ok h hsite]
    exact ⟨fun he => ⟨⟨h, hsite, hpolicy⟩, Option.some.inj he⟩, fun he => congrArg some he.2⟩
  · have hno : (match attach u t (some x.node) nodes with
        | (.ok, t') => some t'
        | _ => none) = none := by
      split
      · rename_i heq
        exact absurd (by rw [heq]) hok
      · rfl
    rw [hno]
    refine ⟨fun h => absurd h (by simp), fun h => absurd ?_ hok⟩
    rw [attach_eq_ok h.1.tree h.1.site]

/-- One more node costs the policy what `introduction_policy` asks of it. -/
theorem snapshotPolicy_snoc (h : OfferedTree u t x.node order) (hpf : ParentFirst x.node order)
    {n : LinkNodeT} {q : String} (h' : OfferedTree u t x.node (order ++ [n]))
    (hq : n.parent = some q) (hk : ∃ m ∈ order, m.server = some q) :
    snapshotPolicy x.peer (order ++ [n]) x.node = true ↔
      snapshotPolicy x.peer order x.node = true ∧
        introductionPolicy (t.attached x.node order) x (n.site.getD "") q = true := by
  have hwithin : ∀ {r : String}, (∃ m ∈ order, m.server = some r) →
      (Within x.peer (order ++ [n]) x.node r ↔ Within x.peer order x.node r) := by
    intro r hr
    obtain ⟨m, hm, hms⟩ := hr
    obtain ⟨p, hp⟩ := hpf.chain hm hms
    rw [within_iff h hp, within_iff h' (hp.mono (offeredEdge_append _))]
  have hpos : 0 < order.length := List.length_pos_of_ne_nil h.nonempty
  obtain ⟨m, hm, hms⟩ := hk
  rw [snapshotPolicy_iff h', snapshotPolicy_iff h, introductionPolicy_iff h hpf hm hms]
  have hlast : (∀ r, n.parent = some r → sitePermitted x.peer (n.site.getD "") = true ∧
      Within x.peer (order ++ [n]) x.node r) ↔
        sitePermitted x.peer (n.site.getD "") = true ∧ Within x.peer order x.node q := by
    rw [hq]
    simp only [Option.some.injEq, forall_eq']
    rw [hwithin ⟨m, hm, hms⟩]
  have hfirst : (∀ k ∈ order, ∀ r, k.parent = some r →
      sitePermitted x.peer (k.site.getD "") = true ∧ Within x.peer (order ++ [n]) x.node r) ↔
        ∀ k ∈ order, ∀ r, k.parent = some r →
          sitePermitted x.peer (k.site.getD "") = true ∧ Within x.peer order x.node r := by
    refine forall₂_congr fun k hk => forall₂_congr fun r hr => ?_
    rw [hwithin (h.parent_mem k hk r hr)]
  have hleaf : (x.peer.leafOnly = true → (order ++ [n]).length = 1) ↔
      x.peer.leafOnly = false := by
    rw [List.length_append, List.length_singleton]
    cases x.peer.leafOnly with
    | false => simp
    | true =>
        simp only [true_imp_iff, Bool.true_eq_false, iff_false]
        omega
  rw [hleaf, List.forall_mem_append, List.forall_mem_singleton, hlast, hfirst]
  constructor
  · rintro ⟨hno, hall, hsite, hdepth⟩
    exact ⟨⟨fun hyes => absurd hyes (by simp [hno]), hall⟩, hno, hsite, hdepth⟩
  · rintro ⟨⟨-, hall⟩, hno, hsite, hdepth⟩
    exact ⟨hno, hall, hsite, hdepth⟩

/-- The tree takes a node whose parent was admitted exactly if it is new and there is room. -/
theorem add_admitted (h : OfferedTree u t root order) {s q w : String}
    (hk : ∃ m ∈ order, m.server = some q) :
    (add u (t.attached root order) (some root) (some s) (some q) (some w)).1 = .ok ↔
      validId u (some s) = true ∧ validSite (some w) = true ∧
        (t.attached root order).find (some s) = none ∧
        (t.attached root order).count ≠ (t.attached root order).limit := by
  obtain ⟨r, hr, hrs⟩ := h.peer_mem
  obtain ⟨m, hm, hms⟩ := hk
  have hends : ∃ owner source, (t.attached root order).find (some q) = some owner ∧
      (t.attached root order).find (some root) = some source ∧
      source.peer = root ∧ source.server = source.peer ∧ owner.peer = root :=
    ⟨_, _, find_admitted h hm hms, find_admitted h hr hrs, rfl, by simp [admitted, hrs], rfl⟩
  have hpeer : validId u (some root) = true := hrs ▸ h.valid r hr
  have hparent : validId u (some q) = true := hms ▸ h.valid m hm
  rw [add_ok_iff]
  simp only [hpeer, hparent, hends, true_and, and_assoc]

/-- The table a component leaves behind grows by one node for one node. -/
theorem attached_snoc {n : LinkNodeT} {s q w : String} (hs : n.server = some s)
    (hq : n.parent = some q) (hw : n.site = some w) :
    t.attached root (order ++ [n]) =
      (t.attached root order).extended [{ server := s, parent := q, peer := root, site := w }] := by
  simp [attached, extended, admitted, hs, hq, hw]

/-- An introduction is accepted exactly if the larger component would be. -/
theorem admitIntroduction_eq_some (hadm : Admissible u x t order) (hpf : ParentFirst x.node order)
    {n : LinkNodeT} {q : String} (hq : n.parent = some q) (hk : ∃ m ∈ order, m.server = some q)
    {t' : LinkTree} :
    admitIntroduction u x (t.attached x.node order) n = some t' ↔
      Admissible u x t (order ++ [n]) ∧ t.attached x.node (order ++ [n]) = t' := by
  have hmem : n ∈ order ++ [n] := List.mem_append_right _ (List.mem_singleton_self n)
  -- A node without an id or a site is rejected on both sides.
  have hnull : (n.server = none ∨ n.site = none) →
      (admitIntroduction u x (t.attached x.node order) n = some t' ↔
        Admissible u x t (order ++ [n]) ∧ t.attached x.node (order ++ [n]) = t') := by
    intro hnull
    have hadd : add u (t.attached x.node order) (some x.node) n.server n.parent n.site =
        (.invalid, t.attached x.node order) := by
      rcases hnull with hnull | hnull
      · rw [hnull]; rfl
      · rw [hnull]; unfold add; split <;> simp_all
    have hno : ¬ Admissible u x t (order ++ [n]) := by
      intro h
      rcases hnull with hnull | hnull
      · have := h.tree.valid n hmem
        rw [hnull] at this
        simp [validId] at this
      · have := h.site n hmem
        rw [hnull] at this
        simp [validSite] at this
    unfold admitIntroduction
    rw [hadd]
    split
    · exact ⟨fun he => absurd he (by simp), fun he => absurd he.1 hno⟩
    · exact ⟨fun he => absurd he (by simp), fun he => absurd he.1 hno⟩
  cases hs : n.server with
  | none => exact hnull (Or.inl hs)
  | some s =>
  cases hw : n.site with
  | none => exact hnull (Or.inr hw)
  | some w =>
  have hadm' : Admissible u x t (order ++ [n]) ↔
      introductionPolicy (t.attached x.node order) x (n.site.getD "") q = true ∧
        (add u (t.attached x.node order) (some x.node) (some s) (some q) (some w)).1 = .ok := by
    rw [add_admitted hadm.tree hk]
    constructor
    · intro h
      obtain ⟨-, hid, hfresh, hroom⟩ := (offeredTree_snoc hpf hs hq hk).mp h.tree
      have hpolicy := (snapshotPolicy_snoc hadm.tree hpf h.tree hq hk).mp h.policy
      exact ⟨hpolicy.2, hid, hw ▸ h.site n hmem, hfresh, hroom⟩
    · rintro ⟨hpolicy, hid, hsite, hfresh, hroom⟩
      have htree := (offeredTree_snoc hpf hs hq hk).mpr ⟨hadm.tree, hid, hfresh, hroom⟩
      refine ⟨htree, ?_, (snapshotPolicy_snoc hadm.tree hpf htree hq hk).mpr
        ⟨hadm.policy, hpolicy⟩⟩
      rw [List.forall_mem_append, List.forall_mem_singleton, hw]
      exact ⟨hadm.site, hsite⟩
  rw [hadm', attached_snoc hs hq hw]
  unfold admitIntroduction
  rw [hq, hs, hw, Option.getD_some, Option.getD_some]
  by_cases hpolicy : introductionPolicy (t.attached x.node order) x w q = true
  swap
  · rw [if_neg hpolicy]
    exact ⟨fun he => absurd he (by simp), fun he => absurd he.1.1 hpolicy⟩
  rw [if_pos hpolicy]
  rcases add_cases (u := u) (t := t.attached x.node order) (some x.node) (some s) (some q) (some w) with
    ⟨p, s', q', w', owner, source, hp, hs', hq', hw', -, -, -, -, -, -, -, -, -, heq⟩ | ⟨hno, -⟩
  · obtain rfl := Option.some.inj hp
    obtain rfl := Option.some.inj hs'
    obtain rfl := Option.some.inj hq'
    obtain rfl := Option.some.inj hw'
    rw [heq]
    exact ⟨fun he => ⟨⟨hpolicy, rfl⟩, Option.some.inj he⟩, fun he => congrArg some he.2⟩
  · split
    · rename_i heq
      exact absurd (by rw [heq]) hno
    · exact ⟨fun he => absurd he (by simp), fun he => absurd he.1.2 hno⟩

/-! ### Every order parents first -/

/-- **Parents first, one by one is the same as all at once.** -/
theorem admitOneByOne_eq (hpf : ParentFirst x.node order) :
    admitOneByOne u x t order = admitSnapshot u x t order := by
  induction hpf with
  | root hr =>
      show (admitSnapshot u x t [_]).bind some = _
      rw [Option.bind_fun_some]
  | @snoc order n q hpf hq hk ih =>
      have hsnoc : admitOneByOne u x t (order ++ [n]) =
          (admitOneByOne u x t order).bind fun t' => admitIntroduction u x t' n := by
        obtain ⟨r, rest, rfl, -⟩ := hpf.head
        show (admitSnapshot u x t [r]).bind _ = ((admitSnapshot u x t [r]).bind _).bind _
        rw [Option.bind_assoc]
        congr 1
        funext t'
        rw [List.append_eq, List.foldlM_append]
        simp only [List.foldlM_cons, List.foldlM_nil, bind_pure]
        rfl
      rw [hsnoc, ih]
      refine Option.ext fun t' => ?_
      rw [Option.bind_eq_some_iff, admitSnapshot_eq_some]
      constructor
      · rintro ⟨t'', hold, hnew⟩
        obtain ⟨hadm, rfl⟩ := admitSnapshot_eq_some.mp hold
        exact (admitIntroduction_eq_some hadm hpf hq hk).mp hnew
      · intro hnew
        have hadm : Admissible u x t order := by
          obtain ⟨s, hs, -⟩ := validId_some (hnew.1.tree.valid n
            (List.mem_append_right _ (List.mem_singleton_self n)))
          have htree := (offeredTree_snoc hpf hs hq hk).mp hnew.1.tree
          exact ⟨htree.1, fun m hm => hnew.1.site m (List.mem_append_left _ hm),
            ((snapshotPolicy_snoc htree.1 hpf hnew.1.tree hq hk).mp hnew.1.policy).1⟩
        exact ⟨_, admitSnapshot_eq_some.mpr ⟨hadm, rfl⟩,
          (admitIntroduction_eq_some hadm hpf hq hk).mpr hnew⟩

/-- A snapshot may list its nodes in any order. -/
theorem OfferedTree.perm (h : OfferedTree u t root nodes) (hp : order.Perm nodes) :
    OfferedTree u t root order := by
  have hedge : ∀ {s q : String}, OfferedEdge nodes s q → OfferedEdge order s q := by
    rintro s q ⟨n, hn, hs, hq⟩
    exact ⟨n, hp.mem_iff.mpr hn, hs, hq⟩
  refine ⟨?_, ?_, (hp.map _).nodup_iff.mpr h.distinct, ?_, ?_, ?_, ?_, ?_, ?_⟩
  · exact fun hnil => h.nonempty (List.nil_perm.mp (hnil ▸ hp))
  · exact fun n hn => h.valid n (hp.mem_iff.mp hn)
  · exact fun n hn => h.fresh n (hp.mem_iff.mp hn)
  · obtain ⟨n, hn, hs⟩ := h.peer_mem
    exact ⟨n, hp.mem_iff.mpr hn, hs⟩
  · exact fun n hn => h.root n (hp.mem_iff.mp hn)
  · intro n hn q hq
    obtain ⟨m, hm, hs⟩ := h.parent_mem n (hp.mem_iff.mp hn) q hq
    exact ⟨m, hp.mem_iff.mpr hm, hs⟩
  · intro n hn
    obtain ⟨s, p, hs, hc⟩ := h.chain n (hp.mem_iff.mp hn)
    exact ⟨s, p, hs, hc.mono hedge⟩
  · rw [hp.length_eq]
    exact h.room

theorem Admissible.perm (h : Admissible u x t nodes) (hp : order.Perm nodes) :
    Admissible u x t order := by
  have htree := OfferedTree.perm h.tree hp
  refine ⟨htree, fun n hn => h.site n (hp.mem_iff.mp hn), (snapshotPolicy_iff htree _).mpr ?_⟩
  obtain ⟨hleaf, hall⟩ := (snapshotPolicy_iff h.tree _).mp h.policy
  rw [hp.length_eq]
  refine ⟨hleaf, fun n hn q hq => ?_⟩
  obtain ⟨hsite, p, hc, hmax⟩ := hall n (hp.mem_iff.mp hn) q hq
  refine ⟨hsite, p, hc.mono ?_, hmax⟩
  rintro a b ⟨m, hm, hs, hb⟩
  exact ⟨m, hp.mem_iff.mpr hm, hs, hb⟩

/-- The length of the chain to the root is a depth: parents have less of it. -/
theorem OfferedTree.exists_depth (h : OfferedTree u t root nodes) :
    ∃ depth : LinkNodeT → Nat, ∀ n ∈ nodes, ∀ q, n.parent = some q →
      ∃ m ∈ nodes, m.server = some q ∧ depth m < depth n := by
  have hdepth : ∀ n, ∃ d, n ∈ nodes → ∃ s p, n.server = some s ∧
      Climb (OfferedEdge nodes) root s p ∧ p.length = d := by
    intro n
    by_cases hn : n ∈ nodes
    · obtain ⟨s, p, hs, hp⟩ := h.chain n hn
      exact ⟨p.length, fun _ => ⟨s, p, hs, hp, rfl⟩⟩
    · exact ⟨0, fun hc => absurd hc hn⟩
  choose depth hdepth using hdepth
  refine ⟨depth, fun n hn q hq => ?_⟩
  obtain ⟨m, hm, hms⟩ := h.parent_mem n hn q hq
  obtain ⟨s, p, hs, hp, hlen⟩ := hdepth n hn
  obtain ⟨s', p', hs', hp', hlen'⟩ := hdepth m hm
  obtain rfl := Option.some.inj (hms.symm.trans hs')
  have hstep : Climb (OfferedEdge nodes) root s (s :: p') := .step ⟨n, hn, hs, hq⟩ hp'
  refine ⟨m, hm, hms, ?_⟩
  rw [← hlen, ← hlen', hp.unique h.rooted hstep, List.length_cons]
  omega

/-- Sorted by depth, every parent comes before its children. -/
theorem parentFirst_of_sorted (h : OfferedTree u t root order) (depth : LinkNodeT → Nat)
    (hdepth : ∀ n ∈ order, ∀ q, n.parent = some q →
      ∃ m ∈ order, m.server = some q ∧ depth m < depth n)
    (hsorted : order.Pairwise fun a b => depth a ≤ depth b) :
    ∀ pre, pre ≠ [] → pre <+: order → ParentFirst root pre := by
  intro pre
  induction pre using List.reverseRecOn with
  | nil => exact fun hne => absurd rfl hne
  | append_singleton pre n ih =>
      rintro - ⟨post, hpost⟩
      rw [List.append_assoc] at hpost
      have hn : n ∈ order := by rw [← hpost]; simp
      cases hq : n.parent with
      | some q =>
          -- What is not in the prefix yet is at least as deep.
          obtain ⟨m, hm, hms, hlt⟩ := hdepth n hn q hq
          rw [← hpost, List.mem_append] at hm
          rcases hm with hm | hm
          · exact .snoc (ih (List.ne_nil_of_mem hm) ⟨[n] ++ post, hpost⟩) hq ⟨m, hm, hms⟩
          · rw [← hpost, List.pairwise_append] at hsorted
            rcases List.mem_cons.mp hm with rfl | hm
            · omega
            · have := List.rel_of_pairwise_cons hsorted.2.1 hm
              omega
      | none =>
          -- There is one root, and a prefix starts with it.
          have hroot := (h.root n hn).mp hq
          by_cases hpre : pre = []
          · rw [hpre]
            exact .root hroot
          · obtain ⟨r, hr, hrs⟩ := (ih hpre ⟨[n] ++ post, hpost⟩).root_mem
            have hd := h.distinct
            rw [← hpost, List.map_append, List.nodup_append] at hd
            refine absurd (hrs.trans hroot.symm) (hd.2.2 _ (List.mem_map_of_mem hr) _ ?_)
            exact List.mem_map_of_mem (List.mem_append_left _ (List.mem_singleton_self n))

/-- A tree can be introduced parents first. -/
theorem OfferedTree.exists_parentFirst (h : OfferedTree u t root nodes) :
    ∃ order, order.Perm nodes ∧ ParentFirst root order := by
  obtain ⟨depth, hdepth⟩ := OfferedTree.exists_depth h
  have hperm := List.mergeSort_perm nodes fun a b => decide (depth a ≤ depth b)
  refine ⟨_, hperm, parentFirst_of_sorted (OfferedTree.perm h hperm) depth ?_ ?_ _ ?_
    (List.prefix_refl _)⟩
  · intro n hn q hq
    obtain ⟨m, hm, hms⟩ := hdepth n (hperm.mem_iff.mp hn) q hq
    exact ⟨m, hperm.mem_iff.mpr hm, hms⟩
  · refine (List.pairwise_mergeSort ?_ ?_ nodes).imp fun hab => of_decide_eq_true hab
    · intro a b c hab hbc
      simp only [decide_eq_true_eq] at hab hbc ⊢
      omega
    · intro a b
      simp only [Bool.or_eq_true, decide_eq_true_eq]
      omega
  · exact fun hnil => h.nonempty (List.nil_perm.mp (hnil ▸ hperm))

theorem admitSnapshot_isSome : (admitSnapshot u x t nodes).isSome ↔ Admissible u x t nodes := by
  rw [Option.isSome_iff_exists]
  exact ⟨fun ⟨_, h⟩ => (admitSnapshot_eq_some.mp h).1,
    fun h => ⟨_, admitSnapshot_eq_some.mpr ⟨h, rfl⟩⟩⟩

/-- **A snapshot is admitted exactly if its nodes are, one at a time.**  For every tree,
policy and offered component: the whole is admitted if and only if the root alone and
then the others parents first are, in some order or, equally, in any; and the two trees
then hold the same entries. -/
theorem snapshot_agrees_with_introductions (u : UuidFormat) (x : LinkSession) (t : LinkTree)
    (nodes : List LinkNodeT) :
    ((admitSnapshot u x t nodes).isSome ↔
        ∃ order, order.Perm nodes ∧ ParentFirst x.node order ∧
          (admitOneByOne u x t order).isSome) ∧
      ∀ order, order.Perm nodes → ParentFirst x.node order →
        ((admitSnapshot u x t nodes).isSome ↔ (admitOneByOne u x t order).isSome) ∧
          ∀ whole single, admitSnapshot u x t nodes = some whole →
            admitOneByOne u x t order = some single →
              whole.limit = single.limit ∧ ∀ e, e ∈ whole.nodes ↔ e ∈ single.nodes := by
  have hany : ∀ order, order.Perm nodes → ParentFirst x.node order →
      ((admitSnapshot u x t nodes).isSome ↔ (admitOneByOne u x t order).isSome) := by
    intro order hperm hpf
    rw [admitOneByOne_eq hpf, admitSnapshot_isSome, admitSnapshot_isSome]
    exact ⟨fun h => h.perm hperm, fun h => h.perm hperm.symm⟩
  refine ⟨⟨fun h => ?_, ?_⟩, fun order hperm hpf => ⟨hany order hperm hpf, ?_⟩⟩
  · obtain ⟨order, hperm, hpf⟩ := OfferedTree.exists_parentFirst (admitSnapshot_isSome.mp h).tree
    exact ⟨order, hperm, hpf, (hany order hperm hpf).mp h⟩
  · rintro ⟨order, hperm, hpf, h⟩
    exact (hany order hperm hpf).mpr h
  · intro whole single hwhole hsingle
    rw [admitOneByOne_eq hpf] at hsingle
    obtain ⟨-, rfl⟩ := admitSnapshot_eq_some.mp hwhole
    obtain ⟨-, rfl⟩ := admitSnapshot_eq_some.mp hsingle
    refine ⟨rfl, fun e => ?_⟩
    show e ∈ t.nodes ++ nodes.map _ ↔ e ∈ t.nodes ++ order.map _
    rw [List.mem_append, List.mem_append, (hperm.map _).mem_iff]

end Links

end RustyRig
