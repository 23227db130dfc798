/-
The link tree is a tree, whatever it is asked to do.

Every accepted call keeps `WellFormed`, a rejected one leaves the table alone, and a
new table has it.  The rest is an induction over the calls.
-/
import RustyRig.Proofs.LinkTree.Table
import RustyRig.Proofs.LinkTree.Remove

namespace RustyRig

open Lib

namespace LinkTree

variable {u : UuidFormat} {t : LinkTree} {loc : String}

namespace WellFormed

theorem apply (h : WellFormed u loc t) (op : Op) : WellFormed u loc (apply u t op) := by
  cases op with
  | attach peer nodes =>
      rcases attach_cases peer nodes with ⟨p, -, -, hc, heq⟩ | ⟨-, heq⟩
      · rw [LinkTree.apply, heq]; exact h.attached hc
      · rw [LinkTree.apply, heq]; exact h
  | add peer server parent site =>
      rcases add_cases peer server parent site with
        ⟨p, s, q, w, owner, source, -, -, -, -, hs, howner, hop, -, -, -, hp, hfresh, hroom, heq⟩ |
        ⟨-, heq⟩
      · rw [LinkTree.apply, heq]; exact h.added hs hfresh howner hop hp hroom
      · rw [LinkTree.apply, heq]; exact h
  | remove peer server =>
      rcases h.remove_cases peer server with ⟨p, s, n, -, -, hfind, hpeer, hp, heq⟩ | heq
      · rw [LinkTree.apply, heq]
        obtain ⟨hn, hs⟩ := find_mem hfind
        refine h.pruned ?_
        rw [Option.some.inj hs]
        exact h.remote_ne (h.mem_remote hn (by rw [hpeer]; exact hp))
      · rw [LinkTree.apply, heq]; exact h

theorem run (h : WellFormed u loc t) (ops : List Op) : WellFormed u loc (run u t ops) := by
  induction ops generalizing t with
  | nil => exact h
  | cons op ops ih => exact ih (h.apply op)

theorem new {limit : Nat} (hnew : LinkTree.new u (some loc) limit = some t) :
    WellFormed u loc t ∧ t.limit = limit := by
  rw [LinkTree.new] at hnew
  split at hnew
  · exact absurd hnew (by simp)
  · rename_i hargs
    simp only [Bool.or_eq_true, Bool.not_eq_true', not_or, Bool.not_eq_false, beq_iff_eq,
      decide_eq_true_eq, Nat.not_lt] at hargs
    obtain rfl := Option.some.inj hnew
    refine ⟨⟨?_, by simp, ?_, hargs.2, ⟨"", rfl⟩, by simp [remote]⟩, rfl⟩
    · intro n hn
      rw [List.mem_singleton.mp hn]
      exact hargs.1.1
    · show 1 ≤ limit
      omega

end WellFormed

theorem apply_limit (op : Op) : (apply u t op).limit = t.limit := by
  cases op with
  | attach peer nodes =>
      rcases attach_cases peer nodes with ⟨p, -, -, -, heq⟩ | ⟨-, heq⟩
      · rw [apply, heq]; rfl
      · rw [apply, heq]
  | add peer server parent site =>
      rcases add_cases peer server parent site with
        ⟨p, s, q, w, owner, source, -, -, -, -, -, -, -, -, -, -, -, -, -, heq⟩ | ⟨-, heq⟩
      · rw [apply, heq]; rfl
      · rw [apply, heq]
  | remove peer server =>
      show (remove t peer server).2.limit = t.limit
      unfold remove
      split
      · split <;> rfl
      · rfl

theorem run_limit (ops : List Op) : (run u t ops).limit = t.limit := by
  induction ops generalizing t with
  | nil => rfl
  | cons op ops ih => exact ih.trans (apply_limit op)

/-- **Whatever is asked of a new tree, in whatever order, it stays one tree**: ids are
distinct and within the limit, node 0 is the local server, and from every other node
parents climb to it without a repeat, entering through the node's `peer`, which is
what `route` answers. -/
theorem run_is_tree {limit : Nat} {t₀ : LinkTree} (hnew : new u (some loc) limit = some t₀)
    (ops : List Op) :
    let t := run u t₀ ops
    (t.nodes.map (·.server)).Nodup ∧ t.count ≤ limit ∧
      (∃ site, t.nodes[0]? = some { server := loc, parent := "", peer := "", site := site }) ∧
      t.route (some loc) = none ∧
      ∀ n ∈ t.remote,
        (∃ m ∈ t.nodes, m.server = n.parent) ∧
          (∃ q, Climb t.Edge loc n.server (q ++ [n.peer, loc]) ∧ (q ++ [n.peer, loc]).Nodup) ∧
          (∃ b ∈ t.remote, b.server = n.peer ∧ b.parent = loc) ∧
          t.route (some n.server) = some n.peer := by
  have h : WellFormed u loc (run u t₀ ops) := (WellFormed.new hnew).1.run ops
  have hlimit : (run u t₀ ops).limit = limit := (run_limit ops).trans (WellFormed.new hnew).2
  obtain ⟨site, hroot⟩ := h.root
  refine ⟨h.distinct, hlimit ▸ h.count_le, ⟨site, by rw [hroot]; rfl⟩, h.route_loc, fun n hn => ?_⟩
  obtain ⟨q, hq⟩ := h.branch n hn
  obtain ⟨b, hb, hbs, hbp, -⟩ := h.peer_child hn
  exact ⟨h.parent_known hn, ⟨q, hq, hq.nodup h.rooted⟩, ⟨b, hb, hbs, hbp⟩, h.route_server hn⟩

/-- A branch of two is attached, extended and withdrawn again from below its peer. -/
theorem run_is_tree_example :
    let a := "aaaaaaaa-0000-4000-8000-000000000001"
    let b := "bbbbbbbb-0000-4000-8000-000000000002"
    let c := "cccccccc-0000-4000-8000-000000000003"
    let t := run .hex { nodes := [{ server := a, parent := "", peer := "", site := "" }], limit := 3 }
      [.attach (some b) [{ server := some b, parent := none, site := some "B" }],
        .add (some b) (some c) (some b) (some "C"), .remove (some b) (some c)]
    t.count = 2 ∧ (t.nodes.map (·.server)).Nodup ∧ t.route (some a) = none := by
  intro a b c t
  have hnew : new .hex (some a) 3 =
      some { nodes := [{ server := a, parent := "", peer := "", site := "" }], limit := 3 } := by
    decide
  have h := run_is_tree hnew
    [.attach (some b) [{ server := some b, parent := none, site := some "B" }],
      .add (some b) (some c) (some b) (some "C"), .remove (some b) (some c)]
  exact ⟨by decide, h.1, h.2.2.2.1⟩

end LinkTree

end RustyRig

/-!
Removing a branch, on every tree that the calls build.

`Reachable` collects the calls that change a tree, and all of them keep `WellFormed`.  The
marking loop is a `do … while`; `Marking` is its meaning without a bound on the sweeps, so a
derivation of it says that the loop ends.
-/

namespace RustyRig

open Lib

namespace LinkTree

variable {u : UuidFormat} {t : LinkTree} {loc : String} {limit : Nat}

/-- A tree that the calls of `link.tree.c` build. -/
inductive Reachable (u : UuidFormat) (loc : String) (limit : Nat) : LinkTree → Prop
  | new {t : LinkTree} (h : LinkTree.new u (some loc) limit = some t) : Reachable u loc limit t
  | site {t : LinkTree} (h : Reachable u loc limit t) (site : Option String) :
      Reachable u loc limit (t.setLocalSite site).2
  | apply {t : LinkTree} (h : Reachable u loc limit t) (op : Op) :
      Reachable u loc limit (LinkTree.apply u t op)

/-- The local site is not looked at. -/
theorem WellFormed.setLocalSite (h : WellFormed u loc t) (site : Option String) :
    WellFormed u loc (t.setLocalSite site).2 := by
  unfold LinkTree.setLocalSite
  split
  · exact h
  rename_i s
  split
  swap
  · exact h
  obtain ⟨old, hroot⟩ := h.root
  have hnodes : t.nodes.modifyHead ({ · with site := s }) =
      { server := loc, parent := "", peer := "", site := s } :: t.remote := by
    rw [hroot]
    rfl
  have hremote : ({ t with nodes := t.nodes.modifyHead ({ · with site := s }) } : LinkTree).remote =
      t.remote := by
    unfold remote
    rw [hnodes]
    rfl
  have hedge : ({ t with nodes := t.nodes.modifyHead ({ · with site := s }) } : LinkTree).Edge =
      t.Edge := by
    unfold Edge
    rw [hremote]
  have hservers : (t.nodes.modifyHead ({ · with site := s })).map (·.server) =
      t.nodes.map (·.server) := by
    rw [hnodes, hroot]
    rfl
  refine ⟨fun n hn => ?_, ?_, ?_, h.limit_le, ⟨s, hremote ▸ hnodes⟩, fun n hn => ?_⟩
  · have hmem : n.server ∈ t.nodes.map (·.server) := hservers ▸ List.mem_map_of_mem hn
    obtain ⟨m, hm, hs⟩ := List.mem_map.mp hmem
    rw [← hs]
    exact h.valid m hm
  · rw [hservers]
    exact h.distinct
  · have hlen := congrArg List.length hservers
    rw [List.length_map, List.length_map] at hlen
    exact hlen.trans_le h.count_le
  · rw [hremote] at hn
    rw [hedge]
    exact h.branch n hn

theorem Reachable.wellFormed (h : Reachable u loc limit t) : WellFormed u loc t := by
  induction h with
  | new h => exact (WellFormed.new h).1
  | site _ site ih => exact ih.setLocalSite site
  | apply _ op ih => exact ih.apply op

theorem Reachable.run (h : Reachable u loc limit t) (ops : List Op) :
    Reachable u loc limit (LinkTree.run u t ops) := by
  induction ops generalizing t with
  | nil => exact h
  | cons op ops ih => exact ih (h.apply op)

/-- The `do … while (changed)` loop leads from one marking to the other. -/
inductive Marking (t : LinkTree) : (Nat → Bool) → (Nat → Bool) → Prop
  | done {removed removed' : Nat → Bool}
      (h : sweep t t.nodes.zipIdx.tail (removed, false) = (removed', false)) : Marking t removed removed'
  | again {removed removed' final : Nat → Bool}
      (h : sweep t t.nodes.zipIdx.tail (removed, false) = (removed', true))
      (rest : Marking t removed' final) : Marking t removed final

/-- With more fuel than unmarked nodes the loop has ended. -/
theorem markAll_marking : ∀ (fuel : Nat) (removed : Nat → Bool),
    unmarked t.nodes.zipIdx.tail removed < fuel → Marking t removed (markAll t fuel removed) := by
  intro fuel
  induction fuel with
  | zero => intro removed h; omega
  | succ fuel ih =>
      intro removed h
      rw [markAll]
      cases hs : (sweep t t.nodes.zipIdx.tail (removed, false)).2 with
      | true =>
          have hless := sweep_progress _ removed hs
          exact .again (Prod.ext rfl hs) (ih _ (Nat.lt_of_lt_of_le hless (Nat.le_of_lt_succ h)))
      | false => exact .done (Prod.ext rfl hs)

namespace WellFormed

/-- The nodes that can be withdrawn are those with a peer. -/
theorem remove_iff (h : WellFormed u loc t) (peer server : Option String) :
    (remove t peer server).1 = true ↔
      ∃ n ∈ t.nodes, n.server ≠ loc ∧ server = some n.server ∧ peer = some n.peer := by
  constructor
  · intro hok
    rcases h.remove_cases peer server with ⟨p, s, n, rfl, rfl, hfind, hpeer, hp, -⟩ | heq
    · obtain ⟨hn, hs⟩ := find_mem hfind
      rw [hpeer.symm] at hp
      exact ⟨n, hn, h.remote_ne (h.mem_remote hn hp), hs, by rw [hpeer]⟩
    · rw [heq] at hok
      exact absurd hok (by simp)
  · rintro ⟨n, hn, hne, rfl, rfl⟩
    have hremote : n ∈ t.remote := by
      obtain ⟨site, hroot⟩ := h.root
      rw [hroot] at hn
      rcases List.mem_cons.mp hn with rfl | hn
      · exact absurd rfl hne
      · exact hn
    obtain ⟨i, hi⟩ := List.mem_iff_getElem?.mp hn
    have hindex : t.indexOf n.server = some i := h.indexOf_iff.mpr ⟨n, hi, rfl⟩
    unfold remove
    simp [h.find_eq hn, hindex, h.peer_ne hremote]

end WellFormed

/-- **`remove` withdraws a node with its peer's name and everything below it, or nothing.** -/
theorem remove_exact (h : Reachable u loc limit t) (peer server : Option String) :
    ((remove t peer server).1 = true ↔
        ∃ n ∈ t.nodes, n.server ≠ loc ∧ server = some n.server ∧ peer = some n.peer) ∧
      ((remove t peer server).1 = false → (remove t peer server).2 = t) ∧
      ∀ s, server = some s → (remove t peer server).1 = true →
        (remove t peer server).2 = t.pruned s ∧
          ∃ i removed, t.indexOf s = some i ∧
            Marking t (Function.update (fun _ => false) i true) removed ∧
            compact t removed = (t.pruned s).nodes := by
  have hw := h.wellFormed
  refine ⟨hw.remove_iff peer server, fun hno => ?_, fun s hserver hok => ?_⟩
  · rcases hw.remove_cases peer server with ⟨p, s, n, -, -, -, -, -, heq⟩ | heq
    · rw [heq] at hno
      exact absurd hno (by simp)
    · rw [heq]
  · rcases hw.remove_cases peer server with ⟨p, s', n, hpeer, hserver', hfind, hnp, hp, heq⟩ | heq
    swap
    · rw [heq] at hok
      exact absurd hok (by simp)
    obtain rfl := Option.some.inj (hserver.symm.trans hserver')
    obtain ⟨hn, hs⟩ := find_mem hfind
    obtain ⟨i, hi⟩ := List.mem_iff_getElem?.mp hn
    have hindex : t.indexOf s = some i := hw.indexOf_iff.mpr ⟨n, hi, (Option.some.inj hs).symm⟩
    refine ⟨by rw [heq], i, _, hindex, markAll_marking t.count _ (hw.unmarked_lt _), ?_⟩
    have hresult := congrArg (fun r : Bool × LinkTree => r.2.nodes) heq
    rw [hpeer, hserver] at hresult
    unfold remove at hresult
    simp only [hfind, Option.bind_some, hindex] at hresult
    rw [if_neg (by simp [hnp, hp])] at hresult
    exact hresult

/-- A branch of two is withdrawn with its first server. -/
theorem remove_exact_branch :
    let a := "aaaaaaaa-0000-4000-8000-000000000001"
    let b := "bbbbbbbb-0000-4000-8000-000000000002"
    let c := "cccccccc-0000-4000-8000-000000000003"
    let t : LinkTree := run .hex ⟨[⟨a, "", "", ""⟩], 3⟩
      [.attach (some b) [⟨some b, none, some "B"⟩], .add (some b) (some c) (some b) (some "C")]
    (remove t (some b) (some b)).1 = true ∧ (remove t (some b) (some b)).2 = t.pruned b := by
  intro a b c t
  have hnew : new .hex (some a) 3 = some ⟨[⟨a, "", "", ""⟩], 3⟩ := by decide
  have hreach : Reachable .hex a 3 t := (Reachable.new hnew).run _
  have hexact := remove_exact hreach (some b) (some b)
  have hok : (remove t (some b) (some b)).1 = true := by decide
  exact ⟨hok, (hexact.2.2 b rfl hok).1⟩

end LinkTree

end RustyRig
