/-
`establish` announces a branch parent before child, and all of it.

A pass announces every node whose parent is outside the branch or announced before,
so what it emits is always in order.  That the passes suffice is counted along the
climb to the local server: a node two steps from it goes out in the first pass, and
one a step further out in the next.  No climb is longer than the table, and there are
as many passes as nodes.
-/
import RustyRig.Proofs.LinkTree.Remove
import RustyRig.Rrserver.Link
import Mathlib.Data.List.Perm.Subperm

namespace RustyRig

open Lib

namespace LinkTree

variable {u : UuidFormat} {t : LinkTree} {loc : String}

namespace WellFormed

/-- The parent of a node is the local server, for a peer, or lies in the same branch. -/
theorem parent_cases (h : WellFormed u loc t) {n : LinkNode} (hn : n ∈ t.remote) :
    (n.server = n.peer ∧ n.parent = loc) ∨
      ∃ m ∈ t.remote, m.server = n.parent ∧ m.peer = n.peer := by
  obtain ⟨q, hq⟩ := h.branch n hn
  rcases hq.uncons with heq | ⟨b, p, hp, he, hb⟩
  · exact absurd heq (h.remote_ne hn)
  have hparent : n.parent = b := h.rooted.unique ⟨n, hn, rfl, rfl⟩ he
  subst hparent
  cases q with
  | nil =>
      simp only [List.nil_append, List.cons.injEq] at hp
      obtain ⟨hs, hp⟩ := hp
      rw [← hp] at hb
      refine Or.inl ⟨hs.symm, ?_⟩
      obtain ⟨rest, hr⟩ := hb.head
      simpa using (List.cons.inj hr).1.symm
  | cons c q =>
      obtain ⟨-, hp⟩ := List.cons.inj hp
      rw [show p = q ++ [n.peer, loc] from hp.symm] at hb
      obtain ⟨m, hm, hms⟩ := h.climb_known hb
      by_cases hloc : n.parent = loc
      · rw [hloc] at hb
        have hlen := congrArg List.length (hb.unique h.rooted Climb.root)
        simp at hlen
      · have hmr : m ∈ t.remote := by
          obtain ⟨site, hroot⟩ := h.root
          rw [hroot] at hm
          rcases List.mem_cons.mp hm with rfl | hm
          · exact absurd hms.symm hloc
          · exact hm
        obtain ⟨q', hq'⟩ := h.branch m hmr
        rw [hms] at hq'
        have hsame := hq'.unique h.rooted hb
        have hpeer := congrArg (fun l => l.reverse[1]?) hsame
        refine Or.inr ⟨m, hmr, hms, ?_⟩
        simpa using hpeer

/-- No climb visits more nodes than the table has. -/
theorem climb_length (h : WellFormed u loc t) {s : String} {p : List String}
    (hp : Climb t.Edge loc s p) : p.length ≤ t.count := by
  have hsub : p ⊆ t.nodes.map (·.server) := by
    intro x hx
    obtain ⟨q, -, hq⟩ := hp.of_mem hx
    obtain ⟨m, hm, hms⟩ := h.climb_known hq
    exact hms ▸ List.mem_map_of_mem hm
  have hle := (List.Nodup.subperm (hp.nodup h.rooted) hsub).length_le
  rwa [List.length_map] at hle

end WellFormed

end LinkTree

namespace Links

open LinkTree

variable {u : UuidFormat} {t : LinkTree} {loc node : String}

/-- What may be announced: the parent is outside the branch, or announced. -/
def Known (t : LinkTree) (node : String) (sent : Nat → Bool) (n : LinkNode) : Prop :=
  t.route (some n.parent) ≠ some node ∨
    ∃ e ∈ t.nodes.zipIdx.tail, e.1.server = n.parent ∧ sent e.2 = true

theorem Known.mono {sent sent' : Nat → Bool} {n : LinkNode}
    (h : Known t node sent n) (hsub : ∀ i, sent i = true → sent' i = true) :
    Known t node sent' n := by
  rcases h with h | ⟨e, he, hs, hi⟩
  · exact Or.inl h
  · exact Or.inr ⟨e, he, hs, hsub _ hi⟩

/-- One turn of a pass. -/
theorem publishPass_cons (t : LinkTree) (node : String) (n : LinkNode) (i : Nat)
    (rest : List (LinkNode × Nat)) (sent : Nat → Bool) (out : List LinkNode) :
    (sent i = false ∧ t.route (some n.server) = some node ∧ Known t node sent n ∧
        publishPass t node ((n, i) :: rest) (sent, out) =
          publishPass t node rest (Function.update sent i true, out ++ [n])) ∨
      ((sent i = false → t.route (some n.server) = some node → ¬ Known t node sent n) ∧
        publishPass t node ((n, i) :: rest) (sent, out) =
          publishPass t node rest (sent, out)) := by
  rw [publishPass]
  split
  · rename_i hskip
    refine Or.inr ⟨?_, rfl⟩
    intro hi hr
    simp [hi, hr] at hskip
  rename_i hturn
  simp only [Bool.or_eq_true, bne_iff_ne, ne_eq, not_or, not_not, Bool.not_eq_true] at hturn
  split
  · rename_i hknown
    refine Or.inl ⟨hturn.1, hturn.2, ?_, rfl⟩
    simpa [Known] using hknown
  · rename_i hunknown
    refine Or.inr ⟨?_, rfl⟩
    intro _ _ hk
    exact hunknown (by simpa [Known] using hk)

/-- What is announced so far: entries of the branch, once each, in order. -/
structure Announced (t : LinkTree) (node : String) (st : (Nat → Bool) × List LinkNode) : Prop where
  sent : ∀ e ∈ t.nodes.zipIdx.tail, st.1 e.2 = true ↔ e.1 ∈ st.2
  branch : ∀ n ∈ st.2, n ∈ t.remote ∧ n.peer = node
  nodup : (st.2.map (·.server)).Nodup
  ordered : ∀ pre n post, st.2 = pre ++ n :: post →
    t.route (some n.parent) ≠ some node ∨ ∃ m ∈ pre, m.server = n.parent

theorem announced_pass (h : WellFormed u loc t) : ∀ (todo : List (LinkNode × Nat))
    (st : (Nat → Bool) × List LinkNode), (∀ e ∈ todo, e ∈ t.nodes.zipIdx.tail) →
    Announced t node st → Announced t node (publishPass t node todo st) := by
  intro todo
  induction todo with
  | nil => exact fun _ _ ha => ha
  | cons e rest ih =>
      obtain ⟨n, i⟩ := e
      rintro ⟨sent, out⟩ htodo ha
      have hrest : ∀ e ∈ rest, e ∈ t.nodes.zipIdx.tail :=
        fun e he => htodo e (List.mem_cons_of_mem _ he)
      rcases publishPass_cons t node n i rest sent out with
        ⟨hi, hroute, hknown, heq⟩ | ⟨-, heq⟩
      swap
      · rw [heq]
        exact ih _ hrest ha
      rw [heq]
      refine ih _ hrest ?_
      have hmem := htodo (n, i) List.mem_cons_self
      obtain ⟨hpos, hget⟩ := h.mem_todo.mp hmem
      have hremote : n ∈ t.remote := h.remote_getElem?.mpr ⟨i, hpos, hget⟩
      have hnew : n ∉ out := by
        intro hn
        exact absurd ((ha.sent _ hmem).mpr hn) (by simp [hi])
      refine ⟨?_, ?_, ?_, ?_⟩
      · -- an index and its node go together
        rintro ⟨m, j⟩ he
        obtain ⟨hjpos, hjget⟩ := h.mem_todo.mp he
        have hsame : j = i ↔ m = n := by
          constructor
          · rintro rfl
            exact Option.some.inj (hjget.symm.trans hget)
          · rintro rfl
            have hj := h.indexOf_iff.mpr ⟨m, hjget, rfl⟩
            rw [h.indexOf_iff.mpr ⟨m, hget, rfl⟩] at hj
            exact (Option.some.inj hj).symm
        have hold := ha.sent (m, j) he
        simp only at hold ⊢
        by_cases hji : j = i
        · simp [hji, hsame.mp hji]
        · rw [Function.update_of_ne hji, hold, List.mem_append, List.mem_singleton]
          exact ⟨Or.inl, fun hc => hc.resolve_right fun hm => hji (hsame.mpr hm)⟩
      · intro m hm
        rcases List.mem_append.mp hm with hm | hm
        · exact ha.branch m hm
        · rw [List.mem_singleton.mp hm]
          rw [h.route_server hremote] at hroute
          exact ⟨hremote, Option.some.inj hroute⟩
      · rw [List.map_append, List.nodup_append]
        refine ⟨ha.nodup, List.nodup_singleton _, ?_⟩
        rintro a hamem b hb rfl
        obtain ⟨m, hm, hms⟩ := List.mem_map.mp hamem
        rw [List.map_singleton, List.mem_singleton] at hb
        have hmn := h.mem_inj (WellFormed.remote_mem (ha.branch m hm).1)
          (WellFormed.remote_mem hremote) (hms.trans hb)
        exact hnew (hmn ▸ hm)
      · intro pre m post hsplit
        rcases List.eq_nil_or_concat post with rfl | ⟨post', k, rfl⟩
        · obtain ⟨rfl, hm⟩ := List.append_inj' hsplit rfl
          obtain rfl := List.singleton_inj.mp hm
          rcases hknown with hk | ⟨e, he, hs, hi⟩
          · exact Or.inl hk
          · exact Or.inr ⟨e.1, (ha.sent e he).mp hi, hs⟩
        · rw [List.concat_eq_append, ← List.cons_append, ← List.append_assoc] at hsplit
          obtain ⟨hout, -⟩ := List.append_inj' hsplit rfl
          exact ha.ordered pre m post' hout

theorem publishPass_mono : ∀ (todo : List (LinkNode × Nat)) (st : (Nat → Bool) × List LinkNode)
    (i : Nat), st.1 i = true → (publishPass t node todo st).1 i = true := by
  intro todo
  induction todo with
  | nil => exact fun _ _ hi => hi
  | cons e rest ih =>
      obtain ⟨n, j⟩ := e
      rintro ⟨sent, out⟩ i hi
      rcases publishPass_cons t node n j rest sent out with
        ⟨-, -, -, heq⟩ | ⟨-, heq⟩
      · rw [heq]
        refine ih _ i ?_
        by_cases hij : i = j
        · simp [hij]
        · simpa [Function.update_of_ne hij] using hi
      · rw [heq]
        exact ih _ i hi

/-- A pass announces whatever was ready when it began. -/
theorem publishPass_progress : ∀ (todo : List (LinkNode × Nat))
    (st : (Nat → Bool) × List LinkNode) (n : LinkNode) (i : Nat), (n, i) ∈ todo →
    t.route (some n.server) = some node → Known t node st.1 n →
    (publishPass t node todo st).1 i = true := by
  intro todo
  induction todo with
  | nil => exact fun _ _ _ hmem => absurd hmem List.not_mem_nil
  | cons e rest ih =>
      obtain ⟨m, j⟩ := e
      rintro ⟨sent, out⟩ n i hmem hroute hknown
      rcases publishPass_cons t node m j rest sent out with
        ⟨-, -, -, heq⟩ | ⟨hskip, heq⟩
      · rw [heq]
        rcases List.mem_cons.mp hmem with hhead | hmem
        · obtain ⟨rfl, rfl⟩ := Prod.mk.inj hhead
          exact publishPass_mono rest _ i (by simp)
        · refine ih _ n i hmem hroute (hknown.mono fun k hk => ?_)
          by_cases hkj : k = j
          · simp [hkj]
          · simpa [Function.update_of_ne hkj] using hk
      · rw [heq]
        rcases List.mem_cons.mp hmem with hhead | hmem
        · obtain ⟨rfl, rfl⟩ := Prod.mk.inj hhead
          refine publishPass_mono rest _ i ?_
          by_contra hi
          exact hskip (Bool.eq_false_iff.mpr hi) hroute hknown
        · exact ih _ n i hmem hroute hknown

/-- What `establish` announces: the whole branch, once, each node after its parent. -/
structure Published (t : LinkTree) (node : String) (out : List LinkNode) : Prop where
  branch : ∀ n, n ∈ out ↔ n ∈ t.remote ∧ n.peer = node
  nodup : (out.map (·.server)).Nodup
  ordered : ∀ pre n post, out = pre ++ n :: post →
    n.parent = t.localServer ∨ ∃ m ∈ pre, m.server = n.parent

theorem announced_iterate (h : WellFormed u loc t) (node : String) (passes : Nat) :
    Announced t node (Nat.iterate (publishPass t node t.nodes.zipIdx.tail) passes
      (fun _ => false, [])) := by
  induction passes with
  | zero =>
      refine ⟨fun e _ => by simp, fun n hn => absurd hn List.not_mem_nil, List.nodup_nil, ?_⟩
      intro pre n post hsplit
      exact absurd hsplit (by simp)
  | succ passes ih =>
      rw [Function.iterate_succ_apply']
      exact announced_pass h _ _ (fun e he => he) ih

/-- After as many passes as its climb has steps, a node of the branch is announced. -/
theorem mem_iterate (h : WellFormed u loc t) (passes : Nat) : ∀ n ∈ t.remote, n.peer = node →
    ∀ p, Climb t.Edge loc n.server p → p.length ≤ passes + 1 →
      n ∈ (Nat.iterate (publishPass t node t.nodes.zipIdx.tail) passes (fun _ => false, [])).2 := by
  induction passes with
  | zero =>
      intro n hn _ p hp hlen
      rcases hp.uncons with heq | ⟨b, q, rfl, -, hq⟩
      · exact absurd heq (h.remote_ne hn)
      · obtain ⟨rest, rfl⟩ := hq.head
        simp at hlen
  | succ passes ih =>
      intro n hn hpeer p hp hlen
      obtain ⟨i, hpos, hget⟩ := h.remote_getElem?.mp hn
      have hmem := h.mem_todo.mpr ⟨hpos, hget⟩
      have hann := announced_iterate h node passes
      have hann' := announced_iterate h node (passes + 1)
      refine (hann'.sent (n, i) hmem).mp ?_
      rw [Function.iterate_succ_apply']
      refine publishPass_progress _ _ n i hmem (hpeer ▸ h.route_server hn) ?_
      rcases h.parent_cases hn with ⟨-, hloc⟩ | ⟨m, hm, hms, hmp⟩
      · refine Or.inl ?_
        rw [hloc, h.route_loc]
        exact fun hc => absurd hc (by simp)
      · -- the parent is a step nearer and was announced a pass before
        obtain ⟨j, hjpos, hjget⟩ := h.remote_getElem?.mp hm
        have hmemj := h.mem_todo.mpr ⟨hjpos, hjget⟩
        rcases hp.uncons with heq | ⟨b, q, rfl, hedge, hq⟩
        · exact absurd heq (h.remote_ne hn)
        · obtain rfl := h.rooted.unique ⟨n, hn, rfl, rfl⟩ hedge
          rw [← hms] at hq
          have hout := ih m hm (hmp.trans hpeer) q hq (by simpa using hlen)
          exact Or.inr ⟨(m, j), hmemj, hms, (hann.sent (m, j) hmemj).mpr hout⟩

/-- **`establish` announces the whole branch, once, each node after its parent.** -/
theorem published (h : WellFormed u loc t) (node : String) :
    Published t node (publication t node) := by
  have hann := announced_iterate h node t.count
  refine ⟨fun n => ⟨hann.branch n, fun ⟨hn, hpeer⟩ => ?_⟩, hann.nodup, fun pre n post hsplit => ?_⟩
  · obtain ⟨p, hp, -⟩ := h.climbs (WellFormed.remote_mem hn)
    have hle := h.climb_length hp
    exact mem_iterate h t.count n hn hpeer p hp (by omega)
  · have hmem : n ∈ publication t node := by
      rw [hsplit]
      exact List.mem_append_right _ List.mem_cons_self
    obtain ⟨hn, hpeer⟩ := hann.branch n hmem
    rcases hann.ordered pre n post hsplit with hroute | hknown
    · rcases h.parent_cases hn with ⟨-, hloc⟩ | ⟨m, hm, hms, hmp⟩
      · exact Or.inl (hloc.trans h.localServer_eq.symm)
      · rw [← hms, h.route_server hm, hmp, hpeer] at hroute
        exact absurd rfl hroute
    · exact Or.inr hknown

end Links

end RustyRig
