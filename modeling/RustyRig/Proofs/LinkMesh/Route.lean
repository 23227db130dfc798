/-
`rr_mesh_route` answers with the best route, and only the links decide which.

The answer of the built-in router is the least label over all walks to the
destination.  The checks that `rr_mesh_route` makes on any router's proposal are
facts about such a label, so they never reject it; and a least element is unique,
so two meshes with the same links give the same answers whatever their history.
-/
import Mathlib.Data.List.Perm.Subperm
import RustyRig.Proofs.LinkMesh.Dijkstra
import RustyRig.Proofs.LinkMesh.Table

namespace RustyRig

open Lib

namespace Mesh

variable {u : UuidFormat} {m : Mesh} {loc : String} {ex : Option (Nat → Bool)}

/-- Without excluded hops every neighbour may be the first. -/
theorem allowed_none : Allowed m none = fun _ => True := by
  funext a
  exact propext ⟨fun _ => trivial, fun _ v _ => rfl⟩

/-- **`dijkstra_excluding` finds the least label over the allowed paths.** -/
theorem dijkstraExcluding_isLeast (hm : WellFormed loc m) {d : String} {r : MeshRoute} :
    dijkstraExcluding m (some d) ex = some r ↔
      IsLeast {l | Route m.weight loc (fun a => a) (Allowed m ex) d l}
        ⟨r.cost, r.hops, r.nextHop⟩ := by
  obtain ⟨k, h, hend⟩ := inv_final ex hm
  rw [dijkstraExcluding_eq_some, (h.feasible hm hend).isLeast]

theorem dijkstraExcluding_isSome (hm : WellFormed loc m) {d : String} :
    (dijkstraExcluding m (some d) ex).isSome ↔
      ∃ l, Route m.weight loc (fun a => a) (Allowed m ex) d l := by
  obtain ⟨k, h, hend⟩ := inv_final ex hm
  rw [← (h.feasible hm hend).isSome_iff]
  constructor
  · intro hs
    obtain ⟨r, hr⟩ := Option.isSome_iff_exists.mp hs
    rw [dijkstraExcluding_eq_some.mp hr]
    rfl
  · intro hs
    obtain ⟨l, hl⟩ := Option.isSome_iff_exists.mp hs
    have hr : dijkstraExcluding m (some d) ex = some ⟨l.first, l.cost, l.hops⟩ :=
      dijkstraExcluding_eq_some.mpr hl
    rw [hr]
    rfl

/-- No sum of the algorithm reaches the width it is computed in. -/
theorem sums_fit (hm : WellFormed loc m) (n i j : Nat)
    (hi : (rounds m ex n start).dist i ≠ uint64Max) :
    (rounds m ex n start).dist i + (m.edges i j).toNat < 2 ^ 64 ∧
      (rounds m ex n start).hops i + 1 < 2 ^ 32 := by
  obtain ⟨k, h, -⟩ := inv_rounds ex hm n 0 start inv_start
  obtain ⟨hh, hd⟩ := h.label_lt hm.count_le fun hpos hf => hi (h.blank i hpos hf)
  have hw := UInt32.toNat_lt (m.edges i j)
  have hk := h.card_le
  have hc := hm.count_le
  simp only [maxNodes, uintMax] at hd hc
  omega

/-- What the built-in router proposes passes every check `rr_mesh_route` makes. -/
theorem route_eq_dijkstra (hm : WellFormed loc m) (d : String) :
    m.route none (some d) = dijkstraExcluding m (some d) none := by
  unfold route
  dsimp only [Option.getD_none, routeDijkstra]
  cases hr : dijkstraExcluding m (some d) none with
  | none => rfl
  | some r =>
      have hroute := ((dijkstraExcluding_isLeast hm).mp hr).1
      obtain ⟨f, hf, -, hw, -⟩ := hroute.first
      have hhops := hroute.hops_pos
      have hcost := hroute.cost_pos
      have hne := hroute.ne_src
      simp only at hf hhops hcost
      have hedge : m.edgeCost (some (m.idAt 0)) (some r.nextHop) ≠ 0 := by
        rw [hm.idAt_zero, hf]
        intro hc
        rw [weight, hc] at hw
        exact hw rfl
      simp only
      rw [if_neg]
      simp only [Bool.or_eq_true, beq_iff_eq, not_or]
      exact ⟨⟨⟨hedge, by omega⟩, by omega⟩, by rw [hm.idAt_zero]; exact hne⟩

theorem route_isLeast (hm : WellFormed loc m) {d : String} {r : MeshRoute} :
    m.route none (some d) = some r ↔
      d ≠ loc ∧ IsLeast {l | Walk m.weight loc (fun a => a) d l} ⟨r.cost, r.hops, r.nextHop⟩ := by
  rw [route_eq_dijkstra hm, dijkstraExcluding_isLeast hm, allowed_none]
  constructor
  · intro h
    have hne : d ≠ loc := Route.ne_src h.1
    exact ⟨hne, (isLeast_walk_iff hne).mpr h⟩
  · rintro ⟨hne, h⟩
    exact (isLeast_walk_iff hne).mp h

theorem route_isSome (hm : WellFormed loc m) {d : String} :
    (m.route none (some d)).isSome ↔
      d ∈ m.id ∧ d ≠ loc ∧ ∃ l, Walk m.weight loc (fun a => a) d l := by
  rw [route_eq_dijkstra hm, dijkstraExcluding_isSome hm, allowed_none]
  constructor
  · rintro ⟨l, hr⟩
    refine ⟨?_, hr.ne_src, l, hr.walk⟩
    cases hr with
    | direct hw _ _ =>
        obtain ⟨_, j, _, hj, _, rfl, _⟩ := weight_ne_zero hw
        exact idAt_mem hj
    | hop _ hw _ =>
        obtain ⟨_, j, _, hj, _, rfl, _⟩ := weight_ne_zero hw
        exact idAt_mem hj
  · rintro ⟨-, hne, l, hw⟩
    obtain ⟨l', hr, -⟩ := hw.route hne
    exact ⟨l', hr⟩

/-- Two meshes of the same server with the same links answer alike. -/
theorem route_congr {m' : Mesh} (hm : WellFormed loc m) (hm' : WellFormed loc m')
    (hw : ∀ a b, m'.weight a b = m.weight a b) (d : Option String) :
    m'.route none d = m.route none d := by
  cases d with
  | none => rfl
  | some d =>
      have hsame : m'.weight = m.weight := funext fun a => funext fun b => hw a b
      refine Option.ext fun r => ?_
      rw [route_isLeast hm, route_isLeast hm', hsame]

/-- **Shortest routes over any history of a mesh.**  A destination has a route exactly
when it is another known server that links reach; the route is the least over all
walks, by cost, then hops, then the name of the first hop; no sum overflows; and
another history that ends with the same links gives the same routes. -/
theorem run_route_isLeast {m₀ : Mesh} (hnew : new u (some loc) = some m₀) (ops : List Op) :
    let m := run u m₀ ops
    (∀ d, (m.route none (some d)).isSome ↔
        d ∈ m.id ∧ d ≠ loc ∧ ∃ l, Walk m.weight loc (fun a => a) d l) ∧
      (∀ d r, m.route none (some d) = some r →
        IsLeast {l | Walk m.weight loc (fun a => a) d l} ⟨r.cost, r.hops, r.nextHop⟩) ∧
      (∀ n i j, (rounds m none n start).dist i ≠ uint64Max →
        (rounds m none n start).dist i + (m.edges i j).toNat < 2 ^ 64) ∧
      ∀ ops', (∀ a b, (run u m₀ ops').weight a b = m.weight a b) →
        ∀ d, (run u m₀ ops').route none d = m.route none d := by
  have hm : WellFormed loc (run u m₀ ops) := (WellFormed.new hnew).run ops
  exact ⟨fun d => route_isSome hm, fun d r hr => ((route_isLeast hm).mp hr).2,
    fun n i j hi => (sums_fit hm n i j hi).1,
    fun ops' hw d => route_congr hm ((WellFormed.new hnew).run ops') hw d⟩

/-- Of two routes of equal cost and length, the one through the lesser id. -/
theorem run_route_isLeast_example :
    let a := "aaaaaaaa-0000-4000-8000-000000000001"
    let b := "bbbbbbbb-0000-4000-8000-000000000002"
    let c := "cccccccc-0000-4000-8000-000000000003"
    let d := "dddddddd-0000-4000-8000-000000000004"
    let m := run .hex { id := [a], edges := fun _ _ => 0 }
      [.edge (some a) (some c) 2, .edge (some c) (some d) 3, .edge (some a) (some b) 1,
        .edge (some b) (some d) 4]
    m.route none (some d) = some { nextHop := b, cost := 5, hops := 2 } ∧
      IsLeast {l | Walk m.weight a (fun a => a) d l} ⟨5, 2, b⟩ := by
  intro a b c d m
  have hnew : new .hex (some a) = some { id := [a], edges := fun _ _ => 0 } := new_eq (by decide)
  have h := run_route_isLeast hnew
    [.edge (some a) (some c) 2, .edge (some c) (some d) 3, .edge (some a) (some b) 1,
      .edge (some b) (some d) 4]
  have hr : m.route none (some d) = some { nextHop := b, cost := 5, hops := 2 } := by decide
  exact ⟨hr, h.2.1 d _ hr⟩

end Mesh

end RustyRig

/-!
`rr_mesh_route_avoiding_many` answers with the best of the other routes.

The hops to exclude are masked by their index, and a server has one index, so what the
masked search may leave the local server by is every neighbour that is not named.  A
path passes any server later on, except the local one: the search never relaxes an edge
back into it, so a way round that first returns to the local server is no path here.
-/

namespace RustyRig

open Lib

namespace Mesh

variable {u : UuidFormat} {m : Mesh} {loc : String} {hops : List (Option String)}

/-- A server that is linked to the local one. -/
def Neighbour (loc : String) (m : Mesh) (hop : Option String) : Prop :=
  ∃ s, hop = some s ∧ m.weight loc s ≠ 0

/-- A first hop that is not to be avoided. -/
def Spared (hops : List (Option String)) (a : String) : Prop := some a ∉ hops

/-! ### What is masked -/

theorem neighbour_iff (hm : WellFormed loc m) {hop : Option String} :
    Neighbour loc m hop ↔ ∃ n, m.indexOf hop = some n ∧ n ≠ 0 ∧ m.edges 0 n ≠ 0 := by
  constructor
  · rintro ⟨s, rfl, hw⟩
    rw [hm.weight_loc] at hw
    cases hs : m.indexOf (some s) with
    | none =>
        rw [hs] at hw
        exact absurd rfl hw
    | some n =>
        rw [hs] at hw
        have hedge : m.edges 0 n ≠ 0 := fun h0 => hw (congrArg UInt32.toNat h0)
        exact ⟨n, rfl, fun h0 => hedge (h0 ▸ hm.irrefl 0), hedge⟩
  · rintro ⟨n, hn, -, hedge⟩
    cases hop with
    | none => exact absurd hn (by simp [indexOf])
    | some s =>
        refine ⟨s, rfl, ?_⟩
        rw [hm.weight_loc, hn]
        exact fun h0 => hedge (UInt32.toNat_inj.mp h0)

/-- Every hop has to be a neighbour, and then the mask holds the hops and what it held before. -/
theorem excludeHops_spec (hm : WellFormed loc m) (hops : List (Option String)) (mask : Nat → Bool) :
    (∃ ex, excludeHops m hops mask = some ex ∧ (∀ hop ∈ hops, Neighbour loc m hop) ∧
        ∀ v, ex v = true ↔ mask v = true ∨ ∃ hop ∈ hops, m.indexOf hop = some v) ∨
      (excludeHops m hops mask = none ∧ ∃ hop ∈ hops, ¬ Neighbour loc m hop) := by
  induction hops generalizing mask with
  | nil => exact Or.inl ⟨mask, rfl, (fun _ h => nomatch h), fun v => by simp⟩
  | cons hop hops ih =>
      have hno : (∀ n, m.indexOf hop = some n → n = 0 ∨ m.edges 0 n = 0) → ¬ Neighbour loc m hop := by
        intro hall hhop
        obtain ⟨n, hn, hne, hedge⟩ := (neighbour_iff hm).mp hhop
        exact (hall n hn).elim hne hedge
      unfold excludeHops
      cases hn : m.indexOf hop with
      | none =>
          exact Or.inr ⟨rfl, hop, List.mem_cons_self, hno fun n h => absurd (hn.symm.trans h) (by simp)⟩
      | some n =>
          simp only
          split
          · rename_i hbad
            refine Or.inr ⟨rfl, hop, List.mem_cons_self, hno fun n' h => ?_⟩
            obtain rfl := Option.some.inj (hn.symm.trans h)
            simpa using hbad
          · rename_i hgood
            have hneighbour : Neighbour loc m hop := (neighbour_iff hm).mpr ⟨n, hn, by simpa using hgood⟩
            obtain ⟨ex, hex, hall, hmask⟩ | ⟨hex, hop', hmem, hnot⟩ := ih (Function.update mask n true)
            · refine Or.inl ⟨ex, hex, fun h hh => ?_, fun v => ?_⟩
              · rcases List.mem_cons.mp hh with rfl | hh
                · exact hneighbour
                · exact hall h hh
              · rw [hmask v]
                by_cases hv : v = n
                · subst hv
                  simp [hn]
                · have hne : some n ≠ some v := fun h => hv (Option.some.inj h).symm
                  simp [Function.update_of_ne hv, hn, hne]
            · exact Or.inr ⟨hex, hop', List.mem_cons_of_mem _ hmem, hnot⟩

/-- The masked search may leave by the neighbours that are not named. -/
theorem allowed_of_excludeHops (hm : WellFormed loc m) {ex : Nat → Bool}
    (hall : ∀ hop ∈ hops, Neighbour loc m hop)
    (hmask : ∀ v, ex v = true ↔ ∃ hop ∈ hops, m.indexOf hop = some v) :
    Allowed m (some ex) = Spared hops := by
  funext a
  refine propext ⟨fun h hmem => ?_, fun h v hv => ?_⟩
  · obtain ⟨n, hn, -⟩ := (neighbour_iff hm).mp (hall _ hmem)
    have hset : ex n = true := (hmask n).mpr ⟨_, hmem, hn⟩
    have hfree : ex n = false := h n hn
    exact absurd (hset.symm.trans hfree) (by simp)
  · show ex v = false
    rw [← Bool.not_eq_true, hmask v]
    rintro ⟨hop, hmem, hhop⟩
    have hsame : hop = some a := (idAt_indexOf hhop).trans (idAt_indexOf hv).symm
    exact h (hsame ▸ hmem)

/-! ### The answer -/

/-- The best path to `d` that leaves by a hop that is not named. -/
def Best (loc : String) (m : Mesh) (hops : List (Option String)) (d : String) (r : MeshRoute) : Prop :=
  IsLeast {l | Route m.weight loc (fun a => a) (Spared hops) d l} ⟨r.cost, r.hops, r.nextHop⟩

theorem routeAvoidingMany_cases (hm : WellFormed loc m) (d : String) (hops : List (Option String))
    (out : MeshRoute) :
    (∃ r, routeAvoidingMany m (some d) (some hops) out = (true, r) ∧ hops.length ≤ maxNodes ∧
        (∀ hop ∈ hops, Neighbour loc m hop) ∧ Best loc m hops d r) ∨
      (routeAvoidingMany m (some d) (some hops) out = (false, out) ∧
        (maxNodes < hops.length ∨ (∃ hop ∈ hops, ¬ Neighbour loc m hop) ∨
          ¬ ∃ l, Route m.weight loc (fun a => a) (Spared hops) d l)) := by
  unfold routeAvoidingMany
  simp only
  by_cases hfit : maxNodes < hops.length
  · rw [if_pos hfit]
    exact Or.inr ⟨rfl, Or.inl hfit⟩
  rw [if_neg hfit]
  obtain ⟨ex, hex, hall, hmask⟩ | ⟨hex, hbad⟩ := excludeHops_spec hm hops fun _ => false
  · have hallowed : Allowed m (some ex) = Spared hops :=
      allowed_of_excludeHops hm hall fun v => by rw [hmask v]; simp
    rw [hex]
    simp only
    cases hr : dijkstraExcluding m (some d) (some ex) with
    | none =>
        have hno : ¬ ∃ l, Route m.weight loc (fun a => a) (Allowed m (some ex)) d l := by
          rw [← dijkstraExcluding_isSome hm, hr]
          simp
        rw [hallowed] at hno
        exact Or.inr ⟨rfl, Or.inr (Or.inr hno)⟩
    | some r =>
        have hbest := (dijkstraExcluding_isLeast hm).mp hr
        rw [hallowed] at hbest
        obtain ⟨f, hf, -, hw, -⟩ := Route.first hbest.1
        have hedge : m.edgeCost (some (m.idAt 0)) (some r.nextHop) ≠ 0 := by
          rw [hm.idAt_zero, show r.nextHop = f from hf]
          exact fun h0 => hw (congrArg UInt32.toNat h0)
        simp only
        rw [if_neg (by simpa using hedge)]
        exact Or.inl ⟨r, rfl, Nat.le_of_not_lt hfit, hall, hbest⟩
  · rw [hex]
    exact Or.inr ⟨rfl, Or.inr (Or.inl hbad)⟩

/-- What is found is the best path, and whatever can be found is. -/
theorem routeAvoidingMany_iff (hm : WellFormed loc m) {d : String} {out r : MeshRoute} :
    routeAvoidingMany m (some d) (some hops) out = (true, r) ↔
      hops.length ≤ maxNodes ∧ (∀ hop ∈ hops, Neighbour loc m hop) ∧ Best loc m hops d r := by
  obtain ⟨r', heq, hfit, hall, hbest⟩ | ⟨heq, hwhy⟩ := routeAvoidingMany_cases hm d hops out
  · rw [heq]
    constructor
    · intro h
      obtain rfl : r' = r := (Prod.mk.inj h).2
      exact ⟨hfit, hall, hbest⟩
    · rintro ⟨-, -, hbest'⟩
      obtain ⟨hcost, hhops, hfirst⟩ := Label.mk.inj (hbest.unique hbest')
      obtain ⟨nextHop, cost, nh⟩ := r
      obtain ⟨nextHop', cost', nh'⟩ := r'
      simp only at hcost hhops hfirst
      rw [hcost, hhops, hfirst]
  · rw [heq]
    refine ⟨fun h => absurd (Prod.mk.inj h).1 (by simp), ?_⟩
    rintro ⟨hfit, hall, hbest⟩
    rcases hwhy with hlong | ⟨hop, hmem, hnot⟩ | hno
    · omega
    · exact absurd (hall hop hmem) hnot
    · exact absurd ⟨_, hbest.1⟩ hno

/-- A set of neighbours is not longer than the table. -/
theorem length_le_of_neighbours (hm : WellFormed loc m) (hnodup : hops.Nodup)
    (hall : ∀ hop ∈ hops, Neighbour loc m hop) : hops.length ≤ maxNodes := by
  have hsub : hops ⊆ m.id.map some := by
    intro hop hmem
    obtain ⟨n, hn, -⟩ := (neighbour_iff hm).mp (hall hop hmem)
    rw [idAt_indexOf hn]
    exact List.mem_map_of_mem (idAt_mem (indexOf_lt hn))
  have hle := (hnodup.subperm hsub).length_le
  rw [List.length_map] at hle
  exact hle.trans hm.count_le

/-- **Alternate routes over any history of a mesh.**  The answer is the best of the paths that never
come back to the local server and whose first edge leads to no excluded neighbour; a failure leaves
the output alone.  Excluding more never makes it cheaper, and excluding what it does not use leaves it
as it is. -/
theorem run_routeAvoidingMany {m₀ : Mesh} (hnew : new u (some loc) = some m₀) (ops : List Op) :
    let m := run u m₀ ops
    (∀ d hops out r, routeAvoidingMany m (some d) (some hops) out = (true, r) ↔
        hops.length ≤ maxNodes ∧ (∀ hop ∈ hops, Neighbour loc m hop) ∧ Best loc m hops d r) ∧
      (∀ d hops out, (routeAvoidingMany m (some d) (some hops) out).1 = true ↔
        hops.length ≤ maxNodes ∧ (∀ hop ∈ hops, Neighbour loc m hop) ∧
          ∃ l, Route m.weight loc (fun a => a) (Spared hops) d l) ∧
      (∀ d hops out, (routeAvoidingMany m d hops out).1 = false → (routeAvoidingMany m d hops out).2 = out) ∧
      (∀ hops : List (Option String), hops.Nodup → (∀ hop ∈ hops, Neighbour loc m hop) →
        hops.length ≤ maxNodes) ∧
      (∀ d hops hops' out out' r', hops ⊆ hops' → hops.length ≤ maxNodes →
        routeAvoidingMany m (some d) (some hops') out' = (true, r') →
        ∃ r, routeAvoidingMany m (some d) (some hops) out = (true, r) ∧ r.cost ≤ r'.cost) ∧
      ∀ d hops hops' out out' r, hops ⊆ hops' → hops'.length ≤ maxNodes →
        (∀ hop ∈ hops', Neighbour loc m hop) →
        routeAvoidingMany m (some d) (some hops) out = (true, r) → some r.nextHop ∉ hops' →
        routeAvoidingMany m (some d) (some hops') out' = (true, r) := by
  intro m
  have hm : WellFormed loc m := (WellFormed.new hnew).run ops
  have hspared : ∀ {hops hops' : List (Option String)}, hops ⊆ hops' →
      ∀ f, Spared hops' f → Spared hops f := fun hsub f hf hmem => hf (hsub hmem)
  refine ⟨fun d hops out r => routeAvoidingMany_iff hm, fun d hops out => ?_, fun d hops out h => ?_,
    fun hops hnodup hall => length_le_of_neighbours hm hnodup hall, ?_, ?_⟩
  · obtain ⟨r, heq, hfit, hall, hbest⟩ | ⟨heq, hwhy⟩ := routeAvoidingMany_cases hm d hops out
    · rw [heq]
      exact ⟨fun _ => ⟨hfit, hall, _, hbest.1⟩, fun _ => rfl⟩
    · rw [heq]
      refine ⟨fun h => absurd h (by simp), ?_⟩
      rintro ⟨hfit, hall, hpath⟩
      rcases hwhy with hlong | ⟨hop, hmem, hnot⟩ | hno
      · omega
      · exact absurd (hall hop hmem) hnot
      · exact absurd hpath hno
  · cases d with
    | none => rfl
    | some d =>
        cases hops with
        | none => rfl
        | some hops =>
            obtain ⟨r, heq, -⟩ | ⟨heq, -⟩ := routeAvoidingMany_cases hm d hops out
            · rw [heq] at h
              exact absurd h (by simp)
            · rw [heq]
  · intro d hops hops' out out' r' hsub hfit hr'
    obtain ⟨-, hall', hbest'⟩ := (routeAvoidingMany_iff hm).mp hr'
    have hpath := hbest'.1.mono (hspared hsub)
    obtain ⟨r, heq, -, -, hbest⟩ | ⟨-, hwhy⟩ := routeAvoidingMany_cases hm d hops out
    · refine ⟨r, heq, ?_⟩
      have hle := (isLeast_restrict (hspared hsub) hbest).1 _ hbest'
      by_contra hlt
      exact absurd (Label.lt_of_cost (Nat.lt_of_not_le hlt)) (not_lt_of_ge hle)
    · rcases hwhy with hlong | ⟨hop, hmem, hnot⟩ | hno
      · omega
      · exact absurd (hall' hop (hsub hmem)) hnot
      · exact absurd ⟨_, hpath⟩ hno
  · intro d hops hops' out out' r hsub hfit hall hr hfree
    obtain ⟨-, -, hbest⟩ := (routeAvoidingMany_iff hm).mp hr
    refine (routeAvoidingMany_iff hm).mpr ⟨hfit, hall, ?_⟩
    exact (isLeast_restrict (hspared hsub) hbest).2
      fun f hf hmem => hfree (show some r.nextHop ∈ hops' from (congrArg some hf) ▸ hmem)

def home : String := "aaaaaaaa-0000-4000-8000-000000000001"

def relaying : String := "bbbbbbbb-0000-4000-8000-000000000002"

def leaf : String := "cccccccc-0000-4000-8000-000000000003"

def distant : String := "dddddddd-0000-4000-8000-000000000004"

/-- The local server links to a leaf and to a server that links on. -/
def forked : List Op :=
  [.edge (some home) (some relaying) 1, .edge (some home) (some leaf) 1,
    .edge (some relaying) (some distant) 1]

theorem new_home : new .hex (some home) = some { id := [home], edges := fun _ _ => 0 } :=
  new_eq (by decide)

/-- The leaf may as well be excluded. -/
theorem run_routeAvoidingMany_leaf :
    routeAvoidingMany (run .hex { id := [home], edges := fun _ _ => 0 } forked) (some distant)
      (some [some leaf]) ⟨"", 0, 0⟩ = (true, ⟨relaying, 2, 2⟩) := by
  have hfree : routeAvoidingMany (run .hex { id := [home], edges := fun _ _ => 0 } forked) (some distant)
      (some []) ⟨"", 0, 0⟩ = (true, ⟨relaying, 2, 2⟩) := by decide
  refine (run_routeAvoidingMany new_home forked).2.2.2.2.2 distant [] [some leaf] _ _ _ (List.nil_subset _)
    (by decide) ?_ hfree (by decide)
  intro hop hmem
  rw [List.mem_singleton.mp hmem]
  exact ⟨leaf, rfl, by decide⟩

/-- Without the server that links on, a walk to the leaf and back is left, and it is no answer. -/
theorem routeAvoidingMany_returning : ¬ ∀ (u : UuidFormat) (loc : String) (m₀ : Mesh) (ops : List Op)
    (d : String) (hops : List (Option String)) (out : MeshRoute), new u (some loc) = some m₀ →
      hops.length ≤ maxNodes → (∀ hop ∈ hops, Neighbour loc (run u m₀ ops) hop) →
      (∃ l, Walk (run u m₀ ops).weight loc (fun a => a) d l ∧ Spared hops l.first) →
      (routeAvoidingMany (run u m₀ ops) (some d) (some hops) out).1 = true := by
  intro h
  have hfound := h .hex home _ forked distant [some relaying] ⟨"", 0, 0⟩ new_home (by decide) ?_ ?_
  · exact absurd hfound (by decide)
  · intro hop hmem
    rw [List.mem_singleton.mp hmem]
    exact ⟨relaying, rfl, by decide⟩
  · have hout : Walk (run .hex { id := [home], edges := fun _ _ => 0 } forked).weight home (fun a => a) leaf
        ⟨1, 1, leaf⟩ := .direct (by decide)
    have hback := hout.hop (v := home) (by decide)
    have hon := (hback.hop (v := relaying) (by decide)).hop (v := distant) (by decide)
    refine ⟨_, hon, ?_⟩
    show some leaf ∉ [some relaying]
    decide

end Mesh

end RustyRig
