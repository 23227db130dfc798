/-
The mesh route computation of `rrserver/link.mesh.c`.

A bounded table of servers, index 0 being the local one, and a symmetric matrix of
link costs in which 0 means no link.  `dijkstraExcluding` is the array form of the
algorithm: `count` rounds that each settle the nearest open node and relax its row.

The three `stack` arrays are functions on indices.  Their sentinels are kept
(`UINT64_MAX`, `UINT_MAX`, and `none` for a first hop of -1), and so is the width of
the sums: a candidate cost is taken modulo 2^64 and a hop count modulo 2^32.  A
router plugin is a function; `none` is the NULL that selects the built-in one.
-/
import RustyRig.Rrserver.Uuid
import Mathlib.Data.String.Basic
import Mathlib.Logic.Function.Basic

namespace RustyRig

/-- `rr_mesh_route_t`. -/
structure MeshRoute where
  nextHop : String
  cost : Nat
  hops : Nat
deriving DecidableEq, Repr

/-- `struct rr_mesh` without its router. -/
structure Mesh where
  id : List String
  edges : Nat → Nat → UInt32

namespace Mesh

/-- `RR_MESH_MAX_NODES`. -/
def maxNodes : Nat := 256

def uint64Max : Nat := 2 ^ 64 - 1

def uintMax : Nat := 2 ^ 32 - 1

/-- `rr_mesh_node_count`. -/
def count (m : Mesh) : Nat := m.id.length

/-- `m->id[i]`. -/
def idAt (m : Mesh) (i : Nat) : String := m.id.getD i ""

/-- `index_of`; `none` is -1. -/
def indexOf (m : Mesh) : Option String → Option Nat
  | none => none
  | some id => if id = "" then none else m.id.findIdx? (· == id)

/-- `index_add`. -/
def indexAdd (u : UuidFormat) (m : Mesh) (id : Option String) : Option Nat × Mesh :=
  match m.indexOf id with
  | some n => (some n, m)
  | none =>
      if !validId u id || m.count == maxNodes then (none, m)
      else (some m.count, { m with id := m.id ++ [id.getD ""] })

/-- `rr_mesh_new`; `none` is NULL. -/
def new (u : UuidFormat) (loc : Option String) : Option Mesh :=
  if !validId u loc then none else some (indexAdd u { id := [], edges := fun _ _ => 0 } loc).2

/-- `m->edge[x][y] = m->edge[y][x] = cost`. -/
def setEdge (m : Mesh) (x y : Nat) (cost : UInt32) : Mesh :=
  { m with edges := fun i j => if (i = x ∧ j = y) ∨ (i = y ∧ j = x) then cost else m.edges i j }

/-- `rr_mesh_edge`. -/
def edge (u : UuidFormat) (m : Mesh) (a b : Option String) (cost : UInt32) : Bool × Mesh :=
  if cost == 0 || !validId u a || !validId u b || a == b then (false, m)
  else if (m.indexOf a).isNone && m.count == maxNodes then (false, m)
  else if (m.indexOf b).isNone &&
      decide (maxNodes ≤ m.count + if (m.indexOf a).isNone then 1 else 0) then (false, m)
  else
    let (x, m₁) := indexAdd u m a
    let (y, m₂) := indexAdd u m₁ b
    match x, y with
    | some x, some y => (true, m₂.setEdge x y cost)
    | _, _ => (false, m₂)

/-- `rr_mesh_remove_edge`. -/
def removeEdge (m : Mesh) (a b : Option String) : Bool × Mesh :=
  match m.indexOf a, m.indexOf b with
  | some x, some y => if m.edges x y == 0 then (false, m) else (true, m.setEdge x y 0)
  | _, _ => (false, m)

/-- `rr_mesh_edge_cost`. -/
def edgeCost (m : Mesh) (a b : Option String) : UInt32 :=
  match m.indexOf a, m.indexOf b with
  | some x, some y => m.edges x y
  | _, _ => 0

/-- The working arrays of `dijkstra_excluding`. -/
structure Labels where
  dist : Nat → Nat
  hops : Nat → Nat
  first : Nat → Option Nat
  visited : Nat → Bool

/-- Before the first round only the local server is labelled. -/
def start : Labels where
  dist := Function.update (fun _ => uint64Max) 0 0
  hops := Function.update (fun _ => uintMax) 0 0
  first := fun _ => none
  visited := fun _ => false

/-- `i` is preferred to the open node found so far: it is nearer, or as near with a lesser id. -/
def preferred (m : Mesh) (s : Labels) (best : Option Nat) (i : Nat) : Bool :=
  match best with
  | none => true
  | some u => decide (s.dist i < s.dist u) ||
      (s.dist i == s.dist u && decide (m.idAt i < m.idAt u))

/-- The open node to settle next; `none` is the -1 that ends the rounds. -/
def select (m : Mesh) (s : Labels) : Option Nat :=
  (List.range m.count).foldl (fun u i =>
    if !s.visited i && s.dist i ≠ uint64Max && preferred m s u i then some i else u) none

/-- A candidate for `v` improves its cost, or only its hops, or only its first hop. -/
def improves (m : Mesh) (s : Labels) (v candidate nh hop : Nat) : Bool :=
  decide (candidate < s.dist v) || (candidate == s.dist v &&
    (decide (nh < s.hops v) || (nh == s.hops v &&
      (match s.first v with
        | none => true
        | some f => decide (m.idAt hop < m.idAt f)))))

/-- The body of the relaxation loop, for the settled node `u` and its neighbour `v`. -/
def relax (m : Mesh) (excluded : Option (Nat → Bool)) (u : Nat) (s : Labels) (v : Nat) : Labels :=
  let weight := (m.edges u v).toNat
  if weight == 0 || s.visited v || (u == 0 && excluded.any (· v)) ||
      decide (uint64Max - weight < s.dist u) then s
  else
    let candidate := (s.dist u + weight) % 2 ^ 64
    match (if u = 0 then some v else s.first u) with
    | none => s
    | some hop =>
        let nh := (s.hops u + 1) % 2 ^ 32
        if improves m s v candidate nh hop then
          { s with dist := Function.update s.dist v candidate
                   hops := Function.update s.hops v nh
                   first := Function.update s.first v (some hop) }
        else s

/-- `visited[u] = true`. -/
def visit (u : Nat) (s : Labels) : Labels := { s with visited := Function.update s.visited u true }

/-- The relaxation loop over `v` from 1. -/
def relaxAll (m : Mesh) (excluded : Option (Nat → Bool)) (u : Nat) (s : Labels) : Labels :=
  (List.range' 1 (m.count - 1)).foldl (relax m excluded u) s

/-- The rounds that are left, ending early when nothing labelled is open. -/
def rounds (m : Mesh) (excluded : Option (Nat → Bool)) : Nat → Labels → Labels
  | 0, s => s
  | left + 1, s =>
      match select m s with
      | none => s
      | some u => rounds m excluded left (relaxAll m excluded u (visit u s))

/-- `dijkstra_excluding`. -/
def dijkstraExcluding (m : Mesh) (destination : Option String) (excluded : Option (Nat → Bool)) :
    Option MeshRoute :=
  match m.indexOf destination with
  | none => none
  | some target =>
      if target = 0 then none
      else
        let s := rounds m excluded m.count start
        (s.first target).map fun f =>
          { nextHop := m.idAt f, cost := s.dist target, hops := s.hops target }

/-- The `route` entry of an `rr_mesh_router_t`. -/
abbrev Router := Mesh → Option String → Option MeshRoute

/-- `route_dijkstra`. -/
def routeDijkstra : Router := fun m destination => dijkstraExcluding m destination none

/-- `rr_mesh_route`, under the mesh's router. -/
def route (m : Mesh) (router : Option Router) (destination : Option String) : Option MeshRoute :=
  match destination with
  | none => none
  | some d =>
      match (router.getD routeDijkstra) m (some d) with
      | none => none
      | some proposed =>
          if m.edgeCost (some (m.idAt 0)) (some proposed.nextHop) == 0 || proposed.hops == 0 ||
              proposed.cost == 0 || d == m.idAt 0 then none
          else some proposed

/-- The loop of `rr_mesh_route_avoiding_many` over the hops to exclude; `none` is its failure. -/
def excludeHops (m : Mesh) : List (Option String) → (Nat → Bool) → Option (Nat → Bool)
  | [], excluded => some excluded
  | hop :: hops, excluded =>
      match m.indexOf hop with
      | none => none
      | some n =>
          if n = 0 || m.edges 0 n == 0 then none
          else excludeHops m hops (Function.update excluded n true)

/-- `rr_mesh_route_avoiding_many`, with what `*out` holds; `none` is a NULL of hops that are counted. -/
def routeAvoidingMany (m : Mesh) (destination : Option String)
    (excludedHops : Option (List (Option String))) (out : MeshRoute) : Bool × MeshRoute :=
  match destination, excludedHops with
  | some d, some hops =>
      if maxNodes < hops.length then (false, out)
      else
        match excludeHops m hops fun _ => false with
        | none => (false, out)
        | some excluded =>
            match dijkstraExcluding m (some d) (some excluded) with
            | none => (false, out)
            | some proposal =>
                if m.edgeCost (some (m.idAt 0)) (some proposal.nextHop) == 0 then (false, out)
                else (true, proposal)
  | _, _ => (false, out)

/-- One change of the topology. -/
inductive Op
  | edge (a b : Option String) (cost : UInt32)
  | removeEdge (a b : Option String)
deriving Repr

/-- The mesh a call leaves behind, accepted or rejected. -/
def apply (u : UuidFormat) (m : Mesh) : Op → Mesh
  | .edge a b cost => (edge u m a b cost).2
  | .removeEdge a b => (removeEdge m a b).2

/-- The mesh any finite sequence of calls leaves behind. -/
def run (u : UuidFormat) (m : Mesh) (ops : List Op) : Mesh := ops.foldl (apply u) m

end Mesh

end RustyRig
