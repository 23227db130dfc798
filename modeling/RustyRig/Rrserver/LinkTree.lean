/-
The link tree of `rrserver/link.tree.c`.

One table of servers, node 0 being the local one.  Every other node names the
server it hangs off and the direct peer its branch is reached through.  `attach`
admits a whole offered component or nothing; `add` extends one peer's own branch by
one server; `remove` withdraws a server and everything below it.

The C array and its `count` are a list and its length.  Pointers into the array are
either the node itself or, where `remove` subtracts pointers, its index.
-/
import RustyRig.Rrserver.Uuid
import Mathlib.Logic.Function.Basic

namespace RustyRig

/-- `struct link_node`. -/
structure LinkNode where
  server : String
  parent : String
  peer : String
  site : String
deriving DecidableEq, Repr

/-- `rr_link_node_t`, how a caller names a node: any of the pointers may be NULL. -/
structure LinkNodeT where
  server : Option String
  parent : Option String
  site : Option String
deriving DecidableEq, Repr

/-- `rr_link_result_t`. -/
inductive LinkResult
  | ok
  | invalid
  | overlap
  | limit
deriving DecidableEq, Repr

/-- `struct rr_link_tree`. -/
structure LinkTree where
  nodes : List LinkNode
  limit : Nat
deriving DecidableEq, Repr

namespace LinkTree

/-- `valid_site`: present, shorter than its buffer, no control character. -/
def validSite : Option String → Bool
  | none => false
  | some site =>
      site ≠ "" && decide (site.utf8ByteSize < 128) &&
        site.toList.all fun c => !(decide (c.toNat < 32) || c.toNat == 127)

/-- `rr_link_tree_count`. -/
def count (t : LinkTree) : Nat := t.nodes.length

/-- `find`: the node with this server id. -/
def find (t : LinkTree) (id : Option String) : Option LinkNode :=
  id.bind fun s => t.nodes.find? (·.server == s)

/-- `find(tree, id) - tree->nodes`. -/
def indexOf (t : LinkTree) (id : String) : Option Nat :=
  t.nodes.findIdx? (·.server == id)

/-- `tree->nodes[0].server`. -/
def localServer (t : LinkTree) : String := (t.nodes.head?.map (·.server)).getD ""

/-- `rr_link_tree_new`; `none` is NULL. -/
def new (u : UuidFormat) (loc : Option String) (limit : Nat) : Option LinkTree :=
  if !validId u loc || limit == 0 || decide (256 < limit) then none
  else some { nodes := [{ server := loc.getD "", parent := "", peer := "", site := "" }],
              limit := limit }

/-- `rr_link_tree_set_local_site`. -/
def setLocalSite (t : LinkTree) (site : Option String) : Bool × LinkTree :=
  match site with
  | none => (false, t)
  | some s =>
      if validSite (some s) then (true, { t with nodes := t.nodes.modifyHead ({ · with site := s }) })
      else (false, t)

/-- `rr_link_tree_node`. -/
def node (t : LinkTree) (index : Nat) : Option LinkNodeT :=
  t.nodes[index]?.map fun n =>
    { server := some n.server, parent := if index = 0 then none else some n.parent,
      site := some n.site }

/-- The first loop of `rr_link_tree_attach`; returns the number of roots seen. -/
def scan (u : UuidFormat) (t : LinkTree) (peer : String) :
    List LinkNodeT → List LinkNodeT → Nat → Except LinkResult Nat
  | _, [], roots => .ok roots
  | seen, n :: rest, roots =>
      if !validId u n.server || !validSite n.site then .error .invalid
      else if (t.find n.server).isSome then .error .overlap
      else if seen.any (·.server == n.server) then .error .overlap
      else if n.server == some peer then
        if n.parent.isSome then .error .invalid else scan u t peer (seen ++ [n]) rest (roots + 1)
      else if !validId u n.parent then .error .invalid
      else scan u t peer (seen ++ [n]) rest roots

/-- The bounded parent walk of `rr_link_tree_attach`, with `steps` of them left. -/
def walk (nodes : List LinkNodeT) (peer : String) : Nat → String → Bool
  | steps, id =>
      if id = peer then true
      else
        match steps with
        | 0 => false
        | steps + 1 =>
            match nodes.find? (·.server == some id) with
            | none => false
            | some n =>
                match n.parent with
                | none => false
                | some parent => walk nodes peer steps parent

/-- What `rr_link_tree_attach` appends for one offered node. -/
def admitted (t : LinkTree) (peer : String) (n : LinkNodeT) : LinkNode :=
  { server := n.server.getD "", parent := n.parent.getD t.localServer, peer := peer,
    site := n.site.getD "" }

/-- `rr_link_tree_attach`.  An absent or empty `nodes` array is the empty list. -/
def attach (u : UuidFormat) (t : LinkTree) (peer : Option String) (nodes : List LinkNodeT) :
    LinkResult × LinkTree :=
  match peer with
  | none => (.invalid, t)
  | some p =>
      if !validId u (some p) || nodes.isEmpty then (.invalid, t)
      else if t.limit - t.count < nodes.length then (.limit, t)
      else
        match scan u t p [] nodes 0 with
        | .error e => (e, t)
        | .ok roots =>
            if roots ≠ 1 then (.invalid, t)
            else if nodes.all fun n => walk nodes p nodes.length (n.server.getD "") then
              (.ok, { t with nodes := t.nodes ++ nodes.map (t.admitted p) })
            else (.invalid, t)

/-- `rr_link_tree_add`. -/
def add (u : UuidFormat) (t : LinkTree) (peer server parent site : Option String) :
    LinkResult × LinkTree :=
  match peer, server, parent, site with
  | some p, some s, some q, some w =>
      if !validId u peer || !validId u server || !validId u parent || !validSite site then
        (.invalid, t)
      else
        match t.find parent, t.find peer with
        | some owner, some source =>
            if source.peer ≠ p || source.server ≠ source.peer || owner.peer ≠ p then (.invalid, t)
            else if (t.find server).isSome then (.overlap, t)
            else if t.count == t.limit then (.limit, t)
            else (.ok, { t with nodes := t.nodes ++
                    [{ server := s, parent := q, peer := p, site := w }] })
        | _, _ => (.invalid, t)
  | _, _, _, _ => (.invalid, t)

/-- `rr_link_tree_route`: the direct peer towards a server, NULL for unknown or local. -/
def route (t : LinkTree) (server : Option String) : Option String :=
  match t.find server with
  | some n => if n.peer = "" then none else some n.peer
  | none => none

/-- One sweep of `rr_link_tree_remove` over the nodes still to look at. -/
def sweep (t : LinkTree) : List (LinkNode × Nat) → (Nat → Bool) × Bool → (Nat → Bool) × Bool
  | [], st => st
  | (n, i) :: rest, (removed, changed) =>
      if removed i then sweep t rest (removed, changed)
      else
        match t.indexOf n.parent with
        | some j =>
            if removed j then sweep t rest (Function.update removed i true, true)
            else sweep t rest (removed, changed)
        | none => sweep t rest (removed, changed)

/-- The `do … while (changed)` loop.  Every sweep but the last marks a node, so `count`
sweeps always suffice; `markAll_fixpoint` is the proof. -/
def markAll (t : LinkTree) : Nat → (Nat → Bool) → (Nat → Bool)
  | 0, removed => removed
  | fuel + 1, removed =>
      let st := sweep t t.nodes.zipIdx.tail (removed, false)
      if st.2 then markAll t fuel st.1 else st.1

/-- The compaction: keep what is not marked, in order. -/
def compact (t : LinkTree) (removed : Nat → Bool) : List LinkNode :=
  (t.nodes.zipIdx.filter fun e => !removed e.2).map (·.1)

/-- `rr_link_tree_remove`. -/
def remove (t : LinkTree) (peer server : Option String) : Bool × LinkTree :=
  match t.find server, peer, server.bind t.indexOf with
  | some n, some p, some i =>
      if n.peer = "" || n.peer ≠ p then (false, t)
      else
        let removed := markAll t t.count (Function.update (fun _ => false) i true)
        (true, { t with nodes := compact t removed })
  | _, _, _ => (false, t)

/-- One call on a tree. -/
inductive Op
  | attach (peer : Option String) (nodes : List LinkNodeT)
  | add (peer server parent site : Option String)
  | remove (peer server : Option String)
deriving Repr

/-- The tree a call leaves behind, accepted or rejected. -/
def apply (u : UuidFormat) (t : LinkTree) : Op → LinkTree
  | .attach peer nodes => (attach u t peer nodes).2
  | .add peer server parent site => (add u t peer server parent site).2
  | .remove peer server => (remove t peer server).2

/-- The tree any finite sequence of calls leaves behind. -/
def run (u : UuidFormat) (t : LinkTree) (ops : List Op) : LinkTree := ops.foldl (apply u) t

end LinkTree

end RustyRig
