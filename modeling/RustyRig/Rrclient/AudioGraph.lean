/-
The client's audio routing graph (`rrclient/audio.graph.c`).

Nodes and links are arrays; a link holds the indices of its ends.  A node is added under a name of
its own, a link where it closes no cycle and feeds no input twice.  Whether it closes one is
searched for with a queue on the stack, which holds 256 indices; writing past it would be the end
of the program, so a call then has no outcome.
-/
import RustyRig.Lib.Frontier

namespace RustyRig

namespace AudioGraph

open Lib (Frontier)

/-- A C string, without its terminator. -/
abbrev Id := List UInt8

/-- `rr_ag_node_type_t`. -/
inductive NodeType
  | source
  | processor
  | mixer
  | sink
deriving DecidableEq, Repr

/-- `rr_ag_link_type_t`. -/
inductive LinkType
  | normal
  | bypass
deriving DecidableEq, Repr

/-- `rr_ag_health_t`. -/
inductive Health
  | stopped
  | starting
  | healthy
  | failed
deriving DecidableEq, Repr

/-- A caller's number for a type; there are no others. -/
def NodeType.ofNat? : Nat → Option NodeType
  | 0 => some .source
  | 1 => some .processor
  | 2 => some .mixer
  | 3 => some .sink
  | _ => none

def LinkType.ofNat? : Nat → Option LinkType
  | 0 => some .normal
  | 1 => some .bypass
  | _ => none

def Health.ofNat? : Nat → Option Health
  | 0 => some .stopped
  | 1 => some .starting
  | 2 => some .healthy
  | 3 => some .failed
  | _ => none

/-- `rr_ag_node_t`. -/
structure Node where
  id : Id
  type : NodeType
  health : Health
  route : UInt8
deriving DecidableEq, Repr

/-- `rr_ag_edge_t`. -/
structure Edge where
  src : Nat
  dst : Nat
  type : LinkType
  channels : UInt32
deriving DecidableEq, Repr

/-- `struct rr_audio_graph`. -/
structure Graph where
  nodes : List Node
  edges : List Edge
deriving DecidableEq, Repr

def Graph.new : Graph := { nodes := [], edges := [] }

/-- `lookup`: the index of the node of this name. -/
def lookup (g : Graph) (id : Option Id) : Option Nat :=
  id.bind fun id => g.nodes.findIdx? fun n => n.id == id

/-- `rr_audio_graph_add_node`. -/
def addNode (g : Graph) (id : Option Id) (type : Nat) : Bool × Graph :=
  match id, NodeType.ofNat? type with
  | some name, some type =>
      if name.isEmpty || decide (64 ≤ name.length) || (lookup g id).isSome || decide (256 ≤ g.nodes.length) then
        (false, g)
      else (true, { g with nodes := g.nodes ++ [{ id := name, type := type, health := .stopped, route := 0 }] })
  | _, _ => (false, g)

/-- `graph_reaches`. -/
def graphReaches (g : Graph) (start target : Nat) : Option Bool :=
  Frontier.search 256 (g.edges.map fun e => (e.src, e.dst)) target 257 0 (.single start)

/-- Whether the input is taken: by the same link, or by any at a node that does not mix. -/
def taken (g : Graph) (a b : Nat) (into : Node) (type : LinkType) : Bool :=
  g.edges.any fun e =>
    (e.src == a && e.dst == b && e.type == type) || (into.type != .mixer && e.dst == b && e.type == type)

/-- `rr_audio_graph_add_channel_link`. -/
def addChannelLink (g : Graph) (src dst : Option Id) (type : Nat) (channels : UInt32) : Option (Bool × Graph) :=
  match lookup g src, lookup g dst, LinkType.ofNat? type with
  | some a, some b, some type =>
      if a == b || channels == 0 || channels &&& ~~~3 != 0 || decide (512 ≤ g.edges.length) then some (false, g)
      else
        match g.nodes[a]?, g.nodes[b]? with
        | some source, some into =>
            if source.type = .sink ∨ into.type = .source then some (false, g)
            else
              (graphReaches g b a).map fun reaches =>
                if reaches || taken g a b into type then (false, g)
                else (true, { g with edges := g.edges ++ [{ src := a, dst := b, type := type, channels := channels }] })
        | _, _ => none
  | _, _, _ => some (false, g)

/-- `rr_audio_graph_set_health`. -/
def setHealth (g : Graph) (id : Option Id) (health : Nat) : Bool × Graph :=
  match lookup g id, Health.ofNat? health with
  | some i, some health => (true, { g with nodes := g.nodes.modify i ({ · with health := health }) })
  | _, _ => (false, g)

/-- `rr_audio_graph_set_route`; the search for the letter finds the terminator too. -/
def setRoute (g : Graph) (id : Option Id) (route : UInt8) : Bool × Graph :=
  match lookup g id with
  | some i =>
      if [76, 82, 83, 77, 0].contains route then
        (true, { g with nodes := g.nodes.modify i ({ · with route := route }) })
      else (false, g)
  | none => (false, g)

/-- The source of the last link of a type into a node. -/
def feeding (g : Graph) (index : Nat) (type : LinkType) : Option Node :=
  ((g.edges.filter fun e => e.dst == index && e.type == type).getLast?).bind fun e => g.nodes[e.src]?

/-- `rr_audio_graph_input`. -/
def input (g : Graph) (dst : Option Id) : Option Id :=
  match lookup g dst with
  | none => none
  | some index =>
      if g.nodes[index]?.any fun n => n.type == .mixer then none
      else
        match feeding g index .normal with
        | none => none
        | some normal =>
            if normal.health ≠ .failed then some normal.id
            else
              match feeding g index .bypass with
              | none => none
              | some fallback => if fallback.health = .healthy then some fallback.id else none

/-! ### Runs -/

inductive Event where
  | addNode (id : Option Id) (type : Nat)
  | addLink (src dst : Option Id) (type : Nat) (channels : UInt32)
  | setHealth (id : Option Id) (health : Nat)
  | setRoute (id : Option Id) (route : UInt8)

def step (g : Graph) : Event → Option (Bool × Graph)
  | .addNode id type => some (addNode g id type)
  | .addLink src dst type channels => addChannelLink g src dst type channels
  | .setHealth id health => some (setHealth g id health)
  | .setRoute id route => some (setRoute g id route)

def run (g : Graph) (events : List Event) : Option Graph :=
  events.foldlM (fun g event => (step g event).map (·.2)) g

end AudioGraph

end RustyRig
