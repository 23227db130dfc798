/-
Server links: the part of `rrserver/link.c` that keeps the link tree.

A session with another server says hello, exchanges snapshots of the two trees,
confirms with `ready` and is then established.  From there on it carries
introductions and withdrawals, which change the tree and are passed on to every other
established session.  A link that becomes established publishes its whole branch to
the others; one that is lost withdraws it.

`links` is a state with the frames the last step sent at its end, in the order of
sending.  A session is known by the number of its opening, which stands for its
address.  Authentication, access control and the tie-break between two attempts are
one verdict that comes with a hello; timeouts, transport errors and an administrator's
refusal are the event `fail`.  The text encodings of the frames, the mesh table, the
logs and the health records do not enter the tree and are left out.
-/
import Mathlib.Logic.Function.Iterate
import RustyRig.Rrserver.LinkTree

namespace RustyRig

/-- `struct link_peer`, what topology policy reads of it. -/
structure LinkPeer where
  site : String
  allowedSites : String
  leafOnly : Bool
  maxDepth : Nat
deriving DecidableEq, Repr, Inhabited

/-- `struct link_session`. -/
structure LinkSession where
  id : Nat
  peer : LinkPeer
  node : String
  generation : UInt32
  hello : Bool
  identitySeen : Bool
  snapshot : Bool
  admitted : Bool
  ready : Bool
  established : Bool
  closing : Bool
deriving DecidableEq, Repr

/-- The frames that concern the tree. -/
inductive LinkFrame
  | snapshot (nodes : List LinkNodeT)
  | ready
  | introduce (node parent site : String)
  | withdraw (node : String)
deriving DecidableEq, Repr

/-- `struct rr_links`, and the frames sent since `sent` was last emptied. -/
structure Links where
  node : String
  tree : LinkTree
  generation : UInt32
  sessions : List LinkSession
  opened : Nat
  sent : List (Nat × LinkFrame)
deriving DecidableEq, Repr

namespace Links

/-- `MAX_SESSIONS`. -/
def maxSessions : Nat := 32

/-! ### Topology policy -/

def separator (c : Char) : Bool := c == ',' || c == ' ' || c == '\t' || c == '\r' || c == '\n'

/-- The words `site_permitted` compares with; a list that ends in a separator ends in an
empty word. -/
def siteWords (allowed : List Char) : List (List Char) :=
  let words := allowed.splitOnP separator
  (words.dropLast.filter fun w => !w.isEmpty) ++ words.getLast?.toList

/-- `site_permitted`. -/
def sitePermitted (peer : LinkPeer) (site : String) : Bool :=
  peer.allowedSites == "" || (siteWords peer.allowedSites.toList).contains site.toList

/-- The inner loop of `snapshot_policy`, with the turns it has left. -/
def snapshotDepth (nodes : List LinkNodeT) (root : String) :
    Nat → Option String → Nat → Option String × Nat
  | 0, parent, depth => (parent, depth)
  | _ + 1, none, depth => (none, depth)
  | turns + 1, some p, depth =>
      if p = root then (some p, depth + 1)
      else snapshotDepth nodes root turns
        ((nodes.find? (·.server == some p)).bind (·.parent)) (depth + 1)

/-- `snapshot_policy`. -/
def snapshotPolicy (peer : LinkPeer) (nodes : List LinkNodeT) (root : String) : Bool :=
  !(peer.leafOnly && nodes.length != 1) &&
    nodes.all fun n =>
      n.server == some root ||
        (sitePermitted peer (n.site.getD "") &&
          let (parent, depth) := snapshotDepth nodes root (nodes.length + 1) n.parent 0
          parent.isSome && decide (depth ≤ nodes.length) &&
            (peer.maxDepth == 0 || decide (depth ≤ peer.maxDepth)))

/-- The loop of `introduction_policy`, with the turns it has left; `none` is its early return. -/
def introductionDepth (t : LinkTree) (root : String) :
    Nat → Option String → Nat → Option (Option String × Nat)
  | 0, current, depth => some (current, depth)
  | _ + 1, none, depth => some (none, depth)
  | turns + 1, some c, depth =>
      if c = root then some (some c, depth)
      else
        match (t.indexOf c).bind t.node with
        | none => none
        | some n => introductionDepth t root turns n.parent (depth + 1)

/-- `introduction_policy`. -/
def introductionPolicy (t : LinkTree) (x : LinkSession) (site parent : String) : Bool :=
  !x.peer.leafOnly && sitePermitted x.peer site &&
    match introductionDepth t x.node t.count (some parent) 1 with
    | none => false
    | some (current, depth) =>
        current.isSome && decide (depth ≤ t.count + 1) &&
          (x.peer.maxDepth == 0 || decide (depth ≤ x.peer.maxDepth))

/-! ### Sessions -/

def session (s : Links) (id : Nat) : Option LinkSession := s.sessions.find? (·.id == id)

/-- Changes one session in place. -/
def modify (s : Links) (id : Nat) (f : LinkSession → LinkSession) : Links :=
  { s with sessions := s.sessions.map fun x => if x.id = id then f x else x }

/-- `new_session`. -/
def newSession (s : Links) : Links :=
  if maxSessions ≤ s.sessions.length then s
  else
    { s with
      opened := s.opened + 1
      sessions := { id := s.opened, peer := default, node := "", generation := 0, hello := false,
                    identitySeen := false, snapshot := false, admitted := false, ready := false,
                    established := false, closing := false } :: s.sessions }

/-- `fail`. -/
def fail (s : Links) (id : Nat) : Links := s.modify id fun x => { x with closing := true }

/-- `send_message`. -/
def sendMessage (s : Links) (id : Nat) (f : LinkFrame) : Links :=
  if s.sessions.any fun x => x.id == id && !x.closing then { s with sent := s.sent ++ [(id, f)] }
  else s

/-- `broadcast`. -/
def broadcast (s : Links) (exclude : Nat) (f : LinkFrame) : Links :=
  { s with
    sent := s.sent ++
      (s.sessions.filter fun x => x.id != exclude && x.established && !x.closing).map
        fun x => (x.id, f) }

/-! ### Admission -/

/-- The node list `send_snapshot` writes. -/
def snapshotNodes (t : LinkTree) : List LinkNodeT := (List.range t.count).filterMap t.node

/-- `send_snapshot`. -/
def sendSnapshot (s : Links) (id : Nat) : Links :=
  (s.modify id fun x => { x with generation := s.generation }).sendMessage id
    (.snapshot (snapshotNodes s.tree))

/-- One pass of `establish` over the table: which indices are sent, and the nodes announced. -/
def publishPass (t : LinkTree) (node : String) :
    List (LinkNode × Nat) → (Nat → Bool) × List LinkNode → (Nat → Bool) × List LinkNode
  | [], st => st
  | (n, i) :: rest, (sent, out) =>
      if sent i || t.route (some n.server) != some node then publishPass t node rest (sent, out)
      else if t.route (some n.parent) != some node ||
          t.nodes.zipIdx.tail.any fun e => e.1.server == n.parent && sent e.2 then
        publishPass t node rest (Function.update sent i true, out ++ [n])
      else publishPass t node rest (sent, out)

/-- The nodes `establish` announces, in its order. -/
def publication (t : LinkTree) (node : String) : List LinkNode :=
  (Nat.iterate (publishPass t node t.nodes.zipIdx.tail) t.count (fun _ => false, [])).2

/-- `announce_node`. -/
def announceNode (exclude : Nat) (s : Links) (n : LinkNode) : Links :=
  s.broadcast exclude (.introduce n.server n.parent n.site)

/-- `establish`. -/
def establish (s : Links) (id : Nat) : Links :=
  match s.session id with
  | none => s
  | some x =>
      if !x.identitySeen || !x.snapshot || !x.ready || x.established then s
      else (publication s.tree x.node).foldl (announceNode id)
        (s.modify id fun x => { x with established := true })

/-- `handle_hello`; `accepted` is the verdict on everything but the joining of networks. -/
def handleHello (u : UuidFormat) (s : Links) (id : Nat) (peer : LinkPeer) (node : String)
    (accepted : Bool) : Links :=
  match s.session id with
  | none => s
  | some x =>
      if x.closing then s
      else if x.hello || !u.valid node || node == s.node || !accepted then s.fail id
      else if s.sessions.any fun y =>
          y.id != id && !y.established && (y.admitted || (y.hello && !y.closing)) then s.fail id
      else (s.modify id fun x =>
        { x with peer := peer, node := node, hello := true, identitySeen := true }).sendSnapshot id

/-- The first loop of `handle_snapshot` over the nodes: the peer is among them, under its own
station name. -/
def namedPeer (x : LinkSession) (nodes : List LinkNodeT) : Bool :=
  match nodes.find? (·.server == some x.node) with
  | some n => n.site == some x.peer.site
  | none => false

/-- `handle_snapshot`. -/
def handleSnapshot (u : UuidFormat) (s : Links) (x : LinkSession) (nodes : List LinkNodeT) : Links :=
  if !x.hello || !x.identitySeen || x.snapshot || x.generation != s.generation then s.fail x.id
  else
    let nodes := if 256 < nodes.length then [] else nodes
    if namedPeer x nodes && !snapshotPolicy x.peer nodes x.node then s.fail x.id
    else if !namedPeer x nodes then s.fail x.id
    else
      match LinkTree.attach u s.tree (some x.node) nodes with
      | (.ok, tree) =>
          (({ s with tree := tree, generation := s.generation + 1 }.modify x.id fun x =>
            { x with admitted := true, snapshot := true }).sendMessage x.id .ready).establish x.id
      | _ => s.fail x.id

/-! ### Frames and loss -/

/-- `handle_frame`, which the transport calls for a session that is not closing. -/
def handleFrame (u : UuidFormat) (s : Links) (id : Nat) (f : LinkFrame) : Links :=
  match s.session id with
  | none => s
  | some x =>
      if x.closing then s
      else
        match f with
        | .snapshot nodes => handleSnapshot u s x nodes
        | .ready =>
            if x.hello && !x.ready then
              if !x.snapshot || s.generation != x.generation + 1 then s.fail id
              else (s.modify id fun x => { x with ready := true }).establish id
            else s.fail id
        | .introduce node parent site =>
            if !x.established then s.fail id
            else if !introductionPolicy s.tree x site parent then s.fail id
            else
              match LinkTree.add u s.tree (some x.node) (some node) (some parent) (some site) with
              | (.ok, tree) =>
                  { s with tree := tree, generation := s.generation + 1 }.broadcast id
                    (.introduce node parent site)
              | _ => s.fail id
        | .withdraw node =>
            if !x.established then s.fail id
            else if node == x.node then s.fail id
            else
              match LinkTree.remove s.tree (some x.node) (some node) with
              | (true, tree) =>
                  { s with tree := tree, generation := s.generation + 1 }.broadcast id
                    (.withdraw node)
              | (false, _) => s.fail id

/-- `close_session`. -/
def closeSession (s : Links) (id : Nat) : Links :=
  match s.session id with
  | none => s
  | some x =>
      let s :=
        if x.admitted then
          let s := { s with tree := (LinkTree.remove s.tree (some x.node) (some x.node)).2
                            generation := s.generation + 1 }
          if x.established then s.broadcast id (.withdraw x.node) else s
        else s
      { s with sessions := s.sessions.filter fun y => y.id != id }

/-! ### One server -/

/-- `rrserver_links_init`: the tree of the local server and its station name. -/
def init (u : UuidFormat) (node : String) (limit : Nat) (site : String) : Option Links :=
  match LinkTree.new u (some node) limit with
  | none => none
  | some t =>
      if LinkTree.validSite (some site) then
        some { node := node, tree := { t with nodes := t.nodes.map fun n => { n with site := site } }
               generation := 0, sessions := [], opened := 0, sent := [] }
      else none

/-- What can happen at a server. -/
inductive Event
  | newSession
  | hello (id : Nat) (peer : LinkPeer) (node : String) (accepted : Bool)
  | frame (id : Nat) (f : LinkFrame)
  | fail (id : Nat)
  | close (id : Nat)
deriving Repr

def handle (u : UuidFormat) (s : Links) : Event → Links
  | .newSession => s.newSession
  | .hello id peer node accepted => s.handleHello u id peer node accepted
  | .frame id f => s.handleFrame u id f
  | .fail id => s.fail id
  | .close id => s.closeSession id

/-- One event; what it sends is in `sent`. -/
def step (u : UuidFormat) (s : Links) (e : Event) : Links := handle u { s with sent := [] } e

def run (u : UuidFormat) (s : Links) (es : List Event) : Links := es.foldl (step u) s

/-! ### Two servers and the channel from one to the other -/

/-- A sender, a receiver, and the frames on their way. -/
structure Pair where
  sender : Links
  receiver : Links
  inFlight : List LinkFrame
deriving DecidableEq, Repr

/-- The identity format, and the session of each server with the other. -/
structure Ends where
  uuid : UuidFormat
  toReceiver : Nat
  toSender : Nat

inductive PairEvent
  | atSender (e : Event)
  | atReceiver (e : Event)
  | deliver
deriving Repr

/-- What the last step sent to one session. -/
def posted (s : Links) (id : Nat) : List LinkFrame := (s.sent.filter (·.1 == id)).map (·.2)

namespace Pair

def step (c : Ends) (st : Pair) : PairEvent → Pair
  | .atSender e =>
      let s := Links.step c.uuid st.sender e
      { st with sender := s, inFlight := st.inFlight ++ s.posted c.toReceiver }
  | .atReceiver e => { st with receiver := Links.step c.uuid st.receiver e }
  | .deliver =>
      match st.inFlight with
      | [] => st
      | f :: rest =>
          { st with receiver := Links.step c.uuid st.receiver (.frame c.toSender f)
                    inFlight := rest }

def run (c : Ends) (st : Pair) (es : List PairEvent) : Pair := es.foldl (step c) st

/-- The two servers once each has handled the other's snapshot and `ready`, which it does
only if nothing but the other's branch came into its tree since its own snapshot went out. -/
def join (c : Ends) (s r : Links) : Pair where
  sender := Links.run c.uuid s [.frame c.toReceiver (.snapshot (snapshotNodes r.tree)),
    .frame c.toReceiver .ready]
  receiver := Links.run c.uuid r [.frame c.toSender (.snapshot (snapshotNodes s.tree)),
    .frame c.toSender .ready]
  inFlight := []

end Pair

end Links

end RustyRig

/-!
The text of a snapshot frame.

`rrserver/link.c` writes the nodes of its tree into one text and reads such a text back:
entries separated by spaces, the fields of an entry by commas, the site in hexadecimal, and a
dash for the parent of the local server.  A C string is the list of its bytes, without the
terminating zero; the servers and sites of the tree are texts, and their bytes are UTF-8.
-/

namespace RustyRig

namespace LinkSnapshot

/-- The bytes of a text. -/
def bytes (s : String) : List UInt8 := s.toList.flatMap String.utf8EncodeChar

/-- `rr_link_node_t` in bytes, where server and site are present. -/
structure Node where
  server : List UInt8
  parent : Option (List UInt8)
  site : List UInt8
deriving DecidableEq, Repr

def nodeBytes (n : LinkNodeT) : Node :=
  ⟨bytes (n.server.getD ""), n.parent.map bytes, bytes (n.site.getD "")⟩

/-! ### Sites -/

/-- `hex[n]`. -/
def hexDigit (n : Nat) : UInt8 := UInt8.ofNat (if n < 10 then 48 + n else 87 + n)

/-- `encode_site`. -/
def encodeSite (site : List UInt8) : List UInt8 :=
  site.flatMap fun c => [hexDigit (c.toNat / 16), hexDigit (c.toNat % 16)]

/-- A digit of `decode_site`; `none` is -1. -/
def hexValue (a : UInt8) : Option Nat :=
  if 48 ≤ a.toNat ∧ a.toNat ≤ 57 then some (a.toNat - 48)
  else if 97 ≤ a.toNat ∧ a.toNat ≤ 102 then some (a.toNat - 97 + 10)
  else none

/-- The loop of `decode_site`. -/
def decodePairs : List UInt8 → Option (List UInt8)
  | a :: b :: rest =>
      match hexValue a, hexValue b with
      | some hi, some lo =>
          if hi * 16 + lo = 0 then none
          else (decodePairs rest).map (UInt8.ofNat (hi * 16 + lo) :: ·)
      | _, _ => none
  | _ => some []

/-- `decode_site`. -/
def decodeSite (hex : List UInt8) (capacity : Nat) : Option (List UInt8) :=
  if hex.length = 0 ∨ hex.length % 2 = 1 ∨ capacity ≤ hex.length / 2 then none else decodePairs hex

/-! ### The text -/

def space : UInt8 := 32

def comma : UInt8 := 44

def dash : List UInt8 := [45]

/-- What `send_snapshot` writes for one node, without the space in front. -/
def entry (n : Node) : List UInt8 :=
  n.server ++ comma :: n.parent.getD dash ++ comma :: encodeSite n.site

/-- The loop of `send_snapshot` after the first node; `none` is "Topology snapshot too large". -/
def writeRest (capacity : Nat) : List UInt8 → List Node → Option (List UInt8)
  | text, [] => some text
  | text, n :: rest =>
      let added := space :: entry n
      if capacity - text.length ≤ added.length then none else writeRest capacity (text ++ added) rest

/-- The loop of `send_snapshot`. -/
def write (capacity : Nat) : List Node → Option (List UInt8)
  | [] => some []
  | n :: rest => if capacity ≤ (entry n).length then none else writeRest capacity (entry n) rest

/-- The "nodes" of the frame that `send_snapshot` builds. -/
def sendSnapshot (t : LinkTree) : Option (List UInt8) :=
  write (t.count * 332 + 1) ((Links.snapshotNodes t).map nodeBytes)

/-- `strchr`, with the text before the byte and the one after it. -/
def cut (c : UInt8) : List UInt8 → Option (List UInt8 × List UInt8)
  | [] => none
  | a :: rest => if a = c then some ([], rest) else (cut c rest).map fun r => (a :: r.1, r.2)

/-- The words of `strtok_r`. -/
def tokens (text : List UInt8) : List (List UInt8) := (text.splitOn space).filter (· ≠ [])

/-- One turn of the loop of `handle_snapshot`. -/
def readEntry (p : List UInt8) : Option Node :=
  match cut comma p with
  | none => none
  | some (server, rest) =>
      match cut comma rest with
      | none => none
      | some (parent, hex) =>
          (decodeSite hex 128).map fun site => ⟨server, if parent = dash then none else some parent, site⟩

/-- The loop of `handle_snapshot`, with the nodes read so far. -/
def readRest : List Node → List (List UInt8) → List Node
  | nodes, [] => nodes
  | nodes, p :: rest =>
      if nodes.length = 256 then []
      else
        match readEntry p with
        | none => []
        | some n => readRest (nodes ++ [n]) rest

/-- The nodes that `handle_snapshot` reads. -/
def handleSnapshot (text : List UInt8) : List Node := readRest [] (tokens text)

end LinkSnapshot

end RustyRig
