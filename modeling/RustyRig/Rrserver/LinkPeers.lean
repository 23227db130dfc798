/-
The direct peers of a server: `rrserver/link.native.c`, and of `rrserver/link.c` the peer
table, the dials, the hellos with their tie-break, the messages for the relay and the mesh
graph.

A `Station` keeps all this around the sessions and the tree of `Links`.  What a session has
beyond the fields there (its direction, its peer, the identity it proved) is kept by the number
of its opening.  The proof of an identity is one event, and so are timeouts, transport errors and
the administrator; access control, the enrolment database, the retry clock and the suppressed
reconnect after a topology violation are answers that come with an event.  Native transports
authenticate TLS, so a session's TLS test passes.
-/
import RustyRig.Rrserver.Link
import RustyRig.Rrserver.LinkMesh

namespace RustyRig

/-- `struct link_peer`, what dials and hellos read of it beside its topology policy. -/
structure PeerEntry where
  policy : LinkPeer
  node : String
  enrolled : Bool
  url : String
  autoconnect : Bool
  catalogKey : Option String
  spki : String
  manuallyClosed : Bool
  session : Option Nat
deriving DecidableEq, Repr

/-- `struct rr_mesh_auth` once it is verified, and the TLS pin it was verified under. -/
structure PeerProof where
  node : String
  site : String
  publicKey : String
  pin : String
deriving DecidableEq, Repr

/-- What a hello is checked by; its password and clock sample are not. -/
structure LinkHello where
  domain : String
  node : String
  site : String
deriving DecidableEq, Repr

/-- `struct rr_links`, and the messages handed to the relay since `handed` was last emptied: the
session each came on and the origin it claimed. -/
structure Station where
  links : Links
  mesh : Mesh
  peers : List PeerEntry
  outbound : Nat → Bool
  peer : Nat → Option Nat
  auth : Nat → Option PeerProof
  handed : List (Nat × String)

namespace Station

/-- The configuration: `domain`, `station.name` and `links.max-depth`. -/
structure Config where
  uuid : UuidFormat
  domain : String
  site : String
  maxDepth : Nat

/-- `MAX_PEERS`. -/
def maxPeers : Nat := 16

/-- `fail_cause`. -/
def fail (st : Station) (id : Nat) : Station := { st with links := st.links.fail id }

/-- `close_session`. -/
def closeSession (st : Station) (id : Nat) : Station :=
  match st.links.session id with
  | none => st
  | some x =>
      { st with
        mesh := if x.established then
            (Mesh.removeEdge st.mesh (some st.links.node) (some x.node)).2
          else st.mesh
        links := st.links.closeSession id
        peers := match st.peer id with
          | none => st.peers
          | some i => st.peers.modify i fun p =>
              if p.session = some id then { p with session := none } else p }

/-! ### Connections -/

/-- `new_session`, with the fields its caller sets. -/
def newSession (st : Station) (outbound : Bool) (peer : Option Nat) : Station :=
  { st with
    links := st.links.newSession
    outbound := Function.update st.outbound st.links.opened outbound
    peer := Function.update st.peer st.links.opened peer
    auth := Function.update st.auth st.links.opened none }

/-- The dial of `rrserver_links_poll` for one peer; `due` is the rest of its condition. -/
def dial (st : Station) (i : Nat) (due connected : Bool) : Station :=
  match st.peers[i]? with
  | none => st
  | some p =>
      if p.spki == "" || p.catalogKey.isNone then st
      else if !due || p.manuallyClosed || !p.autoconnect || p.url == "" || p.session.isSome then st
      else if Links.maxSessions ≤ st.links.sessions.length then st
      else
        let id := st.links.opened
        let dialing := { st.newSession true (some i) with
          peers := st.peers.set i { p with session := some id } }
        if connected then dialing else dialing.closeSession id

/-- `rrserver_links_native_open`. -/
def nativeOpen (st : Station) : Station :=
  if Links.maxSessions ≤ st.links.sessions.length then st else st.newSession false none

/-- `native_identity_trusted`; `inDatabase` is what the enrolment database answers. -/
def identityTrusted (peers : List PeerEntry) (a : PeerProof) (inDatabase : Bool) : Bool :=
  inDatabase || peers.any fun p =>
    !p.enrolled && p.catalogKey == some a.publicKey && p.spki == a.pin &&
      (p.node == "" || p.node == a.node)

/-- What `authenticated_peer` writes into the entry it settles on. -/
def authenticate (a : PeerProof) (p : PeerEntry) : PeerEntry :=
  { p with
    policy := if p.enrolled then { p.policy with site := a.site } else p.policy
    node := a.node }

/-- The entry `authenticated_peer` makes for a server that has none. -/
def newEntry (c : Config) (a : PeerProof) : PeerEntry where
  policy := { site := "", allowedSites := "", leafOnly := false, maxDepth := c.maxDepth }
  node := ""
  enrolled := true
  url := ""
  autoconnect := false
  catalogKey := some a.publicKey
  spki := ""
  manuallyClosed := false
  session := none

/-- `authenticated_peer`: the peer's index and the table; `none` is NULL. -/
def authenticatedPeer (c : Config) (peers : List PeerEntry) (own : Option Nat) (a : PeerProof) :
    Option (Nat × List PeerEntry) :=
  if (own.bind (peers[·]?)).any fun p => p.node != a.node && p.node != "" then none
  else
    let place := own.orElse fun _ => peers.findIdx? fun p =>
      p.node == a.node || (!p.enrolled && p.policy.site == a.site)
    match place.bind fun i => (peers[i]?).map fun p => (i, p) with
    | some (i, p) =>
        if !p.enrolled && (p.policy.site != a.site || p.catalogKey != some a.publicKey) then none
        else some (i, peers.set i (authenticate a p))
    | none =>
        if maxPeers ≤ peers.length then none
        else some (peers.length, peers ++ [authenticate a (newEntry c a)])

/-- A peer's entry changed its station name; its sessions read it from there. -/
def renamePeer (st : Station) (i : Nat) (site : String) : Links :=
  { st.links with
    sessions := st.links.sessions.map fun x =>
      { x with peer := if st.peer x.id = some i then { x.peer with site := site } else x.peer } }

/-- The message branch of `native_callback` that ends an identity proof. -/
def authenticated (c : Config) (st : Station) (id : Nat) (a : PeerProof) (inDatabase : Bool) :
    Station :=
  match st.links.session id with
  | none => st
  | some x =>
      if x.closing || (st.auth id).isSome then st
      else if !identityTrusted st.peers a inDatabase then st.fail id
      else
        let st := { st with auth := Function.update st.auth id (some a) }
        match authenticatedPeer c st.peers (st.peer id) a with
        | none => st.fail id
        | some (i, peers) =>
            { st with
              peers := peers
              links := if (peers[i]?).any (·.enrolled) then st.renamePeer i a.site else st.links
              peer := Function.update st.peer id (some i) }

/-! ### Hellos -/

/-- The session the peer already has, if it is another and not closing. -/
def oldSession (st : Station) (id : Nat) (p : PeerEntry) : Option LinkSession :=
  (p.session.bind st.links.session).filter fun x => x.id != id && !x.closing

/-- The tie-break between two attempts is lost: the older session stays. -/
def tieLost (st : Station) (id : Nat) (node : String) (old : LinkSession) : Bool :=
  old.established ||
    let preferOutbound := decide (st.links.node < node)
    st.outbound old.id == preferOutbound || st.outbound id != preferOutbound

/-- Another admission is under way. -/
def joining (s : Links) (id : Nat) : Bool :=
  s.sessions.any fun y => y.id != id && !y.established && (y.admitted || (y.hello && !y.closing))

/-- The peer a hello belongs to: the session's own, or the one of that station name. -/
def helloPeer (st : Station) (id : Nat) (site : String) : Option Nat :=
  (st.peer id).orElse fun _ => st.peers.findIdx? fun p => p.policy.site == site

/-- The hello agrees with the identity proof and with the peer's entry. -/
def authentic (st : Station) (id : Nat) (p : PeerEntry) (h : LinkHello) : Bool :=
  (st.auth id).any (fun a => a.node == h.node && a.site == h.site) &&
    p.policy.site == h.site && (p.node == "" || p.node == h.node)

/-- `handle_hello`; `acl` is the verdict of access control. -/
def handleHello (c : Config) (st : Station) (id : Nat) (h : LinkHello) (acl : Bool) : Station :=
  match st.links.session id with
  | none => st
  | some x =>
      if x.closing || (st.auth id).isNone then st
      else if h.domain.map Char.toLower != c.domain.map Char.toLower then st.fail id
      else if x.hello || !c.uuid.valid h.node || h.node == st.links.node ||
          decide (128 ≤ h.site.utf8ByteSize) || h.site == c.site then st.fail id
      else
        match (st.helloPeer id h.site).bind fun i => (st.peers[i]?).map fun p => (i, p) with
        | none => st.fail id
        | some (i, p) =>
            if !st.authentic id p h || !acl || p.manuallyClosed then st.fail id
            else
              match st.oldSession id p with
              | some old =>
                  if st.tieLost id h.node old then st.fail id
                  else greet c (st.fail old.id) i p
              | none => greet c st i p
where
  /-- The rest of it, once the tie-break is won. -/
  greet (c : Config) (st : Station) (i : Nat) (p : PeerEntry) : Station :=
    if joining st.links id then st.fail id
    else
      { st with
        links := st.links.handleHello c.uuid id p.policy h.node true
        peers := st.peers.set i { p with session := some id }
        peer := Function.update st.peer id (some i) }

/-! ### Frames -/

/-- `establish` records the direct edge where it sets `established`; a mesh without room refuses
it and the session stays. -/
def recordEdge (c : Config) (st : Station) (links : Links) (id : Nat) : Mesh :=
  match st.links.session id, links.session id with
  | some x, some y =>
      if !x.established && y.established then
        (Mesh.edge c.uuid st.mesh (some links.node) (some y.node) 1).2
      else st.mesh
  | _, _ => st.mesh

/-- `handle_frame` for the frames that concern the tree. -/
def handleFrame (c : Config) (st : Station) (id : Nat) (f : LinkFrame) : Station :=
  if (st.auth id).isNone then st
  else
    let links := st.links.handleFrame c.uuid id f
    { st with links := links, mesh := st.recordEdge c links id }

/-- `handle_frame` for `link.application`. -/
def application (st : Station) (id : Nat) (origin : String) : Station :=
  match st.links.session id with
  | none => st
  | some x =>
      if x.closing || (st.auth id).isNone then st
      else if !x.established then st.fail id
      else if st.links.tree.route (some origin) != some x.node then st.fail id
      else { st with handed := st.handed ++ [(id, origin)] }

/-- `rrserver_links_send`: the session that a message for a server goes out on. -/
def carrier (s : Links) (node : String) : Option LinkSession :=
  (s.tree.route (some node)).bind fun next =>
    s.sessions.find? fun x => x.established && x.node == next

/-- `link_command`: an administrator opens or closes a peer. -/
def administer (st : Station) (i : Nat) (opens : Bool) : Station :=
  match st.peers[i]? with
  | none => st
  | some p =>
      if opens then
        if p.url == "" then st
        else { st with peers := st.peers.set i { p with manuallyClosed := false, autoconnect := true } }
      else
        let st := { st with peers := st.peers.set i { p with manuallyClosed := true } }
        match p.session with
        | none => st
        | some id => st.fail id

/-! ### One server -/

/-- `rrserver_links_init`, with the peers it loads. -/
def init (c : Config) (node : String) (limit : Nat) (peers : List PeerEntry) : Option Station :=
  match Links.init c.uuid node limit c.site, Mesh.new c.uuid (some node) with
  | some links, some mesh =>
      if maxPeers < peers.length then none
      else some { links := links, mesh := mesh, peers := peers, outbound := fun _ => false
                  peer := fun _ => none, auth := fun _ => none, handed := [] }
  | _, _ => none

/-- What can happen at a server. -/
inductive Event
  | dial (i : Nat) (due connected : Bool)
  | accept
  | authenticated (id : Nat) (a : PeerProof) (inDatabase : Bool)
  | hello (id : Nat) (h : LinkHello) (acl : Bool)
  | frame (id : Nat) (f : LinkFrame)
  | application (id : Nat) (origin : String)
  | administer (i : Nat) (opens : Bool)
  | fail (id : Nat)
  | close (id : Nat)
deriving Repr

def handle (c : Config) (st : Station) : Event → Station
  | .dial i due connected => st.dial i due connected
  | .accept => st.nativeOpen
  | .authenticated id a inDatabase => st.authenticated c id a inDatabase
  | .hello id h acl => st.handleHello c id h acl
  | .frame id f => st.handleFrame c id f
  | .application id origin => st.application id origin
  | .administer i opens => st.administer i opens
  | .fail id => st.fail id
  | .close id => st.closeSession id

/-- One event; what it sends and hands to the relay is in `sent` and `handed`. -/
def step (c : Config) (st : Station) (e : Event) : Station :=
  handle c { st with links := { st.links with sent := [] }, handed := [] } e

def run (c : Config) (st : Station) (es : List Event) : Station := es.foldl (step c) st

end Station

end RustyRig
