/-
Rooms of other servers, from `rrserver/relay.c` and `rrserver/relay.sessions.c`.

A room belongs to the server that announced it.  A server that has somebody who wants
a room of another one, a local session in it or a subscription of a server further
down, asks the owner for it with a `subscribe`, and takes that back with an
`unsubscribe` once nobody wants it.

Of the catalogue only the `room:` entries are here, and of the traffic only what
touches rooms.  Sessions that are not authenticated have joined nothing and the relay
passes over them, so `http_client_list` holds the others.  Sends towards a server the
tree routes to are taken to leave this server.
-/
import Mathlib.Algebra.GroupWithZero.Nat
import RustyRig.Rrserver.LinkTree

namespace RustyRig

/-- `!strcasecmp(a, b)`. -/
def sameName (a b : String) : Bool := a.toList.map Char.toLower == b.toList.map Char.toLower

/-- What the protocol library does to the list of rooms a session has joined. -/
structure RoomApi where
  /-- `ws_site_room`. -/
  siteRoom : String
  /-- `ws_client_in_room`. -/
  inRoom : List String → String → Bool
  /-- `ws_client_join_room`. -/
  joinRoom : List String → String → List String
  /-- `ws_client_part_room`. -/
  partRoom : List String → String → List String

/-- `struct wanted_room`. -/
structure WantedRoom where
  owner : String
  room : String
  pending : Bool
deriving DecidableEq, Repr

/-- `struct relay_client`, without the connection it belongs to. -/
structure RelayClient where
  id : String
  wanted : List WantedRoom
deriving DecidableEq, Repr

/-- A connection of `http_client_list`, with its `relay_client` once it has one. -/
structure LocalSession where
  conn : Nat
  rooms : List String
  relay : Option RelayClient
deriving DecidableEq, Repr

/-- `struct remote_session`. -/
structure RemoteSession where
  origin : String
  id : String
  rooms : List String
deriving DecidableEq, Repr

/-- `struct subscription`: the neighbour `node` takes `room` through this server. -/
structure Subscription where
  owner : String
  room : String
  node : String
deriving DecidableEq, Repr

/-- `struct catalog` under the key `room:<room>`. -/
structure RoomCatalog where
  owner : String
  room : String
deriving DecidableEq, Repr

/-- A `subscribe` or `unsubscribe` packet that went out. -/
structure Asked where
  owner : String
  room : String
  subscribe : Bool
deriving DecidableEq, Repr

/-- The relay of one server.  `asked` is what it sent towards the owners it can reach,
newest first; a server that was lost has forgotten it. -/
structure Relay where
  tree : LinkTree
  sessions : List LocalSession
  remotes : List RemoteSession
  subscriptions : List Subscription
  catalogs : List RoomCatalog
  asked : List Asked
deriving DecidableEq, Repr

namespace Relay

/-- `MAX_SUBSCRIPTIONS`, which bounds the wanted rooms of all sessions as well. -/
def maxSubscriptions : Nat := 512

/-- `MAX_RELAY_SESSIONS`. -/
def maxRelaySessions : Nat := 128

/-- `AUTOJOIN_LEN`, the size of a session's comma separated list of rooms. -/
def autojoinLen : Nat := 1024

/-- `rr_relay_local_owner`. -/
def localOwner (s : Relay) (node : String) : Bool := node == s.tree.localServer

/-- `rrserver_links_route`. -/
def route (s : Relay) (node : String) : Option String := s.tree.route (some node)

/-- `rr_relay_room_catalog`. -/
def roomCatalog (s : Relay) (room : String) : Option RoomCatalog :=
  s.catalogs.find? fun c => sameName c.room room

/-- The server the session's wanted list names for a room. -/
def wantedOwner (wanted : List WantedRoom) (room : String) : Option String :=
  (wanted.find? fun w => sameName w.room room).map (·.owner)

/-- `rr_relay_wanted_count`. -/
def wantedCount (sessions : List LocalSession) : Nat :=
  (sessions.map fun x => (x.relay.map (·.wanted.length)).getD 0).sum

/-- `rr_relay_client_count`. -/
def clientCount (sessions : List LocalSession) : Nat := sessions.countP (·.relay.isSome)

/-- `rr_relay_wanted_set`, with `count` entries on all lists together. -/
def wantedSet (count : Nat) (owner room : String) (joined : Bool) :
    List WantedRoom → List WantedRoom
  | [] =>
      if joined && decide (count < maxSubscriptions) then
        [{ owner := owner, room := room, pending := false }]
      else []
  | w :: rest =>
      if sameName w.room room then
        if joined then { w with owner := owner, pending := false } :: rest else rest
      else w :: wantedSet count owner room joined rest

/-- `wanted->pending = true` for the first entry of a room. -/
def pend (room : String) : List WantedRoom → List WantedRoom
  | [] => []
  | w :: rest =>
      if sameName w.room room then { w with pending := true } :: rest else w :: pend room rest

/-- `rr_relay_update_membership`, a join: the list has to have room for the name. -/
def addRoom (api : RoomApi) (rooms : List String) (room : String) : List String :=
  if !api.inRoom rooms room &&
      decide ((",".intercalate rooms).utf8ByteSize + room.utf8ByteSize + 2 < autojoinLen) then
    rooms ++ [room]
  else rooms

/-- `rr_relay_update_membership`, a part. -/
def dropRoom (rooms : List String) (room : String) : List String :=
  rooms.filter fun r => !sameName r room

/-- `rr_relay_demand`. -/
def demand (api : RoomApi) (s : Relay) (owner room : String) : Bool :=
  s.sessions.any (fun x => x.relay.isSome && api.inRoom x.rooms room) ||
    s.subscriptions.any fun b => b.owner == owner && b.room == room

/-- `rr_relay_subscribe_upstream`. -/
def subscribeUpstream (s : Relay) (owner room : String) (subscribe : Bool) : Relay :=
  if s.localOwner owner || (s.route owner).isNone then s
  else { s with asked := { owner := owner, room := room, subscribe := subscribe } :: s.asked }

/-- What every handler ends with that has looked at the demand before it began. -/
def compareDemand (api : RoomApi) (before : Bool) (owner room : String) (s : Relay) : Relay :=
  if before ≠ s.demand api owner room then
    s.subscribeUpstream owner room (s.demand api owner room)
  else s

/-- `receive`, kinds `subscribe` and `unsubscribe`, after the link layer has checked that
`origin` lies behind the link the packet came through. -/
def receiveDemand (api : RoomApi) (s : Relay) (dest origin room : String) (subscribe : Bool) :
    Relay :=
  match s.roomCatalog room, s.route origin with
  | some c, some source =>
      if c.owner ≠ dest || source ≠ origin || s.route dest == some source then s
      else
        let mine (b : Subscription) : Bool := b.owner == dest && b.room == room && b.node == origin
        let subscriptions :=
          if subscribe then
            if !s.subscriptions.any mine && decide (s.subscriptions.length < maxSubscriptions) then
              { owner := dest, room := room, node := origin } :: s.subscriptions
            else s.subscriptions
          else s.subscriptions.eraseP mine
        compareDemand api (s.demand api dest room) dest room
          { s with subscriptions := subscriptions }
  | _, _ => s

/-- What a `join` or `part` reply does to the session it names. -/
def applyReply (api : RoomApi) (count : Nat) (origin room : String) (joined : Bool)
    (x : LocalSession) (c : RelayClient) : LocalSession :=
  { x with
    rooms := if joined then addRoom api x.rooms room else dropRoom x.rooms room
    relay := some { c with wanted := wantedSet count origin room joined c.wanted } }

/-- `receive`, kind `reply`: the owner of a room answers a session's `join` or `part`. -/
def receiveReply (api : RoomApi) (s : Relay) (origin id room : String) (joined : Bool) : Relay :=
  match s.route origin, s.sessions.find? (fun x => (x.relay.map (·.id)) == some id),
      s.roomCatalog room with
  | some _, some x, some authority =>
      if authority.owner ≠ origin then s
      else
        compareDemand api (s.demand api origin room) origin room
          { s with sessions := s.sessions.map fun y =>
              if y = x then
                (y.relay.map (applyReply api (wantedCount s.sessions) origin room joined y)).getD y
              else y }
  | _, _, _ => s

/-- `rr_relay_rejoin_owned_room` for one session, given how many relay clients and wanted
rooms there are; `ids` is where `g_uuid_string_random` takes a new client's id from. -/
def rejoinSession (api : RoomApi) (owner room : String) (ids : Nat → String)
    (clients wanted : Nat) (x : LocalSession) : LocalSession :=
  if !api.inRoom x.rooms room then x
  else
    match x.relay.or (if clients = maxRelaySessions then none else some ⟨ids x.conn, []⟩) with
    | none => { x with rooms := api.partRoom x.rooms room }
    | some c =>
        if wantedOwner c.wanted room = some owner then x
        else
          { x with
            rooms := api.partRoom x.rooms room
            relay := some { c with wanted := pend room (wantedSet wanted owner room true c.wanted) } }

/-- The first loop of `rr_relay_rejoin_owned_room`; `done` are the sessions already seen. -/
def rejoin (api : RoomApi) (owner room : String) (ids : Nat → String) :
    List LocalSession → List LocalSession → List LocalSession
  | done, [] => done
  | done, x :: rest =>
      let all := done ++ x :: rest
      rejoin api owner room ids
        (done ++ [rejoinSession api owner room ids (clientCount all) (wantedCount all) x]) rest

/-- `rr_relay_rejoin_owned_room`. -/
def rejoinOwnedRoom (api : RoomApi) (s : Relay) (owner room : String) (ids : Nat → String) :
    Relay :=
  { s with
    sessions := rejoin api owner room ids [] s.sessions
    remotes := s.remotes.map fun r =>
      if api.inRoom r.rooms room then { r with rooms := api.partRoom r.rooms room } else r
    subscriptions := s.subscriptions.filter fun b => !(sameName b.room room && b.owner ≠ owner) }

/-- Whether `rr_relay_catalog_put_reason` takes a room's descriptor that its other checks
let pass.  `station` says that the new owner, and not the present one, has station
authority over the room, and that it is no room of this server's site or rigs. -/
def acceptsRoom (s : Relay) (owner room : String) (station : Bool) : Bool :=
  match s.roomCatalog room with
  | some c => c.owner == owner || (!s.localOwner owner && station)
  | none => true

/-- The entries once a room's descriptor is taken.  No two share a key, so changing the
one found is changing every one with its key. -/
def announced (s : Relay) (owner room : String) : List RoomCatalog :=
  match s.roomCatalog room with
  | some c =>
      if c.owner = owner then s.catalogs
      else s.catalogs.map fun e =>
        if sameName e.room room then { owner := owner, room := room } else e
  | none => { owner := owner, room := room } :: s.catalogs

/-- `rr_relay_catalog_put_reason` for a room. -/
def catalogPut (api : RoomApi) (s : Relay) (owner room : String) (station : Bool)
    (ids : Nat → String) : Relay :=
  if s.acceptsRoom owner room station then
    let s₁ := { s with catalogs := s.announced owner room }
    if s.localOwner owner then s₁ else rejoinOwnedRoom api s₁ owner room ids
  else s

/-- `catalog-remove` for a room, and how `rr_relay_refresh_catalog` drops a local one. -/
def catalogRemove (s : Relay) (origin room : String) : Relay :=
  { s with catalogs := s.catalogs.eraseP fun e => sameName e.room room && e.owner == origin }

/-- What `close_client` does about one room the session was in. -/
def leave (api : RoomApi) (s : Relay) (room : String) : Relay :=
  match s.roomCatalog room with
  | some entry =>
      if !s.demand api entry.owner room then s.subscribeUpstream entry.owner room false else s
  | none => s

/-- `close_client`, and the session leaving `http_client_list`. -/
def closeClient (api : RoomApi) (s : Relay) (conn : Nat) : Relay :=
  match s.sessions.find? (·.conn == conn) with
  | none => s
  | some x =>
      let s₁ := { s with sessions := s.sessions.erase x }
      if x.relay.isSome then x.rooms.foldl (leave api) s₁ else s₁

/-- Whether `lost` leaves an entry of this owner in the catalogue. -/
def kept (s : Relay) (owner : String) : Bool := s.localOwner owner || (s.route owner).isSome

/-- What `lost` does to a local session: wanted rooms of unreachable owners wait for a
rejoin, and the session is taken out of the rooms whose entries are purged. -/
def loseRooms (api : RoomApi) (s : Relay) (x : LocalSession) : LocalSession :=
  match x.relay with
  | none => x
  | some c =>
      let wanted := c.wanted.map fun w =>
        if (s.route w.owner).isNone then { w with pending := true } else w
      let purged := s.catalogs.filter fun e => !s.kept e.owner
      { x with
        relay := some { c with wanted := wanted }
        rooms := purged.foldl (fun rooms e =>
          if api.inRoom rooms e.room then dropRoom rooms e.room else rooms) x.rooms }

/-- `lost`.  `held` are the remote sessions whose transmission cannot be released yet. -/
def lost (api : RoomApi) (held : RemoteSession → Bool) (s : Relay) : Relay :=
  { s with
    sessions := s.sessions.map (loseRooms api s)
    subscriptions := s.subscriptions.filter fun b => s.kept b.owner && (s.route b.node).isSome
    remotes := s.remotes.filter fun r => (s.route r.origin).isSome || held r
    catalogs := s.catalogs.filter fun e => s.kept e.owner
    asked := s.asked.filter fun a => (s.route a.owner).isSome }

/-- Whether `route_request` leaves a session's `join` or `part` to the protocol library. -/
def passes (s : Relay) (x : LocalSession) (room : String) : Bool :=
  match s.roomCatalog room with
  | some c => s.localOwner c.owner
  | none => !((x.relay.map (·.wanted)).getD []).any (·.room == room)

/-- A session's `join` reaches `route_request`. -/
def joinSession (api : RoomApi) (s : Relay) (room : String) (x : LocalSession) : LocalSession :=
  if s.passes x room then { x with rooms := api.joinRoom x.rooms room } else x

/-- A session's `part` reaches `route_request`: one it only wants to be in again is taken
off its list, another is left to the library where that may have it. -/
def partSession (api : RoomApi) (s : Relay) (room : String) (x : LocalSession) : LocalSession :=
  match x.relay with
  | some c =>
      if c.wanted.any (·.room == room) && !api.inRoom x.rooms room then
        { x with relay := some { c with
            wanted := wantedSet (wantedCount s.sessions) "" room false c.wanted } }
      else if s.passes x room then { x with rooms := api.partRoom x.rooms room } else x
  | none => if s.passes x room then { x with rooms := api.partRoom x.rooms room } else x

/-- Whether a wanted room is announced by its owner again. -/
def returned (s : Relay) (w : WantedRoom) : Bool :=
  (s.roomCatalog w.room).any (·.owner == w.owner) && (s.route w.owner).isSome

/-- The rejoins of `rrserver_relay_poll`, for the sessions whose `retry_at` has come. -/
def pollSession (s : Relay) (due : Nat → Bool) (x : LocalSession) : LocalSession :=
  match x.relay with
  | some c =>
      if due x.conn then
        let wanted := c.wanted.map fun w => if s.returned w then { w with pending := false } else w
        { x with relay := some { c with wanted := wanted } }
      else x
  | none => x

/-- `rr_relay_client_for` makes the session a relay client unless it is one. -/
def relaySession (id : String) (x : LocalSession) : LocalSession :=
  { x with relay := x.relay.or (some { id := id, wanted := [] }) }

/-- What the relay of a server reacts to. -/
inductive Event
  /-- A link is established with the servers behind it. -/
  | attach (peer : Option String) (nodes : List LinkNodeT)
  /-- A linked server introduces another one behind it. -/
  | introduce (peer server parent site : Option String)
  /-- A link closes or a server behind one is withdrawn. -/
  | withdraw (peer server : Option String) (held : RemoteSession → Bool)
  | demand (dest origin room : String) (subscribe : Bool)
  | reply (origin id room : String) (joined : Bool)
  | catalog (owner room : String) (station : Bool) (ids : Nat → String)
  | catalogRemove (origin room : String)
  /-- A session authenticates. -/
  | opened (conn : Nat)
  | closed (conn : Nat)
  /-- A request of the session is the first that has to be relayed. -/
  | relays (conn : Nat) (id : String)
  /-- A session's `join` that is not for another server. -/
  | joins (conn : Nat) (room : String)
  | parts (conn : Nat) (room : String)
  | poll (due : Nat → Bool)
  /-- A server relays a request of a session of its own, which leaves it in `rooms`. -/
  | request (origin id : String) (rooms : List String)
  /-- A server closes a session of its own. -/
  | close (origin id : String) (held : RemoteSession → Bool)

def onSession (s : Relay) (conn : Nat) (f : LocalSession → LocalSession) : Relay :=
  { s with sessions := s.sessions.map fun x => if x.conn = conn then f x else x }

def step (u : UuidFormat) (api : RoomApi) (s : Relay) : Event → Relay
  | .attach peer nodes => { s with tree := (s.tree.attach u peer nodes).2 }
  | .introduce peer server parent site => { s with tree := (s.tree.add u peer server parent site).2 }
  | .withdraw peer server held => lost api held { s with tree := (s.tree.remove peer server).2 }
  | .demand dest origin room subscribe => receiveDemand api s dest origin room subscribe
  | .reply origin id room joined => receiveReply api s origin id room joined
  | .catalog owner room station ids =>
      -- the link layer drops what does not come from its owner's branch
      if s.kept owner then catalogPut api s owner room station ids else s
  | .catalogRemove origin room => catalogRemove s origin room
  | .opened conn =>
      if s.sessions.any (·.conn == conn) then s
      else { s with sessions := { conn := conn, rooms := [], relay := none } :: s.sessions }
  | .closed conn => closeClient api s conn
  | .relays conn id =>
      if clientCount s.sessions < maxRelaySessions then s.onSession conn (relaySession id) else s
  | .joins conn room => s.onSession conn (joinSession api s room)
  | .parts conn room => s.onSession conn (partSession api s room)
  | .poll due => { s with sessions := s.sessions.map (pollSession s due) }
  | .request origin id rooms =>
      if (s.route origin).isSome then
        { s with remotes := { origin := origin, id := id, rooms := rooms } ::
            s.remotes.filter fun r => !(r.origin == origin && r.id == id) }
      else s
  | .close origin id held =>
      { s with remotes := s.remotes.filter fun r => !(r.origin == origin && r.id == id) || held r }

def run (u : UuidFormat) (api : RoomApi) (s : Relay) (events : List Event) : Relay :=
  events.foldl (step u api) s

/-- The relay of a server that has just started. -/
def init (tree : LinkTree) : Relay :=
  { tree := tree, sessions := [], remotes := [], subscriptions := [], catalogs := [], asked := [] }

/-- The last packet towards an owner about a room; nothing sent counts as `unsubscribe`. -/
def lastAsked (s : Relay) (owner room : String) : Bool :=
  ((s.asked.find? fun a => a.owner == owner && a.room == room).map (·.subscribe)).getD false

end Relay

end RustyRig
