/-
The tables of the relay, from `rrserver/relay.c`, `relay.sessions.c`, `relay.media.c` and
`relay.catalog.c`.

Next to the catalog a server keeps the sessions it relays for, those that other servers relay
to it, the subscriptions of its neighbours, the users other servers announce, and a map for
every media channel a session has to do with.  All of them name servers, and all but the
directories are linked lists with a counter.  When links close or servers are withdrawn,
`lost` goes through every list.

The rooms a session wants or is in and the packets to owners are in `Relay`, the frames in
progress in `RelayMedia`, and which requests and replies pass in `RelayAdmission`: here any
may.  What memory, the backend and the clock answer is an argument of each call.
-/
import RustyRig.Lib.Counted
import RustyRig.Rrserver.RelayAdmission

namespace RustyRig

namespace RelayTables

open Lib (Counted)
open Catalog (Api Origin Site Answers Collected cut)
open RelayAdmission (membershipRoom)

/-- `rrconn_t *`: the connection of a local session, or the one inside a remote session. -/
inductive Conn
  | home (conn : Nat)
  | guest (serial : Nat)
deriving DecidableEq, Repr

/-- `struct relay_client`, without the rooms it wants. -/
structure Client where
  conn : Nat
  id : String
deriving DecidableEq, Repr

/-- `struct remote_session`.  Its account is made enabled and without a password. -/
structure Remote where
  /-- Stands for the address of the connection inside it. -/
  serial : Nat
  origin : String
  id : String
  chatname : String
  authenticated : Bool
  isPtt : Bool
  /-- `release_retry`, in microseconds. -/
  releaseRetry : Nat
deriving DecidableEq, Repr

/-- `struct relay_media`, without the frame in progress. -/
structure MediaEntry extends RelayAdmission.MediaMap where
  client : Conn
  uuid : String
deriving DecidableEq, Repr

/-- `struct directory`. -/
structure Directory where
  node : String
  users : Dict

/-- The lists of the relay, with the tree of the links. -/
structure Tables where
  tree : LinkTree
  catalog : Catalog.Store
  directories : List Directory
  clients : Counted Client
  remotes : Counted Remote
  /-- The serial of the next remote session. -/
  serial : Nat
  subscriptions : Counted Subscription
  media : Counted MediaEntry

/-- `MAX_RELAY_SESSIONS`. -/
def maxRelaySessions : Nat := 128

/-- `MAX_SUBSCRIPTIONS`. -/
def maxSubscriptions : Nat := 512

/-- `MAX_RELAY_MEDIA`. -/
def maxRelayMedia : Nat := 512

/-- The bound in `rr_relay_directory_put`. -/
def maxDirectories : Nat := 256

/-- `HTTP_USER_LEN`. -/
def httpUserLen : Nat := 16

/-- As much of a text as fits a buffer. -/
def clip (size : Nat) (text : String) : String := String.ofList (cut (size - 1) text.toList)

/-- `rrserver_links_route`. -/
def Tables.route (s : Tables) (node : String) : Option String := s.tree.route (some node)

/-- The owner of `rr_relay_room_catalog`. -/
def Tables.authority (s : Tables) (room : String) : Option String :=
  (Catalog.findCatalog s.catalog.entries (Catalog.roomKey room)).map (·.owner)

/-! ### Media maps -/

/-- `rr_relay_media_map`. -/
def mediaMap (client : Conn) (uuid : String) (create alloc : Bool) (maps : Counted MediaEntry) :
    Option MediaEntry × Counted MediaEntry :=
  match maps.entries.find? fun m => m.client == client && m.uuid == uuid with
  | some m => (some m, maps)
  | none =>
      if !create || maps.count = maxRelayMedia || uuid = "" || 64 ≤ uuid.utf8ByteSize || !alloc then
        (none, maps)
      else
        let used stream := maps.entries.any fun p => p.client == client && p.stream == stream
        match (List.range' 128 128).find? (!used ·) with
        | none => (none, maps)
        | some stream =>
            let m : MediaEntry :=
              { client := client, uuid := uuid, owner := "", room := "", direction := 0
                subsystem := 0, stream := stream, ownerStream := 0, subscribed := false
                home := false }
            (some m, maps.push m)

/-- `rr_relay_media_forget`. -/
def mediaForget (client : Option Conn) (owner room : Option String) (maps : Counted MediaEntry) :
    Counted MediaEntry :=
  maps.purge fun m => client.all (m.client == ·) && owner.all (m.owner == ·) &&
    room.all (m.room == ·)

/-- Changes a session's map of a channel. -/
def changeMap (client : Conn) (uuid : String) (f : MediaEntry → MediaEntry)
    (maps : Counted MediaEntry) : Counted MediaEntry :=
  { maps with
    entries := Lib.changeFirst (fun m => m.client == client && m.uuid == uuid) f maps.entries }

/-! ### Local sessions -/

/-- `rr_relay_client_for`, which is to create the client. -/
def clientFor (conn : Nat) (id : String) (alloc : Bool) (clients : Counted Client) :
    Counted Client :=
  if clients.entries.any (·.conn == conn) || clients.count = maxRelaySessions || !alloc then clients
  else clients.push { conn := conn, id := id }

/-- `close_client`. -/
def closeClient (s : Tables) (conn : Nat) : Tables :=
  { s with
    media := mediaForget (some (.home conn)) none none s.media
    clients := s.clients.purge (·.conn == conn) }

/-- A reply about a media channel. -/
def replyMedia (s : Tables) (c : Client) (r : RelayAdmission.Reply) (inRoom : String → Bool) (alloc : Bool) :
    Tables :=
  let cmd := r.body.get "media.cmd" ""
  let uuid := r.body.get "media.chan-uuid" ""
  let room := r.body.get "media.room" ""
  match mediaMap (.home c.conn) uuid (cmd == "available") alloc s.media with
  | (none, media) => { s with media := media }
  | (some m, media) =>
      let change f : Tables := { s with media := changeMap (.home c.conn) uuid f media }
      if cmd = "available" then
        if s.authority room = some r.origin && inRoom room then
          change fun m => { m with owner := r.origin
                                   room := clip 128 room
                                   direction := r.direction % 256
                                   subsystem := r.subsystem % 256 }
        else { s with media := media }
      else if m.owner ≠ r.origin || !inRoom m.room then { s with media := media }
      else if cmd = "subscribed" then
        change fun m => { m with ownerStream := r.stream % 256, subscribed := true }
      else if cmd = "unsubscribed" || cmd = "chan-remove" then
        change fun m => { m with subscribed := false }
      else { s with media := media }

/-- `receive`, kind `reply`. -/
def receiveReply (s : Tables) (r : RelayAdmission.Reply) (inRoom : String → Bool) (alloc : Bool) : Tables :=
  match s.clients.entries.find? (·.id == r.id) with
  | none => s
  | some c =>
      let join := membershipRoom r r.body
      if join.any fun room => s.authority room != some r.origin then s
      else
        let parted := join.filter fun _ => r.body.get "talk.cmd" "" == "part"
        let s := match parted with
          | some room =>
              { s with media := mediaForget (some (.home c.conn)) (some r.origin) (some room) s.media }
          | none => s
        if r.body.get "msg.type" "" = "media" then replyMedia s c r inRoom alloc else s

/-! ### Remote sessions -/

/-- What is answered during one look at a remote session. -/
structure Visit where
  /-- `mono_us`. -/
  now : Nat
  /-- Whether the backend takes the release of its PTT. -/
  released : Bool
  /-- Whether it may still transmit: attached directly, or by a proxy that is heard. -/
  live : Bool

/-- `rr_relay_remove_remote`: the session as it is kept, or nothing when it is removed. -/
def removeRemote (v : Visit) (r : Remote) : Option Remote :=
  if !r.authenticated && decide (v.now < r.releaseRetry) then some r
  else if r.isPtt && !v.released then
    some { r with authenticated := false, releaseRetry := v.now + 1000000 }
  else none

/-- `retry_remote_ptt`. -/
def retryRemotePtt (v : Visit) (r : Remote) : Remote :=
  if !r.isPtt || v.live then { r with releaseRetry := 0 }
  else if v.now < r.releaseRetry then r
  else if v.released then { r with isPtt := false, releaseRetry := 0 }
  else { r with releaseRetry := v.now + 1000000 }

/-- A walk over the remote sessions.  The maps of a session go with it. -/
def visitRemotes (visit : Remote → Option Remote) (s : Tables) : Tables :=
  let (remotes, media) := Counted.walk visit
    (fun r => mediaForget (some (.guest r.serial)) none none) s.remotes.entries s.remotes.count
    s.media
  { s with remotes := remotes, media := media }

/-- `owner_session`. -/
def ownerSession (api : Api) (s : Tables) (origin id username : String) (alloc : Bool) :
    Option Remote × Tables :=
  if !api.uuid.valid origin || (s.route origin).isNone || !api.uuid.valid id || username = "" ||
      httpUserLen < username.utf8ByteSize then (none, s)
  else
    match s.remotes.entries.find? fun r => r.origin == origin && r.id == id with
    | some r => (if !r.authenticated || !sameName r.chatname username then none else some r, s)
    | none =>
        if s.remotes.count = maxRelaySessions || !alloc then (none, s)
        else
          let r : Remote :=
            { serial := s.serial, origin := origin, id := id, chatname := username
              authenticated := true, isPtt := false, releaseRetry := 0 }
          (some r, { s with remotes := s.remotes.push r, serial := s.serial + 1 })

/-- What becomes of a request once its session is there. -/
inductive Outcome
  | denied
  /-- A fragment of a frame, on a channel the session transmits on. -/
  | frame (uuid : String)
  /-- The protocol library takes it, and leaves the session transmitting or not. -/
  | processed (isPtt : Bool)

/-- What the library does to the session. -/
def processed (isPtt : Bool) (r : Remote) : Remote :=
  { r with
    isPtt := isPtt
    releaseRetry := if !r.isPtt && isPtt then 0 else r.releaseRetry }

/-- What others do to a session: they release its PTT, or throw it out. -/
def touched (keyed stays : Bool) (r : Remote) : Remote :=
  { r with isPtt := r.isPtt && keyed, authenticated := r.authenticated && stays }

/-- `rr_relay_execute`. -/
def execute (api : Api) (s : Tables) (origin id username : String) (alloc : Bool)
    (outcome : Outcome) : Tables :=
  match ownerSession api s origin id username alloc, outcome with
  | (none, s), _ => s
  | (some _, s), .denied => s
  | (some r, s), .frame uuid =>
      { s with media := (mediaMap (.guest r.serial) uuid true alloc s.media).2 }
  | (some r, s), .processed isPtt =>
      visitRemotes (fun x => some (if x.serial = r.serial then processed isPtt x else x)) s

/-! ### Subscriptions, directories and the catalog -/

/-- `receive`, kinds `subscribe` and `unsubscribe`. -/
def receiveDemand (s : Tables) (dest origin room : String) (subscribe alloc : Bool) : Tables :=
  let mine (b : Subscription) : Bool := b.owner == dest && b.room == room && b.node == origin
  if s.authority room ≠ some dest || s.route origin ≠ some origin ||
      s.route dest = some origin then s
  else if subscribe then
    if !s.subscriptions.entries.any mine && decide (s.subscriptions.count < maxSubscriptions) &&
        alloc then
      { s with subscriptions := s.subscriptions.push ⟨dest, clip 128 room, origin⟩ }
    else s
  else { s with subscriptions := s.subscriptions.unlink mine }

/-- `rr_relay_directory_put`; `fits` says whether the counts and names pass. -/
def directoryPut (node : String) (users : Dict) (fits alloc : Bool) (l : List Directory) :
    List Directory :=
  if !fits then l
  else if l.any (·.node == node) then
    Lib.changeFirst (·.node == node) (fun e => { e with users := users }) l
  else if maxDirectories ≤ l.length || !alloc then l
  else { node := node, users := users } :: l

/-- `rr_relay_rejoin_owned_room`; `members` are the sessions in the room, each with the id it
would get. -/
def rejoinOwnedRoom (s : Tables) (owner room : String) (members : List (Nat × String)) : Tables :=
  { s with
    clients := members.foldl (fun clients x => clientFor x.1 x.2 true clients) s.clients
    subscriptions := s.subscriptions.purge fun b => sameName b.room room && b.owner != owner }

/-- `rr_relay_catalog_put_reason`. -/
def catalogPut (api : Api) (s : Tables) (site : Site) (a : Answers) (owner : Origin api.uuid)
    (d : Dict) (members : List (Nat × String)) : Tables :=
  let (why, catalog) := Catalog.catalogPut api site a false s.catalog owner d
  let s := { s with catalog := catalog }
  match why, d.get? "object.uuid", d.get? "catalog.room" with
  | .ok, none, some room =>
      if owner.id = api.self.id then s else rejoinOwnedRoom s owner.id room members
  | _, _, _ => s

/-! ### Servers that are lost -/

/-- The loop of `lost` over the maps.  It begins again after every owner it forgets. -/
def lostMedia (reach : String → Bool) (maps : Counted MediaEntry) : Counted MediaEntry :=
  match _hfind : maps.entries.find? fun m => m.owner != "" && !reach m.owner with
  | none => maps
  | some m => lostMedia reach (mediaForget none (some m.owner) none maps)
termination_by maps.entries.length
decreasing_by
  rw [mediaForget, Counted.entries_purge]
  exact List.length_filter_lt_length_iff_exists.mpr
    ⟨m, List.mem_of_find?_eq_some _hfind, by simp⟩

/-- `lost`. -/
def lost (api : Api) (v : Nat → Visit) (s : Tables) : Tables :=
  let reach node := (s.route node).isSome
  let served node := node == api.self.id || reach node
  let s₁ := { s with
    media := lostMedia reach s.media
    subscriptions := s.subscriptions.purge fun b => !served b.owner || !reach b.node }
  let s₂ := visitRemotes
    (fun r => if !reach r.origin then removeRemote (v r.serial) r else some r) s₁
  { s₂ with
    directories := s.directories.filter fun e => served e.node
    catalog := Catalog.lost api s.route s.catalog }

/-! ### Any events, in any order -/

/-- What the relay of a server reacts to. -/
inductive Event (api : Api)
  /-- The link layer changes its tree. -/
  | link (op : LinkTree.Op)
  | put (site : Site) (a : Answers) (owner : Origin api.uuid) (d : Dict)
      (members : List (Nat × String))
  | collect (site : Site) (answers : String → Answers) (steps : Option (List Collected))
  | refresh (site : Site) (answers : String → Answers) (steps : Option (List Collected))
  | remove (site : Site) (pin : Option Identity.DbCall) (fresh : Bool) (origin : Origin api.uuid)
      (d : Dict)
  | users (node : String) (d : Dict) (fits alloc : Bool)
  | demand (dest origin room : String) (subscribe alloc : Bool)
  /-- A request of a local session has to be relayed. -/
  | relays (conn : Nat) (id : String) (alloc : Bool)
  /-- A local session subscribes to a channel, at this server or at its owner. -/
  | home (conn : Nat) (uuid : String) (home : Bool)
  | closed (conn : Nat)
  | reply (r : RelayAdmission.Reply) (inRoom : String → Bool) (alloc : Bool)
  | request (origin id username : String) (alloc : Bool) (outcome : Outcome)
  | touched (serial : Nat) (keyed stays : Bool)
  | close (origin id : String) (v : Nat → Visit)
  | poll (v : Nat → Visit)
  | lost (v : Nat → Visit)

/-- `receive`, kind `close`. -/
def receiveClose (s : Tables) (origin id : String) (v : Nat → Visit) : Tables :=
  visitRemotes (fun r =>
    if r.origin == origin && r.id == id then removeRemote (v r.serial) r else some r) s

/-- `rrserver_relay_poll`. -/
def poll (s : Tables) (v : Nat → Visit) : Tables :=
  visitRemotes (fun r =>
    if !r.authenticated then removeRemote (v r.serial) r
    else some (retryRemotePtt (v r.serial) r)) s

def step {api : Api} (s : Tables) : Event api → Tables
  | .link op => { s with tree := s.tree.apply api.uuid op }
  | .put site a owner d members => catalogPut api s site a owner d members
  | .collect site answers steps =>
      { s with catalog := Catalog.collectLocal api site answers s.catalog steps }
  | .refresh site answers steps =>
      { s with catalog := Catalog.refreshCatalog api site answers s.catalog steps }
  | .remove site pin fresh origin d =>
      { s with catalog := Catalog.catalogRemove api site pin fresh s.catalog origin d }
  | .users node d fits alloc =>
      { s with directories := directoryPut node d fits alloc s.directories }
  | .demand dest origin room subscribe alloc => receiveDemand s dest origin room subscribe alloc
  | .relays conn id alloc => { s with clients := clientFor conn id alloc s.clients }
  | .home conn uuid home =>
      { s with media := changeMap (.home conn) uuid ({ · with home := home }) s.media }
  | .closed conn => closeClient s conn
  | .reply r inRoom alloc =>
      -- the link layer drops what does not come from a branch of its own
      if (s.route r.origin).isSome then receiveReply s r inRoom alloc else s
  | .request origin id username alloc outcome => execute api s origin id username alloc outcome
  | .touched serial keyed stays =>
      visitRemotes (fun r => some (if r.serial = serial then touched keyed stays r else r)) s
  | .close origin id v => receiveClose s origin id v
  | .poll v => poll s v
  | .lost v => lost api v s

def run {api : Api} (s : Tables) (events : List (Event api)) : Tables := events.foldl step s

/-- The tables of a server that has just started, over the pins and revisions of its database. -/
def init (tree : LinkTree) (ids : Identity.Receiver) : Tables where
  tree := tree
  catalog := Catalog.Store.start ids
  directories := []
  clients := .empty
  remotes := .empty
  serial := 0
  subscriptions := .empty
  media := .empty

end RelayTables

end RustyRig

/-!
The state of a room, from `rrserver/relay.sessions.c` and `rrserver/relay.c`.

State goes once to every neighbour that has a subscription which covers it.  Whether one does
is decided by the room for most messages, and by the VFOs the room shows for CAT state and
properties.  `dict_get_ulong` reads the mask of these and belongs to another library.

The link layer tells the relay of lost servers in the call that removes them, and lets nothing
through that does not come from the branch of its origin: `live` is the relay behind it.
-/

namespace RustyRig

namespace RelayTables

open Catalog (Api CatalogEntry)

/-! ### Interest -/

/-- `rr_relay_room_catalog`. -/
def Tables.roomCatalog (s : Tables) (room : String) : Option CatalogEntry :=
  Catalog.findCatalog s.catalog.entries (Catalog.roomKey room)

/-- The VFO a CAT message or a property is about. -/
def messageVfo (s : Tables) (d : Dict) : Option String :=
  let named := (d.get? "cat.vfo").or (d.get? "cat.state.vfo")
  if d.get "msg.type" "" = "property" then
    match Catalog.findCatalog s.catalog.entries (d.get "target" "") with
    | none => named
    | some object => if object.type = "vfo" then object.descriptor.get? "object.alias" else named
  else named

/-- A single letter is looked up in the mask, anything else is shown. -/
def maskShows (mask : UInt32) (vfo : Option String) : Bool :=
  match (vfo.getD "").toList with
  | [c] =>
      if c.utf8Size = 1 then c.toUpper.isUpper && mask.toNat.testBit (c.toUpper.toNat - 'A'.toNat)
      else true
  | _ => true

/-- `rr_relay_interested`. -/
def interested (ulong : String → Nat) (s : Tables) (joined room : String) (d : Dict) : Bool :=
  if d.get "msg.type" "" ≠ "cat" ∧ d.get "msg.type" "" ≠ "property" then sameName joined room
  else
    match s.roomCatalog joined, s.roomCatalog room with
    | some a, some b =>
        match a.descriptor.get? "catalog.rig", b.descriptor.get? "catalog.rig" with
        | some rigA, some rigB =>
            if a.owner ≠ b.owner ∨ rigA ≠ rigB then false
            else
              let mask := UInt32.ofNat (((a.descriptor.get? "catalog.mask").map ulong).getD 0)
              if mask = 0 then false else maskShows mask (messageVfo s d)
        | _, _ => false
    | _, _ => false

/-! ### Fan-out -/

/-- A `state` packet: `rr_relay_packet` is called for it once. -/
structure StatePacket where
  dest : String
  username : String
  payload : Dict

/-- The loop over the subscriptions, with those that came before. -/
def nextHops (covers : Subscription → Bool) : List Subscription → List Subscription → List String
  | _, [] => []
  | before, b :: rest =>
      if covers b && !before.any (fun x => covers x && x.node == b.node) then
        b.node :: nextHops covers (before ++ [b]) rest
      else nextHops covers (before ++ [b]) rest

/-- `rr_relay_publish_state`. -/
def publishState (ulong : String → Nat) (s : Tables) (owner room : String) (d : Dict) :
    List StatePacket :=
  (nextHops (fun b => b.owner == owner && interested ulong s b.room room d) []
    s.subscriptions.entries).map fun node => ⟨node, owner, d⟩

/-! ### Behind the link layer -/

/-- What reaches the relay.  `v` answers `lost` where servers are removed. -/
def live {api : Api} (s : Tables) : Event api × (Nat → Visit) → Tables
  | (.link (.remove peer server), v) => lost api v (step s (.link (.remove peer server) : Event api))
  | (.put site a owner d members, _) =>
      if owner.id == api.self.id || (s.route owner.id).isSome then step s (.put site a owner d members)
      else s
  | (e, _) => step s e

def liveRun {api : Api} (s : Tables) (events : List (Event api × (Nat → Visit))) : Tables :=
  events.foldl live s

end RelayTables

end RustyRig
