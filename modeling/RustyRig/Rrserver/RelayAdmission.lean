/-
What the relay lets in, from `receive` of `rrserver/relay.c`.

A signed removal is acted on once, a request for as long as its deadline is near, a reply for
the session it names.  The journal of removals is a table of the database, or of memory in a
build without one; both are here.  The rest of the server answers what the relay asks of it
during one packet, and whatever is let in goes on record.
-/
import RustyRig.Rrserver.Catalog
import RustyRig.Rrserver.Invitation

namespace RustyRig

namespace RelayAdmission

open Identity (DbCall Pins asciiStrtoll checkPin)
open Invitation (uuidStringIsValid)
open Catalog (cut)

/-- The build, the configured domain, and `rr_identity_verify_catalog`. -/
structure Config where
  /-- `USE_SQLITE`. -/
  sqlite : Bool
  domain : String
  verify : Dict → Bool

/-! ### Removals -/

/-- A row of `mesh_catalog_mutations`. -/
structure MutationRow where
  domain : String
  owner : String
  nonce : String
  issuedAt : Int
deriving DecidableEq, Repr

structure Journal where
  rows : List MutationRow
  /-- `last_prune`, which a restart forgets. -/
  lastPrune : Int
  /-- `catalog_mutations_seen`. -/
  seen : List String
deriving DecidableEq, Repr

/-- Which calls of the database succeed. -/
structure Storage where
  /-- The database is open, the table there and the statement prepared. -/
  ready : Bool
  /-- The insert works, unless its key is taken. -/
  insert : Bool
  prune : Bool
deriving DecidableEq, Repr

/-- `catalog_mutation_fresh` at the wall clock time `current`. -/
def mutationFresh (cfg : Config) (j : Journal) (current : Int) (storage : Storage) (d : Dict)
    (owner : String) : Bool × Journal :=
  if d.get "identity.operation" "" ≠ "catalog-remove" then (false, j)
  else
    let nonce := d.get "identity.nonce" ""
    let stamp := d.get "identity.timestamp" ""
    if nonce.utf8ByteSize ≠ 36 || !uuidStringIsValid nonce || stamp = "" then (false, j)
    else
      let timestamp := (asciiStrtoll stamp).1
      if (asciiStrtoll stamp).2 ≠ [] || decide (timestamp < current - 300) ||
          decide (current + 300 < timestamp) then (false, j)
      else if cfg.sqlite then
        if !storage.ready then (false, j)
        else if !storage.insert || j.rows.any (fun r =>
            r.domain == cfg.domain && r.owner == owner && r.nonce == nonce) then (false, j)
        else
          let rows := ⟨cfg.domain, owner, nonce, timestamp⟩ :: j.rows
          if 600 ≤ current - j.lastPrune then
            (true, { j with
              rows := if storage.prune then rows.filter fun r => !decide (r.issuedAt < current - 900)
                else rows
              lastPrune := current })
          else (true, { j with rows := rows })
      else
        let key := owner ++ ":" ++ nonce
        if key ∈ j.seen then (false, j)
        else (true, { j with seen := key :: if 32768 ≤ j.seen.length then [] else j.seen })

/-- The checks of a removal before its freshness; the key is pinned where there is a database. -/
def removalSigned (cfg : Config) (pins : Pins) (pin : Option DbCall) (origin : String) (d : Dict) :
    Bool × Pins :=
  if d.get "identity.signature" "" = "" then (false, pins)
  else if !(d.get "identity.owner" "" == origin &&
      sameName (d.get "identity.domain" "") cfg.domain && cfg.verify d &&
      d.get "identity.operation" "" == "catalog-remove") then (false, pins)
  else if cfg.sqlite then
    checkPin pin pins (d.get "identity.domain" "") origin (d.get "identity.public-key" "")
  else (true, pins)

/-! ### Requests -/

/-- A request for this server, with `dict_get_time_t` of its `relay.deadline`. -/
structure Request where
  origin : String
  id : String
  username : String
  deadline : Int
  body : Dict

/-- What the links say of a server. -/
structure Links where
  /-- `rrserver_links_route`. -/
  route : String → Option String
  /-- `rrserver_links_clock_offset`. -/
  clockOffset : String → Option Int

/-- How far the clock of the request's sender is ahead; only a neighbour's is known. -/
def Links.offset (l : Links) (origin : String) : Int :=
  if l.route origin = some origin then (l.clockOffset origin).getD 0 else 0

/-- The deadline of a request that is executed. -/
def inTime (r : Request) (offset receivedAt : Int) : Bool :=
  r.deadline != 0 && decide (receivedAt - 5 ≤ r.deadline - offset) &&
    decide (r.deadline - offset ≤ receivedAt + 35)

/-! ### Replies -/

/-- A reply, with the numbers that are read from it. -/
structure Reply where
  origin : String
  id : String
  body : Dict
  /-- `media.dir`. -/
  direction : Nat
  /-- `media.subsys`. -/
  subsystem : Nat
  /-- `media.stream`. -/
  stream : Nat

/-- `struct relay_client`, as far as a reply reads it. -/
structure Waiting where
  id : String
  token : String
deriving DecidableEq, Repr

/-- `struct relay_media`, without the frame in progress. -/
structure MediaMap where
  owner : String
  room : String
  direction : Nat
  subsystem : Nat
  stream : Nat
  ownerStream : Nat
  subscribed : Bool
  home : Bool
deriving DecidableEq, Repr

/-- What the rest of the server answers during one reply. -/
structure View where
  /-- `rr_relay_clients`. -/
  clients : List Waiting
  /-- The owner of `rr_relay_room_catalog`. -/
  authority : String → Option String
  /-- `ws_client_in_room`, by the session's id. -/
  inRoom : String → String → Bool
  /-- `rr_relay_media_map`. -/
  mediaMap : String → String → Bool → Option MediaMap
  /-- What `rrserver_direct_relay_grant` writes into the reply. -/
  grant : Dict → Dict

/-- What a reply brings about. -/
inductive Effect
  /-- The session joins a room, or leaves it with the room's media maps. -/
  | membership (client room : String) (joined : Bool)
  /-- The session's map of a channel is changed. -/
  | mapped (client uuid : String) (m : MediaMap)
  /-- A fragment goes to the reassembler of the map. -/
  | frame (client uuid : String)
  /-- `rr_relay_deliver`. -/
  | delivered (client : String) (d : Dict)

/-- The checks of a reply that is not media. -/
def replySigned (cfg : Config) (pins : Pins) (pin : Option DbCall) (r : Reply) : Bool × Pins :=
  let d := r.body
  if d.get "identity.owner" "" == r.origin && sameName (d.get "identity.domain" "") cfg.domain &&
      d.get "identity.operation" "" == "relay-reply" && d.get "identity.session" "" == r.id &&
      d.get "identity.scheme" "" == "ed25519-catalog-v1" && cfg.verify d then
    if cfg.sqlite then checkPin pin pins cfg.domain r.origin (d.get "identity.public-key" "")
    else (true, pins)
  else (false, pins)

/-- `rr_relay_strip_catalog_identity`. -/
def stripCatalogIdentity (d : Dict) : Dict :=
  ["identity.owner", "identity.domain", "identity.public-key", "identity.scheme",
    "identity.operation", "identity.signature", "identity.revision", "identity.timestamp",
    "identity.nonce", "identity.session"].foldl Dict.del d

/-- The room that a reply makes its session join or leave. -/
def membershipRoom (r : Reply) (d : Dict) : Option String :=
  let cmd := d.get "talk.cmd" ""
  if (cmd == "join" || cmd == "part") && d.get "talk.session" "" == r.id then d.get? "talk.room"
  else none

/-- A reply about a media channel: the map it leaves, and what is delivered of it.  `none` where
it is dropped. -/
def applyMedia (v : View) (c : Waiting) (r : Reply) (d : Dict) :
    Option (List Effect × Option Dict) :=
  let cmd := d.get "media.cmd" ""
  let uuid := d.get "media.chan-uuid" ""
  match v.mediaMap c.id uuid (cmd == "available") with
  | none => none
  | some m =>
      let room := d.get "media.room" ""
      let allowed :=
        if cmd = "available" then v.authority room == some r.origin && v.inRoom c.id room
        else m.owner == r.origin && v.inRoom c.id m.room
      if !allowed then none
      else if cmd = "available" then
        some ([.mapped c.id uuid { m with owner := r.origin
                                          room := room
                                          direction := r.direction
                                          subsystem := r.subsystem }], some d)
      else if cmd = "subscribed" then
        let d := (d.add "media.owner-stream" (toString r.stream)).add "media.stream"
          (toString m.stream)
        let d := if m.home then
            v.grant (((((((d.del "media.direct").del "media.direct-candidates").del
              "media.direct-key").del "media.direct-ssrc").del "media.direct-security").add
              "media.transport" "ws"))
          else d
        some ([.mapped c.id uuid { m with ownerStream := r.stream, subscribed := true }], some d)
      else if cmd = "unsubscribed" || cmd = "chan-remove" then
        some ([.mapped c.id uuid { m with subscribed := false }], some d)
      else if cmd = "frame" then
        some (if m.subscribed then [.frame c.id uuid] else [], none)
      else some ([], some d)

/-- `receive`, kind `reply`, past the checks of its signature. -/
def applyReply (v : View) (r : Reply) (d : Dict) : List Effect :=
  match v.clients.find? (·.id == r.id) with
  | none => []
  | some c =>
      let join := membershipRoom r d
      if join.any fun room => v.authority room != some r.origin then []
      else
        let joined := d.get "talk.cmd" "" == "join"
        let membership := join.toList.map fun room => Effect.membership c.id room joined
        let d := if join.isSome then d.add "talk.session" c.token else d
        let media := if d.get "msg.type" "" = "media" then applyMedia v c r d else some ([], some d)
        match media with
        | none => membership
        | some (effects, d) =>
            membership ++ effects ++ d.toList.map fun d =>
              if d.get "msg.type" "" = "file" then
                .delivered c.id (d.add "file.path" (String.ofList (cut 1099
                  ("/@" ++ r.origin ++ d.get "file.path" "/").toList)))
              else .delivered c.id d

/-! ### Any packets, in any order -/

/-- What was let in, and what this server asked itself. -/
inductive Entry
  | removed (owner nonce : String) (timestamp : Int)
  | executed (r : Request) (offset receivedAt : Int)
  | asked (id dest : String)
  | accepted (v : View) (r : Reply) (effects : List Effect)

structure Gate where
  journal : Journal
  /-- `mesh_identity_pins`. -/
  pins : Pins
  /-- The time of the last removal. -/
  clock : Int
  log : List Entry

inductive Packet
  | removal (current : Int) (storage : Storage) (pin : Option DbCall) (origin : String) (d : Dict)
  | request (links : Links) (receivedAt : Int) (r : Request)
  | reply (view : View) (pin : Option DbCall) (r : Reply)
  /-- A local session's request goes to another server. -/
  | ask (id dest : String)
  /-- The server starts again, over the same database. -/
  | restart

/-- `receive`, kind `catalog-remove`. -/
def Gate.removal (cfg : Config) (g : Gate) (current : Int) (storage : Storage)
    (pin : Option DbCall) (origin : String) (d : Dict) : Gate :=
  let (signed, pins) := removalSigned cfg g.pins pin origin d
  if !signed then { g with pins := pins, clock := current }
  else
    let (fresh, journal) := mutationFresh cfg g.journal current storage d origin
    { journal := journal
      pins := pins
      clock := current
      log := if fresh then
          .removed origin (d.get "identity.nonce" "")
            (asciiStrtoll (d.get "identity.timestamp" "")).1 :: g.log
        else g.log }

/-- `receive`, kind `reply`. -/
def Gate.reply (cfg : Config) (g : Gate) (view : View) (pin : Option DbCall) (r : Reply) : Gate :=
  if r.body.get "msg.type" "" = "media" then
    { g with log := .accepted view r (applyReply view r r.body) :: g.log }
  else
    let (signed, pins) := replySigned cfg g.pins pin r
    if !signed then { g with pins := pins }
    else
      { g with pins := pins
               log := .accepted view r (applyReply view r (stripCatalogIdentity r.body)) :: g.log }

def Gate.step (cfg : Config) (g : Gate) : Packet → Gate
  | .removal current storage pin origin d => g.removal cfg current storage pin origin d
  | .request links receivedAt r =>
      if inTime r (links.offset r.origin) receivedAt then
        { g with log := .executed r (links.offset r.origin) receivedAt :: g.log }
      else g
  | .reply view pin r => g.reply cfg view pin r
  | .ask id dest => { g with log := .asked id dest :: g.log }
  | .restart => { g with journal := { g.journal with lastPrune := 0, seen := [] } }

/-- The times of removals do not decrease. -/
def Later (g : Gate) : Packet → Prop
  | .removal current .. => g.clock ≤ current
  | _ => True

def Gate.start (pins : Pins) : Gate := ⟨⟨[], 0, []⟩, pins, 0, []⟩

end RelayAdmission

end RustyRig
