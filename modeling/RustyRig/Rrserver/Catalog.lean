/-
The discovery catalog, from `rrserver/relay.catalog.c` and the catalog parts of
`rrserver/relay.c`.

A catalog is a list of signed descriptors: nodes, rigs and VFOs under their UUIDs, services
under a key that names their owner, and rooms under `room:<name>`.  A server collects its own
and receives those of the servers it can reach.  A room claim is the one kind that another
server may displace, when it proves to be the station the room belongs to.

Two servers' rooms differ by more than case.  Signatures, hashes, the room name test and the
UUID test of the missing libraries are parameters; what configuration, memory and the
database answer is an argument of each call.  Log lines, counters, packets to other servers
and notices to clients are left out.
-/
import RustyRig.Lib.Register
import RustyRig.Rrserver.Identity
import RustyRig.Rrserver.Relay

namespace RustyRig

namespace Catalog

open Identity (DbCall Receiver)

/-- `enum rr_catalog_reject`. -/
inductive CatalogReject
  | ok
  | owner
  | parent
  | service
  | identity
  | roomAuth
  | memory
  | capacity
deriving DecidableEq, Repr

/-- `MAX_CATALOG`. -/
def maxCatalog : Nat := 2048

/-- The identity of a server of the tree, which the link layer has checked. -/
structure Origin (u : UuidFormat) where
  id : String
  valid : u.valid id = true

/-- What stands outside the catalog and never changes. -/
structure Api where
  /-- `rr_object_uuid_valid`. -/
  uuid : UuidFormat
  /-- A UUID has no colon in it. -/
  no_colon : ∀ id, uuid.valid id = true → ':' ∉ id.toList
  /-- `rrserver_links_node`. -/
  self : Origin uuid
  /-- `ws_room_name_valid`. -/
  roomNameValid : String → Bool
  /-- SHA-256, for revisions. -/
  sha : String → String
  /-- The signature of a canonical text. -/
  sign : String → String
  /-- `rr_identity_verify_catalog`. -/
  verify : Dict → Bool

/-- What the configuration and the rig registry answer during one call. -/
structure Site where
  domain : String
  /-- `rr_identity_public_base64`. -/
  publicKey : Option String
  /-- `ws_site_room`. -/
  siteRoom : String
  /-- `rrserver_rig_room_configured`. -/
  roomConfigured : String → Bool

/-- What memory, the signer and the database answer during one call. -/
structure Answers where
  clone : Bool
  alloc : Bool
  signs : Bool
  pin : Option DbCall
  revision : Option DbCall
  /-- `db_room_status`: none when it fails, else whether the room exists. -/
  roomStatus : Option Bool
  /-- `db_room_delete`. -/
  roomDelete : Bool

/-- `struct catalog`. -/
structure CatalogEntry where
  owner : String
  key : String
  descriptor : Dict
  seen : Bool

/-- The catalog, with the stores of pins and revisions its checks write to. -/
structure Store where
  /-- `rr_relay_catalogs`. -/
  entries : List CatalogEntry
  /-- `rr_relay_catalog_count`. -/
  count : Nat
  ids : Receiver

/-! ### Lookups -/

/-- `!strncmp(key, "room:", 5)`. -/
def isRoomKey (key : String) : Bool := "room:".toList.isPrefixOf key.toList

/-- The comparison in `rr_relay_find_catalog`. -/
def CatalogEntry.answers (c : CatalogEntry) (key : String) : Bool :=
  c.key == key || isRoomKey key && sameName c.key key

/-- `rr_relay_find_catalog`. -/
def findCatalog (entries : List CatalogEntry) (key : String) : Option CatalogEntry :=
  entries.find? (·.answers key)

/-- `object.type` of an entry. -/
def CatalogEntry.type (c : CatalogEntry) : String := c.descriptor.get "object.type" ""

/-- `owns_station_room`. -/
def ownsStationRoom (entries : List CatalogEntry) (owner room : String) : Bool :=
  entries.any fun c =>
    c.owner == owner && (c.type == "node" || c.type == "rig") &&
      sameName (c.descriptor.get "object.room" "") room

/-- As much of a text as fits `n` bytes. -/
def cut : Nat → List Char → List Char
  | _, [] => []
  | n, c :: cs => if c.utf8Size ≤ n then c :: cut (n - c.utf8Size) cs else []

/-- `"room:%s"` in a buffer of 160 bytes. -/
def roomKey (room : String) : String := "room:" ++ String.ofList (cut 154 room.toList)

/-! ### Admission -/

/-- What a remote object may claim to be. -/
def checkObject (entries : List CatalogEntry) (owner uuid : String) (d : Dict) : CatalogReject :=
  let type := d.get "object.type" ""
  let parent := d.get "object.owner" ""
  if type = "node" then
    if uuid ≠ owner then .owner else .ok
  else if type = "rig" then
    if parent ≠ owner then .owner else .ok
  else if type = "vfo" then
    match findCatalog entries parent with
    | none => .parent
    | some rig => if rig.owner ≠ owner || rig.type ≠ "rig" then .parent else .ok
  else .identity

/-- The kinds of inventory a service may be. -/
def serviceKinds : List String :=
  ["gps", "serial", "media", "cat", "share", "control", "rig-control", "rig-menu",
    "rig-menu-item", "performance-stat"]

/-- What a service key starts with. -/
def servicePrefix (owner : String) : String := "service:" ++ owner ++ ":"

/-- What a service must be, and whose. -/
def checkService (entries : List CatalogEntry) (owner service : String) (d : Dict) :
    CatalogReject :=
  let kind := d.get "inventory.kind" ""
  match findCatalog entries (d.get "catalog.parent" "") with
  | none => .parent
  | some authority =>
      let menuChild :=
        kind == "rig-menu-item" && authority.descriptor.get "inventory.kind" "" == "rig-menu"
      if authority.owner ≠ owner then .parent
      else if (d.get? "object.uuid").isSome || d.get "object.type" "" ≠ "service" ||
          (authority.type ≠ "node" && authority.type ≠ "rig" && authority.type ≠ "vfo" &&
            !menuChild) ||
          !serviceKinds.contains kind || service.utf8ByteSize < 9 + owner.utf8ByteSize ||
          160 ≤ service.utf8ByteSize ||
          !(servicePrefix owner).toList.isPrefixOf service.toList then .service
      else .ok

/-- A local object is whatever it says. -/
def checkRemote (api : Api) (entries : List CatalogEntry) (owner : String) (d : Dict) :
    CatalogReject :=
  match d.get? "object.uuid" with
  | none => .ok
  | some uuid => if owner = api.self.id then .ok else checkObject entries owner uuid d

/-- The key of a descriptor that has passed its checks. -/
def catalogKey (api : Api) (entries : List CatalogEntry) (owner : String) (d : Dict) :
    Except CatalogReject String :=
  if checkRemote api entries owner d ≠ .ok then .error (checkRemote api entries owner d)
  else
    match d.get? "catalog.service" with
    | some service =>
        if checkService entries owner service d ≠ .ok then
          .error (checkService entries owner service d)
        else .ok service
    | none =>
        match (d.get? "object.uuid").filter api.uuid.valid with
        | some uuid => .ok uuid
        | none =>
            match (d.get? "catalog.room").filter api.roomNameValid with
            | some room => .ok (roomKey room)
            | none => .error .identity

/-- The guard of a claim on somebody else's entry: only proven station authority may
displace a stale room claim. -/
def mayReplace (api : Api) (site : Site) (entries : List CatalogEntry) (holder owner : String)
    (d : Dict) : Bool :=
  match d.get? "catalog.room" with
  | none => false
  | some room =>
      !((d.get? "object.uuid").isSome || owner == api.self.id ||
        !ownsStationRoom entries owner room || ownsStationRoom entries holder room ||
        sameName room site.siteRoom || site.roomConfigured room)

/-- The identity fields of a local descriptor. -/
def stamp (site : Site) (owner publicKey : String) (d : Dict) : Dict :=
  ((((d.add "identity.owner" owner).add "identity.domain" site.domain).add
    "identity.public-key" publicKey).add "identity.scheme" "ed25519-catalog-v1").add
    "identity.operation" "catalog-upsert"

/-- A signed descriptor of another server: whose it is, for which domain, and the signature. -/
def signedRight (api : Api) (site : Site) (owner operation : String) (d : Dict) : Bool :=
  d.get "identity.owner" "" == owner && sameName (d.get "identity.domain" "") site.domain &&
    d.get "identity.scheme" "" == "ed25519-catalog-v1" &&
    d.get "identity.operation" "" == operation && api.verify d

/-- The copy to store: a local one is numbered and signed, unless the collection seals it
later, and any other signed one is verified. -/
def sealCopy (api : Api) (site : Site) (a : Answers) (collecting : Bool) (ids : Receiver)
    (owner key : String) (d : Dict) : Except CatalogReject Dict × Receiver :=
  match owner == api.self.id && !collecting, site.publicKey with
  | true, some publicKey =>
      match Identity.localRevision api.sha a.revision ids.journal ⟨site.domain, owner, key⟩
          (stamp site owner publicKey d) with
      | (false, journal, _) => (.error .identity, { ids with journal := journal })
      | (true, journal, copy) =>
          if a.signs then
            (.ok (Identity.signCatalog api.sign copy), { ids with journal := journal })
          else (.error .identity, { ids with journal := journal })
  | _, _ =>
      if (d.get? "identity.signature").isSome && !signedRight api site owner "catalog-upsert" d then
        (.error .identity, ids)
      else (.ok d, ids)

/-- The pinned key, and for another server's descriptor the revision. -/
def checkStores (api : Api) (site : Site) (a : Answers) (ids : Receiver) (owner key : String)
    (copy : Dict) : CatalogReject × Receiver :=
  if (copy.get? "identity.signature").isNone then (.ok, ids)
  else
    match Identity.checkPin a.pin ids.pins (copy.get "identity.domain" "")
        (copy.get "identity.owner" "") (copy.get "identity.public-key" "") with
    | (false, pins) => (.identity, { ids with pins := pins })
    | (true, pins) =>
        if owner = api.self.id then (.ok, { ids with pins := pins })
        else if (copy.get? "identity.revision").isNone then (.identity, { ids with pins := pins })
        else
          match Identity.acceptRevision api.sha a.revision ids.journal ⟨site.domain, owner, key⟩
              copy with
          | (false, journal) => (.identity, ⟨pins, journal⟩)
          | (true, journal) => (.ok, ⟨pins, journal⟩)

/-- Both: the copy to store, or the reason why there is none. -/
def admitCopy (api : Api) (site : Site) (a : Answers) (collecting : Bool) (ids : Receiver)
    (owner key : String) (d : Dict) : Except CatalogReject Dict × Receiver :=
  if !a.clone then (.error .memory, ids)
  else
    match sealCopy api site a collecting ids owner key d with
    | (.error why, ids) => (.error why, ids)
    | (.ok copy, ids) =>
        match checkStores api site a ids owner key copy with
        | (.ok, ids) => (.ok copy, ids)
        | (why, ids) => (.error why, ids)

/-- The metadata of a local room that is displaced goes first. -/
def withdrawn (a : Answers) : Bool :=
  match a.roomStatus with
  | none => false
  | some exists_ => !exists_ || a.roomDelete

/-- What is refused at once: another server's descriptor without a signature, a local one
without a key to sign it, and a misspelled visibility. -/
def refusedAtOnce (api : Api) (site : Site) (owner : String) (d : Dict) : Bool :=
  owner != api.self.id && (d.get? "identity.signature").isNone ||
    owner == api.self.id && site.publicKey.isNone ||
    !(["clients", "server-only"].contains (d.get "catalog.visibility" "clients"))

/-- The rest of the put, once the key is known. -/
def putUnder (api : Api) (site : Site) (a : Answers) (collecting : Bool) (s : Store)
    (owner key : String) (d : Dict) : CatalogReject × Store :=
  let holder := (findCatalog s.entries key).map (·.owner)
  let replace := holder.any (· != owner)
  if replace && !mayReplace api site s.entries (holder.getD "") owner d then (.roomAuth, s)
  else
    match admitCopy api site a collecting s.ids owner key d with
    | (.error why, ids) => (why, { s with ids := ids })
    | (.ok copy, ids) =>
        if replace && holder == some api.self.id && !withdrawn a then
          (.roomAuth, { s with ids := ids })
        else if holder.isNone then
          if s.count = maxCatalog then (.capacity, { s with ids := ids })
          else if !a.alloc then (.memory, { s with ids := ids })
          else (.ok, ⟨⟨owner, key, copy, true⟩ :: s.entries, s.count + 1, ids⟩)
        else if replace then
          (.ok, { s with
            entries := Lib.changeFirst (·.answers key) (fun _ => ⟨owner, key, copy, true⟩) s.entries
            ids := ids })
        else
          (.ok, { s with
            entries := Lib.changeFirst (·.answers key)
              (fun c => { c with descriptor := copy, seen := true }) s.entries
            ids := ids })

/-- `rr_relay_catalog_put_reason`. -/
def catalogPut (api : Api) (site : Site) (a : Answers) (collecting : Bool) (s : Store)
    (owner : Origin api.uuid) (d : Dict) : CatalogReject × Store :=
  if refusedAtOnce api site owner.id d then (.identity, s)
  else
    match catalogKey api s.entries owner.id d with
    | .error why => (why, s)
    | .ok key => putUnder api site a collecting s owner.id key d

/-! ### Local descriptors -/

/-- What a collector does: it puts a descriptor, or describes the rig it has just put. -/
inductive Collected
  | put (a : Answers) (d : Dict)
  | rig (id backend name location : String) (model : Option String)

/-- What `collect_rig` adds to the entry it finds under a rig's UUID. -/
def describeRig (backend name location : String) (model : Option String) (d : Dict) : Dict :=
  let d := ((d.add "object.backend" backend).add "object.name" name).add "object.location" location
  match model with
  | none => d
  | some model => d.add "object.model" model

def collect (api : Api) (site : Site) (s : Store) : Collected → Store
  | .put a d => (catalogPut api site a true s api.self d).2
  | .rig id backend name location model =>
      { s with
        entries := Lib.changeFirst (·.answers id) (fun c =>
          { c with descriptor := describeRig backend name location model c.descriptor }) s.entries }

/-- The finalization of one local entry: stamped anew, numbered and signed, or left unsigned. -/
def sealEntry (api : Api) (site : Site) (a : Answers) (journal : Identity.Journal)
    (c : CatalogEntry) : CatalogEntry × Identity.Journal :=
  let d := stamp site c.owner (site.publicKey.getD "") (c.descriptor.del "identity.signature")
  match Identity.localRevision api.sha a.revision journal ⟨site.domain, c.owner, c.key⟩ d with
  | (false, journal, d) => ({ c with descriptor := d }, journal)
  | (true, journal, d) =>
      ({ c with descriptor := if a.signs then Identity.signCatalog api.sign d else d }, journal)

/-- The finalization barrier, over what the signer and the database answer for each key. -/
def finalize (api : Api) (site : Site) (answers : String → Answers) :
    List CatalogEntry → Identity.Journal → List CatalogEntry × Identity.Journal
  | [], journal => ([], journal)
  | c :: rest, journal =>
      if c.owner = api.self.id && c.seen then
        let (c, journal) := sealEntry api site (answers c.key) journal c
        let (rest, journal) := finalize api site answers rest journal
        (c :: rest, journal)
      else
        let (rest, journal) := finalize api site answers rest journal
        (c :: rest, journal)

/-- `rr_relay_collect_local`; `none` when there are no rigs yet. -/
def collectLocal (api : Api) (site : Site) (answers : String → Answers) (s : Store) :
    Option (List Collected) → Store
  | none => s
  | some steps =>
      let s := steps.foldl (collect api site) s
      let (entries, journal) := finalize api site answers s.entries s.ids.journal
      { s with entries := entries, ids := { s.ids with journal := journal } }

/-- An entry that is no longer there once the local ones were collected. -/
def gone (api : Api) (c : CatalogEntry) : Bool := c.owner == api.self.id && !c.seen

/-- `rr_relay_refresh_catalog`. -/
def refreshCatalog (api : Api) (site : Site) (answers : String → Answers) (s : Store)
    (steps : Option (List Collected)) : Store :=
  let unseen := { s with
    entries := s.entries.map fun c =>
      if c.owner = api.self.id then { c with seen := false } else c }
  let s := collectLocal api site answers unseen steps
  { s with
    entries := s.entries.filter (!gone api ·)
    count := s.count - s.entries.countP (gone api) }

/-! ### Snapshots and removals -/

/-- The entries of one kind, those of services in two passes. -/
def snapshotPass (route : String → Option String) (forceSigned : Bool) (dest type : String)
    (nested : Option Bool) (entries : List CatalogEntry) : List CatalogEntry :=
  entries.filter fun c =>
    c.descriptor.get "object.type" "room" == type &&
      nested.all
        (· == "service:".toList.isPrefixOf (c.descriptor.get "catalog.parent" "").toList) &&
      ((c.descriptor.get? "identity.signature").isSome || !forceSigned) &&
      route c.owner != some dest

/-- The entries that `rr_relay_send_catalogs` queues for a peer, in their order. -/
def snapshot (route : String → Option String) (forceSigned : Bool) (dest : String)
    (entries : List CatalogEntry) : List CatalogEntry :=
  ["node", "rig", "vfo", "room"].flatMap
      (fun type => snapshotPass route forceSigned dest type none entries) ++
    snapshotPass route forceSigned dest "service" (some false) entries ++
    snapshotPass route forceSigned dest "service" (some true) entries

/-- The entry that a `catalog-remove` names. -/
def named (origin : String) (d : Dict) (c : CatalogEntry) : Bool :=
  let uuid := d.get? "object.uuid"
  let room := d.get? "catalog.room"
  let key := match d.get? "catalog.service", uuid with
    | some service, _ => service
    | none, some uuid => uuid
    | none, none => "room:" ++ room.getD ""
  (c.key == String.ofList (cut 159 key.toList) ||
    uuid.isNone && room.isSome && sameName c.key (String.ofList (cut 159 key.toList))) &&
    c.owner == origin

/-- `receive`, kind `catalog-remove`; `fresh` is what `catalog_mutation_fresh` says. -/
def catalogRemove (api : Api) (site : Site) (pin : Option DbCall) (fresh : Bool) (s : Store)
    (origin : Origin api.uuid) (d : Dict) : Store :=
  if (d.get "identity.signature" "") = "" then s
  else if !(d.get "identity.owner" "" == origin.id &&
      sameName (d.get "identity.domain" "") site.domain && api.verify d &&
      d.get "identity.operation" "" == "catalog-remove") then s
  else
    match Identity.checkPin pin s.ids.pins (d.get "identity.domain" "") origin.id
        (d.get "identity.public-key" "") with
    | (false, pins) => { s with ids := { s.ids with pins := pins } }
    | (true, pins) =>
        let s := { s with ids := { s.ids with pins := pins } }
        if !fresh then s
        else if s.entries.any (named origin.id d) then
          { s with entries := s.entries.eraseP (named origin.id d), count := s.count - 1 }
        else s

/-- An entry whose owner can no longer be reached. -/
def stranded (api : Api) (route : String → Option String) (c : CatalogEntry) : Bool :=
  !(c.owner == api.self.id || (route c.owner).isSome)

/-- What `lost` does to the catalog. -/
def lost (api : Api) (route : String → Option String) (s : Store) : Store :=
  { s with
    entries := s.entries.filter (!stranded api route ·)
    count := s.count - s.entries.countP (stranded api route) }

/-! ### Any events, in any order -/

/-- What happens to a catalog. -/
inductive CatalogEvent (api : Api)
  | put (site : Site) (a : Answers) (owner : Origin api.uuid) (d : Dict)
  | collect (site : Site) (answers : String → Answers) (steps : Option (List Collected))
  | refresh (site : Site) (answers : String → Answers) (steps : Option (List Collected))
  | snapshot (route : String → Option String) (forceSigned : Bool) (dest : String)
  | remove (site : Site) (pin : Option DbCall) (fresh : Bool) (origin : Origin api.uuid) (d : Dict)
  | lost (route : String → Option String)
  | fini

/-- One event.  A snapshot reads the catalog and leaves it. -/
def Store.step (api : Api) (s : Store) : CatalogEvent api → Store
  | .put site a owner d => (catalogPut api site a false s owner d).2
  | .collect site answers steps => collectLocal api site answers s steps
  | .refresh site answers steps => refreshCatalog api site answers s steps
  | .snapshot .. => s
  | .remove site pin fresh origin d => catalogRemove api site pin fresh s origin d
  | .lost route => Catalog.lost api route s
  | .fini => { s with entries := [], count := 0 }

def Store.run (api : Api) (s : Store) (events : List (CatalogEvent api)) : Store :=
  events.foldl (Store.step api) s

/-- A catalog with nothing in it, over whatever pins and revisions a database kept. -/
def Store.start (ids : Receiver) : Store := ⟨[], 0, ids⟩

end Catalog

end RustyRig
