/-
Enrollment of this server with an issuer: `rrserver/mesh.enroll.c`, `rrserver/mesh.bootstrap.c`
and the import of enrolled issuers in `rrserver/link.c`.

A run asks the issuer whether the invitation was redeemed before, asks for a challenge,
records the issuer as pending, redeems, and asks again.  A process can be cut off after any
SQLite statement, so a run leaves a trail of databases.

What the issuer answers, what fails, and the libraries for keys, certificates and URIs are
surroundings; what is sent to the issuer is left out.  Invitations come here validated.
-/
import RustyRig.Lib.Keyed
import RustyRig.Rrserver.Invitation

namespace RustyRig

namespace MeshEnroll

open Invitation (uuidStringIsValid fixedB64 trustVerify trustEnroll)
open Lib (Keyed)

/-! ### Tables -/

/-- The values that the table's `CHECK` allows. -/
inductive BootstrapState
  | pending
  | enrolled
deriving DecidableEq, Repr

/-- A row of `mesh_bootstrap_peers`. -/
structure BootstrapPeer where
  domain : String
  node : String
  url : String
  catalogKey : String
  tlsSpki : String
  state : BootstrapState
deriving DecidableEq, Repr

/-- `PRIMARY KEY(domain,node_uuid)`. -/
def BootstrapPeer.key (r : BootstrapPeer) : String × String := (r.domain, r.node)

/-- The tables: those of invitations with the explicit trust, and the issuers. -/
structure Db where
  base : Invitation.Db
  peers : Keyed BootstrapPeer.key
  /-- `mesh_link_endpoints`, by domain and node. -/
  endpoints : String × String → Option String

/-- The SQLite calls of this file. -/
inductive DbStep
  | schema
  | prepare
  | step
  | endpointSchema
  | endpointPrepare
  | endpointStep
deriving DecidableEq, Repr

/-- The update of a conflicting row: another issuer's coordinates are left alone. -/
def BootstrapPeer.conflict (new r : BootstrapPeer) : BootstrapPeer :=
  if r.url = new.url ∧ r.catalogKey = new.catalogKey ∧ r.tlsSpki = new.tlsSpki then
    { r with state := new.state }
  else r

theorem BootstrapPeer.conflict_key (new r : BootstrapPeer) : (new.conflict r).key = r.key := by
  unfold conflict
  split <;> rfl

/-- `sqlite3_changes` after the upsert. -/
def changes (peers : Keyed BootstrapPeer.key) (new : BootstrapPeer) : Nat :=
  if new.key ∈ peers.rows.map BootstrapPeer.key then
    peers.count fun r => decide (r.key = new.key) && decide (r.url = new.url) &&
      decide (r.catalogKey = new.catalogKey) && decide (r.tlsSpki = new.tlsSpki)
  else 1

/-- `bootstrap_store`. -/
def bootstrapStore (fails : DbStep → Bool) (db : Db) (new : BootstrapPeer) : Bool × Db :=
  if fails .schema || fails .prepare || fails .step then (false, db)
  else
    (changes db.peers new == 1,
      { db with peers := db.peers.upsert new new.conflict new.conflict_key })

/-! ### Endpoints -/

/-- What `g_uri_parse` finds, as far as it is read. -/
structure Uri where
  scheme : String
  host : Option String
  port : Int

/-- `endpoint`. -/
def endpoint (uri : String → Option Uri) (enrollment : String) (port : Nat) : Option String :=
  match uri enrollment with
  | none => none
  | some u =>
      match u.host with
      | none => none
      | some host =>
          if host ≠ "" ∧ u.scheme = "wss" ∧ port ≠ 0 ∧ port ≤ 65535 then
            if host.toList.contains ':' then some s!"wss://[{host}]:{port}/link"
            else some s!"wss://{host}:{port}/link"
          else none

/-- `rr_mesh_bootstrap_store_endpoint`. -/
def bootstrapStoreEndpoint (uri : String → Option Uri) (fails : DbStep → Bool) (db : Db)
    (domain node enrollment : String) (port : Nat) : Bool × Db :=
  match endpoint uri enrollment port with
  | none => (false, db)
  | some url =>
      if fails .endpointSchema || fails .endpointPrepare || fails .endpointStep then (false, db)
      else (true, { db with endpoints := Function.update db.endpoints (domain, node) (some url) })

/-- `rr_mesh_bootstrap_url`, which rewrites the endpoint of the first release. -/
def bootstrapUrl (uri : String → Option Uri) (fails : DbStep → Bool) (db : Db)
    (domain node enrollment : String) : Option String × Db :=
  let url := db.endpoints (domain, node)
  let legacy := (uri enrollment).any (·.port = 4420) && url.isSome &&
    decide (url = endpoint uri enrollment 4421)
  match legacy, endpoint uri enrollment 4420 with
  | true, some migrated =>
      match bootstrapStoreEndpoint uri fails db domain node enrollment 4420 with
      | (true, db) => (some migrated, db)
      | (false, db) => (url, db)
  | _, fallback => (url.or fallback, db)

/-! ### The import -/

/-- What an imported issuer brings into `struct link_peer`. -/
structure ImportedPeer where
  node : String
  url : String
  spki : String
  catalogKey : String
deriving DecidableEq, Repr

/-- `MAX_PEERS`. -/
def maxPeers : Nat := 16

/-- The surroundings of the import. -/
structure Import where
  uuid : String → Bool
  uri : String → Option Uri
  call : Invitation.Call
  fails : DbStep → Bool
  domain : String
  node : String

/-- A WebSocket address over TLS. -/
def isWss (url : String) : Bool := "wss://".toList.isPrefixOf url.toList

/-- The stored entry is well-formed and trusted. -/
def acceptable (i : Import) (db : Db) (r : BootstrapPeer) : Bool :=
  i.uuid r.node && r.node != i.node && isWss r.url &&
    r.catalogKey.utf8ByteSize == 44 && r.tlsSpki.utf8ByteSize == 44 &&
    trustVerify i.call db.base i.domain r.node r.catalogKey r.tlsSpki

/-- The loop over the rows: nothing when a peer has no URL or there is no memory for it. -/
def importRows (i : Import) : List BootstrapPeer → Db → List ImportedPeer → Option (List ImportedPeer)
  | [], _, peers => some peers
  | r :: rows, db, peers =>
      if !acceptable i db r then importRows i rows db peers
      else if peers.any (·.node == r.node) then importRows i rows db peers
      else if peers.length = maxPeers then some peers
      else
        match bootstrapUrl i.uri i.fails db i.domain r.node r.url with
        | (none, _) => none
        | (some url, db) =>
            importRows i rows db (peers ++ [⟨r.node, url, r.tlsSpki, r.catalogKey⟩])

/-- The import behind the configured peers. -/
def importEnrolled (i : Import) (db : Db) (peers : List ImportedPeer) : Option (List ImportedPeer) :=
  importRows i (db.peers.rows.filter fun r => decide (r.domain = i.domain) && decide (r.state = .enrolled))
    db peers

/-! ### Answers -/

/-- `g_strsplit` at newlines into at most so many texts. -/
def strsplit (atMost : Nat) (s : String) : List String :=
  if s = "" then []
  else
    let parts := s.toList.splitOn '\n'
    if parts.length ≤ atMost then parts.map String.ofList
    else (parts.take (atMost - 1)).map String.ofList ++
      [String.ofList (['\n'].intercalate (parts.drop (atMost - 1)))]

/-- `decode_fixed`. -/
def decodeFixed (text : String) (expected : Nat) : Option (List UInt8) :=
  if fixedB64 text expected then some (Base64.decode text.toList) else none

/-- The fields of an invitation, from the second on. -/
structure Fields where
  ticket : String
  domain : String
  node : String
  url : String
  spki : String
  catalog : String
  pem : String
deriving DecidableEq, Repr

/-- The key, certificate and signature library: the binding of a key to a node and a pin. -/
abbrev BindingVerify := List UInt8 → String → String → String → List UInt8 → Bool

/-- The port a status answer announces, as `strtol` reads it. -/
def portOf (s : String) : Option Nat :=
  let port := (Identity.asciiStrtoll s).1
  if 0 < port ∧ port ≤ 65535 ∧ (Identity.asciiStrtoll s).2 = [] then some port.toNat else none

/-- Without one the port is the default. -/
def announcedPort : Option String → Option Nat
  | none => some 4420
  | some text => portOf text

/-- The issuer that a status answer names and proves, with the port's text. -/
def statusIssuer (verify : BindingVerify) (f : Fields) (reply : String) : Option (String × Option String) :=
  let parts := strsplit 6 reply
  if (parts.length = 4 ∨ parts.length = 5) ∧ parts[0]? = some "ENROLLED" ∧
      parts[parts.length - 1]? = some "" then
    match parts[1]?, decodeFixed f.catalog 32, parts[2]?.bind (decodeFixed · 64) with
    | some node, some pub, some sig =>
        if uuidStringIsValid node && verify pub f.domain node f.spki sig then
          some (node, if parts.length = 5 then parts[3]? else none)
        else none
    | _, _, _ => none
  else none

/-- The issuer that a challenge answer names and proves, with the challenge. -/
def challengeIssuer (verify : BindingVerify) (f : Fields) (reply : String) : Option (String × String) :=
  let parts := strsplit 4 reply
  if parts.length = 4 ∧ parts[3]? = some "" then
    match parts[0]?, parts[1]?, decodeFixed f.catalog 32, parts[2]?.bind (decodeFixed · 64) with
    | some challenge, some node, some pub, some sig =>
        if challenge.utf8ByteSize == 44 && uuidStringIsValid node && verify pub f.domain node f.spki sig then
          some (node, challenge)
        else none
    | _, _, _, _ => none
  else none

/-! ### A run -/

/-- One question to the issuer: its answer, if there is one, and what fails afterwards. -/
structure Exchange where
  reply : Option String
  call : Invitation.Call
  fails : DbStep → Bool

/-- The surroundings of a run. -/
structure Surroundings where
  domain : Option String
  cert : Option String
  key : Option String
  dbPath : Option String
  site : Option String
  /-- `rr_crypto_init` and `rr_identity_init`. -/
  identityReady : Bool
  tlsReady : Bool
  certSpki : Option String
  publicKey : Option String
  binding : Option String
  dbOpen : Bool
  node : Option String
  readPem : List UInt8 → Option (List UInt8)
  sign : List UInt8 → String → Option (List UInt8)
  verify : BindingVerify
  uri : String → Option Uri
  /-- libcurl with the pin and its other options. -/
  curlReady : Bool
  first : Exchange
  challenge : Exchange
  second : Exchange

/-- What is at hand when the issuer is first asked: the invitation's key, the catalog key and the
TLS pin. -/
structure Prepared where
  invite : List UInt8
  publicKey : String
  spki : String

/-- The steps before the issuer is asked. -/
def prepare (e : Surroundings) (f : Fields) : Option Prepared :=
  if e.domain ≠ some f.domain ∨ e.cert = none ∨ e.key = none ∨ e.dbPath = none ∨ e.site = none ∨
      e.site = some "" then none
  else if !e.identityReady || !e.tlsReady then none
  else
    match e.certSpki, e.publicKey with
    | some spki, some publicKey =>
        if e.binding = none || !e.dbOpen || e.node ≠ some f.node then none
        else
          let pem := Base64.decode f.pem.toList
          if pem.length < 32 || 6144 < pem.length then none
          else
            match e.readPem pem with
            | none => none
            | some invite =>
                if decodeFixed f.catalog 32 = none then none
                else if !isWss (String.ofList (f.url.toList.take (f.url.length - 5))) then none
                else if !e.curlReady then none
                else some ⟨invite, publicKey, spki⟩
    | _, _ => none

/-- The databases a run leaves behind, the present one first. -/
structure Trail where
  now : Db
  past : List Db

def Trail.states (t : Trail) : List Db := t.now :: t.past

/-- One statement. -/
def Trail.write (t : Trail) (f : Db → Bool × Db) : Bool × Trail :=
  ((f t.now).1, ⟨(f t.now).2, t.now :: t.past⟩)

/-- The row that is stored for an issuer. -/
def row (f : Fields) (node : String) (state : BootstrapState) : BootstrapPeer :=
  ⟨f.domain, node, f.url, f.catalog, f.spki, state⟩

/-- `rr_identity_trust_enroll` on these tables. -/
def enrollTrust (call : Invitation.Call) (f : Fields) (node : String) (db : Db) : Bool × Db :=
  let r := trustEnroll call db.base f.domain node f.catalog f.spki
  (r.1, { db with base := r.2 })

/-- `rr_identity_trust_enroll` and `bootstrap_store` after it. -/
def record (x : Exchange) (f : Fields) (node : String) (state : BootstrapState) (t : Trail) : Bool × Trail :=
  match t.write (enrollTrust x.call f node) with
  | (false, t) => (false, t)
  | (true, t) => t.write (bootstrapStore x.fails · (row f node state))

/-- `committed_status`. -/
def committedStatus (e : Surroundings) (f : Fields) (x : Exchange) (t : Trail) : Bool × Trail :=
  match x.reply.bind (statusIssuer e.verify f) with
  | none => (false, t)
  | some (node, port) =>
      match record x f node .enrolled t with
      | (false, t) => (false, t)
      | (true, t) =>
          match announcedPort port with
          | none => (false, t)
          | some port => t.write (bootstrapStoreEndpoint e.uri x.fails · f.domain node f.url port)

/-- What the invitation's key signs. -/
def transcript (f : Fields) (p : Prepared) (challenge : String) : String :=
  s!"rustyrig.mesh.enroll.v1\n{f.ticket}\n{f.domain}\n{f.node}\n{challenge}\n{p.publicKey}\n{p.spki}\n"

/-- The issuer of the challenge, once the transcript is signed. -/
def signedIssuer (e : Surroundings) (f : Fields) (p : Prepared) : Option String :=
  match e.challenge.reply.bind (challengeIssuer e.verify f) with
  | none => none
  | some (node, challenge) => (e.sign p.invite (transcript f p challenge)).map fun _ => node

/-- `rr_mesh_enroll_run`.  The answer to the redemption itself is not looked at. -/
def run (e : Surroundings) (f : Fields) (db : Db) : Bool × Trail :=
  match prepare e f with
  | none => (false, ⟨db, []⟩)
  | some p =>
      match committedStatus e f e.first ⟨db, []⟩ with
      | (true, t) => (true, t)
      | (false, t) =>
          match signedIssuer e f p with
          | none => (false, t)
          | some node =>
              match record e.challenge f node .pending t with
              | (false, t) => (false, t)
              | (true, t) => committedStatus e f e.second t

end MeshEnroll

end RustyRig
