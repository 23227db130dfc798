/-
Enrollment invitations, from `rrserver/identity.c`, and the request that redeems one, from
`rrserver/mesh.enroll.native.c`.

An administrator issues an invitation for one server identity.  That server asks for a
challenge, signs it, and redeems the invitation, which records its two permanent keys as
explicitly trusted.  The tables are partial maps from their primary keys; the catalog key
pins are those of `Identity`.

Each function takes a `Call`: the clock it reads and the SQLite calls that fail on it.
What the generator of keys, identifiers and nonces gives, and the two signature checks,
are arguments.  NULL arguments, which every function refuses first, are left out, and so
are the form decoding and the replies of the enrollment request.
-/
import RustyRig.Rrserver.Identity
import RustyRig.Rrserver.Uuid

namespace RustyRig

namespace Invitation

open Identity (Pins isSpace)

/-! ### Texts -/

/-- `g_uuid_string_is_valid`. -/
def uuidStringIsValid (s : String) : Bool := UuidFormat.hex.valid s

def base64Alphabet : List Char :=
  "ABCDEFGHIJKLMNOPQRSTUVWXYZabcdefghijklmnopqrstuvwxyz0123456789+/".toList

def base64Digit (n : Nat) : Char := base64Alphabet.getD n 'A'

/-- `g_base64_encode`. -/
def base64Encode : List Nat → List Char
  | [] => []
  | [a] => [base64Digit (a / 4), base64Digit (a % 4 * 16), '=', '=']
  | [a, b] =>
      [base64Digit (a / 4), base64Digit (a % 4 * 16 + b / 16), base64Digit (b % 16 * 4), '=']
  | a :: b :: c :: rest =>
      base64Digit (a / 4) :: base64Digit (a % 4 * 16 + b / 16) ::
        base64Digit (b % 16 * 4 + c / 64) :: base64Digit (c % 64) :: base64Encode rest

/-- A padding character counts as the digit zero. -/
def base64Rank (c : Char) : Nat := if c = '=' then 0 else base64Alphabet.idxOf c

/-- Four digits at a time; padding in the last two places drops a byte each. -/
def base64Quads : List Char → List Nat
  | a :: b :: c :: d :: rest =>
      let v := ((base64Rank a * 64 + base64Rank b) * 64 + base64Rank c) * 64 + base64Rank d
      (v / 65536) :: (if c = '=' then [] else [v / 256 % 256]) ++
        (if d = '=' then [] else [v % 256]) ++ base64Quads rest
  | _ => []

def isBase64 (c : Char) : Bool := c == '=' || base64Alphabet.contains c

/-- `g_base64_decode`: it skips what is no digit. -/
def base64Decode (s : List Char) : List Nat := base64Quads (s.filter isBase64)

/-- `fixed_b64`: the one spelling of `expected` bytes. -/
def fixedB64 (text : String) (expected : Nat) : Bool :=
  text.utf8ByteSize == (expected + 2) / 3 * 4 &&
    (base64Decode text.toList).length == expected &&
    base64Encode (base64Decode text.toList) == text.toList

/-- `trust_key_valid`, which also looks at every character first. -/
def trustKeyValid (key : String) (decodedLength : Nat) : Bool :=
  key.utf8ByteSize == (decodedLength + 2) / 3 * 4 && key.toList.all isBase64 &&
    (base64Decode key.toList).length == decodedLength &&
    base64Encode (base64Decode key.toList) == key.toList

/-! ### Tables -/

/-- The values that the table's `CHECK` allows. -/
inductive Status
  | pending
  | used
  | revoked
deriving DecidableEq, Repr

/-- The columns a redemption fills in. -/
structure Joined where
  uuid : String
  catalogKey : String
  tlsSpki : String
  consumedAt : Int
deriving DecidableEq, Repr

/-- A row of `mesh_join_invitations`. -/
structure Ticket where
  domain : String
  publicKey : String
  expiresAt : Int
  status : Status
  joined : Option Joined
deriving DecidableEq, Repr

/-- A row of `mesh_join_challenges`. -/
structure Challenge where
  challenge : String
  expiresAt : Int
deriving DecidableEq, Repr

/-- A row of `mesh_explicit_trust`. -/
structure Trust where
  catalogKey : String
  tlsSpki : String
deriving DecidableEq, Repr

/-- The tables. -/
structure Db where
  /-- `mesh_join_invitations`, by `ticket_id`. -/
  invitations : String → Option Ticket
  /-- `mesh_join_invitation_targets`: the `joining_uuid` of a ticket. -/
  targets : String → Option String
  /-- `mesh_join_challenges`, by `ticket_id`. -/
  challenges : String → Option Challenge
  /-- `mesh_explicit_trust`, by domain and owner. -/
  trust : String × String → Option Trust
  /-- `mesh_identity_pins`. -/
  pins : Pins

/-- No table has a row yet. -/
def Db.empty : Db :=
  ⟨fun _ => none, fun _ => none, fun _ => none, fun _ => none, fun _ => none⟩

/-- The SQLite calls a function makes, each of which may fail. -/
inductive DbStep
  | schema
  | targetSchema
  | challengeSchema
  | trustSchema
  | beginImmediate
  | prepare
  | step
  | enrollSchema
  | enrollPrepare
  | enrollStep
  | verifySchema
  | verifyPrepare
  | verifyStep
  | commit
deriving DecidableEq, Repr

/-- The surroundings of one call: the clock it reads and what fails. -/
structure Call where
  now : Int
  fails : DbStep → Bool

/-! ### Explicit trust -/

/-- `rr_identity_trust_verify`. -/
def trustVerify (c : Call) (db : Db) (domain owner catalogKey tlsSpki : String) : Bool :=
  if c.fails .verifySchema || c.fails .verifyPrepare || c.fails .verifyStep then false
  else
    match db.trust (domain, owner) with
    | none => false
    | some row => row.catalogKey == catalogKey && row.tlsSpki == tlsSpki

/-- `rr_identity_trust_enroll`: `INSERT OR IGNORE`, then what stands is compared. -/
def trustEnroll (c : Call) (db : Db) (domain owner catalogKey tlsSpki : String) : Bool × Db :=
  if domain = "" || !uuidStringIsValid owner || !trustKeyValid catalogKey 32 ||
      !trustKeyValid tlsSpki 32 || c.fails .enrollSchema || c.fails .enrollPrepare ||
      c.fails .enrollStep then (false, db)
  else
    let db' :=
      if (db.trust (domain, owner)).isSome then db
      else { db with
        trust := Function.update db.trust (domain, owner) (some ⟨catalogKey, tlsSpki⟩) }
    (trustVerify c db' domain owner catalogKey tlsSpki, db')

/-! ### Invitations -/

/-- `strtoul` in base 10 as the expiry setting is read: whole, and between 1 and 8760. -/
def invitationHours (configured : Option String) : Option Nat :=
  let text := match configured with
    | none => "72"
    | some s => if s = "" then "72" else s
  let body := text.toList.dropWhile isSpace
  let negative := body.head? == some '-'
  let u := if negative || body.head? == some '+' then body.tail else body
  let n := Nat.ofDigitChars 10 (u.takeWhile Char.isDigit) 0
  -- a sign negates modulo 2^64, and the value itself must fit
  let hours := if negative then (2 ^ 64 - n) % 2 ^ 64 else n
  if u.takeWhile Char.isDigit = [] || u.dropWhile Char.isDigit ≠ [] || 2 ^ 64 ≤ n ||
      hours < 1 || 8760 < hours then none
  else some hours

/-- Zero stands for the configured time from now. -/
def inviteExpiry (now : Int) (configured : Option String) (expires : Int) : Option Int :=
  if expires = 0 then (invitationHours configured).map fun hours => now + hours * 3600
  else some expires

/-- `rr_identity_invite_create`. -/
def inviteCreate (c : Call) (configured : Option String) (db : Db)
    (id domain pub : String) (expires : Int) : Bool × Db :=
  match inviteExpiry c.now configured expires with
  | none => (false, db)
  | some expires =>
      if !uuidStringIsValid id || domain = "" || !trustKeyValid pub 32 ||
          expires ≤ c.now || c.fails .schema || c.fails .prepare then (false, db)
      else if c.fails .step || (db.invitations id).isSome then (false, db)
      else
        (true, { db with
          invitations := Function.update db.invitations id
            (some ⟨domain, pub, expires, .pending, none⟩) })

/-- `rr_identity_invite_revoke`. -/
def inviteRevoke (c : Call) (db : Db) (id : String) : Bool × Db :=
  if c.fails .schema || c.fails .prepare || c.fails .step then (false, db)
  else
    match db.invitations id with
    | none => (false, db)
    | some t =>
        if t.status = .pending then
          (true, { db with
            invitations := Function.update db.invitations id (some { t with status := .revoked }) })
        else (false, db)

/-- What `rr_identity_invite_issue` draws and finds: the new ticket's identifier, its key
pair as texts when one could be made, and the issuer's own public key. -/
structure Issuing where
  create : Call
  target : Call
  revoke : Call
  configured : Option String
  id : String
  key : Option (String × String)
  issuerPublic : Option String

/-- The token's lines. -/
def inviteToken (id domain joiningUuid url spki issuerPub pem64 : String) : String :=
  "RUSTYRIG-JOIN-2\n" ++ id ++ "\n" ++ domain ++ "\n" ++ joiningUuid ++ "\n" ++ url ++ "\n" ++
    spki ++ "\n" ++ issuerPub ++ "\n" ++ pem64 ++ "\n"

/-- `rr_identity_invite_issue`.  A ticket that gets no target is revoked again. -/
def inviteIssue (i : Issuing) (db : Db) (domain url spki joiningUuid : String) (expires : Int) :
    Option String × Db :=
  if domain = "" || !uuidStringIsValid joiningUuid || i.target.fails .targetSchema ||
      !"wss://".isPrefixOf url || url.toList.contains '\n' || url.toList.contains '\r' ||
      !trustKeyValid spki 32 then (none, db)
  else
    match i.key, i.issuerPublic with
    | some (pub64, pem64), some issuerPub =>
        match inviteCreate i.create i.configured db i.id domain pub64 expires with
        | (false, db) => (none, db)
        | (true, db) =>
            if i.target.fails .prepare || i.target.fails .step || (db.targets i.id).isSome then
              (none, (inviteRevoke i.revoke db i.id).2)
            else
              (some (inviteToken i.id domain joiningUuid url spki issuerPub pem64),
                { db with targets := Function.update db.targets i.id (some joiningUuid) })
    | _, _ => (none, db)

/-- The condition shared by the statements below: pending, unexpired, and for this node. -/
def Db.admits (db : Db) (id domain node : String) (now : Int) : Bool :=
  match db.invitations id, db.targets id with
  | some t, some joiningUuid =>
      t.domain == domain && joiningUuid == node && t.status == .pending &&
        decide (now < t.expiresAt)
  | _, _ => false

/-- `rr_identity_invite_challenge`, over the encoded nonce the generator gave. -/
def inviteChallenge (c : Call) (db : Db) (id domain node : String) (nonce : Option String) :
    Option String × Db :=
  if !uuidStringIsValid id || domain = "" || !uuidStringIsValid node || c.fails .schema ||
      c.fails .targetSchema || c.fails .challengeSchema then (none, db)
  else
    match nonce with
    | none => (none, db)
    | some encoded =>
        if c.fails .prepare || c.fails .step || !db.admits id domain node c.now then (none, db)
        else
          (some encoded, { db with
            challenges := Function.update db.challenges id (some ⟨encoded, c.now + 120⟩) })

/-- The row the claim deletes: this challenge, unexpired. -/
def Db.challengeStands (db : Db) (id challenge : String) (now : Int) : Bool :=
  match db.challenges id with
  | none => false
  | some row => row.challenge == challenge && decide (now < row.expiresAt)

/-- `rr_identity_invite_challenge_claim`. -/
def inviteChallengeClaim (c : Call) (db : Db) (id domain node challenge : String) : Bool × Db :=
  if !uuidStringIsValid id || !uuidStringIsValid node || !trustKeyValid challenge 32 ||
      c.fails .challengeSchema || c.fails .prepare || c.fails .step then (false, db)
  else if db.challengeStands id challenge c.now && db.admits id domain node c.now then
    (true, { db with challenges := Function.update db.challenges id none })
  else (false, db)

/-- `rr_identity_invite_verify_proof`, over the signature check `verifies`. -/
def inviteVerifyProof (verifies : String → String → String → Bool) (c : Call) (db : Db)
    (id domain transcript signature : String) : Bool :=
  if transcript = "" || 4096 < transcript.utf8ByteSize || c.fails .schema || c.fails .prepare ||
      c.fails .step then false
  else
    match db.invitations id with
    | none => false
    | some t =>
        t.domain == domain && t.status == .pending && decide (c.now < t.expiresAt) &&
          trustKeyValid t.publicKey 32 && verifies t.publicKey transcript signature

/-- `rr_identity_invite_redeemed`. -/
def inviteRedeemed (c : Call) (db : Db) (id domain node catalog spki : String) : Bool :=
  if c.fails .schema || !uuidStringIsValid id || !uuidStringIsValid node ||
      !trustKeyValid catalog 32 || !trustKeyValid spki 32 || c.fails .prepare || c.fails .step then
    false
  else
    match db.invitations id with
    | none => false
    | some t =>
        match t.joined with
        | none => false
        | some j =>
            t.domain == domain && t.status == .used && j.uuid == node && j.catalogKey == catalog &&
              j.tlsSpki == spki && trustVerify c db domain node catalog spki

/-- The row of a ticket that `node` redeems with its keys. -/
def Ticket.redeem (t : Ticket) (now : Int) (node catalog spki : String) : Ticket :=
  { t with status := .used, joined := some ⟨node, catalog, spki, now⟩ }

/-- `rr_identity_invite_redeem`: the used ticket and the trust row in one transaction.  A
`ROLLBACK` leaves the tables as they stood at the `BEGIN`. -/
def inviteRedeem (c : Call) (db : Db) (id domain node catalog spki : String) : Bool × Db :=
  if domain = "" || !uuidStringIsValid node || !trustKeyValid catalog 32 ||
      !trustKeyValid spki 32 || c.fails .schema || c.fails .targetSchema then (false, db)
  else if c.fails .trustSchema || c.fails .beginImmediate || c.fails .prepare || c.fails .step ||
      !db.admits id domain node c.now then (false, db)
  else
    let consumed := { db with
      invitations := Function.update db.invitations id
        ((db.invitations id).map (Ticket.redeem · c.now node catalog spki)) }
    match trustEnroll c consumed domain node catalog spki with
    | (true, enrolled) => if c.fails .commit then (false, db) else (true, enrolled)
    | (false, _) => (false, db)

/-! ### The enrollment request -/

/-- The two signature checks: of a transcript under an invitation's key, and of the TLS
binding under a catalog key. -/
structure Crypto where
  verifies : String → String → String → Bool
  bindingVerify : String → String → String → String → String → Bool

/-- The decoded form of `/mesh/enroll/redeem`. -/
structure EnrollForm where
  ticket : String
  domain : String
  node : String
  catalog : String
  spki : String
  challenge : String
  binding : String
  proof : String
deriving DecidableEq, Repr

/-- What is signed with the invitation's private key. -/
def EnrollForm.transcript (f : EnrollForm) : String :=
  "rustyrig.mesh.enroll.v1\n" ++ f.ticket ++ "\n" ++ f.domain ++ "\n" ++ f.node ++ "\n" ++
    f.challenge ++ "\n" ++ f.catalog ++ "\n" ++ f.spki ++ "\n"

/-- The calls the request makes. -/
structure EnrollCalls where
  verify : Call
  claim : Call
  redeem : Call

/-- The redemption in `rr_mesh_native_enrollment`: the HTTP status, whether the challenge was
claimed, and the tables.  A challenge once claimed stays claimed. -/
def nativeEnrollment (k : Crypto) (linksDomain : String) (c : EnrollCalls) (db : Db)
    (f : EnrollForm) : Nat × Bool × Db :=
  if f.domain ≠ linksDomain || !uuidStringIsValid f.ticket || !uuidStringIsValid f.node then
    (400, false, db)
  else if !fixedB64 f.catalog 32 || !fixedB64 f.spki 32 || !fixedB64 f.challenge 32 ||
      !fixedB64 f.binding 64 || !fixedB64 f.proof 64 ||
      !k.bindingVerify f.catalog f.domain f.node f.spki f.binding then (403, false, db)
  else if !inviteVerifyProof k.verifies c.verify db f.ticket f.domain f.transcript f.proof then
    (403, false, db)
  else
    match inviteChallengeClaim c.claim db f.ticket f.domain f.node f.challenge with
    | (false, db) => (403, false, db)
    | (true, db) =>
        match inviteRedeem c.redeem db f.ticket f.domain f.node f.catalog f.spki with
        | (true, db) => (200, true, db)
        | (false, db) => (403, true, db)

/-! ### Any party, in any order -/

/-- One call of the component, with everything its surroundings decide. -/
inductive Op
  | create (c : Call) (configured : Option String) (id domain pub : String) (expires : Int)
  | issue (i : Issuing) (domain url spki joiningUuid : String) (expires : Int)
  | revoke (c : Call) (id : String)
  | challenge (c : Call) (id domain node : String) (nonce : Option String)
  | claim (c : Call) (id domain node challenge : String)
  | redeem (c : Call) (id domain node catalog spki : String)
  | enroll (linksDomain : String) (c : EnrollCalls) (form : EnrollForm)
  | trustEnroll (c : Call) (domain owner catalogKey tlsSpki : String)
  | checkPin (fault : Option Identity.DbCall) (domain owner publicKey : String)

/-- What a call achieved.  A redemption says whether the enrollment request made it, and
then with which challenge. -/
inductive Event
  | issued (id joiningUuid : String) (expiresAt : Int)
  | challenged (id challenge : String)
  | claimed (id challenge : String)
  | redeemed (id node : String) (now : Int) (presented : Option String)
deriving DecidableEq, Repr

/-- The tables, and what has been achieved so far, newest first. -/
structure World where
  db : Db
  log : List Event

/-- A world before any call. -/
def World.start : World := ⟨Db.empty, []⟩

/-- One call. -/
def World.step (k : Crypto) (w : World) : Op → World
  | .create c configured id domain pub expires =>
      { w with db := (inviteCreate c configured w.db id domain pub expires).2 }
  | .issue i domain url spki joiningUuid expires =>
      match inviteIssue i w.db domain url spki joiningUuid expires with
      | (some _, db) =>
          ⟨db, .issued i.id joiningUuid
            ((inviteExpiry i.create.now i.configured expires).getD 0) :: w.log⟩
      | (none, db) => { w with db := db }
  | .revoke c id => { w with db := (inviteRevoke c w.db id).2 }
  | .challenge c id domain node nonce =>
      match inviteChallenge c w.db id domain node nonce with
      | (some encoded, db) => ⟨db, .challenged id encoded :: w.log⟩
      | (none, db) => { w with db := db }
  | .claim c id domain node challenge =>
      match inviteChallengeClaim c w.db id domain node challenge with
      | (true, db) => ⟨db, .claimed id challenge :: w.log⟩
      | (false, db) => { w with db := db }
  | .redeem c id domain node catalog spki =>
      match inviteRedeem c w.db id domain node catalog spki with
      | (true, db) => ⟨db, .redeemed id node c.now none :: w.log⟩
      | (false, db) => { w with db := db }
  | .enroll linksDomain c form =>
      match nativeEnrollment k linksDomain c w.db form with
      | (status, claimed, db) =>
          let log := if claimed then .claimed form.ticket form.challenge :: w.log else w.log
          ⟨db, if status = 200 then
            .redeemed form.ticket form.node c.redeem.now (some form.challenge) :: log else log⟩
  | .trustEnroll c domain owner catalogKey tlsSpki =>
      { w with db := (trustEnroll c w.db domain owner catalogKey tlsSpki).2 }
  | .checkPin fault domain owner publicKey =>
      { w with db := { w.db with
        pins := (Identity.checkPin fault w.db.pins domain owner publicKey).2 } }

/-- Any calls, in their order. -/
def World.run (k : Crypto) (w : World) (ops : List Op) : World := ops.foldl (World.step k) w

end Invitation

end RustyRig

/-!
`g_base64_encode` and `g_base64_decode` on bytes.
-/

namespace RustyRig

namespace Base64

def encode (bytes : List UInt8) : List Char := Invitation.base64Encode (bytes.map UInt8.toNat)

def decode (data : List Char) : List UInt8 := (Invitation.base64Decode data).map UInt8.ofNat

end Base64

end RustyRig
