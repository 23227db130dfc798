/-
The live identity proof of native mesh connections, from `rrserver/mesh.auth.c` and the
callback of `rrserver/link.native.c` around it.

Each end draws a nonce and sends it as its challenge; each answers the other's challenge with a
signed proof over both nonces, the TLS connection and its own role.  TLS, the random source,
the wire format and the signature belong to libraries; a connection is what `mesh.wss.c` says
of it.  All servers of the network are modelled together, with everything they ever drew or
signed on record; what comes in at a connection is the event's choice.
-/
import RustyRig.Rrserver.Invitation
import Mathlib.Logic.Function.Basic

namespace RustyRig

namespace MeshAuth

open Identity (canonical signatureKey)
open Invitation (fixedB64 uuidStringIsValid)

/-- `struct rr_mesh_auth`. -/
structure Auth where
  nonce : String
  challenge : String
  node : String
  site : String
  publicKey : String
  challenged : Bool
  verified : Bool
deriving DecidableEq, Repr

/-- `links.domain`, `links.node`, `links.site` and the public key in base64. -/
structure Server where
  domain : String
  node : String
  site : String
  publicKey : String
deriving DecidableEq, Repr

/-- One server's end of a connection. -/
structure Channel where
  outbound : Bool
  /-- `rr_mesh_wss_binding`: what both ends of one TLS connection export, and no other. -/
  binding : List UInt8
deriving DecidableEq, Repr

/-- A message: its size, whether it holds a NUL, and what `json2dict` makes of it. -/
structure Wire where
  length : Nat
  nul : Bool
  dict : Option Dict

/-- What the libraries answer during one call. -/
structure Answers where
  /-- The TLS connection still exports its binding. -/
  bound : Bool
  /-- `rr_transport_peer_spki_sha256`. -/
  pin : Option (List UInt8)
  /-- The signature of `rr_identity_sign_catalog`. -/
  signature : Option String
  sent : Bool
  /-- The trust callback. -/
  trust : String → String → String → Bool

def encode (bytes : List UInt8) : String := String.ofList (Base64.encode bytes)

def role (outbound : Bool) : String := if outbound then "initiator" else "acceptor"

/-! ### Signing -/

/-- The proof before it is signed. -/
def proofDict (s : Server) (c : Channel) (auth : Auth) : Dict :=
  ((((((((Dict.empty.add "mesh.auth" "proof-v1").add "identity.domain" s.domain).add
    "identity.owner" s.node).add "identity.public-key" s.publicKey).add "site" s.site).add
    "nonce" auth.nonce).add "challenge" auth.challenge).add "channel" (encode c.binding)).add
    "role" (role c.outbound)

/-- `proof`: whether it went out, and what was signed. -/
def proof (s : Server) (c : Channel) (auth : Auth) (a : Answers) : Bool × Option Dict :=
  if !a.bound then (false, none)
  else
    match a.signature with
    | none => (false, none)
    | some signature => (a.sent, some ((proofDict s c auth).add signatureKey signature))

/-- `rr_identity_verify_catalog`, over the Ed25519 check `verify` of a key, a text and a
signature. -/
def verifyCatalog (verify : List UInt8 → String → List UInt8 → Bool) (d : Dict) : Bool :=
  match d.get? "identity.public-key", d.get? signatureKey with
  | some key, some signature =>
      key.utf8ByteSize == 44 && signature.utf8ByteSize == 88 &&
        (Base64.decode key.toList).length == 32 && (Base64.decode signature.toList).length == 64 &&
        verify (Base64.decode key.toList) (canonical d) (Base64.decode signature.toList)
  | _, _ => false

/-! ### Receiving -/

/-- The checks of a proof. -/
def proofValid (verify : List UInt8 → String → List UInt8 → Bool) (s : Server) (c : Channel)
    (auth : Auth) (d : Dict) (a : Answers) : Bool :=
  let owner := d.get "identity.owner" ""
  let pub := d.get "identity.public-key" ""
  let site := d.get "site" ""
  uuidStringIsValid owner && owner != s.node && site != "" && decide (site.utf8ByteSize < 128) &&
    pub.utf8ByteSize == 44 && d.get "identity.domain" "" == s.domain &&
    d.get "nonce" "" == auth.challenge && d.get "challenge" "" == auth.nonce &&
    d.get "role" "" == role !c.outbound && a.bound &&
    (site.toList.all fun x => decide (32 ≤ x.toNat) && x.toNat != 127) &&
    (match a.pin with
      | none => false
      | some pin =>
          d.get "channel" "" == encode c.binding && a.trust owner pub (encode pin) &&
            verifyCatalog verify d)

/-- `rr_mesh_auth_receive`: its result, what it leaves, and what it signed. -/
def receive (verify : List UInt8 → String → List UInt8 → Bool) (s : Server) (c : Channel)
    (auth : Auth) (m : Wire) (a : Answers) : Int × Auth × Option Dict :=
  if m.length = 0 || decide (4096 < m.length) || m.nul || auth.verified then (-1, auth, none)
  else
    match m.dict with
    | none => (-1, auth, none)
    | some d =>
        let op := d.get "mesh.auth" ""
        let nonce := d.get "nonce" ""
        if op == "challenge-v1" && !auth.challenged && fixedB64 nonce 32 then
          let auth := { auth with challenge := nonce, challenged := true }
          let (sent, signed) := proof s c auth a
          (if sent then 0 else -1, auth, signed)
        else if op == "proof-v1" && auth.challenged then
          if proofValid verify s c auth d a then
            (1, { auth with node := d.get "identity.owner" ""
                            site := d.get "site" ""
                            publicKey := d.get "identity.public-key" ""
                            verified := true }, none)
          else (-1, auth, none)
        else (-1, auth, none)

/-! ### The network -/

/-- The servers, their connections, and the signature check they share. -/
structure Network (ι γ : Type*) where
  server : ι → Server
  channel : ι → γ → Channel
  verify : List UInt8 → String → List UInt8 → Bool

/-- What is remembered of a run. -/
inductive Record (ι γ : Type*)
  | drew (i : ι) (c : γ) (nonce : String)
  /-- A proof that a server signed for a connection. -/
  | proved (i : ι) (c : γ) (d : Dict)
  /-- Anything else it signed. -/
  | signed (i : ι) (d : Dict)

structure World (ι γ : Type*) where
  /-- The sessions that are open and not failing. -/
  auth : ι → γ → Option Auth
  record : List (Record ι γ)

inductive Event (ι γ : Type*)
  /-- The connection opens; `RAND_bytes` gave these bytes. -/
  | opened (i : ι) (c : γ) (bytes : {l : List UInt8 // l.length = 32}) (sent : Bool)
  /-- A message comes in, whoever sent it. -/
  | message (i : ι) (c : γ) (m : Wire) (a : Answers)
  | closed (i : ι) (c : γ)
  /-- The server signs something for another purpose. -/
  | signs (i : ι) (d : Dict)

variable {ι γ : Type*} [DecidableEq ι] [DecidableEq γ]

def World.set (w : World ι γ) (i : ι) (c : γ) (auth : Option Auth) (more : List (Record ι γ)) :
    World ι γ where
  auth := Function.update w.auth i (Function.update (w.auth i) c auth)
  record := more ++ w.record

/-- `native_callback`: a session that fails is closed, and one that is verified hands what comes
to the link. -/
def World.step (net : Network ι γ) (w : World ι γ) : Event ι γ → World ι γ
  | .opened i c bytes sent =>
      let nonce := encode bytes
      w.set i c (if sent then some ⟨nonce, "", "", "", "", false, false⟩ else none)
        [.drew i c nonce]
  | .message i c m a =>
      match w.auth i c with
      | none => w
      | some auth =>
          if auth.verified then w
          else
            let (result, auth, signed) :=
              receive net.verify (net.server i) (net.channel i c) auth m a
            w.set i c (if result < 0 then none else some auth) (signed.toList.map (.proved i c))
  | .closed i c => w.set i c none []
  | .signs i d => { w with record := .signed i d :: w.record }

def World.start : World ι γ := ⟨fun _ _ => none, []⟩

end MeshAuth

end RustyRig
