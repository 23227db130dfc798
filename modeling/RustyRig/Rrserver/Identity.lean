/-
Signed catalog descriptors and their revisions, from `rrserver/identity.c`.

`canonical` is the text that is signed and, without the identity metadata, digested.
The owner keeps a revision per catalog key and issues the next one when the digest
changes (`localRevision`); a receiver keeps the highest it has accepted
(`acceptRevision`) and the first public key it has seen of an owner (`checkPin`).

SHA-256 and the signature are parameters.  The two SQLite tables are partial maps
from their primary keys, and every function takes the SQLite call that fails on it,
if one does.  Log lines are left out.
-/
import Mathlib.Data.List.Sort
import Mathlib.Data.String.Basic
import Mathlib.Logic.Function.Basic
import RustyRig.Rrserver.Dict

namespace RustyRig

namespace Identity

/-- `INT64_MAX`. -/
def int64Max : Nat := 2 ^ 63 - 1

/-! ### The canonical text -/

/-- `"%zu:%s:%zu:"` and the value. -/
def canonicalEntry (k v : String) : String :=
  toString k.utf8ByteSize ++ ":" ++ k ++ ":" ++ toString v.utf8ByteSize ++ ":" ++ v

/-- The one key that is not signed. -/
def signatureKey : String := "identity.signature"

/-- The sorted keys, without the signature itself. -/
def canonicalKeys (d : Dict) : List String :=
  (d.keys.filter (· ≠ signatureKey)).insertionSort (· ≤ ·)

/-- The text's `prefix`, its terminator included. -/
def canonicalPrefix : String := "rustyrig.catalog.ed25519.v2\x00"

/-- `canonical`. -/
def canonical (d : Dict) : String :=
  canonicalPrefix ++ String.join ((canonicalKeys d).map fun k => canonicalEntry k (d.get k ""))

/-- The metadata that `catalog_content_digest` leaves out. -/
def metaKeys : List String :=
  [signatureKey, "identity.revision", "identity.owner", "identity.domain",
    "identity.public-key", "identity.scheme", "identity.operation", "identity.timestamp",
    "identity.nonce"]

/-- The copy that is digested. -/
def stripped (d : Dict) : Dict := metaKeys.foldl Dict.del d

/-- `catalog_content_digest`, over a SHA-256 `sha`. -/
def catalogContentDigest (sha : String → String) (d : Dict) : String := sha (canonical (stripped d))

/-! ### Reading a revision -/

/-- `ISSPACE` of GLib's number parser. -/
def isSpace (c : Char) : Bool := c ∈ [' ', '\t', '\n', '\x0b', '\x0c', '\r']

/-- `g_ascii_strtoll` in base 10: the saturated value and what follows it. -/
def asciiStrtoll (s : String) : Int × List Char :=
  let t := s.toList.dropWhile isSpace
  let negative := t.head? == some '-'
  let u := if t.head? == some '-' || t.head? == some '+' then t.tail else t
  let digits := u.takeWhile Char.isDigit
  if digits = [] then (0, s.toList)
  else
    let n := Nat.ofDigitChars 10 digits 0
    (if negative then -(min n (int64Max + 1) : Nat) else (min n int64Max : Nat),
      u.dropWhile Char.isDigit)

/-- The revision a descriptor carries, as far as `rr_identity_accept_revision` reads it. -/
def proposed (d : Dict) : Option Int :=
  match d.get? "identity.revision" with
  | none => none
  | some value =>
      if value = "" || value.toList.head? == some '0' then none
      else if (asciiStrtoll value).2 ≠ [] || decide ((asciiStrtoll value).1 ≤ 0) then none
      else some (asciiStrtoll value).1

/-! ### The stores -/

/-- The SQLite call of a function that fails. -/
inductive DbCall
  | schema
  | read
  | write
deriving DecidableEq, Repr

/-- A row of `mesh_catalog_revisions`. -/
structure Row where
  revision : Nat
  digest : String
deriving DecidableEq, Repr

/-- The primary key: domain, owner and catalog key. -/
structure Slot where
  domain : String
  owner : String
  key : String
deriving DecidableEq, Repr

/-- `mesh_catalog_revisions`. -/
abbrev Journal := Slot → Option Row

/-- `mesh_identity_pins`, by lower-case domain and owner. -/
abbrev Pins := String × String → Option String

/-- `rr_identity_local_revision`: the result, the journal, and the descriptor it wrote to. -/
def localRevision (sha : String → String) (fault : Option DbCall) (j : Journal) (slot : Slot)
    (d : Dict) : Bool × Journal × Dict :=
  if fault = some .schema || fault = some .read then (false, j, d)
  else
    let digest := catalogContentDigest sha d
    let revision := ((j slot).map Row.revision).getD 0
    if (j slot).map Row.digest = some digest then
      (decide (0 < revision), j, d.add "identity.revision" (toString revision))
    else if revision = int64Max then (false, j, d)
    else if fault = some .write then (false, j, d)
    else
      (true, Function.update j slot (some ⟨revision + 1, digest⟩),
        d.add "identity.revision" (toString (revision + 1)))

/-- `rr_identity_accept_revision`. -/
def acceptRevision (sha : String → String) (fault : Option DbCall) (j : Journal) (slot : Slot)
    (d : Dict) : Bool × Journal :=
  if fault = some .schema then (false, j)
  else
    match proposed d with
    | none => (false, j)
    | some revision =>
        if fault = some .read then (false, j)
        else
          let digest := catalogContentDigest sha d
          let current : Int := ((j slot).map Row.revision).getD 0
          if revision < current ||
              (revision = current && (j slot).map Row.digest ≠ some digest) then (false, j)
          else if current < revision then
            if fault = some .write then (false, j)
            else (true, Function.update j slot (some ⟨revision.toNat, digest⟩))
          else (true, j)

/-- `g_ascii_strdown`. -/
def asciiStrdown (s : String) : String := String.ofList (s.toList.map Char.toLower)

/-- `rr_identity_check_pin`: the first key seen of an owner stays. -/
def checkPin (fault : Option DbCall) (pins : Pins) (domain owner publicKey : String) :
    Bool × Pins :=
  if domain = "" || owner = "" || publicKey = "" then (false, pins)
  else if fault = some .schema || fault = some .write then (false, pins)
  else
    let scope := (asciiStrdown domain, owner)
    let pins' := if (pins scope).isSome then pins else Function.update pins scope (some publicKey)
    if fault = some .read then (false, pins')
    else (decide (pins' scope = some publicKey), pins')

/-! ### The two ends -/

/-- The server a catalog is published by: its domain, identity and signing key. -/
structure Publisher where
  domain : String
  owner : String
  publicKey : String
  named : domain ≠ "" ∧ owner ≠ "" ∧ publicKey ≠ ""

/-- A descriptor as it is sent, with the catalog key it is stored under. -/
structure Publication where
  key : String
  descriptor : Dict

/-- What the catalog writes into a finished local descriptor before numbering it. -/
def sealLocal (self : Publisher) (d : Dict) : Dict :=
  (((((d.del signatureKey).add "identity.owner" self.owner).add
    "identity.domain" self.domain).add "identity.public-key" self.publicKey).add
    "identity.scheme" "ed25519-catalog-v1").add "identity.operation" "catalog-upsert"

/-- `rr_identity_sign_catalog`, over a signature `sign` of a canonical text. -/
def signCatalog (sign : String → String) (d : Dict) : Dict :=
  d.add signatureKey (sign (canonical d))

/-- One publication attempt: sealed, numbered and signed, or blocked. -/
structure Attempt where
  key : String
  descriptor : Dict
  fault : Option DbCall

/-- The last steps of a local catalog collection for one descriptor. -/
def publish (sha sign : String → String) (self : Publisher) (j : Journal) (a : Attempt) :
    Option Publication × Journal :=
  match localRevision sha a.fault j ⟨self.domain, self.owner, a.key⟩ (sealLocal self a.descriptor) with
  | (true, j', d) => (some ⟨a.key, signCatalog sign d⟩, j')
  | (false, j', _) => (none, j')

/-- What a receiver stores. -/
structure Receiver where
  pins : Pins
  journal : Journal

/-- A delivery, with the SQLite call that fails in either check. -/
structure Delivery where
  publication : Publication
  pinFault : Option DbCall
  revisionFault : Option DbCall

/-- The slot a receiver in `domain` stores a publication under. -/
def Publication.slot (domain : String) (p : Publication) : Slot :=
  ⟨domain, p.descriptor.get "identity.owner" "", p.key⟩

/-- A receiver's checks of a verified foreign descriptor: the pin, then the revision. -/
def receive (sha : String → String) (domain : String) (r : Receiver) (x : Delivery) :
    Bool × Receiver :=
  let d := x.publication.descriptor
  match checkPin x.pinFault r.pins (d.get "identity.domain" "") (d.get "identity.owner" "")
      (d.get "identity.public-key" "") with
  | (false, pins) => (false, { r with pins := pins })
  | (true, pins) =>
      let (ok, journal) := acceptRevision sha x.revisionFault r.journal (x.publication.slot domain) d
      (ok, ⟨pins, journal⟩)

/-- The receiver after any deliveries. -/
def receiveAll (sha : String → String) (domain : String) (r : Receiver) (xs : List Delivery) :
    Receiver := xs.foldl (fun r x => (receive sha domain r x).2) r

/-- The publications it accepts among them, in order. -/
def accepted (sha : String → String) (domain : String) : Receiver → List Delivery →
    List Publication
  | _, [] => []
  | r, x :: rest =>
      let (ok, r') := receive sha domain r x
      if ok then x.publication :: accepted sha domain r' rest else accepted sha domain r' rest

end Identity

end RustyRig

/-!
The bytes of `canonical`, from `rrserver/identity.c`.

A key and a value are C strings of any bytes, given without their terminator.  Elsewhere
a dictionary holds texts, which are the bytes that encode them; here it holds the bytes.
-/

namespace RustyRig

/-- `dict`, with what its keys and values are made of. -/
structure ByteDict where
  entries : List (List UInt8 × List UInt8)
  nodup : (entries.map Prod.fst).Nodup

namespace ByteDict

def keys (d : ByteDict) : List (List UInt8) := d.entries.map Prod.fst

/-- `dict_get`. -/
def get (d : ByteDict) (key dflt : List UInt8) : List UInt8 :=
  ((d.entries.find? (·.1 == key)).map Prod.snd).getD dflt

end ByteDict

namespace Identity

/-- `strcmp(s, t) <= 0`. -/
def strcmpLe : List UInt8 → List UInt8 → Bool
  | [], _ => true
  | _ :: _, [] => false
  | a :: s, b :: t => a < b || (a == b && strcmpLe s t)

/-- `compare_strings`, as the order that it sorts by. -/
def compareStrings (s t : List UInt8) : Prop := strcmpLe s t = true

instance : DecidableRel compareStrings := fun s t => inferInstanceAs (Decidable (strcmpLe s t = true))

/-- The bytes of an ASCII literal. -/
def literal (s : String) : List UInt8 := s.toList.map fun c => UInt8.ofNat c.toNat

/-- `%zu`. -/
def sizeBytes (n : Nat) : List UInt8 := (Nat.toDigits 10 n).map fun c => UInt8.ofNat c.toNat

/-- The `header` of an entry: `"%zu:%s:%zu:"`. -/
def headerBytes (k v : List UInt8) : List UInt8 :=
  sizeBytes k.length ++ literal ":" ++ k ++ literal ":" ++ sizeBytes v.length ++ literal ":"

/-- The keys that are signed, sorted. -/
def sortedKeys (d : ByteDict) : List (List UInt8) :=
  (d.keys.filter (· ≠ literal signatureKey)).insertionSort compareStrings

/-- `canonical`. -/
def canonicalBytes (d : ByteDict) : List UInt8 :=
  literal canonicalPrefix ++ (sortedKeys d).flatMap fun k => headerBytes k (d.get k []) ++ d.get k []

end Identity

end RustyRig
