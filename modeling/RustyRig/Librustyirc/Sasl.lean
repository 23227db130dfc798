/-
The SASL response of the IRC client (`sasl_response` of `librustyirc/irc.capab.c`).

User and password go into a local buffer, NUL in front of each; the hand-written Base64 loop fills a
second one; and that is sent in lines of 400 characters.  A store or a read outside of the two buffers
comes to nothing.  `Connection` says whether the transport takes a line, given the lines it took before.
-/
import RustyRig.Lib.Buffer
import RustyRig.Rrserver.Invitation

namespace RustyRig

namespace Sasl

open Lib.Buffer

abbrev Bytes := List UInt8
abbrev Text := List Char

def LOGINLEN : Nat := 240
def PASSLEN : Nat := 128

/-- `credentials`, each within its buffer. -/
structure Credentials where
  user : Bytes
  pass : Bytes
  mechanism : Text
  userFits : user.length ≤ LOGINLEN
  passFits : pass.length ≤ PASSLEN

/-- What the response uses of `irc_conn_t`. -/
structure Connection where
  credentials : Credentials
  lineLimit : Nat
  takes : List Text → Text → Bool

/-- `!strcasecmp(a, b)`. -/
def sameName (a b : Text) : Bool := decide (a.map Char.toLower = b.map Char.toLower)

/-- `"AUTHENTICATE "`. -/
def command : Text := ['A', 'U', 'T', 'H', 'E', 'N', 'T', 'I', 'C', 'A', 'T', 'E', ' ']

/-- `"EXTERNAL"`. -/
def EXTERNAL : Text := ['E', 'X', 'T', 'E', 'R', 'N', 'A', 'L']

/-- `rustyirc_send`: whether the line went out, and the lines that have. -/
def rustyircSend (c : Connection) (line : Text) (sent : List Text) : Bool × List Text :=
  if line.length ≤ c.lineLimit - 2 ∧ c.takes sent line = true then (true, sent ++ [line]) else (false, sent)

/-! ### The text -/

/-- `alphabet`. -/
def alphabet : List Char := "ABCDEFGHIJKLMNOPQRSTUVWXYZabcdefghijklmnopqrstuvwxyz0123456789+/".toList

/-- `plain`, filled. -/
def fillPlain (user pass : Bytes) : Option Bytes := do
  let plain := List.replicate (LOGINLEN + PASSLEN + 3) 0
  let plain ← put plain 0 0
  let plain ← copy plain 1 user 0 user.length
  let plain ← put plain (user.length + 1) 0
  copy plain (user.length + 2) pass 0 pass.length

/-- One round of the encoder: the value of up to three bytes. -/
def groupValue (plain : Bytes) (bytes i : Nat) : Option Nat := do
  let a ← plain[i]?
  let value := a.toNat <<< 16
  let value ← if i + 1 < bytes then plain[i + 1]?.map fun b => value ||| b.toNat <<< 8 else some value
  if i + 2 < bytes then plain[i + 2]?.map fun c => value ||| c.toNat else some value

/-- The loop of the encoder: `encoded` and `length`. -/
def encodeLoop (plain : Bytes) (bytes i : Nat) (encoded : Text) (length : Nat) : Option (Text × Nat) :=
  if i < bytes then do
    let value ← groupValue plain bytes i
    let encoded ← put encoded length (alphabet.getD (value >>> 18) 'A')
    let encoded ← put encoded (length + 1) (alphabet.getD (value >>> 12 &&& 63) 'A')
    let encoded ← put encoded (length + 2) (if i + 1 < bytes then alphabet.getD (value >>> 6 &&& 63) 'A' else '=')
    let encoded ← put encoded (length + 3) (if i + 2 < bytes then alphabet.getD (value &&& 63) 'A' else '=')
    encodeLoop plain bytes (i + 3) encoded (length + 4)
  else some (encoded, length)
termination_by bytes - i

/-- The Base64 text of the credentials, and its length. -/
def encodedText (user pass : Bytes) : Option (Text × Nat) := do
  let plain ← fillPlain user pass
  let encoded := List.replicate (4 * ((LOGINLEN + PASSLEN + 3 + 2) / 3) + 1) '\x00'
  let (encoded, length) ← encodeLoop plain (user.length + pass.length + 2) 0 encoded 0
  let encoded ← put encoded length '\x00'
  some (encoded, length)

/-! ### The lines -/

/-- The loop that sends the text. -/
def sendLoop (c : Connection) (encoded : Text) (length i : Nat) (ok : Bool) (sent : List Text) : Bool × List Text :=
  if ok = true ∧ i < length then
    let count := if 400 < length - i then 400 else length - i
    let next := rustyircSend c (command ++ (encoded.drop i).take count) sent
    sendLoop c encoded length (i + 400) next.1 next.2
  else (ok, sent)
termination_by length - i

/-- `sasl_response`: whether all went out, and the lines that did. -/
def saslResponse (c : Connection) : Option (Bool × List Text) :=
  if sameName c.credentials.mechanism EXTERNAL then some (rustyircSend c (command ++ ['+']) [])
  else
    match encodedText c.credentials.user c.credentials.pass with
    | none => none
    | some (encoded, length) =>
        let sent := sendLoop c encoded length 0 true []
        if sent.1 = true ∧ length % 400 = 0 then some (rustyircSend c (command ++ ['+']) sent.2) else some sent

end Sasl

end RustyRig
