/-
Grants of direct audio as text (`librustyirc/irc.audio.c`).

`dict` belongs to a library outside of this tree: `Table` is what a grant needs of it.  Thirteen fields
behind single blanks make a grant, two more a grant of voice.
-/
import RustyRig.Lib.Scanf
import RustyRig.Librustyirc.DccOffer

namespace RustyRig

/-- `dict`: text and numbers under keys. -/
structure Table where
  Dict : Type
  new : Dict
  add : Dict → String → List Char → Dict
  addUlong : Dict → String → Nat → Dict
  get : Dict → String → List Char → List Char
  getUlong : Dict → String → Nat → Nat
  get_new : ∀ key dflt, get new key dflt = dflt
  get_add : ∀ d key value dflt, get (add d key value) key dflt = value
  get_add_ne : ∀ d key value key' dflt, key' ≠ key → get (add d key value) key' dflt = get d key' dflt
  get_addUlong_ne : ∀ d key n key' dflt, key' ≠ key → get (addUlong d key n) key' dflt = get d key' dflt
  getUlong_addUlong : ∀ d key n dflt, n < 2 ^ 32 → getUlong (addUlong d key n) key dflt = n
  getUlong_add_ne : ∀ d key value key' dflt, key' ≠ key → getUlong (add d key value) key' dflt = getUlong d key' dflt
  getUlong_addUlong_ne : ∀ d key n key' dflt, key' ≠ key → getUlong (addUlong d key n) key' dflt = getUlong d key' dflt

/-- A list of what was added, the latest in front, behaves so. -/
instance : Inhabited Table where
  default :=
    { Dict := List (String × (List Char ⊕ Nat))
      new := []
      add := fun d key value => (key, .inl value) :: d
      addUlong := fun d key n => (key, .inr n) :: d
      get := fun d key dflt => ((d.find? (·.1 == key)).bind fun e => e.2.getLeft?).getD dflt
      getUlong := fun d key dflt => ((d.find? (·.1 == key)).bind fun e => e.2.getRight?).getD dflt
      get_new := fun _ _ => rfl
      get_add := by simp
      get_add_ne := fun d key value key' dflt h => by simp [beq_false_of_ne h.symm]
      get_addUlong_ne := fun d key n key' dflt h => by simp [beq_false_of_ne h.symm]
      getUlong_addUlong := by simp
      getUlong_add_ne := fun d key value key' dflt h => by simp [beq_false_of_ne h.symm]
      getUlong_addUlong_ne := fun d key n key' dflt h => by simp [beq_false_of_ne h.symm] }

namespace DccAudio

open Lib
open DccOffer (Text IRC_MSGLEN mark sameName printed)

def IRC_AUDIO_KEY_BYTES : Nat := 30

/-- `atom`. -/
def atom (text : Text) (maximum : Nat) : Bool :=
  if text = [] ∨ maximum < text.length then false
  else text.all fun c => !(decide (c.toNat ≤ ' '.toNat) || decide (127 ≤ c.toNat) || c == ':')

/-- One round of the loop in `number`, in 32 bits. -/
def numberStep (maximum result digit : Nat) : Option Nat :=
  if (maximum + 2 ^ 32 - digit) % 2 ^ 32 / 10 < result then none
  else
    let result := (result * 10 % 2 ^ 32 + digit) % 2 ^ 32
    if maximum < result then none else some result

/-- `number`. -/
def number (text : Text) (maximum : Nat) : Option Nat :=
  if text = [] then none else Numeral.accumulate (numberStep maximum) 0 text

/-! ### The decoder -/

/-- The loop over the fields, with room for so many of them. -/
def split : Nat → Text → Option (List Text)
  | 0, _ => none
  | room + 1, cursor =>
      if atom (Words.cut ' ' cursor).1 127 = false then none
      else if ' ' ∉ cursor then some [(Words.cut ' ' cursor).1]
      else (split room (Words.cut ' ' cursor).2).map ((Words.cut ' ' cursor).1 :: ·)

/-- `"voice"`. -/
def VOICE : Text := ['v', 'o', 'i', 'c', 'e']

/-- `"s16l"`. -/
def S16L : Text := ['s', '1', '6', 'l']

def NULL_SHA1_80 : Text := ['n', 'u', 'l', 'l', '-', 's', 'h', 'a', '1', '-', '8', '0']

def AES128CM_SHA1_80 : Text := ['a', 'e', 's', '1', '2', '8', 'c', 'm', '-', 's', 'h', 'a', '1', '-', '8', '0']

/-- `"rtp://"`. -/
def scheme : Text := ['r', 't', 'p', ':', '/', '/']

/-- A character of the key. -/
def keyDigit (c : Char) : Bool := c.isDigit || (decide ('a'.toNat ≤ c.toNat) && decide (c.toNat ≤ 'f'.toNat))

/-- `endpoint`, a buffer of 96 characters with the NUL. -/
def endpoint (ip : Text) (port : Nat) : Text := (scheme ++ (ip ++ ':' :: printed port)).take 95

/-- The grant in the table. -/
def grantOf (T : Table) (voice : Bool) (ip : Text) (port : Nat) (key parent channel : Text) (ssrc stream owner direction : Nat)
    (security : Text) : T.Dict :=
  let d := T.new
  let d := T.add d "msg.type" ['m', 'e', 'd', 'i', 'a']
  let d := T.add d "media.cmd" ['s', 'u', 'b', 's', 'c', 'r', 'i', 'b', 'e', 'd']
  let d := T.add d "media.transport" ['d', 'i', 'r', 'e', 'c', 't']
  let d := T.add d "media.direct" (endpoint ip port)
  let d := T.add d "media.direct-key" key
  let d := T.add d "media.parent-session" parent
  let d := T.add d "media.chan-uuid" channel
  let d := T.addUlong d "media.direct-ssrc" ssrc
  let d := T.addUlong d "media.stream" stream
  let d := T.addUlong d "media.owner-stream" owner
  let d := T.addUlong d "media.dir" direction
  let d := T.add d "media.direct-security" security
  if voice then T.add (T.add d "media.kind" VOICE) "media.codec" S16L else d

/-- `rustyirc_dcc_audio_decode`. -/
def audioDecode (T : Table) (payload : Text) : Option T.Dict :=
  if payload.length < 2 ∨ IRC_MSGLEN ≤ payload.length ∨ payload.head? ≠ some mark ∨ payload.getLast? ≠ some mark then none
  else
    match split 15 payload.tail.dropLast with
    | some (dcc :: audio :: version :: ip :: port :: key :: parent :: channel :: ssrc :: stream :: owner :: direction ::
        security :: more) =>
        let voice := decide (more = [VOICE, S16L] ∧ version = ['2'])
        if sameName dcc ['D', 'C', 'C'] = false ∨ sameName audio ['A', 'U', 'D', 'I', 'O'] = false ∨
            (voice = false ∧ (more ≠ [] ∨ version ≠ ['1'])) then none
        else
          match Ipv4.pton ip, number port 65535, number ssrc 0x7fffffff, number stream 255, number owner 255,
              number direction 1 with
          | some _, some port, some ssrc, some stream, some owner, some direction =>
              if port = 0 ∨ ssrc = 0 ∨ stream = 0 ∨ owner = 0 ∨ key.length ≠ IRC_AUDIO_KEY_BYTES * 2 ∨
                  64 ≤ parent.length ∨ 64 ≤ channel.length ∨ (security ≠ NULL_SHA1_80 ∧ security ≠ AES128CM_SHA1_80) then none
              else if key.all keyDigit = false then none
              else some (grantOf T voice ip port key parent channel ssrc stream owner direction security)
          | _, _, _, _, _, _ => none
    | _ => none

/-! ### The encoder -/

/-- `sscanf` with `"rtp://%63[^:]:%u%c"` when two of the three are there. -/
def scanEndpoint (text : Text) : Option (Text × Nat) := do
  let text ← Scanf.literal scheme text
  let (ip, text) ← Scanf.upTo 63 ':' text
  let text ← Scanf.literal [':'] text
  let (port, text) ← Scanf.unsigned 32 text
  if text = [] then some (ip, port) else none

/-- What `snprintf` writes. -/
def audioText (voice : Bool) (ip : Text) (port : Nat) (key parent channel : Text) (ssrc stream owner direction : Nat)
    (security : Text) : Text :=
  let fields := [['D', 'C', 'C'], ['A', 'U', 'D', 'I', 'O'], if voice then ['2'] else ['1'], ip, printed port, key, parent,
    channel, printed ssrc, printed stream, printed owner, printed direction, security]
  mark :: ([' '].intercalate fields ++ (if voice then ' ' :: (VOICE ++ ' ' :: S16L) else []) ++ [mark])

/-- `rustyirc_dcc_audio_encode`. -/
def audioEncode (T : Table) (parent : Text) (grant : T.Dict) : Option Text :=
  if atom parent 63 = false then none
  else
    let voice := decide (T.get grant "media.kind" [] = VOICE)
    if voice = true ∧ T.get grant "media.codec" [] ≠ S16L then none
    else
      match scanEndpoint (T.get grant "media.direct" []) with
      | none => none
      | some (ip, port) =>
          let stream := T.getUlong grant "media.stream" 0
          let payload := audioText voice ip port (T.get grant "media.direct-key" []) parent (T.get grant "media.chan-uuid" [])
            (T.getUlong grant "media.direct-ssrc" 0) stream (T.getUlong grant "media.owner-stream" stream)
            (T.getUlong grant "media.dir" 2) (T.get grant "media.direct-security" [])
          if IRC_MSGLEN ≤ payload.length then none
          else
            match audioDecode T payload with
            | none => none
            | some _ => some payload

end DccAudio

end RustyRig
