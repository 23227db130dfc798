/-
DCC offers as text (`librustyirc/irc.dcc.c`).

A character stands for a byte.  An offer travels as a CTCP payload between two bytes of value 1: five
or six fields behind single blanks, each of them bare or in quotes.  The scanner cuts them out in
place; what `scan` gives back is the fields and what is behind the last of them.
-/
import RustyRig.Lib.Numeral
import RustyRig.Lib.Words

namespace RustyRig

namespace DccOffer

open Lib

/-- A C string, without its terminator. -/
abbrev Text := List Char

def IRC_MSGLEN : Nat := 1024
def UINT32_MAX : Nat := 2 ^ 32 - 1
def INT64_MAX : Nat := 2 ^ 63 - 1

def INADDR_ANY : Nat := 0
def INADDR_BROADCAST : Nat := UINT32_MAX

/-- `irc_dcc_type_t`. -/
inductive DccType
  | chat
  | send
deriving DecidableEq, Repr

/-- `rustyirc_dcc_offer_t`. -/
structure Offer where
  type : DccType
  sizeKnown : Bool
  filename : Text
  ip : Text
  port : Nat
  size : Nat
deriving DecidableEq, Repr

/-- The byte around a CTCP payload. -/
def mark : Char := Char.ofNat 1

/-- `!strcasecmp(a, b)`. -/
def sameName (a b : Text) : Bool := decide (a.map Char.toLower = b.map Char.toLower)

/-- One round of the loop in `decimal`. -/
def decimalStep (maximum number digit : Nat) : Option Nat :=
  if maximum / 10 < number ∨ (number = maximum / 10 ∧ maximum % 10 < digit) then none
  else some ((number * 10 % 2 ^ 64 + digit) % 2 ^ 64)

/-- `decimal`. -/
def decimal (text : Text) (maximum : Nat) : Option Nat :=
  if text = [] then none else Numeral.accumulate (decimalStep maximum) 0 text

/-- `rustyirc_dcc_filename_valid`. -/
def filenameValid (name : Text) : Bool :=
  if name = [] ∨ 255 < name.length ∨ name = ['.'] ∨ name = ['.', '.'] then false
  else name.all fun c => !(decide (c.toNat < ' '.toNat) || c.toNat == 127 || ['/', '\\', '"'].contains c)

/-! ### The decoder -/

/-- The loop over the fields, with room for so many more of them. -/
def scan : Nat → Text → Option (List Text × Text)
  | 0, p => some ([], p)
  | _ + 1, [] => some ([], [])
  | room + 1, c :: p =>
      if c = ' ' then none
      else if c = '"' then
        if '"' ∉ p then none
        else
          match (Words.cut '"' p).2 with
          | [] => (scan room []).map fun r => ((Words.cut '"' p).1 :: r.1, r.2)
          | d :: p' =>
              if d ≠ ' ' then none
              else if p' = [] then none
              else (scan room p').map fun r => ((Words.cut '"' p).1 :: r.1, r.2)
      else if ' ' ∉ c :: p then some ([c :: p], [])
      else if (Words.cut ' ' (c :: p)).2 = [] then none
      else (scan room (Words.cut ' ' (c :: p)).2).map fun r => ((Words.cut ' ' (c :: p)).1 :: r.1, r.2)

/-- The address is a number or a dotted quad. -/
def address (field : Text) : Option Nat :=
  match decimal field UINT32_MAX with
  | some number => some number
  | none => Ipv4.pton field

/-- The size is optional; 0 stands for one that is not there. -/
def sizeOf (size : Option Text) : Option Nat :=
  match size with
  | none => some 0
  | some text => decimal text INT64_MAX

/-- What the fields come to. -/
def interpret (dcc kind name ip port : Text) (size : Option Text) : Option Offer :=
  let chat := sameName kind ['C', 'H', 'A', 'T']
  let file := sameName kind ['S', 'E', 'N', 'D']
  if sameName dcc ['D', 'C', 'C'] = false then none
  else if (!chat && !file) || (chat && (size.isSome || !sameName name ['c', 'h', 'a', 't'])) ||
      (file && !filenameValid name) then none
  else
    match address ip with
    | none => none
    | some addr =>
        if addr = INADDR_ANY ∨ addr = INADDR_BROADCAST then none
        else
          match decimal port 65535 with
          | none => none
          | some port =>
              if port = 0 then none
              else
                match sizeOf size with
                | none => none
                | some bytes =>
                    some
                      { type := if chat then .chat else .send
                        sizeKnown := file && size.isSome
                        filename := if chat then [] else name
                        ip := Ipv4.ntop addr
                        port := port
                        size := bytes }

/-- `rustyirc_dcc_decode`. -/
def decode (payload : Text) : Option Offer :=
  if payload.length < 2 ∨ IRC_MSGLEN ≤ payload.length ∨ payload.head? ≠ some mark ∨ payload.getLast? ≠ some mark then none
  else
    match scan 6 payload.tail.dropLast with
    | some ([dcc, kind, name, ip, port], []) => interpret dcc kind name ip port none
    | some ([dcc, kind, name, ip, port, size], []) => interpret dcc kind name ip port (some size)
    | _ => none

/-! ### The encoder -/

/-- `%u` and `%llu`. -/
def printed (n : Nat) : Text := Nat.toDigits 10 n

/-- What `snprintf` writes of an offer to such an address. -/
def offerText (offer : Offer) (addr : Nat) : Text :=
  let kind := if offer.type = .chat then ['C', 'H', 'A', 'T'] else ['S', 'E', 'N', 'D']
  let quote : Text := if offer.type = .send then ['"'] else []
  let name := if offer.type = .chat then ['c', 'h', 'a', 't'] else offer.filename
  let size := if offer.type = .send ∧ offer.sizeKnown = true then ' ' :: printed offer.size else []
  mark :: (['D', 'C', 'C'] ++ ' ' :: (kind ++ ' ' :: (quote ++ name ++ quote ++ ' ' :: (printed addr ++
    ' ' :: (printed offer.port ++ size ++ [mark])))))

/-- `rustyirc_dcc_encode`. -/
def encode (offer : Offer) : Option Text :=
  if offer.type = .send ∧ filenameValid offer.filename = false then none
  else
    match Ipv4.pton offer.ip with
    | none => none
    | some addr =>
        if IRC_MSGLEN ≤ (offerText offer addr).length then none
        else
          match decode (offerText offer addr) with
          | none => none
          | some _ => some (offerText offer addr)

end DccOffer

end RustyRig
