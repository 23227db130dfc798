/-
The negotiation of capabilities and SASL on an IRC connection (`librustyirc/irc.capab.c`).

The state of a connection is made on demand; no state is here a fresh one, which all the readers take
alike.  A line goes out only if it fits in what the server allows, and then only if the transport takes
it: `takes` says so, given the lines taken before.  `dict` is a table with a unique key.
-/
import Mathlib.Data.List.Infix
import RustyRig.Librustyirc.Connection
import RustyRig.Librustyirc.Sasl
import RustyRig.Lib.Keyed

namespace RustyRig

namespace Irc

namespace Capabilities

open Lib

/-- A text of the source. -/
def ascii (s : String) : Text := s.toList.map fun c => UInt8.ofNat c.toNat

def toUpper (c : UInt8) : UInt8 := if 97 ≤ c ∧ c ≤ 122 then c - 32 else c

/-- `!strcasecmp(a, b)`. -/
def same (a b : Text) : Bool := decide (a.map toUpper = b.map toUpper)

/-- `dict`. -/
abbrev Table := Keyed (Prod.fst : Text × Text → Text)

namespace Table

/-- `dict_get` with NULL as its default. -/
def get (d : Table) (name : Text) : Option Text := (d.rows.find? fun e => e.1 == name).map Prod.snd

/-- `dict_add`. -/
def add (d : Table) (name value : Text) : Table := d.upsert (name, value) (fun e => (e.1, value)) fun _ => rfl

/-- `dict_del`. -/
def del (d : Table) (name : Text) : Table := d.delete fun e => e.1 == name

end Table

/-- `irc_cap_state_t`.  A deadline of 0 is none. -/
structure CapState where
  rusty : Bool
  negotiating : Bool
  modes : Text
  symbols : Text
  chanmodes : Text
  requests : Text
  properties : Table
  capabilities : Table
  enabled : Table
  capabs : Table
  listing : Bool
  listing_enabled : Bool
  sasl_wait : Bool
  sasl_sent : Bool
  sasl_requested : Bool
  sasl_deadline : Nat

/-- `state`, where there is none. -/
def CapState.fresh : CapState :=
  { rusty := false
    negotiating := false
    modes := ascii "qaohv"
    symbols := ascii "~&@%+"
    chanmodes := ascii "b,k,l,imnpst"
    requests := []
    properties := Keyed.empty
    capabilities := Keyed.empty
    enabled := Keyed.empty
    capabs := Keyed.empty
    listing := false
    listing_enabled := false
    sasl_wait := false
    sasl_sent := false
    sasl_requested := false
    sasl_deadline := 0 }

/-- The lines of the negotiation. -/
inductive Line where
  | capReq (requests : Text)
  | capEnd
  | mechanism (external : Bool)
  | response (line : Sasl.Text)
  | abort
deriving DecidableEq, Repr

def Line.text : Line → Text
  | .capReq requests => ascii "CAP REQ :" ++ requests
  | .capEnd => ascii "CAP END"
  | .mechanism external => ascii "AUTHENTICATE " ++ ascii (if external then "EXTERNAL" else "PLAIN")
  | .response line => line.map fun c => UInt8.ofNat c.toNat
  | .abort => ascii "AUTHENTICATE *"

/-- What the application is told: the data of `irc.sasl`, and `irc.capabilities`. -/
inductive Notice where
  | timedOut
  | aborted
  | successful
  | failed
  | notAdvertised
  | unableToStart
  | rejected
  | capabilities
deriving DecidableEq, Repr

/-- What the negotiation uses of `irc_conn_t`, and its transport. -/
structure Client where
  credentials : Sasl.Credentials
  takes : List Line → Line → Bool

/-- The state of a connection, the lines taken by the transport and what the application was told. -/
structure World where
  caps : CapState
  sent : List Line
  told : List Notice

variable (c : Client)

/-- `rustyirc_send`: whether the line went out. -/
def send (w : World) (line : Line) : Bool × World :=
  match connectionSend (lineLimit (w.caps.properties.get (ascii "LINELEN"))) line.text with
  | none => (false, w)
  | some _ => if c.takes w.sent line = true then (true, { w with sent := w.sent ++ [line] }) else (false, w)

/-- `sasl_configured`. -/
def saslConfigured : Bool :=
  decide (c.credentials.user ≠ []) || Sasl.sameName c.credentials.mechanism Sasl.EXTERNAL

/-- `sasl_finish`. -/
def saslFinish (w : World) (result : Option Notice) : World :=
  let w : World := { w with caps := { w.caps with sasl_wait := false, sasl_deadline := 0 } }
  let w :=
    if w.caps.negotiating = true then
      let w := (send c w .capEnd).2
      { w with caps := { w.caps with negotiating := false } }
    else w
  { w with told := w.told ++ result.toList }

/-- `rustyirc_capabilities_poll`. -/
def poll (w : World) (now : Nat) : World :=
  if w.caps.sasl_deadline ≠ 0 ∧ w.caps.sasl_deadline ≤ now then
    let w := if w.caps.sasl_wait = true then (send c w .abort).2 else w
    saslFinish c w (some .timedOut)
  else w

/-- What `sasl_response` sees of the connection. -/
def responder (w : World) : Sasl.Connection where
  credentials := c.credentials
  lineLimit := lineLimit (w.caps.properties.get (ascii "LINELEN"))
  takes := fun before line => c.takes (w.sent ++ before.map Line.response) (.response line)

/-- `sasl_response`: whether all of it went out. -/
def saslResponse (w : World) : Bool × World :=
  match Sasl.saslResponse (responder c w) with
  | none => (false, w)
  | some (ok, lines) => (ok, { w with sent := w.sent ++ lines.map Line.response })

/-! ### The parts of a message -/

def blankTokens (s : Text) : List Text := (s.splitOn blank).filter (· ≠ [])

def dash : UInt8 := 45
def equals : UInt8 := 61

/-- What is in front of the first equals sign. -/
def nameOf (token : Text) : Text := token.takeWhile (· ≠ equals)

/-- What is behind it, or nothing. -/
def valueOf (token : Text) : Text := (token.dropWhile (· ≠ equals)).tail

/-- A token without the dash that takes its name away. -/
def undash (token : Text) : Bool × Text :=
  if token.head? = some dash then (true, token.tail) else (false, token)

/-- `PREFIX=(modes)symbols`, behind the opening bracket. -/
def takePrefix (s : CapState) (value : Text) : CapState :=
  let modes := value.takeWhile (· ≠ 41)
  let symbols := (value.dropWhile (· ≠ 41)).tail
  if 41 ∈ value ∧ modes ≠ [] ∧ modes.length < 32 ∧ symbols.length = modes.length then
    { s with modes := modes, symbols := symbols }
  else s

/-- The loop over the tokens of a `005`. -/
def isupportToken (s : CapState) (token : Text) : CapState :=
  let (remove, name) := undash token
  let key := (nameOf name).map toUpper
  if key = [] ∨ IRC_MSGLEN + 1 ≤ key.length then s
  else
    let s := { s with properties := if remove then s.properties.del key else s.properties.add key (valueOf name) }
    if same token (ascii "RUSTYRIG") || same (token.take 9) (ascii "RUSTYRIG=") then { s with rusty := true }
    else if same token (ascii "-RUSTYRIG") then { s with rusty := false }
    else if token.take 8 = ascii "PREFIX=(" then takePrefix s (token.drop 8)
    else if token.take 10 = ascii "CHANMODES=" ∧ (token.drop 10).length < 128 then
      { s with chanmodes := token.drop 10 }
    else s

/-- `requests` with another name, as far as the buffer goes. -/
def addRequest (requests cap : Text) : Text :=
  if cap <:+: requests then requests
  else ((if requests = [] then [] else (requests ++ [blank]).take 63) ++ cap).take 63

/-- What a `CAP` message does to the tables with one capability. -/
def record (command : Text) (remove : Bool) (key value : Text) (s : CapState) : CapState :=
  if same command (ascii "LS") || same command (ascii "NEW") then
    { s with capabilities := if remove then s.capabilities.del key else s.capabilities.add key value }
  else if same command (ascii "DEL") then
    { s with capabilities := s.capabilities.del key, enabled := s.enabled.del key }
  else if same command (ascii "ACK") || same command (ascii "LIST") then
    { s with enabled := if remove then s.enabled.del key else s.enabled.add key value }
  else if same command (ascii "NAK") then { s with enabled := s.enabled.del key }
  else s

/-- SASL is offered: the answer to the request is waited for. -/
def offered (now : Nat) (command key : Text) (s : CapState) : CapState :=
  if key = ascii "sasl" ∧ same command (ascii "LS") = true ∧ saslConfigured c = true then
    { s with sasl_requested := true, sasl_deadline := now + 30000 }
  else s

/-- What is asked for of a list, and what an answer says of `RUSTYRIG`. -/
def request (command : Text) (remove : Bool) (key : Text) (s : CapState) : CapState :=
  let rusty := same key (ascii "RUSTYRIG")
  let multi := same key (ascii "multi-prefix")
  if same command (ascii "LS") = true ∧ remove = false ∧
      (rusty = true ∨ multi = true ∨ (key = ascii "sasl" ∧ saslConfigured c = true)) then
    { s with requests := addRequest s.requests (key.take 31) }
  else if rusty = true ∧ same command (ascii "ACK") = true then { s with rusty := !remove }
  else if rusty = true ∧ same command (ascii "DEL") = true then { s with rusty := false }
  else s

/-- The loop over the tokens of a `CAP` message. -/
def capToken (now : Nat) (command : Text) (s : CapState) (token : Text) : CapState :=
  let (remove, name) := undash token
  let key := nameOf name
  if key = [] ∨ IRC_MSGLEN + 1 ≤ key.length then s
  else request c command remove key (offered c now command key (record command remove key (valueOf name) s))

/-- A list starts over with its first line. -/
def beginLists (s : CapState) (listing listing_enabled more : Bool) : CapState :=
  let s := if listing && !s.listing then { s with capabilities := Keyed.empty, requests := [] } else s
  let s := if listing_enabled && !s.listing_enabled then { s with enabled := Keyed.empty } else s
  let s := if listing then { s with listing := more } else s
  if listing_enabled then { s with listing_enabled := more } else s

/-- The end of a list of capabilities: what is wanted of it is asked for. -/
def capListed (w : World) : World :=
  let w :=
    if saslConfigured c = true ∧ w.caps.capabilities.get (ascii "sasl") = none then
      { w with told := w.told ++ [.notAdvertised] }
    else w
  if w.caps.requests ≠ [] then (send c w (.capReq w.caps.requests)).2
  else
    let w := (send c w .capEnd).2
    { w with caps := { w.caps with negotiating := false } }

/-- An answer to a request: whether the rest of the function is run. -/
def capAnswered (w : World) (now : Nat) (command : Text) : Bool × World :=
  let ack := same command (ascii "ACK")
  let enabled := (w.caps.enabled.get (ascii "sasl")).isSome
  if ack = true ∧ w.caps.sasl_requested = true ∧ enabled = false then (false, w)
  else if w.caps.sasl_wait = true then (false, w)
  else if ack = true ∧ saslConfigured c = true ∧ enabled = true then
    let next := send c w (.mechanism (Sasl.sameName c.credentials.mechanism Sasl.EXTERNAL))
    if next.1 = true then
      (true, { next.2 with caps := { next.2.caps with sasl_wait := true, sasl_deadline := now + 30000 } })
    else (true, saslFinish c next.2 (some .unableToStart))
  else (true, saslFinish c w (if saslConfigured c = true then some .rejected else none))

/-- A `CAP` message: whether the rest of the function is run. -/
def capMessage (w : World) (now : Nat) (argv : List Text) : Bool × World :=
  let command := argv.getD 2 []
  let more := decide (5 ≤ argv.length) && decide (argv.getD 3 [] = ascii "*")
  let caps := beginLists w.caps (same command (ascii "LS")) (same command (ascii "LIST")) more
  let caps := (blankTokens (argv.getD (argv.length - 1) [])).foldl (capToken c now command) caps
  let w : World := { w with caps := caps }
  if w.caps.negotiating = true ∧ same command (ascii "LS") = true ∧ more = false then (true, capListed c w)
  else if w.caps.negotiating = true ∧ (same command (ascii "ACK") = true ∨ same command (ascii "NAK") = true) then
    capAnswered c w now command
  else (true, w)

/-- The loop over the tokens of a `CAPAB` message. -/
def capabToken (s : CapState) (token : Text) : CapState :=
  let (remove, name) := undash token
  let key := nameOf name
  if key = [] then s
  else { s with capabs := if remove then s.capabs.del key else s.capabs.add key (valueOf name) }

/-- `rustyirc_capabilities_message_impl` behind the answers to SASL. -/
def otherMessage (w : World) (now : Nat) (argv : List Text) : World :=
  let old := w.caps.rusty
  let name := argv.getD 0 []
  let (rest, w) :=
    if name = ascii "005" then
      (true, { w with caps := ((argv.drop 2).dropLast).foldl isupportToken w.caps })
    else if same name (ascii "CAP") = true ∧ 4 ≤ argv.length then capMessage c w now argv
    else if same name (ascii "CAPAB") = true then
      (true, { w with caps := (argv.tail.flatMap blankTokens).foldl capabToken w.caps })
    else if name = ascii "421" ∧ 3 ≤ argv.length ∧ same (argv.getD 2 []) (ascii "CAP") = true then
      (true, { w with caps := { w.caps with negotiating := false } })
    else (true, w)
  if rest = true ∧ old ≠ w.caps.rusty then { w with told := w.told ++ [.capabilities] } else w

/-- The server asks for the response, or for something else. -/
def challenged (w : World) (challenge : Text) : World :=
  let answer := if w.caps.sasl_sent = true ∨ challenge ≠ ascii "+" then (false, w) else saslResponse c w
  if answer.1 = true then { answer.2 with caps := { answer.2.caps with sasl_sent := true } }
  else saslFinish c (send c answer.2 .abort).2 (some .aborted)

/-- `rustyirc_capabilities_message`. -/
def message (w : World) (now : Nat) (m : Message) : World :=
  let name := m.argv.getD 0 []
  if m.argv.length < 2 then w
  else if w.caps.sasl_wait = true ∧ same name (ascii "AUTHENTICATE") = true then challenged c w (m.argv.getD 1 [])
  else if w.caps.sasl_wait = true ∧ (name = ascii "903" ∨ name = ascii "907") then
    saslFinish c w (some .successful)
  else if w.caps.sasl_wait = true ∧
      (name = ascii "902" ∨ name = ascii "904" ∨ name = ascii "905" ∨ name = ascii "906") then
    saslFinish c w (some .failed)
  else otherMessage c w now m.argv

/-! ### Readers -/

/-- `rustyirc_prefix_mode`; `modes[p - symbols]`, where that is in the buffer. -/
def prefixMode (s : CapState) (symbol : UInt8) : Option (Option UInt8) :=
  if symbol = 0 then some none
  else
    match s.symbols.findIdx? (· == symbol) with
    | none => some none
    | some i => (s.modes[i]?).map some

/-! ### Runs -/

inductive Event where
  | message (m : Message)
  | poll
deriving Repr

/-- What the connection does with a message, or when it is polled. -/
def step (w : World) (now : Nat) : Event → World
  | .message m => message c w now m
  | .poll => poll c w now

/-- A run from `rustyirc_capabilities_reset`, with the time of each event. -/
def run (w : World) (events : List (Nat × Event)) : World :=
  events.foldl (fun w e => step c w e.1 e.2) w

def World.reset : World := { caps := { CapState.fresh with negotiating := true }, sent := [], told := [] }

end Capabilities

end Irc

end RustyRig
