/-
The text of coordinates (`coordinate`, `rrserver_gps_position_parse`, `receiver_angle` and
`rrserver_gps_inventory_position` of `rrserver/gps.c`), and the sources while the server runs
(`gps_input`, `poll_gps`, `rrserver_gps_init`).

Latitude and longitude are whole numbers of 10⁻⁷ degrees.  What a pointer into a text has in front of
it is the rest of the text.
-/
import RustyRig.Lib.Scanf
import Mathlib.Data.Int.Notation

namespace RustyRig

namespace Gps

open Lib.Scanf (blank)

abbrev Text := List Char

/-- What `gps_source` has of a position. -/
structure Source where
  name : Text
  configAlias : Text
  ownInput : Bool
  fixed : Bool
  received : Bool
  valid : Bool
  lat : Int
  lon : Int
deriving DecidableEq

/-! ### Reading -/

/-- `isdigit(*p)`. -/
def digitAhead (p : Text) : Bool := p.head?.any Char.isDigit

/-- The degrees. -/
def wholeLoop (maximum : Nat) : Nat → Text → Option (Nat × Text)
  | whole, [] => some (whole, [])
  | whole, c :: p =>
      if c.isDigit then
        let whole := whole * 10 + (c.toNat - '0'.toNat)
        if whole > maximum then none else wholeLoop maximum whole p
      else some (whole, c :: p)

/-- The digits behind the point. -/
def fractionLoop : Nat → Nat → Text → Option (Nat × Text)
  | fraction, _, [] => some (fraction, [])
  | fraction, scale, c :: p =>
      if c.isDigit then
        if scale = 0 then none else fractionLoop (fraction + (c.toNat - '0'.toNat) * scale) (scale / 10) p
      else some (fraction, c :: p)

def fractionPart (p : Text) : Option (Nat × Text) :=
  if p.head? = some '.' then
    if digitAhead p.tail then fractionLoop 0 1000000 p.tail else none
  else some (0, p)

/-- `coordinate`: the value, and where the cursor is left. -/
def coordinate (maximum : Nat) (p : Text) : Option (Int × Text) := do
  let p := p.dropWhile blank
  let negative := p.head? == some '-'
  let p := if negative || p.head? == some '+' then p.tail else p
  if digitAhead p then
    let (whole, p) ← wholeLoop maximum 0 p
    let (fraction, p) ← fractionPart p
    if whole = maximum ∧ fraction ≠ 0 then none
    else
      let result : Int := whole * 10000000 + fraction
      some (if negative then -result else result, p.dropWhile blank)
  else none

/-- `rrserver_gps_position_parse`. -/
def positionParse (text : Text) : Option (Int × Int) := do
  let (a, text) ← coordinate 90 text
  if text.head? = some ',' then
    let (b, text) ← coordinate 180 text.tail
    if text = [] then some (a, b) else none
  else none

def degreeDigits (latitude : Bool) : Nat := if latitude then 2 else 3

def maximum (latitude : Bool) : Nat := if latitude then 90 else 180

/-- The degrees of a receiver's field. -/
def degreeLoop : Nat → Nat → Text → Option (Nat × Text)
  | 0, degrees, text => some (degrees, text)
  | _ + 1, _, [] => none
  | n + 1, degrees, c :: text =>
      if c.isDigit then degreeLoop n (degrees * 10 + (c.toNat - '0'.toNat)) text else none

/-- `receiver_angle`. -/
def receiverAngle (text hemisphere : Text) (latitude : Bool) : Option Int := do
  if hemisphere.length ≠ 1 then none
  else if (text.takeWhile (· != '.')).length ≠ degreeDigits latitude + 2 then none
  else
    let (degrees, minutes) ← degreeLoop (degreeDigits latitude) 0 text
    let (min, minutes) ← coordinate 60 minutes
    if minutes ≠ [] ∨ min < 0 ∨ 600000000 ≤ min ∨ degrees > maximum latitude ∨
        (degrees = maximum latitude ∧ min ≠ 0) then none
    else
      let angle : Int := degrees * 10000000 + (min + 30) / 60
      if hemisphere.head? = some (if latitude then 'S' else 'W') then some (-angle)
      else if hemisphere.head? ≠ some (if latitude then 'N' else 'E') then none
      else some angle

/-! ### Writing -/

/-- `%07lld`. -/
def padded (n : Nat) : Text := List.replicate (7 - (Nat.toDigits 10 n).length) '0' ++ Nat.toDigits 10 n

/-- One of the two numbers. -/
def printed (v : Int) : Text :=
  (if v < 0 then ['-'] else []) ++ Nat.toDigits 10 (v.natAbs / 10000000) ++ '.' :: padded (v.natAbs % 10000000)

/-- `coordinates`, a buffer of 64 characters with the NUL. -/
def coordinates (lat lon : Int) : Text := (printed lat ++ ',' :: printed lon).take 63

/-- `find`: the place in the table. -/
def find (sources : List Source) (scope : Text) : Option Nat :=
  sources.findIdx? fun source =>
    source.name == scope || (source.configAlias != [] && source.configAlias == scope)

/-- `effective`. -/
def effective (sources : List Source) (i : Nat) : Option Source :=
  sources[i]?.bind fun source =>
    if i = 0 ∨ source.ownInput ∨ source.fixed ∨ source.received then some source else sources[0]?

def available (source : Source) : Bool := source.fixed || source.received

/-- `rrserver_gps_inventory_position`: what it puts into the row. -/
def inventoryPosition (sources : List Source) (scope : Text) : Option Text := do
  let i ← find sources scope
  let position ← effective sources i
  if !available position || (!position.fixed && !position.valid) then none
  else some (coordinates position.lat position.lon)

/-! ### The sources while the server runs -/

/-- What is sent of a position; the flags are whether it is valid and whether it was made by hand. -/
structure Frame where
  lat : Int
  lon : Int
  flags : Bool × Bool
deriving DecidableEq

/-- `gps_source`, with the frames that everybody was sent on its channel, the latest first. -/
structure Live where
  source : Source
  manual : Bool
  channel : Bool
  published : Bool
  sent_at : UInt64
  sent_lat : Int
  sent_lon : Int
  sent_flags : Bool × Bool
  frames : List Frame
deriving DecidableEq

/-- What the configuration says of a source, and whether there is a channel for it. -/
structure Setup where
  name : Text
  configAlias : Text
  channel : Bool
  position : Option Text
  ownInput : Bool

/-- A source as the server allocates it. -/
def Live.zeroed (name configAlias : Text) (channel : Bool) : Live where
  source :=
    { name := name, configAlias := configAlias, ownInput := false, fixed := false, received := false, valid := false
      lat := 0, lon := 0 }
  manual := false
  channel := channel
  published := false
  sent_at := 0
  sent_lat := 0
  sent_lon := 0
  sent_flags := (false, false)
  frames := []

/-- `configure_source`: nothing when the position is no position, and the server does not start. -/
def configureSource (p : Live) (position : Option Text) (ownInput : Bool) : Option Live :=
  match position.filter fun text => !text.isEmpty with
  | none => some { p with source := { p.source with ownInput := p.source.ownInput || ownInput } }
  | some text => (positionParse text).map fun (lat, lon) =>
      { p with source := { p.source with fixed := true, ownInput := true, lat := lat, lon := lon } }

/-- `add_rig`: the table has 33 places, and a name 63 characters. -/
def addRig (sources : List Live) (radio : Setup) : Option (List Live) :=
  if sources.length = 33 then none
  else
    (configureSource (Live.zeroed (radio.name.take 63) (radio.configAlias.take 63) radio.channel) radio.position
      radio.ownInput).map fun source => sources ++ [source]

/-- `rrserver_gps_init`: the station comes first. -/
def gpsInit (station : Setup) (rigs : List Setup) : Option (List Live) := do
  let source ← configureSource (Live.zeroed ['s', 't', 'a', 't', 'i', 'o', 'n'] [] station.channel) station.position
    station.ownInput
  rigs.foldlM addRig [source]

/-- A sentence with a position: where its coordinates are, and whether it is valid and made by hand. -/
def sentenceFields (kind : Text) (fields : List Text) : Option (Nat × Nat × Bool × Bool) :=
  let status := fields.getD 2 []
  let field := fields.getD 6 []
  if kind = ['R', 'M', 'C'] then
    if status ≠ ['A'] ∧ status ≠ ['V'] then none else some (3, 5, status = ['A'], fields[12]? = some ['M'])
  else if kind = ['G', 'G', 'A'] then
    if field.length ≠ 1 ∨ (field.headD '0').toNat < '0'.toNat ∨ '8'.toNat < (field.headD '0').toNat then none
    else some (2, 4, field ≠ ['0'], field = ['7'])
  else if kind = ['G', 'L', 'L'] then
    if field ≠ ['A'] ∧ field ≠ ['V'] then none else some (1, 3, field = ['A'], fields[7]? = some ['M'])
  else none

/-- The position of a sentence is taken, or that there is none. -/
def Live.take (p : Live) (manual : Bool) : Option (Int × Int) → Live
  | none => { p with manual := manual, source := { p.source with received := true, valid := false } }
  | some (lat, lon) =>
      { p with manual := manual, source := { p.source with received := true, valid := true, lat := lat, lon := lon } }

/-- `receiver_position`, of a sentence that fits in its buffer. -/
def receiverPosition (p : Live) (sentence : Text) : Live :=
  let fields := ((sentence.takeWhile (· ≠ '*')).splitOn ',').take 24
  let name := fields.getD 0 []
  if fields.length < 7 ∨ name.length ≠ 6 then p
  else
    match sentenceFields (name.drop 3) fields with
    | none => p
    | some (lat, lon, valid, manual) =>
        if valid = true then
          match receiverAngle (fields.getD lat []) (fields.getD (lat + 1) []) true,
            receiverAngle (fields.getD lon []) (fields.getD (lon + 1) []) false with
          | some a, some b => p.take manual (some (a, b))
          | _, _ => p
        else p.take manual none

/-- `gps_input`; `nmea_valid` is `rr_nmea_valid`. -/
def gpsInput (nmea_valid : Text → Bool) (sources : List Live) (scope sentence : Text) : List Live :=
  match find (sources.map Live.source) scope with
  | none => sources
  | some i =>
      if 6 ≤ sentence.length ∧ sentence.length ≤ 509 ∧ nmea_valid sentence = true then
        sources.modify i fun p => if p.source.fixed = true then p else receiverPosition p sentence
      else sources

/-- `effective`, with all that the server has of the source. -/
def Live.effective (sources : List Live) (i : Nat) : Option Live :=
  sources[i]?.bind fun p =>
    if i = 0 ∨ p.source.ownInput ∨ p.source.fixed ∨ p.source.received then some p else sources[0]?

/-- The payload of a position. -/
def Live.frame (position : Live) : Frame where
  lat := position.source.lat
  lon := position.source.lon
  flags := (position.source.valid || position.source.fixed, position.manual || position.source.fixed)

/-- `send_position` to everybody, at `time`. -/
def sendPosition (time : UInt64) (position p : Live) : Live :=
  if p.channel = true ∧ available position.source = true then
    { p with
      published := true
      sent_at := time
      sent_lat := position.frame.lat
      sent_lon := position.frame.lon
      sent_flags := position.frame.flags
      frames := position.frame :: p.frames }
  else p

/-- Whether `poll_gps` publishes a source. -/
def due (time : UInt64) (position p : Live) : Bool :=
  !p.published || p.sent_lat != position.frame.lat || p.sent_lon != position.frame.lon ||
    p.sent_flags != position.frame.flags || decide (300000000 ≤ (time - p.sent_at).toNat)

/-- `poll_gps`; `clock` is the time when a source is sent.  What it changes is not looked at by `effective`. -/
def pollGps (time : UInt64) (clock : Nat → UInt64) (sources : List Live) : List Live :=
  sources.mapIdx fun i p =>
    match Live.effective sources i with
    | none => p
    | some position => if due time position p = true then sendPosition (clock i) position p else p

inductive Event where
  | input (scope sentence : Text)
  | poll (time : UInt64) (clock : Nat → UInt64)

def step (nmea_valid : Text → Bool) (sources : List Live) : Event → List Live
  | .input scope sentence => gpsInput nmea_valid sources scope sentence
  | .poll time clock => pollGps time clock sources

def run (nmea_valid : Text → Bool) (sources : List Live) (events : List Event) : List Live :=
  events.foldl (step nmea_valid) sources

end Gps

end RustyRig
