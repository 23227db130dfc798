/-
The Kiwi driver.

`rrbridge/module.kiwi.c` connects to a Kiwi receiver over a WebSocket, tunes it, and tells its
host about requests, the receiver's state and its own progress.  `Kiwi` is
`struct kiwi_instance` as far as connections and tuning go, without the waterfall, the audio
controls and the traffic counters.  A poll runs the event loop of the network library, so its
attempt to connect, the events of that connection and its look at the clock are steps of their
own.  Of a frame only what decides is kept.  The events of a connection come to nothing where
there is none, and the driver's destruction ends a run.
-/
import Mathlib.Algebra.Group.Nat.Defs
import RustyRig.Rrbridge.KiwiRedirect

namespace RustyRig

namespace Kiwi

/-- `struct mg_connection`. -/
structure Connection where
  websocket : Bool
  closing : Bool
deriving DecidableEq, Repr

/-- The calls of the host: `status`, `complete` and `state`. -/
inductive Call
  | status (text : String)
  | complete (request : Nat) (success : Bool)
  | state (available : Bool) (hz : Nat) (mode : String)
deriving DecidableEq, Repr

/-- A parameter of a `MSG` frame.  A number is there if it is one and within the limits. -/
inductive Parameter
  | loadCfg (extApi : Option Nat)
  | badp (rejected : Bool)
  | tooBusy
  | down
  | redirect
  | passwordTimeout
  | bandwidth (hz : Option Nat)
  | sampleRate (rate : Option Nat)
  | audioRate (rate : Option Nat)
  | freqOffset (zero : Bool)
  | other
deriving DecidableEq, Repr

/-- A frame of the receiver: one whose size or text is not valid, a `MSG`, a `SND`, or another. -/
inductive Frame
  | invalid
  | msg (parameters : List Parameter)
  | sound (flags seq length : Nat)
  | other
deriving DecidableEq, Repr

/-- What `mg_ws_connect` comes back with: nothing, or a connection, which may already have failed. -/
inductive Connect
  | fails
  | opens
  | errs
deriving DecidableEq, Repr

/-- The clock, whether the connection's queue takes what is sent, and two of the settings. -/
structure Moment where
  now : Nat
  sends : Bool
  password : Option (List UInt8)
  userAgent : Option (List UInt8)
deriving DecidableEq, Repr

end Kiwi

open Kiwi in
/-- `struct kiwi_instance`.  `calls` records what the host was told, `made` counts the attempts to
connect and `followed` the redirects that were followed. -/
structure Kiwi where
  started : Bool
  connection : Option Connection
  authenticated : Bool
  configured : Bool
  online : Bool
  confirmed : Bool
  failed : Bool
  rate : Nat
  failures : Nat
  attempts : Nat
  redirects : Nat
  redirecting : Bool
  maxHz : Nat
  hz : Nat
  mode : String
  wantedHz : Nat
  wantedMode : String
  request : Nat
  deadline : Nat
  retry : Nat
  keepalive : Nat
  received : Nat
  sequence : Option Nat
  url : Url
  redirectUrl : Url
  calls : List Call
  made : Nat
  followed : Nat

namespace Kiwi

variable (k : Kiwi) (t : Moment)

/-- `kiwi_create` and `kiwi_start`, with what the configuration says. -/
def start (url : Url) (hz : Nat) (mode : String) : Kiwi where
  started := true
  connection := none
  authenticated := false
  configured := false
  online := false
  confirmed := false
  failed := false
  rate := 0
  failures := 0
  attempts := 0
  redirects := 0
  redirecting := false
  maxHz := 30000000
  hz := 14074000
  mode := "USB"
  wantedHz := hz
  wantedMode := mode
  request := 0
  deadline := 0
  retry := 0
  keepalive := 0
  received := 0
  sequence := none
  url := url
  redirectUrl := ⟨[], by decide⟩
  calls := []
  made := 0
  followed := 0

/-! ### The host and the connection -/

def tell (call : Call) : Kiwi := { k with calls := k.calls ++ [call] }

def note (text : String) : Kiwi := tell k (.status text)

/-- A request is completed, and forgotten. -/
def settle (success : Bool) : Kiwi :=
  if k.request = 0 then k else { tell k (.complete k.request success) with request := 0 }

/-- `unavailable`. -/
def unavailable : Kiwi :=
  let k := tell (settle k false) (.state false 0 "")
  { k with
    online := false
    wantedHz := if k.confirmed then k.hz else k.wantedHz
    wantedMode := if k.confirmed then k.mode else k.wantedMode }

/-- `is_closing` of the connection. -/
def hangUp : Kiwi := { k with connection := k.connection.map fun c => { c with closing := true } }

/-- `fail`. -/
def fail (reason : String) : Kiwi :=
  if k.failed then k else hangUp (unavailable (note { k with failed := true } reason))

/-- `send_command`. -/
def sendCommand : Bool :=
  match k.connection with
  | none => false
  | some c => c.websocket && !c.closing && t.sends

/-! ### Tuning -/

/-- What `kiwi_tune` can make a command of. -/
def tunable (hz : Nat) (mode : String) : Bool :=
  decide (hz ≤ k.maxHz) && ["usb", "lsb", "am", "cw"].contains mode.toLower

/-- `configure`. -/
def configure : Bool × Kiwi :=
  if !k.authenticated || k.rate = 0 || k.configured then (true, k)
  else if !tunable k k.wantedHz k.wantedMode || !sendCommand k t then (false, k)
  else (true, { k with configured := true, deadline := t.now + 5000000 })

/-- `parameter`. -/
def parameter : Parameter → Bool × Kiwi
  | .loadCfg extApi =>
      let k := if extApi = some 0 then fail k "Kiwi receiver has disabled external API access" else k
      if k.failed then (false, k) else configure k t
  | .badp rejected =>
      if rejected then (false, fail k "Kiwi authentication rejected")
      else configure { k with authenticated := true } t
  | .tooBusy =>
      (false, fail k ("Kiwi receiver rejected session: channel capacity or external-client limit " ++
        "(too_busy)"))
  | .down => (false, fail k "Kiwi receiver reports offline/maintenance")
  | .redirect =>
      (false, fail k "Kiwi receiver requested a redirect; automatic redirects are unsupported")
  | .passwordTimeout => (false, fail k "Kiwi receiver password-entry timeout")
  | .bandwidth none => (false, k)
  | .bandwidth (some hz) => configure { k with maxHz := min hz 30000000 } t
  | .sampleRate none => (false, k)
  | .sampleRate (some rate) =>
      if k.rate ≠ 0 ∧ k.rate ≠ rate then (false, k) else configure { k with rate := rate } t
  | .audioRate none => (false, k)
  | .audioRate (some _) => if sendCommand k t then configure k t else (false, k)
  | .freqOffset zero =>
      if zero then configure k t
      else (false, fail k "Kiwi frequency offsets are not supported yet")
  | .other => configure k t

/-- The loop over the parameters of a frame. -/
def parameters (k : Kiwi) : List Parameter → Bool × Kiwi
  | [] => (true, k)
  | p :: ps =>
      let (ok, k) := parameter k t p
      if ok then parameters k ps else (false, k)

/-- The receiver has applied frequency and mode. -/
def confirm : Kiwi :=
  let k := { k with hz := k.wantedHz, mode := k.wantedMode }
  let k := if k.online then k
    else note k ("Kiwi receiver online (" ++ toString k.rate ++ " Hz mono PCM)")
  let k := { k with online := true, confirmed := true }
  settle (tell k (.state true k.hz k.mode)) true

/-- `(int32_t) (seq - sequence) <= 0`. -/
def stale (seq sequence : Nat) : Bool :=
  let ahead := (seq + 2 ^ 32 - sequence) % 2 ^ 32
  ahead = 0 || 2 ^ 31 ≤ ahead

/-- `kiwi_receive`. -/
def receive : Frame → Bool × Kiwi
  | .invalid => (false, k)
  | .other => (true, k)
  | .msg ps => parameters t k ps
  | .sound flags seq length =>
      if length < 12 || !k.configured || k.rate = 0 || flags.testBit 3 then (false, k)
      else if flags.testBit 4 then (!k.online, k)
      else if (length - 10) % 2 = 1 then (false, k)
      else if k.sequence.any (stale seq) then (true, k)
      else
        let k := { k with sequence := some seq, received := t.now }
        (true, if (!k.online || k.request ≠ 0) && flags.testBit 2 then confirm k else k)

/-- `kiwi_set_receiver`. -/
def setReceiver (request hz : Nat) (mode : String) : Bool × Kiwi :=
  if !k.online || k.request ≠ 0 || request = 0 || !tunable k hz mode then (false, k)
  else if hz = k.hz ∧ mode = k.mode then (true, tell k (.complete request true))
  else if !sendCommand k t then (false, k)
  else (true, { k with
    wantedHz := hz, wantedMode := mode, request := request, deadline := t.now + 4000000 })

/-! ### Redirects -/

def text (bytes : List UInt8) : String := String.ofList (bytes.map fun c => Char.ofNat c.toNat)

/-- The diagnostic of a redirect. -/
def hop (next : Url) : String :=
  "Kiwi HTTP 307: redirect hop " ++ toString (k.redirects + 1) ++ "/8 to " ++
    text (if (afterScheme next.bytes).isSome then (root next.bytes).take 150 else []) ++
      " (path length " ++ toString ((pathOf next.bytes).getD []).length ++ ")"

/-- The second half of `kiwi_redirect`. -/
def follow (password : Option (List UInt8)) (target : List UInt8) : Bool × Kiwi :=
  if target.any fun c => c < 33 || 126 < c then (false, k)
  else
    match resolve k.url.bytes target with
    | none => (false, k)
    | some next =>
        if h : next.length < 512 then
          if next = k.url.bytes then
            (false, note k "Kiwi HTTP 307 redirects to the same WebSocket URL (redirect loop)")
          else
            let next : Url := ⟨retain k.url.bytes next, retain_fits k.url h⟩
            if !passwordAllows password k.url.bytes next.bytes then (false, k)
            else
              (true, hangUp { note k (hop k next) with
                redirectUrl := next
                redirects := k.redirects + 1
                redirecting := true })
        else (false, k)

/-- `kiwi_redirect`. -/
def redirect (password : Option (List UInt8)) (websocket : Bool) (buf : List UInt8) :
    Option (Bool × Kiwi) :=
  (if websocket then some .other else response buf).map fun
    | .other => (false, k)
    | .moved target =>
        if 8 ≤ k.redirects then (false, note k "Kiwi HTTP 307 redirect chain exceeded eight hops")
        else
          match target with
          | none => (false, k)
          | some target => follow k password target

/-! ### The connection's events -/

/-- `MG_EV_WS_OPEN`. -/
def opened : Kiwi :=
  let k := { k with connection := k.connection.map fun c => { c with websocket := true } }
  let password := t.password.getD []
  if 128 < password.length || password.any [32, 13, 10].contains then
    fail k "Invalid Kiwi password configuration"
  else if sendCommand k t then k
  else fail k "Cannot send Kiwi authentication"

/-- `MG_EV_WS_MSG`. -/
def message (frame : Frame) : Kiwi :=
  if k.failed then k
  else
    let (ok, k) := receive k t frame
    if ok then k else fail k "Invalid or unsupported Kiwi stream"

/-- The connection is a WebSocket by now. -/
def websocket : Bool := k.connection.any Connection.websocket

/-- `MG_EV_READ`, with what has been received and not been consumed. -/
def readable (buf : List UInt8) : Kiwi :=
  let limited (k : Kiwi) : Kiwi :=
    if 65536 < buf.length then fail k "Kiwi WebSocket receive limit exceeded" else k
  if k.redirecting then limited k
  else
    match redirect k t.password (websocket k) buf with
    -- a read outside of the buffer, which does not happen
    | none => k
    | some (true, k) => k
    | some (false, k) => limited k

def isDigit (c : UInt8) : Bool := 48 ≤ c && c ≤ 57

/-- The numeric status of a response that is not followed. -/
def statusOf (buf : List UInt8) : Option (List UInt8) :=
  if 12 ≤ buf.length ∧ buf.take 5 = ascii "HTTP/" then
    let status := ((buf.dropWhile (· ≠ 32)).drop 1).take 3
    if status.length = 3 ∧ status.all isDigit then some status else none
  else none

/-- What a failed handshake is reported as. -/
def errorReason (websocket : Bool) (buf : List UInt8) : String :=
  match if websocket then none else statusOf buf with
  | none => "Kiwi WebSocket connection failed"
  | some status =>
      if status = ascii "307" then
        "Kiwi HTTP 307 redirect could not be followed (missing, invalid, or unsupported Location)"
      else "Kiwi WebSocket handshake rejected (HTTP " ++ text status ++ ")"

/-- `MG_EV_ERROR`. -/
def errored (buf : List UInt8) : Kiwi :=
  if k.redirecting then k
  else
    match redirect k t.password (websocket k) buf with
    -- a read outside of the buffer, which does not happen
    | none => k
    | some (true, k) => k
    | some (false, k) => fail k (errorReason (websocket k) buf)

/-- The status on which the server gives a receiver up. -/
def stopped : String := "Kiwi receiver stopped after 3 connection attempts"

/-- Whether a log line of its child makes the server tear a receiver down. -/
def terminal (temporary : Bool) (line : List UInt8) : Bool :=
  temporary && (find (ascii stopped) line).isSome

/-- `MG_EV_CLOSE` of the driver's connection. -/
def closed : Kiwi :=
  let k := { k with connection := none }
  if k.redirecting then
    note { k with
      redirecting := false
      attempts := k.attempts - 1
      url := k.redirectUrl
      retry := t.now
      followed := k.followed + 1 } "Kiwi WebSocket redirected (HTTP 307); following Location"
  else
    let k' := unavailable k
    let k' := if k.online then note k' "Kiwi WebSocket connection lost after receiver was online" else k'
    if 3 ≤ k'.attempts then { note k' stopped with retry := 2 ^ 64 - 1 }
    else
      let delay := 2 ^ min k'.failures 6
      let k' := { k' with failures := if k'.failures < 6 then k'.failures + 1 else k'.failures }
      { note k' ("Kiwi receiver disconnected; retrying in " ++ toString delay ++ " seconds") with
        retry := t.now + delay * 1000000 }

/-! ### The poll -/

/-- A header that can be sent: the default one is. -/
def agentValid (userAgent : Option (List UInt8)) : Bool :=
  let agent := userAgent.getD []
  agent.length ≤ 384 && !agent.any [13, 10].contains

/-- Whether a poll attempts to connect. -/
def due : Bool := k.started && k.connection.isNone && decide (k.retry ≤ t.now) && decide (k.attempts < 3)

/-- An attempt, up to the connection. -/
def prepare : Kiwi :=
  { k with
    attempts := k.attempts + 1
    made := k.made + 1
    authenticated := false
    configured := false
    online := false
    sequence := none
    failed := false
    rate := 0 }

/-- The connection is watched from here on. -/
def watched (connection : Option Connection) : Kiwi :=
  { k with
    connection := connection
    deadline := t.now + 10000000
    received := t.now
    keepalive := t.now }

/-- The first part of `kiwi_poll`. -/
def connect (connect : Connect) : Kiwi :=
  if !due k t then k
  else
    let k := prepare k
    if !agentValid t.userAgent then fail k "Invalid Kiwi User-Agent configuration"
    else
      match connect with
      | .fails => { watched k t none with retry := t.now + 1000000 }
      | .opens => watched k t (some ⟨false, false⟩)
      -- the handler hears of the error before the connection is known
      | .errs => watched (errored k t []) t (some ⟨false, true⟩)

/-- Where the connection is when it times out. -/
def stage : String :=
  if k.request ≠ 0 then "tune acknowledgement"
  else if !websocket k then "WebSocket handshake"
  else if !k.authenticated then "authentication"
  else if k.rate = 0 then "sample-rate announcement"
  else if !k.configured then "receiver configuration"
  else if !k.online then "first tuned audio packet"
  else "audio stream stalled"

def yesNo (b : Bool) : String := if b then "yes" else "no"

def timeout : String :=
  "Kiwi receiver timed out (" ++ stage k ++ "; ws=" ++ yesNo (websocket k) ++
    " auth=" ++ yesNo k.authenticated ++ " configured=" ++ yesNo k.configured ++
      " online=" ++ yesNo k.online ++ " rate=" ++ toString k.rate ++
        "; last-audio=" ++ toString ((t.now - k.received) / 1000) ++ "ms)"

/-- The last part of `kiwi_poll`. -/
def watch : Kiwi :=
  if !k.started || k.connection.isNone then k
  else if (!k.online && k.deadline ≤ t.now) || (k.request ≠ 0 && k.deadline ≤ t.now) ||
      k.received + 10000000 < t.now then
    fail k (timeout k t)
  else if websocket k && k.keepalive + 1000000 ≤ t.now then
    { if sendCommand k t then k else fail k "Cannot send Kiwi keepalive" with keepalive := t.now }
  else k

/-- A poll's attempt to connect, an event of the connection, the poll's look at the clock, and the
host's request. -/
inductive Event
  | connect (connect : Connect)
  | opened
  | message (frame : Frame)
  | readable (buf : List UInt8)
  | errored (buf : List UInt8)
  | closed
  | watch
  | setReceiver (request hz : Nat) (mode : String)
deriving DecidableEq, Repr

def step (k : Kiwi) (e : Moment × Event) : Kiwi :=
  match e.2 with
  | .connect result => connect k e.1 result
  | .watch => watch k e.1
  | .setReceiver request hz mode => (setReceiver k e.1 request hz mode).2
  | event =>
      if k.connection.isNone then k
      else
        match event with
        | .opened => opened k e.1
        | .message frame => message k e.1 frame
        | .readable buf => readable k e.1 buf
        | .errored buf => errored k e.1 buf
        | .closed => closed k e.1
        | _ => k

/-- The driver after a run. -/
def ran (url : Url) (hz : Nat) (mode : String) (es : List (Moment × Event)) : Kiwi :=
  es.foldl step (start url hz mode)

end Kiwi

end RustyRig
