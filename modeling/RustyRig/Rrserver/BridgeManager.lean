/-
Tuning an SDR through its bridge.

`rrserver/bridge.manager.c` keeps one child process for every receiver and speaks with it
over a record socket.  A setpoint is a frequency with a mode, and there are three of them:
the desired one, which a reconnect restores, the one requested in the record that waits
for its result, and one that is queued behind it.  A control may bring a callback, which
is called once its request is answered or given up, and which may itself ask for more.

`Bridge` is `struct bridge_child` as far as tuning goes, with a record of what went over
the socket and to the callbacks.  Of a record only what decides is kept: whether it names
this bridge and its driver, and for a text or a property whether it was acceptable.  The
record library validates what it receives and compares modes; both are parameters.  What
happens between the server and its other parts (rooms, media, caches, subprocesses) is
left out, except that it may end the connection at any time.
-/
import Mathlib.Algebra.Group.Nat.Defs
import Mathlib.Algebra.Group.Int.Defs
import Mathlib.Data.List.Basic

namespace RustyRig

namespace Bridge

/-- `rr_control_result_t`, as far as the bridge uses it. -/
inductive Result
  | pending | ok | backendFailed | invalid | unsupported
deriving DecidableEq, Repr

/-- A frequency and a mode. -/
structure Setpoint where
  hz : Nat
  mode : String
deriving DecidableEq, Repr

/-- What the bridge knows of the receiver's coverage.  `capabilities` takes no mode name that
does not fit its 16 bytes. -/
structure Caps where
  rxMinHz : Nat
  rxMaxHz : Nat
  rxModes : List String
  short : ∀ m ∈ rxModes, m.utf8ByteSize < 16
deriving DecidableEq

/-- The property that a control sets.  A frequency arrives as `long`. -/
inductive Change
  | frequency (l : Int)
  | mode (s : String)
  | other
deriving DecidableEq, Repr

/-- `rr_control_request_t`: whether it is about this receiver, its property, and whether it has a
completion callback. -/
structure Control where
  mine : Bool
  change : Change
  complete : Bool
deriving DecidableEq, Repr

/-- The type of a record and what decides about it.  Capabilities are `none` where `capabilities`
refuses them, for their flags, limits and mode names or for the receiver's properties. -/
inductive Body
  | hello
  | log (terminal : Bool)
  | capabilities (caps : Option Caps)
  | metadata (ok : Bool)
  | heartbeat
  | state (available : Bool) (tuned : Setpoint)
  | result (request : Nat) (success : Bool)
  | other
deriving DecidableEq

/-- `rrp_bridge_ipc_message_t`; `named` says that name and driver are those of the bridge. -/
structure Record where
  named : Bool
  body : Body
deriving DecidableEq

/-- The record library, and what a callback asks for when it is called. -/
structure Env where
  recvValid : Record → Bool
  modeValid : List String → String → Bool
  react : Nat → Result → List Control

/-- The clock, and whether the socket takes a record. -/
structure Moment where
  now : Nat
  sends : Bool
deriving DecidableEq, Repr

end Bridge

open Bridge in
/-- `struct bridge_child`.  `latest`, the last five fields and `nextToken`, which numbers the
callbacks, are a record of what happened and decide nothing. -/
structure Bridge where
  opened : Bool
  hello : Bool
  ready : Bool
  online : Bool
  idling : Bool
  desired : Bool
  target : Setpoint
  pending : Nat
  requested : Setpoint
  queued : Option Setpoint
  complete : Option Nat
  nextRequest : Nat
  deadline : Nat
  caps : Caps
  nextToken : Nat
  /-- The last setpoint that was accepted; the first is the receiver's own.  One that the receiver
  refuses gives way to the last it confirmed. -/
  latest : Setpoint
  /-- The requests sent, with their setpoints and callbacks. -/
  sent : List (Nat × Setpoint × Option Nat)
  /-- The requests answered or given up. -/
  settled : List Nat
  /-- The requests that the receiver has confirmed. -/
  acked : List (Nat × Setpoint × Option Nat)
  /-- The callbacks of accepted controls. -/
  accepted : List Nat
  /-- The callbacks called, and with what. -/
  completed : List (Nat × Result)

namespace Bridge

/-- `create`, with the coverage that the configuration or a cache hints at. -/
def create (hints : Caps) : Bridge where
  opened := false
  hello := false
  ready := false
  online := false
  idling := false
  desired := false
  target := ⟨0, ""⟩
  pending := 0
  requested := ⟨0, ""⟩
  queued := none
  complete := none
  nextRequest := 0
  deadline := 0
  caps := hints
  nextToken := 0
  latest := ⟨0, ""⟩
  sent := []
  settled := []
  acked := []
  accepted := []
  completed := []

variable (env : Env) (t : Moment)

/-- `snprintf` into a field of 16 bytes. -/
def clip (mode : String) : String :=
  if mode.utf8ByteSize < 16 then mode else String.ofList (mode.toList.take 15)

def clipped (s : Setpoint) : Setpoint := { s with mode := clip s.mode }

/-- A setpoint within the receiver's coverage. -/
def fits (caps : Caps) (s : Setpoint) : Bool :=
  decide (caps.rxMinHz ≤ s.hz) && decide (s.hz ≤ caps.rxMaxHz) && env.modeValid caps.rxModes s.mode

/-- `++b->next_request`, once more if that is zero. -/
def bump (n : Nat) : Nat := if (n + 1) % 2 ^ 64 = 0 then 1 else (n + 1) % 2 ^ 64

/-- `offline` up to its completion: the queued setpoint is the one to come back to. -/
def dropped (b : Bridge) : Bridge :=
  { b with
    online := false
    desired := b.desired || b.queued.isSome
    target := b.queued.getD b.target
    queued := none }

/-- `disconnect` where no request is pending. -/
def closed (b : Bridge) : Bridge :=
  { dropped b with opened := false, hello := false, ready := false }

/-- `send_setting`.  A send that fails disconnects; no request is pending there. -/
def sendSetting (b : Bridge) (s : Setpoint) (callback : Option Nat) : Bool × Bridge :=
  if !b.ready || !b.online || b.pending ≠ 0 || !fits env b.caps s then (false, b)
  else
    let b := { b with nextRequest := bump b.nextRequest }
    if !t.sends then (false, closed b)
    else
      (true, { b with
        pending := b.nextRequest
        deadline := t.now + 5000000
        requested := clipped s
        complete := callback
        sent := b.sent ++ [(b.nextRequest, s, callback)] })

/-- The setpoint a control builds on: the queued, else the pending, else the desired. -/
def base (b : Bridge) : Setpoint :=
  b.queued.getD (if b.pending ≠ 0 then b.requested else b.target)

/-- A setpoint with one property changed. -/
def Change.apply : Change → Setpoint → Option Setpoint
  | .frequency l, s => some { s with hz := (l % 2 ^ 64).toNat }
  | .mode m, s => some { s with mode := m }
  | .other, _ => none

/-- What is recorded of a control that is accepted. -/
def accept (b : Bridge) (r : Control) : Bridge :=
  { b with
    latest := (r.change.apply b.latest).getD b.latest
    nextToken := b.nextToken + 1
    accepted := if r.complete then b.accepted ++ [b.nextToken] else b.accepted }

/-- `control`. -/
def control (b : Bridge) (r : Control) : Result × Bridge :=
  if !r.mine then (.invalid, b)
  else if !b.desired || !b.online then (.backendFailed, b)
  else
    match r.change.apply (base b) with
    | none => (.unsupported, b)
    | some s =>
        if b.pending ≠ 0 && b.complete.isNone && !r.complete && b.ready && b.online &&
            fits env b.caps s then
          (.pending, { accept b r with queued := some (clipped s) })
        else
          let (ok, b') := sendSetting env t b s (if r.complete then some b.nextToken else none)
          if ok then (.pending, accept b' r) else (.backendFailed, b')

/-- `finish`: the request is over, and its callback is called. -/
def finish (result : Result) (b : Bridge) : Bridge :=
  let freed := { b with
    pending := 0
    complete := none
    settled := if b.pending ≠ 0 then b.settled ++ [b.pending] else b.settled }
  match b.complete with
  | none => freed
  | some token =>
      (env.react token result).foldl (fun b r => (control env t b r).2)
        { freed with completed := freed.completed ++ [(token, result)] }

/-- `offline`. -/
def offline (b : Bridge) : Bridge :=
  if b.pending ≠ 0 then finish env t .backendFailed (dropped b) else dropped b

/-- `disconnect`. -/
def disconnect (b : Bridge) : Bridge :=
  { offline env t b with opened := false, hello := false, ready := false }

/-- `capabilities`. -/
def capabilities (b : Bridge) : Option Caps → Bool × Bridge
  | some caps => (true, { b with caps := caps, ready := true })
  | none => (false, b)

/-- The STATE record of `handle`. -/
def handleState (b : Bridge) (available : Bool) (s : Setpoint) : Bool × Bridge :=
  if !available then (true, offline env t b)
  else if !fits env b.caps s then (false, b)
  else
    let now := { b with online := true }
    if !b.desired then (true, { now with desired := true, target := clipped s, latest := s })
    else if !b.online && b.pending = 0 then sendSetting env t now b.target none
    else (true, now)

/-- What follows a result: the queued setpoint is sent, unless the receiver is there already. -/
def flush (b : Bridge) : Bridge :=
  match b.queued with
  | none => b
  | some s =>
      if b.pending = 0 && b.online && b.ready then
        let b := { b with queued := none }
        if s ≠ b.target then (sendSetting env t b s none).2 else b
      else b

/-- The RESULT record of `handle`. -/
def handleResult (b : Bridge) (request : Nat) (success : Bool) : Bool × Bridge :=
  if request = b.pending then
    let b' :=
      if success then
        { b with
          target := b.requested
          acked := b.acked ++ [(request, b.requested, b.complete)] }
      else { b with latest := if b.queued.isNone then b.target else b.latest }
    (true, flush env t (finish env t (if success then .ok else .backendFailed) b'))
  else (false, b)

/-- `handle`. -/
def handle (b : Bridge) (m : Record) : Bool × Bridge :=
  if !m.named then (false, b)
  else if !b.hello then
    match m.body with
    | .hello => (true, { b with hello := true })
    | _ => (false, b)
  else
    match m.body with
    | .log terminal => (true, if terminal then disconnect env t b else b)
    | .capabilities caps => capabilities b caps
    | .metadata ok => (b.ready && ok, b)
    | .heartbeat => (b.ready, b)
    | .state available s => if b.ready then handleState env t b available s else (false, b)
    | .result request success =>
        if b.ready then handleResult env t b request success else (false, b)
    | _ => (false, b)

/-- An idle bridge hears nothing else. -/
def Record.isLog (m : Record) : Bool := m.body matches .log _

/-- One record of `rrserver_bridges_poll`. -/
def receive (b : Bridge) (m : Record) : Bridge :=
  if !b.opened then b
  else if !env.recvValid m then disconnect env t b
  else if b.idling && !m.isLog then b
  else
    let (ok, b') := handle env t b m
    if ok then b' else disconnect env t b'

/-- What can happen to a bridge.  `tick` is the poll's look at the clock, and `expired` says that
the handshake or the heartbeat is overdue; `hangup` is any other end of the connection, such as a
broken socket, an exited process or the bridge's destruction. -/
inductive Event
  | control (r : Control)
  | record (m : Record)
  | tick (expired : Bool)
  | hangup
  | idle
  | wanted
  | spawn
deriving DecidableEq

def step (b : Bridge) : Event → Bridge
  | .control r => (control env t b r).2
  | .record m => receive env t b m
  | .tick expired =>
      if b.opened && ((b.pending ≠ 0 && b.deadline ≤ t.now) || expired) then disconnect env t b
      else b
  | .hangup => disconnect env t b
  | .idle =>
      if b.idling then b
      else if b.opened then offline env t { b with idling := true }
      else { b with idling := true }
  | .wanted => { b with idling := false }
  | .spawn =>
      if b.opened then b
      else { b with opened := true, hello := false, ready := false, idling := false }

end Bridge

end RustyRig
