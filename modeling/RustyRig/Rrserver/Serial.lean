/-
Serial exports.

The server exports serial devices and software modems to its connections.  A connection
opens an export under a name of its own and gets a stream; data frames name the stream, and
one block at a time is pending until the poll has written it to the device.  GPS services
share the table but no connection opens them.

`Sys` is what the system answers during one event: clocks, the device nodes, memory, and
for each port what its descriptor did.  Frames and messages arrive parsed.  Exports are
numbered as they are made, for the record, since their slots move.
-/
import Mathlib.Algebra.Group.Nat.Defs
import Mathlib.Data.List.Perm.Basic

namespace RustyRig

namespace Serial

def portsMax : Nat := 32

def streamsMax : Nat := 256

/-- `RR_SERIAL_BLOCK_MAX`, `serial.enable` and `serial.auto-export-usb`. -/
structure Setup where
  blockMax : Nat
  enable : Bool
  autoExport : Bool

/-- `rr_serial_settings_t`. -/
structure Settings where
  baud : Nat
  bits : Nat
  parity : Char
  stops : Nat
deriving DecidableEq, Repr

/-- `http_user_t`, with what `has_priv` says of it. -/
structure User where
  passwordChangeRequired : Bool
  passwordExpires : Nat
  privilege : String → Bool

/-- `rrconn_t`. -/
structure Client where
  handle : Nat
  authenticated : Bool
  user : Option User

/-- `struct serial_export`.  No descriptor is `-1`; `framed` is the connection and the stream of
the frame that the pending bytes came in. -/
structure Export where
  id : Nat
  name : String
  path : String
  clientName : String
  service : Nat
  autodiscovered : Bool
  virtualModem : Bool
  retryAt : Nat
  failures : Nat
  buffer : List UInt8
  bufferLimit : Nat
  settings : Settings
  defaults : Settings
  owner : Option Nat
  fd : Option Nat
  stream : Nat
  txSeq : UInt32
  rxSeq : UInt32
  rxPending : Bool
  closePending : Bool
  pending : List UInt8
  pendingOffset : Nat
  framed : Nat × Nat

/-- `struct serial_session`: the stream ids issued on a connection. -/
structure Session where
  client : Nat
  live : List Nat

/-- What a reply says of a port. -/
structure PortInfo where
  name : String
  modem : Bool
  stream : Nat
  settings : Settings
  seq : UInt32

inductive Output
  | reply (client : Nat) (cmd : String) (name : Option String) (port : Option PortInfo)
      (error : Option String)
  | block (client stream : Nat) (seq : UInt32) (data : List UInt8)

/-- Bytes of a frame on a connection's stream that went to a device. -/
structure Write where
  port : Nat
  client : Nat
  stream : Nat
  data : List UInt8

/-- Streams handed out and connections that ended, for the record. -/
inductive Entry
  | handed (client stream : Nat)
  | gone (client : Nat)

/-- The module's state, what it sent and wrote, and the record, latest first. -/
structure World where
  clients : List Client
  exports : List Export
  sessions : List Session
  made : Nat
  sent : List Output
  written : List Write
  log : List Entry

/-- What a `read` gave. -/
inductive ReadResult
  | data (bytes : List UInt8)
  | again
  | failed

/-- What a `write` gave. -/
inductive WriteResult
  | wrote (n : Nat)
  | again
  | failed

/-- The system's answers for one port. -/
structure PortIo where
  write : WriteResult
  read : ReadResult
  canSend : Bool
  framed : Bool
  delivered : Bool

/-- The system's answers during an event. -/
structure Sys where
  now : Nat
  clock : Nat
  /-- `stat`: the device number of a path and whether it is a character device. -/
  stat : String → Option (Nat × Bool)
  fstat : Nat → Option Nat
  devices : List String
  /-- The descriptor that opening a device, or starting a worker, yields. -/
  opened : String → Option Nat
  applied : Bool
  bufferRoom : Bool
  sessionRoom : Bool
  io : Nat → PortIo

/-! ### Ports -/

/-- `allowed`. -/
def allowed (s : Setup) (sys : Sys) (client : Option Client) (p : Export) : Bool :=
  match client with
  | none => false
  | some c =>
      match c.user with
      | none => false
      | some u =>
          c.authenticated && !u.passwordChangeRequired &&
            !(decide (0 < u.passwordExpires) && decide (u.passwordExpires ≤ sys.now)) && s.enable &&
            (u.privilege "serial" || u.privilege ("serial." ++ p.name))

/-- `modem_failed`. -/
def modemFailed (sys : Sys) (p : Export) : Export :=
  if p.virtualModem then
    { p with
      fd := none
      failures := if p.failures < 5 then p.failures + 1 else p.failures
      retryAt := sys.clock + 2 ^ (min p.failures 5) * 1000000 }
  else p

/-- `modem_ensure_running`. -/
def modemEnsureRunning (sys : Sys) (p : Export) : Export :=
  if !p.virtualModem || p.fd.isSome || decide (sys.clock < p.retryAt) then p
  else
    match sys.opened p.path with
    | some fd => { p with fd := some fd, retryAt := 0, failures := 0 }
    | none => modemFailed sys p

/-- `close_port`. -/
def closePort (p : Export) : Export :=
  { p with
    buffer := []
    fd := if p.virtualModem then p.fd else none
    owner := none
    stream := 0
    clientName := ""
    pending := []
    pendingOffset := 0
    rxPending := false
    closePending := false
    settings := p.defaults }

def info (cmd : String) (p : Export) : PortInfo where
  name := p.name
  modem := p.virtualModem
  stream := p.stream
  settings := p.settings
  seq := if cmd = "written" then p.txSeq else p.rxSeq

/-- `reply` about a port. -/
def replyPort (client : Nat) (cmd : String) (p : Export) (error : Option String) : Output :=
  .reply client cmd (some p.clientName) (some (info cmd p)) error

/-- A parsed `serial` message.  An absent field is `none`, one of the wrong type or form is
`some none`. -/
structure Message where
  cmd : String
  name : String
  stream : Option (Option Nat)
  seq : Option (Option Nat)
  port : Option String
  path : Bool
  mode : Option (Option (Nat × Char × Nat))
  baud : Option (Option Int)

/-- `settings_from`. -/
def settingsFrom (d : Message) (current : Settings) : Option Settings :=
  let moded := match d.mode with
    | none => some current
    | some none => none
    | some (some (bits, parity, stops)) => some { current with bits, parity, stops }
  moded.bind fun proposed =>
    match d.baud with
    | none => some proposed
    | some none => none
    | some (some value) =>
        if value < 0 ∨ 921600 < value then none else some { proposed with baud := value.toNat }

namespace World

def client? (w : World) (client : Nat) : Option Client := w.clients.find? (·.handle == client)

def out (w : World) (o : Output) : World := { w with sent := o :: w.sent }

/-- `reply` without a port. -/
def reply (w : World) (client : Nat) (cmd name : String) (error : Option String) : World :=
  w.out (.reply client cmd (some name) none error)

def modifyExport (w : World) (i : Nat) (f : Export → Export) : World :=
  { w with exports := w.exports.modify i f }

end World

/-! ### Discovery -/

/-- `serial_auto_name`. -/
def serialAutoName (name : String) : Bool :=
  (name.startsWith "ttyUSB" || name.startsWith "ttyACM") &&
    !(name.toList.drop 6).isEmpty && (name.toList.drop 6).all Char.isDigit

/-- An export found on the bus whose device is gone and that nobody owns. -/
def usbGone (sys : Sys) (p : Export) : Bool :=
  p.autodiscovered && p.owner.isNone && !(sys.stat p.path).any (·.2)

/-- The last export takes the place of one that goes. -/
def swapRemove (exports : List Export) (i : Nat) : List Export :=
  match exports.getLast? with
  | none => exports
  | some last => (exports.set i last).dropLast

/-- The loop that drops exports, from slot `i` on. -/
def discard (gone : Export → Bool) : Nat → Nat → List Export → List Export
  | 0, _, exports => exports
  | fuel + 1, i, exports =>
      match exports[i]? with
      | none => exports
      | some p =>
          if gone p then discard gone fuel i (swapRemove exports i)
          else discard gone fuel (i + 1) exports

/-- The export made for a device on the bus. -/
def usbExport (id : Nat) (name : String) : Export where
  id := id
  name := String.ofList (name.toList.take 63)
  path := "/dev/" ++ name
  clientName := ""
  service := 0
  autodiscovered := true
  virtualModem := false
  retryAt := 0
  failures := 0
  buffer := []
  bufferLimit := 16384
  settings := ⟨9600, 8, 'n', 1⟩
  defaults := ⟨9600, 8, 'n', 1⟩
  owner := none
  fd := none
  stream := 0
  txSeq := 0
  rxSeq := 0
  rxPending := false
  closePending := false
  pending := []
  pendingOffset := 0
  framed := (0, 0)

namespace World

/-- One name read from `/dev`. -/
def addUsb (sys : Sys) (w : World) (name : String) : World :=
  if w.exports.length < portsMax ∧ serialAutoName name = true ∧
      w.exports.all (·.name != name) = true ∧ (sys.stat ("/dev/" ++ name)).any (·.2) = true then
    { w with exports := w.exports ++ [usbExport w.made name], made := w.made + 1 }
  else w

/-- `serial_discover_usb`. -/
def serialDiscoverUsb (s : Setup) (sys : Sys) (w : World) : World :=
  if s.autoExport then
    sys.devices.foldl (addUsb sys)
      { w with exports := discard (usbGone sys) w.exports.length 0 w.exports }
  else w

/-! ### Requests -/

/-- `owned`. -/
def owned (w : World) (client : Nat) (name : String) : Option Nat :=
  w.exports.findIdx? fun p => p.owner == some client && p.clientName == name

/-- `allocate_stream`: no stream when the ids of the connection are used up. -/
def allocateStream (sys : Sys) (w : World) (client : Nat) : World × Option Nat :=
  let sessions? :=
    if w.sessions.any (·.client == client) then some w.sessions
    else if sys.sessionRoom then some (⟨client, []⟩ :: w.sessions) else none
  match sessions? with
  | none => (w, none)
  | some sessions =>
      let live := ((sessions.find? (·.client == client)).map Session.live).getD []
      match ((List.range streamsMax).drop 1).find? fun candidate => !live.contains candidate with
      | none => ({ w with sessions }, none)
      | some candidate =>
          ({ w with
              sessions := sessions.map fun t =>
                if t.client = client then { t with live := candidate :: t.live } else t
              log := .handed client candidate :: w.log }, some candidate)

/-- Whether the device of a port is open under some owner already. -/
def deviceBusy (sys : Sys) (w : World) (p : Export) : Bool :=
  !p.virtualModem && (sys.stat p.path).any fun candidate =>
    w.exports.any fun q => q.owner.isSome && (q.fd.bind sys.fstat).any (· == candidate.1)

/-- The end of an `open`: the device is there, a stream is handed out. -/
def grant (sys : Sys) (w : World) (i : Nat) (client : Nat) (name : String) (proposed : Settings) :
    World :=
  match w.allocateStream sys client with
  | (w, none) => (w.modifyExport i closePort).reply client "error" name (some "stream-limit-reconnect")
  | (w, some stream) =>
      let w := w.modifyExport i fun p => { p with
        settings := proposed
        owner := some client
        stream := stream
        txSeq := 0
        rxSeq := 0
        clientName := name }
      match w.exports[i]? with
      | none => w
      | some p => w.out (replyPort client "opened" p none)

/-- An `open` of the export in slot `i` that nothing forbids. -/
def openExport (sys : Sys) (w : World) (i : Nat) (p : Export) (client : Nat) (name : String)
    (proposed : Settings) : World :=
  if !sys.bufferRoom then w.reply client "error" name (some "no-buffer-memory")
  else
    let opened := if p.virtualModem then modemEnsureRunning sys p else { p with fd := sys.opened p.path }
    let w := w.modifyExport i fun _ => { opened with buffer := [] }
    if opened.fd.isNone then w.reply client "error" name (some "device-open-failed")
    else w.grant sys i client name proposed

/-- `request` with command `open`. -/
def requestOpen (s : Setup) (sys : Sys) (w : World) (d : Message) (client : Nat) : World :=
  let refuse := fun text => w.reply client "error" d.name (some text)
  match d.port with
  | none => refuse "invalid-request"
  | some port =>
      if d.name = "" ∨ 64 ≤ d.name.utf8ByteSize ∨ d.path = true ∨ port = "" ∨ port.toList.contains '/' then
        refuse "invalid-request"
      else
        match (w.owned client d.name).bind fun i => w.exports[i]? with
        | some p =>
            if !allowed s sys (w.client? client) p || p.name != port then refuse "forbidden-device"
            else w.out (replyPort client "opened" p none)
        | none =>
            match w.exports.findIdx? fun p => p.service == 0 && p.name == port with
            | none => refuse "not-found"
            | some i =>
                match w.exports[i]? with
                | none => refuse "not-found"
                | some p =>
                    if !allowed s sys (w.client? client) p then refuse "forbidden-device"
                    else if p.owner.isSome then refuse "device-busy"
                    else if w.deviceBusy sys p then refuse "device-busy"
                    else
                      match settingsFrom d p.settings with
                      | none => refuse "invalid-settings"
                      | some proposed => w.openExport sys i p client d.name proposed

/-- `request` with command `configure`, on the port in slot `i`. -/
def requestConfigure (sys : Sys) (w : World) (d : Message) (client i : Nat) (p : Export) : World :=
  let failed := fun text => w.out (replyPort client "error" p (some text))
  if p.virtualModem then failed "unsupported-settings"
  else
    match settingsFrom d p.settings with
    | none => failed "settings-failed"
    | some proposed =>
        if sys.applied then
          (w.modifyExport i fun p => { p with settings := proposed }).out
            (replyPort client "configured" { p with settings := proposed } none)
        else failed "settings-failed"

/-- `request` on a port the client has open. -/
def requestPort (sys : Sys) (w : World) (d : Message) (client i : Nat) (p : Export) : World :=
  let stream := (d.stream.join).getD 0
  if stream ≠ 0 ∧ stream ≠ p.stream then w
  else if d.cmd = "close" then
    if p.pending = [] then (w.out (replyPort client "closed" p none)).modifyExport i closePort
    else w.modifyExport i fun p => { p with closePending := true }
  else if d.cmd = "configure" then w.requestConfigure sys d client i p
  else if d.cmd = "read" then
    if p.rxPending && (d.seq.join).getD 0 == p.rxSeq.toNat then
      w.modifyExport i fun p => { p with rxPending := false }
    else w
  else w.out (replyPort client "error" p (some "unknown-command"))

/-- `request` with command `list`. -/
def requestList (s : Setup) (sys : Sys) (w : World) (client : Nat) : World :=
  let listed := w.exports.foldl (fun w p =>
    if p.service = 0 ∧ allowed s sys (w.client? client) p = true then
      w.out (.reply client "available" (some p.name) (some (info "available" p)) none)
    else w) w
  listed.out (.reply client "list-end" none none none)

/-- `request`. -/
def request (s : Setup) (sys : Sys) (w : World) (client : Nat) (message : Option Message) : World :=
  match message with
  | none => w
  | some d =>
      if (d.stream.any fun v => !v.any (· < streamsMax)) || d.seq == some none then
        w.reply client "error" d.name (some "invalid-request")
      else if d.cmd = "list" then (w.serialDiscoverUsb s sys).requestList s sys client
      else if d.cmd = "open" then (w.serialDiscoverUsb s sys).requestOpen s sys d client
      else
        match w.owned client d.name with
        | none => w.reply client "error" d.name (some "not-open")
        | some i =>
            match w.exports[i]? with
            | none => w.reply client "error" d.name (some "not-open")
            | some p =>
                if !allowed s sys (w.client? client) p then
                  w.reply client "error" d.name (some "not-open")
                else w.requestPort sys d client i p

end World

/-- A valid frame towards a device. -/
structure Frame where
  stream : Nat
  seq : UInt32
  data : List UInt8

namespace World

/-- `frame`; what does not parse is `none`. -/
def frame (s : Setup) (sys : Sys) (w : World) (client : Nat) (f : Option Frame) : World :=
  match f with
  | none => w
  | some f =>
      match w.exports.findIdx? fun p =>
        p.service == 0 && p.owner == some client && p.stream == f.stream &&
          allowed s sys (w.client? client) p with
      | none => w
      | some i =>
          match w.exports[i]? with
          | none => w
          | some p =>
              if p.pending ≠ [] ∨ f.seq ≠ p.txSeq + 1 then
                (w.out (replyPort client "error" p (some "invalid-sequence"))).modifyExport i closePort
              else
                w.modifyExport i fun p => { p with
                  pending := f.data
                  pendingOffset := 0
                  txSeq := f.seq
                  framed := (client, f.stream) }

/-- `closed`, after which the connection is gone. -/
def closed (w : World) (client : Nat) : World :=
  { w with
    clients := w.clients.filter (·.handle ≠ client)
    exports := w.exports.map fun p => if p.owner = some client then closePort p else p
    sessions := w.sessions.eraseP (·.client == client)
    log := .gone client :: w.log }

end World

/-! ### The poll -/

/-- How a round goes on after a stage. -/
inductive Flow | next | finished | failed
deriving DecidableEq

/-- A port after a stage of its round, with what was sent and written. -/
structure Served where
  port : Export
  sent : List Output
  written : List Write
  flow : Flow

/-- The service branch. -/
def pollService (io : PortIo) (p : Export) : Export :=
  if p.fd.isNone then p
  else if p.service = 2 ∧ p.buffer ≠ [] then
    match io.write with
    | .wrote n => { p with buffer := p.buffer.drop n }
    | .again => p
    | .failed => closePort p
  else if p.service = 1 then
    match io.read with
    | .data (_ :: _) => p
    | .again => p
    | _ => closePort p
  else p

/-- A modem without subscribers is drained. -/
def drainModem (sys : Sys) (io : PortIo) (p : Export) : Export :=
  if p.fd.isNone then p
  else
    match io.read with
    | .data (_ :: _) => p
    | .again => p
    | _ => modemFailed sys p

/-- The pending block goes to the device. -/
def writePending (io : PortIo) (client : Nat) (p : Export) : Served :=
  if p.pending = [] then ⟨p, [], [], .next⟩
  else
    match io.write with
    | .again => ⟨p, [], [], .next⟩
    | .failed => ⟨p, [], [], .failed⟩
    | .wrote n =>
        let bytes := (p.pending.drop p.pendingOffset).take n
        if bytes = [] then ⟨p, [], [], .next⟩
        else
          let record : Write := ⟨p.id, p.framed.1, p.framed.2, bytes⟩
          let moved := { p with pendingOffset := p.pendingOffset + bytes.length }
          if moved.pendingOffset ≠ p.pending.length then ⟨moved, [], [record], .next⟩
          else
            let empty := { moved with pending := [], pendingOffset := 0 }
            let told := replyPort client "written" empty none
            if empty.closePending then
              ⟨closePort empty, [replyPort client "closed" empty none, told], [record], .finished⟩
            else ⟨empty, [told], [record], .next⟩

/-- What the device has to say goes into the buffer. -/
def readDevice (s : Setup) (io : PortIo) (p : Export) : Export × Flow :=
  if p.buffer.length < p.bufferLimit then
    match io.read with
    | .data (b :: bs) =>
        let room := min (p.bufferLimit - p.buffer.length) s.blockMax
        ({ p with buffer := p.buffer ++ (b :: bs).take room }, .next)
    | .again => (p, .next)
    | _ => (p, .failed)
  else (p, .next)

/-- A block of the buffer goes to the client, one at a time. -/
def sendBlock (s : Setup) (io : PortIo) (client : Nat) (p : Export) : Served :=
  if p.rxPending || p.buffer.isEmpty || !io.canSend then ⟨p, [], [], .next⟩
  else if !io.framed then ⟨{ p with rxSeq := p.rxSeq + 1 }, [], [], .failed⟩
  else if io.delivered then
    ⟨{ p with rxSeq := p.rxSeq + 1, rxPending := true, buffer := p.buffer.drop s.blockMax },
      [.block client p.stream (p.rxSeq + 1) (p.buffer.take s.blockMax)], [], .next⟩
  else ⟨p, [], [], .next⟩

/-- `failed`. -/
def failPort (sys : Sys) (client : Nat) (p : Export) : Served :=
  ⟨closePort (modemFailed sys p), [replyPort client "closed" p (some "device-disconnected")], [],
    .finished⟩

/-- The round of a port with an owner that may use it. -/
def serve (s : Setup) (sys : Sys) (io : PortIo) (client : Nat) (p : Export) : Served :=
  let first := writePending io client p
  match first.flow with
  | .finished => first
  | .failed => failPort sys client first.port
  | .next =>
      let (port, flow) := readDevice s io first.port
      let last := match flow with
        | .failed => failPort sys client port
        | _ =>
            let sent := sendBlock s io client port
            if sent.flow = Flow.failed then failPort sys client sent.port else sent
      ⟨last.port, last.sent ++ first.sent, first.written, last.flow⟩

namespace World

/-- What a round did to the port in slot `i`. -/
def served (w : World) (i : Nat) (r : Served) : World :=
  { w.modifyExport i (fun _ => r.port) with sent := r.sent ++ w.sent, written := r.written ++ w.written }

/-- One round of `rrserver_serial_poll`. -/
def pollOne (s : Setup) (sys : Sys) (w : World) (i : Nat) : World :=
  match w.exports[i]? with
  | none => w
  | some p =>
      let io := sys.io p.id
      if p.service ≠ 0 then w.modifyExport i fun _ => pollService io p
      else
        let p := if p.virtualModem then modemEnsureRunning sys p else p
        match p.owner with
        | none => w.modifyExport i fun _ => if p.virtualModem then drainModem sys io p else p
        | some client =>
            if p.virtualModem && p.fd.isNone then
              (w.out (replyPort client "closed" p (some "worker-unavailable"))).modifyExport i fun _ =>
                closePort p
            else if !allowed s sys (w.client? client) p then
              (w.out (replyPort client "closed" p (some "permission-revoked"))).modifyExport i fun _ =>
                closePort p
            else w.served i (serve s sys io client p)

/-- `rrserver_serial_poll`. -/
def poll (s : Setup) (sys : Sys) (w : World) : World :=
  (List.range w.exports.length).foldl (pollOne s sys) w

end World

/-- What the configuration binds. -/
structure Binding where
  name : String
  path : String
  service : Nat
  virtualModem : Bool
  bufferLimit : Nat
  settings : Settings
  fd : Option Nat

/-- An export as `rrserver_serial_init` makes it. -/
def Binding.toExport (b : Binding) (id : Nat) : Export :=
  { usbExport id b.name with
    path := b.path
    service := b.service
    autodiscovered := false
    virtualModem := b.virtualModem
    bufferLimit := b.bufferLimit
    settings := b.settings
    defaults := b.settings
    fd := b.fd }

/-- What reaches the module; connections come and change in between. -/
inductive Event
  | connect (c : Client)
  | change (c : Client)
  | request (sys : Sys) (client : Nat) (message : Option Message)
  | frame (sys : Sys) (client : Nat) (f : Option Frame)
  | poll (sys : Sys)
  | discover (sys : Sys)
  | closed (client : Nat)

namespace World

/-- `rrserver_serial_init`. -/
def start (bindings : List Binding) : World where
  clients := []
  exports := ((bindings.take portsMax).zipIdx).map fun b => b.1.toExport b.2
  sessions := []
  made := (bindings.take portsMax).length
  sent := []
  written := []
  log := []

def step (s : Setup) (w : World) : Event → World
  | .connect c => if w.clients.any (·.handle == c.handle) then w else { w with clients := c :: w.clients }
  | .change c =>
      { w with clients := w.clients.map fun old => if old.handle = c.handle then c else old }
  | .request sys client message => w.request s sys client message
  | .frame sys client f => w.frame s sys client f
  | .poll sys => w.poll s sys
  | .discover sys => w.serialDiscoverUsb s sys
  | .closed client => w.closed client

def run (s : Setup) (w : World) (events : List Event) : World := events.foldl (step s) w

end World

end Serial

end RustyRig
