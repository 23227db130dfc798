/-
Supervision of noobs.

A noob may transmit while an elmer answers for it.  The noob's first attempt files a
request; an elmer that accepts it stays responsible as long as it shows activity.  All of
it is kept in fixed arrays of slots, a slot without a client being free.

A client is the handle of its connection; what the server knows of the connection (login,
token, roles, room) is looked up under it and changes by events of its own.  The answers of
`has_priv` are part of a user.  Strings hold bytes.
-/
import Mathlib.Algebra.Group.Nat.Defs
import RustyRig.Rrserver.Dict

namespace RustyRig

namespace Supervision

/-- Constants and configuration: `HTTP_MAX_SESSIONS`, `noob.supervisor-idle-seconds` and the
server's own room. -/
structure Setup where
  maxSessions : Nat
  idleSeconds : Int
  authoritativeRoom : String

/-- `http_user_t`, with what `has_priv` says of it. -/
structure User where
  uid : Int
  enabled : Bool
  isMuted : Bool
  passwordChangeRequired : Bool
  passwordExpires : Nat
  privNoob : Bool
  privAdmin : Bool
  privElmer : Bool
deriving DecidableEq, Repr

/-- `rrconn_t`. -/
structure Conn where
  handle : Nat
  authenticated : Bool
  user : Option User
  token : String
  chatname : String
  isPtt : Bool
  pttRoom : String
deriving DecidableEq, Repr

namespace Conn

/-- `eligible`. -/
def eligible (now : Nat) (c : Conn) : Bool :=
  match c.user with
  | none => false
  | some u =>
      c.authenticated && u.enabled && !u.isMuted && !u.passwordChangeRequired &&
        (u.passwordExpires == 0 || decide (now < u.passwordExpires))

/-- `needs_supervision`. -/
def needsSupervision (c : Conn) : Bool :=
  match c.user with
  | none => false
  | some u => decide (0 ≤ u.uid) && u.privNoob && !u.privAdmin

/-- `is_elmer`. -/
def isElmer (now : Nat) (c : Conn) : Bool :=
  c.eligible now && (c.user.any fun u => u.privElmer) && !c.needsSupervision

end Conn

/-- `struct supervisor`. -/
structure Supervisor where
  client : Option Nat
  token : String
  active : Nat
deriving DecidableEq, Repr

def Supervisor.zero : Supervisor := ⟨none, "", 0⟩

/-- `struct supervision`. -/
structure Request where
  client : Option Nat
  token : String
  id : String
  room : String
  elmers : List Supervisor
  invited : List Supervisor
  granted : Bool
deriving DecidableEq, Repr

/-- Cleared slots. -/
def cleared (slots : List Supervisor) : List Supervisor := slots.map fun _ => .zero

/-- The slots of a client, cleared. -/
def dropped (c : Nat) (slots : List Supervisor) : List Supervisor :=
  slots.map fun s => if s.client = some c then .zero else s

def Request.zero (p : Setup) : Request where
  client := none
  token := ""
  id := ""
  room := ""
  elmers := List.replicate p.maxSessions .zero
  invited := List.replicate p.maxSessions .zero
  granted := false

/-- The writes when a client goes: its own request is cleared, and its slots are. -/
def Request.left (p : Setup) (c : Nat) (r : Request) : Request :=
  let r := if r.client = some c then .zero p else r
  { r with elmers := dropped c r.elmers, invited := dropped c r.invited }

/-- The writes of a revocation. -/
def Request.revoke (r : Request) : Request :=
  { r with granted := false, elmers := cleared r.elmers, id := "", invited := cleared r.invited }

/-- What the server sends, and the releases it asks for. -/
inductive Output
  | status (client : Nat) (action target room user text : String)
  | error (client : Nat) (text : String)
  | allOff (reason : String)
deriving DecidableEq, Repr

/-- An elmer's acceptance of the request in a slot. -/
structure Acceptance where
  slot : Nat
  elmer : Conn
  noob : Nat
  token : String
  ticket : String
  time : Nat

/-- What happened, for the record. -/
inductive Entry
  | accepted (a : Acceptance)
  | declined (slot elmer : Nat)
  | revoked (slot : Nat)
  | closed (client : Nat)
  | activity (client time : Nat)

/-- The module's state with the clients that are there, the clock, what was sent and what
happened, latest first. -/
structure World where
  now : Nat
  clients : List Conn
  closing : Option Nat
  requests : List Request
  sent : List Output
  log : List Entry

/-- The index of the last element with a property. -/
def lastIdx? {α : Type} (f : α → Bool) : List α → Option Nat
  | [] => none
  | x :: xs =>
      match lastIdx? f xs with
      | some i => some (i + 1)
      | none => if f x then some 0 else none

def responsibility : String :=
  "By accepting, you are responsible for this user's actions and are the recognized control " ++
  "operator of the station."

/-- The configured idle limit. -/
def Setup.idle (p : Setup) : Nat := if p.idleSeconds ≤ 0 then 300 else p.idleSeconds.toNat

namespace World

/-- The connection behind a pointer. -/
def conn? (w : World) (client : Option Nat) : Option Conn :=
  client.bind fun h => w.clients.find? (·.handle == h)

def eligible (w : World) (client : Option Nat) : Bool := (w.conn? client).any (·.eligible w.now)

def out (w : World) (o : Output) : World := { w with sent := o :: w.sent }

def modifyRequest (w : World) (i : Nat) (f : Request → Request) : World :=
  { w with requests := w.requests.modify i f }

def record (w : World) (e : Entry) : World := { w with log := e :: w.log }

/-- `send_status`. -/
def sendStatus (w : World) (client : Nat) (r : Request) (action text : String) : World :=
  w.out (.status client action r.id r.room (((w.conn? r.client).map Conn.chatname).getD "") text)

/-- `offer`. -/
def offer (i : Nat) (w : World) (c : Conn) : World :=
  match w.requests[i]? with
  | none => w
  | some r =>
      if w.closing = some c.handle ∨ c.isElmer w.now = false ∨ r.client = some c.handle then w
      else if r.invited.any fun s => s.client == some c.handle && s.token == c.token then w
      else
        match lastIdx? (fun s => s.client.isNone) r.invited with
        | none => w
        | some k =>
            (w.modifyRequest i fun r => { r with
              invited := r.invited.modify k fun s =>
                { s with client := some c.handle, token := c.token } }).sendStatus
              c.handle r "request" responsibility

/-- `close_offer`. -/
def closeOffer (r : Request) (w : World) (c : Conn) : World :=
  if c.isElmer w.now then w.sendStatus c.handle r "closed" "Supervision request closed" else w

/-- `visit`. -/
def visit (f : World → Conn → World) (w : World) : World := w.clients.foldl f w

/-- `find`. -/
def find (w : World) (c : Conn) (room : Option String) : Option Nat :=
  w.requests.findIdx? fun r =>
    r.client == some c.handle && r.token == c.token && room.all (r.room == ·)

/-- `active`. -/
def active (p : Setup) (w : World) (s : Supervisor) : Bool :=
  (w.conn? s.client).any fun c =>
    c.isElmer w.now && s.token == c.token && decide (s.active ≤ w.now) &&
      decide (w.now - s.active < p.idle)

/-- `allowed`. -/
def allowed (p : Setup) (w : World) (r : Request) : Bool :=
  r.granted && (w.conn? r.client).any (fun c => c.eligible w.now && r.token == c.token) &&
    r.elmers.any (w.active p)

/-- `allowed` on what `find` returned. -/
def allowedAt (p : Setup) (w : World) (i : Option Nat) : Bool :=
  (i.bind fun i => w.requests[i]?).any (w.allowed p)

/-- `rrserver_supervision_allowed`. -/
def supervisionAllowed (p : Setup) (w : World) (client : Nat) : Bool :=
  match w.conn? (some client) with
  | none => false
  | some c =>
      if !c.eligible w.now then false
      else if !c.needsSupervision then true
      else w.allowedAt p (w.find c (some c.pttRoom))

/-- The first half of a tick for one request: consent that does not hold any more is taken
away. -/
def lapse (p : Setup) (i : Nat) (w : World) : World :=
  match w.requests[i]? with
  | none => w
  | some r =>
      if r.granted && !w.allowed p r then
        let told := ((w.visit (closeOffer r)).sendStatus (r.client.getD 0) r "revoked"
          ("Supervision ended: the last active elmer left or became idle. " ++
            "Press PTT to request supervision again."))
        (told.modifyRequest i Request.revoke).record (.revoked i)
      else w

/-- The second half: a pending request is offered to whoever came since. -/
def reoffer (i : Nat) (w : World) : World :=
  match w.requests[i]? with
  | none => w
  | some r => if r.id = "" then w else w.visit (offer i)

/-- The last: a noob that keys without consent is released, again and again. -/
def release (p : Setup) (i : Nat) (w : World) : World :=
  match w.requests[i]? with
  | none => w
  | some r =>
      if !w.allowed p r && (w.conn? r.client).any (fun c => c.isPtt && r.room == c.pttRoom) then
        w.out (.allOff "supervision-lost")
      else w

/-- One round of `rrserver_supervision_tick`. -/
def tickOne (p : Setup) (w : World) (i : Nat) : World :=
  match w.requests[i]? with
  | none => w
  | some r =>
      if r.client = none then w
      else ((w.lapse p i).reoffer i).release p i

/-- `rrserver_supervision_tick`. -/
def tick (p : Setup) (w : World) : World := (List.range w.requests.length).foldl (tickOne p) w

end World

/-- `%08x`. -/
def hex8 (n : UInt32) : List Char := [7, 6, 5, 4, 3, 2, 1, 0].map fun i => (n.toNat / 16 ^ i % 16).digitChar

/-- What `snprintf` keeps of a string in a buffer. -/
def fit (size : Nat) (s : String) : String := String.ofList (s.toList.take (size - 1))

namespace World

/-- A request is filed in its slot and offered. -/
def ask (p : Setup) (w : World) (i : Nat) (c : Conn) (room : Option String) (a b d e : UInt32) : World :=
  let filed := w.modifyRequest i fun r => { r with
    client := some c.handle
    token := c.token
    room := fit 128 (room.getD p.authoritativeRoom)
    id := String.ofList (hex8 a ++ hex8 b ++ hex8 d ++ hex8 e) }
  let offered := filed.visit (offer i)
  match offered.requests[i]? with
  | none => offered
  | some r => offered.sendStatus c.handle r "pending"
      "Supervision requested. An elmer must accept responsibility before you may transmit."

/-- `check`: the second component is `query->allowed`. -/
def check (p : Setup) (w : World) (client : Nat) (room : Option String) (request : Bool)
    (a b d e : UInt32) : World × Bool :=
  let w := w.tick p
  match w.conn? (some client) with
  | none => (w, false)
  | some c =>
      let found := w.find c room
      if c.eligible w.now && (!c.needsSupervision || w.allowedAt p found) then (w, true)
      else if !request || !c.eligible w.now then (w, false)
      else
        match found with
        | some i =>
            if (w.requests[i]?).any fun r => r.id != "" then (w, false)
            else (w.ask p i c room a b d e, false)
        | none =>
            match w.requests.findIdx? fun r => r.client.isNone with
            | none => (w, false)
            | some i => (w.ask p i c room a b d e, false)

end World

/-- White space in the C locale. -/
def isSpace (c : Char) : Bool := c == ' ' || (9 ≤ c.toNat && c.toNat ≤ 13)

/-- One `%s` of a given width: the word and what is left. -/
def scanWord (width : Nat) (s : List Char) : Option (String × List Char) :=
  let word := ((s.dropWhile isSpace).take width).takeWhile fun c => !isSpace c
  if word = [] then none else some (String.ofList word, (s.dropWhile isSpace).drop word.length)

/-- `sscanf` with `%15s %32s %1s`, where it reads two words and no more. -/
def scanReply (text : String) : Option (String × String) :=
  match scanWord 15 text.toList with
  | none => none
  | some (action, rest) =>
      match scanWord 32 rest with
      | none => none
      | some (id, rest) => if (scanWord 1 rest).isSome then none else some (action, id)

namespace World

/-- `command` with action `decline`. -/
def decline (p : Setup) (w : World) (i : Nat) (r : Request) (c : Conn) : World :=
  (((w.modifyRequest i fun r => { r with elmers := dropped c.handle r.elmers }).record
    (.declined i c.handle)).sendStatus c.handle r "closed"
      "You are not supervising this session").tick p

/-- The slot an acceptance goes to: the elmer's own one or the last that is not active. -/
def acceptSlot (p : Setup) (w : World) (r : Request) (c : Conn) : Option Nat :=
  match r.elmers.findIdx? fun s => s.client == some c.handle with
  | some k => some k
  | none => lastIdx? (fun s => !w.active p s) r.elmers

/-- `command` with action `accept`. -/
def accept (p : Setup) (w : World) (i : Nat) (r : Request) (c : Conn) : World :=
  match w.acceptSlot p r c with
  | none => w.out (.error c.handle "Too many supervising sessions")
  | some k =>
      let granted := (w.modifyRequest i fun r => { r with
        elmers := r.elmers.modify k fun _ => ⟨some c.handle, c.token, w.now⟩
        granted := true }).record (.accepted ⟨i, c, r.client.getD 0, r.token, r.id, w.now⟩)
      (granted.sendStatus c.handle r "accepted" responsibility).sendStatus (r.client.getD 0) r
        "granted" "An elmer accepted supervision. You may now press PTT."

/-- The request a reply names. -/
def named (w : World) (id room : String) : Option Nat :=
  lastIdx? (fun r => r.client.isSome && r.id == id && r.room == room) w.requests

/-- `command`. -/
def command (p : Setup) (w : World) (client : Nat) (message : Option Dict) : World :=
  match w.conn? (some client) with
  | none => w
  | some c =>
      if !c.isElmer w.now then w.out (.error client "Only an eligible elmer may supervise")
      else
        match message with
        | none => w
        | some d =>
            let unknown := w.out (.error client "Unknown or expired supervision request")
            match scanReply (d.get "talk.data" "") with
            | none => unknown
            | some (action, id) =>
                match w.named id (d.get "talk.room" "") with
                | none => unknown
                | some i =>
                    match w.requests[i]? with
                    | none => unknown
                    | some r =>
                        if !w.eligible r.client || r.client == some client then unknown
                        else if action.toLower == "decline" then w.decline p i r c
                        else if action.toLower == "accept" then w.accept p i r c
                        else w.out (.error client
                          "Usage: /supervise accept|decline <request-id> <rig-room>")

/-- `closed`, for one request. -/
def closedOne (p : Setup) (client : Nat) (w : World) (i : Nat) : World :=
  match w.requests[i]? with
  | none => w
  | some r =>
      (if r.client = some client then w.visit (closeOffer r) else w).modifyRequest i
        (Request.left p client)

/-- `closed`, after which the connection is gone. -/
def closed (p : Setup) (w : World) (client : Nat) : World :=
  let w := { w with closing := some client }
  let w := (List.range w.requests.length).foldl (closedOne p client) w
  let w := (w.tick p).record (.closed client)
  { w with closing := none, clients := w.clients.filter (·.handle ≠ client) }

/-- Whether a message shows that someone is there. -/
def human (d : Dict) : Bool :=
  let type := d.get "msg.type" ""
  let cmd := d.get "talk.cmd" ""
  (type == "talk" && (cmd == "msg" || cmd == "supervise")) ||
  (type == "cat" && ["cat.ptt", "cat.freq", "cat.mode", "cat.power", "cat.width"].any fun key =>
    (d.get? key).isSome) ||
  (type == "property" && d.get "property.cmd" "" == "set")

/-- A slot of the client, its stamp renewed if it still counts. -/
def renewSlot (p : Setup) (w : World) (client : Nat) (s : Supervisor) : Supervisor :=
  if s.client = some client ∧ w.active p s = true then { s with active := w.now } else s

/-- The loops of `activity`. -/
def renew (p : Setup) (w : World) (client : Nat) : World :=
  { w with requests := w.requests.map fun r =>
      { r with elmers := r.elmers.map (w.renewSlot p client) } }

/-- `activity`. -/
def activity (p : Setup) (w : World) (client : Nat) (message : Dict) : World :=
  if human message then ((w.tick p).record (.activity client w.now)).renew p client else w

end World

/-- What reaches the module; connections come, change and time passes in between. -/
inductive Event
  | connect (c : Conn)
  | change (c : Conn)
  | wait (seconds : Nat)
  | tick
  | check (client : Nat) (room : Option String) (request : Bool) (a b d e : UInt32)
  | command (client : Nat) (message : Option Dict)
  | activity (client : Nat) (message : Dict)
  | closed (client : Nat)

namespace World

def start (p : Setup) (now : Nat) : World where
  now := now
  clients := []
  closing := none
  requests := List.replicate p.maxSessions (.zero p)
  sent := []
  log := []

def step (p : Setup) (w : World) : Event → World
  | .connect c => if w.clients.any (·.handle == c.handle) then w else { w with clients := c :: w.clients }
  | .change c =>
      { w with clients := w.clients.map fun old => if old.handle = c.handle then c else old }
  | .wait seconds => { w with now := w.now + seconds }
  | .tick => w.tick p
  | .check client room request a b d e => (w.check p client room request a b d e).1
  | .command client message => w.command p client message
  | .activity client message => w.activity p client message
  | .closed client => w.closed p client

def run (p : Setup) (w : World) (events : List Event) : World := events.foldl (step p) w

end World

end Supervision

end RustyRig
