/-
DCC chat.

`rrclient/irc.dcc.c` has one kind of session for files and for chat.  A `Chat.Session` is
`struct dcc_session` of type CHAT: a text goes out as a line with CR and LF behind it, and
what comes in is cut into lines again.  As with files a poll is cut where it calls; the events
of an opened session and of a line are calls as well, since whoever hears them may send a
text or close the session before the poll goes on.

A session that is finished is zeroed by the code.  Here it stays, and does nothing.
Allocation is taken to succeed.
-/
import RustyRig.Rrclient.IrcDcc

namespace RustyRig

namespace Dcc.Chat

/-- A C string. -/
def Text : Type := { bytes : List UInt8 // 0 ∉ bytes }

/-- The call that comes next: none, the event of an opened session, `send`, `recv`, or the event of a
line with the rest of what was received. -/
inductive Place
  | away
  | active
  | flush
  | receive (budget : Nat)
  | event (rest : List UInt8) (budget : Nat)
deriving DecidableEq, Repr

/-- `struct dcc_session`.  `ended` is what the session reported last; `accepted` records the texts
that were accepted from this side, and `emitted` those of the other that were reported. -/
structure Session where
  state : State
  deadline : Nat
  tx : List UInt8
  txOffset : Nat
  line : List UInt8
  place : Place
  ended : Option (Status × String)
  accepted : List (List UInt8)
  emitted : List (List UInt8)
deriving DecidableEq, Repr

def finish (s : Session) (status : Status) (reason : String) : Session :=
  { s with ended := some (status, reason) }

/-- What `irc_dcc_chat_send` checks; `connected` is about the IRC connection, and the session is the
one that was asked for. -/
def sendable (s : Session) (connected : Bool) (text : Text) : Bool :=
  connected && s.ended.isNone && s.state = .active && text.1.length ≠ 0 &&
    text.1.length ≤ blockSize - 2 && !text.1.contains 13 && !text.1.contains 10 && s.tx = []

/-- `irc_dcc_chat_send`. -/
def chatSend (s : Session) (connected : Bool) : Option Text → Bool × Session
  | none => (false, s)
  | some text =>
      if !sendable s connected text then (false, s)
      else
        (true, { s with
          tx := text.1 ++ [13, 10]
          txOffset := 0
          accepted := s.accepted ++ [text.1] })

/-- The head of the loop of `receive_data`. -/
def receive (s : Session) (budget : Nat) : Session :=
  if 16 ≤ budget then { s with place := .away } else { s with place := .receive budget }

/-- The head of the loop of `flush`. -/
def flush (s : Session) : Session :=
  if s.txOffset < s.tx.length then { s with place := .flush }
  else receive { s with tx := [], txOffset := 0 } 0

def overlong : Status × String := (.error, "invalid or overlong chat line")

/-- The CR before an LF is not part of the line. -/
def chomp (line : List UInt8) : List UInt8 :=
  if line.getLast? = some 13 then line.dropLast else line

/-- The loop of `receive_data` over the bytes of a chat, up to the event of a line. -/
def readLine (s : Session) : List UInt8 → Nat → Session
  | [], budget => receive s (budget + 1)
  | c :: data, budget =>
      if c = 0 || blockSize - 1 ≤ s.line.length then finish s overlong.1 overlong.2
      else if c = 10 then
        { s with
          line := chomp s.line
          place := .event data budget
          emitted := s.emitted ++ [chomp s.line] }
      else readLine { s with line := s.line ++ [c] } data budget

/-- `irc_dcc_poll`, up to the first call on the connection.  Of a listening or a connecting session
`ready` says whether the connection is there. -/
def poll (s : Session) (connected : Bool) (now : Nat) (ready : Answer) : Session :=
  if s.ended.isSome || s.place ≠ .away then s
  else if !connected then finish s .closed "IRC session ended"
  else if s.deadline ≠ 0 && s.deadline ≤ now then
    finish s .error "DCC offer or transfer timed out"
  else
    match s.state, ready with
    | .active, _ => flush s
    | _, .again => s
    | .listening, .fails => finish s .error "accept failed"
    | .connecting, .fails => finish s .error "connect failed"
    | _, .gives _ => { s with state := .active, deadline := 0, place := .active }

/-- A session, and the bytes on their way to it and from it. -/
structure Party where
  self : Session
  inbox : List UInt8
  outbox : List UInt8
  peerGone : Bool
deriving DecidableEq, Repr

/-- `send` in `flush`. -/
def callFlush (p : Party) : Answer → Party
  | .again => { p with self := receive p.self 0 }
  | .fails => { p with self := finish p.self .error "TCP write failed" }
  | .gives n =>
      let s := p.self
      let data := (s.tx.drop s.txOffset).take (n + 1)
      { p with
        outbox := p.outbox ++ data
        self := flush { s with txOffset := s.txOffset + data.length, deadline := 0 } }

/-- `recv` in `receive_data`. -/
def callReceive (p : Party) (budget : Nat) : Answer → Party
  | .again => { p with self := { p.self with place := .away } }
  | .fails => { p with self := finish p.self .error "TCP read failed" }
  | .gives n =>
      if p.inbox = [] then
        if p.peerGone then { p with self := finish p.self .closed "peer closed connection" }
        else { p with self := { p.self with place := .away } }
      else
        let count := min (n + 1) blockSize
        { p with
          inbox := p.inbox.drop count
          self := readLine p.self (p.inbox.take count) budget }

/-- The call that comes next, and what follows it up to the one after. -/
def call (p : Party) (answer : Answer) : Party :=
  if p.self.ended.isSome then p
  else
    match p.self.place with
    | .away => p
    | .active => { p with self := flush p.self }
    | .flush => callFlush p answer
    | .receive budget => callReceive p budget answer
    | .event rest budget => { p with self := readLine { p.self with line := [] } rest budget }

/-- The session that was offered, the one that accepted, and the connection between them. -/
structure Talk where
  offerer : Session
  accepter : Session
  forward : List UInt8
  backward : List UInt8
deriving DecidableEq, Repr

inductive Side
  | offerer | accepter
deriving DecidableEq, Repr

def Side.other : Side → Side
  | .offerer => .accepter
  | .accepter => .offerer

/-- A text is given to a side, the side is polled, one of its calls comes back, or it is closed for a
reason of its own. -/
inductive Event
  | text (side : Side) (connected : Bool) (text : Option Text)
  | poll (side : Side) (connected : Bool) (now : Nat) (ready : Answer)
  | call (side : Side) (answer : Answer)
  | close (side : Side) (reason : String)

namespace Talk

def session (y : Talk) : Side → Session
  | .offerer => y.offerer
  | .accepter => y.accepter

/-- The bytes on their way from a side. -/
def wire (y : Talk) : Side → List UInt8
  | .offerer => y.forward
  | .accepter => y.backward

def party (y : Talk) (side : Side) : Party where
  self := y.session side
  inbox := y.wire side.other
  outbox := y.wire side
  peerGone := (y.session side.other).ended.isSome

def put (y : Talk) : Side → Party → Talk
  | .offerer, p => { y with offerer := p.self, backward := p.inbox, forward := p.outbox }
  | .accepter, p => { y with accepter := p.self, forward := p.inbox, backward := p.outbox }

/-- What an event makes of a party. -/
def act (p : Party) : Event → Party
  | .text _ connected text => { p with self := (chatSend p.self connected text).2 }
  | .poll _ connected now ready => { p with self := Chat.poll p.self connected now ready }
  | .call _ answer => Chat.call p answer
  | .close _ reason =>
      if p.self.ended.isSome then p else { p with self := finish p.self .closed reason }

end Talk

def Event.side : Event → Side
  | .text side _ _ => side
  | .poll side _ _ _ => side
  | .call side _ => side
  | .close side _ => side

namespace Talk

def step (y : Talk) (e : Event) : Talk := y.put e.side (act (y.party e.side) e)

/-- `irc_dcc_offer_chat` on the one side and `irc_dcc_accept` on the other. -/
def offered (deadline deadline' : Nat) : Talk where
  offerer := ⟨.listening, deadline, [], 0, [], .away, none, [], []⟩
  accepter := ⟨.connecting, deadline', [], 0, [], .away, none, [], []⟩
  forward := []
  backward := []

end Talk

end Dcc.Chat

end RustyRig
