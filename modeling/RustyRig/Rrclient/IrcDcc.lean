/-
DCC file transfers.

`rrclient/irc.dcc.c` sends a file over a TCP connection block by block, and the other side
acknowledges what it has written with a count of 32 bits.  A `Session` is `struct dcc_session`
of type SEND.  `irc_dcc_poll` makes many calls on its socket and its file, each of which can do
a part of what it is asked for, and between two of them the other side can do anything; so a
poll is cut where it calls, and `place` says which call comes next.  What a call gives is the
event's to say.

A session that is finished is zeroed by the code.  Here it stays, and does nothing.
-/
import Mathlib.Algebra.Group.Nat.Defs
import RustyRig.Lib.Cumulative

namespace RustyRig

namespace Dcc

/-- `DCC_BLOCK`. -/
def blockSize : Nat := 4096

/-- `DCC_TIMEOUT`, in microseconds. -/
def timeout : Nat := 300000000

inductive State
  | listening | connecting | active
deriving DecidableEq, Repr

inductive Status
  | complete | closed | error
deriving DecidableEq, Repr

/-- What follows a flush: the rest of the poll, with a new block or without, or of `receive_data`. -/
inductive Next
  | poll
  | block
  | receive (budget : Nat)
deriving DecidableEq, Repr

/-- The call that comes next: none, `send`, `pread`, `recv` or `pwrite`. -/
inductive Place
  | away
  | flush (next : Next)
  | read
  | receive (budget : Nat)
  | write (data : List UInt8) (offset : Nat) (budget : Nat)
deriving DecidableEq, Repr

/-- `struct dcc_session`.  `ended` is what the session reported last, and `counts` records the
acknowledgements it has sent, or has read. -/
structure Session where
  outgoing : Bool
  sizeKnown : Bool
  size : Nat
  state : State
  transferred : Nat
  acknowledged : Nat
  deadline : Nat
  tx : List UInt8
  txOffset : Nat
  ack : List UInt8
  place : Place
  ended : Option (Status × String)
  counts : List Nat
deriving DecidableEq, Repr

/-- What a call comes back with: `EAGAIN` or `EINTR`, a part of at most `n + 1` bytes, or an error. -/
inductive Answer
  | again
  | gives (n : Nat)
  | fails
deriving DecidableEq, Repr

/-- `htonl`. -/
def be32 (n : Nat) : List UInt8 :=
  [UInt8.ofNat (n / 2 ^ 24), UInt8.ofNat (n / 2 ^ 16), UInt8.ofNat (n / 2 ^ 8), UInt8.ofNat n]

/-- `ntohl`. -/
def ofBe32 (bytes : List UInt8) : Nat := bytes.foldl (fun n c => n * 2 ^ 8 + c.toNat) 0

def finish (s : Session) (status : Status) (reason : String) : Session :=
  { s with ended := some (status, reason) }

/-- The head of the loop of `receive_data`. -/
def receive (s : Session) (budget : Nat) : Session :=
  if 16 ≤ budget then { s with place := .away }
  else if !s.outgoing && s.tx ≠ [] then { s with place := .away }
  else if !s.outgoing && s.sizeKnown && s.size - s.transferred = 0 then { s with place := .away }
  else { s with place := .receive budget }

/-- The end of `irc_dcc_poll`. -/
def settle (s : Session) : Session :=
  if s.sizeKnown && s.tx = [] && s.transferred = s.size && (!s.outgoing || s.acknowledged = s.size) then
    finish s .complete ""
  else receive s 0

/-- What follows a flush. -/
def proceed (s : Session) : Next → Session
  | .poll =>
      if s.outgoing && s.tx = [] && s.acknowledged = s.transferred && s.transferred < s.size then
        { s with place := .read }
      else settle s
  | .block => settle s
  | .receive budget => receive s (budget + 1)

/-- The head of the loop of `flush`. -/
def flush (s : Session) (next : Next) : Session :=
  if s.txOffset < s.tx.length then { s with place := .flush next }
  else proceed { s with tx := [], txOffset := 0 } next

/-- The loop of `receive_data` over acknowledgements. -/
def readAcks : Session → List UInt8 → Session
  | s, [] => s
  | s, c :: data =>
      if (s.ack ++ [c]).length < 4 then readAcks { s with ack := s.ack ++ [c] } data
      else
        let ack := Lib.widen (2 ^ 32) s.acknowledged (ofBe32 (s.ack ++ [c]))
        if s.transferred < ack then finish { s with ack := [] } .error "invalid file acknowledgement"
        else
          let s := { s with ack := [], acknowledged := ack, counts := s.counts ++ [ack] }
          if ack = s.size && s.transferred = s.size && s.tx = [] then finish s .complete ""
          else readAcks s data

/-- What `receive_data` does with what it has received. -/
def received (s : Session) (data : List UInt8) (budget : Nat) : Session :=
  if s.outgoing then
    let s := readAcks s data
    if s.ended.isSome then s else receive s (budget + 1)
  else { s with place := .write data 0 budget }

/-- The loop of `write_file`, and the acknowledgement that follows it. -/
def written (s : Session) (data : List UInt8) (offset budget : Nat) : Session :=
  if offset < data.length then { s with place := .write data offset budget }
  else
    let transferred := s.transferred + data.length
    flush { s with
      transferred := transferred
      tx := be32 (transferred % 2 ^ 32)
      txOffset := 0
      place := .away
      counts := s.counts ++ [transferred] } (.receive budget)

/-- The bytes that `recv` is asked for. -/
def maximum (s : Session) : Nat :=
  if !s.outgoing && s.sizeKnown then min (s.size - s.transferred) blockSize else blockSize

/-- `irc_dcc_poll`, up to the first call on the connection.  Of a listening or a connecting session
`ready` says whether the connection is there. -/
def poll (s : Session) (now : Nat) (ready : Answer) : Session :=
  if s.ended.isSome || s.place ≠ .away then s
  else if s.deadline ≠ 0 && s.deadline ≤ now then
    finish s .error "DCC offer or transfer timed out"
  else
    match s.state, ready with
    | .active, _ => flush s .poll
    | _, .again => s
    | .listening, .fails => finish s .error "accept failed"
    | .connecting, .fails => finish s .error "connect failed"
    | _, .gives _ => flush { s with state := .active, deadline := now + timeout } .poll

/-- `pwrite`. -/
def pwrite (disk : List UInt8) (position : Nat) (data : List UInt8) : List UInt8 :=
  disk.take position ++ List.replicate (position - disk.length) 0 ++ data ++
    disk.drop (position + data.length)

/-- A session with its file, and the bytes on their way to it and from it. -/
structure Party where
  self : Session
  disk : List UInt8
  inbox : List UInt8
  outbox : List UInt8
  peerGone : Bool
deriving DecidableEq, Repr

/-- `send` in `flush`. -/
def callFlush (p : Party) (next : Next) (now : Nat) : Answer → Party
  | .again => { p with self := proceed p.self next }
  | .fails => { p with self := finish p.self .error "TCP write failed" }
  | .gives n =>
      let s := p.self
      let data := (s.tx.drop s.txOffset).take (n + 1)
      { p with
        outbox := p.outbox ++ data
        self := flush { s with
          txOffset := s.txOffset + data.length
          transferred := if s.outgoing then s.transferred + data.length else s.transferred
          deadline := now + timeout } next }

/-- `pread` in `irc_dcc_poll`. -/
def callRead (p : Party) : Answer → Party
  | .again => { p with self := { p.self with place := .away } }
  | .fails => { p with self := finish p.self .error "source file read failed or file shrank" }
  | .gives n =>
      let s := p.self
      let data := (p.disk.drop s.transferred).take
        (min (n + 1) (min (s.size - s.transferred) blockSize))
      if data = [] then { p with self := finish s .error "source file read failed or file shrank" }
      else { p with self := flush { s with tx := data, txOffset := 0 } .block }

/-- `recv` in `receive_data`. -/
def callReceive (p : Party) (budget now : Nat) : Answer → Party
  | .again => { p with self := { p.self with place := .away } }
  | .fails => { p with self := finish p.self .error "TCP read failed" }
  | .gives n =>
      let s := p.self
      if p.inbox = [] then
        if p.peerGone then
          { p with self :=
            if !s.outgoing && !s.sizeKnown then finish s .complete ""
            else finish s .error "peer closed connection" }
        else { p with self := { s with place := .away } }
      else
        let count := min (n + 1) (maximum s)
        { p with
          inbox := p.inbox.drop count
          self := received { s with deadline := now + timeout } (p.inbox.take count) budget }

/-- `pwrite` in `write_file`. -/
def callWrite (p : Party) (data : List UInt8) (offset budget : Nat) : Answer → Party
  | .again => p
  | .fails => { p with self := finish p.self .error "file write failed" }
  | .gives n =>
      let part := (data.drop offset).take (n + 1)
      { p with
        disk := pwrite p.disk (p.self.transferred + offset) part
        self := written p.self data (offset + part.length) budget }

/-- The call that comes next, and what follows it up to the one after. -/
def call (p : Party) (now : Nat) (answer : Answer) : Party :=
  if p.self.ended.isSome then p
  else
    match p.self.place with
    | .away => p
    | .flush next => callFlush p next now answer
    | .read => callRead p answer
    | .receive budget => callReceive p budget now answer
    | .write data offset budget => callWrite p data offset budget answer

/-- An outgoing session, an incoming one, their files and the connection between them. -/
structure Transfer where
  source : List UInt8
  sender : Session
  receiver : Session
  file : List UInt8
  forward : List UInt8
  backward : List UInt8
deriving DecidableEq, Repr

inductive Side
  | sender | receiver
deriving DecidableEq, Repr

/-- A side is polled, one of its calls comes back, or it is closed for a reason of its own. -/
inductive Event
  | poll (side : Side) (now : Nat) (ready : Answer)
  | call (side : Side) (now : Nat) (answer : Answer)
  | close (side : Side) (reason : String)
deriving DecidableEq, Repr

namespace Transfer

def session (y : Transfer) : Side → Session
  | .sender => y.sender
  | .receiver => y.receiver

def party (y : Transfer) : Side → Party
  | .sender => ⟨y.sender, y.source, y.backward, y.forward, y.receiver.ended.isSome⟩
  | .receiver => ⟨y.receiver, y.file, y.forward, y.backward, y.sender.ended.isSome⟩

def put (y : Transfer) : Side → Party → Transfer
  | .sender, p =>
      { y with sender := p.self, source := p.disk, backward := p.inbox, forward := p.outbox }
  | .receiver, p =>
      { y with receiver := p.self, file := p.disk, forward := p.inbox, backward := p.outbox }

def step (y : Transfer) : Event → Transfer
  | .poll side now ready =>
      y.put side { y.party side with self := Dcc.poll (y.session side) now ready }
  | .call side now answer => y.put side (Dcc.call (y.party side) now answer)
  | .close side reason =>
      if (y.session side).ended.isSome then y
      else y.put side { y.party side with self := finish (y.session side) .closed reason }

/-- `irc_dcc_offer_file` on the one side and `irc_dcc_accept` on the other, with an empty file. -/
def offered (source : List UInt8) (deadline deadline' : Nat) : Transfer where
  source := source
  sender := ⟨true, true, source.length, .listening, 0, 0, deadline, [], 0, [], .away, none, []⟩
  receiver := ⟨false, true, source.length, .connecting, 0, 0, deadline', [], 0, [], .away, none, []⟩
  file := []
  forward := []
  backward := []

end Transfer

end Dcc

end RustyRig
