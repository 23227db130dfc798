/-
What a session has to say, in `rrserver/link.c`.

`send_message` encodes a message and hands it to the transport, or queues it behind what
the transport refused before; `drain_deferred` is called with every poll.  The transport
is what it answers: the answers are arguments of the calls, and `taken` is every message
that it took.  The encoder is a parameter.

A session is the fields that these functions read and write.  The queue is made with its
first message.  `mono_ms` is read twice when a message is queued, and both readings come
with the call.  The health records, and the logs but for when the last was written, are
left out.
-/
import Mathlib.Algebra.Group.Nat.Defs
import RustyRig.Rrserver.Dict
import Mathlib.Data.List.Basic

namespace RustyRig

/-- What `rr_transport_send_message` answers; only the first two are told apart. -/
inductive TransportResult
  | ok
  | backpressure
  | failed (status : Int)
deriving DecidableEq, Repr

/-- `struct link_session`, what its output needs, and what the transport took. -/
structure LinkOutput where
  transport : Bool
  deferredMessages : Option (List (List UInt8))
  deferredBytes : Nat
  deferredSince : Int
  lastBackpressureLog : Int
  closing : Bool
  closeCause : String
  closeReason : String
  taken : List (List UInt8)
deriving DecidableEq, Repr

namespace LinkOutput

/-- `MAX_DEFERRED_QUEUE`. -/
def maxDeferredQueue : Nat := 4 * 1024 * 1024

/-- `MAX_DEFERRED_FRAMES`. -/
def maxDeferredFrames : Nat := 4096

/-- The session that `new_session` makes, with its transport. -/
def fresh (transport : Bool) : LinkOutput :=
  ⟨transport, none, 0, 0, 0, false, "", "", []⟩

/-- What is queued, oldest first. -/
def queued (s : LinkOutput) : List (List UInt8) := s.deferredMessages.getD []

/-- `fail_cause`. -/
def failCause (s : LinkOutput) (cause reason : String) : LinkOutput :=
  if s.closing then s
  else { s with closing := true, closeCause := cause, closeReason := reason }

/-- `fail`. -/
def fail (s : LinkOutput) (reason : String) : LinkOutput := failCause s "protocol-or-policy" reason

/-- `%.<n>s`. -/
def clipped (n : Nat) (text : String) : String := String.ofList (text.toList.take n)

/-- `defer_message`; `since` and `now` are its readings of the clock. -/
def deferMessage (s : LinkOutput) (wire : List UInt8) (op : String) (since now : Int) :
    Bool × LinkOutput :=
  let s := { s with deferredMessages := some s.queued }
  if maxDeferredQueue - min s.deferredBytes maxDeferredQueue < wire.length ||
      maxDeferredFrames ≤ s.queued.length then
    (false, s.failCause "persistent-backpressure"
      ("Deferred mesh send queue exhausted: op=" ++ clipped 64 op ++
        " deferred=" ++ toString s.deferredBytes ++ "B frames=" ++ toString s.queued.length ++
        " new=" ++ toString wire.length ++ "B (limit=" ++ toString maxDeferredQueue ++ "B/" ++
        toString maxDeferredFrames ++ " frames)"))
  else
    let s := if s.queued.isEmpty then { s with deferredSince := since } else s
    let s :=
      { s with
        deferredMessages := some (s.queued ++ [wire])
        deferredBytes := (s.deferredBytes + wire.length) % 2 ^ 64 }
    (true,
      if s.lastBackpressureLog = 0 || 5000 ≤ now - s.lastBackpressureLog then
        { s with lastBackpressureLog := now }
      else s)

/-- The loop of `drain_deferred`, with the turns it has left and `sent`; false is its early return. -/
def drainLoop (answers : Nat → TransportResult) : Nat → Nat → LinkOutput → Bool × LinkOutput
  | 0, _, s => (true, s)
  | left + 1, sent, s =>
      match s.queued with
      | [] => (true, s)
      | wire :: rest =>
          match answers sent with
          | .backpressure => (true, s)
          | .failed _ =>
              (false, s.failCause "transport-send-failure"
                "Deferred mesh send failed while draining output")
          | .ok =>
              drainLoop answers left (sent + 1)
                { s with
                  deferredMessages := some rest
                  deferredBytes := (s.deferredBytes + 2 ^ 64 - wire.length) % 2 ^ 64
                  taken := s.taken ++ [wire] }

/-- `drain_deferred`; the transport answers the messages of one call in turn. -/
def drainDeferred (s : LinkOutput) (answers : Nat → TransportResult) : LinkOutput :=
  if s.deferredMessages.isNone || s.closing || !s.transport then s
  else
    match drainLoop answers 128 0 s with
    | (false, s) => s
    | (true, s) => if s.queued.isEmpty && s.deferredSince ≠ 0 then { s with deferredSince := 0 } else s

/-- `send_message` of a message that `rr_link_wire_encode` has encoded, or has not. -/
def sendEncoded (s : LinkOutput) (op : String) (encoded : Option (List UInt8)) (result : TransportResult)
    (transportQueued : Nat) (since now : Int) : Bool × LinkOutput :=
  match encoded with
  | none =>
      (false, s.fail ("Cannot encode " ++ clipped 96 op ++
        " message (invalid fields or wire size limit); check link protocol compatibility"))
  | some wire =>
      if s.closing then (false, s)
      else if !s.queued.isEmpty then deferMessage s wire op since now
      else
        match result with
        | .ok => (true, { s with taken := s.taken ++ [wire] })
        | .backpressure => deferMessage s wire op since now
        | .failed status =>
            (false, s.failCause "transport-send-failure"
              ("Native mesh transport send failed: op=" ++ clipped 64 op ++ " status=" ++ toString status ++
                " queued=" ++ toString transportQueued ++ "B"))

/-- `send_message`. -/
def sendMessage (encode : Dict → Option (List UInt8)) (s : LinkOutput) (d : Dict)
    (result : TransportResult) (transportQueued : Nat) (since now : Int) : Bool × LinkOutput :=
  sendEncoded s (d.get "op" "unknown") (encode d) result transportQueued since now

/-- One call that concerns the output of a session. -/
inductive Event
  | send (d : Dict) (result : TransportResult) (transportQueued : Nat) (since now : Int)
  | drain (answers : Nat → TransportResult)
  /-- A failure from elsewhere: a timeout, a protocol error, an administrator. -/
  | fail (cause reason : String)

def step (encode : Dict → Option (List UInt8)) (s : LinkOutput) : Event → LinkOutput
  | .send d result transportQueued since now => (sendMessage encode s d result transportQueued since now).2
  | .drain answers => drainDeferred s answers
  | .fail cause reason => failCause s cause reason

end LinkOutput

end RustyRig
