/-
The IRC connection (`librustyirc/connection.c`): what it writes for a line, and how it reads lines
out of what the transport hands it.

The transport is the application's.  What it hands over in one call is cut anywhere, so an incomplete
line is kept in `recvq` until the next call.  The handlers of a message belong to the application too;
the one thing they do to the connection is to release it, and `closes` says which messages they do
this on, given those dispatched before.
-/
import RustyRig.Librustyirc.Message

namespace RustyRig

namespace Irc

def IRC_MSGLEN : Nat := 1024

/-! ### Writing -/

/-- The loop of `rustyirc_line_limit`; nothing where a character is no digit. -/
def limitLoop (limit : Nat) : Text → Option Nat
  | [] => some limit
  | p :: value =>
      if 48 ≤ p ∧ p ≤ 57 then
        let next := limit * 10 + (p.toNat - 48)
        limitLoop (if limit < IRC_MSGLEN then (if IRC_MSGLEN < next then IRC_MSGLEN else next) else limit) value
      else none

/-- `rustyirc_line_limit`, of the server's `LINELEN`. -/
def lineLimit (value : Option Text) : Nat :=
  match value with
  | none => 512
  | some value =>
      if value = [] then 512
      else
        match limitLoop 0 value with
        | none => 512
        | some limit => if 2 ≤ limit then limit else 512

/-- `rustyirc_connection_send`: what goes to the transport for a line. -/
def connectionSend (limit : Nat) (line : Text) : Option Text :=
  if line = [] ∨ limit - 2 < line.length ∨ carriageReturn ∈ line ∨ lineFeed ∈ line then none
  else some (line ++ [carriageReturn, lineFeed])

/-! ### Reading -/

/-- What reading uses of `irc_conn_t`, and the messages dispatched so far. -/
structure Connection where
  recvq : Text
  closing : Bool
  dispatched : List Message
deriving DecidableEq, Repr

namespace Connection

/-- A connection as `rustyirc_connection_new` leaves it. -/
def start : Connection := { recvq := [], closing := false, dispatched := [] }

variable (closes : List Message → Message → Bool)

/-- `rustyirc_process_message`. -/
def processMessage (c : Connection) (msg : Text) : Connection :=
  match parseMessage msg with
  | none => c
  | some m => { c with closing := c.closing || closes c.dispatched m, dispatched := c.dispatched ++ [m] }

/-- The loop over the bytes. -/
def feedLoop (c : Connection) : Text → Bool × Connection
  | [] => (true, c)
  | ch :: bytes =>
      if ch = 0 then (false, c)
      else if IRC_MSGLEN ≤ c.recvq.length then (false, c)
      else
        let c : Connection := { c with recvq := c.recvq ++ [ch] }
        if ch ≠ lineFeed then feedLoop c bytes
        else if c.recvq.length < 2 ∨ c.recvq[c.recvq.length - 2]? ≠ some carriageReturn then (false, c)
        else if IRC_MSGLEN - 2 < c.recvq.length - 2 then (false, c)
        else
          let c : Connection := { c with recvq := c.recvq.take (c.recvq.length - 2) }
          let c := c.processMessage closes c.recvq
          if c.closing = true then (false, c) else feedLoop { c with recvq := [] } bytes

/-- `rustyirc_connection_feed`: whether the connection may go on. -/
def feed (c : Connection) (bytes : Text) : Bool × Connection :=
  if c.closing = true then (false, c) else c.feedLoop closes bytes

/-- `irc_receive`, once for each read; the first refusal closes the connection. -/
def receive (c : Connection) : List Text → Bool × Connection
  | [] => (true, c)
  | bytes :: reads =>
      let next := c.feed closes bytes
      if next.1 = true then receive next.2 reads else next

end Connection

end Irc

end RustyRig
