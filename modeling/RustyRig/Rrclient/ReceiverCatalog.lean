/-
The receiver catalog and its transfer.

`rrserver/receiver.directory.c` answers a client's request with a status and with the eight
chunks of a page of its snapshot; `rrclient/receiver.catalog.c` asks for one page after the
other, keeps the chunks that belong to what it has, and hands them to a worker that verifies
their digest.  The digest is a parameter.  A chunk's bytes travel in base64, which is left
out except for the bound on its length, and a token "client-n" is its number.

Of what the client sends only a list command matters; whether the socket takes it is the
event's to say.  The wire keeps every reply, and can deliver it at any time and again.
-/
import Mathlib.Algebra.Group.Nat.Defs
import RustyRig.Lib.Pages

namespace RustyRig

namespace ReceiverCatalog

/-- `CATALOG_MAX` and `DIR_MAX_BODY`. -/
def catalogMax : Nat := 8 * 1024 * 1024

/-- `CATALOG_CHUNK` and `DIR_CHUNK`. -/
def catalogChunk : Nat := 12000

/-- The server's directory.  `body_valid` passes no other snapshots. -/
structure Directory where
  snapshot : Option (List UInt8)
  generation : Nat
  valid : ∀ s ∈ snapshot, 20 ≤ s.length ∧ s.length ≤ catalogMax
deriving DecidableEq

/-- A list command. -/
structure Request where
  token : Nat
  page : Nat
deriving DecidableEq, Repr

/-- The fields of a chunk. -/
structure Chunk where
  digest : String
  generation : Nat
  total : Nat
  sequence : Nat
  data : List UInt8
deriving DecidableEq, Repr

/-- An answer to the request with that token. -/
inductive Reply
  | status (token : Nat) (digest : String) (generation : Nat)
  | chunk (token : Nat) (c : Chunk)
deriving DecidableEq, Repr

section Server

variable (sha : List UInt8 → String)

/-- `make_digest`. -/
def Directory.digest (d : Directory) : String :=
  match d.snapshot with
  | none => ""
  | some s => sha s

def chunks (s : List UInt8) : Nat := (s.length + catalogChunk - 1) / catalogChunk

/-- Chunk `i` of a snapshot. -/
def piece (s : List UInt8) (i : Nat) : List UInt8 := (s.drop (i * catalogChunk)).take catalogChunk

def chunkOf (s : List UInt8) (generation i : Nat) : Chunk :=
  ⟨sha s, generation, chunks s, i, piece s i⟩

/-- `request_handler` for a list command. -/
def requestHandler (d : Directory) (r : Request) : List Reply :=
  .status r.token (d.digest sha) d.generation ::
    match d.snapshot with
    | none => []
    | some s =>
        if 1024 < chunks s then []
        else if 127 < r.page || chunks s ≤ r.page * 8 then []
        else
          (List.range' (r.page * 8) (min (r.page * 8 + 8) (chunks s) - r.page * 8)).map fun i =>
            .chunk r.token (chunkOf sha s d.generation i)

end Server

/-- `catalog_download_t`, while it has a connection. -/
structure Download where
  chunks : List (Option (List UInt8))
  total : Nat
  received : Nat
  requestedPage : Nat
  digest : String
  token : Nat
  retry : Nat
  generation : Nat
deriving DecidableEq, Repr

/-- `catalog_job_t`. -/
structure Job where
  chunks : List (Option (List UInt8))
  generation : Nat
  digest : String
deriving DecidableEq, Repr

/-- The client: its transfer, whether its timer is armed, and what it has sent and has handed to the
worker. -/
structure Client where
  transfer : Option Download
  timer : Bool
  serial : Nat
  sent : List Request
  jobs : List Job
deriving DecidableEq, Repr

section Worker

variable (sha : List UInt8 → String)

/-- The loop of `catalog_verify_worker`. -/
def assemble : List UInt8 → List (Option (List UInt8)) → Option (List UInt8)
  | body, [] => some body
  | _, none :: _ => none
  | body, some c :: rest =>
      if catalogMax < body.length + c.length then none else assemble (body ++ c) rest

/-- `catalog_verify_worker`: the snapshot that is applied, if it is verified. -/
def verify (job : Job) : Option (List UInt8) :=
  match assemble [] job.chunks with
  | none => none
  | some body => if sha body = job.digest then some body else none

end Worker

namespace Client

/-- `rrclient_receiver_catalog_request` on a usable connection. -/
def request (c : Client) (sends : Bool) : Client :=
  let serial := (c.serial + 1) % 2 ^ 32
  if sends then
    { c with
      transfer := some ⟨[], 0, 0, 0, "", serial, 0, 0⟩
      timer := true
      serial := serial
      sent := c.sent ++ [⟨serial, 0⟩] }
  else { c with transfer := none, timer := false, serial := serial }

/-- `expire`, when the timer fires. -/
def expire (c : Client) (sends : Bool) : Client :=
  match c.transfer with
  | none => { c with timer := false }
  | some d =>
      if d.retry + 1 ≤ 5 && sends then
        { c with
          transfer := some { d with retry := d.retry + 1 }
          timer := true
          sent := c.sent ++ [⟨d.token, d.requestedPage⟩] }
      else { c with transfer := none, timer := false }

end Client

/-- The checks of `received` on a chunk, against a transfer that may have chunks already. -/
def Download.admits (d : Download) (c : Chunk) : Bool :=
  c.total ≠ 0 && c.total ≤ 1024 && c.sequence < c.total &&
    (c.data.length + 2) / 3 * 4 ≤ 4 * ((catalogChunk + 2) / 3) + 4 &&
    (d.total = 0 || d.total = c.total && d.generation = c.generation) &&
    (d.digest = "" || d.digest = c.digest) &&
    c.digest.utf8ByteSize = 64 && (d.total = 0 || d.requestedPage * 8 ≤ c.sequence)

/-- The slots are made for the first chunk. -/
def Download.alloc (d : Download) (c : Chunk) : Download :=
  if d.total = 0 then
    { d with
      total := c.total
      generation := c.generation
      digest := c.digest
      chunks := List.replicate c.total none }
  else d

/-- A chunk that is new, of a proper size, and not too much. -/
def Download.takes (d : Download) (c : Chunk) : Bool :=
  d.chunks[c.sequence]? = some none && c.data ≠ [] && c.data.length ≤ catalogChunk &&
    d.received * catalogChunk + c.data.length ≤ catalogMax

def Download.put (d : Download) (c : Chunk) : Download :=
  { d with chunks := d.chunks.set c.sequence (some c.data), received := d.received + 1 }

namespace Client

/-- What follows a chunk that is taken. -/
def progress (c : Client) (d : Download) (sends : Bool) : Client :=
  if d.received = d.total then
    { c with
      transfer := none
      timer := false
      jobs := c.jobs ++ [⟨d.chunks, d.generation, d.digest⟩] }
  else if d.received % 8 = 0 then
    let d := { d with requestedPage := d.received / 8 }
    if sends then
      { c with
        transfer := some d
        timer := true
        sent := c.sent ++ [⟨d.token, d.requestedPage⟩] }
    else { c with transfer := some d, timer := false }
  else { c with transfer := some d, timer := true }

/-- `received`. -/
def received (c : Client) (r : Reply) (sends : Bool) : Client :=
  match c.transfer with
  | none => c
  | some d =>
      match r with
      | .status token digest generation =>
          if token = d.token && digest.utf8ByteSize = 64 && d.total = 0 then
            { c with transfer := some { d with digest := digest, generation := generation } }
          else c
      | .chunk token chunk =>
          if token = d.token && d.admits chunk then
            if (d.alloc chunk).takes chunk then progress c ((d.alloc chunk).put chunk) sends
            else { c with transfer := some (d.alloc chunk) }
          else c

/-- `disconnected` of the transfer's connection. -/
def disconnected (c : Client) : Client := { c with transfer := none, timer := false }

end Client

/-- The client, and the replies that were ever sent to it. -/
structure Wire where
  client : Client
  replies : List Reply

inductive Event
  | request (sends : Bool)
  | expire (sends : Bool)
  | serve (d : Directory) (r : Request)
  | deliver (r : Reply) (sends : Bool)
  | disconnected
deriving DecidableEq

def Wire.start : Wire := ⟨⟨none, false, 0, [], []⟩, []⟩

/-- The server may be asked again whatever it was asked, and any reply may arrive again. -/
def Wire.step (sha : List UInt8 → String) (w : Wire) : Event → Wire
  | .request sends => { w with client := w.client.request sends }
  | .expire sends => if w.client.timer then { w with client := w.client.expire sends } else w
  | .serve d r =>
      if r ∈ w.client.sent then { w with replies := w.replies ++ requestHandler sha d r } else w
  | .deliver r sends => if r ∈ w.replies then { w with client := w.client.received r sends } else w
  | .disconnected => { w with client := w.client.disconnected }

end ReceiverCatalog

end RustyRig
