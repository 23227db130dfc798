/-
Media frames between servers, from `rrserver/relay.media.c`.

A frame is cut into fragments of at most 4000 bytes, each a message of its own, and put
together again per stream on the other side.  A fragment is what the reassembler reads of
such a message; `dict` and the envelope belong to missing libraries and carry the fields as
they are.  The buffer of a stream is the part of it that was written.
-/
import RustyRig.Rrserver.Invitation

namespace RustyRig

namespace RelayMedia

open Base64 (encode decode)
open Invitation (isBase64)

/-- `RELAY_MEDIA_CHUNK`. -/
def chunk : Nat := 4000

/-- The fields of a `media` message with the command `frame` that make a fragment. -/
structure Fragment where
  /-- `media.setup`. -/
  setup : Bool
  /-- `media.data`. -/
  data : List Char
  /-- `media.fragment`. -/
  offset : Nat
  /-- `media.total`. -/
  total : Nat
  /-- `media.frame-seq`. -/
  sequence : UInt32
deriving DecidableEq, Repr

/-! ### Sending -/

/-- One turn of the loop of `media_packet`. -/
def fragment (setup : Bool) (sequence : UInt32) (frame : List UInt8) (offset : Nat) : Fragment where
  setup := setup
  data := encode ((frame.drop offset).take chunk)
  offset := offset
  total := frame.length
  sequence := sequence

/-- The messages of `media_packet` for one frame, as long as none fails. -/
def mediaPacket (setup : Bool) (sequence : UInt32) (frame : List UInt8) : List Fragment :=
  if frame.length = 0 || 65535 < frame.length then []
  else
    (List.range ((frame.length + chunk - 1) / chunk)).map fun k =>
      fragment setup sequence frame (k * chunk)

/-! ### Receiving -/

/-- What a `struct relay_media` holds of the frame it is putting together. -/
structure Media where
  frame : Option (List UInt8)
  size : Nat
  received : Nat
  sequence : UInt32
  setup : Bool
  /-- `mono_us` when the first fragment came. -/
  started : UInt64
deriving DecidableEq, Repr

/-- What memory and the clock answer to one call; it is read twice. -/
structure Tick where
  alloc : Bool
  started : UInt64
  checked : UInt64
deriving DecidableEq, Repr

/-- The first check of a fragment. -/
def Fragment.sound (x : Fragment) : Bool :=
  !(x.total == 0 || decide (65535 < x.total) || decide (x.total ≤ x.offset) ||
    x.offset % chunk != 0 || decide ((chunk + 2) / 3 * 4 < x.data.length) ||
    x.data.length % 4 != 0 || !x.data.all isBase64)

/-- The bytes a fragment should have. -/
def Fragment.expected (x : Fragment) : Nat := min (x.total - x.offset) chunk

/-- The first fragment of a frame starts the buffer anew. -/
def restart (m : Media) (x : Fragment) (t : Tick) : Media :=
  if x.offset = 0 then
    { frame := if t.alloc then some [] else none
      size := x.total
      received := 0
      sequence := x.sequence
      setup := x.setup
      started := t.started }
  else m

/-- How long after its first fragment a frame may still grow, in microseconds. -/
def patience (setup : Bool) : UInt64 := if setup then 1000000 else 100000

/-- `memcpy` at an offset of the buffer. -/
def blit (frame : List UInt8) (offset : Nat) (bytes : List UInt8) : List UInt8 :=
  frame.take offset ++ bytes ++ frame.drop (offset + bytes.length)

/-- `rr_relay_media_reassemble`. -/
def reassemble (m : Media) (x : Fragment) (t : Tick) : Bool × Media :=
  if !x.sound then (false, m)
  else
    let bytes := decode x.data
    if bytes.length ≠ x.expected then (false, m)
    else
      let m := restart m x t
      match m.frame with
      | none => (false, m)
      | some frame =>
          if m.size ≠ x.total || m.sequence ≠ x.sequence || x.offset ≠ m.received ||
              m.setup ≠ x.setup || decide (patience m.setup < t.checked - m.started) then (false, m)
          else
            (m.received + bytes.length == m.size,
              { m with frame := some (blit frame x.offset bytes)
                       received := m.received + bytes.length })

/-- Both callers take the frame when it is complete, and free it. -/
def receive (m : Media) (x : Fragment) (t : Tick) : Option (List UInt8) × Media :=
  match reassemble m x t with
  | (false, m) => (none, m)
  | (true, m) => (m.frame.map (·.take m.size), { m with frame := none })

/-- What the fragments of a list are answered, in turn. -/
def receiveAll (m : Media) : List (Fragment × Tick) → List (Option (List UInt8))
  | [] => []
  | (x, t) :: rest => (receive m x t).1 :: receiveAll (receive m x t).2 rest

end RelayMedia

end RustyRig
