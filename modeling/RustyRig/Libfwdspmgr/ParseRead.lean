/-
What the manager reads from a child (`libfwdspmgr/fwdsp-mgr.c`).

A child writes frames: four bytes of flags and length, then the payload.  `parseRead` takes the complete
frames off the front of what has been received and leaves the rest.  A callback may stop the child
and clear its slot, which ends the run; `World` says what a callback leaves, and which media channels
there are.  Log lines and the time of the last warning are left out.
-/
import Mathlib.Algebra.Group.Nat.Defs
import RustyRig.Libfwdspmgr.PcmBacklog
import RustyRig.Libfwdspmgr.Subproc

namespace RustyRig

namespace Fwdsp

open PcmBacklog (Bytes FWDSP_PCM_BACKLOG_BYTES)

def FWDSP_FRAME_HEADER_SIZE : Nat := 4
def FWDSP_MAX_FRAME_SIZE : Nat := 64 * 1024 * 1024

/-- The bits of a frame's first word. -/
def FWDSP_FRAME_STREAM_HEADER : Nat := 2 ^ 31
def FWDSP_FRAME_PCM_TAP : Nat := 2 ^ 30
def FWDSP_FRAME_DISCONT : Nat := 2 ^ 29

/-- What a bit of the word is. -/
def flag (word bit : Nat) : Bool := decide (word / bit % 2 = 1)

/-- The word under `FWDSP_FRAME_LENGTH_MASK`. -/
def frameLength (word : Nat) : Nat := word % FWDSP_FRAME_DISCONT

/-- `frame_length_encode`. -/
def frameLengthEncode (len : Nat) : Bytes :=
  [UInt8.ofNat (len / 2 ^ 24), UInt8.ofNat (len / 2 ^ 16), UInt8.ofNat (len / 2 ^ 8), UInt8.ofNat len]

/-- `frame_length_decode`. -/
def frameLengthDecode (header : Bytes) : Nat :=
  (header.take FWDSP_FRAME_HEADER_SIZE).foldl (fun word b => word * 2 ^ 8 + b.toNat) 0

/-- A media channel, as far as the reader looks at it. -/
structure Channel where
  uuid : Text
  codec : Text
deriving DecidableEq, Repr

/-- What the reader uses of its `struct fwdsp_subproc`. -/
structure Child where
  role : Role
  plId : Text
  processorName : Text
  channelUuid : Text
  isTx : Bool
  isVideo : Bool
  streamHeaders : Bytes
  replayHeaders : Bool
  refcount : Nat
  processorIo : ProcessorIo
  processorOutput : Bool
deriving DecidableEq, Repr

/-- What is done with a payload. -/
inductive Output
  | pcm (name : Text) (samples : Bytes)
  | processed (name : Text) (samples : Bytes)
  | video (name : Text) (data : Bytes)
  | event (plId : Text) (data : Bytes)
  | setup (channel : Channel) (data : Bytes) (codec : Text)
  | media (channel : Channel) (data : Bytes) (codec : Text)
deriving DecidableEq, Repr

/-- The media channels, and what a callback leaves of the slot it was made for. -/
structure World where
  findUuid : Text → Option Channel
  find : Bool → Option Channel
  maxPayload : Nat
  after : Output → Child → Option Child

/-- `newer_pcm_bytes`, from a position on. -/
def newerPcmBytes (data : Bytes) (bytes : Nat) : Nat :=
  if data.length < FWDSP_FRAME_HEADER_SIZE then bytes
  else
    let word := frameLengthDecode data
    let len := frameLength word
    if len = 0 ∨ data.length - FWDSP_FRAME_HEADER_SIZE < len then bytes
    else if flag word FWDSP_FRAME_PCM_TAP = true ∧ flag word FWDSP_FRAME_STREAM_HEADER = false ∧ len % 2 = 0 then
      if FWDSP_PCM_BACKLOG_BYTES ≤ bytes + len then FWDSP_PCM_BACKLOG_BYTES
      else newerPcmBytes (data.drop (FWDSP_FRAME_HEADER_SIZE + len)) (bytes + len)
    else newerPcmBytes (data.drop (FWDSP_FRAME_HEADER_SIZE + len)) bytes
termination_by data.length
decreasing_by
  all_goals
    rw [List.length_drop]
    simp only [FWDSP_FRAME_HEADER_SIZE] at *
    omega

/-- The loop of `fwdsp_replay_stream_headers`. -/
def replayStreamHeaders (headers : Bytes) : List Bytes :=
  if headers.length < FWDSP_FRAME_HEADER_SIZE then []
  else
    let len := frameLengthDecode headers
    if headers.length - FWDSP_FRAME_HEADER_SIZE < len then []
    else
      (headers.drop FWDSP_FRAME_HEADER_SIZE).take len ::
        replayStreamHeaders (headers.drop (FWDSP_FRAME_HEADER_SIZE + len))
termination_by headers.length
decreasing_by
  rw [List.length_drop]
  simp only [FWDSP_FRAME_HEADER_SIZE] at *
  omega

/-- A callback with an output. -/
def call (w : World) (sp : Child) (o : Output) : Option Child × List Output := (w.after o sp, [o])

/-- The media channel of a child. -/
def channelOf (w : World) (sp : Child) : Option Channel :=
  if sp.channelUuid ≠ [] then w.findUuid sp.channelUuid else w.find sp.isTx

/-- The retained setup data with another packet, if there is room for it. -/
def retain (sp : Child) (isHeader : Bool) (payload : Bytes) : Bytes :=
  if isHeader = true ∧ FWDSP_FRAME_HEADER_SIZE + payload.length ≤ 256 * 1024 - sp.streamHeaders.length then
    sp.streamHeaders ++ frameLengthEncode payload.length ++ payload
  else sp.streamHeaders

/-- A frame of a codec on its way to the media channel. -/
def relay (w : World) (sp : Child) (isHeader : Bool) (payload : Bytes) : Option Child × List Output :=
  let sp := { sp with streamHeaders := retain sp isHeader payload }
  match channelOf w sp with
  | none => (some sp, [])
  | some channel =>
      if 0 < sp.refcount ∧ channel.codec.take 4 = sp.plId.take 4 then
        let replayed := if sp.replayHeaders then replayStreamHeaders sp.streamHeaders else []
        (some { sp with replayHeaders := false },
          replayed.map (fun data => .setup channel data sp.plId) ++
            [if isHeader then .setup channel payload sp.plId else .media channel payload sp.plId])
      else (some sp, [])

/-- A complete frame, with what has been received behind it. -/
def handle (w : World) (sp : Child) (word : Nat) (payload rest : Bytes) : Option Child × List Output :=
  let isHeader := flag word FWDSP_FRAME_STREAM_HEADER
  if flag word FWDSP_FRAME_PCM_TAP then
    if isHeader = true ∨ payload.length % 2 = 1 then (some sp, [])
    else if sp.role = .codec ∧ sp.isTx = false ∧ sp.processorOutput = true then
      let newer := newerPcmBytes rest 0
      let keep := min (FWDSP_PCM_BACKLOG_BYTES - newer) payload.length
      if keep = 0 then (some sp, [])
      else call w sp (.pcm sp.channelUuid (payload.drop (payload.length - keep)))
    else (some sp, [])
  else if sp.role = .processor then
    if isHeader = true ∨ payload.length % 2 = 1 ∨ sp.processorIo = .playback ∨ sp.processorOutput = false then (some sp, [])
    else call w sp (.processed sp.processorName payload)
  else if sp.isVideo then
    if sp.refcount = 0 then (some sp, [])
    else if sp.processorOutput then call w sp (.video sp.channelUuid payload)
    else if payload.length ≤ w.maxPayload then call w sp (.event (sp.plId.take 4) payload)
    else (some sp, [])
  else relay w sp isHeader payload

/-- `fwdsp_parse_read` on a child's output: what it leaves of the slot and of the buffer, and its outputs. -/
def parseRead (w : World) (sp : Option Child) (recv : Bytes) : Option Child × Bytes × List Output :=
  match sp with
  | none => (none, recv, [])
  | some sp =>
      if recv.length < FWDSP_FRAME_HEADER_SIZE then (some sp, recv, [])
      else
        let word := frameLengthDecode recv
        let len := frameLength word
        if len = 0 ∨ FWDSP_MAX_FRAME_SIZE < len then (some sp, [], [])
        else if recv.length < FWDSP_FRAME_HEADER_SIZE + len then (some sp, recv, [])
        else
          let rest := recv.drop (FWDSP_FRAME_HEADER_SIZE + len)
          let handled := handle w sp word ((recv.drop FWDSP_FRAME_HEADER_SIZE).take len) rest
          let left := parseRead w handled.1 rest
          (left.1, left.2.1, handled.2 ++ left.2.2)
termination_by recv.length
decreasing_by
  rw [List.length_drop]
  simp only [FWDSP_FRAME_HEADER_SIZE] at *
  omega

end Fwdsp

end RustyRig
