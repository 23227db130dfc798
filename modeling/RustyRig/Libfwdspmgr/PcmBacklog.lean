/-
The backlog of decoded sound (`libfwdspmgr/pcm-backlog.h`).

The newest 100 ms of PCM, in a buffer of fixed size.  An append that left its buffers would come to
nothing.
-/
import RustyRig.Lib.Buffer

namespace RustyRig

namespace PcmBacklog

open Lib.Buffer

abbrev Bytes := List UInt8

def FWDSP_PCM_BACKLOG_BYTES : Nat := 3200

/-- `struct fwdsp_pcm_backlog`. -/
structure Queue where
  data : Bytes
  len : Nat
deriving DecidableEq, Repr

/-- A queue that was set to zero. -/
def Queue.empty : Queue where
  data := List.replicate FWDSP_PCM_BACKLOG_BYTES 0
  len := 0

/-- `fwdsp_pcm_backlog_append`; there may be no data behind the pointer. -/
def append (queue : Queue) (data : Option Bytes) : Option Queue :=
  match data with
  | none => some queue
  | some bytes =>
      if bytes.length = 0 ∨ bytes.length % 2 = 1 then some queue
      else if queue.data.length ≤ bytes.length then
        (copy queue.data 0 bytes (bytes.length - queue.data.length) queue.data.length).map fun data =>
          { data := data, len := queue.data.length }
      else if queue.data.length < queue.len + bytes.length then
        let discard := queue.len + bytes.length - queue.data.length
        match copy queue.data 0 queue.data discard (queue.len - discard) with
        | none => none
        | some data =>
            (copy data (queue.len - discard) bytes 0 bytes.length).map fun data =>
              { data := data, len := queue.len - discard + bytes.length }
      else
        (copy queue.data queue.len bytes 0 bytes.length).map fun data =>
          { data := data, len := queue.len + bytes.length }

/-- A sequence of calls. -/
def appendAll (queue : Queue) : List (Option Bytes) → Option Queue
  | [] => some queue
  | data :: rest => (append queue data).bind fun queue => appendAll queue rest

end PcmBacklog

end RustyRig
