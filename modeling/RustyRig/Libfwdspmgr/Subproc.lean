/-
A worker of the media manager (`libfwdspmgr/fwdsp-mgr.h`).

A slot of the manager's table holds what is known of one child process.  What only the framing of
media and the log read (statistics, the reader's buffers, the output callback) is left out.
-/
import Mathlib.Data.List.Basic

namespace RustyRig

namespace Fwdsp

/-- A C string, without its terminator. -/
abbrev Text := List UInt8

/-- `enum fwdsp_pipeline_role`. -/
inductive Role
  | none
  | codec
  | processor
deriving DecidableEq, Repr

/-- `enum fwdsp_processor_io`. -/
inductive ProcessorIo
  | bidirectional
  | capture
  | playback
  | resample
deriving DecidableEq, Repr

/-- `struct fwdsp_subproc`. -/
structure Subproc where
  role : Role
  plId : Text
  processorNamespace : Text
  processorName : Text
  pipeline : Text
  isTx : Bool
deriving DecidableEq, Repr

/-- A slot that has been cleared. -/
def Subproc.cleared : Subproc where
  role := .none
  plId := []
  processorNamespace := []
  processorName := []
  pipeline := []
  isTx := false

end Fwdsp

end RustyRig
