/-
The media manager's limit on restarts (`libfwdspmgr/fwdsp-mgr.c`).

A table of 128 entries keeps a window for each key, that is for each pipeline, or processor, or
codec and direction.  A key without an entry takes an empty one, or else the one whose window is
the oldest.
-/
import RustyRig.Lib.Limiter
import RustyRig.Libfwdspmgr.Subproc

namespace RustyRig

namespace Fwdsp

open Lib

def FWDSP_SPAWN_GUARDS : Nat := 128

/-- `struct fwdsp_spawn_guard`. -/
structure SpawnGuard where
  key : Text
  limiter : Limiter
deriving DecidableEq, Repr

/-- `spawn_guards`. -/
abbrev SpawnGuards := List SpawnGuard

def SpawnGuards.zeroed : SpawnGuards := List.replicate FWDSP_SPAWN_GUARDS { key := [], limiter := .new }

/-- `pipeline:`, and so on. -/
def pipelinePrefix : Text := [112, 105, 112, 101, 108, 105, 110, 101, 58]
def processorPrefix : Text := [112, 114, 111, 99, 101, 115, 115, 111, 114, 58]
def codecPrefix : Text := [99, 111, 100, 101, 99, 58]

/-- The key of a worker; `snprintf` cuts it to 383 bytes. -/
def spawnKey (sp : Subproc) : Text :=
  (if sp.pipeline ≠ [] then pipelinePrefix ++ sp.pipeline
    else if sp.role = .processor then processorPrefix ++ sp.processorName
    else codecPrefix ++ sp.plId.take 4 ++ [58, if sp.isTx then 84 else 82]).take 383

/-- The loop over the entries: whether the key has one, and its index or that of the entry to take. -/
def lookGuard (key : Text) : SpawnGuards → Nat → Nat × SpawnGuard → Bool × Nat
  | [], _, oldest => (false, oldest.1)
  | candidate :: guards, i, oldest =>
      if candidate.key = key then (true, i)
      else if candidate.key = [] then lookGuard key guards (i + 1) (i, candidate)
      else if oldest.2.key ≠ [] ∧ candidate.limiter.started < oldest.2.limiter.started then
        lookGuard key guards (i + 1) (i, candidate)
      else lookGuard key guards (i + 1) oldest

/-- Where the key's entry is, or will be. -/
def guardOf (guards : SpawnGuards) (key : Text) : Bool × Nat :=
  match guards with
  | [] => (false, 0)
  | first :: _ => lookGuard key guards 0 (0, first)

/-- `fwdsp_spawn_permitted`: three starts in 30 s, and after a fourth none for 60 s. -/
def spawnPermitted (guards : SpawnGuards) (sp : Subproc) (current : Nat) : Limiter.Verdict × SpawnGuards :=
  let key := spawnKey sp
  let (found, i) := guardOf guards key
  let guard : SpawnGuard :=
    match found, guards[i]? with
    | true, some guard => guard
    | _, _ => { key := key, limiter := .new }
  let (verdict, limiter) := guard.limiter.ask 3 30000000 60000000 current
  (verdict, guards.set i { guard with limiter := limiter })

/-! ### Runs -/

/-- The table after attempts at their times. -/
def attempts (guards : SpawnGuards) (l : List (Subproc × Nat)) : SpawnGuards :=
  l.foldl (fun guards x => (spawnPermitted guards x.1 x.2).2) guards

/-- An attempt takes the entry of another key. -/
def evicts (guards : SpawnGuards) (sp : Subproc) (key : Text) : Bool :=
  let (found, i) := guardOf guards (spawnKey sp)
  !found && (guards[i]?).any fun guard => guard.key == key

end Fwdsp

end RustyRig
