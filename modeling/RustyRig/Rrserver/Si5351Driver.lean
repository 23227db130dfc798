/-
Sequencing of the Si5351A clock generator (`rrserver/si5351.c`, from `byte` on).

The driver keeps a shadow of the chip's output-disable register and whether it is ready; the
registers themselves are the chip's.  All it can do is to read and to write registers over a bus
whose answers are not its own: a read gives any value or fails, and a write that fails may have
reached the chip with any number of its bytes.  Every access is recorded, newest first, between
the calls that made it, so the chip's registers at any moment are what the record made of the
ones it was found with.
-/
import RustyRig.Lib.Attempt
import RustyRig.Rrserver.Si5351

namespace RustyRig

namespace Si5351

open Lib

/-- What the driver did. -/
inductive Access where
  /-- `rr_si5351_start` took a configuration. -/
  | begun (config : Config)
  /-- `rr_si5351_set` took a request. -/
  | asked (output : Nat) (hz : UInt32)
  | read (reg : Nat) (value : Option UInt8)
  /-- A write that failed reached the chip with so many of its bytes. -/
  | wrote (reg : Nat) (bytes : List UInt8) (failed : Option Nat)

/-- The answers of the bus, which may depend on everything before. -/
structure Bus where
  read : List Access → Nat → Option UInt8
  write : List Access → Nat → List UInt8 → Option Nat

/-- `rr_si5351_t`; `attached` says that it has its transport. -/
structure Clock where
  config : Config
  attached : Bool
  disabled : UInt8
  ready : Bool

structure World where
  clock : Clock
  log : List Access

variable (bus : Bus)

def readReg (reg : Nat) (w : World) : Option UInt8 × World :=
  (bus.read w.log reg, { w with log := .read reg (bus.read w.log reg) :: w.log })

/-- A write of the transport. -/
def write (reg : Nat) (bytes : List UInt8) : Attempt World := fun w =>
  ((bus.write w.log reg bytes).isNone, { w with log := .wrote reg bytes (bus.write w.log reg bytes) :: w.log })

def byte (reg : Nat) (value : UInt8) : Attempt World := write bus reg [value]

/-- `fault`: the driver gives up, and tries to turn every output off. -/
def fault (w : World) : Bool × World :=
  (false, (byte bus 3 0xff { w with clock := { w.clock with ready := false, disabled := 0xff } }).2)

/-- The polls of `wait_status`; waiting between them touches nothing. -/
def poll (mask : UInt8) : Nat → Attempt World
  | 0, w => (false, w)
  | n + 1, w =>
      match readReg bus 0 w with
      | (none, w) => (false, w)
      | (some status, w) => if status &&& mask = 0 then (true, w) else poll mask n w

def waitStatus (mask : UInt8) : Attempt World := poll bus mask 200

/-- Register 149 keeps its lower bits: spread spectrum is turned off. -/
def spreadOff : Attempt World := fun w =>
  match readReg bus 149 w with
  | (none, w) => (false, w)
  | (some spread, w) => byte bus 149 (spread &&& 0x7f) w

/-- The accesses of a start, up to the first that fails. -/
def startup (c : Config) (p : Plan) : List (Attempt World) :=
  [waitStatus bus 0x80, byte bus 3 0xff, write bus 16 (List.replicate 8 0x80), byte bus 15 0,
    byte bus 183 ((((c.loadPf - 4) / 2) <<< 6) ||| 0x12).toUInt8, spreadOff bus,
    write bus 26 p.pll.toList, byte bus 165 0, byte bus 166 0, byte bus 167 0,
    byte bus 177 0x20, waitStatus bus 0xa8]

/-- `rr_si5351_start`, with a transport that has both its callbacks or has not. -/
def start (given : Bool) (c : Config) : Attempt World := fun w =>
  match given, plan c 10000000 with
  | true, some p =>
      let w : World :=
        { clock := { config := c, attached := true, disabled := 0xff, ready := false }
          log := .begun c :: w.log }
      match Attempt.sequence (startup bus c p.value) w with
      | (true, w) => (true, { w with clock := { w.clock with ready := true } })
      | (false, w) => fault bus w
  | _, _ => (false, w)

/-- The bit of an output in the output-disable register; a set bit turns it off. -/
def bit (output : Nat) : UInt8 := 1 <<< UInt8.ofNat output

/-- The accesses that tune an output which is off, and turn it on. -/
def tuneUp (output : Nat) (p : Plan) (mask : UInt8) : List (Attempt World) :=
  [write bus (42 + 8 * output) p.multisynth.toList, byte bus (16 + output) p.control,
    waitStatus bus 0xa8, byte bus 3 (mask &&& ~~~bit output)]

/-- The part of `rr_si5351_set` after its checks: the output is turned off, and on again once its
registers hold the plan. -/
def retune (output : Nat) (tuning : Option Plan) (w : World) : Bool × World :=
  let mask := w.clock.disabled ||| bit output
  match byte bus 3 mask w with
  | (true, w) =>
      let w := { w with clock := { w.clock with disabled := mask } }
      match tuning with
      | none =>
          match byte bus (16 + output) 0x80 w with
          | (true, w) => (true, w)
          | (false, w) => fault bus w
      | some p =>
          match Attempt.sequence (tuneUp bus output p mask) w with
          | (true, w) => (true, { w with clock := { w.clock with disabled := mask &&& ~~~bit output } })
          | (false, w) => fault bus w
  | (false, w) => fault bus w

/-- The tuning a request asks for: none for zero, which turns the output off. -/
def tuning (c : Config) (hz : UInt32) : Option (Option Plan) :=
  if hz = 0 then some none else (plan c hz).map fun p => some p.value

/-- `rr_si5351_set`. -/
def set (output : Nat) (hz : UInt32) : Attempt World := fun w =>
  if !w.clock.ready || decide (2 < output) then (false, w)
  else
    match tuning w.clock.config hz with
    | none => (false, w)
    | some tuning => retune bus output tuning { w with log := .asked output hz :: w.log }

/-- `rr_si5351_stop`. -/
def stop : Attempt World := fun w =>
  if !w.clock.attached then (false, w)
  else
    match byte bus 3 0xff w with
    | (true, w) => (true, { w with clock := { w.clock with disabled := 0xff, ready := false } })
    | (false, w) => fault bus w

/-! ### Runs -/

inductive Call where
  | start (given : Bool) (config : Config)
  | set (output : Nat) (hz : UInt32)
  | stop

def step : Call → Attempt World
  | .start given config => start bus given config
  | .set output hz => set bus output hz
  | .stop => stop bus

/-- A driver nobody has started yet. -/
def World.new : World :=
  { clock := { config := ⟨0, 0, 0, 0⟩, attached := false, disabled := 0, ready := false }, log := [] }

def run (calls : List Call) (w : World) : World :=
  calls.foldl (fun w call => (step bus call w).2) w

/-! ### What the record says -/

/-- The chip's registers: the bytes that reached it, over what it was found with. -/
def device (found : Nat → UInt8) : List Access → Nat → UInt8
  | [], r => found r
  | .wrote reg bytes failed :: log, r =>
      if reg ≤ r then ((bytes.take (failed.getD bytes.length))[r - reg]?).getD (device found log r)
      else device found log r
  | .begun _ :: log, r => device found log r
  | .asked _ _ :: log, r => device found log r
  | .read _ _ :: log, r => device found log r

/-- A write that is aimed at the register. -/
def Access.aims (r : Nat) : Access → Prop
  | .wrote reg bytes _ => reg ≤ r ∧ r < reg + bytes.length
  | _ => False

/-- A write that got to the register. -/
def Access.reaches (r : Nat) : Access → Prop
  | .wrote reg bytes failed => reg ≤ r ∧ r < reg + (bytes.take (failed.getD bytes.length)).length
  | _ => False

def Access.failed : Access → Prop
  | .wrote _ _ failed => failed.isSome = true
  | _ => False

/-- The configuration of the last start. -/
def begunWith : List Access → Option Config
  | [] => none
  | .begun c :: _ => some c
  | .asked _ _ :: log => begunWith log
  | .read _ _ :: log => begunWith log
  | .wrote _ _ _ :: log => begunWith log

/-- The latest request for an output since the last start. -/
def lastAsked : List Access → Nat → Option UInt32
  | [], _ => none
  | .begun _ :: _, _ => none
  | .asked output hz :: log, k => if output = k then some hz else lastAsked log k
  | .read _ _ :: log, k => lastAsked log k
  | .wrote _ _ _ :: log, k => lastAsked log k

/-- What the last write at a register since the last start left there, if it was complete. -/
def fresh : List Access → Nat → Option UInt8
  | [], _ => none
  | .begun _ :: _, _ => none
  | .wrote reg bytes failed :: log, r =>
      if reg ≤ r ∧ r < reg + bytes.length then (if failed.isNone then bytes[r - reg]? else none)
      else fresh log r
  | .asked _ _ :: log, r => fresh log r
  | .read _ _ :: log, r => fresh log r

/-- The output's multisynth and control registers were completely written, since the last start
and with its configuration, for the frequency last requested of it. -/
def Tuned (log : List Access) (k : Nat) : Prop :=
  ∃ c hz p, begunWith log = some c ∧ lastAsked log k = some hz ∧ plan c hz = some p ∧
    (∀ i (hi : i < 8), fresh log (42 + 8 * k + i) = some p.value.multisynth[i]) ∧
    fresh log (16 + k) = some p.value.control

/-- The registers of an output. -/
def owns (k r : Nat) : Prop := r = 16 + k ∨ (42 + 8 * k ≤ r ∧ r < 50 + 8 * k)

end Si5351

end RustyRig
