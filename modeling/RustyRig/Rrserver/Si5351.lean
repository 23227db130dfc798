/-
Register arithmetic of the Si5351A clock generator (`rrserver/si5351.c`).

`plan` computes the register bytes of the PLL, of an output's multisynth and of its control
register for a frequency.  The arithmetic is the code's, on 64-bit words, and notes whether an
intermediate result ever left its word.

The second half of the file is the chip's reading of these bytes, from its register layout: the
three fields of a synthesizer, its ratio, the output divider, and the frequency at the pin.
-/
import Mathlib.Data.Rat.Defs
import Mathlib.Algebra.Order.Field.Basic
import Mathlib.Algebra.Order.Field.Rat
import RustyRig.Lib.Checked

namespace RustyRig

namespace Si5351

open Lib Lib.Checked

/-- `PLL_HZ`. -/
def pllHz : UInt64 := 900000000

/-- `DENOM`, the denominator of every fraction. -/
def denom : UInt64 := 1048575

/-- `rr_si5351_config_t`.  A positive correction means that the crystal runs fast. -/
structure Config where
  crystalHz : UInt32
  correctionPpb : Int32
  loadPf : UInt32
  driveMa : UInt32
  deriving Repr, DecidableEq

/-- `valid`. -/
def valid (c : Config) : Bool :=
  (c.crystalHz == 25000000 || c.crystalHz == 27000000) &&
    decide (-100000 ≤ c.correctionPpb) && decide (c.correctionPpb ≤ 100000) &&
    (c.loadPf == 6 || c.loadPf == 8 || c.loadPf == 10) &&
    decide (2 ≤ c.driveMa) && decide (c.driveMa ≤ 8) && c.driveMa &&& 1 == 0

/-- The three numbers of a synthesizer, and whether its ratio is an even integer. -/
structure Parameters where
  p1 : UInt32
  p2 : UInt32
  p3 : UInt32
  integer : Bool
  deriving Repr, DecidableEq

/-- A fraction that rounds to one goes into the integer part. -/
def carry (a b : UInt64) : Checked (UInt64 × UInt64) :=
  if b = denom then do
    let a ← add a 1
    pure (a, 0)
  else pure (a, b)

/-- The numbers of the ratio `a + b/c`, where a whole ratio has denominator one. -/
def numbers (a b : UInt64) : Checked Parameters := do
  let c := if b = 0 then 1 else denom
  let b128 ← mul 128 b
  let fraction := b128 / c
  let a128 ← mul 128 a
  let sum ← add a128 fraction
  let p1 ← sub sum 512
  let whole ← mul c fraction
  let p2 ← sub b128 whole
  pure { p1 := p1.toUInt32, p2 := p2.toUInt32, p3 := c.toUInt32, integer := b == 0 && a &&& 1 == 0 }

/-- The numbers `parameters` encodes for its quotient. -/
def parameters (numerator denominator : UInt64) : Checked Parameters := do
  let a := numerator / denominator
  let scaled ← mul (numerator % denominator) denom
  let rounded ← add scaled (denominator / 2)
  let (a, b) ← carry a (rounded / denominator)
  numbers a b

/-- The eight bytes `parameters` leaves. -/
def Parameters.bytes (p : Parameters) : Vector UInt8 8 :=
  let bytes2 : UInt32 := (p.p1 >>> 16) &&& (3 : UInt32)
  let bytes5 : UInt32 := ((p.p3 >>> 12) &&& (0xf0 : UInt32)) ||| ((p.p2 >>> 16) &&& (15 : UInt32))
  #v[(p.p3 >>> 8).toUInt8, p.p3.toUInt8, bytes2.toUInt8, (p.p1 >>> 8).toUInt8, p.p1.toUInt8,
    bytes5.toUInt8, (p.p2 >>> 8).toUInt8, p.p2.toUInt8]

/-- `rr_si5351_plan_t`. -/
structure Plan where
  pll : Vector UInt8 8
  multisynth : Vector UInt8 8
  control : UInt8
  rDivider : UInt32
  deriving Repr, DecidableEq

/-- The PLL's ratio: the reference correction is factored out first, so that it is a quotient of
two words. -/
def pllParameters (c : Config) : Checked Parameters := do
  let numerator ← mul pllHz 1000000000
  let reference ← addSigned 1000000000 c.correctionPpb.toInt64
  parameters (numerator / c.crystalHz.toUInt64) reference.toUInt64

/-- The loop that doubles the frequency until the multisynth can divide down to it.  The bound on
the shift ends it: its condition is tested at most eight times. -/
def scale : Nat → UInt64 → UInt32 → Checked (UInt64 × UInt32)
  | 0, divided, shift => pure (divided, shift)
  | n + 1, divided, shift => do
      let reach ← mul 900 divided
      if pllHz > reach ∧ shift < 7 then do
        let divided ← mul divided 2
        scale n divided (shift + 1)
      else pure (divided, shift)

/-- The multisynth's ratio, with the shift of the output divider after it. -/
def multisynthParameters (hz : UInt32) : Checked (Parameters × UInt32) := do
  let (divided, shift) ← scale 8 hz.toUInt64 0
  let multisynth ← parameters pllHz divided
  pure (multisynth, shift)

/-- `rr_si5351_plan`. -/
def plan (c : Config) (hz : UInt32) : Option (Checked Plan) :=
  if !valid c || decide (hz < 8000) || decide (hz > 100000000) then none
  else some do
    let pll ← pllParameters c
    let (multisynth, shift) ← multisynthParameters hz
    pure
      { pll := pll.bytes
        multisynth := multisynth.bytes.set 2 (multisynth.bytes[2] ||| (shift <<< 4).toUInt8)
        rDivider := 1 <<< shift
        control := 0x0c ||| (if multisynth.integer then 0x40 else 0) ||| (c.driveMa / 2 - 1).toUInt8 }

/-- The registers of a synthesizer with the divider behind it. -/
def withDivider (bytes : Vector UInt8 8) (shift : UInt32) : Vector UInt8 8 :=
  bytes.set 2 (bytes[2] ||| (shift <<< 4).toUInt8)

/-! ### What the chip reads -/

/-- The three fields of a synthesizer, of 18, 20 and 20 bits. -/
def fieldP1 (r : Vector UInt8 8) : Nat :=
  r[2].toNat % 4 * 65536 + r[3].toNat * 256 + r[4].toNat

def fieldP2 (r : Vector UInt8 8) : Nat :=
  r[5].toNat % 16 * 65536 + r[6].toNat * 256 + r[7].toNat

def fieldP3 (r : Vector UInt8 8) : Nat :=
  r[5].toNat / 16 * 65536 + r[0].toNat * 256 + r[1].toNat

/-- The ratio of a synthesizer. -/
def ratio (r : Vector UInt8 8) : ℚ :=
  ((fieldP1 r : ℚ) + 512 + (fieldP2 r : ℚ) / (fieldP3 r : ℚ)) / 128

/-- The divider after a multisynth, from bits 4 to 6 of its third register. -/
def outputDivider (r : Vector UInt8 8) : Nat :=
  2 ^ (r[2].toNat / 16 % 8)

/-- Bit 6 of an output's control register puts its multisynth in integer mode. -/
def integerMode (control : UInt8) : Bool :=
  control &&& 0x40 != 0

/-- The crystal's frequency, as the correction describes it. -/
def reference (c : Config) : ℚ :=
  (c.crystalHz.toNat : ℚ) * (1 + (c.correctionPpb.toInt : ℚ) / 1000000000)

/-- The frequency at the output's pin. -/
def outputHz (c : Config) (p : Plan) : ℚ :=
  reference c * ratio p.pll / (ratio p.multisynth * (outputDivider p.multisynth : ℚ))

end Si5351

end RustyRig
