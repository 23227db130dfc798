/-
Machine arithmetic that notes whether it left its range.

Every operation computes what the machine does, so it wraps, and keeps beside the result
whether the sum, the difference or the product fitted the word.  A computation is in range if
all its operations were.  `Gives` is the rule of postconditions for such computations: in
range, and the result is as described.
-/
import Mathlib.Algebra.Group.Nat.Defs
import Mathlib.Algebra.Group.Int.Defs
import Mathlib.Logic.Basic

namespace RustyRig.Lib

variable {α β : Type} {P : α → Prop} {Q : β → Prop}

/-- A result and whether every operation on the way to it kept its range. -/
structure Checked (α : Type) where
  value : α
  inRange : Bool
  deriving Repr, DecidableEq

namespace Checked

instance : Monad Checked where
  pure a := ⟨a, true⟩
  bind m f := ⟨(f m.value).value, m.inRange && (f m.value).inRange⟩

def add (a b : UInt64) : Checked UInt64 := ⟨a + b, decide (a.toNat + b.toNat < 2 ^ 64)⟩

def sub (a b : UInt64) : Checked UInt64 := ⟨a - b, decide (b.toNat ≤ a.toNat)⟩

def mul (a b : UInt64) : Checked UInt64 := ⟨a * b, decide (a.toNat * b.toNat < 2 ^ 64)⟩

/-- The sum of signed words. -/
def addSigned (a b : Int64) : Checked Int64 :=
  ⟨a + b, decide (-2 ^ 63 ≤ a.toInt + b.toInt ∧ a.toInt + b.toInt < 2 ^ 63)⟩

/-- The computation keeps its range, and its result is as described. -/
def Gives (m : Checked α) (P : α → Prop) : Prop :=
  m.inRange = true ∧ P m.value

/-- A step that keeps its range hands on its result. -/
theorem bind_of_inRange {m : Checked α} {f : α → Checked β} (h : m.inRange = true) : (m >>= f) = f m.value := by
  change Checked.mk (f m.value).value (m.inRange && (f m.value).inRange) = f m.value
  rw [h, Bool.true_and]

theorem gives_pure {a : α} (h : P a) : Gives (pure a) P :=
  ⟨rfl, h⟩

theorem gives_bind {m : Checked α} {f : α → Checked β} (h : Gives m P)
    (hf : ∀ a, P a → Gives (f a) Q) : Gives (m >>= f) Q := by
  obtain ⟨hrange, hvalue⟩ := h
  obtain ⟨hrest, hresult⟩ := hf m.value hvalue
  refine ⟨?_, hresult⟩
  change (m.inRange && (f m.value).inRange) = true
  rw [hrange, hrest]
  rfl

theorem Gives.mono {m : Checked α} {P' : α → Prop} (h : Gives m P) (himp : ∀ a, P a → P' a) :
    Gives m P' :=
  ⟨h.1, himp _ h.2⟩

theorem gives_add {a b : UInt64} (h : a.toNat + b.toNat < 2 ^ 64) :
    Gives (add a b) fun v => v.toNat = a.toNat + b.toNat := by
  refine ⟨decide_eq_true h, ?_⟩
  change (a + b).toNat = _
  rw [UInt64.toNat_add, Nat.mod_eq_of_lt h]

theorem gives_sub {a b : UInt64} (h : b.toNat ≤ a.toNat) :
    Gives (sub a b) fun v => v.toNat = a.toNat - b.toNat :=
  ⟨decide_eq_true h, UInt64.toNat_sub_of_le _ _ (UInt64.le_iff_toNat_le.mpr h)⟩

theorem gives_mul {a b : UInt64} (h : a.toNat * b.toNat < 2 ^ 64) :
    Gives (mul a b) fun v => v.toNat = a.toNat * b.toNat := by
  refine ⟨decide_eq_true h, ?_⟩
  change (a * b).toNat = _
  rw [UInt64.toNat_mul, Nat.mod_eq_of_lt h]

theorem gives_addSigned {a b : Int64} (hlo : -2 ^ 63 ≤ a.toInt + b.toInt)
    (hhi : a.toInt + b.toInt < 2 ^ 63) :
    Gives (addSigned a b) fun v => v.toInt = a.toInt + b.toInt := by
  refine ⟨decide_eq_true ⟨hlo, hhi⟩, ?_⟩
  change (a + b).toInt = _
  rw [Int64.toInt_add]
  exact Int.bmod_eq_of_le (by omega) (by omega)

end Checked

end RustyRig.Lib
