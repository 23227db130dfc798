/-
The record of a clock generator.

The rule of the record is `Careful`: a write to the output-disable register turns on only outputs
that are tuned, and a write to an output's registers finds the output turned off.  What the chip
does follows from the rule alone (`programmed_of_lawful`): an output that is on has the registers
of a plan that was asked for.
-/
import Mathlib.Tactic.IntervalCases
import RustyRig.Lib.Chronicle
import RustyRig.Rrserver.Si5351Driver

namespace RustyRig

namespace Si5351

open Lib

variable {found : Nat → UInt8} {log : List Access} {a : Access} {c : Config} {hz : UInt32} {k o r : Nat}
  {v : UInt8}

/-! ### The bits of the output-disable register -/

theorem or_and_distrib (x y z : UInt8) : (x ||| y) &&& z = (x &&& z) ||| (y &&& z) := by
  apply UInt8.toBitVec_inj.mp
  simp only [UInt8.toBitVec_and, UInt8.toBitVec_or]
  exact BitVec.and_or_distrib_right

theorem all_off (hk : k < 3) : (0xff : UInt8) &&& bit k ≠ 0 := by
  interval_cases k <;> decide

theorem bit_and_bit (hk : k < 3) (ho : o < 3) : bit o &&& bit k = 0 ↔ k ≠ o := by
  interval_cases k <;> interval_cases o <;> decide

theorem not_bit_and_bit (hk : k < 3) (ho : o < 3) (hne : k ≠ o) : ~~~bit o &&& bit k = bit k := by
  revert hne
  interval_cases k <;> interval_cases o <;> decide

/-- The mask turns one output off and leaves the others. -/
theorem or_bit_and (hk : k < 3) (ho : o < 3) :
    (v ||| bit o) &&& bit k = 0 ↔ k ≠ o ∧ v &&& bit k = 0 := by
  rw [or_and_distrib, UInt8.or_eq_zero_iff, bit_and_bit hk ho]
  exact and_comm

theorem and_not_bit_and (hk : k < 3) (ho : o < 3) :
    (v &&& ~~~bit o) &&& bit k = 0 ↔ k = o ∨ v &&& bit k = 0 := by
  rw [UInt8.and_assoc]
  by_cases hne : k = o
  · rw [hne, UInt8.not_and_self, UInt8.and_zero]
    exact iff_of_true rfl (Or.inl rfl)
  · rw [not_bit_and_bit hk ho hne]
    exact ⟨Or.inr, fun h => h.resolve_left hne⟩

/-! ### The rule of the record -/

/-- A write to the output-disable register is one byte that turns on tuned outputs only; a write
to an output's registers finds it turned off. -/
def Careful (found : Nat → UInt8) (log : List Access) (a : Access) : Prop :=
  (a.aims 3 → ∃ v failed, a = .wrote 3 [v] failed ∧ ∀ k, k < 3 → v &&& bit k = 0 → Tuned log k) ∧
    ∀ k r, k < 3 → owns k r → a.aims r → device found log 3 &&& bit k ≠ 0

theorem careful_of_not_aims (h : ∀ r, ¬ a.aims r) : Careful found log a :=
  ⟨fun h3 => absurd h3 (h 3), fun _ r _ _ hr => absurd hr (h r)⟩

/-- The output-disable register belongs to no output. -/
theorem not_aims_of_owns {failed : Option Nat} (hr : owns k r) : ¬ (Access.wrote 3 [v] failed).aims r := by
  intro haims
  have haims' : 3 ≤ r ∧ r < 4 := haims
  unfold owns at hr
  omega

/-- A write of the output-disable register alone. -/
theorem careful_disable {failed : Option Nat} (h : ∀ k, k < 3 → v &&& bit k = 0 → Tuned log k) :
    Careful found log (.wrote 3 [v] failed) := by
  exact ⟨fun _ => ⟨v, failed, rfl, h⟩, fun k r hk hr haims => absurd haims (not_aims_of_owns hr)⟩

/-- A write above the output-disable register, to outputs that are off. -/
theorem careful_above {reg : Nat} {bytes : List UInt8} {failed : Option Nat} (hreg : 3 < reg)
    (h : ∀ k r, k < 3 → owns k r → reg ≤ r ∧ r < reg + bytes.length → device found log 3 &&& bit k ≠ 0) :
    Careful found log (.wrote reg bytes failed) := by
  refine ⟨fun haims => ?_, h⟩
  have haims' : reg ≤ 3 ∧ 3 < reg + bytes.length := haims
  omega

/-! ### What one access changes -/

theorem aims_of_reaches (h : a.reaches r) : a.aims r := by
  cases a with
  | begun c => exact h
  | asked o hz => exact h
  | read reg value => exact h
  | wrote reg bytes failed =>
      obtain ⟨hle, hlt⟩ : reg ≤ r ∧ r < reg + (bytes.take (failed.getD bytes.length)).length := h
      have htake := List.length_take_le' (failed.getD bytes.length) bytes
      exact ⟨hle, by omega⟩

/-- An access that leaves the chip's register alone. -/
theorem device_unreached (h : ¬ a.reaches r) : device found (a :: log) r = device found log r := by
  cases a with
  | begun c => rfl
  | asked o hz => rfl
  | read reg value => rfl
  | wrote reg bytes failed =>
      have hout : ¬ (reg ≤ r ∧ r < reg + (bytes.take (failed.getD bytes.length)).length) := h
      rw [device]
      split
      · rename_i hle
        rw [List.getElem?_eq_none (by omega), Option.getD_none]
      · rfl

theorem device_cons (h : ¬ a.aims r) : device found (a :: log) r = device found log r :=
  device_unreached fun hreaches => h (aims_of_reaches hreaches)

/-- A complete write leaves its bytes. -/
theorem device_wrote {reg : Nat} {bytes : List UInt8} {b : UInt8} (hb : bytes[r]? = some b) :
    device found (.wrote reg bytes none :: log) (reg + r) = b := by
  rw [device, if_pos (Nat.le_add_right reg r), Option.getD_none, List.take_length,
    Nat.add_sub_cancel_left, hb, Option.getD_some]

theorem fresh_cons (hbegun : ∀ c, a ≠ .begun c) (h : ¬ a.aims r) : fresh (a :: log) r = fresh log r := by
  cases a with
  | begun c => exact absurd rfl (hbegun c)
  | asked o hz => rfl
  | read reg value => rfl
  | wrote reg bytes failed => exact if_neg h

theorem fresh_wrote {reg : Nat} {bytes : List UInt8} {b : UInt8} (hb : bytes[r]? = some b) :
    fresh (.wrote reg bytes none :: log) (reg + r) = some b := by
  have hlt : r < bytes.length := by
    obtain ⟨hlt, -⟩ := List.getElem?_eq_some_iff.mp hb
    exact hlt
  rw [fresh, if_pos ⟨Nat.le_add_right reg r, by omega⟩, Nat.add_sub_cancel_left]
  exact hb

/-- A fresh register of the chip holds what was written. -/
theorem device_of_fresh {b : UInt8} : ∀ {l : List Access}, fresh l r = some b → device found l r = b
  | [], h => (Option.some_ne_none b h.symm).elim
  | .begun _ :: _, h => (Option.some_ne_none b h.symm).elim
  | .asked _ _ :: log, h => device_of_fresh (l := log) h
  | .read _ _ :: log, h => device_of_fresh (l := log) h
  | .wrote reg bytes failed :: log, h => by
      rw [fresh] at h
      split at h
      · rename_i haims
        cases failed with
        | some n => exact (Option.some_ne_none b h.symm).elim
        | none =>
            have hb : bytes[r - reg]? = some b := h
            have hr : r = reg + (r - reg) := by omega
            rw [hr]
            exact device_wrote hb
      · rename_i haims
        have hout : ¬ (Access.wrote reg bytes failed).aims r := haims
        rw [device_cons hout]
        exact device_of_fresh h

/-- An output stays tuned until the next start, the next request for it or the next write to one
of its registers. -/
theorem Tuned.cons (h : Tuned log k) (hbegun : ∀ c, a ≠ .begun c) (hasked : ∀ hz, a ≠ .asked k hz)
    (haims : ∀ r, owns k r → ¬ a.aims r) : Tuned (a :: log) k := by
  obtain ⟨c, hz, p, hbegun', hasked', hplan, hms, hcontrol⟩ := h
  refine ⟨c, hz, p, ?_, ?_, hplan, fun i hi => ?_, ?_⟩
  · cases a with
    | begun c' => exact absurd rfl (hbegun c')
    | asked o hz => exact hbegun'
    | read reg value => exact hbegun'
    | wrote reg bytes failed => exact hbegun'
  · cases a with
    | begun c' => exact absurd rfl (hbegun c')
    | asked o hz' =>
        have hne : o ≠ k := by
          intro heq
          exact hasked hz' (by rw [heq])
        exact (if_neg hne).trans hasked'
    | read reg value => exact hasked'
    | wrote reg bytes failed => exact hasked'
  · rw [fresh_cons hbegun (haims _ (Or.inr ⟨by omega, by omega⟩))]
    exact hms i hi
  · rw [fresh_cons hbegun (haims _ (Or.inl rfl))]
    exact hcontrol

/-! ### What the chip does -/

theorem mem_of_begunWith : ∀ {l : List Access}, begunWith l = some c → .begun c ∈ l
  | [], h => (Option.some_ne_none c h.symm).elim
  | .begun c' :: log, h => by
      have heq : c' = c := Option.some.inj h
      rw [heq]
      exact List.mem_cons_self
  | .asked _ _ :: log, h => List.mem_cons_of_mem _ (mem_of_begunWith (l := log) h)
  | .read _ _ :: log, h => List.mem_cons_of_mem _ (mem_of_begunWith (l := log) h)
  | .wrote _ _ _ :: log, h => List.mem_cons_of_mem _ (mem_of_begunWith (l := log) h)

theorem mem_of_lastAsked : ∀ {l : List Access}, lastAsked l k = some hz → .asked k hz ∈ l
  | [], h => (Option.some_ne_none hz h.symm).elim
  | .begun _ :: _, h => (Option.some_ne_none hz h.symm).elim
  | .asked o hz' :: log, h => by
      rw [lastAsked] at h
      split at h
      · rename_i heq
        have hhz : hz' = hz := Option.some.inj h
        rw [heq, hhz]
        exact List.mem_cons_self
      · exact List.mem_cons_of_mem _ (mem_of_lastAsked h)
  | .read _ _ :: log, h => List.mem_cons_of_mem _ (mem_of_lastAsked (l := log) h)
  | .wrote _ _ _ :: log, h => List.mem_cons_of_mem _ (mem_of_lastAsked (l := log) h)

/-- The chip's registers for the output are those of the plan of a frequency requested of it. -/
def Programmed (found : Nat → UInt8) (log : List Access) (k : Nat) : Prop :=
  ∃ c hz p, .begun c ∈ log ∧ .asked k hz ∈ log ∧ plan c hz = some p ∧
    (∀ i (hi : i < 8), device found log (42 + 8 * k + i) = p.value.multisynth[i]) ∧
    device found log (16 + k) = p.value.control

theorem Tuned.programmed (h : Tuned log k) : Programmed found log k := by
  obtain ⟨c, hz, p, hbegun, hasked, hplan, hms, hcontrol⟩ := h
  exact ⟨c, hz, p, mem_of_begunWith hbegun, mem_of_lastAsked hasked, hplan,
    fun i hi => device_of_fresh (hms i hi), device_of_fresh hcontrol⟩

theorem Programmed.cons (h : Programmed found log k) (haims : ∀ r, owns k r → ¬ a.aims r) :
    Programmed found (a :: log) k := by
  obtain ⟨c, hz, p, hbegun, hasked, hplan, hms, hcontrol⟩ := h
  refine ⟨c, hz, p, List.mem_cons_of_mem a hbegun, List.mem_cons_of_mem a hasked, hplan, fun i hi => ?_, ?_⟩
  · rw [device_cons (haims _ (Or.inr ⟨by omega, by omega⟩))]
    exact hms i hi
  · rw [device_cons (haims _ (Or.inl rfl))]
    exact hcontrol

/-- A record that keeps the rule leaves no output on with other registers than its own plan's. -/
theorem programmed_of_lawful (h : Lawful (Careful found) log) (hk : k < 3)
    (hon : device found log 3 &&& bit k = 0) : (∀ a ∈ log, ¬ a.reaches 3) ∨ Programmed found log k := by
  induction log with
  | nil => exact Or.inl fun a ha => absurd ha List.not_mem_nil
  | cons a log ih =>
      obtain ⟨hthree, howned⟩ := h.head
      by_cases hreaches : a.reaches 3
      · -- the register got a value that turns on tuned outputs only
        obtain ⟨v, failed, rfl, htuned⟩ := hthree (aims_of_reaches hreaches)
        have htaken : [v].take (failed.getD 1) = [v] := by
          obtain ⟨-, hlt⟩ : 3 ≤ 3 ∧ 3 < 3 + ([v].take (failed.getD 1)).length := hreaches
          rw [List.length_take, List.length_singleton] at hlt
          exact List.take_of_length_le (by rw [List.length_singleton]; omega)
        have hvalue : device found (.wrote 3 [v] failed :: log) 3 = v := by
          rw [device, if_pos (Nat.le_refl 3)]
          change (([v].take (failed.getD 1))[0]?).getD _ = v
          rw [htaken]
          rfl
        rw [hvalue] at hon
        exact Or.inr ((htuned k hk hon).programmed.cons fun r hr => not_aims_of_owns hr)
      · rw [device_unreached hreaches] at hon
        rcases ih h.tail hon with huntouched | hprogrammed
        · left
          intro b hb
          rcases List.mem_cons.mp hb with rfl | hb
          · exact hreaches
          · exact huntouched b hb
        · exact Or.inr (hprogrammed.cons fun r hr haims => howned k r hk hr haims hon)

end Si5351

end RustyRig
