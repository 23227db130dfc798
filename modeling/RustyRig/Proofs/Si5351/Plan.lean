/-
Correctness of the frequency plan.

The PLL's rounding and the multisynth's together move the output by less than 8 Hz, and with both
dividers in their ranges that is the error of the plan (`plan_accuracy`).
-/
import Mathlib.Tactic.IntervalCases
import RustyRig.Proofs.Si5351.Synthesizer

namespace RustyRig

namespace Si5351

open Lib Lib.Checked

variable {c : Config} {hz : UInt32}

/-! ### The doubling loop -/

/-- What the doubling loop leaves. -/
structure Scaled (hz : Nat) (v : UInt64 × UInt32) : Prop where
  shift : v.2.toNat ≤ 7
  divided : v.1.toNat = hz * 2 ^ v.2.toNat
  reached : 1000000 ≤ v.1.toNat
  le : v.1.toNat ≤ 100000000

theorem scale_spec (hlo : 8000 ≤ hz.toNat) :
    ∀ (i : Nat) (divided : UInt64) (shift : UInt32), i + shift.toNat = 8 → shift.toNat ≤ 7 →
      divided.toNat = hz.toNat * 2 ^ shift.toNat → divided.toNat ≤ 100000000 →
      Gives (scale i divided shift) (Scaled hz.toNat)
  | 0, divided, shift, hi, hshift, _, _ => by omega
  | i + 1, divided, shift, hi, hshift, hdivided, hle => by
      have h900 : (900 : UInt64).toNat = 900 := rfl
      have h2 : (2 : UInt64).toNat = 2 := rfl
      have hpll : pllHz.toNat = 900000000 := rfl
      have h7 : (7 : UInt32).toNat = 7 := rfl
      unfold scale
      refine gives_bind (gives_mul (by rw [h900]; omega)) fun reach hreach => ?_
      rw [h900] at hreach
      split
      · rename_i hmore
        obtain ⟨hshort, hless⟩ := hmore
        have hshort' : reach.toNat < 900000000 := hpll ▸ UInt64.lt_iff_toNat_lt.mp hshort
        have hless' : shift.toNat < 7 := h7 ▸ UInt32.lt_iff_toNat_lt.mp hless
        have hnext : (shift + 1).toNat = shift.toNat + 1 := by
          rw [UInt32.toNat_add]
          change (shift.toNat + 1) % 2 ^ 32 = _
          omega
        refine gives_bind (gives_mul (by rw [h2]; omega)) fun doubled hdoubled => ?_
        rw [h2] at hdoubled
        refine scale_spec hlo i doubled (shift + 1) (by omega) (by omega) ?_ (by omega)
        rw [hdoubled, hdivided, hnext, Nat.pow_succ, Nat.mul_assoc]
      · rename_i hdone
        refine gives_pure ⟨hshift, hdivided, ?_, hle⟩
        by_cases hless : shift < 7
        · have hreached : ¬ pllHz > reach := fun h => hdone ⟨h, hless⟩
          have hreached' : ¬ reach.toNat < pllHz.toNat := fun h => hreached (UInt64.lt_iff_toNat_lt.mpr h)
          dsimp only
          omega
        · have hseven : ¬ shift.toNat < 7 := fun h => hless (UInt32.lt_iff_toNat_lt.mpr (h7.symm ▸ h))
          have heq : shift.toNat = 7 := by omega
          dsimp only
          rw [hdivided, heq]
          omega

/-! ### The two synthesizers of a plan -/

/-- The parts of `valid` that the arithmetic rests on. -/
structure Valid (c : Config) : Prop where
  crystal : c.crystalHz = 25000000 ∨ c.crystalHz = 27000000
  low : -100000 ≤ c.correctionPpb.toInt
  high : c.correctionPpb.toInt ≤ 100000
  driveLow : 2 ≤ c.driveMa.toNat
  driveHigh : c.driveMa.toNat ≤ 8

theorem Valid.of_valid (h : valid c = true) : Valid c := by
  unfold valid at h
  simp only [Bool.and_eq_true, Bool.or_eq_true, decide_eq_true_eq, beq_iff_eq] at h
  obtain ⟨⟨⟨⟨⟨⟨hcrystal, hlow⟩, hhigh⟩, -⟩, hdriveLow⟩, hdriveHigh⟩, -⟩ := h
  exact ⟨hcrystal, Int32.le_iff_toInt_le.mp hlow, Int32.le_iff_toInt_le.mp hhigh,
    UInt32.le_iff_toNat_le.mp hdriveLow, UInt32.le_iff_toNat_le.mp hdriveHigh⟩

/-- The corrected reference, in parts per billion of the crystal. -/
def parts (c : Config) : Nat := (1000000000 + c.correctionPpb.toInt).toNat

theorem Valid.parts_bounds (h : Valid c) : 999900000 ≤ parts c ∧ parts c ≤ 1000100000 := by
  have hlow := h.low
  have hhigh := h.high
  unfold parts
  omega

theorem Valid.reference_eq (h : Valid c) :
    reference c = (c.crystalHz.toNat : ℚ) * parts c / 1000000000 := by
  have hlow := h.low
  have hparts : ((parts c : Nat) : Int) = 1000000000 + c.correctionPpb.toInt := Int.toNat_of_nonneg (by omega)
  have hparts' : ((parts c : Nat) : ℚ) = 1000000000 + (c.correctionPpb.toInt : ℚ) := by
    exact_mod_cast congrArg (Int.cast (R := ℚ)) hparts
  rw [reference, hparts']
  field_simp

/-- The reference factored out of the PLL's frequency, in parts per billion. -/
def factored (c : Config) : Nat := 900000000000000000 / c.crystalHz.toNat

theorem Valid.quotient_bounds (h : Valid c) :
    4 ≤ factored c / parts c ∧ factored c / parts c < 1000 := by
  obtain ⟨hpartsLow, hpartsHigh⟩ := h.parts_bounds
  rw [Nat.le_div_iff_mul_le (by omega), Nat.div_lt_iff_lt_mul (by omega)]
  unfold factored
  rcases h.crystal with hc | hc
  · rw [hc]
    change 4 * parts c ≤ 900000000000000000 / 25000000 ∧ 900000000000000000 / 25000000 < 1000 * parts c
    omega
  · rw [hc]
    change 4 * parts c ≤ 900000000000000000 / 27000000 ∧ 900000000000000000 / 27000000 < 1000 * parts c
    omega

theorem pllParameters_spec (h : Valid c) :
    Gives (pllParameters c) fun p => Encodes p (nearest (factored c) (parts c) 1048575) := by
  have hlow := h.low
  have hhigh := h.high
  obtain ⟨hpartsLow, hpartsHigh⟩ := h.parts_bounds
  have hpll : pllHz.toNat = 900000000 := rfl
  have hbillion : (1000000000 : UInt64).toNat = 1000000000 := rfl
  have hbillion' : (1000000000 : Int64).toInt = 1000000000 := rfl
  unfold pllParameters
  refine gives_bind (gives_mul (by rw [hpll, hbillion]; omega)) fun numerator hnumerator => ?_
  rw [hpll, hbillion] at hnumerator
  refine gives_bind (gives_addSigned ?_ ?_) fun ref href => ?_
  · rw [hbillion', Int32.toInt_toInt64]
    omega
  · rw [hbillion', Int32.toInt_toInt64]
    omega
  rw [hbillion', Int32.toInt_toInt64] at href
  have hnonneg : 0 ≤ ref := by
    rw [Int64.le_iff_toInt_le, href]
    change (0 : Int) ≤ _
    omega
  have hd : ref.toUInt64.toNat = parts c := by
    rw [Int64.toNat_toUInt64_of_le hnonneg, parts, ← href]
    rfl
  have hn : (numerator / c.crystalHz.toUInt64).toNat = factored c := by
    rw [UInt64.toNat_div, hnumerator, UInt32.toNat_toUInt64]
    rfl
  obtain ⟨hquotient, hquotient'⟩ := h.quotient_bounds
  rw [← hn, ← hd] at hquotient hquotient' ⊢
  exact parameters_spec (by omega) (by omega) hquotient (by omega)

theorem multisynthParameters_spec (hlo : 8000 ≤ hz.toNat) (hhi : hz.toNat ≤ 100000000) :
    Gives (multisynthParameters hz) fun v => ∃ divided, Scaled hz.toNat (divided, v.2) ∧
      Encodes v.1 (nearest 900000000 divided.toNat 1048575) := by
  have hpll : pllHz.toNat = 900000000 := rfl
  unfold multisynthParameters
  refine gives_bind (scale_spec hlo 8 hz.toUInt64 0 rfl (by decide) ?_ ?_) fun v hscaled => ?_
  · rw [UInt32.toNat_toUInt64]
    exact (Nat.mul_one _).symm
  · rw [UInt32.toNat_toUInt64]
    exact hhi
  obtain ⟨divided, shift⟩ := v
  have hreached : 1000000 ≤ divided.toNat := hscaled.reached
  have hle : divided.toNat ≤ 100000000 := hscaled.le
  have hquotient : 4 ≤ pllHz.toNat / divided.toNat ∧ pllHz.toNat / divided.toNat < 2000 := by
    rw [Nat.le_div_iff_mul_le (by omega), Nat.div_lt_iff_lt_mul (by omega)]
    omega
  refine gives_bind (parameters_spec (by omega) (by omega) hquotient.1 hquotient.2) fun p hp => ?_
  exact gives_pure ⟨divided, hscaled, hp⟩

/-! ### The error of a plan -/

/-- The PLL runs within 13 Hz of its nominal frequency. -/
theorem Valid.abs_pll_sub_le (h : Valid c) :
    |reference c * ((nearest (factored c) (parts c) 1048575 : ℚ) / 1048575) - 900000000| ≤ 13 := by
  obtain ⟨hpartsLow, hpartsHigh⟩ := h.parts_bounds
  have hparts : (0 : ℚ) < parts c := by exact_mod_cast (by omega : 0 < parts c)
  have hpartsHigh' : (parts c : ℚ) ≤ 1000100000 := by exact_mod_cast hpartsHigh
  have hnearest := abs_nearest_sub_le (n := factored c) (d := parts c) (m := 1048575) (by omega) (by decide)
  rw [Nat.cast_ofNat] at hnearest
  -- the factored reference loses less than one part
  have hfactored : ((c.crystalHz.toNat : ℚ) = 25000000 ∧ (factored c : ℚ) = 36000000000) ∨
      ((c.crystalHz.toNat : ℚ) = 27000000 ∧ (factored c : ℚ) = 33333333333) := by
    rcases h.crystal with hc | hc
    · refine Or.inl ⟨by rw [hc]; rfl, ?_⟩
      rw [factored, hc]
      rfl
    · refine Or.inr ⟨by rw [hc]; rfl, ?_⟩
      rw [factored, hc]
      rfl
  rw [h.reference_eq]
  set x : ℚ := (nearest (factored c) (parts c) 1048575 : ℚ) / 1048575 with hx
  obtain ⟨hlow, hhigh⟩ := abs_le.mp hnearest
  -- the ratio times the parts is the factored reference, within half a unit
  have hscaledLow : (factored c : ℚ) - parts c / 2097150 ≤ x * parts c := by
    have hle : (factored c : ℚ) / parts c - 1 / 2097150 ≤ x := by linarith
    have hmul := mul_le_mul_of_nonneg_right hle hparts.le
    rw [sub_mul, div_mul_cancel₀ _ hparts.ne'] at hmul
    linarith
  have hscaledHigh : x * parts c ≤ (factored c : ℚ) + parts c / 2097150 := by
    have hle : x ≤ (factored c : ℚ) / parts c + 1 / 2097150 := by linarith
    have hmul := mul_le_mul_of_nonneg_right hle hparts.le
    rw [add_mul, div_mul_cancel₀ _ hparts.ne'] at hmul
    linarith
  rw [abs_le]
  rcases hfactored with ⟨hcrystal, hn⟩ | ⟨hcrystal, hn⟩
  · rw [hcrystal]
    rw [hn] at hscaledLow hscaledHigh
    constructor
    · linarith
    · linarith
  · rw [hcrystal]
    rw [hn] at hscaledLow hscaledHigh
    constructor
    · linarith
    · linarith

/-- The multisynth's ratio keeps the range of its quotient. -/
theorem multisynth_bounds {d : Nat} (hlo : 1000000 ≤ d) (hhi : d ≤ 100000000) :
    9 * 1048575 ≤ nearest 900000000 d 1048575 ∧ nearest 900000000 d 1048575 ≤ 900 * 1048575 := by
  constructor
  · rw [nearest, Nat.le_div_iff_mul_le (by omega)]
    omega
  · rw [nearest, ← Nat.lt_succ_iff, Nat.div_lt_iff_lt_mul (by omega)]
    omega

/-- Both roundings together move the output by less than 8 Hz. -/
theorem abs_output_sub_le {f m d hz r : ℚ} (hf : |f - 900000000| ≤ 13)
    (hm : |m - 900000000 / d| ≤ 1 / 2097150) (hm9 : 9 ≤ m) (hr : 1 ≤ r)
    (hd : d = hz * r) (hpos : 0 < d) (hle : d ≤ 100000000) :
    |f / (m * r) - hz| < 8 := by
  have hmr : 9 ≤ m * r := by nlinarith
  have hmr' : 0 < m * r := by linarith
  have hdiff : f / (m * r) - hz = (f - m * d) / (m * r) := by
    rw [hd]
    field_simp
  obtain ⟨hflow, hfhigh⟩ := abs_le.mp hf
  obtain ⟨hmlow, hmhigh⟩ := abs_le.mp hm
  have hlow : 900000000 - d / 2097150 ≤ m * d := by
    have hmul := mul_le_mul_of_nonneg_right (by linarith : 900000000 / d - 1 / 2097150 ≤ m) hpos.le
    rw [sub_mul, div_mul_cancel₀ _ hpos.ne'] at hmul
    linarith
  have hhigh : m * d ≤ 900000000 + d / 2097150 := by
    have hmul := mul_le_mul_of_nonneg_right (by linarith : m ≤ 900000000 / d + 1 / 2097150) hpos.le
    rw [add_mul, div_mul_cancel₀ _ hpos.ne'] at hmul
    linarith
  rw [hdiff, abs_div, abs_of_pos hmr', div_lt_iff₀ hmr']
  have hnumerator : |f - m * d| ≤ 61 := by
    rw [abs_le]
    constructor
    · linarith
    · linarith
  linarith

/-- Only an even integer ratio sets the bit. -/
theorem integerMode_control {drive : UInt32} {whole : Bool} (hlo : 2 ≤ drive.toNat) (hhi : drive.toNat ≤ 8)
    (h : integerMode (0x0c ||| (if whole then 0x40 else 0) ||| (drive / 2 - 1).toUInt8) = true) :
    whole = true := by
  cases whole with
  | true => rfl
  | false =>
      obtain ⟨k, hk⟩ : ∃ k, drive.toNat = k := ⟨_, rfl⟩
      have hdrive : drive = UInt32.ofNat k := by rw [← hk, UInt32.ofNat_toNat]
      rw [hk] at hlo hhi
      rw [hdrive] at h
      revert h
      interval_cases k <;> decide

/-- The parts a plan is put together from. -/
structure Planned (c : Config) (hz : UInt32) (p : Plan) : Prop where
  accepted : plan c hz = some ⟨p, true⟩
  pll : p.pll = (pllParameters c).value.bytes
  multisynth : p.multisynth = withDivider (multisynthParameters hz).value.1.bytes (multisynthParameters hz).value.2
  rDivider : p.rDivider = 1 <<< (multisynthParameters hz).value.2
  control : p.control = 0x0c ||| (if (multisynthParameters hz).value.1.integer then 0x40 else 0) |||
    (c.driveMa / 2 - 1).toUInt8

theorem plan_eq {pll : Checked Parameters} {m : Checked (Parameters × UInt32)} (hplls : pllParameters c = pll)
    (hm : multisynthParameters hz = m) (hpll : pll.inRange = true) (hms : m.inRange = true) (hvalid : valid c = true)
    (hlo : 8000 ≤ hz) (hhi : hz ≤ 100000000) :
    plan c hz = some
      ⟨{ pll := pll.value.bytes
         multisynth := withDivider m.value.1.bytes m.value.2
         rDivider := 1 <<< m.value.2
         control := 0x0c ||| (if m.value.1.integer then 0x40 else 0) ||| (c.driveMa / 2 - 1).toUInt8 }, true⟩ := by
  have hlow : decide (hz < 8000) = false := decide_eq_false (UInt32.not_lt.mpr hlo)
  have hhigh : decide (hz > 100000000) = false := decide_eq_false (UInt32.not_lt.mpr hhi)
  rw [plan, hvalid, hlow, hhigh, if_neg (by decide), hplls, hm, Checked.bind_of_inRange hpll,
    Checked.bind_of_inRange hms]
  rfl

theorem exists_planned (hvalid : valid c = true) (hlo : 8000 ≤ hz) (hhi : hz ≤ 100000000) :
    ∃ p, Planned c hz p := by
  obtain ⟨hpll, -⟩ := pllParameters_spec (Valid.of_valid hvalid)
  obtain ⟨hms, -⟩ := multisynthParameters_spec (UInt32.le_iff_toNat_le.mp hlo) (UInt32.le_iff_toNat_le.mp hhi)
  exact ⟨_, plan_eq rfl rfl hpll hms hvalid hlo hhi, rfl, rfl, rfl, rfl⟩

/-- **The frequency plan**: for a valid configuration and a frequency of the accepted range the
plan is computed without leaving 64 bits, and its registers decode to an output within 8 Hz of the
request, with all numbers in their fields and both dividers in their ranges. -/
theorem plan_accuracy (hvalid : valid c = true) (hlo : 8000 ≤ hz) (hhi : hz ≤ 100000000) :
    ∃ p, plan c hz = some ⟨p, true⟩ ∧
      |outputHz c p - hz.toNat| < 8 ∧
      (Fits (pllParameters c).value ∧ Reads p.pll (pllParameters c).value) ∧
      (Fits (multisynthParameters hz).value.1 ∧ Reads p.multisynth (multisynthParameters hz).value.1) ∧
      (9 ≤ ratio p.multisynth ∧ ratio p.multisynth ≤ 900) ∧
      (∃ k, k ≤ 7 ∧ outputDivider p.multisynth = 2 ^ k ∧ p.rDivider.toNat = 2 ^ k) ∧
      (integerMode p.control = true → ∃ k : Nat, ratio p.multisynth = 2 * k) := by
  have hv := Valid.of_valid hvalid
  obtain ⟨-, hpll⟩ := pllParameters_spec hv
  obtain ⟨-, divided, hscaled, hms⟩ :=
    multisynthParameters_spec (UInt32.le_iff_toNat_le.mp hlo) (UInt32.le_iff_toNat_le.mp hhi)
  obtain ⟨p, hp⟩ := exists_planned hvalid hlo hhi
  have hreached : 1000000 ≤ divided.toNat := hscaled.reached
  have hle : divided.toNat ≤ 100000000 := hscaled.le
  obtain ⟨hmsLow, hmsHigh⟩ := multisynth_bounds hreached hle
  have hshift : (multisynthParameters hz).value.2.toNat ≤ 7 := hscaled.shift
  obtain ⟨hpartsLow, -⟩ := hv.parts_bounds
  obtain ⟨-, hquotient⟩ := hv.quotient_bounds
  have hpllSmall := nearest_div_le (m := 1048575) (by omega : 0 < parts c) (factored c)
  have hpllReads := hpll.reads (by omega)
  have hmsReads := hms.reads (by omega)
  obtain ⟨hreads, hdivider⟩ := hmsReads.set_divider (multisynthParameters hz).value.2 (by omega)
  rw [← hp.pll] at hpllReads
  change Reads (withDivider _ _) _ at hreads
  change outputDivider (withDivider _ _) = _ at hdivider
  rw [← hp.multisynth] at hreads hdivider
  have hpllRatio := hpllReads.ratio_eq hpll
  have hratio := hreads.ratio_eq hms
  have hlow : 9 ≤ ratio p.multisynth := by
    rw [hratio, le_div_iff₀ (by norm_num)]
    exact_mod_cast hmsLow
  refine ⟨p, hp.accepted, ?_, ⟨hpll.fits (by omega), hpllReads⟩, ⟨hms.fits (by omega), hreads⟩,
    ⟨hlow, ?_⟩, ⟨_, hshift, hdivider, ?_⟩, ?_⟩
  · -- the output is the PLL's frequency over both dividers
    have hnearest := abs_nearest_sub_le (n := 900000000) (d := divided.toNat) (m := 1048575)
      (by omega) (by decide)
    have hpos : (0 : ℚ) < divided.toNat := by exact_mod_cast (by omega : 0 < divided.toNat)
    refine abs_output_sub_le (d := divided.toNat) ?_ ?_ hlow ?_ ?_ hpos (by exact_mod_cast hle)
    · rw [hpllRatio]
      exact hv.abs_pll_sub_le
    · rw [hratio]
      push_cast at hnearest
      norm_num at hnearest ⊢
      exact hnearest
    · exact_mod_cast hdivider ▸ Nat.one_le_two_pow
    · rw [hdivider]
      exact_mod_cast hscaled.divided
  · rw [hratio, div_le_iff₀ (by norm_num)]
    exact_mod_cast hmsHigh
  · rw [hp.rDivider, UInt32.toNat_shiftLeft]
    change 1 <<< ((multisynthParameters hz).value.2.toNat % 32) % 2 ^ 32 = _
    rw [Nat.mod_eq_of_lt (by omega : (multisynthParameters hz).value.2.toNat < 32), Nat.one_shiftLeft]
    exact Nat.mod_eq_of_lt (Nat.pow_lt_pow_right (by decide) (by omega))
  · intro hinteger
    rw [hp.control] at hinteger
    obtain ⟨hwhole, heven⟩ := hms.integer (integerMode_control hv.driveLow hv.driveHigh hinteger)
    refine ⟨nearest 900000000 divided.toNat 1048575 / 1048575 / 2, ?_⟩
    have htotal : nearest 900000000 divided.toNat 1048575 =
        2 * (nearest 900000000 divided.toNat 1048575 / 1048575 / 2) * 1048575 := by omega
    rw [hratio, div_eq_iff (by norm_num)]
    exact_mod_cast htotal

/-- A synthesizer at a frequency with a fractional ratio. -/
theorem plan_accuracy_14074000 :
    ∃ p, plan ⟨27000000, -12345, 10, 8⟩ 14074000 = some ⟨p, true⟩ ∧
      |outputHz ⟨27000000, -12345, 10, 8⟩ p - (14074000 : UInt32).toNat| < 8 := by
  obtain ⟨p, hp, herror, -⟩ :=
    @plan_accuracy ⟨27000000, -12345, 10, 8⟩ 14074000 (by decide) (by decide) (by decide)
  exact ⟨p, hp, herror⟩

end Si5351

end RustyRig
