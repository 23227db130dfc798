/-
The numbers of one synthesizer.

`parameters` encodes the fraction of denominator 1048575 nearest to its quotient, and no
intermediate result leaves its word (`parameters_spec`).  The numbers fit the fields of the chip,
which reads them back and makes that fraction of them (`Reads.ratio_eq`).
-/
import Mathlib.Tactic.NormNum
import RustyRig.Lib.Nearest
import RustyRig.Rrserver.Si5351

namespace RustyRig

namespace Si5351

open Lib Lib.Checked

variable {n d : UInt64} {p : Parameters} {t : Nat}

/-! ### One synthesizer -/

/-- The numbers stand for `t` units of the fraction's denominator. -/
structure Encodes (p : Parameters) (t : Nat) : Prop where
  /-- A whole ratio has denominator one. -/
  p3 : p.p3.toNat = if t % 1048575 = 0 then 1 else 1048575
  p1 : p.p1.toNat + 512 = 128 * (t / 1048575) + 128 * (t % 1048575) / p.p3.toNat
  p2 : p.p2.toNat = 128 * (t % 1048575) % p.p3.toNat
  integer : p.integer = true → t % 1048575 = 0 ∧ t / 1048575 % 2 = 0

/-- The numbers fit the fields of the chip. -/
structure Fits (p : Parameters) : Prop where
  p1 : p.p1.toNat < 2 ^ 18
  p2 : p.p2.toNat < p.p3.toNat
  p3 : p.p3.toNat < 2 ^ 20

theorem carry_spec {a b : UInt64} (ha : a.toNat < 2000) (hb : b.toNat ≤ 1048575) :
    Gives (carry a b) fun v =>
      v.1.toNat = (a.toNat * 1048575 + b.toNat) / 1048575 ∧
        v.2.toNat = (a.toNat * 1048575 + b.toNat) % 1048575 := by
  have hdenom : denom.toNat = 1048575 := rfl
  unfold carry
  split
  · rename_i hcarry
    have hfull : b.toNat = 1048575 := by rw [hcarry, hdenom]
    refine gives_bind (gives_add (b := 1) (by change a.toNat + 1 < _; omega)) fun v hv => ?_
    have hv' : v.toNat = a.toNat + 1 := hv
    refine gives_pure ⟨?_, ?_⟩
    · change v.toNat = _
      omega
    · change (0 : Nat) = _
      omega
  · rename_i hcarry
    have hless : b.toNat ≠ 1048575 := by
      intro heq
      exact hcarry (UInt64.toNat_inj.mp (heq.trans hdenom.symm))
    refine gives_pure ⟨?_, ?_⟩
    · dsimp only
      omega
    · dsimp only
      omega

theorem numbers_spec {a b : UInt64} (halo : 4 ≤ a.toNat) (ha : a.toNat ≤ 2000) (hb : b.toNat < 1048575) :
    Gives (numbers a b) fun p => Encodes p (a.toNat * 1048575 + b.toNat) := by
  have hdenom : denom.toNat = 1048575 := rfl
  have hwhole : (a.toNat * 1048575 + b.toNat) / 1048575 = a.toNat := by omega
  have hpart : (a.toNat * 1048575 + b.toNat) % 1048575 = b.toNat := by omega
  have h128 : (128 : UInt64).toNat = 128 := rfl
  have h512 : (512 : UInt64).toNat = 512 := rfl
  unfold numbers
  refine gives_bind (gives_mul (by rw [h128]; omega)) fun b128 hb128 => ?_
  rw [h128] at hb128
  refine gives_bind (gives_mul (by rw [h128]; omega)) fun a128 ha128 => ?_
  rw [h128] at ha128
  -- the denominator, and how many of it the scaled fraction holds
  obtain ⟨c, hc, hcnat⟩ : ∃ c, (if b = 0 then 1 else denom) = c ∧
      c.toNat = if b.toNat = 0 then 1 else 1048575 := by
    refine ⟨_, rfl, ?_⟩
    by_cases hzero : b = 0
    · rw [if_pos hzero, if_pos (by rw [hzero]; rfl)]
      rfl
    · have hnat : b.toNat ≠ 0 := fun h => hzero (UInt64.toNat_inj.mp h)
      rw [if_neg hzero, if_neg hnat, hdenom]
  rw [hc]
  have hfraction : (b128 / c).toNat = 128 * b.toNat / c.toNat := by
    rw [UInt64.toNat_div, hb128]
  have hdivision := Nat.div_add_mod (128 * b.toNat) c.toNat
  have hcle : c.toNat ≤ 1048575 := by
    rw [hcnat]
    split <;> omega
  have hsmall : 128 * b.toNat / c.toNat ≤ 128 * b.toNat := Nat.div_le_self _ _
  refine gives_bind (gives_add (by omega)) fun sum hsum => ?_
  refine gives_bind (gives_sub (by rw [h512]; omega)) fun p1 hp1 => ?_
  rw [h512] at hp1
  refine gives_bind (gives_mul (by rw [hfraction]; omega)) fun whole hwhole' => ?_
  refine gives_bind (gives_sub (by rw [hwhole', hfraction, hb128]; omega)) fun p2 hp2 => ?_
  rw [hfraction] at hsum hwhole'
  rw [hb128, hwhole'] at hp2
  refine gives_pure ⟨?_, ?_, ?_, ?_⟩
  · rw [hpart, UInt64.toNat_toUInt32, Nat.mod_eq_of_lt (by omega), hcnat]
  · rw [hpart, hwhole, UInt64.toNat_toUInt32, UInt64.toNat_toUInt32, Nat.mod_eq_of_lt (by omega),
      Nat.mod_eq_of_lt (a := c.toNat) (by omega)]
    omega
  · rw [hpart, UInt64.toNat_toUInt32, UInt64.toNat_toUInt32, Nat.mod_eq_of_lt (by omega),
      Nat.mod_eq_of_lt (a := c.toNat) (by omega)]
    omega
  · intro hinteger
    rw [hpart, hwhole]
    obtain ⟨hzero, heven⟩ := (Bool.and_eq_true _ _).mp hinteger
    refine ⟨congrArg UInt64.toNat (eq_of_beq hzero), ?_⟩
    have hmod := congrArg UInt64.toNat (eq_of_beq heven)
    rw [UInt64.toNat_and] at hmod
    exact (Nat.and_one_is_mod _).symm.trans hmod

theorem parameters_spec (hd : 0 < d.toNat) (hbound : d.toNat < 2 ^ 42)
    (hlo : 4 ≤ n.toNat / d.toNat) (hhi : n.toNat / d.toNat < 2000) :
    Gives (parameters n d) fun p => Encodes p (nearest n.toNat d.toNat 1048575) := by
  have hdenom : denom.toNat = 1048575 := rfl
  have hmod : n.toNat % d.toNat < d.toNat := Nat.mod_lt _ hd
  have hrounded := rounded_le (m := 1048575) hd n.toNat
  rw [nearest_split hd]
  unfold parameters
  have hscaled : (n % d).toNat * denom.toNat < 2 ^ 64 := by
    rw [UInt64.toNat_mod, hdenom]
    omega
  refine gives_bind (gives_mul hscaled) fun scaled hscaled => ?_
  rw [UInt64.toNat_mod, hdenom] at hscaled
  have hhalf : (d / 2).toNat = d.toNat / 2 := UInt64.toNat_div d 2
  refine gives_bind (gives_add (by omega)) fun rounded hround => ?_
  rw [hhalf, hscaled] at hround
  have hb : (rounded / d).toNat = (n.toNat % d.toNat * 1048575 + d.toNat / 2) / d.toNat := by
    rw [UInt64.toNat_div, hround]
  have ha : (n / d).toNat = n.toNat / d.toNat := UInt64.toNat_div n d
  refine gives_bind (carry_spec (by omega) (by omega)) fun v hv => ?_
  obtain ⟨a, b⟩ := v
  obtain ⟨hva, hvb⟩ := hv
  dsimp only at hva hvb ⊢
  rw [ha, hb] at hva hvb
  refine (numbers_spec (by omega) (by omega) (by omega)).mono fun p hp => ?_
  have hsum : a.toNat * 1048575 + b.toNat =
      n.toNat / d.toNat * 1048575 + (n.toNat % d.toNat * 1048575 + d.toNat / 2) / d.toNat := by
    omega
  rw [← hsum]
  exact hp

namespace Encodes

theorem pos_p3 (h : Encodes p t) : 0 < p.p3.toNat := by
  rw [h.p3]
  split <;> decide

theorem fits (h : Encodes p t) (ht : t / 1048575 < 2000) : Fits p := by
  have hpos := h.pos_p3
  have hle : p.p3.toNat ≤ 1048575 := by
    rw [h.p3]
    split <;> omega
  have hp1 := h.p1
  have hfraction : 128 * (t % 1048575) / p.p3.toNat ≤ 127 := by
    rw [h.p3]
    split
    · rename_i hzero
      rw [hzero]
      decide
    · omega
  refine ⟨by omega, ?_, by omega⟩
  rw [h.p2]
  exact Nat.mod_lt _ hpos

end Encodes

/-! ### The chip reads the numbers back -/

theorem toNat_byte (x : UInt32) (k : UInt32) (hk : k.toNat < 32) :
    (x >>> k).toUInt8.toNat = x.toNat / 2 ^ k.toNat % 256 := by
  rw [UInt32.toNat_toUInt8, UInt32.toNat_shiftRight, Nat.mod_eq_of_lt hk, Nat.shiftRight_eq_div_pow]

namespace Fits

theorem fieldP1_bytes (h : Fits p) : fieldP1 p.bytes = p.p1.toNat := by
  have hfit := h.p1
  have hbyte2 : ((p.p1 >>> 16) &&& (3 : UInt32)).toUInt8.toNat = p.p1.toNat / 65536 % 4 := by
    rw [UInt32.toNat_toUInt8, UInt32.toNat_and, UInt32.toNat_shiftRight, Nat.shiftRight_eq_div_pow]
    change (p.p1.toNat / 65536 &&& 2 ^ 2 - 1) % 256 = _
    rw [Nat.and_two_pow_sub_one_eq_mod]
    omega
  have hbyte3 : (p.p1 >>> 8).toUInt8.toNat = p.p1.toNat / 256 % 256 := toNat_byte p.p1 8 (by decide)
  have hbyte4 : p.p1.toUInt8.toNat = p.p1.toNat % 256 := UInt32.toNat_toUInt8 _
  change ((p.p1 >>> 16) &&& (3 : UInt32)).toUInt8.toNat % 4 * 65536 + (p.p1 >>> 8).toUInt8.toNat * 256 +
    p.p1.toUInt8.toNat = _
  rw [hbyte2, hbyte3, hbyte4]
  omega

/-- The fifth byte holds the upper bits of two numbers. -/
theorem byte5 (h : Fits p) (hp3 : p.p3.toNat = 1 ∨ p.p3.toNat = 1048575) :
    (p.bytes.get 5).toNat = p.p3.toNat / 65536 * 16 + p.p2.toNat / 65536 := by
  have hp2 : p.p2.toNat < 1048575 := by
    have hless := h.p2
    rcases hp3 with heq | heq <;> omega
  have hlow : ((p.p2 >>> 16) &&& (15 : UInt32)).toNat = p.p2.toNat / 65536 := by
    rw [UInt32.toNat_and, UInt32.toNat_shiftRight, Nat.shiftRight_eq_div_pow]
    change (p.p2.toNat / 65536 &&& 2 ^ 4 - 1) = _
    rw [Nat.and_two_pow_sub_one_eq_mod]
    omega
  have hhigh : ((p.p3 >>> 12) &&& (0xf0 : UInt32)).toNat = 2 ^ 4 * (p.p3.toNat / 65536) := by
    rcases hp3 with heq | heq
    · rw [show p.p3 = 1 from UInt32.toNat_inj.mp heq]
      rfl
    · rw [show p.p3 = 1048575 from UInt32.toNat_inj.mp heq]
      rfl
  change (((p.p3 >>> 12) &&& (0xf0 : UInt32)) ||| ((p.p2 >>> 16) &&& (15 : UInt32))).toUInt8.toNat = _
  have hlt : p.p2.toNat / 65536 < 2 ^ 4 := by omega
  rw [UInt32.toNat_toUInt8, UInt32.toNat_or, hlow, hhigh, ← Nat.two_pow_add_eq_or_of_lt hlt]
  rcases hp3 with heq | heq
  · rw [heq]
    omega
  · rw [heq]
    omega

theorem fieldP2_bytes (h : Fits p) (hp3 : p.p3.toNat = 1 ∨ p.p3.toNat = 1048575) :
    fieldP2 p.bytes = p.p2.toNat := by
  have hp2 : p.p2.toNat < 1048575 := by
    have hless := h.p2
    rcases hp3 with heq | heq <;> omega
  have hbyte6 : (p.p2 >>> 8).toUInt8.toNat = p.p2.toNat / 256 % 256 := toNat_byte p.p2 8 (by decide)
  have hbyte7 : p.p2.toUInt8.toNat = p.p2.toNat % 256 := UInt32.toNat_toUInt8 _
  change (p.bytes.get 5).toNat % 16 * 65536 + (p.p2 >>> 8).toUInt8.toNat * 256 + p.p2.toUInt8.toNat = _
  rw [h.byte5 hp3, hbyte6, hbyte7]
  omega

theorem fieldP3_bytes (h : Fits p) (hp3 : p.p3.toNat = 1 ∨ p.p3.toNat = 1048575) :
    fieldP3 p.bytes = p.p3.toNat := by
  have hp2 : p.p2.toNat < 1048575 := by
    have hless := h.p2
    rcases hp3 with heq | heq <;> omega
  have hbyte0 : (p.p3 >>> 8).toUInt8.toNat = p.p3.toNat / 256 % 256 := toNat_byte p.p3 8 (by decide)
  have hbyte1 : p.p3.toUInt8.toNat = p.p3.toNat % 256 := UInt32.toNat_toUInt8 _
  change (p.bytes.get 5).toNat / 16 * 65536 + (p.p3 >>> 8).toUInt8.toNat * 256 + p.p3.toUInt8.toNat = _
  rw [h.byte5 hp3, hbyte0, hbyte1]
  rcases hp3 with heq | heq <;> omega

end Fits

/-- The three fields of these registers are the numbers. -/
structure Reads (r : Vector UInt8 8) (p : Parameters) : Prop where
  p1 : fieldP1 r = p.p1.toNat
  p2 : fieldP2 r = p.p2.toNat
  p3 : fieldP3 r = p.p3.toNat

theorem Encodes.reads (h : Encodes p t) (ht : t / 1048575 < 2000) : Reads p.bytes p := by
  have hp3 : p.p3.toNat = 1 ∨ p.p3.toNat = 1048575 := by
    rw [h.p3]
    split
    · exact Or.inl rfl
    · exact Or.inr rfl
  have hfits := h.fits ht
  exact ⟨hfits.fieldP1_bytes, hfits.fieldP2_bytes hp3, hfits.fieldP3_bytes hp3⟩

/-- The ratio the chip makes of the numbers is the fraction they stand for. -/
theorem Reads.ratio_eq {r : Vector UInt8 8} (h : Reads r p) (henc : Encodes p t) :
    ratio r = (t : ℚ) / 1048575 := by
  have hpos : (0 : ℚ) < p.p3.toNat := by exact_mod_cast henc.pos_p3
  have hdivision := Nat.div_add_mod (128 * (t % 1048575)) p.p3.toNat
  have hp1 := henc.p1
  have hp2 := henc.p2
  -- in units of the denominator the three numbers add up to the fraction
  have htotal : (p.p1.toNat + 512) * p.p3.toNat + p.p2.toNat =
      128 * (t / 1048575 * p.p3.toNat + t % 1048575) := by
    rw [hp1, hp2, Nat.add_mul, Nat.mul_comm (128 * (t % 1048575) / p.p3.toNat), Nat.add_assoc, hdivision]
    ring
  have hscaled : (t / 1048575 * p.p3.toNat + t % 1048575) * 1048575 = t * p.p3.toNat := by
    have ht := Nat.div_add_mod t 1048575
    rw [henc.p3]
    split
    · rename_i hzero
      omega
    · omega
  have htotal' : ((p.p1.toNat : ℚ) + 512) * p.p3.toNat + p.p2.toNat =
      128 * ((t / 1048575 * p.p3.toNat + t % 1048575 : Nat) : ℚ) := by exact_mod_cast htotal
  have hscaled' : ((t / 1048575 * p.p3.toNat + t % 1048575 : Nat) : ℚ) * 1048575 = t * p.p3.toNat := by
    exact_mod_cast hscaled
  unfold ratio
  rw [h.p1, h.p2, h.p3, div_eq_div_iff (by norm_num) (by norm_num)]
  have hmul : ((p.p1.toNat : ℚ) + 512 + p.p2.toNat / p.p3.toNat) * p.p3.toNat =
      ((p.p1.toNat : ℚ) + 512) * p.p3.toNat + p.p2.toNat := by
    rw [add_mul, div_mul_cancel₀ _ hpos.ne']
  apply mul_right_cancel₀ hpos.ne'
  calc ((p.p1.toNat : ℚ) + 512 + p.p2.toNat / p.p3.toNat) * 1048575 * p.p3.toNat
      = ((p.p1.toNat : ℚ) + 512 + p.p2.toNat / p.p3.toNat) * p.p3.toNat * 1048575 := by ring
    _ = 128 * (((t / 1048575 * p.p3.toNat + t % 1048575 : Nat) : ℚ) * 1048575) := by
        rw [hmul, htotal']
        ring
    _ = (t : ℚ) * 128 * p.p3.toNat := by
        rw [hscaled']
        ring

/-! ### The output divider -/

/-- The divider's bits leave the fields of the synthesizer as they are. -/
theorem divider_byte {x : UInt8} {shift : UInt32} (hx : x.toNat < 4) (hshift : shift.toNat < 8) :
    (x ||| (shift <<< 4).toUInt8).toNat = shift.toNat * 16 + x.toNat := by
  have hhigh : (shift <<< 4).toUInt8.toNat = 2 ^ 4 * shift.toNat := by
    rw [UInt32.toNat_toUInt8, UInt32.toNat_shiftLeft]
    change shift.toNat <<< 4 % 2 ^ 32 % 256 = _
    rw [Nat.shiftLeft_eq]
    omega
  have hlt : x.toNat < 2 ^ 4 := by omega
  rw [UInt8.toNat_or, hhigh, Nat.or_comm, ← Nat.two_pow_add_eq_or_of_lt hlt]
  omega

theorem Reads.set_divider (h : Reads p.bytes p) (shift : UInt32) (hshift : shift.toNat < 8) :
    Reads (p.bytes.set 2 (p.bytes[2] ||| (shift <<< 4).toUInt8)) p ∧
      outputDivider (p.bytes.set 2 (p.bytes[2] ||| (shift <<< 4).toUInt8)) = 2 ^ shift.toNat := by
  have hbyte : (p.bytes[2]).toNat < 4 := by
    change ((p.p1 >>> 16) &&& (3 : UInt32)).toUInt8.toNat < 4
    rw [UInt32.toNat_toUInt8, UInt32.toNat_and]
    have hle := Nat.and_le_right (n := (p.p1 >>> 16).toNat) (m := (3 : UInt32).toNat)
    have h3 : (3 : UInt32).toNat = 3 := rfl
    omega
  have hor := divider_byte hbyte hshift
  refine ⟨⟨?_, h.p2, h.p3⟩, ?_⟩
  · rw [← h.p1]
    change (p.bytes[2] ||| (shift <<< 4).toUInt8).toNat % 4 * 65536 + _ + _ = (p.bytes[2]).toNat % 4 * 65536 + _ + _
    rw [hor]
    have hmod : (shift.toNat * 16 + (p.bytes[2]).toNat) % 4 = (p.bytes[2]).toNat % 4 := by omega
    rw [hmod]
    rfl
  · change 2 ^ ((p.bytes[2] ||| (shift <<< 4).toUInt8).toNat / 16 % 8) = _
    rw [hor]
    congr 1
    omega

end Si5351

end RustyRig
