/-
How coordinates are written, and what is read of them.

`Written` is a coordinate with all that the reader of the configuration lets pass: blanks on both
sides and a sign.  `coordinate` takes exactly these (`coordinate_sound`, `coordinate_text`).  The
receiver's minutes go through the same reader, so a field may have a blank or a sign where the
protocol wants a digit; only those are read besides the fields of the protocol.
-/
import RustyRig.Lib.Nearest
import RustyRig.Lib.Numeral
import RustyRig.Rrserver.Gps

namespace RustyRig

namespace Gps

open Lib
open Lib.Scanf (blank)

variable {m n v k : Nat} {s ds rest : Text} {fraction : Option Text}

/-! ### The loops -/

theorem takeWhile_run {p : Char → Bool} (hds : ∀ c ∈ ds, p c = true) (hrest : rest.head?.any p = false) :
    (ds ++ rest).takeWhile p = ds := by
  rw [List.takeWhile_append_of_pos hds]
  cases rest with
  | nil => rw [List.takeWhile_nil, List.append_nil]
  | cons c rest =>
      have hc : p c = false := hrest
      rw [List.takeWhile_cons_of_neg (ne_of_eq_of_ne hc Bool.false_ne_true), List.append_nil]

theorem dropWhile_run {p : Char → Bool} (hds : ∀ c ∈ ds, p c = true) (hrest : rest.head?.any p = false) :
    (ds ++ rest).dropWhile p = rest := by
  rw [List.dropWhile_append_of_pos hds]
  cases rest with
  | nil => exact List.dropWhile_nil
  | cons c rest =>
      have hc : p c = false := hrest
      exact List.dropWhile_cons_of_neg (ne_of_eq_of_ne hc Bool.false_ne_true)

theorem wholeLoop_eq : ∀ v, v ≤ m → wholeLoop m v s =
    if Nat.ofDigitChars 10 (s.takeWhile Char.isDigit) v ≤ m then
      some (Nat.ofDigitChars 10 (s.takeWhile Char.isDigit) v, s.dropWhile Char.isDigit)
    else none := by
  induction s with
  | nil =>
      intro v hv
      rw [wholeLoop, List.takeWhile_nil, Nat.ofDigitChars_nil, if_pos hv, List.dropWhile_nil]
  | cons c s ih =>
      intro v hv
      rw [wholeLoop]
      by_cases hc : c.isDigit = true
      · rw [if_pos hc, List.takeWhile_cons_of_pos hc, List.dropWhile_cons_of_pos hc, Nat.ofDigitChars_cons, Nat.mul_comm 10 v]
        dsimp only
        by_cases hle : v * 10 + (c.toNat - '0'.toNat) ≤ m
        · rw [if_neg (Nat.not_lt.mpr hle), ih _ hle]
        · have hgrow := Numeral.le_ofDigitChars (s.takeWhile Char.isDigit) (v * 10 + (c.toNat - '0'.toNat))
          rw [if_pos (Nat.lt_of_not_le hle), if_neg (by omega)]
      · rw [if_neg hc, List.takeWhile_cons_of_neg hc, List.dropWhile_cons_of_neg hc, Nat.ofDigitChars_nil, if_pos hv]

/-- `scale` when so many digits may follow. -/
def scaleAt : Nat → Nat
  | 0 => 0
  | k + 1 => 10 ^ k

theorem scaleAt_div (k : Nat) : scaleAt (k + 1) / 10 = scaleAt k := by
  cases k with
  | zero => rfl
  | succ k => exact Nat.mul_div_cancel _ (by decide)

theorem fractionLoop_eq : ∀ v k, fractionLoop v (scaleAt k) s =
    if (s.takeWhile Char.isDigit).length ≤ k then
      some (v + Nat.ofDigitChars 10 (s.takeWhile Char.isDigit) 0 * 10 ^ (k - (s.takeWhile Char.isDigit).length),
        s.dropWhile Char.isDigit)
    else none := by
  induction s with
  | nil =>
      intro v k
      rw [fractionLoop, List.takeWhile_nil, List.dropWhile_nil, List.length_nil, if_pos (Nat.zero_le k), Nat.ofDigitChars_nil, Nat.zero_mul,
        Nat.add_zero]
  | cons c s ih =>
      intro v k
      rw [fractionLoop]
      by_cases hc : c.isDigit = true
      · rw [if_pos hc, List.takeWhile_cons_of_pos hc, List.dropWhile_cons_of_pos hc, List.length_cons]
        cases k with
        | zero => rw [if_pos (show scaleAt 0 = 0 from rfl), if_neg (Nat.not_succ_le_zero _)]
        | succ k =>
            have hscale : scaleAt (k + 1) ≠ 0 := Nat.ne_of_gt (Nat.pow_pos (by decide))
            rw [if_neg hscale, scaleAt_div, ih, Nat.add_sub_add_right]
            by_cases hlen : (s.takeWhile Char.isDigit).length ≤ k
            · have hpower : 10 ^ (s.takeWhile Char.isDigit).length * 10 ^ (k - (s.takeWhile Char.isDigit).length) = 10 ^ k := by
                rw [← Nat.pow_add, Nat.add_sub_cancel' hlen]
              have hvalue : Nat.ofDigitChars 10 (c :: s.takeWhile Char.isDigit) 0 =
                  10 ^ (s.takeWhile Char.isDigit).length * (c.toNat - '0'.toNat) +
                    Nat.ofDigitChars 10 (s.takeWhile Char.isDigit) 0 := by
                rw [Nat.ofDigitChars_cons, Nat.mul_zero, Nat.zero_add, Nat.ofDigitChars_eq_ofDigitChars_zero]
              rw [if_pos hlen, if_pos (Nat.succ_le_succ hlen), hvalue, Nat.add_mul, Nat.mul_right_comm, hpower, scaleAt,
                Nat.mul_comm (c.toNat - '0'.toNat), Nat.add_assoc]
            · rw [if_neg hlen, if_neg fun h => hlen (Nat.le_of_succ_le_succ h)]
      · rw [if_neg hc, List.takeWhile_cons_of_neg hc, List.dropWhile_cons_of_neg hc, List.length_nil, if_pos (Nat.zero_le k),
          Nat.ofDigitChars_nil, Nat.zero_mul, Nat.add_zero]

/-! ### What is written -/

def pointed (fraction : Option Text) : Text := fraction.elim [] ('.' :: ·)

/-- The value in units of 10⁻⁷. -/
def scaled (whole : Text) (fraction : Option Text) : Nat :=
  Nat.ofDigitChars 10 whole 0 * 10000000 + fraction.elim 0 fun f => Nat.ofDigitChars 10 f 0 * 10 ^ (7 - f.length)

/-- Some digits, and one to seven behind a point. -/
structure Decimal (whole : Text) (fraction : Option Text) : Prop where
  nonempty : whole ≠ []
  digits : ∀ c ∈ whole, c.isDigit = true
  behind : ∀ f ∈ fraction, f ≠ [] ∧ f.length ≤ 7 ∧ ∀ c ∈ f, c.isDigit = true

/-- A coordinate with blanks around it and a sign. -/
structure Written where
  lead : Text
  sign : Option Char
  whole : Text
  fraction : Option Text
  trail : Text
  leading : ∀ c ∈ lead, blank c = true
  signed : ∀ c ∈ sign, c = '-' ∨ c = '+'
  decimal : Decimal whole fraction
  trailing : ∀ c ∈ trail, blank c = true

namespace Written

variable (w : Written)

def text : Text := w.lead ++ (w.sign.toList ++ (w.whole ++ (pointed w.fraction ++ w.trail)))

def magnitude : Nat := scaled w.whole w.fraction

def value : Int := if w.sign = some '-' then -(w.magnitude : Int) else w.magnitude

/-- Without blanks and a sign. -/
def Bare : Prop := w.lead = [] ∧ w.sign = none ∧ w.trail = []

end Written

theorem fraction_lt {f : Text} (hdigits : ∀ c ∈ f, c.isDigit = true) (hlen : f.length ≤ 7) :
    Nat.ofDigitChars 10 f 0 * 10 ^ (7 - f.length) < 10000000 := by
  have hvalue := Numeral.ofDigitChars_lt hdigits 0
  rw [Nat.zero_add, Nat.one_mul] at hvalue
  calc Nat.ofDigitChars 10 f 0 * 10 ^ (7 - f.length)
      < 10 ^ f.length * 10 ^ (7 - f.length) := Nat.mul_lt_mul_of_pos_right hvalue (Nat.pow_pos (by decide))
    _ = 10 ^ 7 := by rw [← Nat.pow_add, Nat.add_sub_cancel' hlen]

theorem elim_lt (h : Decimal s fraction) :
    (fraction.elim 0 fun f => Nat.ofDigitChars 10 f 0 * 10 ^ (7 - f.length)) < 10000000 := by
  cases fraction with
  | none => exact (by decide : 0 < 10000000)
  | some f => exact fraction_lt (h.behind f rfl).2.2 (h.behind f rfl).2.1

/-- The limit, as it is checked. -/
theorem scaled_le (h : Decimal s fraction) : scaled s fraction ≤ m * 10000000 ↔ Nat.ofDigitChars 10 s 0 ≤ m ∧
    ¬ (Nat.ofDigitChars 10 s 0 = m ∧ (fraction.elim 0 fun f => Nat.ofDigitChars 10 f 0 * 10 ^ (7 - f.length)) ≠ 0) := by
  have hlt := elim_lt h
  unfold scaled
  generalize (fraction.elim 0 fun f => Nat.ofDigitChars 10 f 0 * 10 ^ (7 - f.length)) = behind at *
  omega

/-! ### The reader -/

theorem fractionPart_sound (h : fractionPart s = some (n, rest)) :
    ∃ fraction, (∀ f ∈ fraction, f ≠ [] ∧ f.length ≤ 7 ∧ ∀ c ∈ f, c.isDigit = true) ∧ s = pointed fraction ++ rest ∧
      n = fraction.elim 0 fun f => Nat.ofDigitChars 10 f 0 * 10 ^ (7 - f.length) := by
  unfold fractionPart at h
  by_cases hpoint : s.head? = some '.'
  · obtain ⟨p, rfl⟩ := List.head?_eq_some_iff.mp hpoint
    rw [if_pos hpoint, List.tail_cons] at h
    by_cases hdigit : digitAhead p = true
    · have hloop := fractionLoop_eq (s := p) 0 7
      rw [if_pos hdigit] at h
      rw [show scaleAt 7 = 1000000 from rfl, h] at hloop
      by_cases hlen : (p.takeWhile Char.isDigit).length ≤ 7
      · rw [if_pos hlen] at hloop
        obtain ⟨hn, hrest⟩ := Prod.mk.inj (Option.some.inj hloop)
        refine ⟨some (p.takeWhile Char.isDigit), ?_, ?_, ?_⟩
        · rintro f ⟨⟩
          refine ⟨?_, hlen, fun c hc => List.mem_takeWhile_imp hc⟩
          cases p with
          | nil => exact absurd hdigit Bool.false_ne_true
          | cons c p =>
              rw [List.takeWhile_cons_of_pos (show c.isDigit = true from hdigit)]
              exact List.cons_ne_nil _ _
        · rw [hrest, pointed, Option.elim_some, List.cons_append, List.takeWhile_append_dropWhile]
        · rw [hn, Nat.zero_add]
          rfl
      · rw [if_neg hlen] at hloop
        exact absurd hloop (Option.some_ne_none _)
    · rw [if_neg hdigit] at h
      exact absurd h (Option.some_ne_none _).symm
  · rw [if_neg hpoint] at h
    obtain ⟨hn, hrest⟩ := Prod.mk.inj (Option.some.inj h)
    refine ⟨none, ?_, ?_, hn.symm⟩
    · rintro f ⟨⟩
    · exact hrest

theorem fractionPart_pointed (hbehind : ∀ f ∈ fraction, f ≠ [] ∧ f.length ≤ 7 ∧ ∀ c ∈ f, c.isDigit = true)
    (hdigit : digitAhead rest = false) (hpoint : rest.head? ≠ some '.') :
    fractionPart (pointed fraction ++ rest) =
      some (fraction.elim 0 fun f => Nat.ofDigitChars 10 f 0 * 10 ^ (7 - f.length), rest) := by
  unfold fractionPart
  cases fraction with
  | none => rw [pointed, Option.elim_none, List.nil_append, if_neg hpoint, Option.elim_none]
  | some f =>
      obtain ⟨hne, hlen, hdigits⟩ := hbehind f rfl
      obtain ⟨c, tail, rfl⟩ := List.exists_cons_of_ne_nil hne
      have hahead : digitAhead (c :: tail ++ rest) = true := hdigits c List.mem_cons_self
      have hloop := fractionLoop_eq (s := c :: tail ++ rest) 0 7
      rw [takeWhile_run hdigits hdigit, dropWhile_run hdigits hdigit, if_pos hlen, Nat.zero_add] at hloop
      rw [pointed, Option.elim_some, List.cons_append, List.head?_cons, if_pos rfl, List.tail_cons, if_pos hahead]
      exact hloop

/-- What the reader takes is a written coordinate. -/
theorem coordinate_sound {r : Int} (h : coordinate m s = some (r, rest)) :
    ∃ w : Written, s = w.text ++ rest ∧ w.magnitude ≤ m * 10000000 ∧ r = w.value := by
  unfold coordinate at h
  have hlead : s = s.takeWhile blank ++ s.dropWhile blank := List.takeWhile_append_dropWhile.symm
  have hleading : ∀ c ∈ s.takeWhile blank, blank c = true := fun c hc => List.mem_takeWhile_imp hc
  generalize s.takeWhile blank = lead at hlead hleading
  generalize s.dropWhile blank = p at h hlead
  -- the sign, if there is one
  obtain ⟨sign, behind, hp, hsigned, hnegative, htail⟩ : ∃ (sign : Option Char) (behind : Text), p = sign.toList ++ behind ∧
      (∀ c ∈ sign, c = '-' ∨ c = '+') ∧ ((p.head? == some '-') = true ↔ sign = some '-') ∧
      (if (p.head? == some '-') || (p.head? == some '+') then p.tail else p) = behind := by
    by_cases hsign : ((p.head? == some '-') || (p.head? == some '+')) = true
    · rw [if_pos hsign]
      rw [Bool.or_eq_true, beq_iff_eq, beq_iff_eq] at hsign
      rw [beq_iff_eq]
      rcases hsign with hminus | hplus
      · obtain ⟨tail, rfl⟩ := List.head?_eq_some_iff.mp hminus
        refine ⟨some '-', tail, rfl, ?_, iff_of_true hminus rfl, rfl⟩
        rintro c ⟨⟩
        exact Or.inl rfl
      · obtain ⟨tail, rfl⟩ := List.head?_eq_some_iff.mp hplus
        refine ⟨some '+', tail, rfl, ?_, Iff.rfl, rfl⟩
        rintro c ⟨⟩
        exact Or.inr rfl
    · rw [if_neg hsign]
      rw [Bool.or_eq_true, not_or] at hsign
      refine ⟨none, p, rfl, ?_, iff_of_false hsign.1 (Option.some_ne_none _).symm, rfl⟩
      rintro c ⟨⟩
  dsimp only at h
  rw [htail] at h
  by_cases hdigit : digitAhead behind = true
  · rw [if_pos hdigit, Option.bind_eq_bind, Option.bind_eq_some_iff] at h
    obtain ⟨⟨whole, afterWhole⟩, hwhole, h⟩ := h
    rw [wholeLoop_eq 0 (Nat.zero_le m)] at hwhole
    by_cases hle : Nat.ofDigitChars 10 (behind.takeWhile Char.isDigit) 0 ≤ m
    · rw [if_pos hle] at hwhole
      obtain ⟨rfl, rfl⟩ := Prod.mk.inj (Option.some.inj hwhole)
      rw [Option.bind_eq_some_iff] at h
      obtain ⟨⟨n, afterFraction⟩, hfraction, h⟩ := h
      obtain ⟨fraction, hbehind, hsplit, rfl⟩ := fractionPart_sound hfraction
      dsimp only at h
      by_cases hlimit : Nat.ofDigitChars 10 (behind.takeWhile Char.isDigit) 0 = m ∧
          (fraction.elim 0 fun f => Nat.ofDigitChars 10 f 0 * 10 ^ (7 - f.length)) ≠ 0
      · rw [if_pos hlimit] at h
        exact absurd h (Option.some_ne_none _).symm
      · rw [if_neg hlimit] at h
        obtain ⟨hr, hrest⟩ := Prod.mk.inj (Option.some.inj h)
        have hdecimal : Decimal (behind.takeWhile Char.isDigit) fraction := by
          refine ⟨?_, fun c hc => List.mem_takeWhile_imp hc, hbehind⟩
          cases behind with
          | nil => exact absurd hdigit Bool.false_ne_true
          | cons c behind =>
              rw [List.takeWhile_cons_of_pos (show c.isDigit = true from hdigit)]
              exact List.cons_ne_nil _ _
        refine ⟨⟨lead, sign, behind.takeWhile Char.isDigit, fraction, afterFraction.takeWhile blank, hleading, hsigned, hdecimal,
          fun c hc => List.mem_takeWhile_imp hc⟩, ?_, (scaled_le hdecimal).mpr ⟨hle, hlimit⟩, ?_⟩
        · rw [Written.text, hlead, hp, ← hrest]
          simp only [List.append_assoc, List.takeWhile_append_dropWhile, ← hsplit]
        · rw [Written.value, Written.magnitude, ← hr]
          unfold scaled
          push_cast
          exact if_congr hnegative rfl rfl
    · rw [if_neg hle] at hwhole
      exact absurd hwhole (Option.some_ne_none _).symm
  · rw [if_neg hdigit] at h
    exact absurd h (Option.some_ne_none _).symm

theorem ahead_append {p : Char → Bool} (hds : ∀ c ∈ ds, p c = false) (hrest : rest.head?.any p = false) :
    (ds ++ rest).head?.any p = false := by
  cases ds with
  | nil => exact hrest
  | cons c ds => exact hds c List.mem_cons_self

theorem not_digit_of_blank {c : Char} (h : blank c = true) : c.isDigit = false ∧ c ≠ '.' := by
  constructor
  · rw [← Bool.not_eq_true]
    intro hdigit
    rw [(Scanf.not_blank_of_digit hdigit).1] at h
    exact absurd h Bool.false_ne_true
  · rintro rfl
    exact absurd h (by decide)

/-- Nothing but a comma follows. -/
def Closed (rest : Text) : Prop := ∀ c ∈ rest.head?, c = ','

theorem Closed.ahead {p : Char → Bool} (h : Closed rest) (hcomma : p ',' = false) : rest.head?.any p = false := by
  cases rest with
  | nil => rfl
  | cons c rest =>
      obtain rfl := h c rfl
      exact hcomma

/-- A written coordinate is read. -/
theorem coordinate_text {w : Written} (hlimit : w.magnitude ≤ m * 10000000) (hrest : Closed rest) :
    coordinate m (w.text ++ rest) = some (w.value, rest) := by
  obtain ⟨c, tail, hwhole⟩ := List.exists_cons_of_ne_nil w.decimal.nonempty
  have hc : c.isDigit = true := w.decimal.digits c (by rw [hwhole]; exact List.mem_cons_self)
  obtain ⟨hblank, hminus, hplus⟩ := Scanf.not_blank_of_digit hc
  obtain ⟨hle, hnot⟩ := (scaled_le w.decimal).mp hlimit
  -- what is behind the sign, the degrees and the fraction
  obtain ⟨behind, hbehind⟩ : ∃ behind, behind = w.whole ++ (pointed w.fraction ++ (w.trail ++ rest)) := ⟨_, rfl⟩
  have hahead : behind.head? = some c := by rw [hbehind, hwhole]; rfl
  have htrail : digitAhead (w.trail ++ rest) = false :=
    ahead_append (fun c hc => (not_digit_of_blank (w.trailing c hc)).1) (hrest.ahead rfl)
  have hpoint : (w.trail ++ rest).head? ≠ some '.' := by
    have hany := ahead_append (p := (· == '.')) (fun c hc => beq_false_of_ne (not_digit_of_blank (w.trailing c hc)).2)
      (hrest.ahead (by decide))
    intro heq
    rw [heq] at hany
    exact absurd hany (by decide)
  have hafter : (pointed w.fraction ++ (w.trail ++ rest)).head?.any Char.isDigit = false := by
    cases w.fraction with
    | none => exact htrail
    | some f => rfl
  have hlead : (w.text ++ rest).dropWhile blank = w.sign.toList ++ behind := by
    have htext : w.text ++ rest = w.lead ++ (w.sign.toList ++ behind) := by
      rw [hbehind, Written.text]
      simp only [List.append_assoc]
    rw [htext]
    refine dropWhile_run w.leading (ahead_append (fun x hx => ?_) ?_)
    · rcases w.signed x (Option.mem_toList.mp hx) with rfl | rfl
      · rfl
      · rfl
    · rw [hahead]
      exact hblank
  have hnegative : ((w.sign.toList ++ behind).head? == some '-') = true ↔ w.sign = some '-' := by
    rw [beq_iff_eq]
    cases w.sign with
    | none =>
        rw [Option.toList_none, List.nil_append, hahead]
        exact iff_of_false (fun h => hminus (Option.some.inj h)) (Option.some_ne_none _).symm
    | some sign => exact Iff.rfl
  have hsign : (if ((w.sign.toList ++ behind).head? == some '-') || ((w.sign.toList ++ behind).head? == some '+') then
      (w.sign.toList ++ behind).tail else w.sign.toList ++ behind) = behind := by
    generalize hsigned : w.sign = sign
    cases sign with
    | none =>
        rw [Option.toList_none, List.nil_append, hahead, if_neg]
        rw [Bool.or_eq_true, beq_iff_eq, beq_iff_eq, Option.some_inj, Option.some_inj]
        exact not_or.mpr ⟨hminus, hplus⟩
    | some sign =>
        rcases w.signed sign hsigned with rfl | rfl
        · rfl
        · rfl
  unfold coordinate
  dsimp only
  rw [hlead, hsign, if_pos (show digitAhead behind = true by unfold digitAhead; rw [hahead]; exact hc),
    wholeLoop_eq 0 (Nat.zero_le m), hbehind, takeWhile_run w.decimal.digits hafter, dropWhile_run w.decimal.digits hafter,
    if_pos hle, Option.bind_eq_bind, Option.bind_some, ← hbehind]
  dsimp only
  rw [fractionPart_pointed w.decimal.behind htrail hpoint, Option.bind_some, if_neg hnot,
    dropWhile_run w.trailing (hrest.ahead (by decide))]
  unfold Written.value Written.magnitude scaled
  push_cast
  exact congrArg (fun v => some (v, rest)) (if_congr hnegative rfl rfl)

/-! ### The pair that is printed -/

theorem printed_written (v : Int) (hv : v.natAbs ≤ m * 10000000) :
    ∃ w : Written, printed v = w.text ∧ w.magnitude ≤ m * 10000000 ∧ w.value = v := by
  have hfraction : v.natAbs % 10000000 < 10 ^ 7 := Nat.mod_lt _ (by decide)
  have hlength : (Nat.toDigits 10 (v.natAbs % 10000000)).length ≤ 7 :=
    (Nat.length_toDigits_le_iff (by decide) (by decide)).mpr hfraction
  have hpaddedLength : (padded (v.natAbs % 10000000)).length = 7 := by
    rw [padded, List.length_append, List.length_replicate]
    omega
  have hpadded : Nat.ofDigitChars 10 (padded (v.natAbs % 10000000)) 0 = v.natAbs % 10000000 := by
    rw [padded, Nat.ofDigitChars_append, Nat.ofDigitChars_replicate_zero, Nat.mul_zero, Nat.ofDigitChars_ten_toDigits]
  have hdecimal : Decimal (Nat.toDigits 10 (v.natAbs / 10000000)) (some (padded (v.natAbs % 10000000))) := by
    refine ⟨Nat.toDigits_ne_nil, (Numeral.spells_toDigits _).digits, ?_⟩
    rintro f ⟨⟩
    refine ⟨List.ne_nil_of_length_pos (by rw [hpaddedLength]; decide), hpaddedLength.le, fun c hc => ?_⟩
    rcases List.mem_append.mp hc with hzero | hdigit
    · rw [List.eq_of_mem_replicate hzero]
      rfl
    · exact (Numeral.spells_toDigits _).digits c hdigit
  have hscaled : scaled (Nat.toDigits 10 (v.natAbs / 10000000)) (some (padded (v.natAbs % 10000000))) = v.natAbs := by
    rw [scaled, Option.elim_some, Nat.ofDigitChars_ten_toDigits, hpadded, hpaddedLength, Nat.sub_self, Nat.pow_zero, Nat.mul_one]
    omega
  refine ⟨⟨[], if v < 0 then some '-' else none, _, _, [], ?_, ?_, hdecimal, ?_⟩, ?_, ?_, ?_⟩
  · exact fun c hc => absurd hc List.not_mem_nil
  · intro c hc
    split at hc
    · exact Or.inl (Option.some.inj hc).symm
    · exact absurd hc (Option.not_mem_none c)
  · exact fun c hc => absurd hc List.not_mem_nil
  · rw [printed, Written.text, pointed]
    split <;> simp
  · rw [Written.magnitude, hscaled]
    exact hv
  · rw [Written.value, Written.magnitude, hscaled]
    dsimp only
    split
    · rw [if_pos rfl]
      omega
    · rw [if_neg (Option.some_ne_none _).symm]
      omega

theorem printed_length (v : Int) (hv : v.natAbs < 10 ^ 10) : (printed v).length ≤ 12 := by
  have hwhole : (Nat.toDigits 10 (v.natAbs / 10000000)).length ≤ 3 :=
    (Nat.length_toDigits_le_iff (by decide) (by decide)).mpr (by omega)
  have hfraction : (Nat.toDigits 10 (v.natAbs % 10000000)).length ≤ 7 :=
    (Nat.length_toDigits_le_iff (by decide) (by decide)).mpr (Nat.mod_lt _ (by decide))
  rw [printed, padded]
  simp only [List.length_append, List.length_cons, List.length_replicate]
  split
  · rw [List.length_singleton]
    omega
  · rw [List.length_nil]
    omega

theorem positionParse_coordinates {lat lon : Int} (hlat : lat.natAbs ≤ 900000000) (hlon : lon.natAbs ≤ 1800000000) :
    positionParse (coordinates lat lon) = some (lat, lon) := by
  obtain ⟨a, ha, haLimit, haValue⟩ := printed_written (m := 90) lat (by omega)
  obtain ⟨b, hb, hbLimit, hbValue⟩ := printed_written (m := 180) lon (by omega)
  have hfits : (printed lat ++ ',' :: printed lon).length ≤ 63 := by
    have hlatLength := printed_length lat (by omega)
    have hlonLength := printed_length lon (by omega)
    rw [List.length_append, List.length_cons]
    omega
  have hcomma : Closed (',' :: printed lon) := by
    rintro c ⟨⟩
    rfl
  have hend : Closed [] := fun c hc => absurd hc (Option.not_mem_none c)
  have hfirst := coordinate_text haLimit hcomma
  have hsecond := coordinate_text hbLimit hend
  rw [List.append_nil, ← hb] at hsecond
  rw [← ha] at hfirst
  rw [coordinates, List.take_of_length_le hfits, positionParse, hfirst, Option.bind_eq_bind, Option.bind_some]
  dsimp only
  rw [List.head?_cons, if_pos rfl, List.tail_cons, hsecond, Option.bind_some, if_pos rfl, haValue, hbValue]

/-! ### The receiver's fields -/

/-- The result with the hemisphere's sign. -/
def Facing (latitude : Bool) (hemisphere : Text) (angle r : Int) : Prop :=
  (hemisphere = [if latitude then 'N' else 'E'] ∧ r = angle) ∨ (hemisphere = [if latitude then 'S' else 'W'] ∧ r = -angle)

/-- Below sixty minutes, and within the limit. -/
def Limits (latitude : Bool) (degrees : Text) (minutes : Nat) : Prop :=
  minutes < 600000000 ∧ Nat.ofDigitChars 10 degrees 0 * 600000000 + minutes ≤ maximum latitude * 600000000

/-- The degree digits. -/
structure Degrees (latitude : Bool) (degrees : Text) : Prop where
  length : degrees.length = degreeDigits latitude
  digits : ∀ c ∈ degrees, c.isDigit = true

/-- A field of the protocol: degree digits, two digits of minutes, and one to seven behind a point. -/
structure Field (latitude : Bool) (text degrees minutes : Text) (fraction : Option Text) : Prop where
  whole : Degrees latitude degrees
  two : minutes.length = 2
  decimal : Decimal minutes fraction
  text_eq : text = degrees ++ (minutes ++ pointed fraction)
  limits : Limits latitude degrees (scaled minutes fraction)

/-- What a field of the protocol means, in units of 10⁻⁷ degrees. -/
def Reads (latitude : Bool) (text hemisphere : Text) (r : Int) : Prop :=
  ∃ degrees minutes fraction, Field latitude text degrees minutes fraction ∧
    Facing latitude hemisphere
      (nearest (Nat.ofDigitChars 10 degrees 0 * 600000000 + scaled minutes fraction) 60 1) r

/-- A field whose minutes are a written coordinate, two characters of them before the point. -/
structure Lax (latitude : Bool) (text degrees : Text) (w : Written) : Prop where
  whole : Degrees latitude degrees
  two : (w.text.takeWhile (· != '.')).length = 2
  positive : w.sign = some '-' → w.magnitude = 0
  text_eq : text = degrees ++ w.text
  limits : Limits latitude degrees w.magnitude

/-- A blank or a sign stands in the minutes, which are taken all the same. -/
def Loose (latitude : Bool) (text : Text) : Prop := ∃ degrees w, Lax latitude text degrees w ∧ ¬ w.Bare

variable {text hemisphere degrees : Text} {latitude : Bool} {r : Int}

theorem degreeLoop_iff : ∀ k v s, degreeLoop k v s = some (n, rest) ↔
    ∃ ds : Text, ds.length = k ∧ (∀ c ∈ ds, c.isDigit = true) ∧ s = ds ++ rest ∧ n = Nat.ofDigitChars 10 ds v := by
  intro k
  induction k with
  | zero =>
      intro v s
      rw [degreeLoop, Option.some_inj, Prod.mk.injEq]
      constructor
      · rintro ⟨rfl, rfl⟩
        exact ⟨[], rfl, fun c hc => absurd hc List.not_mem_nil, rfl, Nat.ofDigitChars_nil.symm⟩
      · rintro ⟨ds, hlen, -, rfl, rfl⟩
        rw [List.eq_nil_of_length_eq_zero hlen]
        exact ⟨Nat.ofDigitChars_nil.symm, rfl⟩
  | succ k ih =>
      intro v s
      cases s with
      | nil =>
          rw [degreeLoop]
          refine iff_of_false (Option.some_ne_none _).symm ?_
          rintro ⟨ds, hlen, -, hs, -⟩
          rw [(List.append_eq_nil_iff.mp hs.symm).1] at hlen
          exact absurd hlen (Nat.succ_ne_zero k).symm
      | cons c s =>
          rw [degreeLoop]
          by_cases hc : c.isDigit = true
          · rw [if_pos hc, ih, Nat.mul_comm v 10]
            constructor
            · rintro ⟨ds, hlen, hdigits, rfl, hn⟩
              refine ⟨c :: ds, congrArg (· + 1) hlen, List.forall_mem_cons.mpr ⟨hc, hdigits⟩, rfl, ?_⟩
              rw [hn, Nat.ofDigitChars_cons]
            · rintro ⟨ds, hlen, hdigits, hs, hn⟩
              obtain ⟨d, tail, rfl⟩ := List.exists_cons_of_length_eq_add_one hlen
              obtain ⟨rfl, htail⟩ := List.cons.inj hs
              refine ⟨tail, Nat.succ.inj hlen, (List.forall_mem_cons.mp hdigits).2, htail, ?_⟩
              rw [hn, Nat.ofDigitChars_cons]
          · rw [if_neg hc]
            refine iff_of_false (Option.some_ne_none _).symm ?_
            rintro ⟨ds, hlen, hdigits, hs, -⟩
            obtain ⟨d, tail, rfl⟩ := List.exists_cons_of_length_eq_add_one hlen
            obtain ⟨rfl, -⟩ := List.cons.inj hs
            exact hc (hdigits c List.mem_cons_self)

/-- Degrees and minutes in one fraction: only the minutes have to be rounded. -/
theorem nearest_degrees (d n : Nat) : (nearest (d * 600000000 + n) 60 1 : Int) = (d : Int) * 10000000 + ((n : Int) + 30) / 60 := by
  unfold nearest
  push_cast
  omega

theorem takeWhile_degrees (h : Degrees latitude degrees) (s : Text) :
    ((degrees ++ s).takeWhile (· != '.')).length = degreeDigits latitude + (s.takeWhile (· != '.')).length := by
  have hpoint : ∀ c ∈ degrees, (c != '.') = true := by
    intro c hc
    rw [bne_iff_ne]
    rintro rfl
    exact absurd (h.digits _ hc) (by decide)
  rw [List.takeWhile_append_of_pos hpoint, List.length_append, h.length]

/-- The hemisphere decides last. -/
theorem facing_iff (angle : Int) : (if hemisphere.length ≠ 1 then none
    else if hemisphere.head? = some (if latitude then 'S' else 'W') then some (-angle)
    else if hemisphere.head? ≠ some (if latitude then 'N' else 'E') then none
    else some angle) = some r ↔ Facing latitude hemisphere angle r := by
  unfold Facing
  match hemisphere with
  | [] => simp
  | [c] =>
      cases latitude <;> simp <;> grind
  | _ :: _ :: _ => simp

theorem value_of_positive {w : Written} (h : w.sign = some '-' → w.magnitude = 0) : w.value = w.magnitude := by
  unfold Written.value
  split
  · rw [h (by assumption)]
    rfl
  · rfl

theorem positive_of_value {w : Written} (h : ¬ w.value < 0) : w.sign = some '-' → w.magnitude = 0 := by
  intro hsign
  rw [Written.value, if_pos hsign] at h
  omega

/-- What is read, and as what. -/
theorem receiverAngle_iff : receiverAngle text hemisphere latitude = some r ↔
    ∃ degrees w, Lax latitude text degrees w ∧
      Facing latitude hemisphere (nearest (Nat.ofDigitChars 10 degrees 0 * 600000000 + w.magnitude) 60 1) r := by
  constructor
  · intro h
    unfold receiverAngle at h
    by_cases hone : hemisphere.length ≠ 1
    · rw [if_pos hone] at h
      exact absurd h (Option.some_ne_none r).symm
    · rw [if_neg hone] at h
      by_cases hlength : (text.takeWhile (· != '.')).length ≠ degreeDigits latitude + 2
      · rw [if_pos hlength] at h
        exact absurd h (Option.some_ne_none r).symm
      · rw [if_neg hlength, Option.bind_eq_bind, Option.bind_eq_some_iff] at h
        obtain ⟨⟨d, minutes⟩, hloop, h⟩ := h
        dsimp only at h
        rw [Option.bind_eq_bind, Option.bind_eq_some_iff] at h
        obtain ⟨⟨min, behind⟩, hminutes, h⟩ := h
        dsimp only at h
        obtain ⟨degrees, hlen, hdigits, rfl, rfl⟩ := (degreeLoop_iff _ _ _).mp hloop
        have hdegrees : Degrees latitude degrees := ⟨hlen, hdigits⟩
        by_cases hrefused : behind ≠ [] ∨ min < 0 ∨ 600000000 ≤ min ∨ Nat.ofDigitChars 10 degrees 0 > maximum latitude ∨
            (Nat.ofDigitChars 10 degrees 0 = maximum latitude ∧ min ≠ 0)
        · rw [if_pos hrefused] at h
          exact absurd h (Option.some_ne_none r).symm
        · rw [if_neg hrefused] at h
          simp only [not_or, not_and, not_not] at hrefused
          obtain ⟨rfl, hpositive, hbelow, hmaximum, hpole⟩ := hrefused
          obtain ⟨w, hw, -, rfl⟩ := coordinate_sound hminutes
          rw [List.append_nil] at hw
          have hvalue := value_of_positive (positive_of_value hpositive)
          rw [takeWhile_degrees hdegrees, hw] at hlength
          rw [hvalue] at h hbelow hpole
          refine ⟨degrees, w, ⟨hdegrees, by omega, positive_of_value hpositive, by rw [hw], by omega, ?_⟩, ?_⟩
          · have hcases : Nat.ofDigitChars 10 degrees 0 = maximum latitude → w.magnitude = 0 := fun heq => by
              have hzero := hpole heq
              omega
            omega
          · rw [nearest_degrees, ← facing_iff, if_neg hone]
            exact h
  · rintro ⟨degrees, w, ⟨hdegrees, htwo, hpositive, rfl, hbelow, hlimit⟩, hfacing⟩
    have hvalue := value_of_positive hpositive
    have hend : Closed [] := fun c hc => absurd hc (Option.not_mem_none c)
    have hminutes := coordinate_text (m := 60) (w := w) (by omega) hend
    have hloop : degreeLoop (degreeDigits latitude) 0 (degrees ++ w.text) = some (Nat.ofDigitChars 10 degrees 0, w.text) :=
      (degreeLoop_iff _ _ _).mpr ⟨degrees, hdegrees.length, hdegrees.digits, rfl, rfl⟩
    rw [List.append_nil] at hminutes
    rw [nearest_degrees, ← facing_iff] at hfacing
    by_cases hone : hemisphere.length ≠ 1
    · rw [if_pos hone] at hfacing
      exact absurd hfacing (Option.some_ne_none r).symm
    · rw [if_neg hone] at hfacing
      unfold receiverAngle
      rw [if_neg hone, if_neg (by rw [takeWhile_degrees hdegrees, htwo]; exact fun h => h rfl), hloop, Option.bind_eq_bind,
        Option.bind_some]
      dsimp only
      rw [hminutes, Option.bind_eq_bind, Option.bind_some]
      dsimp only
      rw [hvalue, if_neg]
      · exact hfacing
      · rintro (hne | hnegative | hhigh | hdegrees | ⟨hpole, hminutes⟩)
        · exact hne rfl
        · omega
        · omega
        · omega
        · omega

/-! ### The two kinds of fields -/

theorem no_point {c : Char} (h : c.isDigit = true) : (c != '.') = true := by
  rw [bne_iff_ne]
  rintro rfl
  exact absurd h (by decide)

theorem takeWhile_pointed {minutes : Text} (hdigits : ∀ c ∈ minutes, c.isDigit = true) :
    (minutes ++ pointed fraction).takeWhile (· != '.') = minutes := by
  refine takeWhile_run (fun c hc => no_point (hdigits c hc)) ?_
  cases fraction with
  | none => rfl
  | some f => rfl

/-- A field of the protocol is read as such. -/
theorem Field.lax {minutes : Text} (h : Field latitude text degrees minutes fraction) :
    ∃ w : Written, Lax latitude text degrees w ∧ w.magnitude = scaled minutes fraction := by
  have hempty : ∀ c ∈ ([] : Text), blank c = true := fun c hc => absurd hc List.not_mem_nil
  obtain ⟨w, hw⟩ : ∃ w : Written, w = ⟨[], none, minutes, fraction, [], hempty, fun c hc => absurd hc (Option.not_mem_none c),
    h.decimal, hempty⟩ := ⟨_, rfl⟩
  have htext : w.text = minutes ++ pointed fraction := by
    rw [hw, Written.text]
    simp
  have hmagnitude : w.magnitude = scaled minutes fraction := by rw [hw, Written.magnitude]
  refine ⟨w, ⟨h.whole, ?_, ?_, ?_, ?_⟩, hmagnitude⟩
  · rw [htext, takeWhile_pointed h.decimal.digits, h.two]
  · rw [hw]
    exact fun hsign => absurd hsign.symm (Option.some_ne_none _)
  · rw [htext]
    exact h.text_eq
  · rw [hmagnitude]
    exact h.limits

/-- Without blanks and a sign it is a field of the protocol. -/
theorem Lax.field {w : Written} (h : Lax latitude text degrees w) (hbare : w.Bare) :
    Field latitude text degrees w.whole w.fraction := by
  obtain ⟨hlead, hsign, htrail⟩ := hbare
  have htext : w.text = w.whole ++ pointed w.fraction := by
    rw [Written.text, hlead, hsign, htrail]
    simp
  refine ⟨h.whole, ?_, w.decimal, by rw [h.text_eq, htext], h.limits⟩
  have htwo := h.two
  rw [htext, takeWhile_pointed w.decimal.digits] at htwo
  exact htwo

/-- A field of the protocol has digits and a point alone. -/
theorem Field.not_loose {minutes : Text} {w : Written} {degrees' : Text} (h : Field latitude text degrees' minutes fraction)
    (hlax : Lax latitude text degrees w) : w.Bare := by
  have hsplit : w.text = minutes ++ pointed fraction := by
    have heq := hlax.text_eq
    rw [h.text_eq] at heq
    exact ((List.append_inj heq (h.whole.length.trans hlax.whole.length.symm)).2).symm
  have hplain : ∀ c ∈ w.text, c.isDigit = true ∨ c = '.' := by
    intro c hc
    rw [hsplit] at hc
    rcases List.mem_append.mp hc with hminutes | hpointed
    · exact Or.inl (h.decimal.digits c hminutes)
    · cases fraction with
      | none => exact absurd hpointed List.not_mem_nil
      | some f =>
          rcases List.mem_cons.mp hpointed with hpoint | hf
          · exact Or.inr hpoint
          · exact Or.inl ((h.decimal.behind f rfl).2.2 c hf)
  have hblank : ∀ c ∈ w.text, ¬ blank c = true := by
    intro c hc hblank
    obtain ⟨hdigit, hpoint⟩ := not_digit_of_blank hblank
    rcases hplain c hc with h | h
    · exact absurd (hdigit.symm.trans h) Bool.false_ne_true
    · exact hpoint h
  unfold Written.text at hblank hplain
  refine ⟨?_, ?_, ?_⟩
  · refine List.eq_nil_iff_forall_not_mem.mpr fun c hc => hblank c ?_ (w.leading c hc)
    exact List.mem_append_left _ hc
  · refine Option.eq_none_iff_forall_not_mem.mpr fun c hc => ?_
    have hmem : c ∈ w.sign.toList := Option.mem_toList.mpr hc
    have hsign := hplain c (List.mem_append_right _ (List.mem_append_left _ hmem))
    rcases w.signed c hc with rfl | rfl
    · exact absurd hsign (by decide)
    · exact absurd hsign (by decide)
  · refine List.eq_nil_iff_forall_not_mem.mpr fun c hc => hblank c ?_ (w.trailing c hc)
    exact List.mem_append_right _ (List.mem_append_right _ (List.mem_append_right _ (List.mem_append_right _ hc)))

/-- Printed coordinates are read back; and a field of the receiver is read as the protocol has it,
    except for a loose one. -/
theorem gps_text (text hemisphere : Text) (latitude : Bool) :
    (∀ lat lon : Int, lat.natAbs ≤ 900000000 → lon.natAbs ≤ 1800000000 →
      positionParse (coordinates lat lon) = some (lat, lon)) ∧
    ((∀ r, receiverAngle text hemisphere latitude = some r ↔ Reads latitude text hemisphere r) ↔
      ¬ (Loose latitude text ∧ ∃ angle r, Facing latitude hemisphere angle r)) := by
  refine ⟨fun lat lon hlat hlon => positionParse_coordinates hlat hlon, ?_⟩
  constructor
  · rintro h ⟨⟨degrees, w, hlax, hloose⟩, angle, r, hfacing⟩
    obtain ⟨r', hr'⟩ : ∃ r', Facing latitude hemisphere
        (nearest (Nat.ofDigitChars 10 degrees 0 * 600000000 + w.magnitude) 60 1) r' := by
      rcases hfacing with hfacing | hfacing
      · exact ⟨_, Or.inl ⟨hfacing.1, rfl⟩⟩
      · exact ⟨_, Or.inr ⟨hfacing.1, rfl⟩⟩
    obtain ⟨degrees', minutes, fraction, hfield, -⟩ := (h r').mp (receiverAngle_iff.mpr ⟨degrees, w, hlax, hr'⟩)
    exact hloose (hfield.not_loose hlax)
  · intro h r
    rw [receiverAngle_iff]
    constructor
    · rintro ⟨degrees, w, hlax, hfacing⟩
      by_cases hbare : w.Bare
      · exact ⟨degrees, w.whole, w.fraction, hlax.field hbare, hfacing⟩
      · exact absurd ⟨⟨degrees, w, hlax, hbare⟩, _, r, hfacing⟩ h
    · rintro ⟨degrees, minutes, fraction, hfield, hfacing⟩
      obtain ⟨w, hlax, hmagnitude⟩ := hfield.lax
      rw [← hmagnitude] at hfacing
      exact ⟨degrees, w, hlax, hfacing⟩

/-- A blank for the tens of the minutes: forty-eight degrees and five and a half minutes. -/
theorem blank_in_minutes : receiverAngle ['4', '8', ' ', '5', '.', '5'] ['N'] true = some 480916667 ∧
    ¬ Reads true ['4', '8', ' ', '5', '.', '5'] ['N'] 480916667 := by
  refine ⟨by decide, ?_⟩
  rintro ⟨degrees, minutes, fraction, hfield, -⟩
  have hlength := hfield.whole.length
  have hdigits := hfield.decimal.digits
  have heq := hfield.text_eq
  have hne := hfield.decimal.nonempty
  match degrees, minutes with
  | [_, _], c :: _ =>
      obtain ⟨-, -, rfl, -⟩ : _ ∧ _ ∧ ' ' = c ∧ _ := by simpa using heq
      exact absurd (hdigits _ List.mem_cons_self) (by decide)
  | [_, _], [] => exact hne rfl

end Gps

end RustyRig
