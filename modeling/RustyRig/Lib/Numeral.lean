/-
Decimal numerals read digit by digit.

`accumulate` is the loop that a reader of numbers runs, with a step that may refuse a digit.  A step
that refuses exactly what would go over a bound makes a reader of exactly the numerals up to it
(`accumulate_iff`): what the digits so far are worth only grows.
-/
import Mathlib.Data.Nat.Digits.Defs

namespace RustyRig.Lib.Numeral

variable {bound v n d : Nat} {s : List Char} {step : Nat → Nat → Option Nat}

/-- `s` is a decimal numeral of `n`. -/
structure Spells (s : List Char) (n : Nat) : Prop where
  nonempty : s ≠ []
  digits : ∀ c ∈ s, c.isDigit = true
  value : Nat.ofDigitChars 10 s 0 = n

/-- The loop over the digits, with what those so far are worth. -/
def accumulate (step : Nat → Nat → Option Nat) : Nat → List Char → Option Nat
  | v, [] => some v
  | v, c :: s => if c.isDigit then (step v (c.toNat - '0'.toNat)).bind fun v => accumulate step v s else none

theorem digit_lt {c : Char} (h : c.isDigit = true) : c.toNat - '0'.toNat < 10 := by
  unfold Char.isDigit at h
  rw [Bool.and_eq_true, decide_eq_true_eq, decide_eq_true_eq] at h
  have hhigh : c.toNat ≤ 57 := h.2
  have hzero : '0'.toNat = 48 := rfl
  omega

theorem le_ofDigitChars (s : List Char) : ∀ v, v ≤ Nat.ofDigitChars 10 s v := by
  induction s with
  | nil => exact fun v => Nat.le_of_eq Nat.ofDigitChars_nil.symm
  | cons c s ih =>
      intro v
      rw [Nat.ofDigitChars_cons]
      have hstep := ih (10 * v + (c.toNat - '0'.toNat))
      omega

theorem ofDigitChars_lt (h : ∀ c ∈ s, c.isDigit = true) : ∀ v, Nat.ofDigitChars 10 s v < (v + 1) * 10 ^ s.length := by
  induction s with
  | nil =>
      intro v
      rw [Nat.ofDigitChars_nil, List.length_nil, Nat.pow_zero, Nat.mul_one]
      exact Nat.lt_succ_self v
  | cons c s ih =>
      intro v
      have hc := digit_lt (h c List.mem_cons_self)
      rw [Nat.ofDigitChars_cons]
      calc Nat.ofDigitChars 10 s (10 * v + (c.toNat - '0'.toNat))
          < (10 * v + (c.toNat - '0'.toNat) + 1) * 10 ^ s.length := ih (fun x hx => h x (List.mem_cons_of_mem c hx)) _
        _ ≤ ((v + 1) * 10) * 10 ^ s.length := Nat.mul_le_mul_right _ (by omega)
        _ = (v + 1) * 10 ^ (c :: s).length := by rw [List.length_cons, Nat.mul_assoc, Nat.pow_succ, Nat.mul_comm 10]

/-- A step that refuses what would go over the bound. -/
def Bounded (bound : Nat) (step : Nat → Nat → Option Nat) : Prop :=
  ∀ v d, v ≤ bound → d < 10 → step v d = if v * 10 + d ≤ bound then some (v * 10 + d) else none

theorem accumulate_iff (hstep : Bounded bound step) : ∀ v, v ≤ bound → (accumulate step v s = some n ↔
    (∀ c ∈ s, c.isDigit = true) ∧ Nat.ofDigitChars 10 s v = n ∧ n ≤ bound) := by
  induction s with
  | nil =>
      intro v hv
      rw [accumulate, Option.some_inj, Nat.ofDigitChars_nil]
      constructor
      · rintro rfl
        exact ⟨fun c hc => absurd hc List.not_mem_nil, rfl, hv⟩
      · exact fun h => h.2.1
  | cons c s ih =>
      intro v hv
      rw [accumulate, Nat.ofDigitChars_cons, Nat.mul_comm 10 v]
      by_cases hc : c.isDigit = true
      · rw [if_pos hc, hstep v _ hv (digit_lt hc)]
        have hall : (∀ x ∈ c :: s, x.isDigit = true) ↔ ∀ x ∈ s, x.isDigit = true := by
          rw [List.forall_mem_cons]
          exact and_iff_right hc
        by_cases hle : v * 10 + (c.toNat - '0'.toNat) ≤ bound
        · rw [if_pos hle, Option.bind_some, ih _ hle, hall]
        · rw [if_neg hle, Option.bind_none]
          refine iff_of_false (Option.some_ne_none n).symm fun ⟨_, hvalue, hn⟩ => ?_
          have hgrow := le_ofDigitChars s (v * 10 + (c.toNat - '0'.toNat))
          omega
      · rw [if_neg hc]
        exact iff_of_false (Option.some_ne_none n).symm fun h => hc (h.1 c List.mem_cons_self)

/-- A nonempty text is read exactly as the numeral it spells. -/
theorem read_iff (hstep : Bounded bound step) :
    (if s = [] then none else accumulate step 0 s) = some n ↔ Spells s n ∧ n ≤ bound := by
  by_cases hs : s = []
  · rw [if_pos hs]
    exact iff_of_false (Option.some_ne_none n).symm fun h => h.1.nonempty hs
  · rw [if_neg hs, accumulate_iff hstep 0 (Nat.zero_le bound)]
    constructor
    · exact fun h => ⟨⟨hs, h.1, h.2.1⟩, h.2.2⟩
    · exact fun h => ⟨h.1.digits, h.1.value, h.2⟩

theorem spells_toDigits (n : Nat) : Spells (Nat.toDigits 10 n) n where
  nonempty := Nat.toDigits_ne_nil
  digits _ hc := Nat.isDigit_of_mem_toDigits (by decide) (by decide) hc
  value := Nat.ofDigitChars_ten_toDigits

end RustyRig.Lib.Numeral

/-!
IPv4 addresses and their text.

`pton` and `ntop` are `inet_pton` and `inet_ntop` of that family, with an address as its number in
host order.  A dotted quad has no needless zeros, so an address has one text (`pton_iff`).
-/

namespace RustyRig.Lib.Ipv4

variable {s : List Char} {n a b c d : Nat}

/-- A part of a dotted quad: a numeral below 256, without needless zeros. -/
def octet (s : List Char) : Option Nat :=
  if Nat.ofDigitChars 10 s 0 < 256 ∧ Nat.toDigits 10 (Nat.ofDigitChars 10 s 0) = s then some (Nat.ofDigitChars 10 s 0)
  else none

/-- `inet_pton`. -/
def pton (s : List Char) : Option Nat :=
  match s.splitOn '.' with
  | [a, b, c, d] =>
      match octet a, octet b, octet c, octet d with
      | some a, some b, some c, some d => some (((a * 256 + b) * 256 + c) * 256 + d)
      | _, _, _, _ => none
  | _ => none

/-- The parts of an address. -/
def parts (n : Nat) : List Nat := [n / 256 / 256 / 256, n / 256 / 256 % 256, n / 256 % 256, n % 256]

/-- `inet_ntop`. -/
def ntop (n : Nat) : List Char := ['.'].intercalate ((parts n).map (Nat.toDigits 10))

theorem octet_iff : octet s = some n ↔ n < 256 ∧ s = Nat.toDigits 10 n := by
  unfold octet
  constructor
  · intro h
    split at h
    · rename_i hpart
      rw [← Option.some.inj h]
      exact ⟨hpart.1, hpart.2.symm⟩
    · exact absurd h (Option.some_ne_none n).symm
  · rintro ⟨hn, rfl⟩
    rw [Nat.ofDigitChars_ten_toDigits, if_pos ⟨hn, rfl⟩]

theorem dot_toDigits (n : Nat) : '.' ∉ Nat.toDigits 10 n := fun h =>
  absurd ((Numeral.spells_toDigits n).digits '.' h) (by decide)

theorem splitOn_ntop (n : Nat) : (ntop n).splitOn '.' = (parts n).map (Nat.toDigits 10) := by
  unfold ntop
  refine List.splitOn_intercalate '.' ?_ (List.cons_ne_nil _ _)
  intro l hl
  obtain ⟨part, -, rfl⟩ := List.mem_map.mp hl
  exact dot_toDigits part

theorem dot_mem_ntop (n : Nat) : '.' ∈ ntop n := by
  unfold ntop parts
  rw [List.map_cons, List.map_cons, List.intercalate_cons_cons]
  exact List.mem_append_left _ (List.mem_append_right _ List.mem_cons_self)

theorem mem_ntop {x : Char} (h : x ∈ ntop n) : x.isDigit = true ∨ x = '.' := by
  unfold ntop parts at h
  simp only [List.map_cons, List.map_nil, List.intercalate_cons_cons, List.intercalate_singleton, List.mem_append,
    List.mem_singleton] at h
  rcases h with (h | h) | (h | h) | (h | h) | h
  · exact Or.inl ((Numeral.spells_toDigits _).digits x h)
  · exact Or.inr h
  · exact Or.inl ((Numeral.spells_toDigits _).digits x h)
  · exact Or.inr h
  · exact Or.inl ((Numeral.spells_toDigits _).digits x h)
  · exact Or.inr h
  · exact Or.inl ((Numeral.spells_toDigits _).digits x h)

/-- Four numbers of three digits. -/
theorem length_ntop_le (h : n < 2 ^ 32) : (ntop n).length ≤ 15 := by
  have hpart : ∀ m < 256, (Nat.toDigits 10 m).length ≤ 3 := fun m hm =>
    (Nat.length_toDigits_le_iff (by decide) (by decide)).mpr (by omega)
  have ha := hpart (n / 256 / 256 / 256) (by omega)
  have hb := hpart (n / 256 / 256 % 256) (by omega)
  have hc := hpart (n / 256 % 256) (by omega)
  have hd := hpart (n % 256) (by omega)
  unfold ntop parts
  simp only [List.map_cons, List.map_nil, List.intercalate_cons_cons, List.intercalate_singleton, List.length_append,
    List.length_singleton]
  omega

theorem parts_eq (hb : b < 256) (hc : c < 256) (hd : d < 256) :
    parts (((a * 256 + b) * 256 + c) * 256 + d) = [a, b, c, d] := by
  have ha' : (((a * 256 + b) * 256 + c) * 256 + d) / 256 / 256 / 256 = a := by omega
  have hb' : (((a * 256 + b) * 256 + c) * 256 + d) / 256 / 256 % 256 = b := by omega
  have hc' : (((a * 256 + b) * 256 + c) * 256 + d) / 256 % 256 = c := by omega
  have hd' : (((a * 256 + b) * 256 + c) * 256 + d) % 256 = d := by omega
  unfold parts
  rw [ha', hb', hc', hd']

/-- An address has one text. -/
theorem pton_iff : pton s = some n ↔ n < 2 ^ 32 ∧ s = ntop n := by
  constructor
  · intro h
    unfold pton at h
    split at h
    · rename_i ta tb tc td hsplit
      split at h
      · rename_i a b c d ha hb hc hd
        obtain ⟨ha256, rfl⟩ := octet_iff.mp ha
        obtain ⟨hb256, rfl⟩ := octet_iff.mp hb
        obtain ⟨hc256, rfl⟩ := octet_iff.mp hc
        obtain ⟨hd256, rfl⟩ := octet_iff.mp hd
        have hn : ((a * 256 + b) * 256 + c) * 256 + d = n := Option.some.inj h
        refine ⟨by omega, ?_⟩
        have hjoin : ['.'].intercalate (s.splitOn '.') = s := List.intercalate_splitOn '.'
        rw [hsplit] at hjoin
        rw [← hn, ← hjoin]
        unfold ntop
        rw [parts_eq hb256 hc256 hd256]
        rfl
      · exact absurd h (Option.some_ne_none n).symm
    · exact absurd h (Option.some_ne_none n).symm
  · rintro ⟨hn, rfl⟩
    have ha : octet (Nat.toDigits 10 (n / 256 / 256 / 256)) = some (n / 256 / 256 / 256) := octet_iff.mpr ⟨by omega, rfl⟩
    have hb : octet (Nat.toDigits 10 (n / 256 / 256 % 256)) = some (n / 256 / 256 % 256) := octet_iff.mpr ⟨by omega, rfl⟩
    have hc : octet (Nat.toDigits 10 (n / 256 % 256)) = some (n / 256 % 256) := octet_iff.mpr ⟨by omega, rfl⟩
    have hd : octet (Nat.toDigits 10 (n % 256)) = some (n % 256) := octet_iff.mpr ⟨by omega, rfl⟩
    unfold pton
    rw [splitOn_ntop]
    unfold parts
    simp only [List.map_cons, List.map_nil, ha, hb, hc, hd]
    exact congrArg some (by omega)

theorem pton_ntop (h : n < 2 ^ 32) : pton (ntop n) = some n := pton_iff.mpr ⟨h, rfl⟩

end RustyRig.Lib.Ipv4
