/-
What `sscanf` does with its directives, and that it reads back what `printf` wrote.

A directive takes what it matches off the front of a text, or fails.  `%u` passes over blanks
and takes a sign, and what does not fit wraps or saturates: whoever wants one spelling of a
number only has to print what was read and compare.  A character stands for a byte.
-/
import Mathlib.Data.List.TakeWhile
import Mathlib.Data.Nat.Digits.Defs

namespace RustyRig.Lib.Scanf

variable {s rest word : List Char} {stop : Char} {width bits n : Nat}

/-- `isspace` in the C locale. -/
def blank (c : Char) : Bool := c == ' ' || (decide (9 ≤ c.toNat) && decide (c.toNat ≤ 13))

/-- Text of the format, without blanks. -/
def literal : List Char → List Char → Option (List Char)
  | [], s => some s
  | c :: format, d :: s => if c = d then literal format s else none
  | _ :: _, [] => none

/-- `%N[^c]`. -/
def upTo (width : Nat) (stop : Char) (s : List Char) : Option (List Char × List Char) :=
  let word := (s.take width).takeWhile (· != stop)
  if word = [] then none else some (word, s.drop word.length)

/-- `%Ns`. -/
def field (width : Nat) (s : List Char) : Option (List Char × List Char) :=
  let s := s.dropWhile blank
  let word := (s.take width).takeWhile fun c => !blank c
  if word = [] then none else some (word, s.drop word.length)

/-- The number behind a sign, as `strtoul` has it in 64 bits. -/
def magnitude (negative : Bool) (n : Nat) : Nat :=
  if 2 ^ 64 ≤ n then 2 ^ 64 - 1 else if negative then (2 ^ 64 - n) % 2 ^ 64 else n

/-- `%u`, stored in so many bits. -/
def unsigned (bits : Nat) (s : List Char) : Option (Nat × List Char) :=
  let s := s.dropWhile blank
  let negative := s.head? == some '-'
  let s := if negative || s.head? == some '+' then s.tail else s
  let digits := s.takeWhile Char.isDigit
  if digits = [] then none
  else some (magnitude negative (Nat.ofDigitChars 10 digits 0) % 2 ^ bits, s.drop digits.length)

/-! ### Reading back -/

theorem literal_append (format s : List Char) : literal format (format ++ s) = some s := by
  induction format with
  | nil => rfl
  | cons c format ih =>
      rw [List.cons_append, literal, if_pos rfl]
      exact ih

/-- A word that the stop character or the end of the text closes. -/
theorem upTo_append (hne : word ≠ []) (hwidth : word.length ≤ width) (hstop : stop ∉ word)
    (hrest : rest = [] ∨ rest.head? = some stop) : upTo width stop (word ++ rest) = some (word, rest) := by
  have hword : ∀ c ∈ word, (c != stop) = true := by
    intro c hc
    rw [bne_iff_ne]
    rintro rfl
    exact hstop hc
  have hclosed : (rest.take (width - word.length)).takeWhile (· != stop) = [] := by
    rcases hrest with rfl | hhead
    · rw [List.take_nil, List.takeWhile_nil]
    · obtain ⟨tail, rfl⟩ := List.head?_eq_some_iff.mp hhead
      cases width - word.length with
      | zero => rfl
      | succ k => rw [List.take_succ_cons, List.takeWhile_cons_of_neg (by simp)]
  have htaken : ((word ++ rest).take width).takeWhile (· != stop) = word := by
    rw [List.take_append, List.take_of_length_le hwidth, List.takeWhile_append_of_pos hword, hclosed,
      List.append_nil]
  unfold upTo
  rw [htaken, if_neg hne, List.drop_left]

/-- A word without blanks that a blank or the end of the text closes. -/
theorem field_append (width : Nat) (hne : word ≠ []) (hwidth : word.length ≤ width) (hword : ∀ c ∈ word, blank c = false)
    (hrest : rest = [] ∨ ∃ c tail, rest = c :: tail ∧ blank c = true) : field width (word ++ rest) = some (word, rest) := by
  have hopen : ∀ c ∈ word, (!blank c) = true := fun c hc => by rw [hword c hc]; rfl
  have hstart : (word ++ rest).dropWhile blank = word ++ rest := by
    obtain ⟨c, tail, rfl⟩ := List.exists_cons_of_ne_nil hne
    rw [List.cons_append, List.dropWhile_cons_of_neg]
    rw [hword c List.mem_cons_self]
    exact Bool.false_ne_true
  have hclosed : ((rest.take (width - word.length)).takeWhile fun c => !blank c) = [] := by
    rcases hrest with rfl | ⟨c, tail, rfl, hc⟩
    · rw [List.take_nil, List.takeWhile_nil]
    · cases width - word.length with
      | zero => rfl
      | succ k =>
          rw [List.take_succ_cons, List.takeWhile_cons_of_neg]
          rw [hc]
          exact Bool.false_ne_true
  have htaken : (((word ++ rest).take width).takeWhile fun c => !blank c) = word := by
    rw [List.take_append, List.take_of_length_le hwidth, List.takeWhile_append_of_pos hopen, hclosed,
      List.append_nil]
  unfold field
  rw [hstart]
  dsimp only
  rw [htaken, if_neg hne, List.drop_left]

theorem field_blank {c : Char} (h : blank c = true) (width : Nat) (s : List Char) : field width (c :: s) = field width s := by
  unfold field
  rw [List.dropWhile_cons_of_pos h]

theorem field_nil (width : Nat) : field width [] = none := by
  unfold field
  rw [List.dropWhile_nil]
  dsimp only
  rw [List.take_nil, List.takeWhile_nil, if_pos rfl]

theorem not_blank_of_digit {c : Char} (h : c.isDigit = true) : blank c = false ∧ c ≠ '-' ∧ c ≠ '+' := by
  unfold Char.isDigit at h
  rw [Bool.and_eq_true, decide_eq_true_eq, decide_eq_true_eq] at h
  have hlow : 48 ≤ c.toNat := h.1
  refine ⟨?_, ?_, ?_⟩
  · unfold blank
    rw [Bool.or_eq_false_iff, Bool.and_eq_false_iff, decide_eq_false_iff_not, decide_eq_false_iff_not]
    refine ⟨?_, Or.inr (by omega)⟩
    rw [beq_eq_false_iff_ne]
    rintro rfl
    exact absurd hlow (by decide)
  · rintro rfl
    exact absurd hlow (by decide)
  · rintro rfl
    exact absurd hlow (by decide)

/-- A number in decimal, behind which no digit follows. -/
theorem unsigned_toDigits (hbits : bits ≤ 64) (hn : n < 2 ^ bits)
    (hrest : ∀ c, rest.head? = some c → c.isDigit = false) :
    unsigned bits (Nat.toDigits 10 n ++ rest) = some (n, rest) := by
  have hall : ∀ c ∈ Nat.toDigits 10 n, c.isDigit = true := fun c hc =>
    Nat.isDigit_of_mem_toDigits (by decide) (by decide) hc
  obtain ⟨d, ds, hds⟩ := List.exists_cons_of_ne_nil (Nat.toDigits_ne_nil (n := n) (b := 10))
  obtain ⟨hblank, hminus, hplus⟩ := not_blank_of_digit (hall d (by rw [hds]; exact List.mem_cons_self))
  have hskip : (Nat.toDigits 10 n ++ rest).dropWhile blank = Nat.toDigits 10 n ++ rest := by
    rw [hds, List.cons_append, List.dropWhile_cons_of_neg (by rw [hblank]; exact Bool.false_ne_true)]
  have hhead : (Nat.toDigits 10 n ++ rest).head? = some d := by
    rw [hds]
    rfl
  have hend : rest.takeWhile Char.isDigit = [] := by
    cases rest with
    | nil => rfl
    | cons c rest =>
        rw [List.takeWhile_cons_of_neg]
        rw [hrest c rfl]
        exact Bool.false_ne_true
  have htake : (Nat.toDigits 10 n ++ rest).takeWhile Char.isDigit = Nat.toDigits 10 n := by
    rw [List.takeWhile_append_of_pos hall, hend, List.append_nil]
  have hsign : ((some d : Option Char) == some '-') = false := by
    rw [beq_eq_false_iff_ne]
    exact fun h => hminus (Option.some.inj h)
  have hsign' : ((some d : Option Char) == some '+') = false := by
    rw [beq_eq_false_iff_ne]
    exact fun h => hplus (Option.some.inj h)
  have hsmall : n < 2 ^ 64 := Nat.lt_of_lt_of_le hn (Nat.pow_le_pow_right (by decide) hbits)
  have hvalue : magnitude false n % 2 ^ bits = n := by
    unfold magnitude
    rw [if_neg (Nat.not_le.mpr hsmall), if_neg Bool.false_ne_true, Nat.mod_eq_of_lt hn]
  unfold unsigned
  simp only [hskip, hhead, hsign, hsign', Bool.or_self, Bool.false_eq_true, if_false, htake,
    if_neg Nat.toDigits_ne_nil, Nat.ofDigitChars_ten_toDigits, hvalue, List.drop_left]

end RustyRig.Lib.Scanf
