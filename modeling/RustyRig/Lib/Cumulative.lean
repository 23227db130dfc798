/-
Cumulative counts in a narrow field.

One side counts upwards and sends every count modulo `m`; the other widens what it reads
against the last count that it knows.  As long as no count is `m` or more ahead of that, it
reads what was sent.  Every count is sent as a record of the same length, of which the
stream may hold any part.
-/
import Mathlib.Data.List.Basic

namespace RustyRig.Lib

/-- The least count from `a` on that is `r` modulo `m`. -/
def widen (m a r : Nat) : Nat := if a / m * m + r < a then a / m * m + r + m else a / m * m + r

theorem widen_mod {m a c : Nat} (hle : a ≤ c) (hlt : c < a + m) : widen m a (c % m) = c := by
  have hm : 0 < m := by omega
  have ha : a / m * m + a % m = a := Nat.div_add_mod' a m
  have hc : c / m * m + c % m = c := Nat.div_add_mod' c m
  have hamod : a % m < m := Nat.mod_lt a hm
  have hcmod : c % m < m := Nat.mod_lt c hm
  have hdiv : a / m ≤ c / m := Nat.div_le_div_right hle
  have hnext : c / m ≤ a / m + 1 := by
    calc c / m ≤ (a + m) / m := Nat.div_le_div_right (Nat.le_of_lt hlt)
      _ = a / m + 1 := Nat.add_div_right a hm
  unfold widen
  rcases Nat.lt_or_eq_of_le hdiv with hless | heq
  · have hq : c / m = a / m + 1 := by omega
    rw [hq, Nat.add_mul, Nat.one_mul] at hc
    rw [if_pos (by omega)]
    omega
  · rw [heq, if_neg (by omega)]
    omega

/-- Counts that rise from `a` to `b`. -/
def Ascends : Nat → List Nat → Nat → Prop
  | a, [], b => a = b
  | a, c :: cs, b => a < c ∧ Ascends c cs b

namespace Ascends

variable {a b c : Nat} {cs : List Nat}

theorem le (h : Ascends a cs b) : a ≤ b := by
  induction cs generalizing a with
  | nil => exact Nat.le_of_eq h
  | cons c cs ih => exact Nat.le_trans (Nat.le_of_lt h.1) (ih h.2)

theorem append (h : Ascends a cs b) (hlt : b < c) : Ascends a (cs ++ [c]) c := by
  induction cs generalizing a with
  | nil =>
      have h : a = b := h
      exact ⟨h ▸ hlt, rfl⟩
  | cons x cs ih => exact ⟨h.1, ih h.2⟩

theorem eq_nil (h : Ascends a cs b) (hle : b ≤ a) : cs = [] := by
  cases cs with
  | nil => rfl
  | cons c cs => exact absurd (Nat.lt_of_lt_of_le h.1 h.2.le) (Nat.not_lt.mpr hle)

end Ascends

section

variable {β : Type*} {enc : Nat → List β} {k : Nat} {cs : List Nat} {used rest : List β}

/-- A record that is complete is that of the first count. -/
theorem flatMap_record (henc : ∀ c, (enc c).length = k) (hk : 0 < k) (hused : used.length = k)
    (h : used ++ rest = cs.flatMap enc) :
    ∃ c cs', cs = c :: cs' ∧ used = enc c ∧ rest = cs'.flatMap enc := by
  cases cs with
  | nil =>
      have hnil := congrArg List.length h
      simp only [List.length_append, List.flatMap_nil, List.length_nil] at hnil
      omega
  | cons c cs =>
      rw [List.flatMap_cons] at h
      obtain ⟨hhead, htail⟩ := List.append_inj h (hused.trans (henc c).symm)
      exact ⟨c, cs, rfl, hhead, htail⟩

/-- Less than a record is no record. -/
theorem flatMap_partial (henc : ∀ c, (enc c).length = k) (hused : used.length < k)
    (h : used = cs.flatMap enc) : cs = [] := by
  cases cs with
  | nil => rfl
  | cons c cs =>
      have hlen := congrArg List.length h
      rw [List.flatMap_cons, List.length_append, henc] at hlen
      omega

end

end RustyRig.Lib
