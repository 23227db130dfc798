/-
Base64 and back.

Three bytes are four digits, and the one or two bytes left at the end are filled up with
padding.  What the encoder writes is made of digits and padding, in groups of four, and the
decoder makes the same bytes of it.
-/
import RustyRig.Rrserver.Invitation
import Mathlib.Data.List.Basic

namespace RustyRig

namespace Invitation

/-! ### Digits -/

theorem base64_digit : ∀ n < 64, base64Rank (base64Digit n) = n ∧ base64Digit n ≠ '=' ∧
    isBase64 (base64Digit n) = true := by
  decide +kernel

theorem base64Rank_digit {n : Nat} (h : n < 64) : base64Rank (base64Digit n) = n :=
  (base64_digit n h).1

theorem base64Digit_ne {n : Nat} (h : n < 64) : base64Digit n ≠ '=' := (base64_digit n h).2.1

theorem isBase64_digit {n : Nat} (h : n < 64) : isBase64 (base64Digit n) = true :=
  (base64_digit n h).2.2

theorem isBase64_pad : isBase64 '=' = true := rfl

/-! ### Texts -/

theorem base64Encode_length : ∀ l : List Nat, (base64Encode l).length = (l.length + 2) / 3 * 4
  | [] => rfl
  | [_] => by simp [base64Encode]
  | [_, _] => by simp [base64Encode]
  | a :: b :: c :: rest => by
      have ih := base64Encode_length rest
      simp only [base64Encode, List.length_cons, ih]
      omega

theorem base64Encode_all : ∀ l : List Nat, (∀ n ∈ l, n < 256) →
    (base64Encode l).all isBase64 = true
  | [], _ => rfl
  | [a], h => by
      have ha := h a (by simp)
      simp [base64Encode, isBase64_digit (show a / 4 < 64 by omega),
        isBase64_digit (show a % 4 * 16 < 64 by omega), isBase64_pad]
  | [a, b], h => by
      have ha := h a (by simp)
      have hb := h b (by simp)
      simp [base64Encode, isBase64_digit (show a / 4 < 64 by omega),
        isBase64_digit (show a % 4 * 16 + b / 16 < 64 by omega),
        isBase64_digit (show b % 16 * 4 < 64 by omega), isBase64_pad]
  | a :: b :: c :: rest, h => by
      have ha := h a (by simp)
      have hb := h b (by simp)
      have hc := h c (by simp)
      have ih := base64Encode_all rest fun n hn => h n (by simp [hn])
      simp [base64Encode, isBase64_digit (show a / 4 < 64 by omega),
        isBase64_digit (show a % 4 * 16 + b / 16 < 64 by omega),
        isBase64_digit (show b % 16 * 4 + c / 64 < 64 by omega),
        isBase64_digit (show c % 64 < 64 by omega), ih]

/-- Groups of four digits give their bytes back. -/
theorem base64Quads_encode : ∀ l : List Nat, (∀ n ∈ l, n < 256) → base64Quads (base64Encode l) = l
  | [], _ => rfl
  | [a], h => by
      have ha := h a (by simp)
      have h1 := base64Rank_digit (show a / 4 < 64 by omega)
      have h2 := base64Rank_digit (show a % 4 * 16 < 64 by omega)
      have hpad : base64Rank '=' = 0 := rfl
      simp only [base64Encode, base64Quads, h1, h2, hpad, if_true, List.append_nil]
      congr 1
      omega
  | [a, b], h => by
      have ha := h a (by simp)
      have hb := h b (by simp)
      have h1 := base64Rank_digit (show a / 4 < 64 by omega)
      have h2 := base64Rank_digit (show a % 4 * 16 + b / 16 < 64 by omega)
      have h3 := base64Rank_digit (show b % 16 * 4 < 64 by omega)
      have hne := base64Digit_ne (show b % 16 * 4 < 64 by omega)
      have hpad : base64Rank '=' = 0 := rfl
      simp only [base64Encode, base64Quads, h1, h2, h3, hpad, hne, if_true, if_false,
        List.append_nil]
      congr 1
      · omega
      congr 1
      omega
  | a :: b :: c :: rest, h => by
      have ha := h a (by simp)
      have hb := h b (by simp)
      have hc := h c (by simp)
      have h1 := base64Rank_digit (show a / 4 < 64 by omega)
      have h2 := base64Rank_digit (show a % 4 * 16 + b / 16 < 64 by omega)
      have h3 := base64Rank_digit (show b % 16 * 4 + c / 64 < 64 by omega)
      have h4 := base64Rank_digit (show c % 64 < 64 by omega)
      have hne := base64Digit_ne (show b % 16 * 4 + c / 64 < 64 by omega)
      have hne' := base64Digit_ne (show c % 64 < 64 by omega)
      have ih := base64Quads_encode rest fun n hn => h n (by simp [hn])
      simp only [base64Encode, base64Quads, h1, h2, h3, h4, hne, hne', if_false, ih,
        List.cons_append, List.nil_append]
      congr 1
      · omega
      congr 1
      · omega
      congr 1
      omega

theorem base64Decode_encode {l : List Nat} (h : ∀ n ∈ l, n < 256) :
    base64Decode (base64Encode l) = l := by
  have hfilter : (base64Encode l).filter isBase64 = base64Encode l :=
    List.filter_eq_self.mpr (List.all_eq_true.mp (base64Encode_all l h))
  rw [base64Decode, hfilter, base64Quads_encode l h]

end Invitation

namespace Base64

/-- **A codec.**  What was encoded is decoded to the same bytes. -/
theorem decode_encode (bytes : List UInt8) : decode (encode bytes) = bytes := by
  have hsmall : ∀ n ∈ bytes.map UInt8.toNat, n < 256 := by
    intro n hn
    obtain ⟨b, -, rfl⟩ := List.mem_map.mp hn
    exact b.toNat_lt
  rw [decode, encode, Invitation.base64Decode_encode hsmall, List.map_map]
  refine (List.map_congr_left fun b _ => ?_).trans (List.map_id bytes)
  simp

theorem encode_length (bytes : List UInt8) : (encode bytes).length = (bytes.length + 2) / 3 * 4 := by
  rw [encode, Invitation.base64Encode_length, List.length_map]

theorem encode_all (bytes : List UInt8) : (encode bytes).all Invitation.isBase64 = true := by
  refine Invitation.base64Encode_all _ fun n hn => ?_
  obtain ⟨b, -, rfl⟩ := List.mem_map.mp hn
  exact b.toNat_lt

end Base64

end RustyRig
