/-
A loop over a list, again and again until nothing changes any more.

`one` looks at an element and says whether it changed the state.  A pass looks at every element in
turn; `settle` makes passes until one of them changes nothing, or the fuel runs out.  Where every
change lowers a measure, fuel above it is enough, and no element is left to change.
-/
import Mathlib.Data.List.Basic

namespace RustyRig.Lib.Settle

variable {σ α : Type*} {one : α → σ → Bool × σ} {μ : σ → Nat} {l : List α} {s : σ}

/-- One pass: whether anything changed, and the state behind it. -/
def pass (one : α → σ → Bool × σ) : List α → σ → Bool × σ
  | [], s => (false, s)
  | a :: l, s => ((one a s).1 || (pass one l (one a s).2).1, (pass one l (one a s).2).2)

def settle (one : α → σ → Bool × σ) (l : List α) : Nat → σ → σ
  | 0, s => s
  | n + 1, s => if (pass one l s).1 = true then settle one l n (pass one l s).2 else (pass one l s).2

/-- A change lowers the measure, and what reports none makes none. -/
structure Lowers (one : α → σ → Bool × σ) (μ : σ → Nat) : Prop where
  change : ∀ a s, (one a s).1 = true → μ (one a s).2 < μ s
  same : ∀ a s, (one a s).1 = false → (one a s).2 = s

/-! ### What is kept -/

theorem pass_kept {P : σ → Prop} (hone : ∀ a ∈ l, ∀ s, P s → P (one a s).2) : ∀ s, P s → P (pass one l s).2 := by
  induction l with
  | nil => exact fun s h => h
  | cons a l ih =>
      intro s h
      exact ih (fun b hb => hone b (List.mem_cons_of_mem a hb)) _ (hone a List.mem_cons_self s h)

theorem settle_kept {P : σ → Prop} (hone : ∀ a ∈ l, ∀ s, P s → P (one a s).2) (n : Nat) :
    ∀ s, P s → P (settle one l n s) := by
  induction n with
  | zero => exact fun s h => h
  | succ n ih =>
      intro s h
      unfold settle
      split_ifs
      · exact ih _ (pass_kept hone s h)
      · exact pass_kept hone s h

/-! ### Where it ends -/

theorem Lowers.pass_le (h : Lowers one μ) (l : List α) : ∀ s, μ (pass one l s).2 ≤ μ s := by
  induction l with
  | nil => exact fun s => Nat.le_refl (μ s)
  | cons a l ih =>
      intro s
      refine Nat.le_trans (ih (one a s).2) ?_
      cases hone : (one a s).1 with
      | true => exact Nat.le_of_lt (h.change a s hone)
      | false => exact Nat.le_of_eq (congrArg μ (h.same a s hone))

/-- A pass that changes something lowers the measure. -/
theorem Lowers.pass_lt (h : Lowers one μ) (l : List α) : ∀ s, (pass one l s).1 = true → μ (pass one l s).2 < μ s := by
  induction l with
  | nil => exact fun s hchanged => absurd hchanged Bool.false_ne_true
  | cons a l ih =>
      intro s hchanged
      cases hone : (one a s).1 with
      | true => exact Nat.lt_of_le_of_lt (h.pass_le l (one a s).2) (h.change a s hone)
      | false =>
          have hrest : (pass one l (one a s).2).1 = true := by
            simpa [pass, hone] using hchanged
          have hlower := ih (one a s).2 hrest
          have hsame := h.same a s hone
          simp only [pass, hsame] at hlower ⊢
          exact hlower

/-- After a pass that changes nothing, no element would. -/
theorem Lowers.pass_same (h : Lowers one μ) (l : List α) : ∀ s, (pass one l s).1 = false →
    (pass one l s).2 = s ∧ ∀ a ∈ l, (one a s).1 = false := by
  induction l with
  | nil => exact fun s _ => ⟨rfl, fun a ha => absurd ha List.not_mem_nil⟩
  | cons a l ih =>
      intro s hnone
      have hboth : (one a s).1 = false ∧ (pass one l (one a s).2).1 = false := by
        simpa [pass] using hnone
      have hsame := h.same a s hboth.1
      rw [hsame] at hboth
      obtain ⟨hstate, hrest⟩ := ih s hboth.2
      refine ⟨by simp only [pass, hsame, hstate], fun b hb => ?_⟩
      rcases List.mem_cons.mp hb with rfl | hb
      · exact hboth.1
      · exact hrest b hb

/-- With enough fuel nothing is left to change. -/
theorem Lowers.settled (h : Lowers one μ) (n : Nat) : ∀ s, μ s < n → ∀ a ∈ l, (one a (settle one l n s)).1 = false := by
  induction n with
  | zero => exact fun s hn => absurd hn (Nat.not_lt_zero _)
  | succ n ih =>
      intro s hn
      unfold settle
      split_ifs with hchanged
      · refine ih _ (Nat.lt_of_lt_of_le (h.pass_lt l s hchanged) (Nat.le_of_lt_succ hn))
      · obtain ⟨hstate, hnone⟩ := h.pass_same l s (by simpa using hchanged)
        rw [hstate]
        exact hnone

/-! ### A measure -/

/-- Fewer elements pass where all that do did before, and one does no more. -/
theorem countP_lt {p q : α → Bool} {a : α} (hle : ∀ x ∈ l, q x = true → p x = true) (ha : a ∈ l) (hp : p a = true)
    (hq : q a = false) : l.countP q < l.countP p := by
  induction l with
  | nil => exact absurd ha List.not_mem_nil
  | cons x l ih =>
      have hrest : ∀ y ∈ l, q y = true → p y = true := fun y hy => hle y (List.mem_cons_of_mem x hy)
      rcases List.mem_cons.mp ha with rfl | ha
      · rw [List.countP_cons_of_neg (by simp [hq]), List.countP_cons_of_pos hp]
        exact Nat.lt_succ_of_le (List.countP_mono_left hrest)
      · have hlt := ih hrest ha
        by_cases hx : q x = true
        · rw [List.countP_cons_of_pos hx, List.countP_cons_of_pos (hle x List.mem_cons_self hx)]
          exact Nat.succ_lt_succ hlt
        · rw [List.countP_cons_of_neg hx]
          exact Nat.lt_of_lt_of_le hlt (List.sublist_cons_self x l).countP_le

end RustyRig.Lib.Settle
