/-
Chronicles.

A log of what happened, newest first.  A rule says which event may follow which past,
and a log is lawful when each of its events was allowed by what lies below it.  What a
rule forbids twice happens once, and what uses up the latest grant never outnumbers the
grants.
-/
import Mathlib.Data.List.Count

namespace RustyRig.Lib

variable {ε : Type*} {rule : List ε → ε → Prop} {log older : List ε} {e : ε}

/-- Every event of the log was allowed by the events before it. -/
def Lawful (rule : List ε → ε → Prop) (log : List ε) : Prop :=
  ∀ newer e older, log = newer ++ e :: older → rule older e

namespace Lawful

theorem nil : Lawful rule [] := by
  intro newer e older h
  exact absurd h (by simp)

theorem cons (h : Lawful rule log) (he : rule log e) : Lawful rule (e :: log) := by
  intro newer x older hsplit
  cases newer with
  | nil =>
      obtain ⟨rfl, rfl⟩ := List.cons.inj hsplit
      exact he
  | cons y ys => exact h ys x older (List.cons.inj hsplit).2

theorem head (h : Lawful rule (e :: log)) : rule log e := h [] e log rfl

theorem tail (h : Lawful rule (e :: log)) : Lawful rule log := by
  intro newer x older hsplit
  exact h (e :: newer) x older (by rw [hsplit, List.cons_append])

/-- An event that its own kind in the past forbids happens at most once. -/
theorem length_filter_le_one {p : ε → Bool} (h : Lawful rule log)
    (honce : ∀ older e, rule older e → p e = true → ∀ x ∈ older, p x = false) :
    (log.filter p).length ≤ 1 := by
  induction log with
  | nil => exact Nat.zero_le _
  | cons e log ih =>
      by_cases hp : p e = true
      · have hnone : log.filter p = [] := by
          rw [List.filter_eq_nil_iff]
          intro x hx
          rw [honce log e h.head hp x hx]
          exact Bool.false_ne_true
        rw [List.filter_cons_of_pos hp, hnone]
        exact Nat.le_refl 1
      · rw [List.filter_cons_of_neg hp]
        exact ih h.tail

/-- A use takes the latest of the events that `sel` picks, which must be its grant: there
are never more uses than grants. -/
theorem count_le_count [DecidableEq ε] (h : Lawful rule log) (sel : ε → Bool) (grant use : ε)
    (hne : use ≠ grant) (hsel : sel use = true)
    (huse : ∀ older, rule older use → older.find? sel = some grant) :
    log.count use + (if log.find? sel = some grant then 1 else 0) ≤ log.count grant := by
  induction log with
  | nil => simp
  | cons e log ih =>
      have hrec := ih h.tail
      by_cases heq : e = use
      · -- the use is now the latest, and the grant it took was counted before
        subst heq
        rw [if_pos (huse log h.head)] at hrec
        rw [List.count_cons_self, List.count_cons_of_ne hne, List.find?_cons, hsel,
          if_neg fun habs => hne (Option.some.inj habs)]
        omega
      · rw [List.count_cons_of_ne heq, List.count_cons]
        by_cases hgrant : e = grant
        · subst hgrant
          rw [beq_self_eq_true, if_pos rfl]
          split at hrec <;> split <;> omega
        · have hfind : (e :: log).find? sel = some grant → log.find? sel = some grant := by
            intro hf
            rw [List.find?_cons] at hf
            cases hs : sel e with
            | true =>
                rw [hs] at hf
                exact absurd (Option.some.inj hf) hgrant
            | false =>
                rw [hs] at hf
                exact hf
          have hle : (if (e :: log).find? sel = some grant then 1 else 0) ≤
              (if log.find? sel = some grant then 1 else 0) := by
            by_cases hf : (e :: log).find? sel = some grant
            · exact Nat.le_of_eq (by rw [if_pos hf, if_pos (hfind hf)])
            · rw [if_neg hf]
              exact Nat.zero_le _
          omega

end Lawful

end RustyRig.Lib
