/-
Trees that are kept in step by edits.

A tree is its parent relation below a fixed root.  Two edits change it: `grow` hangs a
new member under one that is there, `prune` takes a member away with everything below
it.  One side makes edits and posts them, the other applies what arrives.

`Replays r es r'` says that the edits `es` lead from `r` to `r'` and that each of them
fits where it is applied: what grows is new and hangs under a member, what is pruned is
there.  Whoever applies the edits in this order is never handed one it must refuse.
-/
import Mathlib.Logic.Relation

namespace RustyRig.Lib

/-- One change of a parent relation. -/
inductive Edit (α : Type)
  | grow (child parent : α)
  | prune (top : α)
deriving DecidableEq, Repr

variable {α : Type} {root : α} {r r' r'' : α → α → Prop}

/-- A member is a child of something. -/
def Member (r : α → α → Prop) (a : α) : Prop := ∃ b, r a b

namespace Edit

def apply (r : α → α → Prop) : Edit α → α → α → Prop
  | grow child parent => fun a b => r a b ∨ (a = child ∧ b = parent)
  | prune top => fun a b => r a b ∧ ¬ Relation.ReflTransGen r a top

/-- The edit makes sense where it is applied. -/
def Fits (root : α) (r : α → α → Prop) : Edit α → Prop
  | grow child parent => child ≠ root ∧ ¬ Member r child ∧ (parent = root ∨ Member r parent)
  | prune top => top ≠ root ∧ Member r top

end Edit

/-- The edits lead from one relation to the other, each fitting where it is applied. -/
inductive Replays (root : α) : (α → α → Prop) → List (Edit α) → (α → α → Prop) → Prop
  | nil {a : α → α → Prop} : Replays root a [] a
  | cons {a b : α → α → Prop} {e : Edit α} {es : List (Edit α)} (fits : e.Fits root a)
      (rest : Replays root (e.apply a) es b) : Replays root a (e :: es) b

namespace Replays

/-- Later edits go on where earlier ones ended. -/
theorem append {es fs : List (Edit α)} (h : Replays root r es r') (h' : Replays root r' fs r'') :
    Replays root r (es ++ fs) r'' := by
  induction h with
  | nil => exact h'
  | cons fits _ ih => exact .cons fits (ih h')

theorem foldl_eq {es : List (Edit α)} (h : Replays root r es r') : es.foldl Edit.apply r = r' := by
  induction h with
  | nil => rfl
  | cons _ _ ih => exact ih

theorem single {e : Edit α} (fits : e.Fits root r) (heq : e.apply r = r') :
    Replays root r [e] r' := by
  subst heq
  exact .cons fits .nil

/-- A list of new members, each after its parent, can be grown in its order. -/
theorem grows {β : Type} (child parent : β → α) : ∀ (ns : List β) (r : α → α → Prop),
    (ns.map child).Nodup → (∀ n ∈ ns, child n ≠ root) → (∀ n ∈ ns, ¬ Member r (child n)) →
    (∀ pre n post, ns = pre ++ n :: post →
      parent n = root ∨ Member r (parent n) ∨ ∃ m ∈ pre, child m = parent n) →
    Replays root r (ns.map fun n => .grow (child n) (parent n))
      (fun a b => r a b ∨ ∃ n ∈ ns, a = child n ∧ b = parent n) := by
  intro ns
  induction ns with
  | nil =>
      intro r _ _ _ _
      simp only [List.not_mem_nil, false_and, exists_false, or_false]
      exact .nil
  | cons n ns ih =>
      intro r hnd hroot hnew hpar
      rw [List.map_cons, List.nodup_cons] at hnd
      have hfits : (Edit.grow (child n) (parent n)).Fits root r := by
        refine ⟨hroot n List.mem_cons_self, hnew n List.mem_cons_self, ?_⟩
        rcases hpar [] n ns rfl with h | h | ⟨m, hm, -⟩
        · exact Or.inl h
        · exact Or.inr h
        · exact absurd hm List.not_mem_nil
      refine .cons hfits ?_
      have hrest := ih ((Edit.grow (child n) (parent n)).apply r) hnd.2
        (fun m hm => hroot m (List.mem_cons_of_mem _ hm)) ?_ ?_
      · have heq : (fun a b => (Edit.grow (child n) (parent n)).apply r a b ∨
            ∃ m ∈ ns, a = child m ∧ b = parent m) =
            fun a b => r a b ∨ ∃ m ∈ n :: ns, a = child m ∧ b = parent m := by
          funext a b
          simp only [Edit.apply, List.mem_cons, exists_eq_or_imp, or_assoc]
        rw [← heq]
        exact hrest
      · rintro m hm ⟨b, hb | ⟨hc, -⟩⟩
        · exact hnew m (List.mem_cons_of_mem _ hm) ⟨b, hb⟩
        · exact hnd.1 (hc ▸ List.mem_map_of_mem hm)
      · intro pre m post heq
        rcases hpar (n :: pre) m post (by rw [heq]; rfl) with h | ⟨b, hb⟩ | ⟨k, hk, hkm⟩
        · exact Or.inl h
        · exact Or.inr (Or.inl ⟨b, Or.inl hb⟩)
        · rcases List.mem_cons.mp hk with rfl | hk
          · exact Or.inr (Or.inl ⟨parent k, Or.inr ⟨hkm.symm, rfl⟩⟩)
          · exact Or.inr (Or.inr ⟨k, hk, hkm⟩)

end Replays

end RustyRig.Lib
