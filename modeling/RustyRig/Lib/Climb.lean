/-
Climbing a parent relation to its root.

A table of nodes that each name their parent is a tree exactly when following the
names from any node ends at the root.  `Climb r root a p` says that it does from
`a`, and that `p` is the list of what was visited, `a` first and `root` last.

Being an inductive predicate it carries its own termination: there is no cycle to
rule out and no bound to count.  What a user of it supplies is `Rooted`: that `r` is
a function where it is defined and that the root has no parent.  From these alone
the visited list is unique and repeats nothing.
-/
import Mathlib.Data.List.Nodup
import Mathlib.Data.List.Infix
import Mathlib.Logic.Relation

namespace RustyRig.Lib

/-- Following `r` from `a` visits `p` and ends at `root`. -/
inductive Climb {α : Type} (r : α → α → Prop) (root : α) : α → List α → Prop
  | root : Climb r root root [root]
  | step {a b : α} {p : List α} (h : r a b) (hb : Climb r root b p) : Climb r root a (a :: p)

/-- Nobody has two parents, and the root has none. -/
structure Rooted {α : Type} (r : α → α → Prop) (root : α) : Prop where
  unique : ∀ {a b c}, r a b → r a c → b = c
  orphan : ∀ {b}, ¬ r root b

namespace Climb

variable {α : Type} {r s : α → α → Prop} {root a b : α} {p q : List α}

theorem head (h : Climb r root a p) : ∃ t, p = a :: t := by
  cases h with
  | root => exact ⟨[], rfl⟩
  | step => exact ⟨_, rfl⟩

theorem self_mem (h : Climb r root a p) : a ∈ p := by
  obtain ⟨t, rfl⟩ := h.head
  exact List.mem_cons_self

theorem root_mem (h : Climb r root a p) : root ∈ p := by
  induction h with
  | root => exact List.mem_singleton_self _
  | step _ _ ih => exact List.mem_cons_of_mem _ ih

/-- The root is visited last. -/
theorem last (h : Climb r root a p) : ∃ q, p = q ++ [root] := by
  induction h with
  | root => exact ⟨[], rfl⟩
  | step _ _ ih =>
      obtain ⟨q, rfl⟩ := ih
      exact ⟨_ :: q, rfl⟩

/-- Only the root climbs without an edge. -/
theorem uncons (h : Climb r root a p) :
    a = root ∨ ∃ b q, p = a :: q ∧ r a b ∧ Climb r root b q := by
  cases h with
  | root => exact Or.inl rfl
  | step h hb => exact Or.inr ⟨_, _, rfl, h, hb⟩

/-- Whatever a climb visits climbs on along the rest of the same list. -/
theorem of_mem (h : Climb r root a p) (hb : b ∈ p) :
    ∃ q, q <:+ p ∧ Climb r root b q := by
  induction h with
  | root =>
      rw [List.mem_singleton] at hb
      subst hb
      exact ⟨[b], List.suffix_refl _, .root⟩
  | @step a c p hr hc ih =>
      rcases List.mem_cons.mp hb with rfl | hb
      · exact ⟨b :: p, List.suffix_refl _, .step hr hc⟩
      · obtain ⟨q, hsuf, hq⟩ := ih hb
        exact ⟨q, hsuf.trans (List.suffix_cons a p), hq⟩

/-- A climb reaches whatever it visits. -/
theorem reaches (h : Climb r root a p) (hb : b ∈ p) : Relation.ReflTransGen r a b := by
  induction h with
  | root =>
      rw [List.mem_singleton.mp hb]
  | step hr _ ih =>
      rcases List.mem_cons.mp hb with rfl | hb
      · exact .refl
      · exact .head hr (ih hb)

/-- With one parent per node and none for the root, the visited list is unique. -/
theorem unique (hr : Rooted r root) (hp : Climb r root a p) (hq : Climb r root a q) :
    p = q := by
  induction hp generalizing q with
  | root =>
      cases hq with
      | root => rfl
      | step h _ => exact absurd h hr.orphan
  | step h _ ih =>
      cases hq with
      | root => exact absurd h hr.orphan
      | step h' hq =>
          obtain rfl := hr.unique h h'
          rw [ih hq]

/-- A unique climb repeats nothing: a repeat would climb along two lists. -/
theorem nodup (hr : Rooted r root) (hp : Climb r root a p) : p.Nodup := by
  induction hp with
  | root => exact List.nodup_singleton _
  | @step a b p h hb ih =>
      refine List.nodup_cons.mpr ⟨fun hmem => ?_, ih⟩
      obtain ⟨q, hsuf, hq⟩ := hb.of_mem hmem
      have hself : Climb r root a (a :: p) := .step h hb
      have heq : a :: p = q := unique hr hself hq
      have hle : q.length ≤ p.length := hsuf.length_le
      rw [← heq, List.length_cons] at hle
      omega

/-- More edges never undo a climb. -/
theorem mono (hrs : ∀ {a b}, r a b → s a b) (hp : Climb r root a p) : Climb s root a p := by
  induction hp with
  | root => exact .root
  | step h _ ih => exact .step (hrs h) ih

/-- A climb to `b` goes on along a climb from the parent of `b`. -/
theorem append {c : α} (hrs : ∀ {a b}, r a b → s a b) (hp : Climb r b a p) (hbc : s b c)
    (hq : Climb s root c q) : Climb s root a (p ++ q) := by
  induction hp with
  | root => exact .step hbc hq
  | step h _ ih => exact .step (hrs h) ih

/-- A set closed under `r`, on which `s` still has every edge of `r`, keeps its climbs. -/
theorem restrict {K : α → Prop} (hK : ∀ {a b}, K a → r a b → K b ∧ s a b)
    (hp : Climb r root a p) (ha : K a) : Climb s root a p := by
  induction hp with
  | root => exact .root
  | step h _ ih =>
      obtain ⟨hb, hs⟩ := hK ha h
      exact .step hs (ih hb)

/-- A climb that starts off the root enters it from one child: the branch of `a`. -/
theorem branch (hr : Rooted r root) (hp : Climb r root a p) (hne : a ≠ root) :
    ∃ q b, p = q ++ [b, root] ∧ r b root := by
  induction hp with
  | root => exact absurd rfl hne
  | @step a c p h hc ih =>
      by_cases hcr : c = root
      · subst hcr
        cases hc with
        | root => exact ⟨[], a, rfl, h⟩
        | step h' _ => exact absurd h' hr.orphan
      · obtain ⟨q, b, rfl, hb⟩ := ih hcr
        exact ⟨a :: q, b, rfl, hb⟩

end Climb

end RustyRig.Lib
