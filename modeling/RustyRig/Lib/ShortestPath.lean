/-
Shortest paths under a three-level objective.

A path from a source is worth its cost, then its number of edges, then the name of
the first node it goes to; `Label` is that triple, ordered lexicographically.  A
graph is a weight on pairs of nodes, 0 meaning no edge.

`Route` lists what paths that leave the source once are worth, `Walk` what any walk
from it is worth.  With positive weights coming back to the source never pays, so
the two have the same minimum.

What an algorithm has to deliver is `Feasible`: labels that paths attain and that no
edge improves on.  `Feasible.isLeast` turns such a certificate into optimality, and
nothing about how the labels were found enters.
-/
import Mathlib.Data.Prod.Lex
import Mathlib.Order.Bounds.Basic

namespace RustyRig.Lib

/-- What a path is worth: its cost, its edges, the first node it goes to. -/
@[ext]
structure Label (ν : Type) where
  cost : Nat
  hops : Nat
  first : ν
deriving DecidableEq, Repr

namespace Label

variable {ν : Type}

/-- The triple as an element of the lexicographic product. -/
def key (l : Label ν) : Nat ×ₗ Nat ×ₗ ν := toLex (l.cost, toLex (l.hops, l.first))

theorem key_injective : Function.Injective (key : Label ν → Nat ×ₗ Nat ×ₗ ν) := by
  intro a b h
  have h₁ := congrArg ofLex h
  have h₂ := congrArg ofLex (congrArg Prod.snd h₁)
  exact Label.ext (congrArg Prod.fst h₁) (congrArg Prod.fst h₂) (congrArg Prod.snd h₂)

instance [LinearOrder ν] : LinearOrder (Label ν) := LinearOrder.lift' key key_injective

variable [LinearOrder ν] {a b : Label ν} {w : Nat}

theorem lt_iff : a < b ↔ a.cost < b.cost ∨ a.cost = b.cost ∧
    (a.hops < b.hops ∨ a.hops = b.hops ∧ a.first < b.first) := by
  show key a < key b ↔ _
  rw [key, key, Prod.Lex.toLex_lt_toLex, Prod.Lex.toLex_lt_toLex]

theorem lt_of_cost (h : a.cost < b.cost) : a < b := lt_iff.mpr (Or.inl h)

/-- One more edge of weight `w` at the end. -/
def extend (l : Label ν) (w : Nat) : Label ν := ⟨l.cost + w, l.hops + 1, l.first⟩

theorem extend_mono (h : a ≤ b) : a.extend w ≤ b.extend w := by
  rcases h.lt_or_eq with hlt | rfl
  · refine le_of_lt (lt_iff.mpr ?_)
    simp only [extend]
    rcases lt_iff.mp hlt with hc | ⟨hc, hh | ⟨hh, hf⟩⟩
    · exact Or.inl (by omega)
    · exact Or.inr ⟨by omega, Or.inl (by omega)⟩
    · exact Or.inr ⟨by omega, Or.inr ⟨by omega, hf⟩⟩
  · exact le_refl _

end Label

section

variable {α ν : Type} (w : α → α → Nat) (src : α) (name : α → ν)

/-- A path that leaves the source once, through an allowed first node, is worth this. -/
inductive Route (ok : α → Prop) : α → Label ν → Prop
  | direct {v : α} (hw : w src v ≠ 0) (hv : v ≠ src) (hok : ok v) :
      Route ok v ⟨w src v, 1, name v⟩
  | hop {u v : α} {l : Label ν} (h : Route ok u l) (hw : w u v ≠ 0) (hv : v ≠ src) :
      Route ok v ⟨l.cost + w u v, l.hops + 1, l.first⟩

/-- A walk from the source, of one edge or more, is worth this. -/
inductive Walk : α → Label ν → Prop
  | direct {v : α} (hw : w src v ≠ 0) : Walk v ⟨w src v, 1, name v⟩
  | hop {u v : α} {l : Label ν} (h : Walk u l) (hw : w u v ≠ 0) :
      Walk v ⟨l.cost + w u v, l.hops + 1, l.first⟩

end

section

variable {α ν : Type} {w : α → α → Nat} {src : α} {name : α → ν} {ok : α → Prop}

theorem Route.ne_src {v : α} {l : Label ν} (h : Route w src name ok v l) : v ≠ src := by
  cases h with
  | direct _ hv _ => exact hv
  | hop _ _ hv => exact hv

/-- The first node of a path is an allowed neighbour of the source. -/
theorem Route.first {v : α} {l : Label ν} (h : Route w src name ok v l) :
    ∃ f, l.first = name f ∧ ok f ∧ w src f ≠ 0 ∧ f ≠ src := by
  induction h with
  | direct hw hv hok => exact ⟨_, rfl, hok, hw, hv⟩
  | hop _ _ _ ih => exact ih

theorem Route.hops_pos {v : α} {l : Label ν} (h : Route w src name ok v l) : 0 < l.hops := by
  cases h <;> exact Nat.succ_pos _

theorem Route.cost_pos {v : α} {l : Label ν} (h : Route w src name ok v l) : 0 < l.cost := by
  cases h with
  | direct hw _ _ => exact Nat.pos_of_ne_zero hw
  | hop _ hw _ => exact Nat.add_pos_right _ (Nat.pos_of_ne_zero hw)

theorem Route.walk {v : α} {l : Label ν} (h : Route w src name ok v l) : Walk w src name v l := by
  induction h with
  | direct hw _ _ => exact .direct hw
  | hop _ hw _ ih => exact .hop ih hw

theorem Route.mono {ok' : α → Prop} (hok : ∀ f, ok f → ok' f) {v : α} {l : Label ν}
    (h : Route w src name ok v l) : Route w src name ok' v l := by
  induction h with
  | direct hw hv hf => exact .direct hw hv (hok _ hf)
  | hop _ hw hv ih => exact .hop ih hw hv

/-- Only the first node of a path has to be allowed. -/
theorem Route.restrict {ok' : α → Prop} {v : α} {l : Label ν} (h : Route w src name ok v l)
    (hfirst : ∀ f, l.first = name f → ok' f) : Route w src name ok' v l := by
  induction h with
  | direct hw hv _ => exact .direct hw hv (hfirst _ rfl)
  | hop _ hw hv ih => exact .hop (ih hfirst) hw hv

theorem Walk.cost_pos {v : α} {l : Label ν} (h : Walk w src name v l) : 0 < l.cost := by
  cases h with
  | direct hw => exact Nat.pos_of_ne_zero hw
  | hop _ hw => exact Nat.add_pos_right _ (Nat.pos_of_ne_zero hw)

/-- What an algorithm delivers: labels that paths attain and that no edge improves. -/
structure Feasible [LinearOrder ν] (w : α → α → Nat) (src : α) (name : α → ν) (ok : α → Prop)
    (L : α → Option (Label ν)) : Prop where
  attained : ∀ {v l}, L v = some l → Route w src name ok v l
  direct : ∀ {v}, w src v ≠ 0 → v ≠ src → ok v →
    ∃ l, L v = some l ∧ l ≤ ⟨w src v, 1, name v⟩
  hop : ∀ {u v lu}, L u = some lu → w u v ≠ 0 → v ≠ src →
    ∃ l, L v = some l ∧ l ≤ lu.extend (w u v)

variable [LinearOrder ν] {L : α → Option (Label ν)}

/-- No path is worth less than the label of where it ends. -/
theorem Feasible.le (h : Feasible w src name ok L) {v : α} {l : Label ν}
    (hr : Route w src name ok v l) : ∃ l', L v = some l' ∧ l' ≤ l := by
  induction hr with
  | direct hw hv hok => exact h.direct hw hv hok
  | hop _ hw hv ih =>
      obtain ⟨lu, hlu, hle⟩ := ih
      obtain ⟨l', hl', hle'⟩ := h.hop hlu hw hv
      exact ⟨l', hl', hle'.trans (Label.extend_mono hle)⟩

/-- **The labels are the minima over all paths**, and cover every node a path reaches. -/
theorem Feasible.isLeast (h : Feasible w src name ok L) {v : α} {l : Label ν} :
    L v = some l ↔ IsLeast {l | Route w src name ok v l} l := by
  constructor
  · intro hl
    refine ⟨h.attained hl, fun l' hr => ?_⟩
    obtain ⟨l'', hl'', hle⟩ := h.le hr
    obtain rfl := Option.some.inj (hl.symm.trans hl'')
    exact hle
  · rintro ⟨hr, hmin⟩
    obtain ⟨l', hl', hle⟩ := h.le hr
    rw [hl', le_antisymm hle (hmin (h.attained hl'))]

theorem Feasible.isSome_iff (h : Feasible w src name ok L) {v : α} :
    (L v).isSome ↔ ∃ l, Route w src name ok v l := by
  constructor
  · intro hs
    obtain ⟨l, hl⟩ := Option.isSome_iff_exists.mp hs
    exact ⟨l, h.attained hl⟩
  · rintro ⟨l, hr⟩
    obtain ⟨l', hl', -⟩ := h.le hr
    exact Option.isSome_iff_exists.mpr ⟨l', hl'⟩

/-- Where fewer first nodes are allowed the minimum is no less, and it is the same one if it is still
allowed. -/
theorem isLeast_restrict {ok' : α → Prop} (hok : ∀ f, ok' f → ok f) {v : α} {l : Label ν}
    (h : IsLeast {l | Route w src name ok v l} l) :
    (∀ l', IsLeast {l | Route w src name ok' v l} l' → l ≤ l') ∧
      ((∀ f, l.first = name f → ok' f) → IsLeast {l | Route w src name ok' v l} l) := by
  constructor
  · intro l' h'
    exact h.2 (h'.1.mono hok)
  · intro hfirst
    exact ⟨h.1.restrict hfirst, fun l'' hr => h.2 (hr.mono hok)⟩

/-- A walk that came back to the source is worth less without its return. -/
theorem Walk.route {v : α} {l : Label ν} (h : Walk w src name v l) (hv : v ≠ src) :
    ∃ l', Route w src name (fun _ => True) v l' ∧ l' ≤ l := by
  induction h with
  | direct hw => exact ⟨_, .direct hw hv trivial, le_refl _⟩
  | @hop u v l hwalk hw ih =>
      by_cases hu : u = src
      · subst hu
        refine ⟨_, .direct hw hv trivial, le_of_lt (Label.lt_of_cost ?_)⟩
        have := hwalk.cost_pos
        show w u v < l.cost + w u v
        omega
      · obtain ⟨l', hr, hle⟩ := ih hu
        exact ⟨_, .hop hr hw hv, Label.extend_mono hle⟩

/-- Walks and paths have the same minimum. -/
theorem isLeast_walk_iff {v : α} (hv : v ≠ src) {l : Label ν} :
    IsLeast {l | Walk w src name v l} l ↔ IsLeast {l | Route w src name (fun _ => True) v l} l := by
  constructor
  · rintro ⟨hw, hmin⟩
    obtain ⟨l', hr, hle⟩ := Walk.route hw hv
    obtain rfl := le_antisymm hle (hmin hr.walk)
    exact ⟨hr, fun l'' hr' => hmin hr'.walk⟩
  · rintro ⟨hr, hmin⟩
    refine ⟨hr.walk, fun l' hw => ?_⟩
    obtain ⟨l'', hr', hle⟩ := Walk.route hw hv
    exact (hmin hr').trans hle

end

end RustyRig.Lib
