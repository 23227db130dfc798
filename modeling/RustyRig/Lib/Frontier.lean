/-
Breadth-first search with a queue of fixed size.

The queue is an array that is only ever written at its end, with a flag for every number that has
been put on it.  `search` takes the next number off the front and puts on what its edges lead to;
a write past the end of the queue or of the flags is no answer at all.  On numbers below the
size there is always an answer, and it is whether the target can be reached.
-/
import Mathlib.Data.List.Nodup
import Mathlib.Data.List.Range
import Mathlib.Data.List.Perm.Subperm
import Mathlib.Logic.Relation

namespace RustyRig.Lib

open Relation

/-- The flags, and the queue up to its end. -/
structure Frontier where
  visited : Nat → Bool
  queue : List Nat

namespace Frontier

variable {size n current start target v : Nat} {edges passed : List (Nat × Nat)} {f f' : Frontier}

/-- One number, on the queue. -/
def single (start : Nat) : Frontier := { visited := fun v => v == start, queue := [start] }

/-- Puts a number on the queue. -/
def push (size v : Nat) (f : Frontier) : Option Frontier :=
  if size ≤ f.queue.length then none
  else some { visited := fun w => w == v || f.visited w, queue := f.queue ++ [v] }

/-- Follows the edges from a number. -/
def scan (size current : Nat) : List (Nat × Nat) → Frontier → Option Frontier
  | [], f => some f
  | (src, dst) :: rest, f =>
      if src = current then
        if size ≤ dst then none
        else if f.visited dst then scan size current rest f
        else (push size dst f).bind (scan size current rest)
      else scan size current rest f

/-- Takes numbers off the queue until it is empty or the target is found. -/
def search (size : Nat) (edges : List (Nat × Nat)) (target : Nat) : Nat → Nat → Frontier → Option Bool
  | 0, _, _ => none
  | fuel + 1, head, f =>
      match f.queue[head]? with
      | none => some false
      | some current =>
          if current = target then some true
          else (scan size current edges f).bind (search size edges target fuel (head + 1))

/-- What the edges say. -/
def Steps (edges : List (Nat × Nat)) (x y : Nat) : Prop := (x, y) ∈ edges

/-- What holds of the queue throughout: every number on it once, flagged, reached from the start. -/
structure Sound (edges : List (Nat × Nat)) (n start : Nat) (f : Frontier) : Prop where
  nodup : f.queue.Nodup
  flagged : ∀ v, f.visited v = true ↔ v ∈ f.queue
  reached : ∀ v ∈ f.queue, ReflTransGen (Steps edges) start v
  below : ∀ v ∈ f.queue, v < n
  started : start ∈ f.queue

theorem sound_single (hstart : start < n) : Sound edges n start (single start) where
  nodup := List.nodup_singleton start
  flagged v := by
    rw [single, List.mem_singleton]
    exact beq_iff_eq
  reached v hv := by
    rw [List.mem_singleton.mp hv]
  below v hv := by
    rw [List.mem_singleton.mp hv]
    exact hstart
  started := List.mem_singleton_self start

/-- Numbers below `n` that are all different leave room for one that is missing. -/
theorem length_lt_of_not_mem {l : List Nat} (hnodup : l.Nodup) (hbelow : ∀ v ∈ l, v < n) (hv : v ∉ l) (hvn : v < n) :
    l.length < n := by
  have hcons : (v :: l).Nodup := List.nodup_cons.mpr ⟨hv, hnodup⟩
  have hsubset : (v :: l) ⊆ List.range n := by
    intro w hw
    rcases List.mem_cons.mp hw with rfl | hw
    · exact List.mem_range.mpr hvn
    · exact List.mem_range.mpr (hbelow w hw)
  have hle := (List.subperm_of_subset hcons hsubset).length_le
  rw [List.length_cons, List.length_range] at hle
  omega

theorem Sound.length_le (h : Sound edges n start f) : f.queue.length ≤ n := by
  have hsubset : f.queue ⊆ List.range n := fun w hw => List.mem_range.mpr (h.below w hw)
  have hle := (List.subperm_of_subset h.nodup hsubset).length_le
  rwa [List.length_range] at hle

theorem Sound.push (h : Sound edges n start f) (hsize : n ≤ size) (hv : f.visited v = false) (hvn : v < n)
    (hreached : ReflTransGen (Steps edges) start v) :
    ∃ f', push size v f = some f' ∧ Sound edges n start f' ∧ f'.queue = f.queue ++ [v] := by
  have hmissing : v ∉ f.queue := by
    intro hmem
    rw [(h.flagged v).mpr hmem] at hv
    exact Bool.false_ne_true hv.symm
  have hroom : ¬ size ≤ f.queue.length := by
    have hlt := length_lt_of_not_mem h.nodup h.below hmissing hvn
    omega
  refine ⟨_, if_neg hroom, ⟨?_, ?_, ?_, ?_, List.mem_append_left _ h.started⟩, rfl⟩
  · exact List.Nodup.append h.nodup (List.nodup_singleton v)
      (List.disjoint_singleton.mpr hmissing)
  · intro w
    rw [List.mem_append, List.mem_singleton, Bool.or_eq_true, h.flagged, beq_iff_eq]
    exact or_comm
  · intro w hw
    rcases List.mem_append.mp hw with hw | hw
    · exact h.reached w hw
    · rw [List.mem_singleton.mp hw]
      exact hreached
  · intro w hw
    rcases List.mem_append.mp hw with hw | hw
    · exact h.below w hw
    · rw [List.mem_singleton.mp hw]
      exact hvn

/-- Following a number's edges never overruns the queue, extends it, and leaves on it everything
these edges lead to. -/
theorem scan_spec (hsize : n ≤ size) (hcurrent : ReflTransGen (Steps edges) start current)
    (hedges : ∀ e ∈ edges, e.2 < n) :
    ∀ {rest : List (Nat × Nat)} {f : Frontier}, rest ⊆ edges → Sound edges n start f →
      ∃ f', scan size current rest f = some f' ∧ Sound edges n start f' ∧ f.queue <+: f'.queue ∧
        ∀ w, (current, w) ∈ rest → w ∈ f'.queue
  | [], f, _, h => ⟨f, rfl, h, List.prefix_rfl, fun w hw => absurd hw List.not_mem_nil⟩
  | (src, dst) :: rest, f, hsubset, h => by
      have hmem : (src, dst) ∈ edges := hsubset List.mem_cons_self
      have hrest : rest ⊆ edges := fun e he => hsubset (List.mem_cons_of_mem _ he)
      have hdst : dst < n := hedges _ hmem
      rw [scan]
      by_cases hsrc : src = current
      · rw [if_pos hsrc, if_neg (by omega)]
        cases hvisited : f.visited dst with
        | true =>
            rw [if_pos rfl]
            obtain ⟨f', hscan, hsound, hgrown, hall⟩ := scan_spec hsize hcurrent hedges hrest h
            refine ⟨f', hscan, hsound, hgrown, fun w hw => ?_⟩
            rcases List.mem_cons.mp hw with heq | hw
            · obtain ⟨-, rfl⟩ := Prod.mk.inj heq
              exact hgrown.subset ((h.flagged _).mp hvisited)
            · exact hall w hw
        | false =>
            rw [if_neg Bool.false_ne_true]
            have hreached : ReflTransGen (Steps edges) start dst := hcurrent.tail (hsrc ▸ hmem)
            obtain ⟨f₁, hpush, hsound₁, hqueue⟩ := h.push hsize hvisited hdst hreached
            obtain ⟨f', hscan, hsound, hgrown, hall⟩ := scan_spec hsize hcurrent hedges hrest hsound₁
            rw [hpush, Option.bind_some]
            refine ⟨f', hscan, hsound, (hqueue ▸ List.prefix_append f.queue [dst]).trans hgrown, fun w hw => ?_⟩
            rcases List.mem_cons.mp hw with heq | hw
            · obtain ⟨-, rfl⟩ := Prod.mk.inj heq
              exact hgrown.subset (hqueue ▸ List.mem_append_right _ (List.mem_singleton_self _))
            · exact hall w hw
      · rw [if_neg hsrc]
        obtain ⟨f', hscan, hsound, hgrown, hall⟩ := scan_spec hsize hcurrent hedges hrest h
        refine ⟨f', hscan, hsound, hgrown, fun w hw => ?_⟩
        rcases List.mem_cons.mp hw with heq | hw
        · obtain ⟨rfl, -⟩ := Prod.mk.inj heq
          exact absurd rfl hsrc
        · exact hall w hw

/-- What lies before the head is done: it is not the target, and its edges have been followed. -/
def Done (edges : List (Nat × Nat)) (target head : Nat) (queue : List Nat) : Prop :=
  ∀ i v, i < head → queue[i]? = some v → v ≠ target ∧ ∀ w, (v, w) ∈ edges → w ∈ queue

/-- A queue that is done holds everything that can be reached. -/
theorem mem_of_reached (h : Sound edges n start f) (hdone : Done edges target f.queue.length f.queue)
    (hreached : ReflTransGen (Steps edges) start v) : v ∈ f.queue := by
  induction hreached with
  | refl => exact h.started
  | tail _ hstep ih =>
      obtain ⟨i, hi, hget⟩ := List.getElem_of_mem ih
      exact (hdone i _ hi (by rw [List.getElem?_eq_getElem hi, hget])).2 _ hstep

theorem search_loop (hsize : n ≤ size) (hedges : ∀ e ∈ edges, e.2 < n) :
    ∀ {fuel head : Nat} {f : Frontier}, n + 1 ≤ fuel + head → head ≤ f.queue.length →
      Sound edges n start f → Done edges target head f.queue →
      ∃ b, search size edges target fuel head f = some b ∧
        (b = true ↔ ReflTransGen (Steps edges) start target)
  | 0, head, f, hfuel, hhead, h, _ => by
      have hle := h.length_le
      omega
  | fuel + 1, head, f, hfuel, hhead, h, hdone => by
      rw [search]
      split
      · rename_i hend
        have hlength : head = f.queue.length := by
          have hge := List.getElem?_eq_none_iff.mp hend
          omega
        rw [hlength] at hdone
        refine ⟨false, rfl, ⟨fun hfalse => absurd hfalse Bool.false_ne_true, fun hreached => ?_⟩⟩
        obtain ⟨i, hi, hget⟩ := List.getElem_of_mem (mem_of_reached h hdone hreached)
        exact absurd rfl (hdone i target hi (by rw [List.getElem?_eq_getElem hi, hget])).1
      · rename_i current hcurrent
        have hmem : current ∈ f.queue := List.mem_of_getElem? hcurrent
        have hlt : head < f.queue.length := (List.getElem?_eq_some_iff.mp hcurrent).1
        split
        · rename_i heq
          exact ⟨true, rfl, ⟨fun _ => heq ▸ h.reached _ hmem, fun _ => rfl⟩⟩
        · rename_i hother
          obtain ⟨f', hscan, hsound, hgrown, hall⟩ :=
            scan_spec hsize (h.reached _ hmem) hedges (List.Subset.refl edges) h
          rw [hscan, Option.bind_some]
          have hlonger := hgrown.length_le
          -- the queue only grows, so what was before the head still is
          have hkept : ∀ i v, i ≤ head → f'.queue[i]? = some v → f.queue[i]? = some v := by
            intro i v hi hget
            rw [← hget]
            exact (List.prefix_iff_getElem?.mp hgrown i (by omega)).symm ▸ List.getElem?_eq_getElem (by omega)
          refine search_loop hsize hedges (by omega) (by omega) hsound fun i v hi hget => ?_
          rcases Nat.lt_succ_iff_lt_or_eq.mp hi with hbefore | heq
          · obtain ⟨hne, hfollowed⟩ := hdone i v hbefore (hkept i v hbefore.le hget)
            exact ⟨hne, fun w hw => hgrown.subset (hfollowed w hw)⟩
          · have hv : v = current := by
              have hget' := hkept i v heq.le hget
              rw [heq, hcurrent] at hget'
              exact (Option.some.inj hget').symm
            exact ⟨hv ▸ hother, fun w hw => hall w (hv ▸ hw)⟩

/-- The search answers, and says whether the target can be reached. -/
theorem search_spec (hsize : n ≤ size) (hedges : ∀ e ∈ edges, e.2 < n) (hstart : start < n) :
    ∃ b, search size edges target (size + 1) 0 (single start) = some b ∧
      (b = true ↔ ReflTransGen (Steps edges) start target) :=
  search_loop hsize hedges (by omega) (Nat.zero_le _) (sound_single hstart)
    fun _ _ hi _ => absurd hi (Nat.not_lt_zero _)

end Frontier

end RustyRig.Lib
