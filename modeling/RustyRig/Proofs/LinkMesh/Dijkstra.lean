/-
The rounds of `dijkstra_excluding` end with shortest paths.

`Inv` is the invariant between rounds: every label is attained by a path, every
settled node is no further than any open one, and no link out of a settled node
would improve a label.  Inside a round the last clause holds only for the links
already looked at, so `Inv` takes the set of links it holds for.

That a settled node is never improved again needs no argument of its own: weights
are positive, so a candidate through a later node costs strictly more.

The widths of the sums enter through `bound`.  A label has at most as many hops as
nodes are settled, so its cost stays far below 2^64, the overflow guard never fires
and neither modulus changes anything.
-/
import RustyRig.Proofs.LinkMesh.Table
import RustyRig.Lib.ShortestPath
import Mathlib.Data.Finset.Card

namespace RustyRig

open Lib

namespace Mesh

variable {m : Mesh} {loc : String} {ex : Option (Nat → Bool)} {s : Labels} {k u v : Nat}

/-! ### Selecting the nearest open node -/

/-- Open: labelled and not settled. -/
def Open (s : Labels) (i : Nat) : Prop := s.visited i = false ∧ s.dist i ≠ uint64Max

/-- What the selection has found among the first `n` indices. -/
def Selected (s : Labels) (n : Nat) : Option Nat → Prop
  | none => ∀ i < n, ¬ Open s i
  | some u => u < n ∧ Open s u ∧ ∀ i < n, Open s i → s.dist u ≤ s.dist i

theorem select_spec (m : Mesh) (s : Labels) : Selected s m.count (select m s) := by
  rw [select]
  generalize m.count = n
  induction n with
  | zero => exact fun i hi => absurd hi (Nat.not_lt_zero i)
  | succ n ih =>
      rw [List.range_succ, List.foldl_append, List.foldl_cons, List.foldl_nil]
      generalize hu : (List.range n).foldl _ none = best at ih ⊢
      by_cases hopen : Open s n
      swap
      · -- A closed node is passed over.
        have hskip : ¬ (!s.visited n && s.dist n ≠ uint64Max && preferred m s best n) = true := by
          intro hc
          simp only [Bool.and_eq_true, Bool.not_eq_true', decide_eq_true_eq] at hc
          exact hopen hc.1
        rw [if_neg hskip]
        cases best with
        | none =>
            intro i hi
            rcases Nat.lt_succ_iff_lt_or_eq.mp hi with hi | rfl
            · exact ih i hi
            · exact hopen
        | some b =>
            obtain ⟨hb, hbo, hmin⟩ := ih
            refine ⟨Nat.lt_succ_of_lt hb, hbo, fun i hi ho => ?_⟩
            rcases Nat.lt_succ_iff_lt_or_eq.mp hi with hi | rfl
            · exact hmin i hi ho
            · exact absurd ho hopen
      have hcond : (!s.visited n && s.dist n ≠ uint64Max && preferred m s best n) =
          preferred m s best n := by
        simp [hopen.1, hopen.2]
      rw [hcond]
      cases best with
      | none =>
          refine ⟨Nat.lt_succ_self n, hopen, fun i hi ho => ?_⟩
          rcases Nat.lt_succ_iff_lt_or_eq.mp hi with hi | rfl
          · exact absurd ho (ih i hi)
          · exact le_refl _
      | some b =>
          obtain ⟨hb, hbo, hmin⟩ := ih
          by_cases hp : preferred m s (some b) n = true
          · rw [if_pos hp]
            have hle : s.dist n ≤ s.dist b := by
              simp only [preferred, Bool.or_eq_true, decide_eq_true_eq, Bool.and_eq_true,
                beq_iff_eq] at hp
              omega
            refine ⟨Nat.lt_succ_self n, hopen, fun i hi ho => ?_⟩
            rcases Nat.lt_succ_iff_lt_or_eq.mp hi with hi | rfl
            · exact hle.trans (hmin i hi ho)
            · exact le_refl _
          · rw [if_neg hp]
            have hle : s.dist b ≤ s.dist n := by
              simp only [preferred, Bool.or_eq_true, decide_eq_true_eq, not_or] at hp
              exact Nat.not_lt.mp hp.1
            refine ⟨Nat.lt_succ_of_lt hb, hbo, fun i hi ho => ?_⟩
            rcases Nat.lt_succ_iff_lt_or_eq.mp hi with hi | rfl
            · exact hmin i hi ho
            · exact hle

/-! ### The invariant -/

/-- The first hops a search may leave the local server by. -/
def Allowed (m : Mesh) (ex : Option (Nat → Bool)) (a : String) : Prop :=
  ∀ v, m.indexOf (some a) = some v → ex.any (· v) = false

/-- The label the arrays hold for `v`, with `f` its first hop. -/
def labelOf (m : Mesh) (s : Labels) (v f : Nat) : Label String := ⟨s.dist v, s.hops v, m.idAt f⟩

/-- What the arrays offer `v` through `u`. -/
def Offers (m : Mesh) (s : Labels) (u v : Nat) (l : Label String) : Prop :=
  ∃ hop, (if u = 0 then some v else s.first u) = some hop ∧
    l = ⟨s.dist u + (m.edges u v).toNat, s.hops u + 1, m.idAt hop⟩

/-- The nodes settled so far. -/
def settled (m : Mesh) (s : Labels) : Finset Nat := {i ∈ Finset.range m.count | s.visited i = true}

/-- `k` nodes are settled, and `P u v` holds of the links that have been looked at. -/
structure Inv (m : Mesh) (loc : String) (ex : Option (Nat → Bool)) (P : Nat → Nat → Prop)
    (k : Nat) (s : Labels) : Prop where
  card : (settled m s).card = k
  source : s.dist 0 = 0 ∧ s.hops 0 = 0
  blank : ∀ v, 0 < v → s.first v = none → s.dist v = uint64Max
  attained : ∀ v f, v < m.count → s.first v = some f →
    f < m.count ∧ Route m.weight loc (fun a => a) (Allowed m ex) (m.idAt v) (labelOf m s v f)
  bound : ∀ v f, 0 < v → s.first v = some f → s.hops v ≤ k ∧ s.dist v ≤ s.hops v * uintMax
  labelled : ∀ u, s.visited u = true → u < m.count ∧ (0 < u → s.first u ≠ none)
  order : ∀ u v, v < m.count → s.visited u = true → s.visited v = false → s.dist u ≤ s.dist v
  relaxed : ∀ u v, P u v → s.visited u = true → 0 < v → m.edges u v ≠ 0 →
    (u = 0 → ex.any (· v) = false) →
      ∃ f l, s.first v = some f ∧ Offers m s u v l ∧ labelOf m s v f ≤ l

namespace Inv

variable {P : Nat → Nat → Prop}

theorem card_le (h : Inv m loc ex P k s) : k ≤ m.count := by
  rw [← h.card, ← Finset.card_range m.count]
  exact Finset.card_le_card (Finset.filter_subset _ _)

/-- No label comes near the width of the sums. -/
theorem label_lt (h : Inv m loc ex P k s) (hw : m.count ≤ maxNodes)
    (hv : 0 < v → s.first v ≠ none) :
    s.hops v ≤ k ∧ s.dist v ≤ maxNodes * uintMax := by
  by_cases hv0 : v = 0
  · subst hv0
    rw [h.source.1, h.source.2]
    exact ⟨Nat.zero_le _, Nat.zero_le _⟩
  · obtain ⟨f, hf⟩ := Option.ne_none_iff_exists'.mp (hv (by omega))
    obtain ⟨hh, hd⟩ := h.bound v f (by omega) hf
    refine ⟨hh, hd.trans (Nat.mul_le_mul_right _ ?_)⟩
    have := h.card_le
    omega

theorem dist_ne (h : Inv m loc ex P k s) (hw : m.count ≤ maxNodes)
    (hv : 0 < v → s.first v ≠ none) : s.dist v ≠ uint64Max := by
  have := (h.label_lt hw hv).2
  simp only [maxNodes, uintMax, uint64Max] at this ⊢
  omega

/-- An open node has a label. -/
theorem open_labelled (h : Inv m loc ex P k s) (hopen : Open s v) :
    0 < v → s.first v ≠ none :=
  fun hv hf => hopen.2 (h.blank v hv hf)

end Inv

theorem inv_start : Inv m loc ex (fun _ _ => True) 0 start where
  card := by
    rw [Finset.card_eq_zero, settled, Finset.filter_eq_empty_iff]
    intro i _
    simp [start]
  source := by simp [start]
  blank := by
    intro v hv _
    simp [start, Function.update_of_ne (Nat.pos_iff_ne_zero.mp hv)]
  attained := fun v f _ hf => by simp [start] at hf
  bound := fun v f _ hf => by simp [start] at hf
  labelled := fun u hu => by simp [start] at hu
  order := fun u v _ hu => by simp [start] at hu
  relaxed := fun u v _ hu => by simp [start] at hu

/-! ### One round

Settling `u` makes it the last of the settled nodes, and then its row is relaxed.
`Last` is what stays true of `u` all through that loop.
-/

/-- `u` was settled last: nothing settled is further. -/
structure Last (k u : Nat) (s : Labels) : Prop where
  settled : s.visited u = true
  hops : s.hops u < k
  latest : ∀ x, s.visited x = true → s.dist x ≤ s.dist u

theorem visited_visit {x : Nat} : (visit u s).visited x = true ↔ x = u ∨ s.visited x = true := by
  by_cases hx : x = u
  · simp [visit, hx]
  · simp [visit, hx]

theorem inv_visit (h : Inv m loc ex (fun _ _ => True) k s) (hw : m.count ≤ maxNodes)
    (hu : u < m.count) (hopen : Open s u)
    (hmin : ∀ i < m.count, Open s i → s.dist u ≤ s.dist i) :
    Inv m loc ex (fun x _ => x ≠ u) (k + 1) (visit u s) ∧ Last (k + 1) u (visit u s) := by
  have hlab := h.open_labelled hopen
  have hlt := h.label_lt hw hlab
  refine ⟨⟨?_, h.source, h.blank, h.attained, ?_, ?_, ?_, ?_⟩, ?_, ?_, ?_⟩
  · have hins : settled m (visit u s) = insert u (settled m s) := by
      ext i
      simp only [settled, Finset.mem_filter, Finset.mem_range, Finset.mem_insert, visited_visit]
      constructor
      · rintro ⟨hi, rfl | hv⟩
        · exact Or.inl rfl
        · exact Or.inr ⟨hi, hv⟩
      · rintro (rfl | ⟨hi, hv⟩)
        · exact ⟨hu, Or.inl rfl⟩
        · exact ⟨hi, Or.inr hv⟩
    rw [hins, Finset.card_insert_of_notMem, h.card]
    simp [settled, hopen.1]
  · intro v f hv hf
    obtain ⟨hh, hd⟩ := h.bound v f hv hf
    exact ⟨Nat.le_succ_of_le hh, hd⟩
  · intro x hx
    rcases visited_visit.mp hx with rfl | hx
    · exact ⟨hu, hlab⟩
    · exact h.labelled x hx
  · intro x v hvc hx hv
    have hvu : v ≠ u := by
      rintro rfl
      rw [visited_visit.mpr (Or.inl rfl)] at hv
      exact absurd hv (by simp)
    have hv' : s.visited v = false := by
      simpa [visit, Function.update_of_ne hvu] using hv
    rcases visited_visit.mp hx with rfl | hx
    · show s.dist x ≤ s.dist v
      by_cases hd : s.dist v = uint64Max
      · rw [hd]
        refine hlt.2.trans ?_
        simp [maxNodes, uintMax, uint64Max]
      · exact hmin v hvc ⟨hv', hd⟩
    · exact h.order x v hvc hx hv'
  · intro x v hxu hx hv hwt hex
    rcases visited_visit.mp hx with rfl | hx
    · exact absurd rfl hxu
    · exact h.relaxed x v trivial hx hv hwt hex
  · exact visited_visit.mpr (Or.inl rfl)
  · exact Nat.lt_succ_of_le hlt.1
  · intro x hx
    rcases visited_visit.mp hx with rfl | hx
    · exact le_refl _
    · exact h.order x u hu hx hopen.1

/-- The arrays with a new label for `v`. -/
def relabel (s : Labels) (v c h hop : Nat) : Labels :=
  { s with dist := Function.update s.dist v c
           hops := Function.update s.hops v h
           first := Function.update s.first v (some hop) }

theorem improves_some {c h hop f : Nat} (hf : s.first v = some f) :
    improves m s v c h hop = true ↔ (⟨c, h, m.idAt hop⟩ : Label String) < labelOf m s v f := by
  rw [Label.lt_iff, improves, hf]
  simp [labelOf]

theorem improves_of_lt {c h hop : Nat} (hc : c < s.dist v) :
    improves m s v c h hop = true := by
  simp [improves, hc]

theorem toNat_eq_zero {x : UInt32} : x.toNat = 0 ↔ x = 0 := by
  rw [← UInt32.toNat_inj]
  rfl

/-- What one turn of the relaxation loop can do. -/
theorem relax_cases {P : Nat → Nat → Prop} (h : Inv m loc ex P k s) (hl : Last k u s)
    (hw : m.count ≤ maxNodes) (hv : 0 < v) :
    (relax m ex u s v = s ∧ (m.edges u v ≠ 0 → (u = 0 → ex.any (· v) = false) →
        ∃ f l, s.first v = some f ∧ Offers m s u v l ∧ labelOf m s v f ≤ l)) ∨
      (s.visited v = false ∧ m.edges u v ≠ 0 ∧ (u = 0 → ex.any (· v) = false) ∧
        ∃ hop, (if u = 0 then some v else s.first u) = some hop ∧
          (∀ f, s.first v = some f →
            (⟨s.dist u + (m.edges u v).toNat, s.hops u + 1, m.idAt hop⟩ : Label String)
              < labelOf m s v f) ∧
          relax m ex u s v =
            relabel s v (s.dist u + (m.edges u v).toNat) (s.hops u + 1) hop) := by
  obtain ⟨hu, hulab⟩ := h.labelled u hl.settled
  obtain ⟨hhops, hdist⟩ := h.label_lt hw hulab
  have hk := h.card_le
  have hweight := UInt32.toNat_lt (m.edges u v)
  have hsum : s.dist u + (m.edges u v).toNat < uint64Max := by
    simp only [maxNodes, uintMax, uint64Max] at hdist ⊢
    omega
  have hmod : (s.dist u + (m.edges u v).toNat) % 2 ^ 64 = s.dist u + (m.edges u v).toNat :=
    Nat.mod_eq_of_lt (by simp only [uint64Max] at hsum; omega)
  have hhop : (s.hops u + 1) % 2 ^ 32 = s.hops u + 1 :=
    Nat.mod_eq_of_lt (by simp only [maxNodes] at hw; omega)
  have hguard : ¬ uint64Max - (m.edges u v).toNat < s.dist u := by omega
  obtain ⟨hop, hoffer⟩ : ∃ hop, (if u = 0 then some v else s.first u) = some hop := by
    by_cases hu0 : u = 0
    · exact ⟨v, if_pos hu0⟩
    · rw [if_neg hu0]
      exact Option.ne_none_iff_exists'.mp (hulab (by omega))
  by_cases hedge : m.edges u v = 0
  · exact Or.inl ⟨by simp [relax, hedge], fun hc => absurd hedge hc⟩
  have hpos : (m.edges u v).toNat ≠ 0 := fun hc => hedge (toNat_eq_zero.mp hc)
  by_cases hvis : s.visited v = true
  · -- `v` was settled before `u`, so it is no further, and the link has a cost.
    refine Or.inl ⟨by simp [relax, hvis], fun _ _ => ?_⟩
    obtain ⟨f, hf⟩ := Option.ne_none_iff_exists'.mp ((h.labelled v hvis).2 hv)
    refine ⟨f, _, hf, ⟨hop, hoffer, rfl⟩, le_of_lt (Label.lt_of_cost ?_)⟩
    have := hl.latest v hvis
    show s.dist v < s.dist u + (m.edges u v).toNat
    omega
  by_cases hex : u = 0 ∧ ex.any (· v) = true
  · refine Or.inl ⟨by simp [relax, hex.1, hex.2], fun _ hc => ?_⟩
    rw [hc hex.1] at hex
    exact absurd hex.2 (by simp)
  have hturn : relax m ex u s v =
      if improves m s v (s.dist u + (m.edges u v).toNat) (s.hops u + 1) hop then
        relabel s v (s.dist u + (m.edges u v).toNat) (s.hops u + 1) hop else s := by
    rw [relax]
    simp only [hmod, hhop, hoffer]
    rw [if_neg]
    · rfl
    · simp only [Bool.or_eq_true, beq_iff_eq, Bool.and_eq_true, decide_eq_true_eq, not_or]
      exact ⟨⟨⟨hpos, hvis⟩, hex⟩, hguard⟩
  have hex' : u = 0 → ex.any (· v) = false := fun hu0 => by
    simpa using fun hc => hex ⟨hu0, hc⟩
  by_cases himp : improves m s v (s.dist u + (m.edges u v).toNat) (s.hops u + 1) hop = true
  · rw [if_pos himp] at hturn
    exact Or.inr ⟨by simpa using hvis, hedge, hex', hop, hoffer,
      fun f hf => (improves_some hf).mp himp, hturn⟩
  · rw [if_neg himp] at hturn
    refine Or.inl ⟨hturn, fun _ _ => ?_⟩
    cases hf : s.first v with
    | none =>
        have hblank := h.blank v hv hf
        exact absurd (improves_of_lt (by rw [hblank]; exact hsum)) himp
    | some f =>
        exact ⟨f, _, rfl, ⟨hop, hoffer, rfl⟩,
          not_lt.mp fun hc => himp ((improves_some hf).mpr hc)⟩

theorem labelOf_relabel {c h hop x f : Nat} (hx : x ≠ v) :
    labelOf m (relabel s v c h hop) x f = labelOf m s x f := by
  simp [labelOf, relabel, Function.update_of_ne hx]

theorem labelOf_relabel_self {c h hop f : Nat} :
    labelOf m (relabel s v c h hop) v f = ⟨c, h, m.idAt f⟩ := by
  simp [labelOf, relabel]

theorem first_relabel {c h hop x : Nat} (hx : x ≠ v) :
    (relabel s v c h hop).first x = s.first x := by
  simp [relabel, Function.update_of_ne hx]

/-- A new label for `v` changes nothing that is offered through another node. -/
theorem offers_relabel {c h hop x y : Nat} {l : Label String} (hx : x ≠ v) :
    Offers m (relabel s v c h hop) x y l ↔ Offers m s x y l := by
  simp [Offers, relabel, Function.update_of_ne hx]

/-- What is offered through a settled node is attained by a path. -/
theorem Inv.offer_attained {P : Nat → Nat → Prop} (h : Inv m loc ex P k s)
    (hm : WellFormed loc m) (hu : u < m.count) (hv : 0 < v) (hvc : v < m.count)
    (hedge : m.edges u v ≠ 0) (hex : u = 0 → ex.any (· v) = false) {hop : Nat}
    (hoffer : (if u = 0 then some v else s.first u) = some hop) :
    hop < m.count ∧ Route m.weight loc (fun a => a) (Allowed m ex) (m.idAt v)
      ⟨s.dist u + (m.edges u v).toNat, s.hops u + 1, m.idAt hop⟩ := by
  have hpos : (m.edges u v).toNat ≠ 0 := fun hc => hedge (toNat_eq_zero.mp hc)
  have hvne : m.idAt v ≠ loc := by
    rw [← hm.idAt_zero]
    intro he
    have := hm.idAt_inj hvc hm.count_pos he
    omega
  have hweight := hm.weight_idAt hu hvc
  by_cases hu0 : u = 0
  · subst hu0
    rw [if_pos rfl] at hoffer
    obtain rfl := Option.some.inj hoffer
    rw [hm.idAt_zero] at hweight
    refine ⟨hvc, ?_⟩
    rw [h.source.1, h.source.2, Nat.zero_add, Nat.zero_add, ← hweight]
    refine .direct (by rw [hweight]; exact hpos) hvne fun i hi => ?_
    rw [hm.indexOf_idAt hvc] at hi
    rw [← Option.some.inj hi]
    exact hex rfl
  · rw [if_neg hu0] at hoffer
    obtain ⟨hlt, hroute⟩ := h.attained u hop hu hoffer
    refine ⟨hlt, ?_⟩
    rw [← hweight]
    exact .hop hroute (by rw [hweight]; exact hpos) hvne

theorem inv_relax {P : Nat → Nat → Prop} (h : Inv m loc ex P k s) (hl : Last k u s)
    (hm : WellFormed loc m) (hv : 0 < v) (hvc : v < m.count) :
    Inv m loc ex (fun x y => P x y ∨ (x = u ∧ y = v)) k (relax m ex u s v) ∧
      Last k u (relax m ex u s v) := by
  rcases relax_cases h hl hm.count_le hv with
    ⟨heq, hfound⟩ | ⟨hvis, hedge, hex, hop, hoffer, hless, heq⟩
  · rw [heq]
    refine ⟨⟨h.card, h.source, h.blank, h.attained, h.bound, h.labelled, h.order, ?_⟩, hl⟩
    rintro x y (hp | ⟨rfl, rfl⟩) hx hy hedge hex
    · exact h.relaxed x y hp hx hy hedge hex
    · exact hfound hedge hex
  rw [heq]
  obtain ⟨hu, hulab⟩ := h.labelled u hl.settled
  have hvu : ∀ x, s.visited x = true → x ≠ v := by
    rintro x hx rfl
    rw [hx] at hvis
    exact absurd hvis (by simp)
  refine ⟨⟨h.card, ?_, ?_, ?_, ?_, ?_, ?_, ?_⟩, hl.settled, ?_, ?_⟩
  · simpa [relabel, Function.update_of_ne hv.ne] using h.source
  · intro x hx hf
    have hxv : x ≠ v := by
      rintro rfl
      simp [relabel] at hf
    rw [first_relabel hxv] at hf
    simpa [relabel, Function.update_of_ne hxv] using h.blank x hx hf
  · intro x f hxc hf
    by_cases hxv : x = v
    · subst hxv
      obtain rfl : hop = f := by simpa [relabel] using hf
      rw [labelOf_relabel_self]
      exact h.offer_attained hm hu hv hvc hedge hex hoffer
    · rw [first_relabel hxv] at hf
      rw [labelOf_relabel hxv]
      exact h.attained x f hxc hf
  · intro x f hx hf
    by_cases hxv : x = v
    · subst hxv
      simp only [relabel, Function.update_self]
      refine ⟨hl.hops, ?_⟩
      have hweight := UInt32.toNat_lt (m.edges u x)
      have hdist : s.dist u ≤ s.hops u * uintMax := by
        by_cases hu0 : u = 0
        · rw [hu0, h.source.1]; exact Nat.zero_le _
        · obtain ⟨g, hg⟩ := Option.ne_none_iff_exists'.mp (hulab (by omega))
          exact (h.bound u g (by omega) hg).2
      rw [Nat.succ_mul]
      simp only [uintMax] at hdist ⊢
      omega
    · rw [first_relabel hxv] at hf
      simpa [relabel, Function.update_of_ne hxv] using h.bound x f hx hf
  · intro x hx
    obtain ⟨hxc, hlab⟩ := h.labelled x hx
    exact ⟨hxc, fun hx0 => by rw [first_relabel (hvu x hx)]; exact hlab hx0⟩
  · intro x y hyc hx hy
    simp only [relabel]
    rw [Function.update_of_ne (hvu x hx)]
    by_cases hyv : y = v
    · rw [hyv, Function.update_self]
      exact (hl.latest x hx).trans (Nat.le_add_right _ _)
    · rw [Function.update_of_ne hyv]
      exact h.order x y hyc hx hy
  · rintro x y hp hx hy hxy hxex
    have hxv : x ≠ v := hvu x hx
    rcases hp with hp | ⟨rfl, rfl⟩
    · obtain ⟨f, l, hf, ho, hle⟩ := h.relaxed x y hp hx hy hxy hxex
      by_cases hyv : y = v
      · subst hyv
        refine ⟨hop, l, by simp [relabel], (offers_relabel hxv).mpr ho, ?_⟩
        rw [labelOf_relabel_self]
        exact (hless f hf).le.trans hle
      · exact ⟨f, l, by rw [first_relabel hyv]; exact hf, (offers_relabel hxv).mpr ho,
          by rw [labelOf_relabel hyv]; exact hle⟩
    · exact ⟨hop, _, by simp [relabel], (offers_relabel hxv).mpr ⟨hop, hoffer, rfl⟩,
        by rw [labelOf_relabel_self]⟩
  · simpa [relabel, Function.update_of_ne (hvu u hl.settled)] using hl.hops
  · intro x hx
    simpa [relabel, Function.update_of_ne (hvu x hx), Function.update_of_ne (hvu u hl.settled)]
      using hl.latest x hx

/-- The relaxation loop looks at every link out of `u`. -/
theorem inv_relaxAll (h : Inv m loc ex (fun x _ => x ≠ u) k s) (hl : Last k u s)
    (hm : WellFormed loc m) : Inv m loc ex (fun _ _ => True) k (relaxAll m ex u s) := by
  have hloop : ∀ n, n + 1 ≤ m.count →
      Inv m loc ex (fun x y => x ≠ u ∨ y < 1 + n) k
          ((List.range' 1 n).foldl (relax m ex u) s) ∧
        Last k u ((List.range' 1 n).foldl (relax m ex u) s) := by
    intro n
    induction n with
    | zero =>
        intro _
        refine ⟨⟨h.card, h.source, h.blank, h.attained, h.bound, h.labelled, h.order, ?_⟩, hl⟩
        intro x y hp hx hy
        exact h.relaxed x y (hp.resolve_right (by omega)) hx hy
    | succ n ih =>
        intro hn
        obtain ⟨hi, hl'⟩ := ih (by omega)
        rw [List.range'_1_concat, List.foldl_append, List.foldl_cons, List.foldl_nil]
        obtain ⟨hi', hl''⟩ := inv_relax hi hl' hm (by omega) (show 1 + n < m.count by omega)
        refine ⟨⟨hi'.card, hi'.source, hi'.blank, hi'.attained, hi'.bound, hi'.labelled, hi'.order,
          ?_⟩, hl''⟩
        intro x y hp
        refine hi'.relaxed x y ?_
        by_cases hx : x = u
        · rcases hp with hp | hp
          · exact absurd hx hp
          · rcases Nat.lt_or_ge y (1 + n) with hy | hy
            · exact Or.inl (Or.inr hy)
            · exact Or.inr ⟨hx, by omega⟩
        · exact Or.inl (Or.inl hx)
  obtain ⟨hi, -⟩ := hloop (m.count - 1) (by have := hm.count_pos; omega)
  refine ⟨hi.card, hi.source, hi.blank, hi.attained, hi.bound, hi.labelled, hi.order, ?_⟩
  intro x y _ hx hy hxy
  have hyc := (hm.bounded x y hxy).2
  exact hi.relaxed x y (Or.inr (by omega)) hx hy hxy

/-! ### All rounds -/

/-- Rounds keep the invariant, and end early only when nothing is open. -/
theorem inv_rounds (ex : Option (Nat → Bool)) (hm : WellFormed loc m) : ∀ (left k : Nat) (s : Labels),
    Inv m loc ex (fun _ _ => True) k s →
      ∃ k', Inv m loc ex (fun _ _ => True) k' (rounds m ex left s) ∧
        (k' = k + left ∨ ∀ i < m.count, ¬ Open (rounds m ex left s) i) := by
  intro left
  induction left with
  | zero => intro k s h; exact ⟨k, h, Or.inl rfl⟩
  | succ left ih =>
      intro k s h
      have hsel := select_spec m s
      rw [rounds]
      cases hu : select m s with
      | none =>
          rw [hu] at hsel
          exact ⟨k, h, Or.inr hsel⟩
      | some u =>
          rw [hu] at hsel
          obtain ⟨hlt, hopen, hmin⟩ := hsel
          obtain ⟨hv, hl⟩ := inv_visit h hm.count_le hlt hopen hmin
          obtain ⟨k', hi, hend⟩ := ih (k + 1) _ (inv_relaxAll hv hl hm)
          exact ⟨k', hi, hend.imp_left fun he => by omega⟩

/-- After `count` rounds nothing is open. -/
theorem inv_final (ex : Option (Nat → Bool)) (hm : WellFormed loc m) :
    ∃ k, Inv m loc ex (fun _ _ => True) k (rounds m ex m.count start) ∧
      ∀ i < m.count, ¬ Open (rounds m ex m.count start) i := by
  obtain ⟨k, h, hk | hend⟩ := inv_rounds ex hm m.count 0 start inv_start
  · refine ⟨k, h, fun i hi ho => ?_⟩
    -- `count` nodes are settled, so every node is.
    have hall : settled m (rounds m ex m.count start) = Finset.range m.count :=
      Finset.eq_of_subset_of_card_le (Finset.filter_subset _ _)
        (by rw [Finset.card_range, h.card]; omega)
    have hmem : i ∈ settled m (rounds m ex m.count start) := by
      rw [hall]; exact Finset.mem_range.mpr hi
    have hvis := (Finset.mem_filter.mp hmem).2
    rw [ho.1] at hvis
    exact absurd hvis (by simp)
  · exact ⟨k, h, hend⟩

/-- The label the arrays hold for a server, by name. -/
def labelFor (m : Mesh) (s : Labels) (a : String) : Option (Label String) :=
  (m.indexOf (some a)).bind fun v => if v = 0 then none else (s.first v).map (labelOf m s v)

theorem labelFor_idAt (hm : WellFormed loc m) (hv : 0 < v) (hvc : v < m.count) :
    labelFor m s (m.idAt v) = (s.first v).map (labelOf m s v) := by
  rw [labelFor, hm.indexOf_idAt hvc, Option.bind_some, if_neg (by omega)]

/-- **With nothing open the labels are feasible**, hence the shortest paths. -/
theorem Inv.feasible (h : Inv m loc ex (fun _ _ => True) k s) (hm : WellFormed loc m)
    (hend : ∀ i < m.count, ¬ Open s i) :
    Feasible m.weight loc (fun a => a) (Allowed m ex) (labelFor m s) := by
  have hsettled : ∀ v < m.count, (0 < v → s.first v ≠ none) → s.visited v = true := by
    intro v hvc hlab
    by_contra hc
    exact hend v hvc ⟨by simpa using hc, h.dist_ne hm.count_le hlab⟩
  have hpos : ∀ v, v < m.count → m.idAt v ≠ loc → 0 < v := by
    intro v hvc hne
    by_contra hc
    obtain rfl : v = 0 := by omega
    exact hne hm.idAt_zero
  refine ⟨?_, ?_, ?_⟩
  · intro a l hl
    rw [labelFor] at hl
    obtain ⟨v, hv, hl⟩ := Option.bind_eq_some_iff.mp hl
    split at hl
    · exact absurd hl (by simp)
    · obtain ⟨f, hf, rfl⟩ := Option.map_eq_some_iff.mp hl
      rw [Option.some.inj (idAt_indexOf hv)]
      exact (h.attained v f (indexOf_lt hv) hf).2
  · intro a hw hne hok
    obtain ⟨i, j, hi, hj, hloc, rfl, hedge⟩ := weight_ne_zero hw
    have hi0 : i = 0 := hm.idAt_inj hi hm.count_pos (by rw [← hloc, hm.idAt_zero])
    subst hi0
    have hj0 := hpos j hj hne
    have hvis := hsettled 0 hi (fun hc => absurd hc (Nat.lt_irrefl 0))
    obtain ⟨f, l, hf, ⟨hop, hoffer, rfl⟩, hle⟩ :=
      h.relaxed 0 j trivial hvis hj0 hedge fun _ => hok j (hm.indexOf_idAt hj)
    rw [if_pos rfl] at hoffer
    obtain rfl := Option.some.inj hoffer
    refine ⟨labelOf m s j f, by rw [labelFor_idAt hm hj0 hj, hf]; rfl, ?_⟩
    rw [← hm.idAt_zero, hm.weight_idAt hi hj]
    simpa [h.source.1, h.source.2] using hle
  · intro a b lu hlu hw hne
    obtain ⟨i, j, hi, hj, rfl, rfl, hedge⟩ := weight_ne_zero hw
    have hj0 := hpos j hj hne
    have hi0 : 0 < i := by
      by_contra hc
      rw [labelFor, hm.indexOf_idAt hi, Option.bind_some, if_pos (by omega)] at hlu
      exact absurd hlu (by simp)
    rw [labelFor_idAt hm hi0 hi] at hlu
    obtain ⟨g, hg, rfl⟩ := Option.map_eq_some_iff.mp hlu
    have hvis := hsettled i hi (fun _ hc => by rw [hc] at hg; exact absurd hg (by simp))
    obtain ⟨f, l, hf, ⟨hop, hoffer, rfl⟩, hle⟩ :=
      h.relaxed i j trivial hvis hj0 hedge fun hc => absurd hc (by omega)
    rw [if_neg (by omega), hg] at hoffer
    obtain rfl := Option.some.inj hoffer
    refine ⟨labelOf m s j f, by rw [labelFor_idAt hm hj0 hj, hf]; rfl, ?_⟩
    rw [hm.weight_idAt hi hj]
    exact hle

/-- What `dijkstra_excluding` answers is the label it ends with. -/
theorem dijkstraExcluding_eq_some {d : String} {r : MeshRoute} :
    dijkstraExcluding m (some d) ex = some r ↔
      labelFor m (rounds m ex m.count start) d = some ⟨r.cost, r.hops, r.nextHop⟩ := by
  rw [dijkstraExcluding, labelFor]
  cases hd : m.indexOf (some d) with
  | none => simp
  | some v =>
      simp only [Option.bind_some]
      by_cases hv : v = 0
      · simp [hv]
      · simp only [if_neg hv]
        cases hf : (rounds m ex m.count start).first v with
        | none => simp
        | some f =>
            simp only [Option.map_some, Option.some.injEq, labelOf, Label.mk.injEq]
            constructor
            · rintro rfl; exact ⟨rfl, rfl, rfl⟩
            · rintro ⟨hc, hh, hn⟩
              cases r
              simp only at hc hh hn
              rw [hc, hh, hn]

end Mesh

end RustyRig
