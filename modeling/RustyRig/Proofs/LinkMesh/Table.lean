/-
The mesh table is a simple undirected graph over distinct servers.

`WellFormed` is what every sequence of calls keeps: no id twice, the local server at
index 0, room for at most 256 servers, and links that are symmetric, never from a
server to itself, and only between servers of the table.  On such a table an index
is as good as an id, which is how the route computation is read off the ids in
`Proofs/LinkMesh/Dijkstra.lean`.
-/
import Mathlib.Data.List.Nodup
import RustyRig.Rrserver.LinkMesh

namespace RustyRig

namespace Mesh

variable {u : UuidFormat} {m : Mesh} {loc : String}

/-- What the mesh promises of itself when its local server is `loc`. -/
structure WellFormed (loc : String) (m : Mesh) : Prop where
  distinct : m.id.Nodup
  named : ∀ s ∈ m.id, s ≠ ""
  loc : ∃ rest, m.id = loc :: rest
  count_le : m.count ≤ maxNodes
  symm : ∀ i j, m.edges i j = m.edges j i
  irrefl : ∀ i, m.edges i i = 0
  bounded : ∀ i j, m.edges i j ≠ 0 → i < m.count ∧ j < m.count

/-- The cost of the link between two servers, by name; 0 is no link. -/
def weight (m : Mesh) (a b : String) : Nat := (m.edgeCost (some a) (some b)).toNat

theorem indexOf_lt {id : Option String} {i : Nat} (h : m.indexOf id = some i) : i < m.count := by
  cases id with
  | none => simp [indexOf] at h
  | some s =>
      rw [indexOf] at h
      split at h
      · exact absurd h (by simp)
      · exact (List.findIdx?_eq_some_iff_getElem.mp h).1

theorem idAt_indexOf {id : Option String} {i : Nat} (h : m.indexOf id = some i) :
    id = some (m.idAt i) := by
  cases id with
  | none => simp [indexOf] at h
  | some s =>
      rw [indexOf] at h
      split at h
      · exact absurd h (by simp)
      · obtain ⟨hi, hs, -⟩ := List.findIdx?_eq_some_iff_getElem.mp h
        rw [idAt, List.getD_eq_getElem?_getD, List.getElem?_eq_getElem hi, Option.getD_some,
          beq_iff_eq.mp hs]

theorem idAt_mem {i : Nat} (h : i < m.count) : m.idAt i ∈ m.id := by
  rw [idAt, List.getD_eq_getElem?_getD, List.getElem?_eq_getElem h]
  exact List.getElem_mem h

theorem indexOf_isSome {s : String} (h : s ≠ "") : (m.indexOf (some s)).isSome ↔ s ∈ m.id := by
  rw [indexOf, if_neg h, List.findIdx?_isSome, List.any_eq_true]
  constructor
  · rintro ⟨x, hx, he⟩
    rwa [← beq_iff_eq.mp he]
  · intro hs
    exact ⟨s, hs, beq_self_eq_true s⟩

/-- A link by name is a link by index. -/
theorem weight_ne_zero {a b : String} (hw : m.weight a b ≠ 0) :
    ∃ i j, i < m.count ∧ j < m.count ∧ a = m.idAt i ∧ b = m.idAt j ∧ m.edges i j ≠ 0 := by
  rw [weight, edgeCost] at hw
  cases ha : m.indexOf (some a) with
  | none => simp [ha] at hw
  | some i =>
      cases hb : m.indexOf (some b) with
      | none => simp [ha, hb] at hw
      | some j =>
          refine ⟨i, j, indexOf_lt ha, indexOf_lt hb, Option.some.inj (idAt_indexOf ha),
            Option.some.inj (idAt_indexOf hb), fun h0 => hw ?_⟩
          simp [ha, hb, h0]

namespace WellFormed

theorem count_pos (h : WellFormed loc m) : 0 < m.count := by
  obtain ⟨rest, hid⟩ := h.loc
  rw [count, hid]
  exact Nat.succ_pos _

theorem idAt_zero (h : WellFormed loc m) : m.idAt 0 = loc := by
  obtain ⟨rest, hid⟩ := h.loc
  simp [idAt, hid]

theorem indexOf_idAt (h : WellFormed loc m) {i : Nat} (hi : i < m.count) :
    m.indexOf (some (m.idAt i)) = some i := by
  have hne : m.idAt i ≠ "" := h.named _ (idAt_mem hi)
  obtain ⟨j, hj⟩ := Option.isSome_iff_exists.mp ((indexOf_isSome hne).mpr (idAt_mem hi))
  have hsame : m.idAt i = m.idAt j := Option.some.inj (idAt_indexOf hj)
  have hjlt := indexOf_lt hj
  rw [idAt, idAt, List.getD_eq_getElem?_getD, List.getD_eq_getElem?_getD,
    List.getElem?_eq_getElem (show i < m.id.length from hi),
    List.getElem?_eq_getElem (show j < m.id.length from hjlt)] at hsame
  rw [hj, (h.distinct.getElem_inj_iff).mp hsame]

theorem idAt_inj (h : WellFormed loc m) {i j : Nat} (hi : i < m.count) (hj : j < m.count)
    (he : m.idAt i = m.idAt j) : i = j := by
  have := h.indexOf_idAt hi
  rw [he, h.indexOf_idAt hj] at this
  exact (Option.some.inj this).symm

theorem weight_idAt (h : WellFormed loc m) {i j : Nat} (hi : i < m.count) (hj : j < m.count) :
    m.weight (m.idAt i) (m.idAt j) = (m.edges i j).toNat := by
  rw [weight, edgeCost, h.indexOf_idAt hi, h.indexOf_idAt hj]

end WellFormed

/-! ### Every call keeps the table -/

/-- `index_add` finds the server, has no room for it, or appends it. -/
theorem indexAdd_cases (id : Option String) :
    (∃ n, m.indexOf id = some n ∧ indexAdd u m id = (some n, m)) ∨
      indexAdd u m id = (none, m) ∨
      (∃ s, id = some s ∧ m.indexOf id = none ∧ validId u (some s) = true ∧ m.count ≠ maxNodes ∧
        indexAdd u m id = (some m.count, { m with id := m.id ++ [s] })) := by
  rw [indexAdd]
  cases hi : m.indexOf id with
  | some n => exact Or.inl ⟨n, rfl, rfl⟩
  | none =>
      refine Or.inr ?_
      by_cases hc : (!validId u id || m.count == maxNodes) = true
      · exact Or.inl (by simp [hc])
      · simp only [Bool.or_eq_true, Bool.not_eq_true', not_or, Bool.not_eq_false, beq_iff_eq] at hc
        obtain ⟨s, rfl, -⟩ := validId_some hc.1
        exact Or.inr ⟨s, rfl, rfl, hc.1, hc.2, by simp [hc]⟩

namespace WellFormed

theorem append (h : WellFormed loc m) {s : String} (hs : validId u (some s) = true)
    (hnew : m.indexOf (some s) = none) (hroom : m.count ≠ maxNodes) :
    WellFormed loc { m with id := m.id ++ [s] } where
  distinct := by
    have hmem : s ∉ m.id := by
      intro hmem
      have := (indexOf_isSome (validId_ne_empty hs)).mpr hmem
      rw [hnew] at this
      exact absurd this (by simp)
    rw [List.nodup_append]
    refine ⟨h.distinct, by simp, ?_⟩
    intro a ha b hb
    rw [List.mem_singleton.mp hb]
    rintro rfl
    exact hmem ha
  named := by
    intro a ha
    rcases List.mem_append.mp ha with ha | ha
    · exact h.named a ha
    · rw [List.mem_singleton.mp ha]; exact validId_ne_empty hs
  loc := by
    obtain ⟨rest, hid⟩ := h.loc
    exact ⟨rest ++ [s], by rw [hid]; rfl⟩
  count_le := by
    have hle := h.count_le
    show (m.id ++ [s]).length ≤ maxNodes
    rw [List.length_append, List.length_singleton]
    have : m.id.length = m.count := rfl
    omega
  symm := h.symm
  irrefl := h.irrefl
  bounded := by
    intro i j hij
    obtain ⟨hi, hj⟩ := h.bounded i j hij
    show i < (m.id ++ [s]).length ∧ j < (m.id ++ [s]).length
    rw [List.length_append]
    exact ⟨Nat.lt_add_right _ hi, Nat.lt_add_right _ hj⟩

theorem indexAdd (h : WellFormed loc m) (id : Option String) :
    WellFormed loc (indexAdd u m id).2 := by
  rcases indexAdd_cases id with ⟨n, -, heq⟩ | heq | ⟨s, rfl, hnew, hs, hroom, heq⟩
  · rw [heq]; exact h
  · rw [heq]; exact h
  · rw [heq]; exact h.append hs hnew hroom

theorem setEdge (h : WellFormed loc m) {x y : Nat} {cost : UInt32} (hx : x < m.count)
    (hy : y < m.count) (hne : x ≠ y) : WellFormed loc (m.setEdge x y cost) where
  distinct := h.distinct
  named := h.named
  loc := h.loc
  count_le := h.count_le
  symm := by
    intro i j
    simp only [Mesh.setEdge]
    rw [h.symm i j]
    congr 1
    exact propext ⟨fun hc => by omega, fun hc => by omega⟩
  irrefl := by
    intro i
    simp only [Mesh.setEdge]
    rw [if_neg (by omega)]
    exact h.irrefl i
  bounded := by
    intro i j hij
    simp only [Mesh.setEdge] at hij
    show i < m.count ∧ j < m.count
    split at hij
    · rename_i hc
      rcases hc with ⟨rfl, rfl⟩ | ⟨rfl, rfl⟩
      · exact ⟨hx, hy⟩
      · exact ⟨hy, hx⟩
    · exact h.bounded i j hij

end WellFormed

/-- What `index_add` returns is the index of the id in the table it leaves. -/
theorem indexAdd_index {id : Option String} {x : Nat}
    (hx : (indexAdd u m id).1 = some x) :
    id = some ((indexAdd u m id).2.idAt x) ∧ x < (indexAdd u m id).2.count := by
  rcases indexAdd_cases (u := u) id with ⟨n, hn, heq⟩ | heq | ⟨s, rfl, -, -, -, heq⟩
  · rw [heq] at hx ⊢
    obtain rfl := Option.some.inj hx
    exact ⟨idAt_indexOf hn, indexOf_lt hn⟩
  · rw [heq] at hx
    exact absurd hx (by simp)
  · rw [heq] at hx ⊢
    obtain rfl := Option.some.inj hx
    simp [idAt, count]

/-- Adding a server moves no other. -/
theorem indexAdd_idAt (id : Option String) {x : Nat} (hx : x < m.count) :
    (indexAdd u m id).2.idAt x = m.idAt x ∧ x < (indexAdd u m id).2.count := by
  rcases indexAdd_cases (u := u) id with ⟨n, -, heq⟩ | heq | ⟨s, rfl, -, -, -, heq⟩
  · rw [heq]; exact ⟨rfl, hx⟩
  · rw [heq]; exact ⟨rfl, hx⟩
  · rw [heq]
    have hx' : x < m.id.length := hx
    refine ⟨?_, ?_⟩
    · simp [idAt, List.getElem?_append_left hx']
    · show x < (m.id ++ [s]).length
      rw [List.length_append]
      exact Nat.lt_add_right _ hx

/-- With a valid id and room where it is needed, `index_add` succeeds. -/
theorem indexAdd_isSome {id : Option String} (hid : validId u id = true)
    (hroom : m.indexOf id = none → m.count < maxNodes) : ∃ x, (indexAdd u m id).1 = some x := by
  rw [indexAdd]
  cases hi : m.indexOf id with
  | some n => exact ⟨n, rfl⟩
  | none => exact ⟨m.count, by simp [hid, (hroom hi).ne]⟩

/-- A server in the table before `index_add` is in the table after it. -/
theorem indexAdd_indexOf {a b : Option String} (hb : (m.indexOf b).isSome) :
    ((indexAdd u m a).2.indexOf b).isSome := by
  rcases indexAdd_cases (u := u) a with ⟨n, -, heq⟩ | heq | ⟨s, -, -, -, -, heq⟩
  · rw [heq]; exact hb
  · rw [heq]; exact hb
  · rw [heq]
    cases b with
    | none => simp [indexOf] at hb
    | some t =>
        by_cases ht : t = ""
        · simp [indexOf, ht] at hb
        · exact (indexOf_isSome ht).mpr (List.mem_append_left _ ((indexOf_isSome ht).mp hb))

theorem indexAdd_count (id : Option String) :
    (indexAdd u m id).2.count ≤ m.count + if (m.indexOf id).isNone then 1 else 0 := by
  rcases indexAdd_cases (u := u) id with ⟨n, -, heq⟩ | heq | ⟨s, -, hnew, -, -, heq⟩
  · rw [heq]; exact Nat.le_add_right _ _
  · rw [heq]; exact Nat.le_add_right _ _
  · rw [heq, hnew]
    simp [count]

/-- **A link is recorded between two servers of the table, or nothing changes.** -/
theorem edge_cases (h : WellFormed loc m) (a b : Option String) (cost : UInt32) :
    (∃ x y, (indexAdd u m a).1 = some x ∧ (indexAdd u (indexAdd u m a).2 b).1 = some y ∧
        a ≠ b ∧ edge u m a b cost =
          (true, (indexAdd u (indexAdd u m a).2 b).2.setEdge x y cost)) ∨
      edge u m a b cost = (false, m) := by
  rw [edge]
  by_cases hargs : (cost == 0 || !validId u a || !validId u b || a == b) = true
  · exact Or.inr (if_pos hargs)
  rw [if_neg hargs]
  by_cases hfull : ((m.indexOf a).isNone && m.count == maxNodes) = true
  · exact Or.inr (if_pos hfull)
  rw [if_neg hfull]
  by_cases hfull' : ((m.indexOf b).isNone &&
      decide (maxNodes ≤ m.count + if (m.indexOf a).isNone then 1 else 0)) = true
  · exact Or.inr (if_pos hfull')
  rw [if_neg hfull']
  refine Or.inl ?_
  simp only [Bool.or_eq_true, Bool.not_eq_true', not_or, Bool.not_eq_false, beq_iff_eq] at hargs
  simp only [Bool.and_eq_true, beq_iff_eq, not_and, Option.isNone_iff_eq_none] at hfull
  simp only [Bool.and_eq_true, decide_eq_true_eq, not_and, Option.isNone_iff_eq_none,
    Nat.not_le] at hfull'
  obtain ⟨x, hx⟩ := indexAdd_isSome (m := m) hargs.1.1.2
    fun hi => lt_of_le_of_ne h.count_le (hfull hi)
  obtain ⟨y, hy⟩ := indexAdd_isSome (m := (indexAdd u m a).2) hargs.1.2 fun hi => by
    have hb : m.indexOf b = none := by
      by_contra hc
      have := indexAdd_indexOf (u := u) (a := a) (Option.isSome_iff_ne_none.mpr hc)
      rw [hi] at this
      exact absurd this (by simp)
    have hlt := hfull' hb
    have hle := indexAdd_count (u := u) (m := m) a
    simp only [Option.isNone_iff_eq_none] at hle
    omega
  exact ⟨x, y, hx, hy, hargs.2, by simp [hx, hy]⟩

/-- A new mesh knows its local server and no link. -/
theorem new_eq (hvalid : validId u (some loc) = true) :
    new u (some loc) = some { id := [loc], edges := fun _ _ => 0 } := by
  simp [new, hvalid, indexAdd, indexOf, validId_ne_empty hvalid, count, maxNodes]

namespace WellFormed

theorem edge (h : WellFormed loc m) (a b : Option String) (cost : UInt32) :
    WellFormed loc (edge u m a b cost).2 := by
  rcases edge_cases (u := u) h a b cost with ⟨x, y, hx, hy, hne, heq⟩ | heq
  · rw [heq]
    obtain ⟨ha, hxlt⟩ := indexAdd_index hx
    obtain ⟨hb, hylt⟩ := indexAdd_index hy
    obtain ⟨hkeep, hxlt'⟩ := indexAdd_idAt (u := u) b hxlt
    refine ((h.indexAdd a).indexAdd b).setEdge hxlt' hylt ?_
    rintro rfl
    exact hne (by rw [ha, hb, hkeep])
  · rw [heq]; exact h

theorem removeEdge (h : WellFormed loc m) (a b : Option String) :
    WellFormed loc (removeEdge m a b).2 := by
  unfold Mesh.removeEdge
  split
  swap
  · exact h
  rename_i x y hx hy
  split
  · exact h
  rename_i hne
  refine h.setEdge (indexOf_lt hx) (indexOf_lt hy) ?_
  rintro rfl
  exact hne (by simp [h.irrefl])

theorem apply (h : WellFormed loc m) (op : Op) : WellFormed loc (apply u m op) := by
  cases op with
  | edge a b cost => exact h.edge a b cost
  | removeEdge a b => exact h.removeEdge a b

theorem run (h : WellFormed loc m) (ops : List Op) : WellFormed loc (run u m ops) := by
  induction ops generalizing m with
  | nil => exact h
  | cons op ops ih => exact ih (h.apply op)

theorem new (hnew : Mesh.new u (some loc) = some m) : WellFormed loc m := by
  by_cases hvalid : validId u (some loc) = true
  · rw [new_eq hvalid] at hnew
    obtain rfl := Option.some.inj hnew
    exact ⟨by simp, by simpa using validId_ne_empty hvalid, ⟨[], rfl⟩, by simp [count, maxNodes],
      fun _ _ => rfl, fun _ => rfl, fun _ _ h => absurd rfl h⟩
  · simp [Mesh.new, hvalid] at hnew

end WellFormed

end Mesh

end RustyRig

/-!
The links of the local server, against the peers it should be linked to.

`Spokes` is kept when a peer is linked and when one is unlinked.  A table that has no room for
a new peer refuses its link; the peer then stays unknown, since no table ever shrinks.
-/

namespace RustyRig

namespace Mesh

variable {u : UuidFormat} {m : Mesh} {loc p q : String} {peers : String → Prop}

/-- The local server is linked to exactly the peers that are in the table, and all of them are
unless it is full. -/
structure Spokes (loc : String) (peers : String → Prop) (m : Mesh) : Prop where
  linked : ∀ p, m.weight loc p ≠ 0 → peers p
  recorded : ∀ p, peers p → p ∈ m.id → m.weight loc p ≠ 0
  room : ∀ p, peers p → p ∉ m.id → m.count = maxNodes

namespace WellFormed

theorem indexOf_loc (h : WellFormed loc m) : m.indexOf (some loc) = some 0 := by
  rw [← h.idAt_zero]
  exact h.indexOf_idAt h.count_pos

/-- The links of the local server are the first row of the matrix. -/
theorem weight_loc (h : WellFormed loc m) (q : String) :
    m.weight loc q = ((m.indexOf (some q)).map fun j => (m.edges 0 j).toNat).getD 0 := by
  rw [weight, edgeCost, h.indexOf_loc]
  cases m.indexOf (some q) with
  | none => rfl
  | some j => rfl

/-- A server that has an index is the one it names. -/
theorem indexOf_eq_iff {y : Nat} (hp : m.indexOf (some p) = some y) :
    m.indexOf (some q) = some y ↔ q = p := by
  constructor
  · intro hq
    exact Option.some.inj ((idAt_indexOf hq).trans (idAt_indexOf hp).symm)
  · rintro rfl
    exact hp

theorem weight_setEdge (h : WellFormed loc m) {y : Nat} (hp : m.indexOf (some p) = some y)
    (hne : p ≠ loc) (cost : UInt32) (q : String) :
    (m.setEdge 0 y cost).weight loc q = if q = p then cost.toNat else m.weight loc q := by
  have hy : y ≠ 0 := by
    rintro rfl
    exact hne ((indexOf_eq_iff h.indexOf_loc).mp hp)
  have hset : (m.setEdge 0 y cost).weight loc q =
      ((m.indexOf (some q)).map fun j => ((m.setEdge 0 y cost).edges 0 j).toNat).getD 0 :=
    (h.setEdge h.count_pos (indexOf_lt hp) hy.symm).weight_loc q
  rw [hset]
  by_cases hq : q = p
  · rw [if_pos hq, hq, hp]
    simp [Mesh.setEdge]
  rw [if_neg hq, h.weight_loc]
  cases hj : m.indexOf (some q) with
  | none => rfl
  | some j =>
      have hjy : j ≠ y := fun he => hq ((indexOf_eq_iff hp).mp (he ▸ hj))
      simp [Mesh.setEdge, hjy, hy.symm]

/-- A server that is appended has the next index, and no link. -/
theorem indexOf_append (hs : p ≠ "") (hnew : m.indexOf (some p) = none) :
    ({ m with id := m.id ++ [p] } : Mesh).indexOf (some p) = some m.count := by
  rw [indexOf, if_neg hs] at hnew ⊢
  rw [List.findIdx?_append, hnew]
  simp [count]

theorem weight_append (h : WellFormed loc m) (hs : validId u (some p) = true)
    (hnew : m.indexOf (some p) = none) (hroom : m.count ≠ maxNodes) (q : String) :
    ({ m with id := m.id ++ [p] } : Mesh).weight loc q = m.weight loc q := by
  rw [(h.append hs hnew hroom).weight_loc, h.weight_loc]
  by_cases hq : q = p
  · subst hq
    rw [indexOf_append (validId_ne_empty hs) hnew, hnew]
    have hzero : m.edges 0 m.count = 0 := by
      by_contra hne
      exact Nat.lt_irrefl _ (h.bounded _ _ hne).2
    simp [hzero]
  have hsame : ({ m with id := m.id ++ [p] } : Mesh).indexOf (some q) = m.indexOf (some q) := by
    by_cases he : q = ""
    · rw [he]
      rfl
    rw [indexOf, indexOf, if_neg he, if_neg he, List.findIdx?_append]
    have hp : [p].findIdx? (· == q) = none := by simp [Ne.symm hq]
    simp [hp]
  rw [hsame]

/-- A peer is linked: it is known or there is room for it, or the table is full and stays. -/
theorem edge_loc_cases (h : WellFormed loc m) (hloc : validId u (some loc) = true)
    (hp : validId u (some p) = true) (hne : p ≠ loc) :
    ((p ∈ m.id ∨ m.count ≠ maxNodes) ∧
      (∀ q, (Mesh.edge u m (some loc) (some p) 1).2.weight loc q =
        if q = p then 1 else m.weight loc q) ∧
      (∀ q, q ∈ (Mesh.edge u m (some loc) (some p) 1).2.id ↔ q ∈ m.id ∨ q = p) ∧
      m.count ≤ (Mesh.edge u m (some loc) (some p) 1).2.count) ∨
      (p ∉ m.id ∧ m.count = maxNodes ∧ Mesh.edge u m (some loc) (some p) 1 = (false, m)) := by
  have hother : loc ≠ p := Ne.symm hne
  cases hi : m.indexOf (some p) with
  | some y =>
      have hmem : p ∈ m.id := (indexOf_isSome (validId_ne_empty hp)).mp (by rw [hi]; rfl)
      have hedge : Mesh.edge u m (some loc) (some p) 1 = (true, m.setEdge 0 y 1) := by
        simp [Mesh.edge, hloc, hp, hother, h.indexOf_loc, hi, Mesh.indexAdd]
      rw [hedge]
      refine Or.inl ⟨.inl hmem, fun q => h.weight_setEdge hi hne 1 q, fun q => ?_, Nat.le_refl _⟩
      exact ⟨Or.inl, fun hq => hq.elim (fun hq => hq) (by rintro rfl; exact hmem)⟩
  | none =>
      have hmem : p ∉ m.id := fun hc => by
        have hsome := (indexOf_isSome (validId_ne_empty hp)).mpr hc
        rw [hi] at hsome
        exact absurd hsome (by simp)
      by_cases hfull : m.count = maxNodes
      · refine Or.inr ⟨hmem, hfull, ?_⟩
        simp [Mesh.edge, h.indexOf_loc, hi, hfull]
      have hlt : ¬ maxNodes ≤ m.count := by
        have := h.count_le
        omega
      have hedge : Mesh.edge u m (some loc) (some p) 1 =
          (true, ({ m with id := m.id ++ [p] } : Mesh).setEdge 0 m.count 1) := by
        simp [Mesh.edge, hloc, hp, hother, h.indexOf_loc, hi, hlt, Mesh.indexAdd, hfull]
      rw [hedge]
      refine Or.inl ⟨.inr hfull, fun q => ?_, fun q => ?_, ?_⟩
      · rw [(h.append hp hi hfull).weight_setEdge
          (indexOf_append (validId_ne_empty hp) hi) hne, h.weight_append hp hi hfull]
        rfl
      · show q ∈ m.id ++ [p] ↔ q ∈ m.id ∨ q = p
        simp
      · show m.count ≤ (m.id ++ [p]).length
        simp [count]

/-- A link is taken away, and no other. -/
theorem removeEdge_loc (h : WellFormed loc m) (hne : p ≠ loc) :
    (∀ q, (Mesh.removeEdge m (some loc) (some p)).2.weight loc q =
        if q = p then 0 else m.weight loc q) ∧
      (Mesh.removeEdge m (some loc) (some p)).2.id = m.id := by
  have hkeep : m.weight loc p = 0 → ∀ q, m.weight loc q = if q = p then 0 else m.weight loc q := by
    intro hzero q
    split
    · rename_i hq
      rw [hq, hzero]
    · rfl
  unfold Mesh.removeEdge
  rw [h.indexOf_loc]
  cases hi : m.indexOf (some p) with
  | none => exact ⟨hkeep (by rw [h.weight_loc, hi]; rfl), rfl⟩
  | some y =>
      simp only
      split
      · rename_i hzero
        refine ⟨hkeep ?_, rfl⟩
        rw [h.weight_loc, hi]
        simp [beq_iff_eq.mp hzero]
      · exact ⟨fun q => h.weight_setEdge hi hne 0 q, rfl⟩

end WellFormed

namespace Spokes

theorem congr (h : Spokes loc peers m) {peers' : String → Prop} (hp : ∀ p, peers' p ↔ peers p) :
    Spokes loc peers' m :=
  ⟨fun p hw => (hp p).mpr (h.linked p hw), fun p hpeer => h.recorded p ((hp p).mp hpeer),
    fun p hpeer => h.room p ((hp p).mp hpeer)⟩

theorem edge (h : Spokes loc peers m) (hm : WellFormed loc m) (hloc : validId u (some loc) = true)
    (hp : validId u (some p) = true) (hne : p ≠ loc) :
    Spokes loc (fun q => peers q ∨ q = p) (Mesh.edge u m (some loc) (some p) 1).2 := by
  rcases hm.edge_loc_cases hloc hp hne with ⟨-, hweight, hmem, hcount⟩ | ⟨hnew, hfull, heq⟩
  · refine ⟨fun q hw => ?_, fun q hq hid => ?_, fun q hq hid => ?_⟩
    · by_cases hqp : q = p
      · exact Or.inr hqp
      · rw [hweight, if_neg hqp] at hw
        exact Or.inl (h.linked q hw)
    · rw [hweight]
      by_cases hqp : q = p
      · rw [if_pos hqp]
        exact Nat.one_ne_zero
      · rw [if_neg hqp]
        exact h.recorded q (hq.resolve_right hqp) (((hmem q).mp hid).resolve_right hqp)
    · have hout : q ∉ m.id ∧ q ≠ p := not_or.mp ((not_congr (hmem q)).mp hid)
      have hbefore := h.room q (hq.resolve_right hout.2) hout.1
      have hafter := (hm.edge (u := u) (some loc) (some p) 1).count_le
      omega
  · rw [heq]
    refine ⟨fun q hw => Or.inl (h.linked q hw), fun q hq hid => ?_, fun q _ _ => hfull⟩
    refine h.recorded q (hq.resolve_right ?_) hid
    rintro rfl
    exact hnew hid

theorem removeEdge (h : Spokes loc peers m) (hm : WellFormed loc m) (hne : p ≠ loc) :
    Spokes loc (fun q => peers q ∧ q ≠ p) (Mesh.removeEdge m (some loc) (some p)).2 := by
  obtain ⟨hweight, hid⟩ := hm.removeEdge_loc hne
  have hcount : (Mesh.removeEdge m (some loc) (some p)).2.count = m.count :=
    congrArg List.length hid
  refine ⟨fun q hw => ?_, fun q hq hmem => ?_, fun q hq hmem => ?_⟩
  · rw [hweight] at hw
    split at hw
    · exact absurd rfl hw
    · rename_i hqp
      exact ⟨h.linked q hw, hqp⟩
  · rw [hweight, if_neg hq.2]
    exact h.recorded q hq.1 (hid ▸ hmem)
  · rw [hcount]
    exact h.room q hq.1 (hid ▸ hmem)

end Spokes

end Mesh

end RustyRig
