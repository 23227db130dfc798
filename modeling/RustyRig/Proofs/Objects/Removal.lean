/-
What a removal takes with it.

A cache is read as a table, `held`: the object under a UUID.  One round of the cascade tombstones one
object that is due (`cascadeOne_cases`), and there are no more rounds than objects, so the passes end
with none that is due.  Then exactly those are gone that hang under the object by their descriptors and
are not newer than the removal, in whatever order the cache lists them (`removeObject_held`).
-/
import RustyRig.Rrclient.Objects

namespace RustyRig

namespace Objects

namespace Cache

open Lib

variable {D : Type} {r : Reader D} {c c' : Cache D} {u v uuid : String} {seq : Nat} {o o' child parent : Object D}
  {f : Object D → Object D}

/-- The object under a UUID. -/
def held (c : Cache D) (u : String) : Option (Object D) := c.objects.find? fun o => o.uuid == u

def uuids (c : Cache D) : List String := c.objects.map (·.uuid)

theorem mem_of_held (h : c.held u = some o) : o ∈ c.objects ∧ o.uuid = u :=
  ⟨List.mem_of_find?_eq_some h, by simpa using List.find?_some h⟩

theorem held_of_mem (hnodup : c.uuids.Nodup) (ho : o ∈ c.objects) : c.held o.uuid = some o := by
  cases h : c.held o.uuid with
  | none =>
      have hnone := List.find?_eq_none.mp h o ho
      simp at hnone
  | some x =>
      obtain ⟨hx, hsame⟩ := mem_of_held h
      exact congrArg some (List.inj_on_of_nodup_map hnodup hx ho hsame)

theorem find_some : c.find r (some u) = if r.uuidValid u = true then c.held u else none := rfl

theorem find_eq_some {w : Option String} (h : c.find r w = some o) :
    ∃ v, w = some v ∧ r.uuidValid v = true ∧ c.held v = some o := by
  cases w with
  | none => exact absurd h (Option.some_ne_none o).symm
  | some v =>
      rw [find_some] at h
      split_ifs at h with hvalid
      exact ⟨v, rfl, hvalid, h⟩

/-! ### Writing in place -/

theorem uuids_update (hf : ∀ o, (f o).uuid = o.uuid) : (c.update u f).uuids = c.uuids := by
  unfold uuids update
  rw [List.map_map]
  refine List.map_congr_left fun o _ => ?_
  change (if o.uuid = u then f o else o).uuid = o.uuid
  split_ifs
  · exact hf o
  · rfl

theorem held_update (hf : ∀ o, (f o).uuid = o.uuid) :
    (c.update u f).held v = if v = u then (c.held v).map f else c.held v := by
  have hsame : ((fun o : Object D => o.uuid == v) ∘ fun o => if o.uuid = u then f o else o) = fun o => o.uuid == v := by
    funext o
    change ((if o.uuid = u then f o else o).uuid == v) = (o.uuid == v)
    split_ifs
    · rw [hf o]
    · rfl
  unfold held update
  rw [List.find?_map, hsame]
  cases hfound : c.objects.find? fun o => o.uuid == v with
  | none => simp
  | some o =>
      have ho : o.uuid = v := (mem_of_held hfound).2
      by_cases huv : v = u
      · simp [ho, huv]
      · simp [ho, huv]

theorem uuid_tombstone (seq : Nat) (o : Object D) : (tombstone seq o).uuid = o.uuid := rfl

/-! ### One child -/

/-- An object whose owner is gone, at its own number or later. -/
structure Due (r : Reader D) (c : Cache D) (u v : String) (child parent : Object D) : Prop where
  here : c.held u = some child
  live : child.removed = false
  described : child.descriptor.isSome = true
  owned : owner r child = some v
  valid : r.uuidValid v = true
  above : c.held v = some parent
  gone : parent.removed = true
  older : child.seq ≤ parent.seq

theorem cascadeOne_cases (r : Reader D) (c : Cache D) (u : String) :
    (cascadeOne r u c = (false, c) ∧ ∀ v child parent, ¬ Due r c u v child parent) ∨
      ∃ v child parent, Due r c u v child parent ∧ cascadeOne r u c = (true, c.update u (tombstone parent.seq)) := by
  unfold cascadeOne
  cases hchild : c.objects.find? fun o => o.uuid == u with
  | none =>
      refine Or.inl ⟨rfl, fun v child parent h => ?_⟩
      exact absurd (hchild.symm.trans h.here) (Option.some_ne_none child).symm
  | some child =>
      have hsame : ∀ {v x p}, Due r c u v x p → x = child := fun h => Option.some.inj (h.here.symm.trans hchild)
      simp only
      by_cases hskip : child.removed = true ∨ child.descriptor.isNone = true
      · rw [if_pos hskip]
        refine Or.inl ⟨rfl, fun v x p h => ?_⟩
        have hlive := h.live
        have hdescribed := h.described
        rw [hsame h] at hlive hdescribed
        rcases hskip with hskip | hskip
        · exact absurd (hskip.symm.trans hlive) Bool.noConfusion
        · rw [Option.isNone_iff_eq_none] at hskip
          rw [hskip] at hdescribed
          exact Bool.noConfusion hdescribed
      · rw [if_neg hskip]
        rw [not_or, Bool.not_eq_true, Bool.not_eq_true, Option.isNone_eq_false_iff] at hskip
        cases hparent : c.find r (owner r child) with
        | none =>
            refine Or.inl ⟨rfl, fun v x p h => ?_⟩
            have howned := h.owned
            rw [hsame h] at howned
            rw [howned, find_some, if_pos h.valid, h.above] at hparent
            exact absurd hparent (Option.some_ne_none p)
        | some parent =>
            obtain ⟨v, howned, hvalid, hheld⟩ := find_eq_some hparent
            simp only
            by_cases hdue : parent.removed = true ∧ child.seq ≤ parent.seq
            · rw [if_pos hdue]
              exact Or.inr ⟨v, child, parent, ⟨hchild, hskip.1, hskip.2, howned, hvalid, hheld, hdue.1, hdue.2⟩, rfl⟩
            · rw [if_neg hdue]
              refine Or.inl ⟨rfl, fun w x p h => hdue ?_⟩
              have howned' := h.owned
              rw [hsame h, howned] at howned'
              have hp := h.above
              rw [← Option.some.inj howned', hheld] at hp
              have holder := h.older
              rw [hsame h, ← Option.some.inj hp] at holder
              exact ⟨by rw [Option.some.inj hp]; exact h.gone, holder⟩

/-- How many objects are not removed. -/
def liveCount (c : Cache D) : Nat := c.objects.countP fun o => !o.removed

theorem liveCount_tombstone (hheld : c.held u = some child) (hlive : child.removed = false) (seq : Nat) :
    (c.update u (tombstone seq)).liveCount < c.liveCount := by
  obtain ⟨hmem, huuid⟩ := mem_of_held hheld
  unfold liveCount update
  rw [List.countP_map]
  refine Settle.countP_lt (a := child) ?_ hmem (by simp [hlive]) ?_
  · intro o _ h
    by_cases ho : o.uuid = u
    · simp [ho, tombstone] at h
    · simpa [ho] using h
  · simp [huuid, tombstone]

theorem lowers (r : Reader D) : Settle.Lowers (cascadeOne r) (liveCount (D := D)) where
  change := by
    intro u c h
    rcases cascadeOne_cases r c u with ⟨hsame, -⟩ | ⟨v, child, parent, hdue, hstep⟩
    · rw [hsame] at h
      exact absurd h Bool.false_ne_true
    · rw [hstep]
      exact liveCount_tombstone hdue.here hdue.live parent.seq
  same := by
    intro u c h
    rcases cascadeOne_cases r c u with ⟨hsame, -⟩ | ⟨v, child, parent, -, hstep⟩
    · rw [hsame]
    · rw [hstep] at h
      exact absurd h.symm Bool.false_ne_true

/-! ### The cascade -/

/-- No live object hangs under a tombstone that is not older. -/
def Rooted (r : Reader D) (c : Cache D) : Prop := ∀ u v child parent, ¬ Due r c u v child parent

/-- The object that is removed, and what hangs under it by the descriptors and is not newer. -/
inductive Falls (r : Reader D) (c : Cache D) (root : String) (seq : Nat) : String → Prop
  | root : Falls r c root seq root
  | child {u v : String} {child : Object D} (h : Falls r c root seq v) (here : c.held u = some child)
      (live : child.removed = false) (described : child.descriptor.isSome = true) (owned : owner r child = some v)
      (valid : r.uuidValid v = true) (older : child.seq ≤ seq) : Falls r c root seq u

theorem Falls.held (hroot : c.held uuid = some o) (h : Falls r c uuid seq u) : ∃ x, c.held u = some x := by
  cases h with
  | root => exact ⟨o, hroot⟩
  | child _ here _ _ _ _ _ => exact ⟨_, here⟩

/-- What the cascade has done so far: it changed nothing but objects that fall, and the object itself is gone. -/
structure Fallen (r : Reader D) (c : Cache D) (root : String) (seq : Nat) (s : Cache D) : Prop where
  objects : ∀ u, s.held u = c.held u ∨ (Falls r c root seq u ∧ s.held u = (c.held u).map (tombstone seq))
  root : s.held root = (c.held root).map (tombstone seq)
  uuids : s.uuids = c.uuids
  rest : s.epoch = c.epoch ∧ s.request = c.request ∧ s.ready = c.ready ∧ s.allocated = c.allocated

theorem fallen_start (r : Reader D) (c : Cache D) (root : String) (seq : Nat) :
    Fallen r c root seq (c.update root (tombstone seq)) where
  objects := by
    intro u
    rw [held_update (uuid_tombstone seq)]
    by_cases hu : u = root
    · rw [if_pos hu]
      exact Or.inr ⟨hu ▸ Falls.root, rfl⟩
    · rw [if_neg hu]
      exact Or.inl rfl
  root := by
    rw [held_update (uuid_tombstone seq), if_pos rfl]
  uuids := uuids_update (uuid_tombstone seq)
  rest := ⟨rfl, rfl, rfl, rfl⟩

/-- What is due while the cascade runs falls, and its owner went with the removal. -/
theorem fallen_due {s : Cache D} (hrooted : Rooted r c) (h : Fallen r c uuid seq s) (hdue : Due r s u v child parent) :
    c.held u = some child ∧ parent.seq = seq ∧ Falls r c uuid seq u := by
  have hchild : c.held u = some child := by
    rcases h.objects u with hsame | ⟨-, hgone⟩
    · rw [← hsame]
      exact hdue.here
    · obtain ⟨x, -, hx⟩ := Option.map_eq_some_iff.mp (hgone.symm.trans hdue.here)
      have hlive := hdue.live
      rw [← hx] at hlive
      exact Bool.noConfusion hlive
  have hfell : Falls r c uuid seq v ∧ parent.seq = seq := by
    have hroot : (Falls r c uuid seq v ∧ s.held v = (c.held v).map (tombstone seq)) ∨ s.held v = c.held v :=
      (h.objects v).symm
    rcases hroot with ⟨hfalls, hgone⟩ | hsame
    · obtain ⟨x, -, hx⟩ := Option.map_eq_some_iff.mp (hgone.symm.trans hdue.above)
      exact ⟨hfalls, by rw [← hx]; rfl⟩
    · -- a tombstone from before has nothing due, unless it is the object itself
      have habove : c.held v = some parent := hsame.symm.trans hdue.above
      by_cases hv : v = uuid
      · obtain ⟨x, -, hx⟩ := Option.map_eq_some_iff.mp ((hv ▸ h.root : s.held v = _).symm.trans hdue.above)
        exact ⟨hv ▸ Falls.root, by rw [← hx]; rfl⟩
      · exact absurd ⟨hchild, hdue.live, hdue.described, hdue.owned, hdue.valid, habove, hdue.gone, hdue.older⟩
          (hrooted u v child parent)
  have holder : child.seq ≤ seq := by
    rw [← hfell.2]
    exact hdue.older
  exact ⟨hchild, hfell.2, Falls.child hfell.1 hchild hdue.live hdue.described hdue.owned hdue.valid holder⟩

theorem fallen_step {s : Cache D} (hrooted : Rooted r c) (h : Fallen r c uuid seq s) (u : String) :
    Fallen r c uuid seq (cascadeOne r u s).2 := by
  rcases cascadeOne_cases r s u with ⟨hsame, -⟩ | ⟨v, child, parent, hdue, hstep⟩
  · rw [hsame]
    exact h
  · obtain ⟨hchild, hseq, hfalls⟩ := fallen_due hrooted h hdue
    rw [hstep, hseq]
    have hgone : (s.held u).map (tombstone seq) = (c.held u).map (tombstone seq) := by
      rw [hdue.here, hchild]
    have hu : u ≠ uuid := by
      intro hu
      obtain ⟨x, -, hx⟩ := Option.map_eq_some_iff.mp ((hu ▸ h.root : s.held u = _).symm.trans hdue.here)
      have hlive := hdue.live
      rw [← hx] at hlive
      exact Bool.noConfusion hlive
    refine ⟨fun w => ?_, ?_, (uuids_update (uuid_tombstone seq)).trans h.uuids, h.rest⟩
    · rw [held_update (uuid_tombstone seq)]
      by_cases hw : w = u
      · rw [if_pos hw, hw, hgone]
        exact Or.inr ⟨hfalls, rfl⟩
      · rw [if_neg hw]
        exact h.objects w
    · rw [held_update (uuid_tombstone seq), if_neg hu.symm]
      exact h.root

theorem length_uuids (c : Cache D) : c.uuids.length = c.objects.length := List.length_map ..

/-- A removal tombstones the object and exactly what falls with it, and leaves nothing that is due. -/
theorem removeObject_spec (hrooted : Rooted r c) (hroot : c.held uuid = some o) (seq : Nat) :
    Fallen r c uuid seq (c.removeObject r uuid seq) ∧ Rooted r (c.removeObject r uuid seq) ∧
      ∀ u, Falls r c uuid seq u → (c.removeObject r uuid seq).held u = (c.held u).map (tombstone seq) := by
  have hfallen : Fallen r c uuid seq (c.removeObject r uuid seq) :=
    Settle.settle_kept (P := Fallen r c uuid seq) (fun u _ s h => fallen_step hrooted h u) _ _
      (fallen_start r c uuid seq)
  have hsettled : Rooted r (c.removeObject r uuid seq) := by
    intro u v child parent hdue
    have hmem : u ∈ (c.update uuid (tombstone seq)).uuids := by
      rw [(fallen_start r c uuid seq).uuids, ← hfallen.uuids]
      obtain ⟨hmem, huuid⟩ := mem_of_held hdue.here
      exact huuid ▸ List.mem_map_of_mem hmem
    have hfuel : (c.update uuid (tombstone seq)).liveCount < (c.update uuid (tombstone seq)).objects.length + 1 :=
      Nat.lt_succ_of_le List.countP_le_length
    have hnone := (lowers r).settled _ _ hfuel u hmem
    change (cascadeOne r u (c.removeObject r uuid seq)).1 = false at hnone
    rcases cascadeOne_cases r (c.removeObject r uuid seq) u with ⟨-, hnothing⟩ | ⟨_, _, _, _, hstep⟩
    · exact hnothing v child parent hdue
    · rw [hstep] at hnone
      exact Bool.noConfusion hnone
  refine ⟨hfallen, hsettled, fun u hfalls => ?_⟩
  induction hfalls with
  | root => exact hfallen.root
  | @child u v child hv here live described owned valid older ih =>
      obtain ⟨parent, hparent⟩ := hv.held hroot
      rcases hfallen.objects u with hsame | ⟨-, hgone⟩
      · rw [hparent] at ih
        exact absurd ⟨hsame.trans here, live, described, owned, valid, ih, rfl, older⟩
          (hsettled u v child (tombstone seq parent))
      · exact hgone

end Cache

end Objects

end RustyRig
