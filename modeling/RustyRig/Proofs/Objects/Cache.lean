/-
What holds of the cache, whatever frames it is handed.

`Change` says once what a frame can do.  Every change keeps the table sound (`Sound`): keys and bounds,
nothing live under a tombstone that is not older, and nothing in it but what frames of this epoch said
of this object.  And until the next `begin` nothing goes back: numbers and versions only rise, and what
was removed comes back only with a later number.
-/
import RustyRig.Proofs.Objects.Removal

namespace RustyRig

namespace Objects

namespace Cache

open Lib

variable {D : Type} {r : Reader D} {c c' c₁ : Cache D} {d : D} {u v uuid name : String} {seq : Nat}
  {o o' : Object D} {p p' : Property D} {version : Option Nat}

/-! ### What a frame can do -/

/-- An object as it is first made. -/
def fresh (uuid : String) : Object D :=
  { uuid := uuid, descriptor := none, seq := 0, removed := false, properties := [] }

/-- The cache with another object. -/
def extend (c : Cache D) (uuid : String) : Cache D :=
  { c with objects := fresh uuid :: c.objects, allocated := c.allocated + 1 }

theorem findOrCreate_cases (h : c.findOrCreate r uuid = some (o, c₁)) : r.uuidValid uuid = true ∧
    ((c₁ = c ∧ c.held uuid = some o) ∨
      (c.held uuid = none ∧ c.allocated < 4096 ∧ o = fresh uuid ∧ c₁ = c.extend uuid)) := by
  unfold findOrCreate at h
  cases hfind : c.find r (some uuid) with
  | some x =>
      rw [hfind] at h
      obtain ⟨rfl, rfl⟩ := Prod.mk.inj (Option.some.inj h)
      obtain ⟨w, hw, hvalid, hheld⟩ := find_eq_some hfind
      obtain rfl := Option.some.inj hw
      exact ⟨hvalid, Or.inl ⟨rfl, hheld⟩⟩
  | none =>
      rw [hfind] at h
      simp only at h
      split_ifs at h with hfull
      rw [not_or, Bool.not_eq_false, Nat.not_le] at hfull
      rw [find_some, if_pos hfull.1] at hfind
      obtain ⟨ho, hc⟩ := Prod.mk.inj (Option.some.inj h)
      exact ⟨hfull.1, Or.inr ⟨hfind, hfull.2, ho.symm, hc.symm⟩⟩

/-- The frame that starts a snapshot. -/
def Begins (r : Reader D) (d : D) : Prop :=
  r.text d "msg.type" = some "object" ∧ r.text d "object.cmd" = some "begin"

/-- The number is newer than the object's, and than its removal. -/
def Newer (seq : Nat) (o : Object D) : Prop := o.seq ≤ seq ∧ (o.removed = true → o.seq < seq)

/-- A frame of this epoch with this number. -/
def Numbered (r : Reader D) (c : Cache D) (d : D) (seq : Nat) : Prop :=
  r.text d "stream.epoch" = c.epoch ∧ r.seq d "stream.seq" = some seq

/-- The version that comes with a state; a descriptor has none. -/
def Versioned (r : Reader D) (d : D) : Option Nat → Prop
  | none => True
  | some version => r.seq d "property.version" = some version

/-- The properties with a frame of one of them. -/
def storeAll (properties : List (Property D)) (d : D) (name : String) (seq : Nat) (version : Option Nat) :
    List (Property D) := properties.map fun p => if p.name = name then store p d seq version else p

/-- An object with a new descriptor. -/
def describe (d : D) (seq : Nat) (o : Object D) : Object D := { o with descriptor := some d, seq := seq, removed := false }

/-- An object with other properties. -/
def furnish (properties : List (Property D)) (o : Object D) : Object D := { o with properties := properties }

theorem uuid_describe (d : D) (seq : Nat) (o : Object D) : (describe d seq o).uuid = o.uuid := rfl

theorem uuid_furnish (properties : List (Property D)) (o : Object D) : (furnish properties o).uuid = o.uuid := rfl

/-- What `rr_object_cache_apply` can do to the cache. -/
inductive Change (r : Reader D) (c : Cache D) (d : D) : Cache D → Prop
  | same : Change r c d c
  | begin (epoch id : String) (begins : Begins r d) : Change r c d { new with epoch := some epoch, request := some id }
  | ready : Change r c d { c with ready := true }
  | touched {uuid : String} {o : Object D} {c₁ : Cache D} (found : c.findOrCreate r uuid = some (o, c₁)) :
      Change r c d c₁
  | removed {uuid : String} {o : Object D} {c₁ : Cache D} {seq : Nat} (found : c.findOrCreate r uuid = some (o, c₁))
      (newer : Newer seq o) : Change r c d (c₁.removeObject r uuid seq)
  | described {uuid : String} {o : Object D} {c₁ : Cache D} {seq : Nat}
      (found : c.findOrCreate r uuid = some (o, c₁)) (newer : Newer seq o) (numbered : Numbered r c d seq)
      (addressed : r.text d "object.uuid" = some uuid)
      (parent : ∀ p, c₁.find r (r.text d "object.owner") = some p → p.removed = true → p.seq < seq) :
      Change r c d (c₁.update uuid (describe d seq))
  | stored {uuid name : String} {o o' : Object D} {p : Property D} {c₁ : Cache D} {seq : Nat} {version : Option Nat}
      (found : c.findOrCreate r uuid = some (o, c₁)) (live : o.removed = false) (newer : o.seq ≤ seq)
      (numbered : Numbered r c d seq) (addressed : r.text d "target" = some uuid)
      (named : r.text d "property.name" = some name) (valid : r.nameValid name = true) (versioned : Versioned r d version)
      (made : property o name = some (p, o')) :
      Change r c d (c₁.update uuid (furnish (storeAll o'.properties d name seq version)))

theorem text_of_getD {w : Option String} {s dflt : String} (h : w.getD dflt = s) (hne : dflt ≠ s) : w = some s := by
  cases w with
  | none => exact absurd h hne
  | some x => exact congrArg some h

theorem change_applyObject {cmd : String} (numbered : Numbered r c d seq) (addressed : r.text d "object.uuid" = some uuid) :
    Change r c d (c.applyObject r d cmd uuid seq).2 := by
  unfold applyObject
  dsimp only
  by_cases hcmd : cmd ≠ "descriptor" ∧ cmd ≠ "added" ∧ cmd ≠ "removed"
  · rw [if_pos hcmd]
    exact Change.same
  rw [if_neg hcmd]
  by_cases htype : cmd ≠ "removed" ∧ (r.text d "object.type").getD "" ≠ "node" ∧
      (r.text d "object.type").getD "" ≠ "rig" ∧ (r.text d "object.type").getD "" ≠ "vfo"
  · rw [if_pos htype]
    exact Change.same
  rw [if_neg htype]
  by_cases howner : cmd ≠ "removed" ∧ (r.text d "object.type").getD "" ≠ "node" ∧
      (r.text d "object.owner").any r.uuidValid = false
  · rw [if_pos howner]
    exact Change.same
  rw [if_neg howner]
  cases hfound : c.findOrCreate r uuid with
  | none => exact Change.same
  | some found =>
      obtain ⟨o, c₁⟩ := found
      simp only
      by_cases hstale : seq < o.seq ∨ (o.removed = true ∧ seq ≤ o.seq)
      · rw [if_pos hstale]
        exact Change.touched hfound
      rw [if_neg hstale]
      have hnewer : Newer seq o := by
        rw [not_or, not_and, Nat.not_lt, Nat.not_le] at hstale
        exact hstale
      by_cases hremoved : cmd = "removed"
      · rw [if_pos hremoved]
        exact Change.removed hfound hnewer
      rw [if_neg hremoved]
      cases hparent : (c₁.find r (r.text d "object.owner")).filter fun p => p.removed && decide (seq ≤ p.seq) with
      | some parent =>
          obtain ⟨-, hgone⟩ := Option.filter_eq_some_iff.mp hparent
          rw [Bool.and_eq_true, decide_eq_true_iff] at hgone
          refine Change.removed hfound ⟨Nat.le_trans hnewer.1 hgone.2, fun ho => ?_⟩
          exact Nat.lt_of_lt_of_le (hnewer.2 ho) hgone.2
      | none =>
          refine Change.described hfound hnewer numbered addressed fun p hp hgone => ?_
          rw [hp, Option.filter_eq_none_iff] at hparent
          have hnot := hparent p rfl
          simpa [hgone] using hnot

theorem change_storeProperty (numbered : Numbered r c d seq) (addressed : r.text d "target" = some uuid)
    (named : r.text d "property.name" = some name) (valid : r.nameValid name = true) (versioned : Versioned r d version) :
    Change r c d (c.storeProperty r d uuid name seq version).2 := by
  unfold storeProperty
  cases hfound : c.findOrCreate r uuid with
  | none => exact Change.same
  | some found =>
      obtain ⟨o, c₁⟩ := found
      simp only
      by_cases hstale : o.removed = true ∨ seq < o.seq
      · rw [if_pos hstale]
        exact Change.touched hfound
      rw [if_neg hstale]
      rw [not_or, Bool.not_eq_true, Nat.not_lt] at hstale
      cases hmade : property o name with
      | none => exact Change.touched hfound
      | some made =>
          obtain ⟨p, o'⟩ := made
          exact Change.stored hfound hstale.1 hstale.2 numbered addressed named valid versioned hmade

theorem versioned_of_state {type : ValType} {version : Nat} (h : stateVersion r d type = some version) :
    Versioned r d (some version) := by
  unfold stateVersion at h
  simp only [Option.bind_eq_bind, Option.bind_eq_some_iff] at h
  obtain ⟨known, -, available, -, observed, -, w, hw, hvalid⟩ := h
  split_ifs at hvalid
  rw [← Option.some.inj hvalid]
  exact hw

theorem change_applyProperty {cmd : String} (numbered : Numbered r c d seq) (addressed : r.text d "target" = some uuid) :
    Change r c d (c.applyProperty r d cmd uuid seq).2 := by
  unfold applyProperty
  by_cases hcmd : cmd ≠ "descriptor" ∧ cmd ≠ "state" ∧ cmd ≠ "changed"
  · rw [if_pos hcmd]
    exact Change.same
  rw [if_neg hcmd]
  cases hname : (r.text d "property.name").filter r.nameValid with
  | none => exact Change.same
  | some name =>
      obtain ⟨hnamed, hvalid⟩ := Option.filter_eq_some_iff.mp hname
      cases htype : valueType ((r.text d "property.type").getD "") with
      | none => exact Change.same
      | some type =>
          simp only
          by_cases hdescriptor : cmd = "descriptor"
          · rw [if_pos hdescriptor]
            by_cases hok : descriptorValid r d = true
            · rw [if_pos hok]
              exact change_storeProperty numbered addressed hnamed hvalid trivial
            · rw [if_neg hok]
              exact Change.same
          · rw [if_neg hdescriptor]
            cases hstate : stateVersion r d type with
            | none => exact Change.same
            | some version =>
                exact change_storeProperty numbered addressed hnamed hvalid (versioned_of_state hstate)

theorem change_apply (r : Reader D) (c : Cache D) (d : D) : Change r c d (c.apply r d).2 := by
  unfold apply
  dsimp only
  by_cases hfamily : decide ((r.text d "msg.type").getD "" = "object") = false ∧ (r.text d "msg.type").getD "" ≠ "property"
  · rw [if_pos hfamily]
    exact Change.same
  rw [if_neg hfamily]
  generalize hobject : decide ((r.text d "msg.type").getD "" = "object") = object
  generalize hcmd : (r.text d (if object = true then "object.cmd" else "property.cmd")).getD "" = cmd
  by_cases hresult : cmd = "result"
  · rw [if_pos hresult]
    exact Change.same
  rw [if_neg hresult]
  cases hepoch : (r.text d "stream.epoch").filter r.uuidValid with
  | none => exact Change.same
  | some epoch =>
      cases hseq : r.seq d "stream.seq" with
      | none => exact Change.same
      | some seq =>
          simp only
          by_cases hbegin : object = true ∧ cmd = "begin"
          · rw [if_pos hbegin]
            cases hid : (r.text d "request.id").filter fun id => id ≠ "" ∧ id.utf8ByteSize ≤ 64 with
            | none => exact Change.same
            | some id =>
                refine Change.begin epoch id ⟨?_, ?_⟩
                · rw [hbegin.1, decide_eq_true_iff] at hobject
                  exact text_of_getD hobject (by decide)
                · rw [hbegin.1, if_pos rfl, hbegin.2] at hcmd
                  exact text_of_getD hcmd (by decide)
          rw [if_neg hbegin]
          by_cases hother : c.epoch ≠ some epoch
          · rw [if_pos hother]
            exact Change.same
          rw [if_neg hother]
          rw [not_not] at hother
          by_cases hrequest : (r.text d "request.id").isSome = true ∧ c.request ≠ r.text d "request.id"
          · rw [if_pos hrequest]
            exact Change.same
          rw [if_neg hrequest]
          by_cases hend : object = true ∧ cmd = "end"
          · rw [if_pos hend]
            split_ifs
            · exact Change.same
            · exact Change.ready
          rw [if_neg hend]
          have hnumbered : Numbered r c d seq :=
            ⟨(Option.filter_eq_some_iff.mp hepoch).1.trans hother.symm, hseq⟩
          cases huuid : (r.text d (if object = true then "object.uuid" else "target")).filter r.uuidValid with
          | none => exact Change.same
          | some uuid =>
              have haddressed := (Option.filter_eq_some_iff.mp huuid).1
              cases object with
              | true => exact change_applyObject hnumbered haddressed
              | false => exact change_applyProperty hnumbered haddressed

/-! ### What is in the table -/

/-- A property as it is first made. -/
def blank (name : String) : Property D :=
  { name := name, descriptor := none, state := none, descriptor_seq := 0, state_seq := 0, version := 0 }

/-- What is known of a property was said of it, under the numbers that are kept. -/
structure Stored (r : Reader D) (epoch : Option String) (u : String) (p : Property D) : Prop where
  valid : r.nameValid p.name = true
  descriptor : ∀ d, p.descriptor = some d → r.text d "target" = some u ∧ r.text d "property.name" = some p.name ∧
    r.text d "stream.epoch" = epoch ∧ r.seq d "stream.seq" = some p.descriptor_seq
  state : ∀ d, p.state = some d → r.text d "target" = some u ∧ r.text d "property.name" = some p.name ∧
    r.text d "stream.epoch" = epoch ∧ r.seq d "stream.seq" = some p.state_seq ∧
    r.seq d "property.version" = some p.version

/-- So was what is known of an object; a tombstone has no properties. -/
structure Holds (r : Reader D) (epoch : Option String) (u : String) (o : Object D) : Prop where
  bare : o.removed = true → o.properties = []
  names : (o.properties.map (·.name)).Nodup
  room : o.properties.length ≤ 256
  described : ∀ d, o.descriptor = some d → r.text d "object.uuid" = some u ∧ r.text d "stream.epoch" = epoch
  numbered : o.removed = false → ∀ d, o.descriptor = some d → r.seq d "stream.seq" = some o.seq
  stored : ∀ p ∈ o.properties, Stored r epoch u p

structure Sound (r : Reader D) (c : Cache D) : Prop where
  nodup : c.uuids.Nodup
  valid : ∀ u ∈ c.uuids, r.uuidValid u = true
  allocated : c.allocated = c.uuids.length
  room : c.allocated ≤ 4096
  rooted : Rooted r c
  holds : ∀ u o, c.held u = some o → Holds r c.epoch u o

theorem sound_new (r : Reader D) (epoch request : Option String) (ready : Bool) :
    Sound r { (new : Cache D) with epoch := epoch, request := request, ready := ready } where
  nodup := List.nodup_nil
  valid := fun _ hu => absurd hu List.not_mem_nil
  allocated := rfl
  room := Nat.zero_le _
  rooted := fun _ _ child _ h => absurd h.here (Option.some_ne_none child).symm
  holds := fun _ o h => absurd h (Option.some_ne_none o).symm

theorem held_extend : (c.extend uuid).held v = if v = uuid then some (fresh uuid) else c.held v := by
  unfold held extend
  by_cases hv : v = uuid
  · rw [if_pos hv, List.find?_cons_of_pos (by simp [fresh, hv])]
  · rw [if_neg hv, List.find?_cons_of_neg (by simpa [fresh] using Ne.symm hv)]

theorem not_mem_uuids (h : c.held u = none) : u ∉ c.uuids := by
  intro hmem
  obtain ⟨o, ho, huuid⟩ := List.mem_map.mp hmem
  have hnone := List.find?_eq_none.mp h o ho
  simp [huuid] at hnone

theorem not_gone {x y : Object D} (hlive : x.removed = false) (h : some x = some y) : ¬ y.removed = true := by
  rw [← Option.some.inj h, hlive]
  exact Bool.false_ne_true

theorem sound_extend (h : Sound r c) (hvalid : r.uuidValid uuid = true) (hnew : c.held uuid = none)
    (hroom : c.allocated < 4096) : Sound r (c.extend uuid) where
  nodup := List.nodup_cons.mpr ⟨not_mem_uuids hnew, h.nodup⟩
  valid := by
    intro u hu
    rcases List.mem_cons.mp hu with rfl | hu
    · exact hvalid
    · exact h.valid u hu
  allocated := by
    change c.allocated + 1 = c.uuids.length + 1
    rw [h.allocated]
  room := hroom
  rooted := by
    intro u v child parent hdue
    have hhere := hdue.here
    have habove := hdue.above
    rw [held_extend] at hhere habove
    split_ifs at hhere habove with hu hv hv
    · exact not_gone rfl habove hdue.gone
    · exact absurd (Option.some.inj hhere ▸ hdue.described : (fresh uuid : Object D).descriptor.isSome = true)
        Bool.false_ne_true
    · exact not_gone rfl habove hdue.gone
    · exact h.rooted u v child parent { hdue with here := hhere, above := habove }
  holds := by
    intro u o ho
    rw [held_extend] at ho
    split_ifs at ho with hu
    · rw [← Option.some.inj ho]
      exact ⟨fun _ => rfl, List.nodup_nil, Nat.zero_le 256, by simp [fresh], by simp [fresh], by simp [fresh]⟩
    · exact h.holds u o ho

/-- An object that is found or made leaves the table sound, with the object in it. -/
theorem sound_found (h : Sound r c) (hfound : c.findOrCreate r uuid = some (o, c₁)) :
    Sound r c₁ ∧ c₁.held uuid = some o ∧ c₁.epoch = c.epoch := by
  obtain ⟨hvalid, ⟨rfl, hheld⟩ | ⟨hnew, hroom, rfl, rfl⟩⟩ := findOrCreate_cases hfound
  · exact ⟨h, hheld, rfl⟩
  · exact ⟨sound_extend h hvalid hnew hroom, by rw [held_extend, if_pos rfl], rfl⟩

theorem sound_removeObject (h : Sound r c) (hheld : c.held uuid = some o) : Sound r (c.removeObject r uuid seq) := by
  obtain ⟨hfallen, hrooted, -⟩ := removeObject_spec h.rooted hheld seq
  obtain ⟨hepoch, -, -, hallocated⟩ := hfallen.rest
  refine ⟨by rw [hfallen.uuids]; exact h.nodup, by rw [hfallen.uuids]; exact h.valid,
    by rw [hallocated, hfallen.uuids]; exact h.allocated, by rw [hallocated]; exact h.room, hrooted, ?_⟩
  intro u x hx
  rw [hepoch]
  rcases hfallen.objects u with hsame | ⟨-, hgone⟩
  · exact h.holds u x (hsame.symm.trans hx)
  · obtain ⟨y, hy, rfl⟩ := Option.map_eq_some_iff.mp (hgone.symm.trans hx)
    have hold := h.holds u y hy
    exact ⟨fun _ => rfl, List.nodup_nil, Nat.zero_le 256, hold.described,
      fun hlive => absurd hlive.symm Bool.false_ne_true, by simp [tombstone]⟩

/-- An object is written to. -/
theorem sound_update {f : Object D → Object D} (h : Sound r c) (hf : ∀ o, (f o).uuid = o.uuid)
    (hheld : c.held uuid = some o) (hrooted : Rooted r (c.update uuid f)) (hholds : Holds r c.epoch uuid (f o)) :
    Sound r (c.update uuid f) := by
  refine ⟨by rw [uuids_update hf]; exact h.nodup, by rw [uuids_update hf]; exact h.valid,
    by rw [uuids_update hf]; exact h.allocated, h.room, hrooted, ?_⟩
  intro u x hx
  rw [held_update hf] at hx
  split_ifs at hx with hu
  · subst hu
    rw [hheld] at hx
    rw [← Option.some.inj hx]
    exact hholds
  · exact h.holds u x hx

theorem rooted_described (h : Rooted r c) (hheld : c.held uuid = some o)
    (hparent : ∀ p, c.find r (r.text d "object.owner") = some p → p.removed = true → p.seq < seq) :
    Rooted r (c.update uuid (describe d seq)) := by
  intro u v child parent hdue
  have hhere := hdue.here
  have habove := hdue.above
  rw [held_update (uuid_describe d seq)] at hhere habove
  by_cases hv : v = uuid
  · rw [if_pos hv, hv, hheld] at habove
    exact not_gone rfl habove hdue.gone
  rw [if_neg hv] at habove
  by_cases hu : u = uuid
  · rw [if_pos hu, hu, hheld] at hhere
    obtain rfl : describe d seq o = child := Option.some.inj hhere
    have howned : r.text d "object.owner" = some v := hdue.owned
    have hfind : c.find r (r.text d "object.owner") = some parent := by
      rw [howned, find_some, if_pos hdue.valid, habove]
    have holder : seq ≤ parent.seq := hdue.older
    exact absurd (hparent parent hfind hdue.gone) (Nat.not_lt.mpr holder)
  · rw [if_neg hu] at hhere
    exact h u v child parent { hdue with here := hhere, above := habove }

/-- What neither the descriptor nor the removal of an object depends on makes nothing due. -/
theorem rooted_properties (h : Rooted r c) (properties : List (Property D)) :
    Rooted r (c.update uuid (furnish properties)) := by
  intro u v child parent hdue
  have hback : ∀ {w x}, (c.update uuid (furnish properties)).held w = some x →
      ∃ y, c.held w = some y ∧ y.removed = x.removed ∧ y.descriptor = x.descriptor ∧ y.seq = x.seq := by
    intro w x hx
    rw [held_update (uuid_furnish properties)] at hx
    split_ifs at hx
    · obtain ⟨y, hy, rfl⟩ := Option.map_eq_some_iff.mp hx
      exact ⟨y, hy, rfl, rfl, rfl⟩
    · exact ⟨x, hx, rfl, rfl, rfl⟩
  obtain ⟨x, hx, hlive, hdescribed, hseq⟩ := hback hdue.here
  obtain ⟨y, hy, hgone, -, hnumber⟩ := hback hdue.above
  have howned : owner r x = some v := by
    rw [← hdue.owned, owner, owner, hdescribed]
  exact h u v x y ⟨hx, hlive.trans hdue.live, by rw [hdescribed]; exact hdue.described, howned, hdue.valid, hy,
    hgone.trans hdue.gone, by rw [hseq, hnumber]; exact hdue.older⟩

/-! ### Properties -/

theorem property_cases (h : property o name = some (p, o')) : o' = o ∨
    (name ∉ o.properties.map (·.name) ∧ o.properties.length < 256 ∧
      o' = { o with properties := blank name :: o.properties }) := by
  unfold property at h
  cases hfind : o.properties.find? fun p => p.name == name with
  | some x =>
      rw [hfind] at h
      exact Or.inl (Prod.mk.inj (Option.some.inj h)).2.symm
  | none =>
      rw [hfind] at h
      simp only at h
      split_ifs at h with hfull
      refine Or.inr ⟨fun hmem => ?_, Nat.lt_of_not_le hfull, (Prod.mk.inj (Option.some.inj h)).2.symm⟩
      obtain ⟨x, hx, hname⟩ := List.mem_map.mp hmem
      have hnone := List.find?_eq_none.mp hfind x hx
      simp [hname] at hnone

theorem store_cases (p : Property D) (d : D) (seq : Nat) (version : Option Nat) : store p d seq version = p ∨
    (version = none ∧ store p d seq version = { p with descriptor := some d, descriptor_seq := seq }) ∨
    ∃ w, version = some w ∧ (p.state.isSome = true → p.version < w ∧ p.state_seq ≤ seq) ∧
      store p d seq version = { p with state := some d, state_seq := seq, version := w } := by
  cases version with
  | none =>
      unfold store
      dsimp only
      split_ifs
      · exact Or.inl rfl
      · exact Or.inr (Or.inl ⟨rfl, rfl⟩)
  | some w =>
      unfold store
      simp only
      split_ifs with hstale
      · exact Or.inl rfl
      · refine Or.inr (Or.inr ⟨w, rfl, fun hknown => ?_, rfl⟩)
        rw [not_and, not_or, Nat.not_le, Nat.not_lt] at hstale
        exact hstale hknown

theorem name_store (p : Property D) (d : D) (seq : Nat) (version : Option Nat) : (store p d seq version).name = p.name := by
  rcases store_cases p d seq version with h | ⟨-, h⟩ | ⟨w, -, -, h⟩ <;> rw [h]

theorem names_storeAll (properties : List (Property D)) (d : D) (name : String) (seq : Nat) (version : Option Nat) :
    (storeAll properties d name seq version).map (·.name) = properties.map (·.name) := by
  unfold storeAll
  rw [List.map_map]
  refine List.map_congr_left fun p _ => ?_
  change (if p.name = name then store p d seq version else p).name = p.name
  split_ifs
  · exact name_store p d seq version
  · rfl

theorem stored_store {epoch : Option String} (h : Stored r epoch u p) (hname : p.name = name)
    (hepoch : r.text d "stream.epoch" = epoch) (hseq : r.seq d "stream.seq" = some seq)
    (addressed : r.text d "target" = some u) (named : r.text d "property.name" = some name)
    (versioned : Versioned r d version) : Stored r epoch u (store p d seq version) := by
  rcases store_cases p d seq version with hsame | ⟨-, hdescriptor⟩ | ⟨w, hw, -, hstate⟩
  · rw [hsame]
    exact h
  · rw [hdescriptor]
    refine ⟨h.valid, fun x hx => ?_, h.state⟩
    obtain rfl := Option.some.inj hx
    exact ⟨addressed, by rw [named, hname], hepoch, hseq⟩
  · rw [hstate]
    refine ⟨h.valid, h.descriptor, fun x hx => ?_⟩
    obtain rfl := Option.some.inj hx
    rw [hw] at versioned
    exact ⟨addressed, by rw [named, hname], hepoch, hseq, versioned⟩

theorem stored_blank {epoch : Option String} (hvalid : r.nameValid name = true) :
    Stored r epoch u (blank name : Property D) :=
  ⟨hvalid, fun x hx => absurd hx (Option.some_ne_none x).symm, fun x hx => absurd hx (Option.some_ne_none x).symm⟩

/-- A property's frame is kept with the object it is about. -/
theorem holds_furnish {epoch : Option String} (h : Holds r epoch uuid o) (live : o.removed = false)
    (hepoch : r.text d "stream.epoch" = epoch) (hseq : r.seq d "stream.seq" = some seq)
    (addressed : r.text d "target" = some uuid) (named : r.text d "property.name" = some name)
    (valid : r.nameValid name = true) (versioned : Versioned r d version) (made : property o name = some (p, o')) :
    Holds r epoch uuid (furnish (storeAll o'.properties d name seq version) o) := by
  have hproperties : (o'.properties.map (·.name)).Nodup ∧ o'.properties.length ≤ 256 ∧
      ∀ p ∈ o'.properties, Stored r epoch uuid p := by
    rcases property_cases made with rfl | ⟨hnew, hroom, rfl⟩
    · exact ⟨h.names, h.room, h.stored⟩
    · refine ⟨List.nodup_cons.mpr ⟨hnew, h.names⟩, hroom, fun p hp => ?_⟩
      rcases List.mem_cons.mp hp with rfl | hp
      · exact stored_blank valid
      · exact h.stored p hp
  obtain ⟨hnames, hroom, hstored⟩ := hproperties
  refine ⟨fun hgone => absurd (hgone.symm.trans live) Bool.noConfusion, ?_, ?_, h.described, h.numbered, fun q hq => ?_⟩
  · change ((storeAll o'.properties d name seq version).map (·.name)).Nodup
    rw [names_storeAll]
    exact hnames
  · change (storeAll o'.properties d name seq version).length ≤ 256
    unfold storeAll
    rw [List.length_map]
    exact hroom
  · obtain ⟨p, hp, rfl⟩ := List.mem_map.mp hq
    split_ifs with hname
    · exact stored_store (hstored p hp) hname hepoch hseq addressed named versioned
    · exact hstored p hp

theorem sound_change (h : Sound r c) (hchange : Change r c d c') : Sound r c' := by
  cases hchange with
  | same => exact h
  | begin epoch id _ => exact sound_new r (some epoch) (some id) false
  | ready =>
      refine ⟨h.nodup, h.valid, h.allocated, h.room, fun u v child parent hdue => h.rooted u v child parent ?_, h.holds⟩
      exact ⟨hdue.here, hdue.live, hdue.described, hdue.owned, hdue.valid, hdue.above, hdue.gone, hdue.older⟩
  | touched found => exact (sound_found h found).1
  | removed found _ =>
      obtain ⟨hsound, hheld, -⟩ := sound_found h found
      exact sound_removeObject hsound hheld
  | @described _ o _ seq found newer numbered addressed parent =>
      obtain ⟨hsound, hheld, hepoch⟩ := sound_found h found
      refine sound_update hsound (uuid_describe d seq) hheld (rooted_described hsound.rooted hheld parent) ?_
      have hold := hsound.holds _ _ hheld
      refine ⟨fun hgone => absurd hgone Bool.false_ne_true, hold.names, hold.room, fun x hx => ?_, fun _ x hx => ?_,
        hold.stored⟩
      · obtain rfl := Option.some.inj hx
        exact ⟨addressed, by rw [numbered.1, hepoch]⟩
      · obtain rfl := Option.some.inj hx
        exact numbered.2
  | stored found live newer numbered addressed named valid versioned made =>
      obtain ⟨hsound, hheld, hepoch⟩ := sound_found h found
      refine sound_update hsound (uuid_furnish _) hheld (rooted_properties hsound.rooted _) ?_
      exact holds_furnish (hsound.holds _ _ hheld) live (by rw [numbered.1, hepoch]) numbered.2 addressed named valid
        versioned made

theorem sound_applyAll (frames : List D) : ∀ c : Cache D, Sound r c → Sound r (c.applyAll r frames) := by
  induction frames with
  | nil => exact fun c h => h
  | cons d frames ih => exact fun c h => ih _ (sound_change h (change_apply r c d))

/-! ### Nothing goes back -/

/-- What an object may become: its number rises, and it comes back from its removal only with a later one. -/
structure Later (o o' : Object D) : Prop where
  seq : o.seq ≤ o'.seq
  back : o.removed = true → o'.removed = false → o.seq < o'.seq

theorem Later.refl (o : Object D) : Later o o :=
  ⟨Nat.le_refl _, fun hgone hlive => absurd (hgone.symm.trans hlive) Bool.noConfusion⟩

theorem Later.trans {o'' : Object D} (h : Later o o') (h' : Later o' o'') : Later o o'' where
  seq := Nat.le_trans h.seq h'.seq
  back := by
    intro hgone hlive
    cases hmiddle : o'.removed with
    | true => exact Nat.lt_of_le_of_lt h.seq (h'.back hmiddle hlive)
    | false => exact Nat.lt_of_lt_of_le (h.back hgone hmiddle) h'.seq

/-- What a property may become: a state that is known stays, or gives way to a later version. -/
structure Fresher (p p' : Property D) : Prop where
  name : p'.name = p.name
  state : p.state.isSome = true → p'.state.isSome = true ∧
    ((p'.state = p.state ∧ p'.version = p.version) ∨ p.version < p'.version)

theorem Fresher.refl (p : Property D) : Fresher p p := ⟨rfl, fun h => ⟨h, Or.inl ⟨rfl, rfl⟩⟩⟩

theorem Fresher.trans {p'' : Property D} (h : Fresher p p') (h' : Fresher p' p'') : Fresher p p'' where
  name := h'.name.trans h.name
  state := by
    intro hknown
    obtain ⟨hmiddle, hfirst⟩ := h.state hknown
    obtain ⟨hlast, hsecond⟩ := h'.state hmiddle
    refine ⟨hlast, ?_⟩
    rcases hfirst with ⟨hstate, hversion⟩ | hfirst
    · rw [hstate, hversion] at hsecond
      exact hsecond
    · rcases hsecond with ⟨-, hversion⟩ | hsecond
      · exact Or.inr (hversion ▸ hfirst)
      · exact Or.inr (Nat.lt_trans hfirst hsecond)

theorem fresher_store (p : Property D) (d : D) (seq : Nat) (version : Option Nat) :
    Fresher p (store p d seq version) := by
  rcases store_cases p d seq version with h | ⟨-, h⟩ | ⟨w, -, hlater, h⟩
  · rw [h]
    exact Fresher.refl p
  · rw [h]
    exact ⟨rfl, fun hknown => ⟨hknown, Or.inl ⟨rfl, rfl⟩⟩⟩
  · rw [h]
    exact ⟨rfl, fun hknown => ⟨rfl, Or.inr (hlater hknown).1⟩⟩

/-- What an object that is not removed may become, as long as it stays so. -/
structure Kept (o o' : Object D) : Prop where
  later : Later o o'
  properties : o.removed = false → o'.removed = false → ∀ p ∈ o.properties, ∃ p' ∈ o'.properties, Fresher p p'

theorem Kept.refl (o : Object D) : Kept o o := ⟨Later.refl o, fun _ _ p hp => ⟨p, hp, Fresher.refl p⟩⟩

/-- Making another object changes none that is there. -/
theorem held_found (hfound : c.findOrCreate r uuid = some (o, c₁)) (hx : c.held u = some o') : c₁.held u = some o' := by
  obtain ⟨-, ⟨rfl, -⟩ | ⟨hnew, -, -, rfl⟩⟩ := findOrCreate_cases hfound
  · exact hx
  · have hu : u ≠ uuid := by
      rintro rfl
      exact absurd (hx.symm.trans hnew) (Option.some_ne_none o')
    rw [held_extend, if_neg hu]
    exact hx

theorem kept_removeObject (h : Sound r c) (hheld : c.held uuid = some o) (newer : Newer seq o) (hx : c.held u = some o') :
    ∃ x, (c.removeObject r uuid seq).held u = some x ∧ Kept o' x := by
  obtain ⟨hfallen, -, -⟩ := removeObject_spec h.rooted hheld seq
  rcases hfallen.objects u with hsame | ⟨hfalls, hgone⟩
  · exact ⟨o', hsame.trans hx, Kept.refl o'⟩
  · rw [hx] at hgone
    refine ⟨tombstone seq o', hgone, ⟨?_, fun _ hlive => absurd hlive.symm Bool.false_ne_true⟩,
      fun _ hlive => absurd hlive.symm Bool.false_ne_true⟩
    cases hfalls with
    | root =>
        rw [hheld] at hx
        rw [← Option.some.inj hx]
        exact newer.1
    | child _ here _ _ _ _ older =>
        rw [here] at hx
        rw [← Option.some.inj hx]
        exact older

/-- A step, up to the next snapshot. -/
theorem kept_change (h : Sound r c) (hchange : Change r c d c') (hbegin : ¬ Begins r d) (hx : c.held u = some o') :
    ∃ x, c'.held u = some x ∧ Kept o' x := by
  cases hchange with
  | same => exact ⟨o', hx, Kept.refl o'⟩
  | begin epoch id begins => exact absurd begins hbegin
  | ready => exact ⟨o', hx, Kept.refl o'⟩
  | touched found => exact ⟨o', held_found found hx, Kept.refl o'⟩
  | removed found newer =>
      obtain ⟨hsound, hheld, -⟩ := sound_found h found
      exact kept_removeObject hsound hheld newer (held_found found hx)
  | @described uuid o _ seq found newer numbered addressed parent =>
      obtain ⟨hsound, hheld, -⟩ := sound_found h found
      have hthere := held_found found hx
      rw [held_update (uuid_describe d seq), hthere]
      by_cases hu : u = uuid
      · subst hu
        obtain rfl := Option.some.inj (hheld.symm.trans hthere)
        rw [if_pos rfl]
        exact ⟨describe d seq o, rfl, ⟨newer.1, fun hgone _ => newer.2 hgone⟩, fun _ _ p hp => ⟨p, hp, Fresher.refl p⟩⟩
      · rw [if_neg hu]
        exact ⟨o', rfl, Kept.refl o'⟩
  | @stored uuid name o made p _ seq version found live newer numbered addressed named valid versioned hmade =>
      obtain ⟨hsound, hheld, -⟩ := sound_found h found
      have hthere := held_found found hx
      rw [held_update (uuid_furnish _), hthere]
      by_cases hu : u = uuid
      · subst hu
        obtain rfl := Option.some.inj (hheld.symm.trans hthere)
        rw [if_pos rfl]
        refine ⟨_, rfl, ⟨Nat.le_refl _, fun hgone hlive => absurd (hgone.symm.trans hlive) Bool.noConfusion⟩,
          fun _ _ q hq => ?_⟩
        have hmem : q ∈ made.properties := by
          rcases property_cases hmade with rfl | ⟨-, -, rfl⟩
          · exact hq
          · exact List.mem_cons_of_mem _ hq
        refine ⟨_, List.mem_map_of_mem hmem, ?_⟩
        split_ifs
        · exact fresher_store q d seq version
        · exact Fresher.refl q
      · rw [if_neg hu]
        exact ⟨o', rfl, Kept.refl o'⟩

theorem later_applyAll (frames : List D) : ∀ c : Cache D, Sound r c → (∀ d ∈ frames, ¬ Begins r d) →
    ∀ o, c.held u = some o → ∃ o', (c.applyAll r frames).held u = some o' ∧ Later o o' := by
  induction frames with
  | nil => exact fun c _ _ o ho => ⟨o, ho, Later.refl o⟩
  | cons d frames ih =>
      intro c hsound hbegin o ho
      have hchange := change_apply r c d
      obtain ⟨x, hx, hkept⟩ := kept_change hsound hchange (hbegin d List.mem_cons_self) ho
      obtain ⟨o', ho', hlater⟩ := ih _ (sound_change hsound hchange)
        (fun e he => hbegin e (List.mem_cons_of_mem d he)) x hx
      exact ⟨o', ho', hkept.later.trans hlater⟩

/-- An object that is live after each of the frames. -/
def Stays (r : Reader D) (c : Cache D) (u : String) (frames : List D) : Prop :=
  ∀ front back, frames = front ++ back → ∀ o, (c.applyAll r front).held u = some o → o.removed = false

theorem fresher_applyAll (frames : List D) : ∀ c : Cache D, Sound r c → (∀ d ∈ frames, ¬ Begins r d) →
    Stays r c u frames → ∀ o p, c.held u = some o → p ∈ o.properties →
    ∃ o' p', (c.applyAll r frames).held u = some o' ∧ p' ∈ o'.properties ∧ Fresher p p' := by
  induction frames with
  | nil => exact fun c _ _ _ o p ho hp => ⟨o, p, ho, hp, Fresher.refl p⟩
  | cons d frames ih =>
      intro c hsound hbegin hstays o p ho hp
      have hchange := change_apply r c d
      obtain ⟨x, hx, hkept⟩ := kept_change hsound hchange (hbegin d List.mem_cons_self) ho
      have hlive : o.removed = false := hstays [] (d :: frames) rfl o ho
      have hnext : x.removed = false := hstays [d] frames rfl x hx
      obtain ⟨q, hq, hfresher⟩ := hkept.properties hlive hnext p hp
      obtain ⟨o', p', ho', hp', hrest⟩ := ih _ (sound_change hsound hchange)
        (fun e he => hbegin e (List.mem_cons_of_mem d he))
        (fun front back hsplit => hstays (d :: front) back (by rw [hsplit]; rfl)) x q hx hq
      exact ⟨o', p', ho', hp', hfresher.trans hrest⟩

/-! ### A removal -/

/-- The frame that removes an object, from the snapshot the cache is in. -/
structure Removes (r : Reader D) (c : Cache D) (d : D) (uuid : String) (seq : Nat) : Prop where
  family : r.text d "msg.type" = some "object"
  cmd : r.text d "object.cmd" = some "removed"
  epoch : ∃ epoch, c.epoch = some epoch ∧ r.text d "stream.epoch" = some epoch ∧ r.uuidValid epoch = true
  seq : r.seq d "stream.seq" = some seq
  request : r.text d "request.id" = none ∨ r.text d "request.id" = c.request
  uuid : r.text d "object.uuid" = some uuid

theorem apply_removes (h : Removes r c d uuid seq) (hvalid : r.uuidValid uuid = true) (hheld : c.held uuid = some o)
    (newer : Newer seq o) : c.apply r d = (true, c.removeObject r uuid seq) := by
  obtain ⟨epoch, hepoch, hsame, hok⟩ := h.epoch
  have hfound : c.findOrCreate r uuid = some (o, c) := by
    unfold findOrCreate
    rw [find_some, if_pos hvalid, hheld]
  have hfresh : ¬ (seq < o.seq ∨ (o.removed = true ∧ seq ≤ o.seq)) := by
    rintro (hlt | ⟨hgone, hle⟩)
    · exact absurd newer.1 (Nat.not_le.mpr hlt)
    · exact absurd (newer.2 hgone) (Nat.not_lt.mpr hle)
  have hrequest : ¬ ((r.text d "request.id").isSome = true ∧ c.request ≠ r.text d "request.id") := by
    rintro ⟨hsome, hne⟩
    rcases h.request with hnone | hrequest
    · rw [hnone] at hsome
      exact Bool.false_ne_true hsome
    · exact hne hrequest.symm
  have hobject : c.applyObject r d "removed" uuid seq = (true, c.removeObject r uuid seq) := by
    unfold applyObject
    simp [hfound, hfresh]
  have hkeeps : ∀ {u}, r.uuidValid u = true → (some u).filter r.uuidValid = some u := fun hu =>
    Option.filter_eq_some_iff.mpr ⟨rfl, hu⟩
  unfold apply
  simp [h.family, h.cmd, hsame, hkeeps hok, h.seq, hepoch, hrequest, h.uuid, hkeeps hvalid, hobject]

/-! ### A station -/

/-- A value of a dictionary. -/
inductive Value where
  | text (s : String)
  | bool (b : Bool)
  | number (n : Nat)
deriving DecidableEq

def Value.text? : Value → Option String
  | .text s => some s
  | _ => none

def Value.bool? : Value → Option Bool
  | .bool b => some b
  | _ => none

def Value.number? : Value → Option Nat
  | .number n => some n
  | _ => none

/-- Frames as lists of entries. -/
def exampleReader : Reader (List (String × Value)) where
  text := fun d key => (d.lookup key).bind Value.text?
  bool := fun d key => (d.lookup key).bind Value.bool?
  seq := fun d key => (d.lookup key).bind Value.number?
  hasValue := fun d => (d.lookup "property.value").isSome
  value := fun d _ => (d.lookup "property.value").isSome
  uuidValid := fun u => u != ""
  nameValid := fun name => name != ""

def exampleEpoch : String := "00000000-0000-4000-8000-000000000001"

def exampleRig : String := "00000000-0000-4000-8000-000000000002"

def exampleVfo : String := "00000000-0000-4000-8000-000000000004"

def exampleObject (cmd uuid type owner : String) (seq : Nat) : List (String × Value) :=
  [("msg.type", .text "object"), ("object.cmd", .text cmd), ("stream.epoch", .text exampleEpoch),
    ("stream.seq", .number seq), ("object.uuid", .text uuid), ("object.type", .text type), ("object.owner", .text owner)]

/-- A snapshot in which the VFO comes before its rig. -/
def exampleFrames : List (List (String × Value)) :=
  [("request.id", .text "test") :: exampleObject "begin" exampleEpoch "node" "" 0,
    exampleObject "added" exampleVfo "vfo" exampleRig 1, exampleObject "added" exampleRig "rig" exampleEpoch 1]


/-- The cache after the snapshot. -/
def exampleCache : Cache (List (String × Value)) where
  objects :=
    [{ uuid := exampleRig, descriptor := some (exampleObject "added" exampleRig "rig" exampleEpoch 1), seq := 1,
       removed := false, properties := [] },
      { uuid := exampleVfo, descriptor := some (exampleObject "added" exampleVfo "vfo" exampleRig 1), seq := 1,
        removed := false, properties := [] }]
  epoch := some exampleEpoch
  request := some "test"
  ready := false
  allocated := 2

theorem exampleFrames_applied : (new : Cache (List (String × Value))).applyAll exampleReader exampleFrames = exampleCache := by
  have hsize : ("test" : String).utf8ByteSize = 4 := rfl
  simp [applyAll, exampleFrames, exampleCache, apply, applyObject, findOrCreate, find, update, exampleReader, exampleObject, exampleEpoch,
    exampleRig, exampleVfo, new, List.lookup_cons, Value.text?, Value.number?, Option.filter, hsize]

/-- The removal of the rig. -/
def exampleRemoval : List (String × Value) := exampleObject "removed" exampleRig "" "" 8

theorem exampleRemoval_removes : Removes exampleReader exampleCache exampleRemoval exampleRig 8 where
  family := by simp [exampleReader, exampleRemoval, exampleObject, Value.text?]
  cmd := by simp [exampleReader, exampleRemoval, exampleObject, List.lookup_cons, Value.text?]
  epoch := ⟨exampleEpoch, rfl, by simp [exampleReader, exampleRemoval, exampleObject, List.lookup_cons, Value.text?],
    by simp [exampleReader, exampleEpoch]⟩
  seq := by simp [exampleReader, exampleRemoval, exampleObject, List.lookup_cons, Value.number?]
  request := by simp [exampleReader, exampleRemoval, exampleObject, List.lookup_cons]
  uuid := by simp [exampleReader, exampleRemoval, exampleObject, List.lookup_cons, Value.text?]

theorem exampleCache_rig : exampleCache.held exampleRig = some
    { uuid := exampleRig, descriptor := some (exampleObject "added" exampleRig "rig" exampleEpoch 1), seq := 1,
      removed := false, properties := [] } := by
  simp [held, exampleCache]

theorem exampleCache_vfo : exampleCache.held exampleVfo = some
    { uuid := exampleVfo, descriptor := some (exampleObject "added" exampleVfo "vfo" exampleRig 1), seq := 1,
      removed := false, properties := [] } := by
  simp [held, exampleCache, exampleRig, exampleVfo]

theorem exampleVfo_falls : Falls exampleReader exampleCache exampleRig 8 exampleVfo :=
  Falls.child Falls.root exampleCache_vfo rfl rfl
    (by simp [owner, exampleReader, exampleObject, List.lookup_cons, Value.text?]) (by simp [exampleReader, exampleRig])
    (by decide)

/-! ### The cache -/

/-- After any frames the cache is sound: UUIDs are valid and each is there once, within the bounds; no live object
hangs under a tombstone that is not older; a tombstone has no properties; and every descriptor and state was said of
this object or property, in this epoch, under the number and version that are kept with it. -/
theorem cache_sound (r : Reader D) (frames : List D) : Sound r ((new : Cache D).applyAll r frames) :=
  sound_applyAll frames new (sound_new r none none false)

/-- Up to the next snapshot nothing in the cache goes back, in whatever order frames arrive: no object is forgotten, its
number only rises, one that was removed comes back only with a later number, and as long as an object is not removed a
state of its properties gives way only to a later version. -/
theorem nothing_goes_back (r : Reader D) (before after : List D) :
    (∀ d ∈ after, ¬ Begins r d) →
      (∀ u o, ((new : Cache D).applyAll r before).held u = some o →
        ∃ o', ((new : Cache D).applyAll r (before ++ after)).held u = some o' ∧ Later o o') ∧
      ∀ u, Stays r ((new : Cache D).applyAll r before) u after →
        ∀ o p, ((new : Cache D).applyAll r before).held u = some o → p ∈ o.properties →
          ∃ o' p', ((new : Cache D).applyAll r (before ++ after)).held u = some o' ∧ p' ∈ o'.properties ∧ Fresher p p' := by
  intro hbegin
  have hsound : Sound r ((new : Cache D).applyAll r before) := sound_applyAll before new (sound_new r none none false)
  have hsplit : (new : Cache D).applyAll r (before ++ after) = ((new : Cache D).applyAll r before).applyAll r after :=
    List.foldl_append ..
  rw [hsplit]
  exact ⟨fun u => later_applyAll after _ hsound hbegin, fun u hstays => fresher_applyAll after _ hsound hbegin hstays⟩

/-- A description of the VFO from before the removal is late. -/
theorem exampleVfo_later : ∃ o', ((new : Cache (List (String × Value))).applyAll exampleReader (exampleFrames ++
    [exampleRemoval, exampleObject "added" exampleVfo "vfo" exampleRig 6])).held exampleVfo = some o' ∧ 1 ≤ o'.seq := by
  have hbegin : ∀ d ∈ [exampleRemoval, exampleObject "added" exampleVfo "vfo" exampleRig 6], ¬ Begins exampleReader d := by
    simp [Begins, exampleReader, exampleRemoval, exampleObject, List.lookup_cons, Value.text?]
  obtain ⟨o', ho', hlater⟩ := (nothing_goes_back exampleReader exampleFrames
    [exampleRemoval, exampleObject "added" exampleVfo "vfo" exampleRig 6] hbegin).1 exampleVfo _
    (by rw [exampleFrames_applied]; exact exampleCache_vfo)
  exact ⟨o', ho', hlater.seq⟩

/-- A removal of an object takes exactly what hangs under it by the descriptors, level by level, and is not newer than
the removal, whatever the order in which the objects became known; it leaves those as tombstones with its number, and
every other object as it was. -/
theorem removal_exact (r : Reader D) (frames : List D) (d : D) (uuid : String) (seq : Nat) (o : Object D)
    (hframe : Removes r ((new : Cache D).applyAll r frames) d uuid seq)
    (hheld : ((new : Cache D).applyAll r frames).held uuid = some o) (hnewer : Newer seq o) :
    let c := (new : Cache D).applyAll r frames
    (c.apply r d).1 = true ∧ ∀ u,
      (Falls r c uuid seq u → (c.apply r d).2.held u = (c.held u).map (tombstone seq)) ∧
      (¬ Falls r c uuid seq u → (c.apply r d).2.held u = c.held u) := by
  intro c
  have hsound : Sound r c := sound_applyAll frames new (sound_new r none none false)
  obtain ⟨hmem, huuid⟩ := mem_of_held hheld
  have hvalid : r.uuidValid uuid = true := hsound.valid uuid (huuid ▸ List.mem_map_of_mem hmem)
  obtain ⟨hfallen, -, hall⟩ := removeObject_spec hsound.rooted hheld seq
  rw [apply_removes hframe hvalid hheld hnewer]
  refine ⟨rfl, fun u => ⟨hall u, fun hstays => ?_⟩⟩
  exact (hfallen.objects u).resolve_right fun h => hstays h.1

/-- The VFO goes with its rig, though it came first. -/
theorem exampleVfo_gone : (((new : Cache (List (String × Value))).applyAll exampleReader exampleFrames).apply
    exampleReader exampleRemoval).2.held exampleVfo = some
      { uuid := exampleVfo, descriptor := some (exampleObject "added" exampleVfo "vfo" exampleRig 1), seq := 8,
        removed := true, properties := [] } := by
  have hgone := ((removal_exact exampleReader exampleFrames exampleRemoval exampleRig 8 _
    (by rw [exampleFrames_applied]; exact exampleRemoval_removes) (by rw [exampleFrames_applied]; exact exampleCache_rig)
    ⟨by decide, by simp⟩).2 exampleVfo).1 (by rw [exampleFrames_applied]; exact exampleVfo_falls)
  rw [hgone, exampleFrames_applied, exampleCache_vfo]
  rfl

end Cache

end Objects

end RustyRig
