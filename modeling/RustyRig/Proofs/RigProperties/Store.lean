/-
One property store.

A definition leaves every value alone; an observation or an unavailability mark either
leaves the store as it was or stamps exactly one property with the next version.
-/
import Mathlib.Data.List.Pairwise
import RustyRig.Lib.Stamps
import RustyRig.Rrserver.RigProperties

namespace RustyRig

/-- What a property holds, apart from its schema. -/
def Property.state (p : Property) : Bool × Bool × Bool × Value × Nat × Nat :=
  (p.observed, p.known, p.available, p.value, p.version, p.changedAt)

namespace Store

variable {s s' : Store} {p q : Property} {name : String}

/-- What a client may rely on in a store. -/
structure Sound (s : Store) : Prop where
  /-- An available value is known and was observed. -/
  available : ∀ p ∈ s.properties, p.available = true → p.known = true ∧ p.observed = true
  /-- A known value has the property's type. -/
  typed : ∀ p ∈ s.properties, p.known = true → p.value.type = p.type
  /-- The versions are stamps of the store's version. -/
  stamped : Lib.Stamped s.version (s.properties.map Property.version)

theorem Sound.version_max (h : s.Sound) :
    (s.properties.map Property.version).foldr max 0 = s.version := h.stamped.foldr_max

/-- No two changed properties share a version. -/
theorem Sound.eq_of_version (h : s.Sound) : ∀ p ∈ s.properties, ∀ q ∈ s.properties,
    p.version = q.version → p.version ≠ 0 → p = q := by
  have hpair : s.properties.Pairwise fun p q => p.version = q.version → p.version = 0 :=
    List.pairwise_map.mp h.stamped.distinct
  have : Std.Symm fun p q : Property => p.version = q.version → p.version = 0 :=
    ⟨fun p q h heq => heq.trans (h heq.symm)⟩
  intro p hp q hq heq hne
  by_contra hpq
  exact hne (hpair.forall hp hq hpq heq)

theorem sound_empty : empty.Sound := ⟨by simp [empty], by simp [empty], .nil⟩

/-! ### Finding and writing -/

theorem name_of_find (h : s.find? name = some p) : p.name = name := by
  have := List.find?_some h
  exact beq_iff_eq.mp this

theorem mem_of_find (h : s.find? name = some p) : p ∈ s.properties := List.mem_of_find?_eq_some h

/-- A property is found under its name. -/
theorem find_of_mem (h : p ∈ s.properties) : s.find? p.name = some p := by
  unfold find?
  obtain ⟨q, hq⟩ : ∃ q, s.properties.find? (·.name == p.name) = some q := by
    rw [← Option.isSome_iff_exists, List.find?_isSome]
    exact ⟨p, h, beq_self_eq_true _⟩
  have hname : q.name = p.name := name_of_find hq
  rw [hq, List.inj_on_of_nodup_map s.nodup (mem_of_find hq) h hname]

/-- A write through the pointer replaces one property where it stands. -/
theorem put_split (h : s.find? p.name = some q) : ∃ pre post,
    s.properties = pre ++ q :: post ∧ (s.put p).properties = pre ++ p :: post := by
  obtain ⟨hq, pre, post, heq, hpre⟩ := List.find?_eq_some_iff_append.mp h
  have hname : q.name = p.name := beq_iff_eq.mp hq
  have hnd := s.nodup
  rw [heq, List.map_append, List.map_cons, List.nodup_append] at hnd
  have hpost : ∀ x ∈ post, x.name ≠ p.name := by
    intro x hx hxp
    refine (List.nodup_cons.mp hnd.2.1).1 ?_
    rw [hname, ← hxp]
    exact List.mem_map_of_mem hx
  have hkeep : ∀ xs : List Property, (∀ x ∈ xs, x.name ≠ p.name) →
      (xs.map fun x => if x.name = p.name then p else x) = xs := by
    intro xs hxs
    conv => rhs; rw [← List.map_id xs]
    refine List.map_congr_left fun x hx => ?_
    rw [if_neg (hxs x hx), id]
  refine ⟨pre, post, heq, ?_⟩
  show (s.properties.map fun x => if x.name = p.name then p else x) = _
  rw [heq, List.map_append, List.map_cons, if_pos hname, hkeep post hpost, hkeep pre]
  intro x hx
  simpa using hpre x hx

theorem mem_put {x : Property} (h : s.find? p.name = some q) (hx : x ∈ (s.put p).properties) :
    x = p ∨ x ∈ s.properties := by
  obtain ⟨pre, post, heq, hput⟩ := put_split h
  rw [hput, List.mem_append, List.mem_cons] at hx
  rw [heq, List.mem_append, List.mem_cons]
  tauto

theorem find_put (h : s.find? p.name = some q) (other : String) :
    (s.put p).find? other = if other = p.name then some p else s.find? other := by
  obtain ⟨pre, post, heq, hput⟩ := put_split h
  by_cases hother : other = p.name
  · rw [if_pos hother, hother]
    refine find_of_mem ?_
    rw [hput]
    exact List.mem_append_right _ List.mem_cons_self
  · have hp : (p.name == other) = false := beq_false_of_ne fun he => hother he.symm
    have hq : (q.name == other) = false := by
      rw [name_of_find h]
      exact hp
    rw [if_neg hother]
    unfold find?
    rw [hput, heq, List.find?_append, List.find?_append, List.find?_cons_of_neg, List.find?_cons_of_neg]
    · rw [hq]
      exact Bool.false_ne_true
    · rw [hp]
      exact Bool.false_ne_true

/-! ### Changes -/

/-- The property of this name, and only it, took the next version. -/
structure Changed (s : Store) (name : String) (s' : Store) : Prop where
  version : s'.version = s.version + 1
  stamped : ∃ p, s'.find? name = some p ∧ p.version = s'.version
  others : ∀ other, other ≠ name → s'.find? other = s.find? other

theorem changed_stamp (now : Nat) (h : s.find? p.name = some q) :
    s.Changed p.name (s.stamp now p) := by
  have hfind := find_put (p := { p with version := s.version + 1, changedAt := now }) h
  refine ⟨rfl, ⟨{ p with version := s.version + 1, changedAt := now }, ?_, rfl⟩, fun other hne => ?_⟩
  · exact (hfind p.name).trans (if_pos rfl)
  · exact (hfind other).trans (if_neg hne)

theorem Sound.stamp (hs : s.Sound) (now : Nat) (h : s.find? p.name = some q)
    (havailable : p.available = true → p.known = true ∧ p.observed = true)
    (htyped : p.known = true → p.value.type = p.type) : (s.stamp now p).Sound where
  available := by
    intro x hx
    rcases mem_put (p := { p with version := s.version + 1, changedAt := now }) h hx with rfl | hx
    · exact havailable
    · exact hs.available x hx
  typed := by
    intro x hx
    rcases mem_put (p := { p with version := s.version + 1, changedAt := now }) h hx with rfl | hx
    · exact htyped
    · exact hs.typed x hx
  stamped := by
    obtain ⟨pre, post, heq, hput⟩ :=
      put_split (p := { p with version := s.version + 1, changedAt := now }) h
    have hold := hs.stamped
    rw [heq, List.map_append, List.map_cons] at hold
    show Lib.Stamped (s.version + 1) ((s.put _).properties.map Property.version)
    rw [hput, List.map_append, List.map_cons]
    exact hold.tick

theorem valueCopy_spec {v : Value} {room : Bool} (h : p.valueCopy v room = some q) :
    q = { p with value := v, known := true } := by
  unfold Property.valueCopy at h
  cases v with
  | str t =>
      cases t with
      | none => exact absurd h (by simp)
      | some t =>
          cases room with
          | false => exact absurd h (by simp)
          | true => exact (Option.some.inj h).symm
  | _ => exact (Option.some.inj h).symm

/-- An update leaves the store alone or changes the property it names. -/
inductive Updated (s : Store) (name : String) : Update × Store → Prop
  | error : Updated s name (.error, s)
  | unchanged : Updated s name (.unchanged, s)
  | changed (s' : Store) (changed : s.Changed name s') (sound : s.Sound → s'.Sound) :
      Updated s name (.changed, s')

theorem updated_stamp (now : Nat) (h : s.find? name = some q) (hname : p.name = name)
    (havailable : s.Sound → p.available = true → p.known = true ∧ p.observed = true)
    (htyped : s.Sound → p.known = true → p.value.type = p.type) :
    Updated s name (.changed, s.stamp now p) := by
  subst hname
  exact .changed _ (changed_stamp now h) fun hs => hs.stamp now h (havailable hs) (htyped hs)

theorem observe_updated (s : Store) (now : Nat) (name : String) (value : Option Value) (room : Bool) :
    Updated s name (s.observe now name value room) := by
  unfold observe
  cases hf : s.find? name with
  | none => exact .error
  | some p =>
      cases value with
      | none => exact .error
      | some v =>
          show Updated s name (if p.type ≠ v.type then _ else _)
          by_cases htype : p.type = v.type
          · rw [if_neg (not_not.mpr htype)]
            by_cases hsame : (p.observed && p.available && p.valuesEqual v) = true
            · rw [if_pos hsame]
              exact .unchanged
            · rw [if_neg hsame]
              cases hc : p.valueCopy v room with
              | none => exact .error
              | some q =>
                  have hq := valueCopy_spec hc
                  subst hq
                  have hname : p.name = name := name_of_find hf
                  exact updated_stamp now hf hname (fun _ _ => ⟨rfl, rfl⟩) fun _ _ => htype.symm
          · rw [if_pos htype]
            exact .error

theorem unavailable_updated (s : Store) (now : Nat) (name : String) :
    Updated s name (s.unavailable now name) := by
  unfold unavailable
  cases hf : s.find? name with
  | none => exact .error
  | some p =>
      show Updated s name (if (p.observed && !p.available) = true then _ else _)
      by_cases hsame : (p.observed && !p.available) = true
      · rw [if_pos hsame]
        exact .unchanged
      · rw [if_neg hsame]
        have hname : p.name = name := name_of_find hf
        exact updated_stamp now hf hname (fun _ h => absurd h Bool.false_ne_true)
          fun hs hk => hs.typed p (mem_of_find hf) hk

/-- A value equal to the available one is no change. -/
theorem observe_equal (hs : s.Sound) {v : Value} (hf : s.find? name = some p)
    (havailable : p.available = true) (hequal : p.valuesEqual v = true) (now : Nat) (room : Bool) :
    s.observe now name (some v) room = (.unchanged, s) := by
  have hp := hs.available p (mem_of_find hf) havailable
  have heq : p.value.equal v = true := by
    unfold Property.valuesEqual at hequal
    rw [hp.1, Bool.true_and] at hequal
    exact hequal
  have htype : p.type = v.type := by
    rw [← hs.typed p (mem_of_find hf) hp.1]
    cases hx : p.value <;> cases v <;> rw [hx] at heq <;>
      first | rfl | exact absurd heq Bool.false_ne_true
  unfold observe
  rw [hf]
  show (if p.type ≠ v.type then _ else _) = _
  rw [if_neg (not_not.mpr htype), if_pos]
  rw [hp.2, havailable, hequal]
  rfl

/-! ### Definitions -/

/-- Definitions bring in properties that were never observed, and leave the state of the
others alone. -/
structure Redefined (s s' : Store) : Prop where
  version : s'.version = s.version
  kept : ∀ name p, s.find? name = some p →
    ∃ q, s'.find? name = some q ∧ q.type = p.type ∧ q.state = p.state
  fresh : ∀ name q, s'.find? name = some q → s.find? name = none → q.state = (false, false, false, .null, 0, 0)

theorem Redefined.refl (s : Store) : s.Redefined s where
  version := rfl
  kept := fun _ p h => ⟨p, h, rfl, rfl⟩
  fresh := by
    intro name q hq hnone
    rw [hq] at hnone
    exact absurd hnone (by simp)

theorem find_insert (h : s.find? p.name = none) (other : String) :
    (s.insert p h).find? other = if other = p.name then some p else s.find? other := by
  unfold insert find?
  rw [List.find?_append]
  by_cases hother : other = p.name
  · subst hother
    rw [if_pos rfl, show s.properties.find? (·.name == p.name) = none from h, Option.none_or]
    exact List.find?_cons_of_pos (beq_self_eq_true _)
  · rw [if_neg hother, List.find?_cons_of_neg, List.find?_nil, Option.or_none]
    intro heq
    exact hother (beq_iff_eq.mp heq).symm

theorem redefined_insert (d : Descriptor) (h : s.find? (Property.ofDescriptor d).name = none) :
    s.Redefined (s.insert (.ofDescriptor d) h) where
  version := rfl
  kept := by
    intro name p hp
    refine ⟨p, ?_, rfl, rfl⟩
    rw [find_insert, if_neg, hp]
    intro heq
    rw [← heq, hp] at h
    exact absurd h (by simp)
  fresh := by
    intro name q hq hnone
    rw [find_insert] at hq
    by_cases hname : name = (Property.ofDescriptor d).name
    · rw [if_pos hname] at hq
      rw [← Option.some.inj hq]
      rfl
    · rw [if_neg hname, hnone] at hq
      exact absurd hq (by simp)

theorem Sound.insert (hs : s.Sound) (d : Descriptor)
    (h : s.find? (Property.ofDescriptor d).name = none) : (s.insert (.ofDescriptor d) h).Sound where
  available := by
    intro p hp hp'
    rcases List.mem_append.mp hp with hp | hp
    · exact hs.available p hp hp'
    · rw [List.mem_singleton.mp hp] at hp'
      exact absurd hp' Bool.false_ne_true
  typed := by
    intro p hp hp'
    rcases List.mem_append.mp hp with hp | hp
    · exact hs.typed p hp hp'
    · rw [List.mem_singleton.mp hp] at hp'
      exact absurd hp' Bool.false_ne_true
  stamped := by
    unfold Store.insert
    rw [List.map_append]
    exact hs.stamped.snoc

theorem define_redefined {d : Descriptor} {room : Bool} (h : s.define d room = some s') :
    s.Redefined s' ∧ (s.Sound → s'.Sound) := by
  unfold define at h
  by_cases hinv : d.invalid = true
  · rw [if_pos hinv] at h
    exact absurd h (by simp)
  · rw [if_neg hinv] at h
    split at h
    · split at h
      · rw [← Option.some.inj h]
        exact ⟨.refl s, id⟩
      · exact absurd h (by simp)
    · rename_i hfind
      split at h
      · rw [← Option.some.inj h]
        exact ⟨redefined_insert d hfind, fun hs => hs.insert d hfind⟩
      · exact absurd h (by simp)

/-- A write that leaves type and state alone. -/
theorem redefined_put (h : s.find? p.name = some q) (htype : p.type = q.type)
    (hstate : p.state = q.state) : s.Redefined (s.put p) where
  version := rfl
  kept := by
    intro name x hx
    by_cases hname : name = p.name
    · refine ⟨p, by rw [find_put h, if_pos hname], ?_⟩
      rw [hname, h] at hx
      rw [← Option.some.inj hx]
      exact ⟨htype, hstate⟩
    · exact ⟨x, by rw [find_put h, if_neg hname, hx], rfl, rfl⟩
  fresh := by
    intro name x hx hnone
    rw [find_put h] at hx
    by_cases hname : name = p.name
    · rw [hname, h] at hnone
      exact absurd hnone (by simp)
    · rw [if_neg hname, hnone] at hx
      exact absurd hx (by simp)

theorem Sound.put (hs : s.Sound) (h : s.find? p.name = some q) (htype : p.type = q.type)
    (hstate : p.state = q.state) : (s.put p).Sound where
  available := by
    intro x hx
    rcases mem_put h hx with rfl | hx
    · have hq := hs.available q (mem_of_find h)
      simp only [Property.state, Prod.mk.injEq] at hstate
      rw [hstate.1, hstate.2.1, hstate.2.2.1]
      exact hq
    · exact hs.available x hx
  typed := by
    intro x hx
    rcases mem_put h hx with rfl | hx
    · have hq := hs.typed q (mem_of_find h)
      simp only [Property.state, Prod.mk.injEq] at hstate
      rw [htype, hstate.2.1, hstate.2.2.2.1]
      exact hq
    · exact hs.typed x hx
  stamped := by
    obtain ⟨pre, post, heq, hput⟩ := put_split h
    have hversion : p.version = q.version := congrArg (·.2.2.2.2.1) hstate
    have hmap : (s.put p).properties.map Property.version = s.properties.map Property.version := by
      rw [hput, heq, List.map_append, List.map_append, List.map_cons, List.map_cons, hversion]
    rw [hmap]
    exact hs.stamped

theorem redefine_redefined {d : Descriptor} {room : Bool} (h : s.redefine d room = some s') :
    s.Redefined s' ∧ (s.Sound → s'.Sound) := by
  unfold redefine at h
  cases hf : s.find? d.name with
  | none =>
      rw [hf] at h
      exact define_redefined h
  | some old =>
      rw [hf] at h
      dsimp only at h
      have hold : s.find? old.name = some old := by rw [name_of_find hf, hf]
      by_cases htype : old.type = d.type
      · rw [if_neg (not_not.mpr htype)] at h
        cases hd : empty.define d room with
        | none =>
            rw [hd] at h
            exact absurd h (by simp)
        | some temporary =>
            rw [hd] at h
            obtain ⟨replacement, -, rfl⟩ := Option.map_eq_some_iff.mp h
            exact ⟨redefined_put (q := old) hold rfl rfl, fun hs => hs.put (q := old) hold rfl rfl⟩
      · rw [if_pos htype] at h
        exact absurd h (by simp)

end Store

end RustyRig
