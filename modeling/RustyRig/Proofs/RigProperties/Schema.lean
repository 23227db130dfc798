/-
The schema of a property.

A definition of what is there is compared attribute by attribute.  Bounds are compared as
numbers, so the sign of a zero is no difference, and a NaN differs from itself.
-/
import Mathlib.Algebra.Group.Nat.Defs
import RustyRig.Proofs.RigProperties.Store

namespace RustyRig

/-! ### Values -/

/-- The value with the sign of a floating point zero dropped. -/
def Value.unsigned : Value → Value
  | .float b => .float (if b.toNat % 2 ^ 31 = 0 then 0 else b)
  | .double b => .double (if b.toNat % 2 ^ 63 = 0 then 0 else b)
  | v => v

/-- A floating point value that is no number. -/
def Value.isNan : Value → Bool
  | .float b => decide (0x7F800000 < b.toNat % 2 ^ 31)
  | .double b => decide (0x7FF0000000000000 < b.toNat % 2 ^ 63)
  | _ => false

theorem ieeeEq_iff {w infinity a b : Nat} : ieeeEq w infinity a b = true ↔
    (a % 2 ^ (w - 1) = 0 ∧ b % 2 ^ (w - 1) = 0 ∨ a = b) ∧ ¬ infinity < b % 2 ^ (w - 1) := by
  unfold ieeeEq
  simp only [Bool.and_eq_true, Bool.or_eq_true, decide_eq_true_eq, beq_iff_eq]
  constructor
  · intro h
    exact ⟨h.2.symm, Nat.not_lt.mpr h.1.2⟩
  · intro h
    have hb := Nat.not_lt.mp h.2
    refine ⟨⟨?_, hb⟩, h.1.symm⟩
    rcases h.1 with hzero | heq
    · omega
    · rw [heq]
      exact hb

/-- Two numbers are the same without the sign of zero. -/
theorem zero_iff {α : Type} {zero : α} (isZero : α → Prop) [DecidablePred isZero] (hzero : isZero zero)
    {a b : α} :
    (if isZero a then zero else a) = (if isZero b then zero else b) ↔ isZero a ∧ isZero b ∨ a = b := by
  by_cases ha : isZero a <;> by_cases hb : isZero b
  · simp [ha, hb]
  · rw [if_pos ha, if_neg hb]
    constructor
    · intro h
      exact absurd (h ▸ hzero) hb
    · intro h
      rcases h with h | h
      · exact absurd h.2 hb
      · exact absurd (h ▸ ha) hb
  · rw [if_neg ha, if_pos hb]
    constructor
    · intro h
      exact absurd (h ▸ hzero) ha
    · intro h
      rcases h with h | h
      · exact absurd h.1 ha
      · exact absurd (h ▸ hb) ha
  · simp [ha, hb]

/-- The comparison of two values, without the code's bits. -/
theorem equal_iff {a b : Value} :
    a.equal b = true ↔ a.unsigned = b.unsigned ∧ b.isNan = false ∧ b.type.supported = true := by
  cases a <;> cases b
  case float.float a b =>
    have hzero := zero_iff (fun n : UInt32 => n.toNat % 2 ^ 31 = 0) (show (0 : UInt32).toNat % 2 ^ 31 = 0 from rfl)
      (a := a) (b := b)
    show ieeeEq 32 0x7F800000 a.toNat b.toNat = true ↔
      Value.float _ = Value.float _ ∧ Value.isNan (.float b) = false ∧ true = true
    rw [ieeeEq_iff, Value.float.injEq, hzero, UInt32.toNat_inj, Value.isNan, decide_eq_false_iff_not,
      and_iff_left rfl]
  case double.double a b =>
    have hzero := zero_iff (fun n : UInt64 => n.toNat % 2 ^ 63 = 0) (show (0 : UInt64).toNat % 2 ^ 63 = 0 from rfl)
      (a := a) (b := b)
    show ieeeEq 64 0x7FF0000000000000 a.toNat b.toNat = true ↔
      Value.double _ = Value.double _ ∧ Value.isNan (.double b) = false ∧ true = true
    rw [ieeeEq_iff, Value.double.injEq, hzero, UInt64.toNat_inj, Value.isNan, decide_eq_false_iff_not,
      and_iff_left rfl]
  all_goals simp [Value.equal, Value.unsigned, Value.isNan, Value.type, ValType.supported]

theorem sameBound_iff {a b : Option Value} : sameBound a b = true ↔
    a.map Value.unsigned = b.map Value.unsigned ∧
      ∀ x ∈ b, x.isNan = false ∧ x.type.supported = true := by
  cases a <;> cases b
  case some.some a b =>
    show a.equal b = true ↔ _
    rw [equal_iff]
    simp
  all_goals simp [sameBound]

/-! ### Descriptors -/

namespace Descriptor

/-- The bounds there are. -/
def bounds (d : Descriptor) : List Value := d.minimum.toList ++ d.maximum.toList ++ d.step.toList

/-- A bound is a value of the property's type: its union has no other tag. -/
def Typed (d : Descriptor) : Prop := ∀ b ∈ d.bounds, b.type = d.type

instance (d : Descriptor) : Decidable d.Typed := inferInstanceAs (Decidable (∀ b ∈ d.bounds, _))

/-- Some bound is no number. -/
def HasNan (d : Descriptor) : Prop := ∃ b ∈ d.bounds, b.isNan = true

instance (d : Descriptor) : Decidable d.HasNan := inferInstanceAs (Decidable (∃ b ∈ d.bounds, _))

/-- The attributes, with bounds that are numbers. -/
def attributes (d : Descriptor) : Descriptor :=
  { d with
    minimum := d.minimum.map Value.unsigned
    maximum := d.maximum.map Value.unsigned
    step := d.step.map Value.unsigned }

end Descriptor

/-- The descriptor a property is described by. -/
def Property.description (p : Property) : Descriptor :=
  { p.schema with
    name := p.name
    type := p.type
    readable := p.readable
    writable := p.writable
    unit := p.unit }

@[simp] theorem description_ofDescriptor (d : Descriptor) :
    (Property.ofDescriptor d).description = d := rfl

/-- The property with another definition. -/
def Property.redefinedBy (p : Property) (d : Descriptor) : Property :=
  { p with
    schema := { d with name := p.name }
    unit := d.unit
    readable := d.readable
    writable := d.writable }

theorem description_redefinedBy {p : Property} {d : Descriptor} (hname : p.name = d.name)
    (htype : p.type = d.type) : (p.redefinedBy d).description = d := by
  show Descriptor.mk p.name p.type _ _ _ _ _ _ _ = d
  rw [hname, htype]
  rfl

/-- A definition is the one that is there exactly when its attributes are, and its bounds
equal themselves. -/
theorem sameSchema_iff {p : Property} {d : Descriptor} (hname : p.name = d.name) :
    p.sameSchema d = true ↔ p.description.attributes = d.attributes ∧
      ∀ b ∈ d.bounds, b.isNan = false ∧ b.type.supported = true := by
  unfold Property.sameSchema
  simp only [Bool.and_eq_true, beq_iff_eq, sameBound_iff]
  have hattributes : p.description.attributes = d.attributes ↔
      p.type = d.type ∧ p.readable = d.readable ∧ p.writable = d.writable ∧ p.unit = d.unit ∧
        p.schema.minimum.map Value.unsigned = d.minimum.map Value.unsigned ∧
        p.schema.maximum.map Value.unsigned = d.maximum.map Value.unsigned ∧
        p.schema.step.map Value.unsigned = d.step.map Value.unsigned ∧
        p.schema.enumValues = d.enumValues := by
    cases d
    simp only [Property.description, Descriptor.attributes, Descriptor.mk.injEq]
    exact ⟨fun h => h.2, fun h => ⟨hname, h⟩⟩
  have hbounds : (∀ b ∈ d.bounds, b.isNan = false ∧ b.type.supported = true) ↔
      (∀ b ∈ d.minimum, b.isNan = false ∧ b.type.supported = true) ∧
        (∀ b ∈ d.maximum, b.isNan = false ∧ b.type.supported = true) ∧
        ∀ b ∈ d.step, b.isNan = false ∧ b.type.supported = true := by
    unfold Descriptor.bounds
    simp only [List.mem_append, Option.mem_toList, or_imp, forall_and]
    tauto
  rw [hattributes, hbounds]
  tauto

theorem supported_of_valid {d : Descriptor} (h : d.invalid = false) : d.type.supported = true := by
  unfold Descriptor.invalid at h
  simp only [Bool.or_eq_false_iff, Bool.not_eq_false'] at h
  exact h.1.1.1.2

/-- Bounds of a valid definition equal themselves when they are numbers. -/
theorem sameSchema_self {p : Property} {d : Descriptor} (hvalid : d.invalid = false) (hd : d.Typed)
    (hname : p.name = d.name) :
    p.sameSchema d = true ↔ p.description.attributes = d.attributes ∧ ¬ d.HasNan := by
  rw [sameSchema_iff hname]
  refine and_congr_right fun _ => ?_
  constructor
  · intro h hnan
    obtain ⟨b, hb, hbnan⟩ := hnan
    exact absurd (hbnan.symm.trans (h b hb).1) Bool.noConfusion
  · intro h b hb
    refine ⟨Bool.eq_false_iff.mpr fun hnan => h ⟨b, hb, hnan⟩, ?_⟩
    rw [hd b hb]
    exact supported_of_valid hvalid

/-! ### Definitions -/

namespace Store

variable {s s' : Store} {d : Descriptor} {p : Property} {room : Bool}

theorem describe_eq (s : Store) (name : String) :
    s.describe name = (s.find? name).map Property.description := rfl

theorem define_invalid (h : d.invalid = true) : s.define d room = none := by
  unfold define
  exact if_pos h

theorem define_found (hvalid : d.invalid = false) (hf : s.find? d.name = some p) :
    s.define d room = if p.sameSchema d then some s else none := by
  unfold define
  rw [if_neg (Bool.eq_false_iff.mp hvalid)]
  split
  · rename_i q hq
    have heq : q = p := Option.some.inj (hq.symm.trans hf)
    rw [heq]
  · rename_i hnone
    exact absurd (hnone.symm.trans hf) (Option.some_ne_none p).symm

theorem define_fresh (hvalid : d.invalid = false)
    (hf : s.find? (Property.ofDescriptor d).name = none) :
    s.define d room = if room then some (s.insert (.ofDescriptor d) hf) else none := by
  unfold define
  rw [if_neg (Bool.eq_false_iff.mp hvalid)]
  split
  · rename_i q hq
    exact absurd (hf.symm.trans hq) (Option.some_ne_none q).symm
  · rfl

/-- What a definition that succeeds does. -/
inductive Defined (s : Store) (d : Descriptor) : Store → Prop
  | same (p : Property) (found : s.find? d.name = some p) (schema : p.sameSchema d = true) :
      Defined s d s
  | fresh (missing : s.find? (Property.ofDescriptor d).name = none) :
      Defined s d (s.insert (.ofDescriptor d) missing)

theorem define_cases (h : s.define d room = some s') : d.invalid = false ∧ Defined s d s' := by
  by_cases hinv : d.invalid = true
  · rw [define_invalid hinv] at h
    exact absurd h.symm (Option.some_ne_none s')
  have hvalid := Bool.eq_false_iff.mpr hinv
  refine ⟨hvalid, ?_⟩
  cases hf : s.find? d.name with
  | some p =>
      rw [define_found hvalid hf] at h
      by_cases hs : p.sameSchema d = true
      · rw [if_pos hs] at h
        rw [← Option.some.inj h]
        exact .same p hf hs
      · rw [if_neg hs] at h
        exact absurd h.symm (Option.some_ne_none s')
  | none =>
      rw [define_fresh hvalid hf] at h
      cases room with
      | true =>
          rw [← Option.some.inj h]
          exact .fresh hf
      | false => exact absurd h.symm (Option.some_ne_none s')

/-- What a definition that succeeded says of the property. -/
theorem Defined.described (h : Defined s d s') (hd : d.Typed) (hvalid : d.invalid = false) :
    ∃ p, s'.find? d.name = some p ∧ p.description.attributes = d.attributes := by
  cases h with
  | same p found schema =>
      exact ⟨p, found, ((sameSchema_self hvalid hd (name_of_find found)).mp schema).1⟩
  | fresh missing =>
      refine ⟨.ofDescriptor d, ?_, rfl⟩
      rw [find_insert]
      exact if_pos rfl

/-- Defining again changes nothing. -/
theorem define_again (hd : d.Typed) (hnan : ¬ d.HasNan) (h : s.define d room = some s') (room' : Bool) :
    s'.define d room' = some s' := by
  obtain ⟨hvalid, hdone⟩ := define_cases h
  obtain ⟨p, hp, hattributes⟩ := hdone.described hd hvalid
  rw [define_found hvalid hp, if_pos]
  exact (sameSchema_self hvalid hd (name_of_find hp)).mpr ⟨hattributes, hnan⟩

/-- With a bound that is no number it fails the second time. -/
theorem define_nan (hd : d.Typed) (hnan : d.HasNan) (hvalid : d.invalid = false)
    (hf : s.find? (Property.ofDescriptor d).name = none) :
    ∃ s', s.define d true = some s' ∧ s'.define d true = none := by
  refine ⟨_, define_fresh hvalid hf, ?_⟩
  have hfind : (s.insert (.ofDescriptor d) hf).find? d.name = some (.ofDescriptor d) := by
    rw [find_insert]
    exact if_pos rfl
  rw [define_found hvalid hfind, if_neg]
  intro h
  exact ((sameSchema_self hvalid hd rfl).mp h).2 hnan

/-- Another attribute is rejected. -/
theorem define_other (hd : d.Typed) (hf : s.find? d.name = some p)
    (hother : p.description.attributes ≠ d.attributes) : s.define d room = none := by
  by_cases hinv : d.invalid = true
  · exact define_invalid hinv
  have hvalid := Bool.eq_false_iff.mpr hinv
  rw [define_found hvalid hf, if_neg]
  intro h
  exact hother ((sameSchema_self hvalid hd (name_of_find hf)).mp h).1

/-! ### Redefinitions -/

/-- The new definition is in place, and what the property holds is what it held. -/
structure Replaced (s : Store) (d : Descriptor) (s' : Store) : Prop where
  version : s'.version = s.version
  described : s'.describe d.name = some d
  kept : ∀ p, s.find? d.name = some p → ∃ q, s'.find? d.name = some q ∧ q.type = p.type ∧ q.state = p.state
  others : ∀ other, other ≠ d.name → s'.find? other = s.find? other

theorem replaced_fresh (missing : s.find? (Property.ofDescriptor d).name = none) :
    Replaced s d (s.insert (.ofDescriptor d) missing) where
  version := rfl
  described := by
    have hfind : (s.insert (.ofDescriptor d) missing).find? d.name = some (.ofDescriptor d) := by
      rw [find_insert]
      exact if_pos rfl
    rw [describe_eq, hfind]
    rfl
  kept := fun p hp => absurd (missing.symm.trans hp) (Option.some_ne_none p).symm
  others := by
    intro other hne
    rw [find_insert]
    exact if_neg hne

/-- A redefinition that succeeds replaces the definition and nothing else. -/
theorem redefine_replaced (h : s.redefine d room = some s') : Replaced s d s' := by
  unfold redefine at h
  cases hf : s.find? d.name with
  | none =>
      rw [hf] at h
      cases (define_cases h).2 with
      | same p found => exact absurd (hf.symm.trans found) (Option.some_ne_none p).symm
      | fresh missing => exact replaced_fresh missing
  | some old =>
      rw [hf] at h
      dsimp only at h
      by_cases htype : old.type = d.type
      · rw [if_neg (not_not.mpr htype)] at h
        cases hd : empty.define d room with
        | none =>
            rw [hd] at h
            exact absurd h (Option.some_ne_none s').symm
        | some temporary =>
            rw [hd] at h
            have hreplacement : temporary.find? d.name = some (.ofDescriptor d) := by
              cases (define_cases hd).2 with
              | same p found => exact absurd found (Option.some_ne_none p).symm
              | fresh missing =>
                  rw [find_insert]
                  exact if_pos rfl
            dsimp only at h
            rw [hreplacement] at h
            have hname : old.name = d.name := name_of_find hf
            have hs' : s' = s.put (old.redefinedBy d) := (Option.some.inj h).symm
            have hold : s.find? (old.redefinedBy d).name = some old := by
              show s.find? old.name = some old
              rw [hname, hf]
            have hnew : s'.find? d.name = some (old.redefinedBy d) := by
              rw [hs', find_put hold]
              exact if_pos hname.symm
            refine ⟨by rw [hs']; rfl, ?_, fun p hp => ?_, fun other hne => ?_⟩
            · rw [describe_eq, hnew, Option.map_some, description_redefinedBy hname htype]
            · obtain rfl := Option.some.inj (hf.symm.trans hp)
              exact ⟨_, hnew, rfl, rfl⟩
            · rw [hs', find_put hold]
              exact if_neg fun heq => hne (heq.trans hname)
      · rw [if_pos htype] at h
        exact absurd h (Option.some_ne_none s').symm

end Store

end RustyRig
