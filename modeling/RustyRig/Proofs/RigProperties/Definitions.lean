/-
Definitions, and the two ways to address a VFO's property.

`vfo.X.field` names the field of the VFO whose alias is X.  Every call on the rig looks the
name up by itself, and all of them find the place `locate` finds.
-/
import RustyRig.Proofs.RigProperties.Schema
import RustyRig.Proofs.RigProperties.Versions
import RustyRig.Rrserver.RigProperties

namespace RustyRig

namespace ServerRig

variable {r : ServerRig} {owner : StoreKey} {s : Store} {v : ServerVfo}

/-! ### Names -/

/-- The name of a VFO's property on the rig. -/
def compatName (c : Char) (field : String) : String := "vfo." ++ (String.singleton c ++ ("." ++ field))

theorem compatName_toList (c : Char) (field : String) :
    (compatName c field).toList = 'v' :: 'f' :: 'o' :: '.' :: c :: '.' :: field.toList := by
  unfold compatName
  simp only [String.toList_append, String.toList_singleton]
  rfl

theorem compatName_ne (c : Char) (field : String) : compatName c field ≠ "" := by
  intro h
  have hlist := compatName_toList c field
  rw [h] at hlist
  exact List.cons_ne_nil _ _ hlist.symm

theorem parseVfo_compat {c : Char} {field : String} (hc : c.isAlpha = true) (hfield : field ≠ "") :
    parseVfo (compatName c field) = some (c.toUpper, field) := by
  unfold parseVfo
  rw [compatName_toList]
  cases hf : field.toList with
  | nil => exact absurd (String.toList_eq_nil_iff.mp hf) hfield
  | cons d ds =>
      have hback : String.ofList (d :: ds) = field := by rw [← hf, String.ofList_toList]
      show (if c.isAlpha = true then _ else _) = _
      rw [if_pos hc, hback]

/-- VFOs have aliases of their own. -/
def Aliased (r : ServerRig) : Prop := (r.vfos.map ServerVfo.aliasName).Nodup

theorem findAlias_of_mem (ha : r.Aliased) (hv : v ∈ r.vfos) (hne : v.aliasName ≠ "") :
    r.findAlias v.aliasName = some v := by
  unfold findAlias
  rw [if_neg hne]
  obtain ⟨u, hu⟩ : ∃ u, r.vfos.find? (·.aliasName == v.aliasName) = some u := by
    rw [← Option.isSome_iff_exists, List.find?_isSome]
    exact ⟨v, hv, beq_self_eq_true _⟩
  have halias := List.find?_some hu
  rw [hu, List.inj_on_of_nodup_map ha (List.mem_of_find?_eq_some hu) hv (beq_iff_eq.mp halias)]

theorem compatVfo_of_mem (ha : r.Aliased) (hv : v ∈ r.vfos) {c : Char} {field : String}
    (hc : c.isAlpha = true) (halias : v.aliasName = String.singleton c.toUpper) (hfield : field ≠ "") :
    r.compatVfo (compatName c field) = some (v, field) := by
  have hne : v.aliasName ≠ "" := by
    rw [halias]
    exact String.singleton_ne_empty
  unfold compatVfo
  rw [parseVfo_compat hc hfield]
  dsimp only
  rw [← halias, findAlias_of_mem ha hv hne]
  rfl

theorem locate_of_compat {name field : String} (h : r.compatVfo name = some (v, field)) :
    r.locate name = (some v.handle, field) := by
  unfold locate
  rw [h]

/-- A description through the rig is one of the store that is meant. -/
theorem rigPropertyDescribe_eq (r : ServerRig) (name : String) :
    r.rigPropertyDescribe name = (r.store? (r.locate name).1).bind (·.describe (r.locate name).2) := by
  unfold rigPropertyDescribe locate
  cases r.compatVfo name with
  | none => rfl
  | some found => rfl

/-- A write to a store leaves every name where it was. -/
theorem locate_withStore (name : String) : (r.withStore owner s).locate name = r.locate name := by
  cases owner with
  | none => rfl
  | some h =>
      have hfind : ∀ a : String, ((r.withStore (some h) s).findAlias a).map ServerVfo.handle =
          (r.findAlias a).map ServerVfo.handle := by
        intro a
        unfold findAlias
        by_cases ha : a = ""
        · rw [if_pos ha, if_pos ha]
        · have hcomp : ((fun v : ServerVfo => v.aliasName == a) ∘ fun v =>
              if v.handle = h then { v with store := s } else v) = fun v => v.aliasName == a := by
            funext v
            show ((if v.handle = h then { v with store := s } else v : ServerVfo).aliasName == a) = _
            by_cases hv : v.handle = h
            · rw [if_pos hv]
            · rw [if_neg hv]
          rw [if_neg ha, if_neg ha]
          show ((r.vfos.map _).find? _).map _ = _
          rw [List.find?_map, hcomp, Option.map_map]
          congr 1
          funext v
          show (if v.handle = h then { v with store := s } else v : ServerVfo).handle = v.handle
          by_cases hv : v.handle = h
          · rw [if_pos hv]
          · rw [if_neg hv]
      unfold locate compatVfo
      cases parseVfo name with
      | none => rfl
      | some parsed =>
          have hat := hfind (String.singleton parsed.1)
          dsimp only
          generalize (r.withStore (some h) s).findAlias (String.singleton parsed.1) = a at hat ⊢
          generalize r.findAlias (String.singleton parsed.1) = b at hat ⊢
          cases a <;> cases b
          · rfl
          · exact absurd hat (Option.some_ne_none _).symm
          · exact absurd hat (Option.some_ne_none _)
          · rename_i u v
            show (some u.handle, parsed.2) = (some v.handle, parsed.2)
            rw [Option.some.inj hat]

theorem aliases_withStore :
    (r.withStore owner s).vfos.map ServerVfo.aliasName = r.vfos.map ServerVfo.aliasName := by
  cases owner with
  | none => rfl
  | some h =>
      show (r.vfos.map _).map ServerVfo.aliasName = _
      rw [List.map_map]
      refine List.map_congr_left fun v _ => ?_
      show (if v.handle = h then { v with store := s } else v : ServerVfo).aliasName = v.aliasName
      by_cases hv : v.handle = h
      · rw [if_pos hv]
      · rw [if_neg hv]

end ServerRig

namespace RigWorld

open Store ServerRig

variable {w w' : RigWorld}

/-! ### Aliases over runs -/

theorem aliases_replaceStore (owner : StoreKey) (f : Store → Option Store) :
    (w.replaceStore owner f).1.rig.vfos.map ServerVfo.aliasName = w.rig.vfos.map ServerVfo.aliasName := by
  unfold replaceStore
  split
  · rfl
  · exact aliases_withStore

theorem aliases_updateStore (owner : StoreKey) (name : String) (told : Bool)
    (f : Store → Update × Store) : (w.updateStore owner name told f).1.rig.vfos.map
      ServerVfo.aliasName = w.rig.vfos.map ServerVfo.aliasName := by
  unfold updateStore
  split
  · rfl
  · dsimp only
    split
    · unfold emit
      split <;> exact aliases_withStore
    · exact aliases_withStore

theorem aliased_step (ha : w.rig.Aliased) (op : PropertyOp) : (w.step op).1.rig.Aliased := by
  unfold Aliased at ha ⊢
  cases op with
  | rigDefine d room =>
      show ((w.replaceStore _ _).1.rig.vfos.map _).Nodup
      rw [aliases_replaceStore]
      exact ha
  | vfoDefine vfo d room =>
      show ((w.replaceStore _ _).1.rig.vfos.map _).Nodup
      rw [aliases_replaceStore]
      exact ha
  | vfoRedefine vfo d room =>
      show ((w.replaceStore _ _).1.rig.vfos.map _).Nodup
      rw [aliases_replaceStore]
      exact ha
  | rigObserve now name value room told =>
      show ((w.updateStore _ _ _ _).1.rig.vfos.map _).Nodup
      rw [aliases_updateStore]
      exact ha
  | vfoObserve vfo now name value room told =>
      show ((w.updateStore _ _ _ _).1.rig.vfos.map _).Nodup
      rw [aliases_updateStore]
      exact ha
  | rigUnavailable now name told =>
      show ((w.updateStore _ _ _ _).1.rig.vfos.map _).Nodup
      rw [aliases_updateStore]
      exact ha
  | vfoUnavailable vfo now name told =>
      show ((w.updateStore _ _ _ _).1.rig.vfos.map _).Nodup
      rw [aliases_updateStore]
      exact ha
  | vfoAdd uuid aliasName nativeId lifecycle room =>
      show ((w.vfoAdd uuid aliasName nativeId lifecycle room).1.rig.vfos.map _).Nodup
      unfold vfoAdd
      by_cases hno : uuid = "" ∨ aliasName = "" ∨ nativeId = "" ∨ (w.rig.findUuid uuid).isSome ∨
          (w.rig.findAlias aliasName).isSome ∨ room = false
      · rw [if_pos hno]
        exact ha
      · rw [if_neg hno]
        simp only [not_or] at hno
        show (aliasName :: w.rig.vfos.map ServerVfo.aliasName).Nodup
        refine List.nodup_cons.mpr ⟨fun hmem => ?_, ha⟩
        obtain ⟨v, hv, rfl⟩ := List.mem_map.mp hmem
        rw [findAlias_of_mem ha hv hno.2.1] at hno
        exact hno.2.2.2.2.1 rfl
  | vfoRemove uuid =>
      show ((w.vfoRemove uuid).1.rig.vfos.map _).Nodup
      unfold vfoRemove
      split
      · exact ha
      · exact ha.sublist (List.eraseP_sublist.map _)

theorem aliased_run (ha : w.rig.Aliased) (ops : List PropertyOp) : (w.run ops).rig.Aliased := by
  induction ops generalizing w with
  | nil => exact ha
  | cons op ops ih => exact ih (aliased_step ha op)

/-! ### A definition and its place -/

theorem replaceStore_some {owner : StoreKey} {f : Store → Option Store} {s s' : Store}
    (hs : w.rig.store? owner = some s) (hf : f s = some s') : w.replaceStore owner f =
      ({ w with rig := w.rig.withStore owner s', notices := .schema owner :: w.notices }, .done) := by
  unfold replaceStore
  rw [hs, Option.bind_some, hf]

theorem replaceStore_none {owner : StoreKey} {f : Store → Option Store}
    (h : (w.rig.store? owner).bind f = none) : w.replaceStore owner f = (w, .error) := by
  unfold replaceStore
  rw [h]

/-- A definition, on the rig or on a VFO. -/
def defining (vfo : Option Nat) (d : Descriptor) (room : Bool) : PropertyOp :=
  match vfo with
  | none => .rigDefine d room
  | some h => .vfoDefine h d room

/-- The place that is meant. -/
def place (w : RigWorld) (vfo : Option Nat) (name : String) : StoreKey × String :=
  match vfo with
  | none => w.rig.locate name
  | some h => (some h, name)

/-- The definition as the store gets it. -/
def placed (w : RigWorld) (vfo : Option Nat) (d : Descriptor) : Descriptor :=
  { d with name := (w.place vfo d.name).2 }

/-- What is described there. -/
def described (w : RigWorld) (vfo : Option Nat) (name : String) : Option Descriptor :=
  match vfo with
  | none => w.rig.rigPropertyDescribe name
  | some h => w.rig.vfoPropertyDescribe h name

theorem step_defining (vfo : Option Nat) (d : Descriptor) (room : Bool) :
    w.step (defining vfo d room) =
      w.replaceStore (w.place vfo d.name).1 (·.define (w.placed vfo d) room) := by
  cases vfo <;> rfl

theorem described_eq (vfo : Option Nat) (name : String) : w.described vfo name =
    (w.rig.store? (w.place vfo name).1).bind (·.describe (w.place vfo name).2) := by
  cases vfo with
  | none => exact rigPropertyDescribe_eq w.rig name
  | some h => rfl

theorem place_withStore {owner : StoreKey} {s : Store} (h : w'.rig = w.rig.withStore owner s)
    (vfo : Option Nat) (name : String) : w'.place vfo name = w.place vfo name := by
  cases vfo with
  | none =>
      show w'.rig.locate name = w.rig.locate name
      rw [h, locate_withStore]
  | some _ => rfl

/-- Both ways to address a property come to the same. -/
structure Compatible (w : RigWorld) (v : ServerVfo) (name field : String) : Prop where
  describe : w.rig.rigPropertyDescribe name = w.rig.vfoPropertyDescribe v.handle field
  read : w.rig.rigPropertyRead name = w.rig.vfoPropertyRead v.handle field
  observe : ∀ now value room told, w.step (.rigObserve now name value room told) =
    w.step (.vfoObserve v.handle now field value room told)
  unavailable : ∀ now told, w.step (.rigUnavailable now name told) =
    w.step (.vfoUnavailable v.handle now field told)
  /-- The VFO's owner need not be given. -/
  control : ∀ signed (m : RigControl.Memory) rig value, m.rig rig = w.rig → m.owner v.handle = some rig →
    ∀ given, (∀ a ∈ given, a = rig) → RigControl.control signed m ⟨some rig, none, name, value⟩ =
      RigControl.control signed m ⟨given, some v.handle, field, value⟩

theorem compatible {v : ServerVfo} {name field : String} (h : w.rig.compatVfo name = some (v, field))
    (hname : name ≠ "") (hfield : field ≠ "") : Compatible w v name field where
  describe := by
    unfold rigPropertyDescribe
    rw [h]
  read := by
    unfold rigPropertyRead
    rw [h]
  observe := by
    intro now value room told
    show w.updateStore (w.rig.locate name).1 (w.rig.locate name).2 told
      (·.observe now (w.rig.locate name).2 value room) = _
    rw [locate_of_compat h]
    rfl
  unavailable := by
    intro now told
    show w.updateStore (w.rig.locate name).1 (w.rig.locate name).2 told
      (·.unavailable now (w.rig.locate name).2) = _
    rw [locate_of_compat h]
    rfl
  control := by
    intro signed m rig value hrig howner given hgiven
    have hplace : m.place rig ⟨some rig, none, name, value⟩ = (some v.handle, field) := by
      show (m.rig rig).locate name = _
      rw [hrig, locate_of_compat h]
    have hany : given.any (· ≠ rig) = false := by
      rw [Option.any_eq_false]
      intro a ha
      simpa using hgiven a ha
    have hself : (some rig).any (· ≠ rig) = false := by simp
    unfold RigControl.control RigControl.Memory.find
    rw [if_neg hname, if_neg hfield]
    simp only [RigControl.Memory.target, howner, hplace, hany, hself, Bool.false_eq_true, if_false]
    rfl

/-! ### The rules of definitions -/

/-- What definitions promise. -/
structure Steady (w : RigWorld) (vfo : Option Nat) (d : Descriptor) : Prop where
  /-- A definition that went through goes through again, and changes nothing. -/
  again : ∀ room room', (w.step (defining vfo d room)).2 = .done →
    ((w.step (defining vfo d room)).1.step (defining vfo d room')).2 = .done ∧
      ((w.step (defining vfo d room)).1.step (defining vfo d room')).1.rig =
        (w.step (defining vfo d room)).1.rig
  /-- Another attribute than the one described is rejected. -/
  other : ∀ e room, w.described vfo d.name = some e → e.attributes ≠ (w.placed vfo d).attributes →
    w.step (defining vfo d room) = (w, .error)
  /-- A redefinition happens as a whole or not at all. -/
  redefined : ∀ h room, w.step (.vfoRedefine h d room) = (w, .error) ∨
    (w.step (.vfoRedefine h d room)).2 = .done ∧ ∃ s s', w.rig.store? (some h) = some s ∧
      (w.step (.vfoRedefine h d room)).1.rig = w.rig.withStore (some h) s' ∧ Replaced s d s'
  /-- The VFO whose alias is the letter has its fields under the rig's name for them. -/
  compat : ∀ v ∈ w.rig.vfos, ∀ c field, c.isAlpha = true → v.aliasName = String.singleton c.toUpper →
    field ≠ "" → Compatible w v (compatName c field) field

/-- A definition that went through wrote its store. -/
theorem defining_done {vfo : Option Nat} {d : Descriptor} {room : Bool}
    (hdone : (w.step (defining vfo d room)).2 = .done) : ∃ s s',
      w.rig.store? (w.place vfo d.name).1 = some s ∧ s.define (w.placed vfo d) room = some s' ∧
        (w.step (defining vfo d room)).1.rig = w.rig.withStore (w.place vfo d.name).1 s' := by
  rw [step_defining] at hdone ⊢
  cases hs : (w.rig.store? (w.place vfo d.name).1).bind (·.define (w.placed vfo d) room) with
  | none =>
      rw [replaceStore_none hs] at hdone
      exact Reply.noConfusion hdone
  | some s' =>
      obtain ⟨s, hat, hdefine⟩ := Option.bind_eq_some_iff.mp hs
      have hreplace := replaceStore_some (f := (·.define (w.placed vfo d) room)) hat hdefine
      exact ⟨s, s', hat, hdefine, by rw [hreplace]⟩

/-- After it the same definition goes to the same store. -/
theorem step_defining_again {vfo : Option Nat} {d : Descriptor} {s s' : Store}
    (hat : w.rig.store? (w.place vfo d.name).1 = some s)
    (hrig : w'.rig = w.rig.withStore (w.place vfo d.name).1 s') (room : Bool) :
    w'.rig.store? (w.place vfo d.name).1 = some s' ∧ w'.step (defining vfo d room) =
      w'.replaceStore (w.place vfo d.name).1 (·.define (w.placed vfo d) room) := by
  have hplace := place_withStore hrig vfo d.name
  refine ⟨by rw [hrig, store_withStore hat, if_pos rfl], ?_⟩
  rw [step_defining]
  unfold placed
  rw [hplace]

theorem again_of_kept (hk : Kept w) {vfo : Option Nat} {d : Descriptor} (hd : d.Typed)
    (hnan : ¬ d.HasNan) {room : Bool} (hdone : (w.step (defining vfo d room)).2 = .done) (room' : Bool) :
    ((w.step (defining vfo d room)).1.step (defining vfo d room')).2 = .done ∧
      ((w.step (defining vfo d room)).1.step (defining vfo d room')).1.rig =
        (w.step (defining vfo d room)).1.rig := by
  obtain ⟨s, s', hat, hdefine, hrig⟩ := defining_done hdone
  generalize (w.step (defining vfo d room)).1 = w' at hrig ⊢
  obtain ⟨hfound, hstep⟩ := step_defining_again hat hrig room'
  have hagain : s'.define (w.placed vfo d) room' = some s' := define_again (d := w.placed vfo d) hd hnan hdefine room'
  have hhandles : (w'.rig.vfos.map ServerVfo.handle).Nodup := by
    rw [hrig, handles_withStore]
    exact hk.handles
  rw [hstep, replaceStore_some (f := (·.define (w.placed vfo d) room')) hfound hagain]
  exact ⟨rfl, withStore_self hhandles hfound⟩

/-- A definition of what is there goes through only with bounds that are numbers. -/
theorem not_nan_of_done {vfo : Option Nat} {d : Descriptor} (hd : d.Typed) {room : Bool}
    (hdone : (w.step (defining vfo d room)).2 = .done)
    (hwhen : d.HasNan → (w.placed vfo d).invalid = true ∨
      w.rig.store? (w.place vfo d.name).1 = none ∨ (w.described vfo d.name).isSome = true) :
    ¬ d.HasNan := by
  intro hnan
  obtain ⟨s, s', hat, hdefine, -⟩ := defining_done hdone
  obtain ⟨hvalid, hcases⟩ := define_cases hdefine
  rcases hwhen hnan with hinvalid | hstore | hsome
  · exact absurd (hvalid.symm.trans hinvalid) Bool.noConfusion
  · exact absurd (hstore.symm.trans hat) (Option.some_ne_none s).symm
  · cases hcases with
    | same p found schema => exact ((sameSchema_self hvalid hd (name_of_find found)).mp schema).2 hnan
    | fresh missing =>
        rw [described_eq, hat, Option.bind_some, describe_eq,
          show s.find? (w.place vfo d.name).2 = none from missing] at hsome
        exact Bool.noConfusion hsome

theorem other_of_typed {vfo : Option Nat} {d e : Descriptor} (hd : d.Typed) {room : Bool}
    (hdescribed : w.described vfo d.name = some e)
    (hother : e.attributes ≠ (w.placed vfo d).attributes) :
    w.step (defining vfo d room) = (w, .error) := by
  rw [described_eq] at hdescribed
  obtain ⟨s, hat, hdescribe⟩ := Option.bind_eq_some_iff.mp hdescribed
  rw [describe_eq] at hdescribe
  obtain ⟨p, hp, rfl⟩ := Option.map_eq_some_iff.mp hdescribe
  rw [step_defining, replaceStore_none]
  rw [hat, Option.bind_some]
  exact define_other hd hp hother

theorem redefined_or (h : Nat) (d : Descriptor) (room : Bool) :
    w.step (.vfoRedefine h d room) = (w, .error) ∨
      (w.step (.vfoRedefine h d room)).2 = .done ∧ ∃ s s', w.rig.store? (some h) = some s ∧
        (w.step (.vfoRedefine h d room)).1.rig = w.rig.withStore (some h) s' ∧ Replaced s d s' := by
  show w.replaceStore (some h) (·.redefine d room) = _ ∨ (w.replaceStore (some h) (·.redefine d room)).2 = _ ∧
    ∃ s s', _ ∧ (w.replaceStore (some h) (·.redefine d room)).1.rig = _ ∧ _
  cases hs : (w.rig.store? (some h)).bind (·.redefine d room) with
  | none => exact Or.inl (replaceStore_none hs)
  | some s' =>
      obtain ⟨s, hat, hredefine⟩ := Option.bind_eq_some_iff.mp hs
      rw [replaceStore_some hat hredefine]
      exact Or.inr ⟨rfl, s, s', hat, rfl, redefine_replaced hredefine⟩

/-- **Definitions are steady unless a bound is no number.**  After any calls on a new rig, a
definition can be repeated, another one is rejected, a redefinition is whole, and both names
of a VFO's property are one, except where the call would add a property with a NaN for a bound:
the second definition is not recognised. -/
theorem property_definitions (id name : String) (ops : List PropertyOp) (vfo : Option Nat)
    (d : Descriptor) (hd : d.Typed) :
    let w := (new id name).run ops
    Steady w vfo d ↔ (d.HasNan → (w.placed vfo d).invalid = true ∨
      w.rig.store? (w.place vfo d.name).1 = none ∨ (w.described vfo d.name).isSome = true) := by
  intro w
  have hk : Kept w := kept_run (kept_new id name) ops
  have ha : w.rig.Aliased := aliased_run (w := new id name) List.nodup_nil ops
  constructor
  · intro hsteady hnan
    by_contra hno
    simp only [not_or, Bool.not_eq_true, Option.isSome_eq_false_iff, Option.isNone_iff_eq_none] at hno
    obtain ⟨hvalid, hstore, hnew⟩ := hno
    obtain ⟨s, hat⟩ := Option.ne_none_iff_exists'.mp hstore
    rw [described_eq, hat, Option.bind_some, describe_eq, Option.map_eq_none_iff] at hnew
    obtain ⟨s', hfirst, hsecond⟩ := define_nan (d := w.placed vfo d) hd hnan hvalid hnew
    have hagain := hsteady.again true true
    have hdefining : w.step (defining vfo d true) = _ := (step_defining vfo d true).trans
      (replaceStore_some (f := (·.define (w.placed vfo d) true)) hat hfirst)
    have hrig : (w.step (defining vfo d true)).1.rig = w.rig.withStore (w.place vfo d.name).1 s' := by
      rw [hdefining]
    obtain ⟨hfound, hstep⟩ := step_defining_again hat hrig true
    rw [hstep, replaceStore_none (by rw [hfound, Option.bind_some, hsecond]), hdefining] at hagain
    exact Reply.noConfusion (hagain rfl).1
  · intro hwhen
    refine ⟨fun room room' hdone => ?_, fun e room hdescribed hother => other_of_typed hd hdescribed hother,
      fun h room => redefined_or h d room, fun v hv c field hc halias hfield => ?_⟩
    · exact again_of_kept hk hd (not_nan_of_done hd hdone hwhen) hdone room'
    · exact compatible (compatVfo_of_mem ha hv hc halias hfield) (compatName_ne c field) hfield

theorem property_definitions_level :
    let level : Descriptor :=
      ⟨"vfo.A.level", .int, true, true, some "dB", some (.int (-10)), some (.int 10), none, none⟩
    Steady ((new "rig" "rig").run [.vfoAdd "id" "A" "A" .persistent true, .rigDefine level true]) none
      level :=
  (property_definitions "rig" "rig" _ none
    ⟨"vfo.A.level", .int, true, true, some "dB", some (.int (-10)), some (.int 10), none, none⟩
    (by decide)).mpr fun hnan => absurd hnan (by decide)

/-- The maximum is a quiet NaN: the definition is taken once, and the same one is then rejected. -/
theorem definition_nan_rejected :
    let swr : Descriptor :=
      ⟨"swr", .float, true, false, none, none, some (.float 0x7FC00000), none, none⟩
    let w := (new "rig" "rig").run []
    swr.Typed ∧ (w.step (defining none swr true)).2 = .done ∧
      ((w.step (defining none swr true)).1.step (defining none swr true)).2 = .error ∧
      ¬ Steady w none swr := by
  intro swr w
  have hdone : (w.step (defining none swr true)).2 = .done := by decide +kernel
  have herror : ((w.step (defining none swr true)).1.step (defining none swr true)).2 = .error := by
    decide +kernel
  refine ⟨by decide, hdone, herror, fun hsteady => ?_⟩
  have hagain := (hsteady.again true true hdone).1
  rw [herror] at hagain
  exact Reply.noConfusion hagain

end RigWorld

end RustyRig
