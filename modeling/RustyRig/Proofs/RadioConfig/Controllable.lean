/-
Whether the VFOs of a composition can be controlled.

The slots of a composition come back as the aliases of the rig's VFOs, each once.  The
native id of a VFO is not its slot, though: `rr_configure_vfos` passes the title there, or
the section's name where no title is set, and the native index is looked up in that.
-/
import RustyRig.Proofs.RadioConfig.Prepare
import RustyRig.Proofs.RigProperties.Versions

namespace RustyRig

namespace RadioConfig

variable {c c' : Config} {limits : Limits} {env : Env} {radio : String} {w w' : RigWorld}

/-! ### Slots -/

theorem slotOf_upper {name : String} {slot : Char} (h : slotOf c name = some slot) :
    'A' ≤ slot ∧ slot ≤ 'Z' := by
  unfold slotOf at h
  split at h
  · split at h
    · rename_i s _ hs
      obtain rfl := Option.some.inj h
      exact hs
    · exact absurd h (by simp)
  · exact absurd h (by simp)

theorem member_upper {m : Member} (h : m ∈ members c radio) : 'A' ≤ m.slot ∧ m.slot ≤ 'Z' := by
  obtain ⟨name, -, hm⟩ := List.mem_filterMap.mp h
  obtain ⟨slot, hslot, rfl⟩ := Option.map_eq_some_iff.mp hm
  exact slotOf_upper hslot

/-- `slot - 'A'`. -/
def slotIndex (slot : Char) : Nat := slot.toNat - 'A'.toNat

theorem upper_toNat {slot : Char} (h : 'A' ≤ slot ∧ slot ≤ 'Z') :
    65 ≤ slot.toNat ∧ slot.toNat ≤ 90 := by
  simpa [Char.le_def, UInt32.le_iff_toNat_le] using h

theorem slotIndex_inj {s t : Char} (hs : 'A' ≤ s ∧ s ≤ 'Z') (ht : 'A' ≤ t ∧ t ≤ 'Z')
    (h : slotIndex s = slotIndex t) : s = t := by
  have hs' := upper_toNat hs
  have ht' := upper_toNat ht
  have hA : 'A'.toNat = 65 := rfl
  unfold slotIndex at h
  exact Char.toNat_inj.mp (by omega)

theorem upper_isAlpha {s : Char} (h : 'A' ≤ s ∧ s ≤ 'Z') : s.isAlpha = true := by
  unfold Char.isAlpha Char.isUpper
  rw [Bool.or_eq_true, decide_eq_true_eq]
  exact Or.inl h

theorem upper_toUpper {s : Char} (h : 'A' ≤ s ∧ s ≤ 'Z') : s.toUpper = s := by
  unfold Char.toUpper
  rw [dif_neg]
  rintro ⟨hlo, -⟩
  have hs := (upper_toNat h).2
  have hlo : 97 ≤ s.toNat := UInt32.le_iff_toNat_le.mp hlo
  omega

theorem upper_separator {s : Char} (h : 'A' ≤ s ∧ s ≤ 'Z') : Links.separator s = false := by
  have hs := (upper_toNat h).1
  have hne : ∀ t : Char, t.toNat < 65 → (s == t) = false := by
    intro t ht
    rw [beq_eq_false_iff_ne]
    rintro rfl
    omega
  simp [Links.separator, hne ',' (by decide), hne ' ' (by decide), hne '\t' (by decide),
    hne '\r' (by decide), hne '\n' (by decide)]

/-- The letters come back from the list of slots. -/
theorem tokens_joined {slots : List Char} (h : ∀ s ∈ slots, 'A' ≤ s ∧ s ≤ 'Z') :
    tokens (joined slots) = slots.map String.singleton := by
  have hsplit : ∀ {slots : List Char}, (∀ s ∈ slots, 'A' ≤ s ∧ s ≤ 'Z') → slots ≠ [] →
      (slots.intersperse ' ').splitOnP Links.separator = slots.map fun s => [s] := by
    intro slots h hne
    induction slots with
    | nil => exact absurd rfl hne
    | cons s rest ih =>
        have hs := upper_separator (h s List.mem_cons_self)
        cases rest with
        | nil => exact List.splitOnP_eq_singleton (by simpa using hs)
        | cons t rest =>
            have hrest := ih (fun x hx => h x (List.mem_cons_of_mem s hx)) (by simp)
            rw [List.intersperse_cons_cons, List.map_cons, ← hrest]
            have hsplit : ∀ x ∈ [s], Links.separator x = false := by simpa using hs
            exact List.splitOnP_append_cons_of_forall_mem hsplit ' ' (by decide) _
  cases slots with
  | nil => simp [tokens, strsplit, joined]
  | cons s rest =>
      have hne : joined (s :: rest) ≠ "" := by
        intro heq
        have hlist := congrArg String.toList heq
        unfold joined at hlist
        cases rest <;> simp at hlist
      unfold tokens strsplit
      rw [if_neg hne]
      unfold joined
      rw [String.toList_ofList, hsplit h (by simp), List.map_map, List.filter_eq_self.mpr]
      · rfl
      · intro t ht
        obtain ⟨x, -, rfl⟩ := List.mem_map.mp ht
        simp

/-! ### The loop over the tokens -/

/-- What the backend checks: the alias and the native id of every VFO, the newest first. -/
def labels (r : ServerRig) : List (String × String) := r.vfos.map fun v => (v.aliasName, v.nativeId)

theorem labels_withStore (r : ServerRig) (k : StoreKey) (s : Store) :
    labels (r.withStore k s) = labels r := by
  cases k with
  | none => rfl
  | some h =>
      unfold labels ServerRig.withStore
      rw [List.map_map]
      refine List.map_congr_left fun v _ => ?_
      simp only [Function.comp_apply]
      split <;> rfl

theorem labels_define (w : RigWorld) (vfo : Nat) (d : Descriptor) (room : Bool) :
    labels (w.vfoPropertyDefine vfo d room).1.rig = labels w.rig := by
  unfold RigWorld.vfoPropertyDefine RigWorld.replaceStore
  split
  · rfl
  · exact labels_withStore _ _ _

theorem labels_defineVfoProperties {aliasName : String} {room : Bool}
    (h : defineVfoProperties w aliasName room = some w') : labels w'.rig = labels w.rig := by
  unfold defineVfoProperties at h
  split at h
  · exact absurd h (by simp)
  refine Lib.foldlM_kept (P := fun t => labels t.rig = labels w.rig) h rfl ?_
  intro d t t' _ ht hpass
  split at hpass
  · exact absurd hpass (by simp)
  · obtain rfl := Option.some.inj hpass
    exact (labels_define _ _ _ _).trans ht

/-- What `vfo_supported` says to an alias and a native id. -/
def Env.supports (env : Env) (label : String × String) : Bool :=
  env.check.all fun f => f label.1 (nativeIndexOf env.lookup label.2)

/-- The native id that the VFO of a slot gets. -/
def idRead (c : Config) (radio : String) (slot : Char) : String :=
  (rigConfigGet c radio (slotKey slot "title")).getD (String.singleton slot)

/-- A VFO is added with the slot as its alias, and the backend has accepted it. -/
theorem addVfo_spec {slot : Char} (h : addVfo env c radio w slot = some w') :
    labels w'.rig = (String.singleton slot, idRead c radio slot) :: labels w.rig ∧
      env.supports (String.singleton slot, idRead c radio slot) = true := by
  unfold addVfo at h
  simp only at h
  split at h
  · exact absurd h (by simp)
  rename_i uuid _
  split at h
  · rename_i hadded
    rw [Bool.and_eq_true, decide_eq_true_eq] at hadded
    obtain ⟨hdone, hsupported⟩ := hadded
    rw [labels_defineVfoProperties h]
    have hrfl : (rigConfigGet c radio (slotKey slot "title")).getD (String.singleton slot) =
        idRead c radio slot := rfl
    rw [hrfl] at hdone hsupported ⊢
    unfold RigWorld.vfoAdd at hdone hsupported ⊢
    split at hdone
    · exact absurd hdone (by simp)
    · rename_i hfree
      rw [if_neg hfree] at hsupported ⊢
      have hvfo : env.vfoSupported ⟨w.made, uuid, String.singleton slot, idRead c radio slot,
          .persistent, .empty⟩ = true := by simpa using hsupported
      exact ⟨rfl, hvfo⟩
  · exact absurd h (by simp)

/-- The VFOs of a configured rig, the last slot first. -/
theorem configureVfos_spec {slots : List Char} {id name : String}
    (hupper : ∀ s ∈ slots, 'A' ≤ s ∧ s ≤ 'Z')
    (hlisted : c.get (rigKey radio "vfos") = some (joined slots))
    (h : configureVfos env c (RigWorld.new id name) radio = some w') :
    labels w'.rig = (slots.map fun s => (String.singleton s, idRead c radio s)).reverse ∧
      ∀ l ∈ labels w'.rig, env.supports l = true := by
  unfold configureVfos at h
  split at h
  · exact absurd h (by simp)
  rename_i configured hread
  have hconfigured : configured = joined slots := by
    unfold rigConfigGet at hread
    split at hread
    · rw [hlisted] at hread
      exact (Option.some.inj hread).symm
    · exact absurd hread (by simp)
  rw [hconfigured, tokens_joined hupper] at h
  split at h
  · exact absurd h (by simp)
  rename_i t added hloop
  split at h
  · exact absurd h (by simp)
  obtain rfl := Option.some.inj h
  rw [List.foldlM_map] at hloop
  refine Lib.foldlM_passed (P := fun done (st : RigWorld × List String) =>
    labels st.1.rig = (done.map fun s => (String.singleton s, idRead c radio s)).reverse ∧
      ∀ l ∈ labels st.1.rig, env.supports l = true) hloop ⟨rfl, ?_⟩ ?_
  · intro l hl
    exact absurd hl (by simp [labels, RigWorld.new])
  · rintro done s ⟨t, seen⟩ ⟨t', seen'⟩ hs ⟨hlabels, hsupported⟩ hpass
    unfold configureVfo at hpass
    rw [show (String.singleton s).toList = [s] from String.toList_singleton s] at hpass
    simp only [upper_toUpper (hupper s hs)] at hpass
    split at hpass
    · exact absurd hpass (by simp)
    obtain ⟨u, hadd, heq⟩ := Option.map_eq_some_iff.mp hpass
    obtain ⟨rfl, -⟩ := Prod.mk.inj heq
    obtain ⟨hnew, hok⟩ := addVfo_spec hadd
    refine ⟨?_, ?_⟩
    · show labels u.rig = _
      rw [hnew, show labels t.rig = _ from hlabels, List.map_append, List.reverse_append]
      rfl
    · intro l hl
      rw [show labels (u, _).1.rig = _ from hnew] at hl
      rcases List.mem_cons.mp hl with rfl | hl
      · exact hok
      · exact hsupported l hl

/-! ### Compositions -/

/-- The native id that a member of a composition gets: its title, or its section's name without
one.  A key too long for the buffer of `rr_rig_config_get` leaves the slot. -/
def nativeId (radio : String) (m : Member) : String :=
  if (rigKey radio (slotKey m.slot "title")).utf8ByteSize < 256 then m.title.getD m.name
  else String.singleton m.slot

theorem idRead_member (hvalid : aliasValid radio = true) (h : Composed c c'.cfg radio) {m : Member}
    (hm : m ∈ members c radio) : idRead c' radio m.slot = nativeId radio m := by
  have hkey : slotKey m.slot "title" ≠ "" := by
    intro heq
    have hlist := congrArg String.toList heq
    rw [slotKey_toList] at hlist
    simp at hlist
  unfold idRead nativeId rigConfigGet
  split
  · rename_i hfits
    simp only [Bool.and_eq_true, decide_eq_true_eq] at hfits
    rw [if_pos hfits.2, Config.get, h.titled m hm]
    rfl
  · rename_i hlong
    rw [if_neg]
    · rfl
    · intro hfits
      exact hlong (by simp [hvalid, hkey, hfits])

/-- A radio whose VFOs can be controlled: every VFO of the composition is there and has its slot
for a native index, no two VFOs have the same, and the backend accepts them all. -/
structure Controllable (env : Env) (c : Config) (radio : String) (r : ServerRig) : Prop where
  native : ∀ m ∈ members c radio, ∃ v, r.findAlias (String.singleton m.slot) = some v ∧
    v.nativeIndex env.lookup = some (slotIndex m.slot)
  distinct : (r.vfos.map (·.nativeIndex env.lookup)).Nodup
  supported : ∀ v ∈ r.vfos, env.vfoSupported v = true

/-- The VFOs of an accepted composition, as they are made. -/
theorem configured_labels {id name : String} (hprepare : prepare limits c = some c')
    (hradio : radio ∈ radios c)
    (hconfigure : configureVfos env c' (RigWorld.new id name) radio = some w') :
    labels w'.rig =
        ((members c radio).map fun m => (String.singleton m.slot, nativeId radio m)).reverse ∧
      ∀ l ∈ labels w'.rig, env.supports l = true := by
  obtain ⟨hvalid, hcomposed⟩ := prepare_composed hprepare hradio
  have hupper : ∀ s ∈ (members c radio).map Member.slot, 'A' ≤ s ∧ s ≤ 'Z' := by
    intro s hs
    obtain ⟨m, hm, rfl⟩ := List.mem_map.mp hs
    exact member_upper hm
  have hlisted : c'.get (rigKey radio "vfos") = some (joined ((members c radio).map Member.slot)) := by
    rw [Config.get, hcomposed.listed]
    rfl
  obtain ⟨hlabels, hsupported⟩ := configureVfos_spec hupper hlisted hconfigure
  refine ⟨?_, hsupported⟩
  rw [hlabels, List.map_map]
  congr 1
  refine List.map_congr_left fun m hm => ?_
  rw [Function.comp_apply, idRead_member hvalid hcomposed hm]

theorem singleton_inj {s t : Char} (h : String.singleton s = String.singleton t) : s = t := by
  have hlist := congrArg String.toList h
  simpa using hlist

/-- **An accepted composition is controllable exactly if its titles are its slots.**  Once the
VFOs of an accepted composition are made, they have their slots for native indices, distinct
ones, and the backend accepts them, if and only if the native id of each, its title or else its
section's name, is one letter that `vfo_lookup` takes for the slot. -/
theorem composition_controllable_iff (limits : Limits) (env : Env) (c c' : Config)
    (radio id name : String) (w' : RigWorld) (hprepare : prepare limits c = some c')
    (hradio : radio ∈ radios c)
    (hconfigure : configureVfos env c' (RigWorld.new id name) radio = some w') :
    Controllable env c radio w'.rig ↔
      ∀ m ∈ members c radio, nativeIndexOf env.lookup (nativeId radio m) = some (slotIndex m.slot) := by
  obtain ⟨-, hcomposed⟩ := prepare_composed hprepare hradio
  obtain ⟨hlabels, hsupported⟩ := configured_labels hprepare hradio hconfigure
  have hlabel : ∀ v ∈ w'.rig.vfos, ∃ m ∈ members c radio,
      v.aliasName = String.singleton m.slot ∧ v.nativeId = nativeId radio m := by
    intro v hv
    have hmem : (v.aliasName, v.nativeId) ∈ labels w'.rig :=
      List.mem_map_of_mem (f := fun v : ServerVfo => (v.aliasName, v.nativeId)) hv
    rw [hlabels, List.mem_reverse] at hmem
    obtain ⟨m, hm, heq⟩ := List.mem_map.mp hmem
    exact ⟨m, hm, (Prod.mk.inj heq).1.symm, (Prod.mk.inj heq).2.symm⟩
  -- The VFO found under a slot is the one made for the member of that slot.
  have hfound : ∀ m ∈ members c radio, ∀ v, w'.rig.findAlias (String.singleton m.slot) = some v →
      v.nativeId = nativeId radio m := by
    intro m hm v hv
    have hne : String.singleton m.slot ≠ "" := String.singleton_ne_empty
    unfold ServerRig.findAlias at hv
    rw [if_neg hne] at hv
    have halias : v.aliasName = String.singleton m.slot := by simpa using List.find?_some hv
    obtain ⟨m', hm', halias', hnative⟩ := hlabel v (List.mem_of_find?_eq_some hv)
    have hslot : m'.slot = m.slot := singleton_inj (halias'.symm.trans halias)
    rw [hnative, List.inj_on_of_nodup_map hcomposed.nodup hm' hm hslot]
  constructor
  · intro h m hm
    obtain ⟨v, hv, hindex⟩ := h.native m hm
    rwa [ServerVfo.nativeIndex, hfound m hm v hv] at hindex
  · intro h
    refine ⟨?_, ?_, ?_⟩
    · intro m hm
      cases hv : w'.rig.findAlias (String.singleton m.slot) with
      | some v =>
          refine ⟨v, rfl, ?_⟩
          rw [ServerVfo.nativeIndex, hfound m hm v hv]
          exact h m hm
      | none =>
          have hmem : (String.singleton m.slot, nativeId radio m) ∈ labels w'.rig := by
            rw [hlabels, List.mem_reverse]
            exact List.mem_map_of_mem (f := fun m => (String.singleton m.slot, nativeId radio m)) hm
          obtain ⟨v, hvm, heq⟩ := List.mem_map.mp hmem
          unfold ServerRig.findAlias at hv
          rw [if_neg String.singleton_ne_empty, List.find?_eq_none] at hv
          exact absurd (beq_iff_eq.mpr (Prod.mk.inj heq).1) (hv v hvm)
    · have hindices : w'.rig.vfos.map (·.nativeIndex env.lookup) =
          (((members c radio).map Member.slot).map fun s => some (slotIndex s)).reverse := by
        calc w'.rig.vfos.map (·.nativeIndex env.lookup)
            = (labels w'.rig).map fun l => nativeIndexOf env.lookup l.2 := by
              rw [labels, List.map_map]
              rfl
          _ = ((members c radio).map fun m =>
                nativeIndexOf env.lookup (nativeId radio m)).reverse := by
              rw [hlabels, List.map_reverse, List.map_map]
              rfl
          _ = _ := by
              rw [List.map_map]
              congr 1
              exact List.map_congr_left fun m hm => h m hm
      rw [hindices, List.nodup_reverse]
      refine List.Nodup.map_on ?_ hcomposed.nodup
      intro s hs t ht heq
      obtain ⟨m, hm, rfl⟩ := List.mem_map.mp hs
      obtain ⟨m', hm', rfl⟩ := List.mem_map.mp ht
      exact slotIndex_inj (member_upper hm) (member_upper hm') (Option.some.inj heq)
    · intro v hv
      exact hsupported _ (List.mem_map_of_mem (f := fun v : ServerVfo => (v.aliasName, v.nativeId)) hv)

/-- A radio with two VFOs, in the slots A and B and with these titles. -/
def twoVfos (titleA titleB : String) : Config where
  cfg := ⟨[("radio.instances", "r"), ("radio:r.vfos", "x y"), ("vfo:x.slot", "A"),
    ("vfo:x.title", titleA), ("vfo:y.slot", "B"), ("vfo:y.title", titleB)], by simp⟩
  defaults := .empty

/-- Two VFOs on an internal backend. -/
def twoEnv : Env where
  uuid := some
  lookup := fun ch => if ch = 'A' then some 0 else if ch = 'B' then some 1 else none
  check := some (beInternalVfoSupported 2 true)
  room := true

/-- The native index of the VFO in a slot of that radio, once it is made. -/
def madeIndex (titleA titleB slot : String) : Option Nat := do
  let c' ← prepare (fun _ => 4) (twoVfos titleA titleB)
  let w' ← configureVfos twoEnv c' (RigWorld.new "id" "r") "r"
  let v ← w'.rig.findAlias slot
  v.nativeIndex twoEnv.lookup

theorem madeIndex_some {titleA titleB slot : String} {i : Nat}
    (h : madeIndex titleA titleB slot = some i) :
    ∃ c' w', prepare (fun _ => 4) (twoVfos titleA titleB) = some c' ∧
      configureVfos twoEnv c' (RigWorld.new "id" "r") "r" = some w' ∧
      ∃ v, w'.rig.findAlias slot = some v ∧ v.nativeIndex twoEnv.lookup = some i := by
  obtain ⟨c', hc, h⟩ := Option.bind_eq_some_iff.mp h
  obtain ⟨w', hw, h⟩ := Option.bind_eq_some_iff.mp h
  obtain ⟨v, hv, h⟩ := Option.bind_eq_some_iff.mp h
  exact ⟨c', w', hc, hw, v, hv, h⟩

theorem composition_controllable_lettered :
    ∃ c' w', prepare (fun _ => 4) (twoVfos "A" "B") = some c' ∧
      configureVfos twoEnv c' (RigWorld.new "id" "r") "r" = some w' ∧
      Controllable twoEnv (twoVfos "A" "B") "r" w'.rig := by
  have hmade : madeIndex "A" "B" "A" = some 0 := by decide +kernel
  obtain ⟨c', w', hc, hw, -⟩ := madeIndex_some hmade
  refine ⟨c', w', hc, hw, ?_⟩
  refine (composition_controllable_iff (fun _ => 4) twoEnv (twoVfos "A" "B") c' "r" "id" "r" w' hc
    (by decide +kernel) hw).mpr ?_
  decide +kernel

/-- The titles B and A in the slots A and B are accepted and made, and each VFO drives the
hardware of the other. -/
theorem composition_crossed :
    ¬ ∀ (limits : Limits) (env : Env) (c c' : Config) (radio id name : String) (w' : RigWorld),
      prepare limits c = some c' → radio ∈ radios c →
        configureVfos env c' (RigWorld.new id name) radio = some w' →
          Controllable env c radio w'.rig := by
  intro h
  have hmade : madeIndex "B" "A" "A" = some 1 := by decide +kernel
  obtain ⟨c', w', hc, hw, v, hv, hindex⟩ := madeIndex_some hmade
  obtain ⟨u, hu, hslot⟩ := (h (fun _ => 4) twoEnv (twoVfos "B" "A") c' "r" "id" "r" w' hc
    (by decide +kernel) hw).native ⟨"x", 'A', some "B"⟩ (by decide +kernel)
  obtain rfl := Option.some.inj (hu.symm.trans hv)
  rw [hindex] at hslot
  exact absurd hslot (by decide)

/-- The internal backend makes no radio with a title that is no letter of a VFO. -/
theorem internal_refuses {maxVfos : Nat} {data : Bool} {id name : String} {m : Member}
    (hinternal : env.check = some (beInternalVfoSupported maxVfos data))
    (hprepare : prepare limits c = some c') (hradio : radio ∈ radios c) (hm : m ∈ members c radio)
    (htitle : nativeIndexOf env.lookup (nativeId radio m) = none) :
    configureVfos env c' (RigWorld.new id name) radio = none := by
  cases hconfigure : configureVfos env c' (RigWorld.new id name) radio with
  | none => rfl
  | some w' =>
      obtain ⟨hlabels, hsupported⟩ := configured_labels hprepare hradio hconfigure
      have hmem : (String.singleton m.slot, nativeId radio m) ∈ labels w'.rig := by
        rw [hlabels, List.mem_reverse]
        exact List.mem_map_of_mem (f := fun m => (String.singleton m.slot, nativeId radio m)) hm
      have hok := hsupported _ hmem
      rw [Env.supports, hinternal] at hok
      simp [beInternalVfoSupported, htitle] at hok

end RadioConfig

end RustyRig
