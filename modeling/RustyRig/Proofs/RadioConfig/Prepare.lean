/-
What an accepted composition leaves in the configuration.

The settings of a rig lie under its own key, and no radio writes under that of another.
Within a radio the loop over the VFOs writes under the slot of each, and no slot is taken
twice.  So what a VFO's turn wrote is still there when the rigs are made.
-/
import RustyRig.Lib.Folds
import RustyRig.Lib.SelfDelimiting
import RustyRig.Rrserver.RadioConfig
import Mathlib.Data.List.Basic

namespace RustyRig

namespace RadioConfig

variable {c : Config} {limits : Limits} {radio radio' key key' : String} {out out' : Dict}
  {d d' : Draft}

/-! ### Keys -/

theorem aliasValid_dot (h : aliasValid radio = true) : '.' ∉ radio.toList := by
  intro hdot
  unfold aliasValid at h
  rw [Bool.and_eq_true, List.all_eq_true] at h
  exact absurd (h.2 '.' hdot) (by decide)

theorem rigKey_toList (radio key : String) :
    (rigKey radio key).toList = ['r', 'i', 'g', ':'] ++ (radio.toList ++ '.' :: key.toList) := by
  simp [rigKey, String.toList_append]

/-- The radio and the setting can be told from the key. -/
theorem rigKey_inj (h : aliasValid radio = true) (h' : aliasValid radio' = true)
    (heq : rigKey radio key = rigKey radio' key') : radio = radio' ∧ key = key' := by
  have hlist := congrArg String.toList heq
  rw [rigKey_toList, rigKey_toList] at hlist
  obtain ⟨hr, hk⟩ := Lib.Delimited.append_sep_inj (aliasValid_dot h) (aliasValid_dot h')
    (List.append_cancel_left hlist)
  exact ⟨String.toList_inj.mp hr, String.toList_inj.mp hk⟩

/-- The settings that belong to no rig have other keys. -/
theorem rigKey_ne {other : String} (h : other.toList.take 4 ≠ ['r', 'i', 'g', ':']) :
    rigKey radio key ≠ other := by
  rintro rfl
  rw [rigKey_toList] at h
  exact h rfl

theorem slotKey_toList (slot : Char) (key : String) :
    (slotKey slot key).toList = ['v', 'f', 'o', '.', slot, '.'] ++ key.toList := by
  simp [slotKey, String.toList_append]

theorem slotKey_inj {slot slot' : Char} (h : slotKey slot key = slotKey slot' key') :
    slot = slot' ∧ key = key' := by
  have hlist := congrArg String.toList h
  rw [slotKey_toList, slotKey_toList] at hlist
  simp only [List.cons_append, List.nil_append, List.cons.injEq, true_and] at hlist
  exact ⟨hlist.1, String.toList_inj.mp hlist.2⟩

theorem slotKey_ne_vfos (slot : Char) : slotKey slot key ≠ "vfos" := by
  intro h
  have hlist := congrArg String.toList h
  rw [slotKey_toList] at hlist
  simp at hlist

/-! ### What is written -/

/-- Of the settings of rigs only those of `own` may have changed. -/
def Within (own : String → String → Prop) (out out' : Dict) : Prop :=
  ∀ radio key, aliasValid radio = true → ¬ own radio key →
    out'.get? (rigKey radio key) = out.get? (rigKey radio key)

variable {own own' : String → String → Prop}

theorem Within.refl (own : String → String → Prop) (out : Dict) : Within own out out :=
  fun _ _ _ _ => rfl

theorem Within.trans {out'' : Dict} (h : Within own out out') (h' : Within own out' out'') :
    Within own out out'' :=
  fun r k hr hk => (h' r k hr hk).trans (h r k hr hk)

theorem Within.mono (h : Within own out out') (hown : ∀ r k, own r k → own' r k) :
    Within own' out out' :=
  fun r k hr hk => h r k hr fun ho => hk (hown r k ho)

theorem within_add (hr : aliasValid radio = true) (ho : own radio key) (value : String) :
    Within own out (out.add (rigKey radio key) value) := by
  intro r k hvalid hk
  rw [Dict.get?_add, if_neg]
  intro heq
  obtain ⟨rfl, rfl⟩ := rigKey_inj hvalid hr heq
  exact hk ho

/-- A setting that belongs to no rig. -/
theorem within_add_other {other : String} (h : other.toList.take 4 ≠ ['r', 'i', 'g', ':'])
    (value : String) : Within own out (out.add other value) := by
  intro r k _ _
  rw [Dict.get?_add, if_neg (rigKey_ne h)]

theorem within_append {other : String} (h : other.toList.take 4 ≠ ['r', 'i', 'g', ':'])
    (value : String) : Within own out (append out other value) := by
  unfold append
  simp only
  split
  · exact Within.refl own out
  · exact within_add_other h _

/-- Every setting of one rig. -/
def ofRadio (radio : String) : String → String → Prop := fun r _ => r = radio

theorem within_add_radio (hr : aliasValid radio = true) (out : Dict) (key value : String) :
    Within (ofRadio radio) out (out.add (rigKey radio key) value) :=
  within_add hr (show ofRadio radio radio key from rfl) value

/-- Every setting of one slot. -/
def ofSlot (radio : String) (slot : Char) : String → String → Prop :=
  fun r k => r = radio ∧ ∃ key, k = slotKey slot key

/-! ### One component, one group -/

/-- A component of a group that the configuration has: simulated, or of the group's hardware. -/
inductive OfKind (limits : Limits) (c : Config) (group : Group) (id : String) : Prop
  | dummy (name : startsWith id "dummy:" = true) (kind : c.field id "kind" = some group.kind)
  | si5351 (fits : group = .oscillators) (name : startsWith id "si5351:" = true)
      (bus : (c.field id "bus").isSome = true)
  | gpio (fits : group = .gpio) (name : startsWith id "gpio:" = true)
      (chip : (c.field id "chip").isSome = true) (offset : (c.field id "offset").isSome = true)
  | legacy {head : String} (fits : group.legacy = some head) (name : startsWith id head = true)
      (index : number (c.field id "index") 0 ((limits group + (2 ^ 32 - 1)) % 2 ^ 32 : Nat) = true)

/-- Nobody loses what is reserved. -/
def Owned (owners owners' : Dict) : Prop :=
  ∀ id radio, owners.get? id = some radio → owners'.get? id = some radio

theorem Owned.refl (owners : Dict) : Owned owners owners := fun _ _ h => h

theorem Owned.trans {owners owners' owners'' : Dict} (h : Owned owners owners') (h' : Owned owners' owners'') :
    Owned owners owners'' := fun id radio hid => h' id radio (h id radio hid)

theorem reserve_spec {owners owners' : Dict} {id : String} (h : reserve owners id radio = some owners') :
    owners'.get? id = some radio ∧ Owned owners owners' := by
  have hadd : (∀ old, owners.get? id = some old → old = radio) → owners' = owners.add id radio →
      owners'.get? id = some radio ∧ Owned owners owners' := by
    rintro hold rfl
    refine ⟨by rw [Dict.get?_add, if_pos rfl], fun x r hx => ?_⟩
    rw [Dict.get?_add]
    split
    · rename_i heq
      subst heq
      rw [hold r hx]
    · exact hx
  unfold reserve at h
  split at h
  · rename_i old hold
    split at h
    · rename_i hsame
      refine hadd (fun x hx => ?_) (Option.some.inj h).symm
      rw [← Option.some.inj (hold.symm.trans hx)]
      exact hsame
    · exact absurd h (by simp)
  · rename_i hnone
    exact hadd (fun x hx => absurd (hnone.symm.trans hx) (by simp)) (Option.some.inj h).symm

/-- The lists of hardware to register. -/
def hardwareKeys : List String :=
  ["hardware.dummy", "hardware.si5351", "hardware.gpio-lines", "hardware.legacy"]

/-- A component is of its group's kind and its radio's own, and is listed for registration. -/
theorem component_spec {group : Group} {id : String} (h : component limits c radio group d id = some d') :
    OfKind limits c group id ∧ d'.owners.get? id = some radio ∧ Owned d.owners d'.owners ∧
      ∃ list ∈ hardwareKeys, ∃ name, d'.out = append d.out list name := by
  unfold component at h
  split at h
  · exact absurd h (by simp)
  rename_i name _
  split at h
  · exact absurd h (by simp)
  split at h
  · exact absurd h (by simp)
  rename_i owners howners
  obtain ⟨hown, hkept⟩ := reserve_spec howners
  split at h
  · rename_i hdummy
    split at h
    · rename_i hfields
      simp only [Bool.and_eq_true, decide_eq_true_eq] at hfields
      obtain rfl := Option.some.inj h
      exact ⟨.dummy hdummy hfields.1.1, hown, hkept, "hardware.dummy", by decide, name, rfl⟩
    · exact absurd h (by simp)
  split at h
  · rename_i hsi
    simp only [Bool.and_eq_true, decide_eq_true_eq] at hsi
    obtain rfl := Option.some.inj h
    exact ⟨.si5351 hsi.1.1 hsi.1.2 hsi.2, hown, hkept, "hardware.si5351", by decide, name, rfl⟩
  split at h
  · rename_i hgpio
    simp only [Bool.and_eq_true, decide_eq_true_eq] at hgpio
    obtain rfl := Option.some.inj h
    exact ⟨.gpio hgpio.1.1.1 hgpio.1.1.2 hgpio.1.2 hgpio.2, hown, hkept, "hardware.gpio-lines", by decide,
      name, rfl⟩
  unfold legacyComponent at h
  split at h
  · exact absurd h (by simp)
  rename_i head hhead
  simp only at h
  split at h
  · exact absurd h (by simp)
  rename_i hname
  split at h
  · exact absurd h (by simp)
  rename_i hindex
  rw [Bool.not_eq_true', Bool.not_eq_false] at hname hindex
  obtain ⟨owners', hphysical, rfl⟩ := Option.map_eq_some_iff.mp h
  obtain ⟨-, hkept'⟩ := reserve_spec hphysical
  exact ⟨.legacy hhead hname hindex, hkept' _ _ hown,
    hkept.trans hkept', "hardware.legacy", by decide, id, rfl⟩

theorem component_within {group : Group} {id : String}
    (h : component limits c radio group d id = some d') : Within own d.out d'.out := by
  obtain ⟨-, -, -, list, hlist, name, hout⟩ := component_spec h
  have hother : ∀ list ∈ hardwareKeys, list.toList.take 4 ≠ ['r', 'i', 'g', ':'] := by decide
  rw [hout]
  exact within_append (hother list hlist) name

theorem bindGroup_within {backend : String} {group : Group} (hr : aliasValid radio = true)
    (h : bindGroup limits c radio backend d group = some d') :
    Within (ofRadio radio) d.out d'.out := by
  unfold bindGroup at h
  simp only at h
  split at h
  · exact absurd h (by simp)
  obtain ⟨t, hloop, rfl⟩ := Option.map_eq_some_iff.mp h
  have hcomponents : Within (ofRadio radio) d.out t.out :=
    Lib.foldlM_kept (P := fun t => Within (ofRadio radio) d.out t.out) hloop
      (Within.refl _ d.out) fun _ _ _ _ ht hpass => ht.trans (component_within hpass)
  exact hcomponents.trans (within_add_radio hr _ _ _)

theorem settings_within (hr : aliasValid radio = true) (out : Dict) :
    Within (ofRadio radio) out (settings c radio out) := by
  have hkeep : ∀ (out : Dict), Within (ofRadio radio) out (keepSettings c radio out) := by
    unfold keepSettings
    induction c.cfg.entries with
    | nil => exact Within.refl _
    | cons e es ih =>
        intro out
        refine Within.trans ?_ (ih _)
        dsimp only
        split
        · split
          · exact within_add_radio hr _ _ _
          · exact Within.refl _ out
        · exact Within.refl _ out
  exact ((within_add_radio hr _ _ _).trans (within_add_radio hr _ _ _)).trans (hkeep _)

/-! ### The loop over the VFOs -/

theorem copyFields_within {id : String} {slot : Char} (hr : aliasValid radio = true)
    (h : copyFields c radio id slot out = some out') :
    Within (fun r k => r = radio ∧ ∃ f ∈ vfoFields, k = slotKey slot f.1) out out' := by
  refine Lib.foldlM_kept (P := Within _ out) h (Within.refl _ out) ?_
  intro f t t' hf ht hpass
  refine ht.trans ?_
  split at hpass
  · obtain rfl := Option.some.inj hpass
    exact Within.refl _ t
  · split at hpass
    · obtain rfl := Option.some.inj hpass
      exact within_add hr ⟨rfl, f, hf, rfl⟩ _
    · exact absurd hpass (by simp)

/-- A VFO takes a free slot and writes its title there, and nothing outside its slot. -/
theorem vfo_spec {name : String} {slots slots' : List Char} (hr : aliasValid radio = true)
    (h : vfo c radio (d, slots) name = some (d', slots')) :
    ∃ slot, slotOf c name = some slot ∧ slot ∉ slots ∧ slots' = slots ++ [slot] ∧
      d'.out.get? (rigKey radio (slotKey slot "title")) =
        some ((c.field ("vfo:" ++ name) "title").getD name) ∧
      Within (ofSlot radio slot) d.out d'.out := by
  unfold vfo at h
  simp only at h
  split at h
  case h_2 => exact absurd h (by simp)
  rename_i slot owners hslot _
  split at h
  · exact absurd h (by simp)
  rename_i hfree
  split at h
  · exact absurd h (by simp)
  obtain ⟨o, hcopy, heq⟩ := Option.map_eq_some_iff.mp h
  obtain ⟨rfl, rfl⟩ := Prod.mk.inj heq
  have hcopied := copyFields_within hr hcopy
  refine ⟨slot, hslot, ?_, rfl, ?_, ?_⟩
  · simp only [Bool.or_eq_true, not_or, List.contains_iff_mem] at hfree
    exact hfree.2
  · have htitle : ¬ (radio = radio ∧ ∃ f ∈ vfoFields, slotKey slot "title" = slotKey slot f.1) := by
      rintro ⟨-, f, hf, heq⟩
      have hname := (slotKey_inj heq).2
      revert hf
      simp only [vfoFields, List.mem_cons, List.not_mem_nil, or_false]
      rintro (rfl | rfl | rfl | rfl | rfl) <;> exact absurd hname (by decide)
    rw [hcopied radio _ hr htitle, Dict.get?_add, if_pos rfl]
  · refine Within.trans ?_ (hcopied.mono ?_)
    · exact (within_add hr ⟨rfl, _, rfl⟩ _).trans (within_add hr ⟨rfl, _, rfl⟩ _)
    · rintro r k ⟨rfl, f, -, rfl⟩
      exact ⟨rfl, f.1, rfl⟩

/-- The settings of a radio's VFOs as the composition has them. -/
structure Composed (c : Config) (out : Dict) (radio : String) : Prop where
  nodup : ((members c radio).map Member.slot).Nodup
  nonempty : members c radio ≠ []
  listed : out.get? (rigKey radio "vfos") = some (joined ((members c radio).map Member.slot))
  titled : ∀ m ∈ members c radio, out.get? (rigKey radio (slotKey m.slot "title")) =
    some (m.title.getD m.name)

theorem Composed.of_same (h : Composed c out radio)
    (hsame : ∀ key, out'.get? (rigKey radio key) = out.get? (rigKey radio key)) :
    Composed c out' radio where
  nodup := h.nodup
  nonempty := h.nonempty
  listed := (hsame _).trans h.listed
  titled := fun m hm => (hsame _).trans (h.titled m hm)

/-- The members that a list of sections stands for. -/
def membersOf (c : Config) (names : List String) : List Member :=
  names.filterMap fun name =>
    (slotOf c name).map fun slot => ⟨name, slot, c.field ("vfo:" ++ name) "title"⟩

theorem vfos_spec (hr : aliasValid radio = true) (h : vfos c radio d = some d') :
    Composed c d'.out radio ∧ Within (ofRadio radio) d.out d'.out := by
  unfold vfos at h
  split at h
  · exact absurd h (by simp)
  rename_i t slots hloop
  split at h
  · exact absurd h (by simp)
  rename_i hsome
  obtain rfl := Option.some.inj h
  -- What the loop has written for the sections it has passed.
  have hpassed := Lib.foldlM_passed (P := fun done (st : Draft × List Char) =>
      st.2 = (membersOf c done).map Member.slot ∧ st.2.Nodup ∧
        (∀ m ∈ membersOf c done, st.1.out.get? (rigKey radio (slotKey m.slot "title")) =
          some (m.title.getD m.name)) ∧
        Within (ofRadio radio) d.out st.1.out) hloop
    ⟨rfl, List.nodup_nil, by simp [membersOf], Within.refl _ d.out⟩ ?_
  · obtain ⟨hslots, hnodup, htitled, hwithin⟩ := hpassed
    have hmembers : slots = (members c radio).map Member.slot := hslots
    refine ⟨⟨?_, ?_, ?_, ?_⟩, hwithin.trans (within_add_radio hr _ _ _)⟩
    · rw [← hmembers]
      exact hnodup
    · intro hnil
      rw [hnil] at hmembers
      exact hsome (by simp [hmembers])
    · rw [Dict.get?_add, if_pos rfl, hmembers]
    · intro m hm
      rw [Dict.get?_add, if_neg]
      · exact htitled m hm
      · intro heq
        exact slotKey_ne_vfos m.slot (rigKey_inj hr hr heq).2
  · rintro done name ⟨t, slots⟩ ⟨t', slots'⟩ - ⟨hslots, hnodup, htitled, hwithin⟩ hpass
    obtain ⟨slot, hslot, hfree, rfl, htitle, hown⟩ := vfo_spec hr hpass
    have hlast : membersOf c (done ++ [name]) = membersOf c done ++
        [⟨name, slot, c.field ("vfo:" ++ name) "title"⟩] := by
      simp [membersOf, List.filterMap_append, hslot]
    refine ⟨?_, ?_, ?_, hwithin.trans (hown.mono fun r k hk => hk.1)⟩
    · rw [hlast, List.map_append, ← hslots]
      rfl
    · exact List.nodup_append.mpr ⟨hnodup, by simp, fun a ha b hb => by
        rw [List.mem_singleton.mp hb]
        rintro rfl
        exact hfree ha⟩
    · intro m hm
      rw [hlast] at hm
      rcases List.mem_append.mp hm with hm | hm
      · refine (hown radio _ hr ?_).trans (htitled m hm)
        rintro ⟨-, key, heq⟩
        refine hfree ?_
        rw [show slots = _ from hslots, ← (slotKey_inj heq).1]
        exact List.mem_map_of_mem hm
      · obtain rfl := List.mem_singleton.mp hm
        exact htitle

/-! ### All radios -/

theorem prepareRadio_spec {seen seen' : List String}
    (h : prepareRadio limits c (d, seen) radio = some (d', seen')) :
    aliasValid radio = true ∧ radio ∉ seen ∧ seen' = seen ++ [radio] ∧ Composed c d'.out radio ∧
      Within (ofRadio radio) d.out d'.out := by
  unfold prepareRadio at h
  split at h
  · exact absurd h (by simp)
  rename_i hguard
  simp only [Bool.or_eq_true, Bool.not_eq_true', not_or, Bool.not_eq_false,
    List.contains_iff_mem] at hguard
  simp only at h
  split at h
  · exact absurd h (by simp)
  rename_i t hgroups
  obtain ⟨t', hvfos, heq⟩ := Option.map_eq_some_iff.mp h
  obtain ⟨rfl, rfl⟩ := Prod.mk.inj heq
  obtain ⟨hcomposed, hwithin⟩ := vfos_spec hguard.1 hvfos
  have hbound : Within (ofRadio radio) d.out t.out :=
    Lib.foldlM_kept (P := fun t => Within (ofRadio radio) d.out t.out) hgroups
      (settings_within hguard.1 d.out) fun _ _ _ _ ht hpass =>
        ht.trans (bindGroup_within hguard.1 hpass)
  exact ⟨hguard.1, hguard.2, rfl, hcomposed, hbound.trans hwithin⟩

/-- An accepted configuration has the settings of every radio's composition. -/
theorem prepare_composed {c' : Config} (h : prepare limits c = some c')
    (hr : radio ∈ radios c) :
    aliasValid radio = true ∧ Composed c c'.cfg radio := by
  unfold prepare at h
  unfold radios at hr
  split at h
  · rename_i hnone
    rw [hnone] at hr
    exact absurd hr (by simp [tokens, strsplit])
  rename_i list hlist
  rw [hlist, Option.getD_some] at hr
  split at h
  · rename_i hempty
    rw [hempty] at hr
    exact absurd hr (by simp [tokens, strsplit])
  split at h
  · exact absurd h (by simp)
  rename_i t seen hloop
  split at h
  · exact absurd h (by simp)
  split at h
  · exact absurd h (by simp)
  obtain rfl := Option.some.inj h
  have hpassed := Lib.foldlM_passed (P := fun done (st : Draft × List String) =>
      st.2 = done ∧ ∀ r ∈ done, aliasValid r = true ∧ Composed c st.1.out r) hloop
    ⟨rfl, by simp⟩ ?_
  · obtain ⟨hvalid, hcomposed⟩ := hpassed.2 radio hr
    refine ⟨hvalid, hcomposed.of_same fun key => ?_⟩
    rw [Dict.get?_add, if_neg (rigKey_ne (by decide)), Dict.get?_add,
      if_neg (rigKey_ne (by decide))]
  · rintro done r ⟨t, seen⟩ ⟨t', seen'⟩ - ⟨hseen, hall⟩ hpass
    obtain ⟨hvalid, hnew, rfl, hcomposed, hwithin⟩ := prepareRadio_spec hpass
    obtain rfl : seen = done := hseen
    refine ⟨rfl, fun x hx => ?_⟩
    rcases List.mem_append.mp hx with hx | hx
    · obtain ⟨hxv, hxc⟩ := hall x hx
      refine ⟨hxv, hxc.of_same fun key => hwithin x key hxv fun heq => ?_⟩
      rw [show x = r from heq] at hx
      exact hnew hx
    · obtain rfl := List.mem_singleton.mp hx
      exact ⟨hvalid, hcomposed⟩

end RadioConfig

end RustyRig
