/-
An accepted composition shares nothing.

`owners` says for every component and VFO section which radio it is reserved for, and
nothing takes it away again; what a radio uses is reserved for it when its turn is over, so
two radios that use one section are one radio.  The sections themselves are not touched: all
that is written are the settings of rigs and the lists of hardware to register.
-/
import RustyRig.Proofs.RadioConfig.Prepare

namespace RustyRig

namespace RadioConfig

variable {c c' : Config} {limits : Limits} {radio radio' key : String} {out out' : Dict} {d d' : Draft}

/-! ### What is not written -/

/-- A key of neither a rig nor the hardware to register. -/
def Aside (key : String) : Prop :=
  key.toList.take 3 ≠ ['r', 'i', 'g'] ∧ key.toList.take 9 ≠ "hardware.".toList

/-- Everything aside is as it was. -/
def Spares (out out' : Dict) : Prop := ∀ key, Aside key → out'.get? key = out.get? key

theorem Spares.refl (out : Dict) : Spares out out := fun _ _ => rfl

theorem Spares.trans {out'' : Dict} (h : Spares out out') (h' : Spares out' out'') : Spares out out'' :=
  fun key hkey => (h' key hkey).trans (h key hkey)

theorem spares_add (hkey : ¬ Aside key) (value : String) : Spares out (out.add key value) := by
  intro other hother
  rw [Dict.get?_add, if_neg]
  rintro rfl
  exact hkey hother

theorem spares_rig (radio key value : String) : Spares out (out.add (rigKey radio key) value) :=
  spares_add (fun h => h.1 (by rw [rigKey_toList]; rfl)) value

theorem spares_append {list : String} (hlist : list ∈ hardwareKeys) (name : String) :
    Spares out (append out list name) := by
  have hhardware : ∀ list ∈ hardwareKeys, list.toList.take 9 = "hardware.".toList := by decide
  unfold append
  simp only
  split
  · exact Spares.refl out
  · exact spares_add (fun h => h.2 (hhardware list hlist)) _

/-- The settings of a section that is named neither way. -/
theorem field_of_spares (hsame : Spares c.cfg c'.cfg) (hdefaults : c'.defaults = c.defaults)
    {id field : String} (hid : Aside (id ++ "." ++ field)) : c'.field id field = c.field id field := by
  unfold Config.field Config.get
  rw [hsame _ hid, hdefaults]

/-! ### A radio's turn -/

/-- The components of a group that a radio names. -/
def refs (c : Config) (radio : String) (group : Group) : String :=
  (c.field ("radio:" ++ radio) group.name).getD ""

/-- The VFO sections that a radio names. -/
def vfoNames (c : Config) (radio : String) : List String :=
  tokens ((c.field ("radio:" ++ radio) "vfos").getD "")

/-- The sections that a radio uses. -/
def Uses (c : Config) (radio id : String) : Prop :=
  (∃ group, id ∈ tokens (refs c radio group)) ∨ ∃ name ∈ vfoNames c radio, id = "vfo:" ++ name

/-- What a turn leaves of a group. -/
structure BoundGroup (limits : Limits) (c : Config) (d : Draft) (radio : String) (group : Group) : Prop where
  owned : ∀ id ∈ tokens (refs c radio group), d.owners.get? id = some radio
  kind : ∀ id ∈ tokens (refs c radio group), OfKind limits c group id
  bound : d.out.get? (rigKey radio ("bind." ++ group.name)) = some (refs c radio group)

theorem BoundGroup.kept {group : Group} (h : BoundGroup limits c d radio group)
    (howners : Owned d.owners d'.owners)
    (hbound : d'.out.get? (rigKey radio ("bind." ++ group.name)) =
      d.out.get? (rigKey radio ("bind." ++ group.name))) : BoundGroup limits c d' radio group where
  owned := fun id hid => howners id radio (h.owned id hid)
  kind := h.kind
  bound := hbound.trans h.bound

theorem bind_inj {group group' : Group} (h : "bind." ++ group.name = "bind." ++ group'.name) :
    group = group' := by
  cases group <;> cases group' <;> first | rfl | exact absurd h (by decide)

theorem bindGroup_spec {backend : String} {group : Group} (hr : aliasValid radio = true)
    (h : bindGroup limits c radio backend d group = some d') :
    BoundGroup limits c d' radio group ∧ Owned d.owners d'.owners ∧ Spares d.out d'.out ∧
      ∀ group', group' ≠ group → d'.out.get? (rigKey radio ("bind." ++ group'.name)) =
        d.out.get? (rigKey radio ("bind." ++ group'.name)) := by
  unfold bindGroup at h
  simp only at h
  split at h
  · exact absurd h (by simp)
  obtain ⟨t, hloop, rfl⟩ := Option.map_eq_some_iff.mp h
  have hpassed := Lib.foldlM_passed (P := fun done (t : Draft) =>
      (∀ id ∈ done, t.owners.get? id = some radio ∧ OfKind limits c group id) ∧ Owned d.owners t.owners ∧
        Spares d.out t.out ∧ Within (fun _ _ => False) d.out t.out) hloop
    ⟨(fun _ h => nomatch h), Owned.refl _, Spares.refl _, Within.refl _ _⟩ ?_
  · obtain ⟨hdone, howners, hspares, hwithin⟩ := hpassed
    refine ⟨⟨fun id hid => (hdone id hid).1, fun id hid => (hdone id hid).2, ?_⟩, howners,
      hspares.trans (spares_rig _ _ _), fun group' hne => ?_⟩
    · rw [Dict.get?_add, if_pos rfl]
      rfl
    · rw [Dict.get?_add, if_neg fun heq => hne (bind_inj (rigKey_inj hr hr heq).2)]
      exact hwithin radio _ hr id
  · rintro done id t t' - ⟨hdone, howners, hspares, hwithin⟩ hpass
    obtain ⟨hkind, howned, hkept, list, hlist, name, hout⟩ := component_spec hpass
    refine ⟨fun x hx => ?_, howners.trans hkept, ?_, hwithin.trans (component_within hpass)⟩
    · rcases List.mem_append.mp hx with hx | hx
      · exact ⟨hkept _ _ (hdone x hx).1, (hdone x hx).2⟩
      · rw [List.mem_singleton.mp hx]
        exact ⟨howned, hkind⟩
    · rw [hout]
      exact hspares.trans (spares_append hlist name)

theorem settings_spares (radio : String) (out : Dict) : Spares out (settings c radio out) := by
  have hkeep : ∀ (out : Dict), Spares out (keepSettings c radio out) := by
    unfold keepSettings
    induction c.cfg.entries with
    | nil => exact Spares.refl
    | cons e es ih =>
        intro out
        refine Spares.trans ?_ (ih _)
        dsimp only
        split
        · split
          · exact spares_rig _ _ _
          · exact Spares.refl out
        · exact Spares.refl out
  exact ((spares_rig _ _ _).trans (spares_rig _ _ _)).trans (hkeep _)

theorem copyFields_spares {id : String} {slot : Char} (h : copyFields c radio id slot out = some out') :
    Spares out out' := by
  refine Lib.foldlM_kept (P := Spares out) h (Spares.refl out) ?_
  intro f t t' _ ht hpass
  refine ht.trans ?_
  split at hpass
  · obtain rfl := Option.some.inj hpass
    exact Spares.refl t
  · split at hpass
    · obtain rfl := Option.some.inj hpass
      exact spares_rig _ _ _
    · exact absurd hpass (by simp)

/-- The settings of a VFO section that were checked. -/
structure VfoFits (c : Config) (radio name : String) : Prop where
  slot : (slotOf c name).isSome = true
  oscillator : ∀ osc, c.field ("vfo:" ++ name) "oscillator" = some osc → osc ≠ "" →
    osc ∈ tokens (refs c radio .oscillators)

theorem vfo_fits {name : String} {slots slots' : List Char} (hr : aliasValid radio = true)
    (h : vfo c radio (d, slots) name = some (d', slots'))
    (hbound : d.out.get? (rigKey radio ("bind." ++ Group.oscillators.name)) =
      some (refs c radio .oscillators)) :
    VfoFits c radio name ∧ d'.owners.get? ("vfo:" ++ name) = some radio ∧ Owned d.owners d'.owners ∧
      Spares d.out d'.out := by
  unfold vfo at h
  simp only at h
  split at h
  case h_2 => exact absurd h (by simp)
  rename_i slot owners hslot howners
  obtain ⟨hown, hkept⟩ := reserve_spec howners
  split at h
  · exact absurd h (by simp)
  split at h
  · exact absurd h (by simp)
  rename_i hfits
  obtain ⟨o, hcopy, heq⟩ := Option.map_eq_some_iff.mp h
  obtain ⟨rfl, -⟩ := Prod.mk.inj heq
  refine ⟨⟨by rw [hslot]; rfl, fun osc hosc hne => ?_⟩, hown, hkept,
    ((spares_rig _ _ _).trans (spares_rig _ _ _)).trans (copyFields_spares hcopy)⟩
  have hfits : oscillatorFits c ((d.out.add (rigKey radio (slotKey slot "config-id")) name).add
      (rigKey radio (slotKey slot "title")) ((c.field ("vfo:" ++ name) "title").getD name)) radio
      ("vfo:" ++ name) = true := by simpa using hfits
  have hbind : ∀ key value, ∀ out : Dict,
      (out.add (rigKey radio (slotKey slot key)) value).get? (rigKey radio ("bind." ++ Group.oscillators.name)) =
        out.get? (rigKey radio ("bind." ++ Group.oscillators.name)) := by
    intro key value out
    have hwithin : Within (ofSlot radio slot) out (out.add (rigKey radio (slotKey slot key)) value) :=
      within_add hr ⟨rfl, key, rfl⟩ value
    refine hwithin radio _ hr ?_
    rintro ⟨-, key', heq⟩
    have hlist := congrArg String.toList heq
    rw [slotKey_toList] at hlist
    exact absurd hlist (by simp [Group.name])
  unfold oscillatorFits at hfits
  rw [hosc] at hfits
  simp only [Bool.and_eq_true, List.contains_iff_mem, Dict.get] at hfits
  rw [← (by decide : "bind." ++ Group.oscillators.name = "bind.oscillators"), hbind, hbind, hbound,
    Option.getD_some] at hfits
  exact List.mem_filter.mpr ⟨hfits.1, by simpa using hne⟩

/-- What a radio's turn leaves. -/
structure Bound (limits : Limits) (c : Config) (d : Draft) (radio : String) : Prop where
  group : ∀ group, BoundGroup limits c d radio group
  vfo : ∀ name ∈ vfoNames c radio, VfoFits c radio name
  owned : ∀ name ∈ vfoNames c radio, d.owners.get? ("vfo:" ++ name) = some radio

theorem Bound.owner (h : Bound limits c d radio) {id : String} (hid : Uses c radio id) :
    d.owners.get? id = some radio := by
  obtain ⟨group, hid⟩ | ⟨name, hname, rfl⟩ := hid
  · exact (h.group group).owned id hid
  · exact h.owned name hname

theorem Bound.kept (h : Bound limits c d radio) (howners : Owned d.owners d'.owners)
    (hout : ∀ key, d'.out.get? (rigKey radio key) = d.out.get? (rigKey radio key)) :
    Bound limits c d' radio where
  group := fun group => (h.group group).kept howners (hout _)
  vfo := h.vfo
  owned := fun name hname => howners _ _ (h.owned name hname)

theorem vfos_bound (hr : aliasValid radio = true) (h : vfos c radio d = some d')
    (hgroup : ∀ group, BoundGroup limits c d radio group) :
    Bound limits c d' radio ∧ Owned d.owners d'.owners ∧ Spares d.out d'.out := by
  unfold vfos at h
  split at h
  · exact absurd h (by simp)
  rename_i t slots hloop
  split at h
  · exact absurd h (by simp)
  obtain rfl := Option.some.inj h
  have hpassed := Lib.foldlM_passed (P := fun done (st : Draft × List Char) =>
      (∀ name ∈ done, VfoFits c radio name ∧ st.1.owners.get? ("vfo:" ++ name) = some radio) ∧
        (∀ group, BoundGroup limits c st.1 radio group) ∧ Owned d.owners st.1.owners ∧
        Spares d.out st.1.out) hloop
    ⟨(fun _ h => nomatch h), hgroup, Owned.refl _, Spares.refl _⟩ ?_
  · obtain ⟨hdone, hgroups, howners, hspares⟩ := hpassed
    refine ⟨⟨fun group => (hgroups group).kept (Owned.refl _) ?_, fun name hname => (hdone name hname).1,
      fun name hname => (hdone name hname).2⟩, howners, hspares.trans (spares_rig _ _ _)⟩
    rw [Dict.get?_add, if_neg]
    intro heq
    have hlist := congrArg String.toList (rigKey_inj hr hr heq).2
    exact absurd hlist (by simp)
  · rintro done name ⟨t, slots⟩ ⟨t', slots'⟩ - ⟨hdone, hgroups, howners, hspares⟩ hpass
    obtain ⟨hfits, hown, hkept, hout⟩ := vfo_fits hr hpass (hgroups .oscillators).bound
    obtain ⟨slot, -, -, -, -, hwithin⟩ := vfo_spec hr hpass
    refine ⟨fun x hx => ?_, fun group => (hgroups group).kept hkept ?_, howners.trans hkept,
      hspares.trans hout⟩
    · rcases List.mem_append.mp hx with hx | hx
      · exact ⟨(hdone x hx).1, hkept _ _ (hdone x hx).2⟩
      · rw [List.mem_singleton.mp hx]
        exact ⟨hfits, hown⟩
    · refine hwithin radio _ hr ?_
      rintro ⟨-, key, heq⟩
      have hlist := congrArg String.toList heq
      rw [slotKey_toList] at hlist
      exact absurd hlist (by simp)

theorem prepareRadio_bound {seen seen' : List String}
    (h : prepareRadio limits c (d, seen) radio = some (d', seen')) :
    Bound limits c d' radio ∧ Owned d.owners d'.owners ∧ Spares d.out d'.out := by
  obtain ⟨hr, -⟩ := prepareRadio_spec h
  unfold prepareRadio at h
  split at h
  · exact absurd h (by simp)
  simp only at h
  split at h
  · exact absurd h (by simp)
  rename_i t hgroups
  obtain ⟨t', hvfos, heq⟩ := Option.map_eq_some_iff.mp h
  obtain ⟨rfl, -⟩ := Prod.mk.inj heq
  have hpassed := Lib.foldlM_passed (P := fun done (t : Draft) =>
      (∀ group ∈ done, BoundGroup limits c t radio group) ∧ Owned d.owners t.owners ∧
        Spares d.out t.out) hgroups
    ⟨(fun _ h => nomatch h), Owned.refl _, settings_spares radio d.out⟩ ?_
  · obtain ⟨hdone, howners, hspares⟩ := hpassed
    have hall : ∀ group, group ∈ Group.all := fun group => by cases group <;> decide
    obtain ⟨hbound, howners', hspares'⟩ := vfos_bound hr hvfos fun group => hdone group (hall group)
    exact ⟨hbound, howners.trans howners', hspares.trans hspares'⟩
  · rintro done group t t' - ⟨hdone, howners, hspares⟩ hpass
    obtain ⟨hbound, hkept, hout, hothers⟩ := bindGroup_spec hr hpass
    refine ⟨fun x hx => ?_, howners.trans hkept, hspares.trans hout⟩
    by_cases hsame : x = group
    · rw [hsame]
      exact hbound
    · rcases List.mem_append.mp hx with hx | hx
      · exact (hdone x hx).kept hkept (hothers x hsame)
      · exact absurd (List.mem_singleton.mp hx) hsame

/-! ### The whole configuration -/

/-- What the names of the sections of a composition begin with. -/
def sectionHeads : List String :=
  ["radio:", "vfo:", "dummy:", "si5351:", "gpio:", "filter:", "tuner:", "amp:"]

theorem aside_section {head id : String} (hhead : head ∈ sectionHeads) (hid : startsWith id head = true)
    (field : String) : Aside (id ++ "." ++ field) := by
  have hother : ∀ head ∈ sectionHeads, head.toList.take 3 ≠ ['r', 'i', 'g'] ∧
      head.toList.take 3 ≠ ['h', 'a', 'r'] ∧ 3 ≤ head.toList.length := by decide
  obtain ⟨hrig, hhar, hlong⟩ := hother head hhead
  obtain ⟨rest, hrest⟩ := List.isPrefixOf_iff_prefix.mp hid
  have hfirst : (id ++ "." ++ field).toList.take 3 = head.toList.take 3 := by
    rw [String.toList_append, String.toList_append, ← hrest, List.append_assoc, List.append_assoc,
      List.take_append_of_le_length hlong]
  refine ⟨hfirst ▸ hrig, fun h => hhar ?_⟩
  have hthree := congrArg (List.take 3) h
  rw [List.take_take, show min 3 9 = 3 from rfl, hfirst] at hthree
  exact hthree

/-- Both configurations have the same sections. -/
def Same (c c' : Config) : Prop :=
  ∀ head ∈ sectionHeads, ∀ id field, startsWith id head = true → c'.field id field = c.field id field

theorem same_of_spares (hsame : Spares c.cfg c'.cfg) (hdefaults : c'.defaults = c.defaults) : Same c c' :=
  fun _ hhead _ field hid => field_of_spares hsame hdefaults (aside_section hhead hid field)

theorem startsWith_append (head rest : String) : startsWith (head ++ rest) head = true := by
  unfold startsWith
  rw [String.toList_append]
  exact List.isPrefixOf_iff_prefix.mpr (List.prefix_append _ _)

namespace Same

theorem field_radio (h : Same c c') (radio field : String) :
    c'.field ("radio:" ++ radio) field = c.field ("radio:" ++ radio) field :=
  h "radio:" (by decide) _ field (startsWith_append _ _)

theorem field_vfo (h : Same c c') (name field : String) :
    c'.field ("vfo:" ++ name) field = c.field ("vfo:" ++ name) field :=
  h "vfo:" (by decide) _ field (startsWith_append _ _)

theorem refs (h : Same c c') (radio : String) (group : Group) :
    RadioConfig.refs c' radio group = RadioConfig.refs c radio group := by
  unfold RadioConfig.refs
  rw [h.field_radio]

theorem vfoNames (h : Same c c') (radio : String) :
    RadioConfig.vfoNames c' radio = RadioConfig.vfoNames c radio := by
  unfold RadioConfig.vfoNames
  rw [h.field_radio]

theorem slotOf (h : Same c c') (name : String) : RadioConfig.slotOf c' name = RadioConfig.slotOf c name := by
  unfold RadioConfig.slotOf
  rw [h.field_vfo]

theorem members (h : Same c c') (radio : String) : RadioConfig.members c' radio = RadioConfig.members c radio := by
  unfold RadioConfig.members
  rw [h.field_radio]
  refine List.filterMap_congr fun name _ => ?_
  rw [h.slotOf, h.field_vfo]

theorem uses (h : Same c c') {radio id : String} (hid : Uses c' radio id) : Uses c radio id := by
  obtain ⟨group, hid⟩ | ⟨name, hname, rfl⟩ := hid
  · exact Or.inl ⟨group, h.refs radio group ▸ hid⟩
  · exact Or.inr ⟨name, h.vfoNames radio ▸ hname, rfl⟩

theorem ofKind (h : Same c c') {group : Group} {id : String} (hkind : OfKind limits c group id) :
    OfKind limits c' group id := by
  cases hkind with
  | dummy name kind => exact .dummy name ((h "dummy:" (by decide) id _ name).trans kind)
  | si5351 fits name bus => exact .si5351 fits name (by rw [h "si5351:" (by decide) id _ name]; exact bus)
  | gpio fits name chip offset =>
      refine .gpio fits name ?_ ?_
      · rw [h "gpio:" (by decide) id _ name]
        exact chip
      · rw [h "gpio:" (by decide) id _ name]
        exact offset
  | @legacy head fits name index =>
      have hhead : ∀ group : Group, ∀ head, group.legacy = some head → head ∈ sectionHeads := by
        intro group head hlegacy
        cases group
        all_goals simp only [Group.legacy, Option.some.injEq, reduceCtorEq] at hlegacy
        all_goals subst hlegacy; decide
      exact .legacy fits name (by rw [h head (hhead group head fits) id _ name]; exact index)

theorem vfoFits (h : Same c c') {name : String} (hfits : VfoFits c radio' name) : VfoFits c' radio' name where
  slot := by
    rw [h.slotOf]
    exact hfits.slot
  oscillator := by
    intro osc hosc hne
    rw [h.refs]
    exact hfits.oscillator osc ((h.field_vfo _ _).symm.trans hosc) hne

theorem composed (h : Same c c') (hcomposed : Composed c out radio') : Composed c' out radio' where
  nodup := by rw [h.members]; exact hcomposed.nodup
  nonempty := by rw [h.members]; exact hcomposed.nonempty
  listed := by rw [h.members]; exact hcomposed.listed
  titled := by rw [h.members]; exact hcomposed.titled

end Same

/-- The radios of a composition that was accepted. -/
def rigs (c : Config) : List String := tokens ((c.get "rig.instances").getD "")

/-- An exclusive composition of what there is. -/
structure Composition (limits : Limits) (c : Config) : Prop where
  exclusive : ∀ radio ∈ rigs c, ∀ radio' ∈ rigs c, ∀ id, Uses c radio id → Uses c radio' id → radio = radio'
  kind : ∀ radio ∈ rigs c, ∀ group, ∀ id ∈ tokens (refs c radio group), OfKind limits c group id
  vfo : ∀ radio ∈ rigs c, ∀ name ∈ vfoNames c radio, VfoFits c radio name
  bound : ∀ radio ∈ rigs c, ∀ group : Group,
    c.cfg.get? (rigKey radio ("bind." ++ group.name)) = some (refs c radio group)
  composed : ∀ radio ∈ rigs c, Composed c c.cfg radio
  default : ∃ radio ∈ rigs c, c.get "rig.default" = some radio

/-- What the loop over the radios leaves. -/
theorem prepareRadios_bound {names seen : List String}
    (h : names.foldlM (prepareRadio limits c) (⟨c.cfg, .empty⟩, []) = some (d, seen)) :
    seen = names ∧ (∀ radio ∈ names, aliasValid radio = true ∧ Bound limits c d radio ∧ Composed c d.out radio) ∧
      Spares c.cfg d.out := by
  have hpassed := Lib.foldlM_passed (P := fun done (st : Draft × List String) =>
      st.2 = done ∧ (∀ radio ∈ done, aliasValid radio = true ∧ Bound limits c st.1 radio ∧
        Composed c st.1.out radio) ∧ Spares c.cfg st.1.out) h
    ⟨rfl, (fun _ h => nomatch h), Spares.refl _⟩ ?_
  · exact hpassed
  · rintro done radio ⟨t, seen⟩ ⟨t', seen'⟩ - ⟨hseen, hall, hspares⟩ hpass
    obtain ⟨hvalid, hnew, rfl, hcomposed, hwithin⟩ := prepareRadio_spec hpass
    obtain ⟨hbound, howners, hout⟩ := prepareRadio_bound hpass
    obtain rfl : seen = done := hseen
    refine ⟨rfl, fun x hx => ?_, hspares.trans hout⟩
    rcases List.mem_append.mp hx with hx | hx
    · obtain ⟨hxvalid, hxbound, hxcomposed⟩ := hall x hx
      have hkept : ∀ key, t'.out.get? (rigKey x key) = t.out.get? (rigKey x key) := by
        intro key
        refine hwithin x key hxvalid fun heq => ?_
        exact hnew (heq ▸ hx)
      exact ⟨hxvalid, hxbound.kept howners hkept, hxcomposed.of_same hkept⟩
    · rw [List.mem_singleton.mp hx]
      exact ⟨hvalid, hbound, hcomposed⟩

theorem prepare_composition (h : prepare limits c = some c') (hradios : radios c ≠ []) :
    Composition limits c' ∧ rigs c' = radios c := by
  unfold prepare at h
  unfold radios at hradios ⊢
  split at h
  · rename_i hnone
    rw [hnone] at hradios
    exact absurd (by simp [tokens, strsplit]) hradios
  rename_i list hlist
  rw [hlist, Option.getD_some] at hradios ⊢
  split at h
  · rename_i hempty
    rw [hempty] at hradios
    exact absurd (by simp [tokens, strsplit]) hradios
  split at h
  · exact absurd h (by simp)
  rename_i t seen hloop
  split at h
  · exact absurd h (by simp)
  rename_i dflt _
  split at h
  · exact absurd h (by simp)
  rename_i hdefault
  obtain rfl := Option.some.inj h
  obtain ⟨rfl, hall, hspares⟩ := prepareRadios_bound hloop
  have hnames : ∀ key ∈ ["rig.instances", "rig.default"], ¬ Aside key := by
    intro key hkey haside
    have hrig : ∀ key ∈ ["rig.instances", "rig.default"], key.toList.take 3 = ['r', 'i', 'g'] := by decide
    exact haside.1 (hrig key hkey)
  have hsame : Same c ⟨(t.out.add "rig.instances" list).add "rig.default" dflt, c.defaults⟩ :=
    same_of_spares (hspares.trans ((spares_add (hnames _ (by simp)) _).trans (spares_add (hnames _ (by simp)) _))) rfl
  have hkept : ∀ radio key, ((t.out.add "rig.instances" list).add "rig.default" dflt).get? (rigKey radio key) =
      t.out.get? (rigKey radio key) := by
    intro radio key
    rw [Dict.get?_add, if_neg (rigKey_ne (by decide)), Dict.get?_add, if_neg (rigKey_ne (by decide))]
  have hrigs : rigs ⟨(t.out.add "rig.instances" list).add "rig.default" dflt, c.defaults⟩ = tokens list := by
    unfold rigs Config.get
    rw [Dict.get?_add, if_neg (by decide), Dict.get?_add, if_pos rfl]
    rfl
  refine ⟨?_, hrigs⟩
  constructor
  · rw [hrigs]
    intro radio hradio radio' hradio' id huses huses'
    have hfirst := (hall radio hradio).2.1.owner (hsame.uses huses)
    have hsecond := (hall radio' hradio').2.1.owner (hsame.uses huses')
    exact Option.some.inj (hfirst.symm.trans hsecond)
  · rw [hrigs]
    intro radio hradio group id hid
    rw [hsame.refs] at hid
    exact hsame.ofKind (((hall radio hradio).2.1.group group).kind id hid)
  · rw [hrigs]
    intro radio hradio name hname
    rw [hsame.vfoNames] at hname
    exact hsame.vfoFits ((hall radio hradio).2.1.vfo name hname)
  · rw [hrigs]
    intro radio hradio group
    rw [hkept, hsame.refs]
    exact ((hall radio hradio).2.1.group group).bound
  · rw [hrigs]
    intro radio hradio
    exact hsame.composed ((hall radio hradio).2.2.of_same (hkept radio))
  · rw [hrigs]
    refine ⟨dflt, by simpa using hdefault, ?_⟩
    unfold Config.get
    rw [Dict.get?_add, if_pos rfl]
    rfl

/-- Without a list of radios nothing is composed; a list of none is no list to accept. -/
theorem prepare_of_nil (h : prepare limits c = some c') (hradios : radios c = []) : c' = c := by
  unfold prepare at h
  unfold radios at hradios
  split at h
  · exact (Option.some.inj h).symm
  rename_i list hlist
  rw [hlist, Option.getD_some] at hradios
  split at h
  · exact (Option.some.inj h).symm
  rw [hradios] at h
  simp only [List.foldlM_nil, Option.pure_def] at h
  split at h
  · exact absurd h (by simp)
  · exact absurd h (by simp)

/-- **A composition is exclusive, or nothing has changed.**  No section is used by two radios, what is
named is there and of the right kind, and the settings of the rigs say so; without a list of radios,
and where anything is wrong, the configuration is the one that there was. -/
theorem prepare_atomic (limits : Limits) (c : Config) :
    ((prepareConfig limits c).1 = true ∧
      (radios c ≠ [] → Composition limits (prepareConfig limits c).2 ∧
        rigs (prepareConfig limits c).2 = radios c) ∧
      (radios c = [] → (prepareConfig limits c).2 = c)) ∨
    ((prepareConfig limits c).1 = false ∧ (prepareConfig limits c).2 = c) := by
  unfold prepareConfig
  cases hprepare : prepare limits c with
  | none => exact Or.inr ⟨rfl, rfl⟩
  | some c' =>
      exact Or.inl ⟨rfl, fun hradios => prepare_composition hprepare hradios,
        fun hradios => prepare_of_nil hprepare hradios⟩

end RadioConfig

end RustyRig
