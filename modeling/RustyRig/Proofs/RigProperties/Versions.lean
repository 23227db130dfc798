/-
Versions over whole runs.

Every call is one of a few moves: nothing happens, a store is redefined, one property of
one store is stamped, a VFO comes with an empty store, or a VFO goes with its store.
`Kept` is what the moves keep; the last section says what a client sees of it.

A VFO that is removed and added again has a store of its own, which starts at zero.
-/
import RustyRig.Proofs.RigProperties.Store

namespace RustyRig

namespace ServerRig

variable {r : ServerRig} {owner : StoreKey} {s s' : Store} {h : Nat}

theorem store_some (hn : (r.vfos.map ServerVfo.handle).Nodup) :
    r.store? (some h) = some s ↔ ∃ v ∈ r.vfos, v.handle = h ∧ v.store = s := by
  show (r.vfos.find? (·.handle == h)).map ServerVfo.store = some s ↔ _
  rw [Option.map_eq_some_iff]
  constructor
  · rintro ⟨v, hv, hs⟩
    have hhandle := List.find?_some hv
    exact ⟨v, List.mem_of_find?_eq_some hv, beq_iff_eq.mp hhandle, hs⟩
  · rintro ⟨v, hv, hhandle, hs⟩
    obtain ⟨u, hu⟩ : ∃ u, r.vfos.find? (·.handle == h) = some u := by
      rw [← Option.isSome_iff_exists, List.find?_isSome]
      exact ⟨v, hv, beq_iff_eq.mpr hhandle⟩
    have huh := List.find?_some hu
    have heq : u = v := List.inj_on_of_nodup_map hn (List.mem_of_find?_eq_some hu) hv
      ((beq_iff_eq.mp huh).trans hhandle.symm)
    exact ⟨u, hu, by rw [heq, hs]⟩

/-- Writing one store leaves the others alone. -/
theorem store_withStore (hat : r.store? owner = some s) (k : StoreKey) :
    (r.withStore owner s').store? k = if k = owner then some s' else r.store? k := by
  cases owner with
  | none =>
      cases k with
      | none => rfl
      | some h => rfl
  | some g =>
      cases k with
      | none => rfl
      | some h =>
          show ((r.vfos.map _).find? (·.handle == h)).map ServerVfo.store = _
          have hcomp : ((fun v : ServerVfo => v.handle == h) ∘ fun v =>
              if v.handle = g then { v with store := s' } else v) = fun v => v.handle == h := by
            funext v
            show ((if v.handle = g then { v with store := s' } else v : ServerVfo).handle == h) = _
            by_cases hv : v.handle = g
            · rw [if_pos hv]
            · rw [if_neg hv]
          rw [List.find?_map, hcomp, Option.map_map]
          by_cases hk : h = g
          · subst hk
            obtain ⟨v, hv, -⟩ := Option.map_eq_some_iff.mp hat
            have hhandle := List.find?_some hv
            rw [if_pos rfl, hv]
            show some (if v.handle = h then { v with store := s' } else v : ServerVfo).store = _
            rw [if_pos (beq_iff_eq.mp hhandle)]
          · rw [if_neg fun he => hk (Option.some.inj he)]
            show _ = (r.vfos.find? (·.handle == h)).map ServerVfo.store
            cases hv : r.vfos.find? (·.handle == h) with
            | none => rfl
            | some v =>
                have hhandle := List.find?_some hv
                show some (if v.handle = g then { v with store := s' } else v : ServerVfo).store = _
                rw [if_neg fun he => hk ((beq_iff_eq.mp hhandle).symm.trans he)]
                rfl

/-- Writing back what is there. -/
theorem withStore_self (hn : (r.vfos.map ServerVfo.handle).Nodup) (hat : r.store? owner = some s) :
    r.withStore owner s = r := by
  cases owner with
  | none => rw [← Option.some.inj hat]; rfl
  | some g =>
      obtain ⟨u, hu, hhandle, hs⟩ := (store_some hn).mp hat
      have hmap : (r.vfos.map fun v => if v.handle = g then { v with store := s } else v) = r.vfos := by
        conv => rhs; rw [← List.map_id r.vfos]
        refine List.map_congr_left fun v hv => ?_
        by_cases hvg : v.handle = g
        · have heq : v = u := List.inj_on_of_nodup_map hn hv hu (hvg.trans hhandle.symm)
          rw [if_pos hvg, ← hs, heq]
          rfl
        · rw [if_neg hvg]
          rfl
      show { r with vfos := r.vfos.map _ } = r
      rw [hmap]

theorem handles_withStore :
    (r.withStore owner s).vfos.map ServerVfo.handle = r.vfos.map ServerVfo.handle := by
  cases owner with
  | none => rfl
  | some g =>
      show (r.vfos.map _).map ServerVfo.handle = _
      rw [List.map_map]
      refine List.map_congr_left fun v _ => ?_
      show (if v.handle = g then { v with store := s } else v : ServerVfo).handle = v.handle
      by_cases hv : v.handle = g
      · rw [if_pos hv]
      · rw [if_neg hv]

end ServerRig

namespace RigWorld

open Store ServerRig

variable {w w' : RigWorld} {reply : Reply}

/-- What a call can do. -/
inductive Moved (w : RigWorld) : RigWorld → Reply → Prop
  | error : Moved w w .error
  | unchanged : Moved w w .unchanged
  | redefined {w' : RigWorld} {owner : StoreKey} {s s' : Store} (found : w.rig.store? owner = some s)
      (rig : w'.rig = w.rig.withStore owner s') (done : s.Redefined s') (sound : s.Sound → s'.Sound)
      (notices : w'.notices = .schema owner :: w.notices) (made : w'.made = w.made)
      (assigned : w'.assigned = w.assigned) : Moved w w' .done
  | changed {w' : RigWorld} {owner : StoreKey} {name : String} {s s' : Store}
      (found : w.rig.store? owner = some s) (rig : w'.rig = w.rig.withStore owner s')
      (done : s.Changed name s') (sound : s.Sound → s'.Sound) (made : w'.made = w.made)
      (assigned : w'.assigned = ⟨owner, name, s'.version⟩ :: w.assigned) : Moved w w' .changed
  | added {w' : RigWorld} (v : ServerVfo) (handle : v.handle = w.made) (empty : v.store = .empty)
      (store : w'.rig.store = w.rig.store) (vfos : w'.rig.vfos = v :: w.rig.vfos)
      (notices : w'.notices = .added v.id :: w.notices) (made : w'.made = w.made + 1)
      (assigned : w'.assigned = w.assigned) : Moved w w' .done
  | removed {w' : RigWorld} (uuid : String) (store : w'.rig.store = w.rig.store)
      (vfos : w'.rig.vfos.Sublist w.rig.vfos) (notices : w'.notices = .removed uuid :: w.notices)
      (made : w'.made = w.made) (assigned : w'.assigned = w.assigned) : Moved w w' .done

/-- What the moves keep. -/
structure Kept (w : RigWorld) : Prop where
  handles : (w.rig.vfos.map ServerVfo.handle).Nodup
  made : ∀ h ∈ w.rig.vfos.map ServerVfo.handle, h < w.made
  sound : ∀ owner s, w.rig.store? owner = some s → s.Sound
  /-- No version of a store was given out ahead of it. -/
  ahead : ∀ a ∈ w.assigned, ∀ s, w.rig.store? a.owner = some s → a.version ≤ s.version
  /-- Nor to a VFO that is not made yet. -/
  owner : ∀ a ∈ w.assigned, ∀ h, a.owner = some h → h < w.made
  /-- Versions of one store were given out in order. -/
  order : w.assigned.Pairwise fun a b => a.owner = b.owner → b.version < a.version

/-! ### The moves of the calls

A call on the rig goes to the store `locate` names, a call on a VFO to that VFO's.
-/

theorem moved_replace (owner : StoreKey) (f : Store → Option Store)
    (hf : ∀ s s', f s = some s' → s.Redefined s' ∧ (s.Sound → s'.Sound)) :
    Moved w (w.replaceStore owner f).1 (w.replaceStore owner f).2 := by
  unfold replaceStore
  cases hs : (w.rig.store? owner).bind f with
  | none => exact .error
  | some s' =>
      obtain ⟨s, hat, hfs⟩ := Option.bind_eq_some_iff.mp hs
      exact .redefined hat rfl (hf s s' hfs).1 (hf s s' hfs).2 rfl rfl rfl

theorem moved_update (hk : Kept w) (owner : StoreKey) (name : String) (told : Bool)
    (f : Store → Update × Store) (hf : ∀ s, Updated s name (f s)) :
    Moved w (w.updateStore owner name told f).1 (w.updateStore owner name told f).2 := by
  unfold updateStore
  cases hat : w.rig.store? owner with
  | none => exact .error
  | some s =>
      dsimp only
      have hself := withStore_self hk.handles hat
      have hw : { w with rig := w.rig } = w := rfl
      have hu := hf s
      generalize f s = answer at hu
      cases hu with
      | error =>
          rw [hself, hw]
          exact .error
      | unchanged =>
          rw [hself, hw]
          exact .unchanged
      | changed s' done sound =>
          obtain ⟨p, hp, hversion⟩ := done.stamped
          dsimp only
          rw [hp]
          cases told with
          | false => exact .changed hat rfl done sound rfl (by rw [← hversion]; rfl)
          | true => exact .changed hat rfl done sound rfl (by rw [← hversion]; rfl)

theorem moved_vfoAdd (uuid aliasName nativeId : String) (lifecycle : Lifecycle) (room : Bool) :
    Moved w (w.vfoAdd uuid aliasName nativeId lifecycle room).1
      (w.vfoAdd uuid aliasName nativeId lifecycle room).2 := by
  unfold vfoAdd
  split
  · exact .error
  · exact .added ⟨w.made, uuid, aliasName, nativeId, lifecycle, .empty⟩ rfl rfl rfl rfl rfl rfl rfl

theorem moved_vfoRemove (uuid : String) : Moved w (w.vfoRemove uuid).1 (w.vfoRemove uuid).2 := by
  unfold vfoRemove
  cases w.rig.findUuid uuid with
  | none => exact .error
  | some v => exact .removed v.id rfl List.eraseP_sublist rfl rfl rfl

theorem moved_step (hk : Kept w) (op : PropertyOp) : Moved w (w.step op).1 (w.step op).2 := by
  cases op with
  | rigDefine d room =>
      exact moved_replace _ _ fun s s' h => define_redefined h
  | vfoDefine vfo d room =>
      exact moved_replace _ _ fun s s' h => define_redefined h
  | vfoRedefine vfo d room =>
      exact moved_replace _ _ fun s s' h => redefine_redefined h
  | rigObserve now name value room told =>
      exact moved_update hk _ _ told _ fun s => observe_updated s now _ value room
  | vfoObserve vfo now name value room told =>
      exact moved_update hk _ _ told _ fun s => observe_updated s now _ value room
  | rigUnavailable now name told =>
      exact moved_update hk _ _ told _ fun s => unavailable_updated s now _
  | vfoUnavailable vfo now name told =>
      exact moved_update hk _ _ told _ fun s => unavailable_updated s now _
  | vfoAdd uuid aliasName nativeId lifecycle room =>
      exact moved_vfoAdd uuid aliasName nativeId lifecycle room
  | vfoRemove uuid => exact moved_vfoRemove uuid

/-! ### Where a store comes from -/

/-- A store after a move. -/
inductive Origin (w w' : RigWorld) (reply : Reply) (owner : StoreKey) (s' : Store) : Prop
  | same (found : w.rig.store? owner = some s')
  | redefined {s : Store} (found : w.rig.store? owner = some s) (done : s.Redefined s')
      (sound : s.Sound → s'.Sound) (reply : reply = .done) (assigned : w'.assigned = w.assigned)
  | changed {s : Store} {name : String} (found : w.rig.store? owner = some s)
      (done : s.Changed name s') (sound : s.Sound → s'.Sound) (reply : reply = .changed)
      (assigned : w'.assigned = ⟨owner, name, s'.version⟩ :: w.assigned)
  | new (owner : owner = some w.made) (empty : s' = .empty) (assigned : w'.assigned = w.assigned)

theorem Moved.origin (hk : Kept w) (hm : Moved w w' reply) {owner : StoreKey} {s' : Store}
    (hs : w'.rig.store? owner = some s') : Origin w w' reply owner s' := by
  cases hm with
  | error => exact .same hs
  | unchanged => exact .same hs
  | redefined found rig done sound notices made assigned =>
      rw [rig, store_withStore found] at hs
      split at hs
      · rename_i howner
        subst howner
        rw [← Option.some.inj hs]
        exact .redefined found done sound rfl assigned
      · exact .same hs
  | changed found rig done sound made assigned =>
      rw [rig, store_withStore found] at hs
      split at hs
      · rename_i howner
        subst howner
        rw [← Option.some.inj hs]
        exact .changed found done sound rfl assigned
      · exact .same hs
  | added v handle empty store vfos notices made assigned =>
      cases owner with
      | none => exact .same (by rw [← hs]; exact congrArg some store.symm)
      | some h =>
          by_cases hh : v.handle = h
          · have hfind : (v :: w.rig.vfos).find? (·.handle == h) = some v :=
              List.find?_cons_of_pos (beq_iff_eq.mpr hh)
            simp only [ServerRig.store?, vfos, hfind, Option.map_some, Option.some.injEq] at hs
            exact .new (by rw [← hh, handle]) (by rw [← hs, empty]) assigned
          · have hfind : (v :: w.rig.vfos).find? (·.handle == h) = w.rig.vfos.find? (·.handle == h) :=
              List.find?_cons_of_neg fun he => hh (beq_iff_eq.mp he)
            simp only [ServerRig.store?, vfos, hfind] at hs
            exact .same hs
  | removed uuid store vfos notices made assigned =>
      cases owner with
      | none => exact .same (by rw [← hs]; exact congrArg some store.symm)
      | some h =>
          have hnd : (w'.rig.vfos.map ServerVfo.handle).Nodup := hk.handles.sublist (vfos.map _)
          obtain ⟨v, hv, hhandle, hstore⟩ := (store_some hnd).mp hs
          exact .same ((store_some hk.handles).mpr ⟨v, vfos.subset hv, hhandle, hstore⟩)

/-! ### What the moves keep -/

theorem Origin.sound {owner : StoreKey} {s' : Store} (hk : Kept w) (ho : Origin w w' reply owner s') :
    s'.Sound := by
  cases ho with
  | same found => exact hk.sound owner s' found
  | redefined found _ sound => exact sound (hk.sound owner _ found)
  | changed found _ sound => exact sound (hk.sound owner _ found)
  | new _ empty => rw [empty]; exact sound_empty

/-- Versions given out before a change lie below the version it takes. -/
theorem below_changed (hk : Kept w) {owner : StoreKey} {name : String} {s s' : Store}
    (found : w.rig.store? owner = some s) (done : s.Changed name s') :
    ∀ a ∈ w.assigned, a.owner = owner → a.version < s'.version := by
  intro a ha howner
  have := hk.ahead a ha s (howner ▸ found)
  have := done.version
  omega

theorem Moved.kept (hk : Kept w) (hm : Moved w w' reply) : Kept w' := by
  have hsound : ∀ owner s, w'.rig.store? owner = some s → s.Sound :=
    fun owner s hs => (hm.origin hk hs).sound hk
  have hahead : ∀ a ∈ w'.assigned, ∀ s, w'.rig.store? a.owner = some s → a.version ≤ s.version := by
    intro a ha s hs
    cases hm.origin hk hs with
    | same found =>
        cases hm with
        | error => exact hk.ahead a ha s found
        | unchanged => exact hk.ahead a ha s found
        | redefined _ _ _ _ _ _ assigned => exact hk.ahead a (assigned ▸ ha) s found
        | added _ _ _ _ _ _ _ assigned => exact hk.ahead a (assigned ▸ ha) s found
        | removed _ _ _ _ _ assigned => exact hk.ahead a (assigned ▸ ha) s found
        | changed foundc rig done _ _ assigned =>
            rw [assigned] at ha
            rcases List.mem_cons.mp ha with rfl | ha
            · rw [rig, store_withStore foundc, if_pos rfl] at hs
              exact Nat.le_of_eq (congrArg Store.version (Option.some.inj hs))
            · exact hk.ahead a ha s found
    | redefined found done _ _ assigned =>
        rw [done.version]
        exact hk.ahead a (assigned ▸ ha) _ found
    | changed found done _ _ assigned =>
        rw [assigned] at ha
        rcases List.mem_cons.mp ha with heq | ha
        · exact Nat.le_of_eq (congrArg Assigned.version heq)
        · exact Nat.le_of_lt (below_changed hk found done a ha rfl)
    | new owner empty assigned =>
        exact absurd (hk.owner a (assigned ▸ ha) _ owner) (Nat.lt_irrefl _)
  cases hm with
  | error => exact hk
  | unchanged => exact hk
  | redefined _ rig _ _ _ made assigned =>
      have hhandles : w'.rig.vfos.map ServerVfo.handle = w.rig.vfos.map ServerVfo.handle := by
        rw [rig, handles_withStore]
      refine ⟨?_, ?_, hsound, hahead, ?_, ?_⟩
      · rw [hhandles]
        exact hk.handles
      · rw [hhandles, made]
        exact hk.made
      · rw [assigned, made]
        exact hk.owner
      · rw [assigned]
        exact hk.order
  | @changed w' owner name s s' found rig done _ made assigned =>
      have hhandles : w'.rig.vfos.map ServerVfo.handle = w.rig.vfos.map ServerVfo.handle := by
        rw [rig, handles_withStore]
      refine ⟨?_, ?_, hsound, hahead, ?_, ?_⟩
      · rw [hhandles]
        exact hk.handles
      · rw [hhandles, made]
        exact hk.made
      · rw [assigned, made]
        intro a ha h howner
        rcases List.mem_cons.mp ha with rfl | ha
        · subst howner
          refine hk.made h ?_
          obtain ⟨v, hv, hhandle, -⟩ := (store_some hk.handles).mp found
          exact hhandle ▸ List.mem_map_of_mem hv
        · exact hk.owner a ha h howner
      · rw [assigned]
        refine List.pairwise_cons.mpr ⟨fun a ha howner => ?_, hk.order⟩
        exact below_changed hk found done a ha howner.symm
  | added v handle empty store vfos notices made assigned =>
      refine ⟨?_, ?_, hsound, hahead, ?_, ?_⟩
      · rw [vfos, List.map_cons, List.nodup_cons]
        refine ⟨fun hmem => ?_, hk.handles⟩
        have := hk.made _ hmem
        omega
      · rw [vfos, List.map_cons, made]
        intro h hh
        rcases List.mem_cons.mp hh with rfl | hh
        · omega
        · have := hk.made h hh
          omega
      · rw [assigned, made]
        intro a ha h howner
        have := hk.owner a ha h howner
        omega
      · rw [assigned]
        exact hk.order
  | removed uuid store vfos notices made assigned =>
      have hsub := vfos.map ServerVfo.handle
      refine ⟨hk.handles.sublist hsub, ?_, hsound, hahead, ?_, ?_⟩
      · rw [made]
        exact fun h hh => hk.made h (hsub.subset hh)
      · rw [assigned, made]
        exact hk.owner
      · rw [assigned]
        exact hk.order

theorem kept_new (id name : String) : Kept (new id name) where
  handles := List.nodup_nil
  made := by simp [new]
  sound := by
    intro owner s hs
    cases owner with
    | none => exact Option.some.inj hs ▸ sound_empty
    | some h => exact absurd hs (by simp [new, ServerRig.store?])
  ahead := by simp [new]
  owner := by simp [new]
  order := .nil

theorem kept_run (hk : Kept w) (ops : List PropertyOp) : Kept (w.run ops) := by
  induction ops generalizing w with
  | nil => exact hk
  | cons op ops ih => exact ih ((moved_step hk op).kept hk)

/-! ### What a client sees -/

/-- The store, property and value an observation is about. -/
def observation (w : RigWorld) : PropertyOp → Option (StoreKey × String × Value)
  | .rigObserve _ name (some v) _ _ => some ((w.rig.locate name).1, (w.rig.locate name).2, v)
  | .vfoObserve vfo _ name (some v) _ _ => some (some vfo, name, v)
  | _ => none

/-- What the next call does to the versions. -/
structure Lawful (w : RigWorld) (op : PropertyOp) : Prop where
  /-- No store's version goes back. -/
  forward : ∀ owner s s', w.rig.store? owner = some s → (w.step op).1.rig.store? owner = some s' →
    s.version ≤ s'.version
  /-- A change stamps one property of one store, above every version that store gave out before. -/
  change : (w.step op).2 = .changed → ∃ owner name s s',
    w.rig.store? owner = some s ∧ (w.step op).1.rig.store? owner = some s' ∧ s.Changed name s' ∧
    (∀ other, other ≠ owner → (w.step op).1.rig.store? other = w.rig.store? other) ∧
    (w.step op).1.assigned = ⟨owner, name, s'.version⟩ :: w.assigned ∧
    ∀ a ∈ w.assigned, a.owner = owner → a.version < s'.version
  /-- Whatever is no change leaves values and versions alone and gives no version out. -/
  quiet : (w.step op).2 ≠ .changed → (w.step op).1.assigned = w.assigned ∧
    (∀ owner p, .changed owner p ∈ (w.step op).1.notices → .changed owner p ∈ w.notices) ∧
    ∀ owner s s', w.rig.store? owner = some s → (w.step op).1.rig.store? owner = some s' →
      s.Redefined s'
  /-- A rejected call leaves everything as it was. -/
  rejected : (w.step op).2 = .error → (w.step op).1 = w
  /-- Observing what is available changes nothing and tells nobody. -/
  equal : ∀ owner name v s p, observation w op = some (owner, name, v) →
    w.rig.store? owner = some s → s.find? name = some p → p.available = true →
    p.valuesEqual v = true → w.step op = (w, .unchanged)

theorem Moved.forward (hk : Kept w) (hm : Moved w w' reply) {owner : StoreKey} {s s' : Store}
    (hs : w.rig.store? owner = some s) (hs' : w'.rig.store? owner = some s') :
    s.version ≤ s'.version := by
  cases hm.origin hk hs' with
  | same found =>
      rw [hs] at found
      exact Nat.le_of_eq (congrArg Store.version (Option.some.inj found))
  | redefined found done =>
      rw [hs] at found
      exact Nat.le_of_eq ((congrArg Store.version (Option.some.inj found)).trans done.version.symm)
  | changed found done =>
      rw [hs] at found
      rw [Option.some.inj found, done.version]
      exact Nat.le_succ _
  | new owner =>
      subst owner
      obtain ⟨v, hv, hhandle, -⟩ := (store_some hk.handles).mp hs
      have := hk.made _ (List.mem_map_of_mem hv)
      omega

theorem Moved.quiet (hk : Kept w) (hm : Moved w w' reply) (hr : reply ≠ .changed) :
    w'.assigned = w.assigned ∧
    (∀ owner p, .changed owner p ∈ w'.notices → .changed owner p ∈ w.notices) ∧
    ∀ owner s s', w.rig.store? owner = some s → w'.rig.store? owner = some s' → s.Redefined s' := by
  have hstores : ∀ owner s s', w.rig.store? owner = some s → w'.rig.store? owner = some s' →
      s.Redefined s' := by
    intro owner s s' hs hs'
    cases hm.origin hk hs' with
    | same found =>
        rw [hs] at found
        rw [Option.some.inj found]
        exact .refl _
    | redefined found done =>
        rw [hs] at found
        rw [Option.some.inj found]
        exact done
    | changed _ _ _ reply => exact absurd reply hr
    | new owner =>
        subst owner
        obtain ⟨v, hv, hhandle, -⟩ := (store_some hk.handles).mp hs
        have := hk.made _ (List.mem_map_of_mem hv)
        omega
  cases hm with
  | error => exact ⟨rfl, fun _ _ h => h, hstores⟩
  | unchanged => exact ⟨rfl, fun _ _ h => h, hstores⟩
  | redefined _ _ _ _ notices _ assigned =>
      refine ⟨assigned, fun owner p h => ?_, hstores⟩
      rw [notices] at h
      exact (List.mem_cons.mp h).resolve_left (by simp)
  | changed => exact absurd rfl hr
  | added _ _ _ _ _ notices _ assigned =>
      refine ⟨assigned, fun owner p h => ?_, hstores⟩
      rw [notices] at h
      exact (List.mem_cons.mp h).resolve_left (by simp)
  | removed _ _ _ notices _ assigned =>
      refine ⟨assigned, fun owner p h => ?_, hstores⟩
      rw [notices] at h
      exact (List.mem_cons.mp h).resolve_left (by simp)

theorem updateStore_equal (hk : Kept w) {owner : StoreKey} {name : String} {s : Store} {p : Property}
    {v : Value} (hs : w.rig.store? owner = some s) (hp : s.find? name = some p)
    (havailable : p.available = true) (hequal : p.valuesEqual v = true) (now : Nat) (room told : Bool) :
    w.updateStore owner name told (·.observe now name (some v) room) = (w, .unchanged) := by
  have hobserve := observe_equal (hk.sound owner s hs) hp havailable hequal now room
  unfold updateStore
  rw [hs]
  dsimp only
  rw [hobserve]
  show ({ w with rig := w.rig.withStore owner s }, Reply.unchanged) = (w, .unchanged)
  rw [withStore_self hk.handles hs]

theorem lawful (hk : Kept w) (op : PropertyOp) : Lawful w op where
  forward := fun _ _ _ hs hs' => (moved_step hk op).forward hk hs hs'
  change := by
    intro hr
    have hm := moved_step hk op
    rw [hr] at hm
    generalize (w.step op).1 = w' at hm ⊢
    cases hm with
    | @changed _ owner name s s' found rig done _ made assigned =>
        refine ⟨owner, name, s, s', found, ?_, done, fun other hne => ?_, assigned,
          below_changed hk found done⟩
        · rw [rig, store_withStore found, if_pos rfl]
        · rw [rig, store_withStore found, if_neg hne]
  quiet := (moved_step hk op).quiet hk
  rejected := by
    intro hr
    have hm := moved_step hk op
    rw [hr] at hm
    generalize (w.step op).1 = w' at hm ⊢
    cases hm with
    | error => rfl
  equal := by
    intro owner name v s p hop hs hp havailable hequal
    cases op with
    | rigObserve now name' value room told =>
        cases value with
        | none => exact absurd hop (by simp [observation])
        | some v' =>
            simp only [observation, Option.some.injEq, Prod.mk.injEq] at hop
            obtain ⟨rfl, rfl, rfl⟩ := hop
            exact updateStore_equal hk hs hp havailable hequal now room told
    | vfoObserve vfo now name' value room told =>
        cases value with
        | none => exact absurd hop (by simp [observation])
        | some v' =>
            simp only [observation, Option.some.injEq, Prod.mk.injEq] at hop
            obtain ⟨rfl, rfl, rfl⟩ := hop
            exact updateStore_equal hk hs hp havailable hequal now room told
    | _ => exact absurd hop (by simp [observation])

/-- **Versions follow changes.**  After any calls on a new rig, in every store an available value
is known and was observed, the version is the largest of its properties' versions, and no two
changed properties share one; the versions a store gave out only rise; and the next call
stamps what it changes, and nothing else. -/
theorem property_store (id name : String) (ops : List PropertyOp) :
    let w := (new id name).run ops
    (∀ owner s, w.rig.store? owner = some s →
      (∀ p ∈ s.properties, p.available = true → p.known = true ∧ p.observed = true) ∧
      (s.properties.map Property.version).foldr max 0 = s.version ∧
      ∀ p ∈ s.properties, ∀ q ∈ s.properties, p.version = q.version → p.version ≠ 0 → p = q) ∧
    (w.assigned.Pairwise fun a b => a.owner = b.owner → b.version < a.version) ∧
    ∀ op, Lawful w op := by
  intro w
  have hk : Kept w := kept_run (kept_new id name) ops
  refine ⟨fun owner s hs => ?_, hk.order, lawful hk⟩
  have hsound := hk.sound owner s hs
  exact ⟨hsound.available, hsound.version_max, hsound.eq_of_version⟩

/-- The last known value of an unavailable property, observed again, is a change. -/
theorem observe_restores :
    let power : Descriptor := ⟨"power", .int, true, false, none, none, none, none, none⟩
    let w := (new "rig" "rig").run
      [.rigDefine power true, .rigObserve 1 "power" (some (.int 5)) true true,
        .rigUnavailable 2 "power" true]
    let op := PropertyOp.rigObserve 3 "power" (some (.int 5)) true true
    (w.rig.store.find? "power").map (fun p => (p.known, p.valuesEqual (.int 5), p.version)) =
        some (true, true, 2) ∧
      observation w op = some (none, "power", .int 5) ∧
      (w.step op).2 = .changed ∧ (w.step op).1.rig.store.version = 3 ∧
      (w.step op).1.notices.length = w.notices.length + 1 := by
  decide +kernel

end RigWorld

end RustyRig
