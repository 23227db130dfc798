/-
Who stands under a server's UUID.

Nodes, rigs and VFOs have their UUIDs for keys, and a rig may have any UUID its owner gives
it.  So a server that announces a rig under the UUID of another server before that one
announces its node keeps the node out: a UUID is no room, and nobody displaces its holder.
As long as nobody does that, only the server itself ever stands under its UUID.
-/
import RustyRig.Lib.Along
import RustyRig.Proofs.Catalog.Ownership

namespace RustyRig

namespace Catalog

variable {api : Api} {s : Store} {id : String} {d : Dict}

/-- Whoever stands under the UUID of a server is that server. -/
def Unsquatted (id : String) (s : Store) : Prop := ∀ c ∈ s.entries, c.key = id → c.owner = id

/-- The descriptors an event puts, with their owners. -/
def CatalogEvent.puts : CatalogEvent api → List (String × Dict)
  | .put _ _ owner d => [(owner.id, d)]
  | .collect _ _ steps | .refresh _ _ steps =>
      (steps.getD []).filterMap fun
        | .put _ d => some (api.self.id, d)
        | .rig .. => none
  | _ => []

/-- While its key is free, nobody but the server puts a descriptor under its UUID. -/
def LeavesFree (node : Origin api.uuid) (s : Store) (event : CatalogEvent api) : Prop :=
  findCatalog s.entries node.id = none →
    ∀ x ∈ event.puts, x.1 ≠ node.id → x.2.get? "object.uuid" ≠ some node.id

/-- A UUID is a key of its own kind. -/
theorem KeyOf.uuid_of_valid {owner key : String} (h : KeyOf api owner d key)
    (hvalid : api.uuid.valid key = true) : d.get? "object.uuid" = some key := by
  cases h with
  | service _ hprefix =>
      refine absurd ?_ (api.no_colon key hvalid)
      obtain ⟨rest, hrest⟩ := hprefix
      rw [← hrest, servicePrefix, String.toList_append]
      exact List.mem_append_left _ (List.mem_append_right _ (by decide))
  | uuid hget _ => exact hget
  | room _ =>
      refine absurd ?_ (uuid_not_room hvalid)
      exact lower_of_isRoomKey (isRoomKey_roomKey _)

theorem not_isRoomKey_of_valid (hvalid : api.uuid.valid id = true) : isRoomKey id = false :=
  Bool.eq_false_iff.mpr fun hroom => uuid_not_room hvalid (lower_of_isRoomKey hroom)

/-- Changes that keep keys and owners. -/
theorem Unsquatted.recast {l : List CatalogEntry} (h : Unsquatted id s)
    (hf : List.Forall₂ Recast s.entries l) (count : Nat) (ids : Identity.Receiver) :
    Unsquatted id ⟨l, count, ids⟩ := by
  intro y hy hyid
  obtain ⟨x, hx, hk, ho⟩ := Lib.exists_of_mem_forall₂ hf hy
  rw [ho]
  exact h x hx (hk.symm.trans hyid)

theorem Unsquatted.sublist {s' : Store} (h : Unsquatted id s)
    (hsub : s'.entries.Sublist s.entries) : Unsquatted id s' :=
  fun c hc => h c (hsub.subset hc)

/-- A put under the free UUID of a server comes from that server. -/
theorem put_unsquatted (h : Unsquatted id s) (hvalid : api.uuid.valid id = true) (site : Site)
    (a : Answers) (collecting : Bool) (owner : Origin api.uuid)
    (hfree : findCatalog s.entries id = none → owner.id ≠ id → d.get? "object.uuid" ≠ some id) :
    Unsquatted id (catalogPut api site a collecting s owner d).2 := by
  rcases catalogPut_cases api site a collecting s owner d with
    ⟨-, hentries, -⟩ | ⟨key, copy, ids, hkey, ⟨hnone, -, hyes⟩ | ⟨c, -, -, hyes⟩ |
      ⟨c, -, -, hmay, -, hyes⟩⟩
  · intro c hc
    rw [hentries] at hc
    exact h c hc
  · rw [hyes]
    intro c hc hcid
    rcases List.mem_cons.mp hc with rfl | hc
    · subst hcid
      by_contra hne
      exact hfree hnone hne (hkey.uuid_of_valid hvalid)
    · exact h c hc hcid
  · -- the owner's own entry keeps its key
    have hf : List.Forall₂ Recast s.entries (Lib.changeFirst (·.answers key)
        (fun c => { c with descriptor := copy, seen := true }) s.entries) :=
      Lib.forall₂_changeFirst (fun x _ => Recast.refl x) fun _ _ _ => ⟨rfl, rfl⟩
    rw [hyes]
    exact h.recast hf s.count ids
  · -- only a room's entry is displaced
    have hf : List.Forall₂ (fun x y : CatalogEntry => Recast x y ∨ y = ⟨owner.id, key, copy, true⟩)
        s.entries (Lib.changeFirst (·.answers key) (fun _ => ⟨owner.id, key, copy, true⟩)
          s.entries) :=
      Lib.forall₂_changeFirst (fun x _ => .inl (Recast.refl x)) fun _ _ _ => .inr rfl
    rw [hyes]
    intro y hy hyid
    obtain ⟨x, hx, hrecast | rfl⟩ := Lib.exists_of_mem_forall₂ hf hy
    · rw [hrecast.2]
      exact h x hx (hrecast.1.symm.trans hyid)
    · obtain ⟨_, -, hnouuid, -⟩ := mayReplace_spec hmay
      subst hyid
      rw [hkey.uuid_of_valid hvalid] at hnouuid
      exact absurd hnouuid (by simp)

/-- What a collector does leaves the UUID to its server. -/
theorem collectLocal_unsquatted (h : Unsquatted id s) (horder : Orderly api s)
    (hvalid : api.uuid.valid id = true) (site : Site) (answers : String → Answers)
    (steps : Option (List Collected))
    (hfree : findCatalog s.entries id = none → ∀ a d, Collected.put a d ∈ steps.getD [] →
      api.self.id ≠ id → d.get? "object.uuid" ≠ some id) :
    Unsquatted id (collectLocal api site answers s steps) := by
  cases steps with
  | none => exact h
  | some steps =>
      have hfold : Unsquatted id (steps.foldl (collect api site) s) := by
        induction steps generalizing s with
        | nil => exact h
        | cons x steps ih =>
            obtain ⟨horder', hkept⟩ := collect_spec horder site x
            refine ih ?_ horder' fun hnone a d hmem => ?_
            · cases x with
              | put a d =>
                  exact put_unsquatted h hvalid site a true api.self fun hnone =>
                    hfree hnone a d List.mem_cons_self
              | rig rigId backend name location model =>
                  have hf : List.Forall₂ Recast s.entries (Lib.changeFirst (·.answers rigId)
                      (fun c => { c with
                        descriptor := describeRig backend name location model c.descriptor })
                      s.entries) :=
                    Lib.forall₂_changeFirst (fun x _ => Recast.refl x) fun _ _ _ => ⟨rfl, rfl⟩
                  exact h.recast hf s.count s.ids
            · -- what is free now was free before
              refine hfree ?_ a d (List.mem_cons_of_mem _ hmem)
              cases hfind : findCatalog s.entries id with
              | none => rfl
              | some e =>
                  obtain ⟨e', he', -⟩ := hkept id e hfind
                  rw [hnone] at he'
                  exact absurd he' (by simp)
      exact hfold.recast (finalize_recast api site answers _ _) _ _

/-- **One event** that leaves the free key of a server to that server. -/
theorem step_unsquatted {node : Origin api.uuid} {event : CatalogEvent api}
    (h : Unsquatted node.id s) (horder : Orderly api s) (hfree : LeavesFree node s event) :
    Unsquatted node.id (s.step api event) := by
  have hcollected : ∀ steps : Option (List Collected),
      (∀ a d, Collected.put a d ∈ steps.getD [] → (api.self.id, d) ∈
        (steps.getD []).filterMap fun
          | .put _ d => some (api.self.id, d)
          | .rig .. => none) := by
    intro steps a d hmem
    exact List.mem_filterMap.mpr ⟨_, hmem, rfl⟩
  cases event with
  | put site a owner d =>
      exact put_unsquatted h node.valid site a false owner fun hnone =>
        hfree hnone (owner.id, d) (List.mem_singleton_self _)
  | collect site answers steps =>
      refine collectLocal_unsquatted h horder node.valid site answers steps fun hnone a d hmem => ?_
      exact hfree hnone (api.self.id, d) (hcollected steps a d hmem)
  | refresh site answers steps =>
      have hunseen : List.Forall₂ Recast s.entries (s.entries.map fun c =>
          if c.owner = api.self.id then { c with seen := false } else c) := by
        refine List.forall₂_map_right_iff.mpr (List.forall₂_same.mpr fun c _ => ?_)
        split <;> exact ⟨rfl, rfl⟩
      have hlocal := collectLocal_unsquatted (h.recast hunseen s.count s.ids)
        (horder.recast s.ids hunseen) node.valid site answers steps fun hnone a d hmem => by
          refine hfree ?_ (api.self.id, d) (hcollected steps a d hmem)
          cases hfind : findCatalog s.entries node.id with
          | none => rfl
          | some e =>
              obtain ⟨e', he', -⟩ := Kept.recast hunseen node.id e hfind
              exact absurd (hnone.symm.trans he') (by simp)
      exact hlocal.sublist List.filter_sublist
  | snapshot route forceSigned dest => exact h
  | remove site pin fresh origin d => exact h.sublist (remove_spec horder site pin fresh origin d).2
  | lost route => exact h.sublist List.filter_sublist
  | fini => exact h.sublist (List.nil_sublist _)

/-! ### The node's put -/

/-- An object's key is its UUID; neither a bad descriptor nor a bad service is rejected for the
room's sake. -/
theorem catalogKey_of_uuid (entries : List CatalogEntry) (owner : String)
    (huuid : d.get? "object.uuid" = some id) (hvalid : api.uuid.valid id = true) :
    catalogKey api entries owner d = .ok id ∨
      ∃ why, catalogKey api entries owner d = .error why ∧ why ≠ .roomAuth := by
  have hremote : checkRemote api entries owner d ≠ .roomAuth := by
    simp only [checkRemote, huuid]
    split
    · exact fun habs => nomatch habs
    · unfold checkObject
      dsimp only
      repeat' split
      all_goals exact fun habs => nomatch habs
  have hservice : ∀ service, checkService entries owner service d ≠ .ok ∧
      checkService entries owner service d ≠ .roomAuth := by
    intro service
    simp only [checkService, huuid, Option.isSome_some, Bool.true_or, if_true]
    split
    · exact ⟨(fun habs => nomatch habs), (fun habs => nomatch habs)⟩
    split
    · exact ⟨(fun habs => nomatch habs), (fun habs => nomatch habs)⟩
    · exact ⟨(fun habs => nomatch habs), (fun habs => nomatch habs)⟩
  unfold catalogKey
  split
  · exact .inr ⟨_, rfl, hremote⟩
  cases hget : d.get? "catalog.service" with
  | some service =>
      simp only
      rw [if_pos (hservice service).1]
      exact .inr ⟨_, rfl, (hservice service).2⟩
  | none =>
      simp only [huuid, Option.filter_some, hvalid, if_true]
      exact .inl trivial

/-- Under a UUID that only its server stands under, the server's put finds its own entry or
none. -/
theorem catalogPut_ne_roomAuth {node : Origin api.uuid} (h : Unsquatted node.id s) (site : Site)
    (a : Answers) (collecting : Bool) (huuid : d.get? "object.uuid" = some node.id) :
    (catalogPut api site a collecting s node d).1 ≠ .roomAuth := by
  unfold catalogPut
  split
  · exact fun habs => nomatch habs
  rcases catalogKey_of_uuid s.entries node.id huuid node.valid with
    hkey | ⟨why, hkey, hwhy⟩
  · have hholder : ((findCatalog s.entries node.id).map (·.owner)).any (· != node.id) = false := by
      cases hfind : findCatalog s.entries node.id with
      | none => rfl
      | some c =>
          have hown := h c (findCatalog_mem hfind)
            (key_eq_of_not_room (not_isRoomKey_of_valid node.valid) (findCatalog_answers hfind))
          simp [hown]
    rw [hkey]
    simp only [putUnder, hholder, Bool.false_and, Bool.false_eq_true, if_false]
    cases hadmit : admitCopy api site a collecting s.ids node.id node.id d with
    | mk sealed ids =>
        cases sealed with
        | error why =>
            rcases admitCopy_error hadmit with rfl | rfl
            · exact fun habs => nomatch habs
            · exact fun habs => nomatch habs
        | ok copy =>
            dsimp only
            repeat' split
            all_goals exact fun habs => nomatch habs
  · rw [hkey]
    exact hwhy

/-- **A server's own UUID stays open to it.**  In a run in which nobody else ever puts a
descriptor under the UUID of a server while that key is free, the server's descriptor under its
UUID is never rejected because somebody else stands there. -/
theorem node_admitted (api : Api) (ids : Identity.Receiver) (node : Origin api.uuid)
    (events : List (CatalogEvent api))
    (h : Lib.Along (Store.step api) (LeavesFree node) (Store.start ids) events) (site : Site)
    (a : Answers) (collecting : Bool) (d : Dict) (huuid : d.get? "object.uuid" = some node.id) :
    (catalogPut api site a collecting ((Store.start ids).run api events) node d).1 ≠ .roomAuth := by
  refine catalogPut_ne_roomAuth ?_ site a collecting huuid
  have hinv := h.invariant (P := fun s => Unsquatted node.id s ∧ Orderly api s)
    ⟨fun c hc => absurd hc List.not_mem_nil, Orderly.start api ids⟩
    fun s e hs he => ⟨step_unsquatted hs.1 hs.2 he, (step_spec hs.2 e).1⟩
  exact hinv.1

/-- A third server. -/
def exampleNode : Origin UuidFormat.hex :=
  ⟨"33333333-3333-3333-3333-333333333333", by decide +kernel⟩

/-- Its node, signed. -/
def exampleNodeEntry : Dict :=
  (stamp exampleSite exampleNode.id "key" (((Dict.empty.add "object.type" "node").add
    "object.uuid" exampleNode.id).add "identity.signature" "signature")).add "identity.revision" "1"

/-- Another server's node. -/
def exampleNeighbour : List (CatalogEvent exampleApi) :=
  [.put exampleSite exampleAnswers exampleOrigin
    (exampleSigned ((Dict.empty.add "object.type" "node").add "object.uuid" exampleOrigin.id))]

/-- Beside it the third server is admitted. -/
theorem node_admitted_beside :
    (catalogPut exampleApi exampleSite exampleAnswers false
      ((Store.start ⟨fun _ => none, fun _ => none⟩).run exampleApi exampleNeighbour) exampleNode
        exampleNodeEntry).1 ≠ .roomAuth := by
  have hfree : Lib.Along (Store.step exampleApi) (LeavesFree exampleNode)
      (Store.start ⟨fun _ => none, fun _ => none⟩) exampleNeighbour := by
    refine ⟨fun _ x hx _ => ?_, trivial⟩
    rw [List.mem_singleton.mp hx]
    decide
  exact node_admitted exampleApi _ exampleNode exampleNeighbour hfree exampleSite exampleAnswers
    false exampleNodeEntry (by decide)

/-- A server announces a rig of its own under the UUID of another one, which is kept out from
then on. -/
theorem node_squatted :
    ¬ ∀ (api : Api) ids (events : List (CatalogEvent api)) (node : Origin api.uuid) site a d,
      d.get "object.type" "" = "node" → d.get? "object.uuid" = some node.id →
      signedRight api site node.id "catalog-upsert" d = true →
      (catalogPut api site a false ((Store.start ids).run api events) node d).1 ≠ .roomAuth := by
  intro h
  refine h exampleApi ⟨fun _ => none, fun _ => none⟩
    [.put exampleSite exampleAnswers exampleOrigin
      (exampleSigned (((Dict.empty.add "object.type" "rig").add "object.uuid" exampleNode.id).add
        "object.owner" exampleOrigin.id))]
    exampleNode exampleSite exampleAnswers exampleNodeEntry (by decide) (by decide)
    (by decide +kernel) ?_
  decide +kernel

end Catalog

end RustyRig
