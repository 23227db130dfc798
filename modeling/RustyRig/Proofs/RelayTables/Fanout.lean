/-
Where state goes.

A neighbour gets a packet exactly when one of its subscriptions covers the change, and one only.
No neighbour subscribes to what lies behind it, and no server moves from one branch to another
without being lost in between, so no packet goes back towards the owner.
-/
import RustyRig.Proofs.RelayTables.Lost
import RustyRig.Rrserver.RelayTables

namespace RustyRig

namespace RelayTables

open Lib (Counted)
open Catalog (Api CatalogEntry)

variable {api : Api} {s s' : Tables}

/-! ### The loop over the subscriptions -/

theorem mem_nextHops {covers : Subscription → Bool} {node : String} {before rest : List Subscription} :
    node ∈ nextHops covers before rest ↔
      (∃ b ∈ rest, covers b = true ∧ b.node = node) ∧
        ∀ b ∈ before, covers b = true → b.node ≠ node := by
  induction rest generalizing before with
  | nil => simp [nextHops]
  | cons b rest ih =>
      have hlater : (∀ x ∈ before ++ [b], covers x = true → x.node ≠ node) ↔
          (∀ x ∈ before, covers x = true → x.node ≠ node) ∧ (covers b = true → b.node ≠ node) := by
        simp only [List.mem_append, List.mem_singleton, or_imp, forall_and, forall_eq]
      unfold nextHops
      by_cases hfirst : (covers b && !before.any (fun x => covers x && x.node == b.node)) = true
      · rw [if_pos hfirst, List.mem_cons, ih, hlater]
        simp only [Bool.and_eq_true, Bool.not_eq_true', List.any_eq_false, beq_iff_eq, not_and] at hfirst
        constructor
        · rintro (rfl | ⟨⟨x, hx, hcovers, hnode⟩, hbefore, -⟩)
          · exact ⟨⟨b, List.mem_cons_self, hfirst.1, rfl⟩, hfirst.2⟩
          · exact ⟨⟨x, List.mem_cons_of_mem b hx, hcovers, hnode⟩, hbefore⟩
        · rintro ⟨⟨x, hx, hcovers, hnode⟩, hbefore⟩
          by_cases hb : b.node = node
          · exact Or.inl hb.symm
          · rcases List.mem_cons.mp hx with rfl | hx
            · exact absurd hnode hb
            · exact Or.inr ⟨⟨x, hx, hcovers, hnode⟩, hbefore, fun _ => hb⟩
      · rw [if_neg hfirst, ih, hlater]
        constructor
        · rintro ⟨⟨x, hx, hcovers, hnode⟩, hbefore, -⟩
          exact ⟨⟨x, List.mem_cons_of_mem b hx, hcovers, hnode⟩, hbefore⟩
        · rintro ⟨⟨x, hx, hcovers, hnode⟩, hbefore⟩
          have hskip : covers b = true → b.node ≠ node := by
            intro hb heq
            refine hfirst ?_
            simp only [Bool.and_eq_true, Bool.not_eq_true', List.any_eq_false, beq_iff_eq, not_and]
            exact ⟨hb, fun y hy hcy => heq ▸ hbefore y hy hcy⟩
          rcases List.mem_cons.mp hx with rfl | hx
          · exact absurd hnode (hskip hcovers)
          · exact ⟨⟨x, hx, hcovers, hnode⟩, hbefore, hskip⟩

/-- What came before is not sent to again. -/
theorem nodup_nextHops {covers : Subscription → Bool} (before rest : List Subscription) :
    (nextHops covers before rest).Nodup := by
  induction rest generalizing before with
  | nil => exact List.nodup_nil
  | cons b rest ih =>
      unfold nextHops
      split
      · rename_i hfirst
        refine List.nodup_cons.mpr ⟨fun hmem => ?_, ih _⟩
        have hbefore := (mem_nextHops.mp hmem).2 b (List.mem_append_right _ (List.mem_singleton_self b))
        exact hbefore (Bool.and_eq_true_iff.mp hfirst).1 rfl
      · exact ih _

theorem mem_publishState {ulong : String → Nat} {owner room : String} {d : Dict} {p : StatePacket} :
    p ∈ publishState ulong s owner room d ↔ p = ⟨p.dest, owner, d⟩ ∧
      ∃ b ∈ s.subscriptions.entries, b.owner = owner ∧ interested ulong s b.room room d = true ∧
        b.node = p.dest := by
  unfold publishState
  rw [List.mem_map]
  simp only [mem_nextHops, Bool.and_eq_true, beq_iff_eq, List.not_mem_nil, false_imp_iff, implies_true,
    and_true, and_assoc]
  constructor
  · rintro ⟨node, h, rfl⟩
    exact ⟨rfl, h⟩
  · rintro ⟨hp, h⟩
    exact ⟨p.dest, h, hp.symm⟩

/-! ### Branches -/

/-- Nobody subscribes to what lies behind itself, and every owner can be reached. -/
structure Branched (api : Api) (s : Tables) : Prop where
  owners : ∀ c ∈ s.catalog.entries, c.owner = api.self.id ∨ (s.route c.owner).isSome = true
  served : ∀ b ∈ s.subscriptions.entries, b.owner = api.self.id ∨ (s.route b.owner).isSome = true
  node : ∀ b ∈ s.subscriptions.entries, s.route b.node = some b.node
  toward : ∀ b ∈ s.subscriptions.entries, s.route b.owner ≠ some b.node

/-- Fewer subscriptions and the same tree. -/
theorem Branched.fewer (h : Branched api s) (htree : s'.tree = s.tree)
    (hsubs : ∀ b ∈ s'.subscriptions.entries, b ∈ s.subscriptions.entries)
    (howners : ∀ c ∈ s'.catalog.entries, c.owner = api.self.id ∨ (s.route c.owner).isSome = true) :
    Branched api s' := by
  have hroute : ∀ node, s'.route node = s.route node := by
    intro node
    unfold Tables.route
    rw [htree]
  refine ⟨fun c hc => ?_, fun b hb => ?_, fun b hb => ?_, fun b hb => ?_⟩
  · rw [hroute]
    exact howners c hc
  · rw [hroute]
    exact h.served b (hsubs b hb)
  · rw [hroute]
    exact h.node b (hsubs b hb)
  · rw [hroute]
    exact h.toward b (hsubs b hb)

/-- More servers in the tree. -/
theorem Branched.grown (h : Branched api s) (hsound : Sound api s') (htables : s'.catalog = s.catalog)
    (hsubs : s'.subscriptions = s.subscriptions)
    (hroute : ∀ node p, s.route node = some p → s'.route node = some p) : Branched api s' := by
  have hserved : ∀ node, node = api.self.id ∨ (s.route node).isSome = true →
      node = api.self.id ∨ (s'.route node).isSome = true := by
    rintro node (heq | hsome)
    · exact Or.inl heq
    · obtain ⟨p, hp⟩ := Option.isSome_iff_exists.mp hsome
      rw [hroute node p hp]
      exact Or.inr rfl
  refine ⟨fun c hc => ?_, fun b hb => ?_, fun b hb => ?_, fun b hb => ?_⟩
  · exact hserved c.owner (h.owners c (htables ▸ hc))
  · exact hserved b.owner (h.served b (hsubs ▸ hb))
  · exact hroute b.node b.node (h.node b (hsubs ▸ hb))
  · rw [hsubs] at hb
    rcases h.served b hb with hself | hsome
    · rw [hself]
      intro hlocal
      exact hsound.ne_of_route (by rw [hlocal]; rfl) rfl
    · -- an owner that is in the tree stays on its branch
      obtain ⟨p, hp⟩ := Option.isSome_iff_exists.mp hsome
      rw [hroute b.owner p hp, ← hp]
      exact h.toward b hb

/-- A server that is left has its route. -/
theorem route_remove (h : Sound api s) {peer server : Option String} {node p : String}
    (hp : (s.tree.remove peer server).2.route (some node) = some p) : s.route node = some p := by
  rcases h.tree.remove_cases peer server with ⟨q, target, n, -, -, -, -, hq, heq⟩ | heq
  · rw [heq] at hp
    unfold LinkTree.route at hp
    split at hp
    · rename_i m hm
      obtain ⟨hmem, hname⟩ := LinkTree.find_mem hm
      have hold := (LinkTree.WellFormed.mem_pruned.mp hmem).1
      split at hp
      · exact absurd hp (Option.some_ne_none p).symm
      · rename_i hne
        unfold Tables.route LinkTree.route
        rw [hname, h.tree.find_eq hold]
        dsimp only
        rw [if_neg hne, ← hp]
    · exact absurd hp (Option.some_ne_none p).symm
  · rw [heq] at hp
    exact hp

/-- Servers are removed, and the relay is told. -/
theorem Branched.removed (h : Branched api s) (hsound : Sound api s) (peer server : Option String)
    (v : Nat → Visit) :
    Branched api (lost api v (step s (.link (.remove peer server) : Event api))) := by
  have hroute : ∀ node p, (lost api v (step s (.link (.remove peer server) : Event api))).route node =
      some p → s.route node = some p := fun node p hp => route_remove hsound hp
  have hsubs : (lost api v (step s (.link (.remove peer server) : Event api))).subscriptions.entries =
      s.subscriptions.entries.filter fun b =>
        !(!(b.owner == api.self.id || ((s.tree.remove peer server).2.route (some b.owner)).isSome) ||
          !((s.tree.remove peer server).2.route (some b.node)).isSome) := Counted.entries_purge _ _
  have hleft : ∀ b ∈ (lost api v (step s (.link (.remove peer server) : Event api))).subscriptions.entries,
      b ∈ s.subscriptions.entries ∧
        (b.owner = api.self.id ∨ ((s.tree.remove peer server).2.route (some b.owner)).isSome = true) ∧
          ((s.tree.remove peer server).2.route (some b.node)).isSome = true := by
    intro b hb
    rw [hsubs, List.mem_filter] at hb
    simp only [Bool.not_eq_true', Bool.or_eq_false_iff, Bool.not_eq_false', Bool.or_eq_true,
      beq_iff_eq] at hb
    exact ⟨hb.1, hb.2⟩
  refine ⟨fun c hc => ?_, fun b hb => (hleft b hb).2.1, fun b hb => ?_, fun b hb htoward => ?_⟩
  · have hkept := (List.mem_filter.mp hc).2
    unfold Catalog.stranded at hkept
    simp only [Bool.not_not, Bool.or_eq_true, beq_iff_eq] at hkept
    exact hkept
  · obtain ⟨hold, -, hreach⟩ := hleft b hb
    obtain ⟨p, hp⟩ := Option.isSome_iff_exists.mp hreach
    have heq := route_remove hsound hp
    rw [h.node b hold] at heq
    rw [← Option.some.inj heq] at hp
    exact hp
  · exact h.toward b (hleft b hb).1 (hroute b.owner b.node htoward)

/-! ### Owners -/

theorem owner_catalogPut {c : CatalogEntry} {store : Catalog.Store} (site : Catalog.Site)
    (a : Catalog.Answers) (collecting : Bool) (owner : Catalog.Origin api.uuid) (d : Dict)
    (hc : c ∈ (Catalog.catalogPut api site a collecting store owner d).2.entries) :
    c.owner = owner.id ∨ ∃ e ∈ store.entries, e.owner = c.owner := by
  rcases Catalog.catalogPut_cases api site a collecting store owner d with
    ⟨-, heq, -⟩ | ⟨key, copy, ids, -, ⟨-, -, heq⟩ | ⟨e, -, -, heq⟩ | ⟨e, -, -, -, -, heq⟩⟩
  · rw [heq] at hc
    exact Or.inr ⟨c, hc, rfl⟩
  · rw [heq] at hc
    rcases List.mem_cons.mp hc with rfl | hc
    · exact Or.inl rfl
    · exact Or.inr ⟨c, hc, rfl⟩
  · rw [heq] at hc
    have hf : List.Forall₂ (fun x y : CatalogEntry => y.owner = x.owner) store.entries
        (Lib.changeFirst (·.answers key) (fun c => { c with descriptor := copy, seen := true })
          store.entries) := Lib.forall₂_changeFirst (fun _ _ => rfl) fun _ _ _ => rfl
    obtain ⟨x, hx, howner⟩ := Lib.exists_of_mem_forall₂ hf hc
    exact Or.inr ⟨x, hx, howner.symm⟩
  · rw [heq] at hc
    have hf : List.Forall₂ (fun x y : CatalogEntry => y.owner = owner.id ∨ y.owner = x.owner)
        store.entries (Lib.changeFirst (·.answers key) (fun _ => ⟨owner.id, key, copy, true⟩)
          store.entries) := Lib.forall₂_changeFirst (fun _ _ => Or.inr rfl) fun _ _ _ => Or.inl rfl
    obtain ⟨x, hx, hself | howner⟩ := Lib.exists_of_mem_forall₂ hf hc
    · exact Or.inl hself
    · exact Or.inr ⟨x, hx, howner.symm⟩

/-- Every entry is of this server, or of the owner of one that was there. -/
def Descended (api : Api) (before after : List CatalogEntry) : Prop :=
  ∀ c ∈ after, c.owner = api.self.id ∨ ∃ e ∈ before, e.owner = c.owner

theorem Descended.trans {l l' l'' : List CatalogEntry} (h : Descended api l l') (h' : Descended api l' l'') :
    Descended api l l'' := by
  intro c hc
  rcases h' c hc with hself | ⟨e, he, howner⟩
  · exact Or.inl hself
  · rw [← howner]
    exact h e he

theorem Descended.subset {l l' : List CatalogEntry} (h : ∀ c ∈ l', c ∈ l) : Descended api l l' :=
  fun c hc => Or.inr ⟨c, h c hc, rfl⟩

theorem Descended.recast {l l' : List CatalogEntry} (h : List.Forall₂ Catalog.Recast l l') :
    Descended api l l' := by
  intro c hc
  obtain ⟨e, he, -, howner⟩ := Lib.exists_of_mem_forall₂ h hc
  exact Or.inr ⟨e, he, howner.symm⟩

theorem descended_collect (site : Catalog.Site) (store : Catalog.Store) (x : Catalog.Collected) :
    Descended api store.entries (Catalog.collect api site store x).entries := by
  cases x with
  | put a d => exact fun c hc => owner_catalogPut site a true api.self d hc
  | rig id backend name location model =>
      refine Descended.recast ?_
      unfold Catalog.collect
      exact Lib.forall₂_changeFirst (fun c _ => Catalog.Recast.refl c) fun _ _ _ => ⟨rfl, rfl⟩

theorem descended_collectLocal (site : Catalog.Site) (answers : String → Catalog.Answers)
    (store : Catalog.Store) (steps : Option (List Catalog.Collected)) :
    Descended api store.entries (Catalog.collectLocal api site answers store steps).entries := by
  cases steps with
  | none => exact Descended.subset fun _ hc => hc
  | some steps =>
      have hfold : Descended api store.entries (steps.foldl (Catalog.collect api site) store).entries := by
        induction steps generalizing store with
        | nil => exact Descended.subset fun _ hc => hc
        | cons x steps ih =>
            rw [List.foldl_cons]
            exact (descended_collect site store x).trans (ih _)
      exact hfold.trans (Descended.recast (Catalog.finalize_recast api site answers _ _))

theorem descended_refresh (site : Catalog.Site) (answers : String → Catalog.Answers)
    (store : Catalog.Store) (steps : Option (List Catalog.Collected)) :
    Descended api store.entries (Catalog.refreshCatalog api site answers store steps).entries := by
  have hunseen : List.Forall₂ Catalog.Recast store.entries (store.entries.map fun c =>
      if c.owner = api.self.id then { c with seen := false } else c) := by
    refine List.forall₂_map_right_iff.mpr (List.forall₂_same.mpr fun c _ => ?_)
    split
    · exact ⟨rfl, rfl⟩
    · exact ⟨rfl, rfl⟩
  refine (Descended.recast hunseen).trans ?_
  refine (descended_collectLocal site answers { store with entries := _ } steps).trans ?_
  exact Descended.subset fun c hc => List.mem_of_mem_filter hc

/-! ### Whatever reaches the relay -/

/-- The tree, the catalog and the subscriptions are left alone. -/
structure Aside (s s' : Tables) : Prop where
  tree : s'.tree = s.tree
  catalog : s'.catalog = s.catalog
  subscriptions : s'.subscriptions = s.subscriptions

theorem Aside.refl (s : Tables) : Aside s s := ⟨rfl, rfl, rfl⟩

theorem aside_visitRemotes (visit : Remote → Option Remote) (s : Tables) :
    Aside s (visitRemotes visit s) := by
  rw [visitRemotes_eq]
  exact ⟨rfl, rfl, rfl⟩

theorem aside_replyMedia (s : Tables) (c : Client) (r : RelayAdmission.Reply) (inRoom : String → Bool)
    (alloc : Bool) : Aside s (replyMedia s c r inRoom alloc) := by
  unfold replyMedia
  dsimp only
  generalize mediaMap (.home c.conn) _ _ alloc s.media = out
  obtain ⟨found, maps⟩ := out
  cases found with
  | none => exact ⟨rfl, rfl, rfl⟩
  | some m =>
      dsimp only
      repeat' split
      all_goals exact ⟨rfl, rfl, rfl⟩

theorem aside_receiveReply (s : Tables) (r : RelayAdmission.Reply) (inRoom : String → Bool) (alloc : Bool) :
    Aside s (receiveReply s r inRoom alloc) := by
  unfold receiveReply
  split
  · exact Aside.refl s
  rename_i c hfind
  dsimp only
  split
  · exact Aside.refl s
  cases (RelayAdmission.membershipRoom r r.body).filter _ with
  | none =>
      dsimp only
      split
      · exact aside_replyMedia s c r inRoom alloc
      · exact Aside.refl s
  | some room =>
      dsimp only
      split
      · have h := aside_replyMedia
          { s with media := mediaForget (some (.home c.conn)) (some r.origin) (some room) s.media }
          c r inRoom alloc
        exact ⟨h.tree, h.catalog, h.subscriptions⟩
      · exact ⟨rfl, rfl, rfl⟩

theorem aside_execute (s : Tables) (origin id username : String) (alloc : Bool) (outcome : Outcome) :
    Aside s (execute api s origin id username alloc outcome) := by
  unfold execute
  rcases ownerSession_cases api s origin id username alloc with
    heq | ⟨r, -, heq⟩ | ⟨r, -, -, -, -, heq⟩
  · rw [heq]
    exact Aside.refl s
  · rw [heq]
    cases outcome with
    | denied => exact Aside.refl s
    | frame uuid => exact ⟨rfl, rfl, rfl⟩
    | processed isPtt => exact aside_visitRemotes _ s
  · rw [heq]
    cases outcome with
    | denied => exact ⟨rfl, rfl, rfl⟩
    | frame uuid => exact ⟨rfl, rfl, rfl⟩
    | processed isPtt =>
        have h := aside_visitRemotes (fun x => some (if x.serial = r.serial then processed isPtt x else x))
          { s with remotes := s.remotes.push r, serial := s.serial + 1 }
        exact ⟨h.tree, h.catalog, h.subscriptions⟩

theorem Branched.aside (h : Branched api s) (ha : Aside s s') : Branched api s' :=
  h.fewer ha.tree (fun _ hb => ha.subscriptions ▸ hb) fun c hc => h.owners c (ha.catalog ▸ hc)

theorem Branched.descended (h : Branched api s) {catalog : Catalog.Store}
    (hd : Descended api s.catalog.entries catalog.entries) :
    Branched api { s with catalog := catalog } := by
  refine h.fewer rfl (fun b hb => hb) fun c hc => ?_
  rcases hd c hc with hself | ⟨e, he, howner⟩
  · exact Or.inl hself
  · rw [← howner]
    exact h.owners e he

theorem Branched.put (h : Branched api s) (site : Catalog.Site) (a : Catalog.Answers)
    (owner : Catalog.Origin api.uuid) (d : Dict) (members : List (Nat × String))
    (howner : owner.id = api.self.id ∨ (s.route owner.id).isSome = true) :
    Branched api (catalogPut api s site a owner d members) := by
  have hput : ∀ c ∈ (Catalog.catalogPut api site a false s.catalog owner d).2.entries,
      c.owner = api.self.id ∨ (s.route c.owner).isSome = true := by
    intro c hc
    rcases owner_catalogPut site a false owner d hc with hself | ⟨e, he, hsame⟩
    · rw [hself]
      exact howner
    · rw [← hsame]
      exact h.owners e he
  unfold catalogPut
  generalize Catalog.catalogPut api site a false s.catalog owner d = out at hput
  obtain ⟨why, catalog⟩ := out
  have hlisted : Branched api { s with catalog := catalog } := h.fewer rfl (fun _ hb => hb) hput
  dsimp only
  split
  · split
    · exact hlisted
    · refine hlisted.fewer rfl (fun b hb => ?_) hput
      rw [rejoinOwnedRoom, Counted.entries_purge] at hb
      exact List.mem_of_mem_filter hb
  · exact hlisted

/-- What is recorded does not lie behind its owner. -/
theorem Branched.demanded (h : Branched api s) (dest origin room : String) (subscribe alloc : Bool) :
    Branched api (receiveDemand s dest origin room subscribe alloc) := by
  unfold receiveDemand
  dsimp only
  split
  · exact h
  rename_i hargs
  simp only [ne_eq, Bool.or_eq_true, decide_eq_true_eq, not_or, not_not] at hargs
  obtain ⟨⟨hauthority, horigin⟩, htoward⟩ := hargs
  have hdest : dest = api.self.id ∨ (s.route dest).isSome = true := by
    obtain ⟨c, hc, howner⟩ := Option.map_eq_some_iff.mp hauthority
    rw [← howner]
    exact h.owners c (Catalog.findCatalog_mem hc)
  split
  · split
    · refine ⟨h.owners, fun b hb => ?_, fun b hb => ?_, fun b hb => ?_⟩
      · rcases List.mem_cons.mp hb with rfl | hb
        · exact hdest
        · exact h.served b hb
      · rcases List.mem_cons.mp hb with rfl | hb
        · exact horigin
        · exact h.node b hb
      · rcases List.mem_cons.mp hb with rfl | hb
        · exact htoward
        · exact h.toward b hb
    · exact h
  · refine h.fewer rfl (fun b hb => ?_) h.owners
    unfold Counted.unlink at hb
    split at hb
    · exact List.mem_of_mem_eraseP hb
    · exact hb

theorem Branched.attached (h : Branched api s) (hsound : Sound api s) (peer : Option String)
    (nodes : List LinkNodeT) : Branched api (step s (.link (.attach peer nodes) : Event api)) := by
  refine h.grown (hsound.step _) rfl rfl fun node p hp => ?_
  show (LinkTree.attach api.uuid s.tree peer nodes).2.route (some node) = some p
  rcases LinkTree.attach_cases peer nodes with ⟨q, -, -, -, heq⟩ | ⟨-, heq⟩
  · rw [heq]
    exact LinkTree.route_extended hp
  · rw [heq]
    exact hp

theorem Branched.added (h : Branched api s) (hsound : Sound api s) (peer server parent site : Option String) :
    Branched api (step s (.link (.add peer server parent site) : Event api)) := by
  refine h.grown (hsound.step _) rfl rfl fun node p hp => ?_
  show (LinkTree.add api.uuid s.tree peer server parent site).2.route (some node) = some p
  rcases LinkTree.add_cases peer server parent site with
    ⟨q, n, r, w, owner, source, -, -, -, -, -, -, -, -, -, -, -, -, -, heq⟩ | ⟨-, heq⟩
  · rw [heq]
    exact LinkTree.route_extended hp
  · rw [heq]
    exact hp

theorem Branched.lost (h : Branched api s) (v : Nat → Visit) : Branched api (lost api v s) := by
  rw [lost_eq]
  refine h.fewer rfl (fun b hb => ?_) fun c hc => h.owners c (List.mem_of_mem_filter hc)
  rw [visitRemotes_eq] at hb
  change b ∈ (s.subscriptions.purge _).entries at hb
  rw [Counted.entries_purge] at hb
  exact List.mem_of_mem_filter hb

theorem Branched.step (h : Branched api s) (hsound : Sound api s) (e : Event api)
    (hop : ∀ peer server, e ≠ .link (.remove peer server))
    (hput : ∀ site a owner d members, e = .put site a owner d members →
      owner.id = api.self.id ∨ (s.route owner.id).isSome = true) :
    Branched api (step s e) := by
  cases e with
  | link op =>
      cases op with
      | attach peer nodes => exact h.attached hsound peer nodes
      | add peer server parent site => exact h.added hsound peer server parent site
      | remove peer server => exact absurd rfl (hop peer server)
  | put site a owner d members =>
      exact h.put site a owner d members (hput site a owner d members rfl)
  | collect site answers steps =>
      exact h.descended (descended_collectLocal site answers s.catalog steps)
  | refresh site answers steps =>
      exact h.descended (descended_refresh site answers s.catalog steps)
  | remove site pin fresh origin d =>
      have hsub := (Catalog.remove_spec hsound.catalog site pin fresh origin d).2
      exact h.descended (Descended.subset fun c hc => hsub.subset hc)
  | users node d fits alloc => exact h.aside ⟨rfl, rfl, rfl⟩
  | demand dest origin room subscribe alloc => exact h.demanded dest origin room subscribe alloc
  | relays conn id alloc => exact h.aside ⟨rfl, rfl, rfl⟩
  | home conn uuid home => exact h.aside ⟨rfl, rfl, rfl⟩
  | closed conn => exact h.aside ⟨rfl, rfl, rfl⟩
  | reply r inRoom alloc =>
      unfold RelayTables.step
      dsimp only
      split
      · exact h.aside (aside_receiveReply s r inRoom alloc)
      · exact h
  | request origin id username alloc outcome =>
      exact h.aside (aside_execute s origin id username alloc outcome)
  | touched serial keyed stays => exact h.aside (aside_visitRemotes _ s)
  | close origin id v => exact h.aside (aside_visitRemotes _ s)
  | poll v => exact h.aside (aside_visitRemotes _ s)
  | lost v => exact h.lost v

/-- Everything but the removal of servers and a put is a step as it is. -/
theorem live_step (h : Sound api s) (hb : Branched api s) (x : Event api × (Nat → Visit)) :
    Sound api (live s x) ∧ Branched api (live s x) := by
  obtain ⟨e, v⟩ := x
  by_cases hremove : ∃ peer server, e = .link (.remove peer server)
  · obtain ⟨peer, server, rfl⟩ := hremove
    exact ⟨(h.step _).lost v, hb.removed h peer server v⟩
  by_cases hput : ∃ site a owner d members, e = .put site a owner d members
  · obtain ⟨site, a, owner, d, members, rfl⟩ := hput
    unfold live
    dsimp only
    split
    · rename_i howner
      simp only [Bool.or_eq_true, beq_iff_eq] at howner
      exact ⟨h.step _, hb.put site a owner d members howner⟩
    · exact ⟨h, hb⟩
  have hlive : live s (e, v) = RelayTables.step s e := by
    unfold live
    split
    · rename_i peer server w heq
      exact absurd ⟨peer, server, congrArg Prod.fst heq⟩ hremove
    · rename_i site a owner d members w heq
      exact absurd ⟨site, a, owner, d, members, congrArg Prod.fst heq⟩ hput
    · rename_i heq
      rw [Prod.mk.inj heq |>.1]
  rw [hlive]
  refine ⟨h.step e, hb.step h e (fun peer server heq => hremove ⟨peer, server, heq⟩) ?_⟩
  intro site a owner d members heq
  exact absurd ⟨site, a, owner, d, members, heq⟩ hput

theorem live_run (h : Sound api s) (hb : Branched api s) (events : List (Event api × (Nat → Visit))) :
    Sound api (liveRun s events) ∧ Branched api (liveRun s events) := by
  unfold liveRun
  induction events generalizing s with
  | nil => exact ⟨h, hb⟩
  | cons x events ih =>
      obtain ⟨h, hb⟩ := live_step h hb x
      exact ih h hb

theorem branched_init (tree : LinkTree) (ids : Identity.Receiver) : Branched api (init tree ids) where
  owners _ hc := absurd hc List.not_mem_nil
  served _ hb := absurd hb List.not_mem_nil
  node _ hb := absurd hb List.not_mem_nil
  toward _ hb := absurd hb List.not_mem_nil

/-- **State fan-out.**  Whatever reached the relay: of a change, each server with a subscription
that covers it gets one packet and no other server gets any.  No subscription is of a server on
the branch of its owner, so none of the packets goes back that way. -/
theorem state_fanout {limit : Nat} {tree : LinkTree}
    (hnew : LinkTree.new api.uuid (some api.self.id) limit = some tree) (ids : Identity.Receiver)
    (events : List (Event api × (Nat → Visit))) (ulong : String → Nat) (owner room : String) (d : Dict) :
    let s := liveRun (init tree ids) events
    let packets := publishState ulong s owner room d
    (packets.map (·.dest)).Nodup ∧
    (∀ node, node ∈ packets.map (·.dest) ↔ ∃ b ∈ s.subscriptions.entries, b.node = node ∧
      b.owner = owner ∧ interested ulong s b.room room d = true) ∧
    (∀ p ∈ packets, p.username = owner ∧ p.payload = d ∧ s.route p.dest = some p.dest ∧
      s.route owner ≠ some p.dest) ∧
    ∀ b ∈ s.subscriptions.entries, s.route b.node = some b.node ∧ s.route b.owner ≠ some b.node := by
  intro s packets
  have hbranched : Branched api s :=
    (live_run (sound_init (LinkTree.WellFormed.new hnew).1 ids) (branched_init tree ids) events).2
  refine ⟨?_, fun node => ⟨fun hnode => ?_, fun hnode => ?_⟩, fun p hp => ?_, fun b hb => ?_⟩
  · have hdests : packets.map (·.dest) = nextHops
        (fun b => b.owner == owner && interested ulong s b.room room d) [] s.subscriptions.entries := by
      unfold packets publishState
      rw [List.map_map]
      exact List.map_id _
    rw [hdests]
    exact nodup_nextHops [] s.subscriptions.entries
  · obtain ⟨p, hp, rfl⟩ := List.mem_map.mp hnode
    obtain ⟨b, hb, howner, hcovers, hdest⟩ := (mem_publishState.mp hp).2
    exact ⟨b, hb, hdest, howner, hcovers⟩
  · obtain ⟨b, hb, hdest, howner, hcovers⟩ := hnode
    refine List.mem_map.mpr ⟨⟨node, owner, d⟩, mem_publishState.mpr ⟨rfl, ?_⟩, rfl⟩
    exact ⟨b, hb, howner, hcovers, hdest⟩
  · obtain ⟨heq, b, hb, howner, -, hdest⟩ := mem_publishState.mp hp
    refine ⟨congrArg StatePacket.username heq, congrArg StatePacket.payload heq, ?_, ?_⟩
    · rw [← hdest]
      exact hbranched.node b hb
    · rw [← hdest, ← howner]
      exact hbranched.toward b hb
  · exact ⟨hbranched.node b hb, hbranched.toward b hb⟩

/-- A neighbour subscribes twice to a room of a rig of this server. -/
def subscribed : List (Event Catalog.exampleApi × (Nat → Visit)) :=
  [(.collect Catalog.exampleSite (fun _ => Catalog.exampleAnswers)
      (some [.put Catalog.exampleAnswers (((Dict.empty.add "catalog.room" "#x").add "catalog.rig"
        "ft891").add "catalog.mask" "1")]), refused),
    (.link (.attach (some neighbour) [⟨some neighbour, none, some "B"⟩]), refused),
    (.demand Catalog.exampleApi.self.id neighbour "#x" true true, refused),
    (.demand Catalog.exampleApi.self.id neighbour "#X" true true, refused)]

/-- It gets one packet. -/
theorem state_fanout_twice :
    let s := liveRun (init start ⟨fun _ => none, fun _ => none⟩) subscribed
    let packets := publishState String.length s Catalog.exampleApi.self.id "#x"
      (Dict.empty.add "msg.type" "property")
    s.subscriptions.entries.length = 2 ∧ packets.map (·.dest) = [neighbour] ∧
      (packets.map (·.dest)).Nodup := by
  intro s packets
  exact ⟨by decide +kernel, by decide +kernel,
    (state_fanout start_new ⟨fun _ => none, fun _ => none⟩ subscribed String.length
      Catalog.exampleApi.self.id "#x" (Dict.empty.add "msg.type" "property")).1⟩

end RelayTables

end RustyRig
