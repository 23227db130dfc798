/-
Sessions that close and servers that are lost.

`close_client` asks for every room the session was in whether the demand is gone, as
long as the room has its entry.  `lost` asks for none: what it drops is accounted for
only where the owner is out of reach as well, or where the wish was not the last one.
-/
import RustyRig.Proofs.Relay.Handlers
import Mathlib.Data.List.Find

namespace RustyRig

namespace Relay

variable {u : UuidFormat} {api : RoomApi} {s : Relay} {loc : String} {N : String → Prop}

/-! ### A session closes -/

/-- What leaving rooms changes: `unsubscribe` packets go out, nothing else. -/
structure Left (api : RoomApi) (s s' : Relay) : Prop where
  same : s' = { s with asked := s'.asked }
  reached : (∀ a ∈ s.asked, (s.route a.owner).isSome = true) →
    ∀ a ∈ s'.asked, (s.route a.owner).isSome = true

theorem Left.refl (api : RoomApi) (s : Relay) : Left api s s := ⟨rfl, id⟩

theorem Left.trans {s₁ s₂ : Relay} (h : Left api s s₁) (h' : Left api s₁ s₂) : Left api s s₂ where
  same := by
    rw [h'.same, h.same]
  reached := fun hr => by
    have h₂ := h'.reached
    rw [h.same] at h₂
    exact h₂ (h.reached hr)

theorem leave_left (room : String) : Left api s (leave api s room) := by
  unfold leave
  split
  · split
    · unfold subscribeUpstream
      split
      · exact .refl api s
      · rename_i hsend
        refine ⟨rfl, fun hr a ha => ?_⟩
        rcases List.mem_cons.mp ha with rfl | ha
        · simp only [Bool.or_eq_true, not_or, Bool.not_eq_true, Option.isNone_eq_false_iff] at hsend
          exact hsend.2
        · exact hr a ha
    · exact .refl api s
  · exact .refl api s

theorem leave_all (api : RoomApi) (s : Relay) (rooms : List String) :
    Left api s (rooms.foldl (leave api) s) := by
  induction rooms generalizing s with
  | nil => exact .refl api s
  | cons r rest ih => exact (leave_left r).trans (ih _)

/-- The lookup and the demand do not depend on what was sent. -/
theorem Left.lookup {s' : Relay} (h : Left api s s') (owner room : String) :
    s'.roomCatalog room = s.roomCatalog room ∧ s'.demand api owner room = s.demand api owner room := by
  rw [h.same]
  exact ⟨rfl, rfl⟩

/-- One room is left: it is unsubscribed at its owner unless somebody demands it. -/
theorem leave_lastAsked {room r owner : String} (hloc : owner ≠ s.tree.localServer)
    (hroute : ∀ e, s.roomCatalog r = some e → e.owner = owner → (s.route owner).isSome = true) :
    (leave api s room).lastAsked owner r =
      if r = room ∧ (s.roomCatalog r).map (·.owner) = some owner ∧ s.demand api owner r = false then
        false
      else s.lastAsked owner r := by
  unfold leave
  split
  swap
  · rename_i hnone
    rw [if_neg]
    rintro ⟨rfl, hown, -⟩
    rw [hnone] at hown
    exact absurd hown (by simp)
  rename_i e he
  split
  · rename_i hdemand
    rw [Bool.not_eq_true'] at hdemand
    by_cases hhit : r = room ∧ e.owner = owner
    · obtain ⟨rfl, rfl⟩ := hhit
      rw [subscribeUpstream_asked _ hloc (hroute e he rfl), lastAsked_cons, if_pos ⟨rfl, rfl⟩,
        if_pos ⟨rfl, by rw [he]; rfl, hdemand⟩]
    · rw [if_neg]
      · unfold subscribeUpstream
        split
        · rfl
        · rw [lastAsked_cons, if_neg]
          exact fun hc => hhit ⟨hc.2.symm, hc.1⟩
      · rintro ⟨rfl, hown, -⟩
        rw [he] at hown
        exact hhit ⟨rfl, Option.some.inj hown⟩
  · rename_i hdemand
    rw [if_neg]
    rintro ⟨rfl, hown, hnot⟩
    rw [he] at hown
    rw [show e.owner = owner from Option.some.inj hown, hnot] at hdemand
    exact hdemand rfl

theorem leave_all_lastAsked (api : RoomApi) {s : Relay} {r owner : String}
    (hloc : owner ≠ s.tree.localServer)
    (hroute : ∀ e, s.roomCatalog r = some e → e.owner = owner → (s.route owner).isSome = true)
    (rooms : List String) : (rooms.foldl (leave api) s).lastAsked owner r =
      if r ∈ rooms ∧ (s.roomCatalog r).map (·.owner) = some owner ∧ s.demand api owner r = false then
        false
      else s.lastAsked owner r := by
  induction rooms generalizing s with
  | nil => simp
  | cons room rest ih =>
      have hleft : Left api s (leave api s room) := leave_left room
      obtain ⟨hcat, hdem⟩ := hleft.lookup owner r
      have htree : (leave api s room).tree = s.tree := by rw [hleft.same]
      have hroute' : ∀ e, (leave api s room).roomCatalog r = some e → e.owner = owner →
          ((leave api s room).route owner).isSome = true := by
        unfold route
        rw [hcat, htree]
        exact hroute
      rw [List.foldl_cons, ih (by rw [htree]; exact hloc) hroute', hcat, hdem,
        leave_lastAsked hloc hroute]
      by_cases hgone : (s.roomCatalog r).map (·.owner) = some owner ∧ s.demand api owner r = false
      · by_cases hr : r = room
        · rw [if_pos (c := r = room ∧ _) ⟨hr, hgone⟩, ite_self]
          exact (if_pos ⟨hr ▸ List.mem_cons_self, hgone⟩).symm
        · rw [if_neg fun hc : r = room ∧ _ => hr hc.1]
          simp only [List.mem_cons, hr, false_or]
      · rw [if_neg fun hc => hgone hc.2, if_neg fun hc => hgone hc.2, if_neg fun hc => hgone hc.2]

theorem closeClient_cases (api : RoomApi) (s : Relay) (conn : Nat) :
    closeClient api s conn = s ∨
    ∃ x ∈ s.sessions, x.conn = conn ∧
      ((x.relay = none ∧ closeClient api s conn = { s with sessions := s.sessions.erase x }) ∨
        closeClient api s conn =
          x.rooms.foldl (leave api) { s with sessions := s.sessions.erase x }) := by
  unfold closeClient
  split
  · exact Or.inl rfl
  rename_i x hx
  have hconn : (x.conn == conn) = true :=
    List.find?_some (p := fun x : LocalSession => x.conn == conn) hx
  refine Or.inr ⟨x, List.mem_of_find?_eq_some hx, beq_iff_eq.mp hconn, ?_⟩
  cases hrelay : x.relay with
  | none => exact Or.inl ⟨rfl, rfl⟩
  | some c => exact Or.inr rfl

/-- A session that goes takes its own wishes with it and no other's. -/
theorem wants_erase {x : LocalSession} {owner room : String}
    (hx : through api owner room x = false) :
    { s with sessions := s.sessions.erase x }.wants api owner room = s.wants api owner room := by
  rw [Bool.eq_iff_iff, wants_iff, wants_iff]
  refine or_congr_left ⟨?_, ?_⟩
  · rintro ⟨y, hy, ht⟩
    exact ⟨y, List.mem_of_mem_erase hy, ht⟩
  · rintro ⟨y, hy, ht⟩
    refine ⟨y, (List.mem_erase_of_ne ?_).mpr hy, ht⟩
    rintro rfl
    exact absurd (hx.symm.trans ht) (by simp)

theorem Sound.closeClient (h : Sound u api N loc s) (hN : Spelled N) (hapi : api.Lawful) {conn : Nat}
    (hlast : ∀ x ∈ s.sessions, x.conn = conn → ∀ owner room, owner ≠ loc →
      through api owner room x = true → (s.roomCatalog room).map (·.owner) = some owner ∨
        { s with sessions := s.sessions.erase x }.wants api owner room = true) :
    Sound u api N loc (closeClient api s conn) := by
  rcases closeClient_cases api s conn with heq | ⟨x, hx, hconn, hcases⟩
  · rw [heq]
    exact h
  have hjoined : ∀ y ∈ s.sessions.erase x, ∀ r ∈ y.rooms, N r :=
    fun y hy => h.joined y (List.mem_of_mem_erase hy)
  have hmembers : ∀ e ∈ s.catalogs, e.owner ≠ loc →
      ({ s with sessions := s.sessions.erase x } : Relay).Members api e.owner e.room :=
    fun e he hl y hy => h.members e he hl y (List.mem_of_mem_erase hy)
  rcases hcases with ⟨hrelay, heq⟩ | heq
  · rw [heq]
    refine h.quiet rfl rfl rfl hjoined hmembers fun owner room _ _ => wants_erase ?_
    rw [through, hrelay]
    exact Bool.and_false _
  rw [heq]
  have hleft := leave_all api { s with sessions := s.sessions.erase x } x.rooms
  have hasked := fun owner (r : String) hloc hroute => leave_all_lastAsked api (r := r)
    (show owner ≠ ({ s with sessions := s.sessions.erase x } : Relay).tree.localServer from hloc)
    hroute x.rooms
  generalize x.rooms.foldl (leave api) { s with sessions := s.sessions.erase x } = s' at hleft hasked ⊢
  have hsame := hleft.same
  have hreached := hleft.reached h.reached
  have hagrees : ∀ owner room, owner ≠ loc → N room → s'.lastAsked owner room =
      ({ s with sessions := s.sessions.erase x } : Relay).wants api owner room := by
    intro owner room ho hr
    rw [hasked owner room (by rw [← h.localServer] at ho; exact ho) ?_]
    swap
    · intro e he hown
      obtain ⟨hmem, -⟩ := h.mem_of_roomCatalog hN hr he
      exact hown ▸ h.kept e hmem (hown ▸ ho)
    show (if room ∈ x.rooms ∧ (s.roomCatalog room).map (·.owner) = some owner ∧ _ then false
      else s.lastAsked owner room) = _
    rw [h.agrees owner room ho hr]
    by_cases howned : (s.roomCatalog room).map (·.owner) = some owner
    · -- the demand is what is wanted through the owner
      obtain ⟨e, he, rfl⟩ := Option.map_eq_some_iff.mp howned
      obtain ⟨hmem, rfl⟩ := h.mem_of_roomCatalog hN hr he
      rw [(hmembers e hmem ho).demand]
      by_cases hin : e.room ∈ x.rooms
      · cases hw : ({ s with sessions := s.sessions.erase x } : Relay).wants api e.owner e.room with
        | false => exact if_pos ⟨hin, howned, rfl⟩
        | true =>
            refine (if_neg fun hc => absurd hc.2.2 (by simp)).trans ?_
            rcases wants_iff.mp hw with ⟨y, hy, ht⟩ | hb
            · exact wants_iff.mpr (Or.inl ⟨y, List.mem_of_mem_erase hy, ht⟩)
            · exact wants_iff.mpr (Or.inr hb)
      · refine (if_neg fun hc => hin hc.1).trans (wants_erase ?_).symm
        rw [← Bool.not_eq_true]
        intro ht
        have hroom := (through_iff.mp ht).1
        rw [hapi.inRoom, List.any_eq_true] at hroom
        obtain ⟨r, hr', hrr⟩ := hroom
        exact hin (hN r e.room (h.joined x hx r hr') hr hrr ▸ hr')
    · refine (if_neg fun hc => howned hc.2.1).trans ?_
      cases ht : through api owner room x with
      | false => exact (wants_erase ht).symm
      | true =>
          rw [(hlast x hx hconn owner room ho ht).resolve_left howned]
          exact wants_iff.mpr (Or.inl ⟨x, hx, ht⟩)
  clear hasked hleft
  rw [hsame]
  have hlastAsked : ∀ owner room, s'.lastAsked owner room =
      ({ s with sessions := s.sessions.erase x, asked := s'.asked } : Relay).lastAsked owner room :=
    fun _ _ => rfl
  exact ⟨h.tree, hjoined, h.named, h.unique, h.kept, hmembers, hreached,
    fun owner room ho hr => (hlastAsked owner room).symm.trans (hagrees owner room ho hr)⟩

/-! ### A server is lost -/

theorem inRoom_congr (hapi : api.Lawful) {a b : String} (hab : sameName a b = true)
    (rooms : List String) : api.inRoom rooms a = api.inRoom rooms b := by
  rw [hapi.inRoom, hapi.inRoom]
  simp only [sameName_congr hab]

/-- Rooms whose entries are purged are left, the others stay. -/
theorem inRoom_purge (hapi : api.Lawful) (purged : List RoomCatalog) (rooms : List String)
    (r : String) :
    api.inRoom (purged.foldl (fun rooms e =>
        if api.inRoom rooms e.room then dropRoom rooms e.room else rooms) rooms) r =
      (api.inRoom rooms r && !purged.any fun e => sameName e.room r) := by
  induction purged generalizing rooms with
  | nil => simp
  | cons e rest ih =>
      have hstep : api.inRoom (if api.inRoom rooms e.room then dropRoom rooms e.room else rooms) r =
          (api.inRoom rooms r && !sameName e.room r) := by
        split
        · exact inRoom_drop hapi rooms e.room r
        · rename_i hout
          cases hsame : sameName e.room r with
          | true =>
              rw [Bool.not_eq_true] at hout
              rw [← inRoom_congr hapi hsame, hout, Bool.false_and]
          | false => rw [Bool.not_false, Bool.and_true]
      rw [List.foldl_cons, ih, hstep, List.any_cons, Bool.not_or, Bool.and_assoc]

/-- An entry for this room is purged. -/
def purges (s : Relay) (room : String) : Bool :=
  (s.catalogs.filter fun e => !s.kept e.owner).any fun e => sameName e.room room

theorem through_loseRooms (hapi : api.Lawful) (x : LocalSession) (owner room : String) :
    through api owner room (loseRooms api s x) =
      (through api owner room x && !s.purges room) := by
  unfold loseRooms
  split
  · rename_i hrelay
    rw [through, hrelay, Option.any_none, Bool.and_false, Bool.false_and]
  · rename_i c hc
    unfold through purges
    rw [inRoom_purge hapi, hc, Option.any_some, Option.any_some, wantedOwner_map, Bool.and_right_comm]
    intro w
    split
    · exact ⟨rfl, rfl⟩
    · exact ⟨rfl, rfl⟩

theorem mem_purge {purged : List RoomCatalog} {rooms : List String} {r : String}
    (hr : r ∈ purged.foldl (fun rooms e =>
      if api.inRoom rooms e.room then dropRoom rooms e.room else rooms) rooms) : r ∈ rooms := by
  induction purged generalizing rooms with
  | nil => exact hr
  | cons e rest ih =>
      have hrest : r ∈ if api.inRoom rooms e.room then dropRoom rooms e.room else rooms := ih hr
      split at hrest
      · exact mem_dropRoom hrest
      · exact hrest

theorem mem_loseRooms {x : LocalSession} {r : String} (hr : r ∈ (loseRooms api s x).rooms) :
    r ∈ x.rooms := by
  unfold loseRooms at hr
  split at hr
  · exact hr
  · exact mem_purge hr

theorem inRoom_loseRooms (hapi : api.Lawful) {x : LocalSession} {room : String}
    (hin : api.inRoom (loseRooms api s x).rooms room = true) : api.inRoom x.rooms room = true := by
  unfold loseRooms at hin
  split at hin
  · exact hin
  · rw [inRoom_purge hapi, Bool.and_eq_true] at hin
    exact hin.1

/-- What was sent to a server that is lost is forgotten. -/
theorem lastAsked_lost (held : RemoteSession → Bool) (owner room : String) :
    (lost api held s).lastAsked owner room =
      ((s.route owner).isSome && s.lastAsked owner room) := by
  unfold lastAsked lost
  rw [List.find?_filter]
  cases hroute : (s.route owner).isSome with
  | true =>
      rw [Bool.true_and]
      refine congrArg (fun o => Option.getD (Option.map Asked.subscribe o) false) ?_
      refine List.find?_congr fun a _ => ?_
      rw [Bool.eq_iff_iff]
      by_cases ha : a.owner = owner
      · simp [ha, hroute]
      · simp [ha]
  | false =>
      rw [Bool.false_and, List.find?_eq_none.mpr]
      · rfl
      · intro a _ hsome
        simp only [Bool.and_eq_true, beq_iff_eq, decide_eq_true_eq] at hsome
        rw [hsome.2.1, hroute] at hsome
        exact absurd hsome.1 (by simp)

theorem Sound.lost (h : Sound u api N loc s) (hN : Spelled N) (hapi : api.Lawful) {tree : LinkTree}
    (htree : LinkTree.WellFormed u loc tree) (held : RemoteSession → Bool)
    (hsubscriptions : ∀ b ∈ s.subscriptions, b.owner ≠ loc →
      (tree.route (some b.owner)).isSome = true → tree.route (some b.node) = none →
      (∃ b' ∈ s.subscriptions, b'.owner = b.owner ∧ b'.room = b.room ∧
        (tree.route (some b'.node)).isSome = true) ∨
      ∃ x ∈ s.sessions, through api b.owner b.room x = true)
    (hsessions : ∀ x ∈ s.sessions, ∀ owner room, owner ≠ loc → through api owner room x = true →
      tree.route (some owner) = none → (s.roomCatalog room).map (·.owner) = some owner) :
    Sound u api N loc (lost api held { s with tree := tree }) := by
  have hkept : ∀ owner, ({ s with tree := tree } : Relay).kept owner = true ↔
      owner = loc ∨ (tree.route (some owner)).isSome = true := by
    intro owner
    show (owner == tree.localServer || (tree.route (some owner)).isSome) = true ↔ _
    rw [htree.localServer_eq, Bool.or_eq_true, beq_iff_eq]
  -- a room is purged when its owner is out of reach
  have hpurges : ∀ room, N room → (({ s with tree := tree } : Relay).purges room = true ↔
      ∃ e ∈ s.catalogs, e.room = room ∧ e.owner ≠ loc ∧ tree.route (some e.owner) = none) := by
    intro room hr
    unfold purges
    rw [List.any_eq_true]
    constructor
    · rintro ⟨e, he, hsame⟩
      obtain ⟨he, hgone⟩ := List.mem_filter.mp he
      rw [Bool.not_eq_true', ← Bool.not_eq_true, hkept, not_or] at hgone
      exact ⟨e, he, hN e.room room (h.named e he) hr hsame, hgone.1, by simpa using hgone.2⟩
    · rintro ⟨e, he, rfl, hl, hnone⟩
      refine ⟨e, List.mem_filter.mpr ⟨he, ?_⟩, sameName_refl _⟩
      rw [Bool.not_eq_true', ← Bool.not_eq_true, hkept, not_or]
      exact ⟨hl, by simp [hnone]⟩
  refine ⟨htree, joined_map fun x hx r hr => h.joined x hx r (mem_loseRooms hr),
    fun e he => h.named e (List.mem_filter.mp he).1,
    h.unique.sublist (List.filter_sublist.map _), fun e he hl => ?_, fun e he hl => ?_,
    fun a ha => (List.mem_filter.mp ha).2, fun owner room ho hr => ?_⟩
  · exact ((hkept e.owner).mp (List.mem_filter.mp he).2).resolve_left hl
  · obtain ⟨he, hkeep⟩ := List.mem_filter.mp he
    intro y hy hin
    obtain ⟨x, hx, rfl⟩ := List.mem_map.mp hy
    rw [through_loseRooms hapi, h.members e he hl x hx (inRoom_loseRooms hapi hin), Bool.true_and,
      Bool.not_eq_true', ← Bool.not_eq_true, hpurges e.room (h.named e he)]
    rintro ⟨f, hf, hroom, hfl, hnone⟩
    rw [h.owner_unique hf he hroom] at hnone
    rw [hkept, hnone] at hkeep
    exact absurd hkeep (by simp [hl])
  · rw [lastAsked_lost]
    show ((tree.route (some owner)).isSome && s.lastAsked owner room) = _
    rw [h.agrees owner room ho hr, Bool.eq_iff_iff, Bool.and_eq_true, wants_iff, wants_iff]
    constructor
    · rintro ⟨hroute, ⟨x, hx, ht⟩ | ⟨b, hb, rfl, rfl⟩⟩
      · -- whoever is in a purged room is there through its lost owner
        refine Or.inl ⟨_, List.mem_map_of_mem hx, ?_⟩
        rw [through_loseRooms hapi, ht, Bool.true_and, Bool.not_eq_true', ← Bool.not_eq_true,
          hpurges room hr]
        rintro ⟨e, he, rfl, hel, hnone⟩
        rw [through_unique ht (h.members e he hel x hx (through_iff.mp ht).1), hnone] at hroute
        exact absurd hroute (by simp)
      · have hkeep := (hkept b.owner).mpr (Or.inr hroute)
        by_cases hnode : (tree.route (some b.node)).isSome = true
        · exact Or.inr ⟨b, List.mem_filter.mpr ⟨hb, Bool.and_eq_true_iff.mpr ⟨hkeep, hnode⟩⟩, rfl, rfl⟩
        · rcases hsubscriptions b hb ho hroute (by simpa using hnode) with
            ⟨b', hb', howner, hroom, hnode'⟩ | ⟨x, hx, ht⟩
          · refine Or.inr ⟨b', List.mem_filter.mpr ⟨hb', ?_⟩, howner, hroom⟩
            rw [howner]
            exact Bool.and_eq_true_iff.mpr ⟨hkeep, hnode'⟩
          · refine Or.inl ⟨_, List.mem_map_of_mem hx, ?_⟩
            rw [through_loseRooms hapi, ht, Bool.true_and, Bool.not_eq_true', ← Bool.not_eq_true,
              hpurges b.room hr]
            rintro ⟨e, he, heq, hel, hnone⟩
            rw [← heq] at ht
            rw [through_unique ht (h.members e he hel x hx (through_iff.mp ht).1), hnone] at hroute
            exact absurd hroute (by simp)
    · rintro (⟨y, hy, ht⟩ | ⟨b, hb, rfl, rfl⟩)
      · obtain ⟨x, hx, rfl⟩ := List.mem_map.mp hy
        rw [through_loseRooms hapi, Bool.and_eq_true, Bool.not_eq_true', ← Bool.not_eq_true,
          hpurges room hr] at ht
        refine ⟨?_, Or.inl ⟨x, hx, ht.1⟩⟩
        rw [← Option.ne_none_iff_isSome]
        intro hnone
        obtain ⟨e, he, rfl⟩ := Option.map_eq_some_iff.mp (hsessions x hx owner room ho ht.1 hnone)
        obtain ⟨hmem, hroom⟩ := h.mem_of_roomCatalog hN hr he
        exact ht.2 ⟨e, hmem, hroom, ho, hnone⟩
      · obtain ⟨hb, hkeep⟩ := List.mem_filter.mp hb
        exact ⟨((hkept b.owner).mp (Bool.and_eq_true_iff.mp hkeep).1).resolve_left ho,
          Or.inr ⟨b, hb, rfl, rfl⟩⟩

/-- **A lost server that takes the last wish for a room along leaves the owner subscribed.** -/
theorem Sound.lost_unheeded (h : Sound u api N loc s) (hapi : api.Lawful)
    {tree : LinkTree} (held : RemoteSession → Bool) {e : RoomCatalog} (he : e ∈ s.catalogs)
    (hloc : e.owner ≠ loc) (hroute : (tree.route (some e.owner)).isSome = true)
    (hwanted : s.wants api e.owner e.room = true)
    (hgone : ∀ b ∈ s.subscriptions, b.owner = e.owner → b.room = e.room →
      tree.route (some b.node) = none)
    (hnobody : ∀ x ∈ s.sessions, api.inRoom x.rooms e.room = false) :
    (Relay.lost api held { s with tree := tree }).lastAsked e.owner e.room = true ∧
      (Relay.lost api held { s with tree := tree }).demand api e.owner e.room = false := by
  constructor
  · rw [lastAsked_lost]
    show ((tree.route (some e.owner)).isSome && s.lastAsked e.owner e.room) = true
    rw [hroute, Bool.true_and, h.agrees e.owner e.room hloc (h.named e he), hwanted]
  · rw [← Bool.not_eq_true, demand_iff]
    rintro (⟨y, hy, -, hin⟩ | ⟨b, hb, howner, hroom⟩)
    · obtain ⟨x, hx, rfl⟩ := List.mem_map.mp hy
      exact absurd ((hnobody x hx).symm.trans (inRoom_loseRooms hapi hin)) (by simp)
    · obtain ⟨hb, hkeep⟩ := List.mem_filter.mp hb
      have hnode : (tree.route (some b.node)).isSome = true := (Bool.and_eq_true_iff.mp hkeep).2
      rw [hgone b hb howner hroom] at hnode
      exact absurd hnode (by simp)

end Relay

end RustyRig
