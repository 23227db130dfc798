/-
What each handler of the relay does to who wants what.

The handlers that compare the demand keep the invariant by `Sound.compared`; all they
owe is that rooms they do not name are left alone.
-/
import RustyRig.Proofs.Relay.Wants

namespace RustyRig

namespace Relay

variable {u : UuidFormat} {api : RoomApi} {s : Relay} {loc : String} {N : String → Prop}

/-! ### Sessions one by one -/

/-- Sessions of which none changes its wish want the same. -/
theorem wants_map {f : LocalSession → LocalSession} {owner room : String}
    (hf : ∀ x ∈ s.sessions, through api owner room (f x) = through api owner room x) :
    { s with sessions := s.sessions.map f }.wants api owner room = s.wants api owner room := by
  rw [Bool.eq_iff_iff, wants_iff, wants_iff]
  refine or_congr_left ⟨?_, ?_⟩
  · rintro ⟨y, hy, ht⟩
    obtain ⟨x, hx, rfl⟩ := List.mem_map.mp hy
    exact ⟨x, hx, (hf x hx).symm.trans ht⟩
  · rintro ⟨x, hx, ht⟩
    exact ⟨f x, List.mem_map_of_mem hx, (hf x hx).trans ht⟩

theorem members_map {f : LocalSession → LocalSession} {owner room : String}
    (hf : ∀ x ∈ s.sessions, api.inRoom (f x).rooms room = true →
      through api owner room (f x) = true) :
    { s with sessions := s.sessions.map f }.Members api owner room := by
  intro y hy
  obtain ⟨x, hx, rfl⟩ := List.mem_map.mp hy
  exact hf x hx

theorem joined_map {f : LocalSession → LocalSession}
    (hf : ∀ x ∈ s.sessions, ∀ r ∈ (f x).rooms, N r) :
    ∀ x ∈ s.sessions.map f, ∀ r ∈ x.rooms, N r := by
  intro y hy
  obtain ⟨x, hx, rfl⟩ := List.mem_map.mp hy
  exact hf x hx

theorem mem_dropRoom {rooms : List String} {room r : String} (h : r ∈ dropRoom rooms room) :
    r ∈ rooms :=
  (List.mem_filter.mp h).1

theorem mem_addRoom {rooms : List String} {room r : String} (h : r ∈ addRoom api rooms room) :
    r ∈ rooms ∨ r = room := by
  unfold addRoom at h
  split at h
  · exact (List.mem_append.mp h).imp_right List.mem_singleton.mp
  · exact Or.inl h

theorem mem_partRoom (hapi : api.Lawful) {rooms : List String} {room r : String}
    (h : r ∈ api.partRoom rooms room) : r ∈ rooms := by
  rcases hapi.partRoom rooms room with heq | heq
  · rwa [heq] at h
  · rw [heq] at h
    exact mem_dropRoom h

/-! ### `subscribe` and `unsubscribe` -/

theorem subscribeUpstream_local (h : Sound u api N loc s) (room : String) (b : Bool) :
    s.subscribeUpstream loc room b = s := by
  unfold subscribeUpstream localOwner
  rw [h.localServer]
  simp

theorem receiveDemand_cases (api : RoomApi) (s : Relay) (dest origin room : String) (subscribe : Bool) :
    receiveDemand api s dest origin room subscribe = s ∨
      ∃ c bs, s.roomCatalog room = some c ∧ c.owner = dest ∧
        (∀ b : Subscription, (b.owner = dest → b.room ≠ room) →
          (b ∈ bs ↔ b ∈ s.subscriptions)) ∧
        receiveDemand api s dest origin room subscribe =
          compareDemand api (s.demand api dest room) dest room { s with subscriptions := bs } := by
  unfold receiveDemand
  split
  swap
  · exact Or.inl rfl
  rename_i c source hc hsource
  split
  · exact Or.inl rfl
  rename_i hguard
  simp only [Bool.or_eq_true, decide_eq_true_eq, not_or, not_not] at hguard
  refine Or.inr ⟨c, _, hc, hguard.1.1, ?_, rfl⟩
  intro b hb
  have hmine : ¬ (b.owner == dest && b.room == room && b.node == origin) = true := by
    simp only [Bool.and_eq_true, beq_iff_eq, not_and]
    exact fun hand _ => hb hand.1 hand.2
  split
  · split
    · rw [List.mem_cons, or_iff_right]
      rintro rfl
      exact hb rfl rfl
    · exact Iff.rfl
  · exact List.mem_eraseP_of_neg hmine

theorem Sound.receiveDemand (h : Sound u api N loc s) (hN : Spelled N) {room : String}
    (hroom : N room) (dest origin : String) (subscribe : Bool) :
    Sound u api N loc (receiveDemand api s dest origin room subscribe) := by
  rcases receiveDemand_cases api s dest origin room subscribe with
    heq | ⟨e, bs, he, rfl, hbs, heq⟩
  · rw [heq]
    exact h
  rw [heq]
  obtain ⟨hmem, rfl⟩ := h.mem_of_roomCatalog hN hroom he
  have hwants : ∀ owner room, (owner = e.owner → room ≠ e.room) →
      { s with subscriptions := bs }.wants api owner room = s.wants api owner room := by
    intro owner room hother
    rw [Bool.eq_iff_iff, wants_iff, wants_iff]
    refine or_congr_right (exists_congr fun b => ?_)
    constructor
    · rintro ⟨hb, rfl, rfl⟩
      exact ⟨(hbs b hother).mp hb, rfl, rfl⟩
    · rintro ⟨hb, rfl, rfl⟩
      exact ⟨(hbs b hother).mpr hb, rfl, rfl⟩
  by_cases hloc : e.owner = loc
  · -- nothing is sent about a room of this server
    have hquiet : Sound u api N loc { s with subscriptions := bs } :=
      h.quiet rfl rfl rfl h.joined h.members fun owner room ho _ =>
        hwants owner room fun hoe => absurd (hoe.trans hloc) ho
    have hsame : compareDemand api (s.demand api e.owner e.room) e.owner e.room
        { s with subscriptions := bs } = { s with subscriptions := bs } := by
      unfold compareDemand
      split
      · rw [hloc, subscribeUpstream_local hquiet]
      · rfl
    rw [hsame]
    exact hquiet
  · exact h.compared hmem hloc rfl rfl rfl h.joined h.members fun owner room _ _ => hwants owner room

/-! ### Replies to `join` and `part` -/

/-- Rooms of another name keep their members, and the wishes for them. -/
theorem through_applyReply (hapi : api.Lawful) {room r : String} (hr : sameName room r = false)
    {x : LocalSession} {c : RelayClient} (hc : x.relay = some c) (count : Nat) (origin : String)
    (joined : Bool) (owner : String) :
    api.inRoom (applyReply api count origin room joined x c).rooms r = api.inRoom x.rooms r ∧
      through api owner r (applyReply api count origin room joined x c) = through api owner r x := by
  have hin : api.inRoom (applyReply api count origin room joined x c).rooms r =
      api.inRoom x.rooms r := by
    unfold applyReply
    split
    · exact inRoom_add_other hapi hr _
    · show api.inRoom (dropRoom x.rooms room) r = _
      rw [inRoom_drop hapi, hr, Bool.not_false, Bool.and_true]
  refine ⟨hin, through_congr hin fun owner => ?_⟩
  rw [hc]
  show (wantedOwner (wantedSet count origin room joined c.wanted) r == some owner) = _
  rw [wantedOwner_wantedSet_other hr]
  rfl

/-- A session in the room afterwards has joined it, through the owner that answered. -/
theorem applyReply_through (hapi : api.Lawful) {room : String} {x : LocalSession} {c : RelayClient}
    {count : Nat} {origin : String} {joined : Bool}
    (hspace : joined = true → wantedOwner c.wanted room ≠ none ∨ count < maxSubscriptions)
    (hin : api.inRoom (applyReply api count origin room joined x c).rooms room = true) :
    through api origin room (applyReply api count origin room joined x c) = true := by
  cases joined with
  | true => exact through_iff.mpr ⟨hin, _, rfl, wantedOwner_wantedSet (hspace rfl)⟩
  | false =>
      rw [applyReply, if_neg Bool.false_ne_true, inRoom_drop hapi, sameName_refl] at hin
      simp at hin

theorem receiveReply_cases (api : RoomApi) (s : Relay) (origin id room : String) (joined : Bool) :
    receiveReply api s origin id room joined = s ∨
      ∃ x c e, (s.route origin).isSome = true ∧
        s.sessions.find? (fun x => (x.relay.map (·.id)) == some id) = some x ∧
        x.relay = some c ∧ s.roomCatalog room = some e ∧ e.owner = origin ∧
        receiveReply api s origin id room joined =
          compareDemand api (s.demand api origin room) origin room
            { s with sessions := s.sessions.map fun y => if y = x then
              applyReply api (wantedCount s.sessions) origin room joined x c else y } := by
  unfold receiveReply
  split
  swap
  · exact Or.inl rfl
  rename_i hop x e hroute hx he
  split
  · exact Or.inl rfl
  rename_i howner
  have hid := List.find?_some hx
  simp only [beq_iff_eq, Option.map_eq_some_iff] at hid
  obtain ⟨c, hc, -⟩ := hid
  refine Or.inr ⟨x, c, e, by rw [hroute]; rfl, hx, hc, he, not_not.mp howner, ?_⟩
  refine congrArg _ (congrArg (fun l => { s with sessions := l }) (List.map_congr_left ?_))
  intro y _
  by_cases hy : y = x
  · rw [if_pos hy, if_pos hy, hy, hc]
    rfl
  · rw [if_neg hy, if_neg hy]

theorem Sound.receiveReply (h : Sound u api N loc s) (hN : Spelled N) (hapi : api.Lawful)
    {origin id room : String} {joined : Bool} (hroom : N room)
    (hspace : joined = true → ∀ x c,
      s.sessions.find? (fun x => (x.relay.map (·.id)) == some id) = some x → x.relay = some c →
      (s.roomCatalog room).map (·.owner) = some origin →
      wantedOwner c.wanted room ≠ none ∨ wantedCount s.sessions < maxSubscriptions) :
    Sound u api N loc (receiveReply api s origin id room joined) := by
  rcases receiveReply_cases api s origin id room joined with
    heq | ⟨x, c, e, hroute, hfind, hc, he, rfl, heq⟩
  · rw [heq]
    exact h
  rw [heq]
  have hloc : e.owner ≠ loc := by
    intro hl
    rw [hl, h.route_loc] at hroute
    exact absurd hroute (by simp)
  have hspace' : joined = true → wantedOwner c.wanted room ≠ none ∨
      wantedCount s.sessions < maxSubscriptions :=
    fun hj => hspace hj x c hfind hc (by rw [he]; rfl)
  obtain ⟨hmem, rfl⟩ := h.mem_of_roomCatalog hN hroom he
  have hx := List.mem_of_find?_eq_some hfind
  refine h.compared hmem hloc rfl rfl rfl (joined_map fun y hy r hr => ?_)
    (fun f hf hfl => members_map fun y hy hin => ?_) fun owner r ho hr hother => wants_map fun y hy => ?_
  · by_cases hyx : y = x
    · rw [if_pos hyx] at hr
      unfold applyReply at hr
      split at hr
      · rcases mem_addRoom hr with hr | rfl
        · exact h.joined x hx r hr
        · exact hroom
      · exact h.joined x hx r (mem_dropRoom hr)
    · rw [if_neg hyx] at hr
      exact h.joined y hy r hr
  · by_cases hyx : y = x
    · rw [if_pos hyx] at hin ⊢
      by_cases hroomf : f.room = e.room
      · rw [h.owner_unique hf hmem hroomf] at hin ⊢
        exact applyReply_through hapi hspace' hin
      · obtain ⟨hsame, ht⟩ := through_applyReply hapi (hN.other hroom (h.named f hf) hroomf) hc
          (wantedCount s.sessions) e.owner joined f.owner
        rw [hsame] at hin
        rw [ht]
        exact h.members f hf hfl x hx hin
    · rw [if_neg hyx] at hin ⊢
      exact h.members f hf hfl y hy hin
  · by_cases hyx : y = x
    · rw [if_pos hyx, hyx]
      by_cases hre : r = e.room
      · -- everybody in the room is there through its owner, before and after
        have hoe : owner ≠ e.owner := fun hoe => hother hoe hre
        rw [hre, (h.members e hmem hloc).other hoe hx, ← Bool.not_eq_true]
        intro ht
        exact hoe (through_unique ht
          (applyReply_through hapi hspace' (through_iff.mp ht).1))
      · exact (through_applyReply hapi (hN.other hroom hr hre) hc _ _ _ _).2
    · rw [if_neg hyx]

end Relay

end RustyRig

/-!
The handlers that drop wishes without a word.

An announcement takes people out of a room and forgets the subscriptions made through
another server; a lost server takes its own subscriptions with it; a session that closes
is only accounted for in rooms that still have their entry.  None of them looks at the
demand, so each keeps the invariant exactly as long as nobody's wish is the last one.
-/

namespace RustyRig

namespace Relay

variable {u : UuidFormat} {api : RoomApi} {s : Relay} {loc : String} {N : String → Prop}

/-! ### Announcements -/

section Rejoin

variable {owner room : String} {ids : Nat → String}

theorem rejoinSession_cases (api : RoomApi) (owner room : String) (ids : Nat → String)
    (clients wanted : Nat) (x : LocalSession) :
    (rejoinSession api owner room ids clients wanted x = x ∧
        (api.inRoom x.rooms room = true → through api owner room x = true)) ∨
      (through api owner room x = false ∧
        ∃ y : LocalSession, rejoinSession api owner room ids clients wanted x =
            { y with rooms := api.partRoom x.rooms room } ∧
          ∀ r, sameName room r = false → ∀ o,
            (y.relay.any fun c => wantedOwner c.wanted r == some o) =
              x.relay.any fun c => wantedOwner c.wanted r == some o) := by
  unfold rejoinSession
  by_cases hin : api.inRoom x.rooms room = true
  swap
  · rw [if_pos (by simpa using hin)]
    exact Or.inl ⟨rfl, fun h => absurd h hin⟩
  rw [if_neg (by simpa using hin)]
  -- the rest of a new client's list is as empty as no list at all
  have hlist : ∀ c, x.relay.or (if clients = maxRelaySessions then none
      else some (RelayClient.mk (ids x.conn) [])) = some c → ∀ r o,
      (wantedOwner c.wanted r == some o) =
        x.relay.any fun c => wantedOwner c.wanted r == some o := by
    intro c hc r o
    cases hrelay : x.relay with
    | some d =>
        rw [hrelay, Option.some_or] at hc
        obtain rfl := Option.some.inj hc
        rfl
    | none =>
        rw [hrelay, Option.none_or] at hc
        split at hc
        · exact absurd hc (by simp)
        · obtain rfl := Option.some.inj hc
          rfl
  split
  · rename_i hnone
    refine Or.inr ⟨?_, x, rfl, fun r _ o => rfl⟩
    have hrelay : x.relay = none := (Option.or_eq_none_iff.mp hnone).1
    simp [through, hrelay]
  · rename_i c hc
    have hroom := hlist c hc room owner
    split
    · rename_i howner
      refine Or.inl ⟨rfl, fun _ => ?_⟩
      rw [through, hin, ← hroom, howner]
      simp
    · rename_i howner
      refine Or.inr ⟨?_, { x with relay := some { c with
        wanted := pend room (wantedSet wanted owner room true c.wanted) } }, rfl, fun r hr o => ?_⟩
      · rw [through, ← hroom, beq_eq_false_iff_ne.mpr howner, Bool.and_false]
      · rw [← hlist c hc r o]
        show (wantedOwner (pend room _) r == some o) = _
        rw [wantedOwner_pend, wantedOwner_wantedSet_other hr]

theorem rejoinSession_other (hapi : api.Lawful) (owner : String) {room r : String}
    (hr : sameName room r = false) (ids : Nat → String) (clients wanted : Nat) (x : LocalSession) (o : String) :
    api.inRoom (rejoinSession api owner room ids clients wanted x).rooms r =
        api.inRoom x.rooms r ∧
      through api o r (rejoinSession api owner room ids clients wanted x) = through api o r x := by
  rcases rejoinSession_cases api owner room ids clients wanted x with ⟨heq, -⟩ | ⟨-, y, heq, hlist⟩
  · rw [heq]
    exact ⟨rfl, rfl⟩
  · rw [heq]
    have hin := inRoom_part_other hapi hr x.rooms
    exact ⟨hin, through_congr hin (hlist r hr)⟩

theorem rejoinSession_room (hapi : api.Lawful) (hsite : sameName room api.siteRoom = false)
    (clients wanted : Nat) (x : LocalSession) :
    (api.inRoom (rejoinSession api owner room ids clients wanted x).rooms room = true →
        through api owner room (rejoinSession api owner room ids clients wanted x) = true) ∧
      through api owner room (rejoinSession api owner room ids clients wanted x) =
        through api owner room x := by
  rcases rejoinSession_cases api owner room ids clients wanted x with ⟨heq, hthrough⟩ | ⟨hnot, y, heq, -⟩
  · rw [heq]
    exact ⟨hthrough, rfl⟩
  · rw [heq]
    have hout := inRoom_parted hapi hsite x.rooms
    refine ⟨fun hin => absurd (hout.symm.trans hin) (by simp), ?_⟩
    rw [hnot, through]
    show (api.inRoom (api.partRoom x.rooms room) room && _) = false
    rw [hout, Bool.false_and]

theorem mem_rejoinSession (hapi : api.Lawful) {clients wanted : Nat} {x : LocalSession} {r : String}
    (hr : r ∈ (rejoinSession api owner room ids clients wanted x).rooms) : r ∈ x.rooms := by
  rcases rejoinSession_cases api owner room ids clients wanted x with ⟨heq, -⟩ | ⟨-, y, heq, -⟩
  · rwa [heq] at hr
  · rw [heq] at hr
    exact mem_partRoom hapi hr

theorem mem_rejoin {done rest : List LocalSession} {y : LocalSession}
    (hy : y ∈ rejoin api owner room ids done rest) :
    y ∈ done ∨ ∃ x ∈ rest, ∃ clients wanted,
      y = rejoinSession api owner room ids clients wanted x := by
  induction rest generalizing done with
  | nil => exact Or.inl hy
  | cons x rest ih =>
      rcases ih hy with hdone | ⟨z, hz, hrest⟩
      · rcases List.mem_append.mp hdone with hdone | hx
        · exact Or.inl hdone
        · exact Or.inr ⟨x, List.mem_cons_self, _, _, List.mem_singleton.mp hx⟩
      · exact Or.inr ⟨z, List.mem_cons_of_mem _ hz, hrest⟩

theorem any_rejoin {p : LocalSession → Bool}
    (hp : ∀ clients wanted x, p (rejoinSession api owner room ids clients wanted x) = p x)
    (done rest : List LocalSession) :
    (rejoin api owner room ids done rest).any p = (done ++ rest).any p := by
  induction rest generalizing done with
  | nil =>
      rw [List.append_nil]
      rfl
  | cons x rest ih =>
      unfold rejoin
      rw [ih]
      simp [hp]

end Rejoin

/-- The entries after a room was announced. -/
theorem Sound.announced (h : Sound u api N loc s) (hN : Spelled N) {owner room : String}
    (hroom : N room) : ((s.announced owner room).map (·.room)).Nodup ∧
      ∀ e ∈ s.announced owner room, e = ⟨owner, room⟩ ∨ e ∈ s.catalogs ∧ e.room ≠ room := by
  unfold Relay.announced
  cases hfind : s.roomCatalog room with
  | none =>
      have hnone : ∀ e ∈ s.catalogs, e.room ≠ room := by
        rintro e he rfl
        exact absurd (sameName_refl _) (List.find?_eq_none.mp hfind e he)
      refine ⟨?_, fun e he => ?_⟩
      · rw [List.map_cons, List.nodup_cons]
        refine ⟨?_, h.unique⟩
        intro hmem
        obtain ⟨e, he, hr⟩ := List.mem_map.mp hmem
        exact hnone e he hr
      · rcases List.mem_cons.mp he with rfl | he
        · exact Or.inl rfl
        · exact Or.inr ⟨he, hnone e he⟩
  | some c =>
      obtain ⟨hc, hcr⟩ := h.mem_of_roomCatalog hN hroom hfind
      by_cases hown : c.owner = owner
      · simp only [if_pos hown]
        refine ⟨h.unique, fun e he => ?_⟩
        by_cases her : e.room = room
        · have hec : e = c := h.owner_unique he hc (her.trans hcr.symm)
          rw [hec, ← hown, ← hcr]
          exact Or.inl rfl
        · exact Or.inr ⟨he, her⟩
      · simp only [if_neg hown]
        refine ⟨?_, fun e he => ?_⟩
        · have hsame : (s.catalogs.map fun e =>
              if sameName e.room room then { owner := owner, room := room } else e).map (·.room) =
              s.catalogs.map (·.room) := by
            rw [List.map_map]
            refine List.map_congr_left fun e he => ?_
            show (if sameName e.room room then (RoomCatalog.mk owner room) else e).room = e.room
            split
            · rename_i hsame
              exact (hN e.room room (h.named e he) hroom hsame).symm
            · rfl
          rw [hsame]
          exact h.unique
        · obtain ⟨f, hf, rfl⟩ := List.mem_map.mp he
          split
          · exact Or.inl rfl
          · rename_i hne
            refine Or.inr ⟨hf, ?_⟩
            rintro rfl
            exact hne (sameName_refl _)

theorem Sound.catalogPut (h : Sound u api N loc s) (hN : Spelled N) (hapi : api.Lawful)
    {owner room : String} {station : Bool} {ids : Nat → String} (hroom : N room)
    (hkept : s.kept owner = true)
    (hfree : s.acceptsRoom owner room station = true → owner ≠ loc →
      sameName room api.siteRoom = false ∧
        ∀ other, other ≠ owner → other ≠ loc → s.wants api other room = false) :
    Sound u api N loc (catalogPut api s owner room station ids) := by
  obtain ⟨hunique, hcases⟩ : _ ∧ ∀ e ∈ s.announced owner room, _ := h.announced hN hroom
  unfold Relay.catalogPut
  split
  swap
  · exact h
  rename_i haccepts
  generalize s.announced owner room = catalogs at hunique hcases ⊢
  have hnamed : ∀ e ∈ catalogs, N e.room := by
    intro e he
    rcases hcases e he with rfl | ⟨he, -⟩
    · exact hroom
    · exact h.named e he
  have hreach : ∀ e ∈ catalogs, e.owner ≠ loc → (s.route e.owner).isSome = true := by
    intro e he hloc
    rcases hcases e he with rfl | ⟨he, -⟩
    · rw [Relay.kept, localOwner, h.localServer, Bool.or_eq_true, beq_iff_eq] at hkept
      exact hkept.resolve_left hloc
    · exact h.kept e he hloc
  by_cases hlocal : owner = loc
  · rw [if_pos (by rw [localOwner, hlocal]; exact beq_iff_eq.mpr h.localServer.symm)]
    refine ⟨h.tree, h.joined, hnamed, hunique, hreach, fun e he hloc => ?_, h.reached, h.agrees⟩
    rcases hcases e he with rfl | ⟨he, -⟩
    · exact absurd hlocal hloc
    · exact h.members e he hloc
  · rw [if_neg (by
      rw [localOwner, Bool.not_eq_true, beq_eq_false_iff_ne, show
        ({ s with catalogs := catalogs } : Relay).tree.localServer = loc from h.localServer]
      exact hlocal)]
    obtain ⟨hsite, hnobody⟩ := hfree haccepts hlocal
    refine ⟨h.tree, fun y hy r hr => ?_, hnamed, hunique, hreach, fun e he hloc => ?_, h.reached,
      fun o r ho hr => ?_⟩
    · rcases mem_rejoin hy with hy | ⟨x, hx, _, _, rfl⟩
      · exact absurd hy List.not_mem_nil
      · exact h.joined x hx r (mem_rejoinSession hapi hr)
    · intro y hy hin
      rcases mem_rejoin hy with hy | ⟨x, hx, clients, wanted, rfl⟩
      · exact absurd hy List.not_mem_nil
      rcases hcases e he with rfl | ⟨he, her⟩
      · exact (rejoinSession_room hapi hsite clients wanted x).1 hin
      · obtain ⟨hsame, ht⟩ := rejoinSession_other hapi owner
          (hN.other hroom (h.named e he) her) ids clients wanted x e.owner
        rw [hsame] at hin
        rw [ht]
        exact h.members e he hloc x hx hin
    · refine (h.agrees o r ho hr).trans ?_
      by_cases hdrop : r = room ∧ o ≠ owner
      · obtain ⟨rfl, hoo⟩ := hdrop
        rw [hnobody o hoo ho, eq_comm, ← Bool.not_eq_true]
        intro hwants
        rcases wants_iff.mp hwants with ⟨y, hy, ht⟩ | ⟨b, hb, rfl, rfl⟩
        · rcases mem_rejoin hy with hy | ⟨x, hx, clients, wanted, rfl⟩
          · exact absurd hy List.not_mem_nil
          · exact hoo (through_unique ht
              ((rejoinSession_room hapi hsite clients wanted x).1 (through_iff.mp ht).1))
        · have hkeep := (List.mem_filter.mp hb).2
          rw [sameName_refl] at hkeep
          simp [hoo] at hkeep
      · have hthrough : ∀ clients wanted x,
            through api o r (rejoinSession api owner room ids clients wanted x) =
              through api o r x := by
          intro clients wanted x
          by_cases hre : r = room
          · obtain rfl : o = owner := not_not.mp fun hoo => hdrop ⟨hre, hoo⟩
            rw [hre]
            exact (rejoinSession_room hapi hsite clients wanted x).2
          · exact (rejoinSession_other hapi owner (hN.other hroom hr hre) ids clients wanted x o).2
        unfold wants rejoinOwnedRoom
        rw [any_rejoin hthrough, List.nil_append, List.any_filter]
        refine congrArg _ (List.any_congr rfl fun b => ?_)
        by_cases hb : (b.owner == o && b.room == r) = true
        · rw [hb, Bool.and_true]
          simp only [Bool.and_eq_true, beq_iff_eq] at hb
          obtain ⟨rfl, rfl⟩ := hb
          by_cases hre : b.room = room
          · have hoo : b.owner = owner := not_not.mp fun hoo => hdrop ⟨hre, hoo⟩
            simp [hoo]
          · rw [sameName_comm, hN.other hroom hr hre]
            rfl
        · rw [Bool.not_eq_true] at hb
          rw [hb, Bool.and_false]

theorem Sound.catalogRemove (h : Sound u api N loc s) (origin room : String) :
    Sound u api N loc (catalogRemove s origin room) where
  tree := h.tree
  joined := h.joined
  named := fun e he => h.named e (List.mem_of_mem_eraseP he)
  unique := h.unique.sublist (List.eraseP_sublist.map _)
  kept := fun e he => h.kept e (List.mem_of_mem_eraseP he)
  members := fun e he => h.members e (List.mem_of_mem_eraseP he)
  reached := h.reached
  agrees := h.agrees

end Relay

end RustyRig
