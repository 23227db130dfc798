/-
Who wants a room through a server.

A session wants a room through a server when it is in the room and its wanted list
names that server; a subscription wants it through the server it was made for.  The
demand the relay computes ignores the list, so the two can come apart: they agree for
the owner of a room as long as everybody in the room is there through the owner.

`Sound` is what every handler keeps when nobody's wish is dropped behind its back: what
was last sent to a server about a room is whether the room is wanted through it.
-/
import RustyRig.Rrserver.Relay
import RustyRig.Proofs.LinkTree.Run
import Mathlib.Data.List.Nodup

namespace RustyRig

/-! ### Names -/

theorem sameName_refl (a : String) : sameName a a = true := beq_self_eq_true _

theorem sameName_comm (a b : String) : sameName a b = sameName b a := by
  unfold sameName
  rw [Bool.eq_iff_iff, beq_iff_eq, beq_iff_eq]
  exact eq_comm

theorem sameName_trans {a b c : String} (hab : sameName a b = true) (hbc : sameName b c = true) :
    sameName a c = true := by
  simp only [sameName, beq_iff_eq] at *
  exact hab.trans hbc

/-- Two names of one room are found in the same places. -/
theorem sameName_congr {a b : String} (hab : sameName a b = true) (c : String) :
    sameName c a = sameName c b := by
  rw [Bool.eq_iff_iff]
  refine ⟨fun h => sameName_trans h hab, fun h => sameName_trans h ?_⟩
  rw [sameName_comm]
  exact hab

theorem sameName_congr_left {a b : String} (hab : sameName a b = true) (c : String) :
    sameName a c = sameName b c := by
  rw [sameName_comm a, sameName_comm b]
  exact sameName_congr hab c

/-- No two of these names are one room spelled in two ways. -/
def Spelled (N : String → Prop) : Prop := ∀ a b, N a → N b → sameName a b = true → a = b

theorem Spelled.other {N : String → Prop} (hN : Spelled N) {room r : String} (hroom : N room)
    (hr : N r) (hne : r ≠ room) : sameName room r = false := by
  rw [← Bool.not_eq_true]
  exact fun hsame => hne (hN room r hroom hr hsame).symm

/-- What the relay relies on in the room lists: they are searched regardless of case, a
name is appended or not, and a part takes every spelling out unless it is refused, which
happens to the site room only. -/
structure RoomApi.Lawful (api : RoomApi) : Prop where
  inRoom : ∀ rooms room, api.inRoom rooms room = rooms.any (sameName · room)
  joinRoom : ∀ rooms room, api.joinRoom rooms room = rooms ∨ api.joinRoom rooms room = rooms ++ [room]
  partRoom : ∀ rooms room, api.partRoom rooms room = rooms ∨
    api.partRoom rooms room = Relay.dropRoom rooms room
  parted : ∀ rooms room, sameName room api.siteRoom = false →
    api.partRoom rooms room = Relay.dropRoom rooms room

/-- Lists that are searched as they should be, with a site room nobody parts from. -/
def RoomApi.plain : RoomApi where
  siteRoom := "#site"
  inRoom rooms room := rooms.any (sameName · room)
  joinRoom rooms room := rooms ++ [room]
  partRoom rooms room := if sameName room "#site" then rooms else Relay.dropRoom rooms room

namespace Relay

variable {u : UuidFormat} {api : RoomApi} {s : Relay} {loc owner room : String}

/-! ### The list of rooms -/

theorem inRoom_drop (hapi : api.Lawful) (rooms : List String) (room r : String) :
    api.inRoom (dropRoom rooms room) r = (api.inRoom rooms r && !sameName room r) := by
  rw [hapi.inRoom, hapi.inRoom, Bool.eq_iff_iff]
  simp only [dropRoom, List.any_eq_true, List.mem_filter, Bool.not_eq_true', Bool.and_eq_true]
  constructor
  · rintro ⟨q, ⟨hq, hne⟩, hs⟩
    refine ⟨⟨q, hq, hs⟩, ?_⟩
    rw [← hne, sameName_congr_left hs, sameName_comm]
  · rintro ⟨⟨q, hq, hs⟩, hne⟩
    refine ⟨q, ⟨hq, ?_⟩, hs⟩
    rw [← hne, sameName_congr_left hs, sameName_comm]

theorem inRoom_add_other (hapi : api.Lawful) {room r : String} (hr : sameName room r = false)
    (rooms : List String) : api.inRoom (addRoom api rooms room) r = api.inRoom rooms r := by
  unfold addRoom
  split
  · simp [hapi.inRoom, hr]
  · rfl

theorem inRoom_join_other (hapi : api.Lawful) {room r : String} (hr : sameName room r = false)
    (rooms : List String) : api.inRoom (api.joinRoom rooms room) r = api.inRoom rooms r := by
  rcases hapi.joinRoom rooms room with heq | heq
  · rw [heq]
  · simp [heq, hapi.inRoom, hr]

theorem inRoom_part_other (hapi : api.Lawful) {room r : String} (hr : sameName room r = false)
    (rooms : List String) : api.inRoom (api.partRoom rooms room) r = api.inRoom rooms r := by
  rcases hapi.partRoom rooms room with heq | heq
  · rw [heq]
  · rw [heq, inRoom_drop hapi, hr, Bool.not_false, Bool.and_true]

theorem inRoom_parted (hapi : api.Lawful) (hsite : sameName room api.siteRoom = false)
    (rooms : List String) : api.inRoom (api.partRoom rooms room) room = false := by
  rw [hapi.parted rooms room hsite, inRoom_drop hapi, sameName_refl, Bool.not_true, Bool.and_false]

/-! ### The wanted list -/

theorem wantedOwner_wantedSet_other {room r : String} (hr : sameName room r = false)
    (count : Nat) (owner : String) (joined : Bool) (wanted : List WantedRoom) :
    wantedOwner (wantedSet count owner room joined wanted) r = wantedOwner wanted r := by
  unfold wantedOwner
  induction wanted with
  | nil =>
      unfold wantedSet
      split
      · simp [hr]
      · rfl
  | cons w rest ih =>
      unfold wantedSet
      by_cases hw : sameName w.room room = true
      · have hwr : sameName w.room r = false := by
          rw [← hr]
          exact sameName_congr_left hw r
        rw [if_pos hw]
        split
        · simp [hwr]
        · simp [hwr]
      · rw [if_neg hw]
        by_cases hwr : sameName w.room r = true
        · simp [hwr]
        · simpa [hwr] using ih

/-- A join is on the list afterwards if it was there before or there is space for it. -/
theorem wantedOwner_wantedSet {count : Nat} {wanted : List WantedRoom}
    (hspace : wantedOwner wanted room ≠ none ∨ count < maxSubscriptions) :
    wantedOwner (wantedSet count owner room true wanted) room = some owner := by
  unfold wantedOwner at *
  induction wanted with
  | nil =>
      have hcount : count < maxSubscriptions := by simpa using hspace
      simp [wantedSet, hcount, sameName_refl]
  | cons w rest ih =>
      unfold wantedSet
      by_cases hw : sameName w.room room = true
      · simp [hw]
      · rw [if_neg hw]
        simp only [hw, List.find?_cons] at hspace ⊢
        exact ih hspace

theorem wantedOwner_pend (wanted : List WantedRoom) (room r : String) :
    wantedOwner (pend room wanted) r = wantedOwner wanted r := by
  unfold wantedOwner
  induction wanted with
  | nil => rfl
  | cons w rest ih =>
      unfold pend
      by_cases hw : sameName w.room room = true
      · rw [if_pos hw]
        by_cases hr : sameName w.room r = true
        · simp [hr]
        · simp [hr]
      · rw [if_neg hw]
        by_cases hr : sameName w.room r = true
        · simp [hr]
        · simpa [hr] using ih

/-- Only `pending` changes. -/
theorem wantedOwner_map {f : WantedRoom → WantedRoom}
    (hf : ∀ w, (f w).room = w.room ∧ (f w).owner = w.owner) (wanted : List WantedRoom) (r : String) :
    wantedOwner (wanted.map f) r = wantedOwner wanted r := by
  unfold wantedOwner
  induction wanted with
  | nil => rfl
  | cons w rest ih =>
      by_cases hr : sameName w.room r = true
      · simp [hr, hf]
      · simpa [hr, hf] using ih

/-! ### Who wants a room -/

/-- A session wants a room through a server: it is in the room and on its list the room is
that server's. -/
def through (api : RoomApi) (owner room : String) (x : LocalSession) : Bool :=
  api.inRoom x.rooms room && x.relay.any fun c => wantedOwner c.wanted room == some owner

/-- Somebody wants a room through a server. -/
def wants (api : RoomApi) (s : Relay) (owner room : String) : Bool :=
  s.sessions.any (through api owner room) ||
    s.subscriptions.any fun b => b.owner == owner && b.room == room

theorem through_iff {x : LocalSession} : through api owner room x = true ↔
    api.inRoom x.rooms room = true ∧
      ∃ c, x.relay = some c ∧ wantedOwner c.wanted room = some owner := by
  unfold through
  cases x.relay with
  | none => simp
  | some c => simp

theorem wants_iff : s.wants api owner room = true ↔
    (∃ x ∈ s.sessions, through api owner room x = true) ∨
      ∃ b ∈ s.subscriptions, b.owner = owner ∧ b.room = room := by
  simp [wants]

theorem demand_iff : s.demand api owner room = true ↔
    (∃ x ∈ s.sessions, x.relay.isSome = true ∧ api.inRoom x.rooms room = true) ∨
      ∃ b ∈ s.subscriptions, b.owner = owner ∧ b.room = room := by
  simp [demand]

/-- A session wants a room through one server only. -/
theorem through_unique {x : LocalSession} {other : String} (h : through api owner room x = true)
    (h' : through api other room x = true) : owner = other := by
  obtain ⟨-, c, hc, ho⟩ := through_iff.mp h
  obtain ⟨-, c', hc', ho'⟩ := through_iff.mp h'
  obtain rfl := Option.some.inj (hc.symm.trans hc')
  exact Option.some.inj (ho.symm.trans ho')

/-- Sessions that look alike at a room want it alike. -/
theorem through_congr {x y : LocalSession} (hin : api.inRoom x.rooms room = api.inRoom y.rooms room)
    (hwanted : ∀ owner, (x.relay.any fun c => wantedOwner c.wanted room == some owner) =
      y.relay.any fun c => wantedOwner c.wanted room == some owner) :
    through api owner room x = through api owner room y := by
  rw [through, through, hin, hwanted]

/-- Everybody in the room is there through its owner. -/
def Members (api : RoomApi) (s : Relay) (owner room : String) : Prop :=
  ∀ x ∈ s.sessions, api.inRoom x.rooms room = true → through api owner room x = true

/-- Then the demand is what is wanted through the owner. -/
theorem Members.demand (h : s.Members api owner room) :
    s.demand api owner room = s.wants api owner room := by
  rw [Bool.eq_iff_iff, demand_iff, wants_iff]
  refine or_congr_left ⟨?_, ?_⟩
  · rintro ⟨x, hx, -, hin⟩
    exact ⟨x, hx, h x hx hin⟩
  · rintro ⟨x, hx, ht⟩
    obtain ⟨hin, c, hc, -⟩ := through_iff.mp ht
    exact ⟨x, hx, by rw [hc]; rfl, hin⟩

/-- Then nobody wants the room through another server, but for subscriptions. -/
theorem Members.other (h : s.Members api owner room) {other : String} (ho : other ≠ owner)
    {x : LocalSession} (hx : x ∈ s.sessions) : through api other room x = false := by
  rw [← Bool.not_eq_true]
  intro ht
  exact ho (through_unique ht (h x hx (through_iff.mp ht).1))

/-! ### What was sent -/

theorem subscribeUpstream_asked (b : Bool) (hloc : owner ≠ s.tree.localServer)
    (hroute : (s.route owner).isSome = true) :
    s.subscribeUpstream owner room b =
      { s with asked := { owner := owner, room := room, subscribe := b } :: s.asked } := by
  unfold subscribeUpstream localOwner
  rw [if_neg]
  simp [hloc, Option.isNone_eq_false_iff.mpr hroute]

theorem lastAsked_cons (a : Asked) (owner room : String) :
    { s with asked := a :: s.asked }.lastAsked owner room =
      if a.owner = owner ∧ a.room = room then a.subscribe else s.lastAsked owner room := by
  unfold lastAsked
  by_cases ha : a.owner = owner ∧ a.room = room
  · simp [ha]
  · rw [if_neg ha, List.find?_cons_of_neg]
    simpa using ha

/-! ### The invariant -/

/-- The state of a relay whose local server is `loc`, with `N` the names of rooms about. -/
structure Sound (u : UuidFormat) (api : RoomApi) (N : String → Prop) (loc : String) (s : Relay) :
    Prop where
  tree : LinkTree.WellFormed u loc s.tree
  joined : ∀ x ∈ s.sessions, ∀ r ∈ x.rooms, N r
  named : ∀ e ∈ s.catalogs, N e.room
  /-- A room has one owner, who can be reached. -/
  unique : (s.catalogs.map (·.room)).Nodup
  kept : ∀ e ∈ s.catalogs, e.owner ≠ loc → (s.route e.owner).isSome = true
  members : ∀ e ∈ s.catalogs, e.owner ≠ loc → s.Members api e.owner e.room
  /-- Nothing is remembered of what was sent to a server that is out of reach. -/
  reached : ∀ a ∈ s.asked, (s.route a.owner).isSome = true
  agrees : ∀ owner room, owner ≠ loc → N room → s.lastAsked owner room = s.wants api owner room

namespace Sound

variable {N : String → Prop}

theorem owner_unique (h : Sound u api N loc s) {e f : RoomCatalog} (he : e ∈ s.catalogs)
    (hf : f ∈ s.catalogs) (hroom : e.room = f.room) : e = f :=
  List.inj_on_of_nodup_map h.unique he hf hroom

theorem mem_of_roomCatalog (h : Sound u api N loc s) (hN : Spelled N) (hroom : N room)
    {e : RoomCatalog} (hfind : s.roomCatalog room = some e) : e ∈ s.catalogs ∧ e.room = room := by
  have hmem := List.mem_of_find?_eq_some hfind
  exact ⟨hmem, hN e.room room (h.named e hmem) hroom
    (List.find?_some (p := fun c : RoomCatalog => sameName c.room room) hfind)⟩

theorem roomCatalog_iff (h : Sound u api N loc s) (hN : Spelled N) (hroom : N room)
    {e : RoomCatalog} : s.roomCatalog room = some e ↔ e ∈ s.catalogs ∧ e.room = room := by
  refine ⟨h.mem_of_roomCatalog hN hroom, ?_⟩
  rintro ⟨hmem, rfl⟩
  cases hfind : s.roomCatalog e.room with
  | none => exact absurd (sameName_refl _) (List.find?_eq_none.mp hfind e hmem)
  | some f =>
      obtain ⟨hf, hsame⟩ := h.mem_of_roomCatalog hN hroom hfind
      rw [h.owner_unique hf hmem hsame]

theorem localServer (h : Sound u api N loc s) : s.tree.localServer = loc := h.tree.localServer_eq

theorem route_loc (h : Sound u api N loc s) : s.route loc = none := h.tree.route_loc

/-- The relay acts on its demand; what it says is what the sessions and subscriptions want. -/
theorem demand (h : Sound u api N loc s) {e : RoomCatalog} (he : e ∈ s.catalogs)
    (hloc : e.owner ≠ loc) : s.lastAsked e.owner e.room = s.demand api e.owner e.room :=
  (h.agrees e.owner e.room hloc (h.named e he)).trans (h.members e he hloc).demand.symm

/-- A step that sends nothing and changes nobody's wish keeps the invariant. -/
theorem quiet (h : Sound u api N loc s) {s' : Relay} (htree : s'.tree = s.tree)
    (hcatalogs : s'.catalogs = s.catalogs) (hasked : s'.asked = s.asked)
    (hjoined : ∀ x ∈ s'.sessions, ∀ r ∈ x.rooms, N r)
    (hmembers : ∀ e ∈ s.catalogs, e.owner ≠ loc → s'.Members api e.owner e.room)
    (hwants : ∀ owner room, owner ≠ loc → N room →
      s'.wants api owner room = s.wants api owner room) : Sound u api N loc s' where
  tree := htree ▸ h.tree
  joined := hjoined
  named := hcatalogs ▸ h.named
  unique := hcatalogs ▸ h.unique
  kept := by
    unfold route
    rw [htree, hcatalogs]
    exact h.kept
  members := hcatalogs ▸ hmembers
  reached := by
    unfold route
    rw [htree, hasked]
    exact h.reached
  agrees := by
    intro owner room ho hr
    unfold lastAsked
    rw [hasked]
    exact (h.agrees owner room ho hr).trans (hwants owner room ho hr).symm

/-- **A handler that compares the demand of a room before and after it keeps the
invariant**, whatever it does to the wishes for that room. -/
theorem compared (h : Sound u api N loc s) {e : RoomCatalog} (he : e ∈ s.catalogs)
    (hloc : e.owner ≠ loc) {s' : Relay} (htree : s'.tree = s.tree)
    (hcatalogs : s'.catalogs = s.catalogs) (hasked : s'.asked = s.asked)
    (hjoined : ∀ x ∈ s'.sessions, ∀ r ∈ x.rooms, N r)
    (hmembers : ∀ e ∈ s.catalogs, e.owner ≠ loc → s'.Members api e.owner e.room)
    (hwants : ∀ owner room, owner ≠ loc → N room → (owner = e.owner → room ≠ e.room) →
      s'.wants api owner room = s.wants api owner room) :
    Sound u api N loc
      (compareDemand api (s.demand api e.owner e.room) e.owner e.room s') := by
  have hroute : (s'.route e.owner).isSome = true := by
    unfold route
    rw [htree]
    exact h.kept e he hloc
  have hbefore := h.demand he hloc
  have hafter := (hmembers e he hloc).demand
  have hlast : ∀ owner room, s'.lastAsked owner room = s.lastAsked owner room := by
    intro owner room
    unfold lastAsked
    rw [hasked]
  have hout : compareDemand api (s.demand api e.owner e.room) e.owner e.room s' = s' ∧
        s.demand api e.owner e.room = s'.demand api e.owner e.room ∨
      compareDemand api (s.demand api e.owner e.room) e.owner e.room s' =
        { s' with asked := ⟨e.owner, e.room, s'.demand api e.owner e.room⟩ :: s'.asked } := by
    unfold compareDemand
    split
    · exact Or.inr (subscribeUpstream_asked _ (by rw [htree, h.localServer]; exact hloc) hroute)
    · rename_i hsame
      exact Or.inl ⟨rfl, not_not.mp hsame⟩
  rcases hout with ⟨heq, hsame⟩ | heq
  · rw [heq]
    refine h.quiet htree hcatalogs hasked hjoined hmembers fun owner room ho hr => ?_
    by_cases hroom : owner = e.owner ∧ room = e.room
    · obtain ⟨rfl, rfl⟩ := hroom
      rw [← hafter, ← hsame, (h.members e he hloc).demand]
    · exact hwants owner room ho hr fun hoe hre => hroom ⟨hoe, hre⟩
  · rw [heq]
    refine ⟨htree ▸ h.tree, hjoined, hcatalogs ▸ h.named, hcatalogs ▸ h.unique, ?_,
      hcatalogs ▸ hmembers, ?_, fun owner room ho hr => ?_⟩
    · show ∀ f ∈ s'.catalogs, f.owner ≠ loc → (s'.tree.route (some f.owner)).isSome = true
      rw [htree, hcatalogs]
      exact h.kept
    · intro a ha
      rcases List.mem_cons.mp ha with rfl | ha
      · exact hroute
      · rw [hasked] at ha
        show (s'.tree.route (some a.owner)).isSome = true
        rw [htree]
        exact h.reached a ha
    · rw [lastAsked_cons]
      show _ = s'.wants api owner room
      by_cases hroom : e.owner = owner ∧ e.room = room
      · obtain ⟨rfl, rfl⟩ := hroom
        rw [if_pos ⟨rfl, rfl⟩]
        exact hafter
      · rw [if_neg hroom, hlast, h.agrees owner room ho hr]
        exact (hwants owner room ho hr fun hoe hre => hroom ⟨hoe.symm, hre.symm⟩).symm

end Sound

end Relay

end RustyRig
