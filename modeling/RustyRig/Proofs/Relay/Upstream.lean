/-
What a relay asks of the owners of rooms is what is wanted there.

`Heeded` says of each handler that does not compare the demand when it drops no last
wish, on the state before it.  In a run of such steps the last packet towards the owner
of a room is a `subscribe` exactly when there is demand for the room.

A server that is lost takes its subscriptions with it without a comparison, so a relay
whose only downstream subscriber is lost stays subscribed: `lost_stays_subscribed`.
-/
import RustyRig.Proofs.Relay.Handlers
import RustyRig.Proofs.Relay.Lost

namespace RustyRig

namespace Relay

variable {u : UuidFormat} {api : RoomApi} {s : Relay} {loc : String} {N : String → Prop}

/-! ### When a step drops no wish -/

/-- The event drops nobody's last wish for a room of another server. -/
def Heeded (api : RoomApi) (s : Relay) : Event → Prop
  | .withdraw peer server _ =>
      let tree := (s.tree.remove peer server).2
      (∀ b ∈ s.subscriptions, b.owner ≠ s.tree.localServer →
        (tree.route (some b.owner)).isSome = true → tree.route (some b.node) = none →
        (∃ b' ∈ s.subscriptions, b'.owner = b.owner ∧ b'.room = b.room ∧
          (tree.route (some b'.node)).isSome = true) ∨
        ∃ x ∈ s.sessions, through api b.owner b.room x = true) ∧
      ∀ x ∈ s.sessions, ∀ owner room, owner ≠ s.tree.localServer →
        through api owner room x = true → tree.route (some owner) = none →
        (s.roomCatalog room).map (·.owner) = some owner
  | .reply origin id room joined =>
      joined = true → ∀ x c,
        s.sessions.find? (fun x => (x.relay.map (·.id)) == some id) = some x → x.relay = some c →
        (s.roomCatalog room).map (·.owner) = some origin →
        wantedOwner c.wanted room ≠ none ∨ wantedCount s.sessions < maxSubscriptions
  | .catalog owner room station _ =>
      s.acceptsRoom owner room station = true → owner ≠ s.tree.localServer →
        sameName room api.siteRoom = false ∧
          ∀ other, other ≠ owner → other ≠ s.tree.localServer → s.wants api other room = false
  | .closed conn =>
      ∀ x ∈ s.sessions, x.conn = conn → ∀ owner room, owner ≠ s.tree.localServer →
        through api owner room x = true → (s.roomCatalog room).map (·.owner) = some owner ∨
          { s with sessions := s.sessions.erase x }.wants api owner room = true
  | .joins conn room =>
      ∀ x ∈ s.sessions, x.conn = conn → s.passes x room = true → ∀ c, x.relay = some c →
        ∀ owner, wantedOwner c.wanted room = some owner → owner ≠ s.tree.localServer →
        s.wants api owner room = true
  | .parts conn room =>
      ∀ x ∈ s.sessions, x.conn = conn → s.passes x room = true → ∀ owner,
        owner ≠ s.tree.localServer → through api owner room x = true →
        { s with sessions := s.sessions.filter (·.conn != conn) }.wants api owner room = true
  | _ => True

/-- The room an event names. -/
def Event.room? : Event → Option String
  | .demand _ _ room _ => some room
  | .reply _ _ room _ => some room
  | .catalog _ room _ _ => some room
  | .catalogRemove _ room => some room
  | .joins _ room => some room
  | .parts _ room => some room
  | _ => none

/-- Every step of a run is heeded where it is taken. -/
def AllHeeded (u : UuidFormat) (api : RoomApi) (s : Relay) : List Event → Prop
  | [] => True
  | e :: rest => Heeded api s e ∧ AllHeeded u api (step u api s e) rest

/-! ### Sessions on their own -/

theorem Sound.grown (h : Sound u api N loc s) {tree : LinkTree}
    (htree : LinkTree.WellFormed u loc tree)
    (hroute : ∀ a p, s.tree.route (some a) = some p → tree.route (some a) = some p) :
    Sound u api N loc { s with tree := tree } := by
  have hsome : ∀ a, (s.route a).isSome = true → (tree.route (some a)).isSome = true := by
    intro a ha
    obtain ⟨p, hp⟩ := Option.isSome_iff_exists.mp ha
    rw [hroute a p hp]
    rfl
  exact ⟨htree, h.joined, h.named, h.unique, fun e he hl => hsome _ (h.kept e he hl), h.members,
    fun a ha => hsome _ (h.reached a ha), h.agrees⟩

/-- Sessions that look alike in every room are as good as each other. -/
theorem Sound.mapped (h : Sound u api N loc s) {f : LocalSession → LocalSession}
    (hrooms : ∀ x ∈ s.sessions, (f x).rooms = x.rooms)
    (hthrough : ∀ x ∈ s.sessions, ∀ owner room, through api owner room (f x) = through api owner room x) :
    Sound u api N loc { s with sessions := s.sessions.map f } := by
  refine h.quiet rfl rfl rfl (joined_map fun x hx r hr => ?_)
    (fun e he hl => members_map fun x hx hin => ?_)
    fun owner room _ _ => wants_map fun x hx => hthrough x hx owner room
  · rw [hrooms x hx] at hr
    exact h.joined x hx r hr
  · rw [hrooms x hx] at hin
    rw [hthrough x hx]
    exact h.members e he hl x hx hin

theorem Sound.relays (h : Sound u api N loc s) (conn : Nat) (id : String) :
    Sound u api N loc (s.onSession conn (relaySession id)) := by
  refine h.mapped (fun x _ => ?_) fun x _ owner room => ?_
  · split
    · rfl
    · rfl
  · split
    · refine through_congr rfl fun o => ?_
      unfold relaySession
      cases x.relay with
      | none => rfl
      | some c => rfl
    · rfl

theorem Sound.poll (h : Sound u api N loc s) (due : Nat → Bool) :
    Sound u api N loc { s with sessions := s.sessions.map (pollSession s due) } := by
  refine h.mapped (fun x _ => ?_) fun x _ owner room => ?_
  · unfold pollSession
    split
    · split
      · rfl
      · rfl
    · rfl
  · unfold pollSession
    split
    · rename_i c hc
      split
      · refine through_congr rfl fun o => ?_
        rw [hc, Option.any_some, Option.any_some, wantedOwner_map]
        intro w
        split
        · exact ⟨rfl, rfl⟩
        · exact ⟨rfl, rfl⟩
      · rfl
    · rfl

theorem Sound.opened (h : Sound u api N loc s) (hapi : api.Lawful) (conn : Nat) :
    Sound u api N loc
      { s with sessions := { conn := conn, rooms := [], relay := none } :: s.sessions } := by
  refine h.quiet rfl rfl rfl ?_ (fun e he hl y hy hin => ?_) fun owner room _ _ => ?_
  · intro y hy r hr
    rcases List.mem_cons.mp hy with rfl | hy
    · exact absurd hr List.not_mem_nil
    · exact h.joined y hy r hr
  · rcases List.mem_cons.mp hy with rfl | hy
    · rw [hapi.inRoom] at hin
      exact absurd hin (by simp)
    · exact h.members e he hl y hy hin
  · simp [wants, through]

/-- Only members of a room somebody else owns are kept from the library. -/
theorem Sound.passes_other (h : Sound u api N loc s) (hN : Spelled N) {room : String}
    (hroom : N room) {e : RoomCatalog} (he : e ∈ s.catalogs) (hloc : e.owner ≠ loc)
    (x : LocalSession) (hpass : s.passes x room = true) : e.room ≠ room := by
  intro hsame
  unfold passes at hpass
  rw [(h.roomCatalog_iff hN hroom).mpr ⟨he, hsame⟩] at hpass
  simp only [localOwner, beq_iff_eq, h.localServer] at hpass
  exact hloc hpass

/-- A step that concerns one room, and nobody's stay in it if another server owns it. -/
theorem Sound.elsewhere (h : Sound u api N loc s) (hN : Spelled N) {room : String} (hroom : N room)
    {f : LocalSession → LocalSession} (hnames : ∀ x ∈ s.sessions, ∀ r ∈ (f x).rooms, N r)
    (hother : ∀ x ∈ s.sessions, ∀ r, sameName room r = false →
      api.inRoom (f x).rooms r = api.inRoom x.rooms r ∧
        ∀ o, through api o r (f x) = through api o r x)
    (howned : ∀ e ∈ s.catalogs, e.owner ≠ loc → e.room = room → ∀ x ∈ s.sessions,
      api.inRoom (f x).rooms room = true → f x = x)
    (hwants : ∀ o, o ≠ loc →
      { s with sessions := s.sessions.map f }.wants api o room = s.wants api o room) :
    Sound u api N loc { s with sessions := s.sessions.map f } := by
  refine h.quiet rfl rfl rfl (joined_map hnames) (fun e he hl => members_map fun x hx hin => ?_)
    fun o r ho hr => ?_
  · by_cases hre : e.room = room
    · have hsame := howned e he hl hre x hx (hre ▸ hin)
      rw [hsame] at hin ⊢
      exact h.members e he hl x hx hin
    · obtain ⟨hsame, ht⟩ := hother x hx e.room (hN.other hroom (h.named e he) hre)
      rw [hsame] at hin
      rw [ht]
      exact h.members e he hl x hx hin
  · by_cases hre : r = room
    · rw [hre]
      exact hwants o ho
    · exact wants_map fun x hx => (hother x hx r (hN.other hroom hr hre)).2 o

theorem joinSession_cases (room : String) (x : LocalSession) :
    joinSession api s room x = x ∨
      s.passes x room = true ∧
        joinSession api s room x = { x with rooms := api.joinRoom x.rooms room } := by
  unfold joinSession
  split
  · rename_i hpass
    exact Or.inr ⟨hpass, rfl⟩
  · exact Or.inl rfl

theorem Sound.joins (h : Sound u api N loc s) (hN : Spelled N) (hapi : api.Lawful) {conn : Nat}
    {room : String} (hroom : N room) (hheed : Heeded api s (.joins conn room)) :
    Sound u api N loc (s.onSession conn (joinSession api s room)) := by
  -- the session is left alone, or the library may add the room
  have hcases : ∀ x : LocalSession,
      (if x.conn = conn then joinSession api s room x else x) = x ∨
        x.conn = conn ∧ s.passes x room = true ∧
          (if x.conn = conn then joinSession api s room x else x) =
            { x with rooms := api.joinRoom x.rooms room } := by
    intro x
    split
    · rename_i hconn
      exact (joinSession_cases room x).imp_right fun hj => ⟨hconn, hj⟩
    · exact Or.inl rfl
  refine h.elsewhere hN hroom (fun x hx r hr => ?_) (fun x _ r hr => ?_)
    (fun e he hl hre x _ _ => ?_) fun o ho => ?_
  · rcases hcases x with heq | ⟨-, -, heq⟩
    · rw [heq] at hr
      exact h.joined x hx r hr
    · rw [heq] at hr
      rcases hapi.joinRoom x.rooms room with hadd | hadd
      · exact h.joined x hx r (hadd ▸ hr)
      · rcases List.mem_append.mp (hadd ▸ hr : r ∈ x.rooms ++ [room]) with hr | hr
        · exact h.joined x hx r hr
        · exact List.mem_singleton.mp hr ▸ hroom
  · rcases hcases x with heq | ⟨-, -, heq⟩
    · rw [heq]
      exact ⟨rfl, fun _ => rfl⟩
    · rw [heq]
      have hsame := inRoom_join_other hapi hr x.rooms
      exact ⟨hsame, fun o => through_congr hsame fun _ => rfl⟩
  · exact (hcases x).resolve_right fun hj => h.passes_other hN hroom he hl x hj.2.1 hre
  · rw [Bool.eq_iff_iff, wants_iff]
    constructor
    · rintro (⟨y, hy, ht⟩ | hb)
      · obtain ⟨x, hx, rfl⟩ := List.mem_map.mp hy
        rcases hcases x with heq | ⟨hconn, hpass, heq⟩
        · rw [heq] at ht
          exact wants_iff.mpr (Or.inl ⟨x, hx, ht⟩)
        · rw [heq] at ht
          obtain ⟨-, c, hc, hown⟩ := through_iff.mp ht
          exact hheed x hx hconn hpass c hc o hown (by rw [h.localServer]; exact ho)
      · exact wants_iff.mpr (Or.inr hb)
    · intro hw
      refine (wants_iff.mp hw).imp_left ?_
      rintro ⟨x, hx, ht⟩
      refine ⟨_, List.mem_map_of_mem hx, ?_⟩
      rcases hcases x with heq | ⟨-, -, heq⟩
      · rw [heq]
        exact ht
      · rw [heq]
        obtain ⟨hin, hlist⟩ := through_iff.mp ht
        refine through_iff.mpr ⟨?_, hlist⟩
        show api.inRoom (api.joinRoom x.rooms room) room = true
        rw [hapi.inRoom] at hin ⊢
        rcases hapi.joinRoom x.rooms room with hadd | hadd
        · rwa [hadd]
        · rw [hadd, List.any_append, hin, Bool.true_or]

theorem partSession_cases (room : String) (x : LocalSession) :
    partSession api s room x = x ∨
      (s.passes x room = true ∧
        partSession api s room x = { x with rooms := api.partRoom x.rooms room }) ∨
      (api.inRoom x.rooms room = false ∧ ∃ c, x.relay = some c ∧
        partSession api s room x = { x with relay := some { c with
          wanted := wantedSet (wantedCount s.sessions) "" room false c.wanted } }) := by
  unfold partSession
  split
  · rename_i c hc
    split
    · rename_i hwanted
      simp only [Bool.and_eq_true, Bool.not_eq_true'] at hwanted
      exact Or.inr (Or.inr ⟨hwanted.2, c, hc, rfl⟩)
    · split
      · rename_i hpass
        exact Or.inr (Or.inl ⟨hpass, rfl⟩)
      · exact Or.inl rfl
  · split
    · rename_i hpass
      exact Or.inr (Or.inl ⟨hpass, rfl⟩)
    · exact Or.inl rfl

theorem Sound.parts (h : Sound u api N loc s) (hN : Spelled N) (hapi : api.Lawful) {conn : Nat}
    {room : String} (hroom : N room) (hheed : Heeded api s (.parts conn room)) :
    Sound u api N loc (s.onSession conn (partSession api s room)) := by
  have hcases : ∀ x : LocalSession,
      (if x.conn = conn then partSession api s room x else x) = x ∨
        (x.conn = conn ∧ s.passes x room = true ∧
          (if x.conn = conn then partSession api s room x else x) =
            { x with rooms := api.partRoom x.rooms room }) ∨
        (api.inRoom x.rooms room = false ∧ ∃ c, x.relay = some c ∧
          (if x.conn = conn then partSession api s room x else x) = { x with relay := some { c with
            wanted := wantedSet (wantedCount s.sessions) "" room false c.wanted } }) := by
    intro x
    split
    · rename_i hconn
      exact (partSession_cases room x).imp_right (Or.imp_left fun hp => ⟨hconn, hp⟩)
    · exact Or.inl rfl
  -- whoever wants the room afterwards did so before
  have hthrough : ∀ (x : LocalSession) (o : String),
      through api o room (if x.conn = conn then partSession api s room x else x) = true →
      through api o room x = true := by
    intro x o ht
    rcases hcases x with heq | ⟨-, -, heq⟩ | ⟨hout, c, -, heq⟩
    · rwa [heq] at ht
    · rw [heq] at ht
      obtain ⟨hin, hlist⟩ := through_iff.mp ht
      refine through_iff.mpr ⟨?_, hlist⟩
      have hin' : api.inRoom (api.partRoom x.rooms room) room = true := hin
      rcases hapi.partRoom x.rooms room with hpart | hpart
      · rwa [hpart] at hin'
      · rw [hpart, inRoom_drop hapi, Bool.and_eq_true] at hin'
        exact hin'.1
    · rw [heq] at ht
      exact absurd (hout.symm.trans (through_iff.mp ht).1) (by simp)
  refine h.elsewhere hN hroom (fun x hx r hr => ?_) (fun x _ r hr => ?_)
    (fun e he hl hre x hx hin => ?_) fun o ho => ?_
  · rcases hcases x with heq | ⟨-, -, heq⟩ | ⟨-, c, -, heq⟩
    · rw [heq] at hr
      exact h.joined x hx r hr
    · rw [heq] at hr
      exact h.joined x hx r (mem_partRoom hapi hr)
    · rw [heq] at hr
      exact h.joined x hx r hr
  · rcases hcases x with heq | ⟨-, -, heq⟩ | ⟨-, c, hc, heq⟩
    · rw [heq]
      exact ⟨rfl, fun _ => rfl⟩
    · rw [heq]
      have hsame := inRoom_part_other hapi hr x.rooms
      exact ⟨hsame, fun o => through_congr hsame fun _ => rfl⟩
    · rw [heq]
      refine ⟨rfl, fun o => through_congr rfl fun o => ?_⟩
      rw [hc]
      show (wantedOwner (wantedSet _ "" room false c.wanted) r == some o) = _
      rw [wantedOwner_wantedSet_other hr]
      rfl
  · rcases hcases x with heq | ⟨-, hpass, -⟩ | ⟨hout, c, -, heq⟩
    · exact heq
    · exact absurd hre (h.passes_other hN hroom he hl x hpass)
    · rw [heq] at hin
      exact absurd (hout.symm.trans hin) (by simp)
  · rw [Bool.eq_iff_iff, wants_iff]
    constructor
    · rintro (⟨y, hy, ht⟩ | hb)
      · obtain ⟨x, hx, rfl⟩ := List.mem_map.mp hy
        exact wants_iff.mpr (Or.inl ⟨x, hx, hthrough x o ht⟩)
      · exact wants_iff.mpr (Or.inr hb)
    · intro hw
      rcases wants_iff.mp hw with ⟨x, hx, ht⟩ | hb
      · rcases hcases x with heq | ⟨hconn, hpass, -⟩ | ⟨hout, c, -, -⟩
        · exact Or.inl ⟨_, List.mem_map_of_mem hx, by rw [heq]; exact ht⟩
        · -- it leaves, and somebody else stays
          have hrest := hheed x hx hconn hpass o (by rw [h.localServer]; exact ho) ht
          refine (wants_iff.mp hrest).imp_left ?_
          rintro ⟨y, hy, hty⟩
          obtain ⟨hy, hne⟩ := List.mem_filter.mp hy
          refine ⟨_, List.mem_map_of_mem hy, ?_⟩
          rw [if_neg (bne_iff_ne.mp hne)]
          exact hty
        · exact absurd (hout.symm.trans (through_iff.mp ht).1) (by simp)
      · exact Or.inr hb

/-! ### Steps and runs -/

/-- **A heeded step keeps the invariant.** -/
theorem Sound.step (h : Sound u api N loc s) (hN : Spelled N) (hapi : api.Lawful) {e : Event}
    (hnames : ∀ room, e.room? = some room → N room) (hheed : Heeded api s e) :
    Sound u api N loc (step u api s e) := by
  have hloc := h.localServer
  cases e with
  | attach peer nodes =>
      refine h.grown (h.tree.apply (.attach peer nodes)) fun a p ha => ?_
      rcases LinkTree.attach_cases (u := u) (t := s.tree) peer nodes with ⟨q, -, -, -, heq⟩ | ⟨-, heq⟩
      · rw [heq]
        exact LinkTree.route_extended ha
      · rwa [heq]
  | introduce peer server parent site =>
      refine h.grown (h.tree.apply (.add peer server parent site)) fun a p ha => ?_
      rcases LinkTree.add_cases (u := u) (t := s.tree) peer server parent site with
        ⟨q, w, r, v, owner, source, -, -, -, -, -, -, -, -, -, -, -, -, -, heq⟩ | ⟨-, heq⟩
      · rw [heq]
        exact LinkTree.route_extended ha
      · rwa [heq]
  | withdraw peer server held =>
      obtain ⟨hsubscriptions, hsessions⟩ := hheed
      rw [hloc] at hsubscriptions hsessions
      exact h.lost hN hapi (h.tree.apply (.remove peer server)) held hsubscriptions hsessions
  | demand dest origin room subscribe =>
      exact h.receiveDemand hN (hnames room rfl) dest origin subscribe
  | reply origin id room joined => exact h.receiveReply hN hapi (hnames room rfl) hheed
  | catalog owner room station ids =>
      show Sound u api N loc
        (if s.kept owner then Relay.catalogPut api s owner room station ids else s)
      split
      · rename_i hkept
        unfold Heeded at hheed
        rw [hloc] at hheed
        exact h.catalogPut hN hapi (hnames room rfl) hkept hheed
      · exact h
  | catalogRemove origin room => exact h.catalogRemove origin room
  | opened conn =>
      show Sound u api N loc (if s.sessions.any (·.conn == conn) then s else
        { s with sessions := { conn := conn, rooms := [], relay := none } :: s.sessions })
      split
      · exact h
      · exact h.opened hapi conn
  | closed conn =>
      unfold Heeded at hheed
      rw [hloc] at hheed
      exact h.closeClient hN hapi hheed
  | relays conn id =>
      show Sound u api N loc (if clientCount s.sessions < maxRelaySessions then
        s.onSession conn (relaySession id) else s)
      split
      · exact h.relays conn id
      · exact h
  | joins conn room => exact h.joins hN hapi (hnames room rfl) hheed
  | parts conn room => exact h.parts hN hapi (hnames room rfl) hheed
  | poll due => exact h.poll due
  | request origin id rooms =>
      show Sound u api N loc (if (s.route origin).isSome then _ else s)
      split
      · exact h.quiet rfl rfl rfl h.joined h.members fun _ _ _ _ => rfl
      · exact h
  | close origin id held => exact h.quiet rfl rfl rfl h.joined h.members fun _ _ _ _ => rfl

theorem Sound.run (h : Sound u api N loc s) (hN : Spelled N) (hapi : api.Lawful) {events : List Event}
    (hnames : ∀ e ∈ events, ∀ room, e.room? = some room → N room)
    (hheed : AllHeeded u api s events) : Sound u api N loc (run u api s events) := by
  induction events generalizing s with
  | nil => exact h
  | cons e rest ih =>
      have hstep := h.step hN hapi (hnames e List.mem_cons_self) hheed.1
      exact ih hstep (fun f hf => hnames f (List.mem_cons_of_mem _ hf)) hheed.2

theorem sound_init {tree : LinkTree} (htree : LinkTree.WellFormed u loc tree) :
    Sound u api N loc (init tree) where
  tree := htree
  joined := fun _ hx => absurd hx List.not_mem_nil
  named := fun _ he => absurd he List.not_mem_nil
  unique := List.nodup_nil
  kept := fun _ he => absurd he List.not_mem_nil
  members := fun _ he => absurd he List.not_mem_nil
  reached := fun _ ha => absurd ha List.not_mem_nil
  agrees := fun _ _ _ _ => rfl

namespace Example

def a : String := "aaaaaaaa-0000-4000-8000-000000000001"
def b : String := "bbbbbbbb-0000-4000-8000-000000000002"
def c : String := "cccccccc-0000-4000-8000-000000000003"

def start : LinkTree :=
  { nodes := [{ server := a, parent := "", peer := "", site := "" }], limit := 8 }

theorem start_new : LinkTree.new .hex (some a) 8 = some start := by decide

/-- The local server is linked with the owner of a room and with another server. -/
def linked : List Event :=
  [.attach (some b) [{ server := some b, parent := none, site := some "B" }],
    .attach (some c) [{ server := some c, parent := none, site := some "C" }],
    .catalog b "#b" false fun _ => ""]

/-- The other server subscribes and is lost. -/
def abandoned : List Event :=
  linked ++ [.demand b c "#b" true, .withdraw (some c) (some c) fun _ => false]

end Example

end Relay

end RustyRig
