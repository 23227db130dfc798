/-
The tables of the relay in order.

Counters are right and within their bounds, every media map belongs to a session that is
still there, and nothing but the catalog and the directories names the local server.  Every
event keeps it so.  The one place where two lists have to go together is a remote session
that is removed: its maps go first.
-/
import RustyRig.Rrserver.RelayTables
import RustyRig.Proofs.Catalog.Ownership
import RustyRig.Proofs.LinkTree.Run

namespace RustyRig

namespace RelayTables

open Lib (Counted)
open Catalog (Api Orderly)

variable {api : Api} {s : Tables} {maps : Counted MediaEntry} {P : Conn → Prop} {loc : String}
  {client : Conn} {uuid : String}

/-- The session of a connection is on one of these lists. -/
def Held (clients : List Client) (remotes : List Remote) : Conn → Prop
  | .home conn => ∃ c ∈ clients, c.conn = conn
  | .guest serial => ∃ r ∈ remotes, r.serial = serial

theorem held_home {clients : List Client} {c : Client} (hc : c ∈ clients) (remotes : List Remote) :
    Held clients remotes (.home c.conn) := ⟨c, hc, rfl⟩

theorem held_guest (clients : List Client) {remotes : List Remote} {r : Remote}
    (hr : r ∈ remotes) : Held clients remotes (.guest r.serial) := ⟨r, hr, rfl⟩

/-- The media maps in order. -/
structure MediaSound (P : Conn → Prop) (loc : String) (maps : Counted MediaEntry) : Prop where
  sound : maps.Sound maxRelayMedia
  attached : ∀ m ∈ maps.entries, P m.client
  elsewhere : ∀ m ∈ maps.entries, m.owner ≠ loc

/-- The tables in order. -/
structure Sound (api : Api) (s : Tables) : Prop where
  tree : LinkTree.WellFormed api.uuid api.self.id s.tree
  catalog : Orderly api s.catalog
  directories : s.directories.length ≤ maxDirectories
  clients : s.clients.Sound maxRelaySessions
  remotes : s.remotes.Sound maxRelaySessions
  subscriptions : s.subscriptions.Sound maxSubscriptions
  media : MediaSound (Held s.clients.entries s.remotes.entries) api.self.id s.media
  /-- No two remote sessions are at one address, and none is where the next will be. -/
  numbered : (s.remotes.entries.map (·.serial)).Nodup
  fresh : ∀ r ∈ s.remotes.entries, r.serial < s.serial
  origins : ∀ r ∈ s.remotes.entries, r.origin ≠ api.self.id
  nodes : ∀ b ∈ s.subscriptions.entries, b.node ≠ api.self.id

/-! ### Media maps -/

/-- A map is found or made.  Either way it is the session's, and the others stay. -/
theorem mediaMap_spec (client : Conn) (uuid : String) (create alloc : Bool)
    (maps : Counted MediaEntry) :
    (mediaMap client uuid create alloc maps).2 = maps ∨ maps.count ≠ maxRelayMedia ∧
      ∃ m, m.client = client ∧ m.owner = "" ∧
        (mediaMap client uuid create alloc maps).2 = maps.push m := by
  unfold mediaMap
  split
  · exact .inl rfl
  · split
    · exact .inl rfl
    · rename_i hargs
      simp only [Bool.or_eq_true, decide_eq_true_eq, not_or] at hargs
      dsimp only
      split
      · exact .inl rfl
      · exact .inr ⟨hargs.1.1.1.2, _, rfl, rfl, rfl⟩

namespace MediaSound

theorem made (h : MediaSound P loc maps) (hloc : loc ≠ "") (hclient : P client)
    (uuid : String) (create alloc : Bool) :
    MediaSound P loc (mediaMap client uuid create alloc maps).2 := by
  rcases mediaMap_spec client uuid create alloc maps with hsame | ⟨hroom, m, hm, howner, hpush⟩
  · rw [hsame]
    exact h
  · rw [hpush]
    refine ⟨h.sound.push hroom m, ?_, ?_⟩
    · intro x hx
      rcases List.mem_cons.mp hx with rfl | hx
      · rw [hm]
        exact hclient
      · exact h.attached x hx
    · intro x hx
      rcases List.mem_cons.mp hx with rfl | hx
      · rw [howner]
        exact hloc.symm
      · exact h.elsewhere x hx

theorem purged (h : MediaSound P loc maps) (p : MediaEntry → Bool) :
    MediaSound P loc (maps.purge p) where
  sound := h.sound.purge p
  attached m hm := by
    rw [Counted.entries_purge] at hm
    exact h.attached m (List.mem_of_mem_filter hm)
  elsewhere m hm := by
    rw [Counted.entries_purge] at hm
    exact h.elsewhere m (List.mem_of_mem_filter hm)

theorem mem_changeMap {f : MediaEntry → MediaEntry} {m : MediaEntry}
    (hm : m ∈ (changeMap client uuid f maps).entries) :
    m ∈ maps.entries ∨ ∃ m₀ ∈ maps.entries, m = f m₀ := by
  have hf : List.Forall₂ (fun a b => b = a ∨ b = f a) maps.entries
      (changeMap client uuid f maps).entries :=
    Lib.forall₂_changeFirst (fun _ _ => .inl rfl) (fun _ _ _ => .inr rfl)
  obtain ⟨m₀, hm₀, rfl | hm⟩ := Lib.exists_of_mem_forall₂ hf hm
  · exact .inl hm₀
  · exact .inr ⟨m₀, hm₀, hm⟩

theorem changed (h : MediaSound P loc maps) {f : MediaEntry → MediaEntry}
    (hclient : ∀ m, (f m).client = m.client)
    (howner : ∀ m, m.owner ≠ loc → (f m).owner ≠ loc) :
    MediaSound P loc (changeMap client uuid f maps) where
  sound := by
    refine h.sound.changed ?_
    have hf : List.Forall₂ (fun _ _ => True) maps.entries (changeMap client uuid f maps).entries :=
      Lib.forall₂_changeFirst (fun _ _ => trivial) (fun _ _ _ => trivial)
    exact hf.length_eq.symm
  attached m hm := by
    rcases mem_changeMap hm with hm | ⟨m₀, hm₀, rfl⟩
    · exact h.attached m hm
    · rw [hclient]
      exact h.attached m₀ hm₀
  elsewhere m hm := by
    rcases mem_changeMap hm with hm | ⟨m₀, hm₀, rfl⟩
    · exact h.elsewhere m hm
    · exact howner m₀ (h.elsewhere m₀ hm₀)

/-- Sessions change, those of the maps stay. -/
theorem mono {Q : Conn → Prop} (h : MediaSound P loc maps)
    (hPQ : ∀ m ∈ maps.entries, P m.client → Q m.client) : MediaSound Q loc maps where
  sound := h.sound
  attached m hm := hPQ m hm (h.attached m hm)
  elsewhere := h.elsewhere

end MediaSound

/-! ### Walks over the remote sessions -/

/-- The maps that go with the sessions that are removed. -/
theorem drop_maps (dropped : List Remote) (maps : Counted MediaEntry) :
    (dropped.foldl (fun maps r => mediaForget (some (.guest r.serial)) none none maps)
      maps).entries = maps.entries.filter
        fun m => !dropped.any fun r => m.client == .guest r.serial := by
  induction dropped generalizing maps with
  | nil => exact (List.filter_eq_self.mpr fun _ _ => rfl).symm
  | cons r dropped ih =>
      rw [List.foldl_cons, ih, mediaForget, Counted.entries_purge, List.filter_filter]
      refine List.filter_congr fun m _ => ?_
      simp [Bool.and_comm]

theorem drop_sound (h : MediaSound P loc maps) (dropped : List Remote) :
    MediaSound P loc (dropped.foldl
      (fun maps r => mediaForget (some (.guest r.serial)) none none maps) maps) := by
  induction dropped generalizing maps with
  | nil => exact h
  | cons r dropped ih => exact ih (h.purged _)

/-- What a walk leaves of the sessions and of the maps. -/
theorem visitRemotes_eq (visit : Remote → Option Remote) (s : Tables) :
    visitRemotes visit s = { s with
      remotes := (Counted.walk visit (fun r => mediaForget (some (.guest r.serial)) none none)
        s.remotes.entries s.remotes.count s.media).1
      media := (s.remotes.entries.filter (visit · |>.isNone)).foldl
        (fun maps r => mediaForget (some (.guest r.serial)) none none maps) s.media } := by
  unfold visitRemotes
  rw [Counted.walk_eq]

theorem remotes_visited (visit : Remote → Option Remote) (s : Tables) :
    (visitRemotes visit s).remotes.entries = s.remotes.entries.filterMap visit := by
  unfold visitRemotes
  rw [Counted.walk_eq]

theorem Sound.visited (h : Sound api s) {visit : Remote → Option Remote}
    (hsame : ∀ r r', visit r = some r' → r'.serial = r.serial ∧ r'.origin = r.origin) :
    Sound api (visitRemotes visit s) := by
  have hremotes := remotes_visited visit s
  have hkept : ∀ r ∈ (visitRemotes visit s).remotes.entries,
      ∃ r₀ ∈ s.remotes.entries, r.serial = r₀.serial ∧ r.origin = r₀.origin := by
    intro r hr
    rw [hremotes] at hr
    obtain ⟨r₀, hr₀, hvisit⟩ := List.mem_filterMap.mp hr
    exact ⟨r₀, hr₀, hsame r₀ r hvisit⟩
  have hsub : ((visitRemotes visit s).remotes.entries.map (·.serial)).Sublist
      (s.remotes.entries.map (·.serial)) := by
    rw [hremotes]
    generalize s.remotes.entries = l
    induction l with
    | nil => exact .slnil
    | cons r l ih =>
        rw [List.filterMap_cons]
        cases hvisit : visit r with
        | none => exact ih.cons _
        | some r' =>
            rw [List.map_cons, List.map_cons, (hsame r r' hvisit).1]
            exact ih.cons_cons _
  have hstays : ∀ r ∈ s.remotes.entries, (visit r).isNone = false →
      ∃ r' ∈ (visitRemotes visit s).remotes.entries, r'.serial = r.serial := by
    intro r hr hnone
    obtain ⟨r', hvisit⟩ := Option.isSome_iff_exists.mp (Option.isNone_eq_false_iff.mp hnone)
    exact ⟨r', by rw [hremotes]; exact List.mem_filterMap.mpr ⟨r, hr, hvisit⟩, (hsame r r' hvisit).1⟩
  refine
    { tree := h.tree
      catalog := h.catalog
      directories := h.directories
      clients := h.clients
      remotes := h.remotes.walk visit _ s.media
      subscriptions := h.subscriptions
      media := ?_
      numbered := h.numbered.sublist hsub
      fresh := ?_
      origins := ?_
      nodes := h.nodes }
  · have hmedia := (drop_sound h.media (s.remotes.entries.filter (visit · |>.isNone)))
    rw [visitRemotes_eq]
    refine hmedia.mono fun m hm hheld => ?_
    rw [drop_maps] at hm
    have hnot := (List.mem_filter.mp hm).2
    cases hclient : m.client with
    | home conn =>
        rw [hclient] at hheld
        exact hheld
    | guest serial =>
        rw [hclient] at hheld hnot
        obtain ⟨r, hr, rfl⟩ := hheld
        have hnone : (visit r).isNone = false := by
          by_contra hnone
          rw [Bool.not_eq_false] at hnone
          refine absurd hnot ?_
          simp only [Bool.not_eq_true', Bool.not_eq_false]
          exact List.any_eq_true.mpr ⟨r, List.mem_filter.mpr ⟨hr, hnone⟩, beq_self_eq_true _⟩
        have hstay := hstays r hr hnone
        rw [visitRemotes_eq] at hstay
        exact hstay
  · intro r hr
    obtain ⟨r₀, hr₀, hserial, -⟩ := hkept r hr
    rw [hserial]
    exact h.fresh r₀ hr₀
  · intro r hr
    obtain ⟨r₀, hr₀, -, horigin⟩ := hkept r hr
    rw [horigin]
    exact h.origins r₀ hr₀

/-! ### One event -/

namespace Sound

theorem loc_ne_empty (h : Sound api s) : api.self.id ≠ "" := by
  obtain ⟨site, hroot⟩ := h.tree.root
  have hvalid := h.tree.valid _ (by rw [hroot]; exact List.mem_cons_self)
  exact validId_ne_empty hvalid

/-- What is routed to is not the local server. -/
theorem ne_of_route (h : Sound api s) {node : String} (hroute : (s.route node).isSome = true) :
    node ≠ api.self.id := by
  rintro rfl
  rw [Tables.route, h.tree.route_loc] at hroute
  exact absurd hroute (by simp)

theorem mapped (h : Sound api s)
    (hmaps : MediaSound (Held s.clients.entries s.remotes.entries) api.self.id maps) :
    Sound api { s with media := maps } where
  __ := h
  media := hmaps

/-- More local sessions. -/
theorem grown (h : Sound api s) {clients : Counted Client}
    (hclients : clients.Sound maxRelaySessions)
    (hsub : ∀ c ∈ s.clients.entries, c ∈ clients.entries) :
    Sound api { s with clients := clients } where
  __ := h
  clients := hclients
  media := h.media.mono fun m _ hheld => by
    cases hclient : m.client with
    | home conn =>
        rw [hclient] at hheld
        obtain ⟨c, hc, hconn⟩ := hheld
        exact ⟨c, hsub c hc, hconn⟩
    | guest serial =>
        rw [hclient] at hheld
        exact hheld

theorem subscribed (h : Sound api s) {subscriptions : Counted Subscription}
    (hsound : subscriptions.Sound maxSubscriptions)
    (hnodes : ∀ b ∈ subscriptions.entries, b.node ≠ api.self.id) :
    Sound api { s with subscriptions := subscriptions } where
  __ := h
  subscriptions := hsound
  nodes := hnodes

theorem listed (h : Sound api s) {catalog : Catalog.Store} (hcatalog : Orderly api catalog) :
    Sound api { s with catalog := catalog } where
  __ := h
  catalog := hcatalog

end Sound

theorem clientFor_cases (conn : Nat) (id : String) (alloc : Bool) (clients : Counted Client) :
    clientFor conn id alloc clients = clients ∨ clients.count ≠ maxRelaySessions ∧
      clientFor conn id alloc clients = clients.push ⟨conn, id⟩ := by
  unfold clientFor
  split
  · exact .inl rfl
  · rename_i hargs
    simp only [Bool.or_eq_true, decide_eq_true_eq, not_or] at hargs
    exact .inr ⟨hargs.1.2, rfl⟩

theorem clientFor_sound {clients : Counted Client} (h : clients.Sound maxRelaySessions)
    (conn : Nat) (id : String) (alloc : Bool) :
    (clientFor conn id alloc clients).Sound maxRelaySessions ∧
      ∀ c ∈ clients.entries, c ∈ (clientFor conn id alloc clients).entries := by
  rcases clientFor_cases conn id alloc clients with hsame | ⟨hroom, hpush⟩
  · rw [hsame]
    exact ⟨h, fun _ hc => hc⟩
  · rw [hpush]
    exact ⟨h.push hroom _, fun _ hc => List.mem_cons_of_mem _ hc⟩

theorem clientFor_all {clients : Counted Client} (h : clients.Sound maxRelaySessions)
    (members : List (Nat × String)) :
    let clients' := members.foldl (fun clients x => clientFor x.1 x.2 true clients) clients
    clients'.Sound maxRelaySessions ∧ ∀ c ∈ clients.entries, c ∈ clients'.entries := by
  induction members generalizing clients with
  | nil => exact ⟨h, fun _ hc => hc⟩
  | cons x members ih =>
      obtain ⟨hsound, hsub⟩ := clientFor_sound h x.1 x.2 true
      obtain ⟨hsound', hsub'⟩ := ih hsound
      exact ⟨hsound', fun c hc => hsub' c (hsub c hc)⟩

theorem Sound.closed (h : Sound api s) (conn : Nat) : Sound api (closeClient s conn) where
  __ := h
  clients := h.clients.purge _
  media := by
    refine (h.media.purged _).mono fun m hm hheld => ?_
    rw [Counted.entries_purge] at hm
    have hother := (List.mem_filter.mp hm).2
    cases hclient : m.client with
    | home other =>
        rw [hclient] at hheld hother
        obtain ⟨c, hc, rfl⟩ := hheld
        have hstay : c ∈ (s.clients.purge (·.conn == conn)).entries := by
          rw [Counted.entries_purge]
          exact List.mem_filter.mpr ⟨hc, by simpa using hother⟩
        exact ⟨c, hstay, rfl⟩
    | guest serial =>
        rw [hclient] at hheld
        exact hheld

theorem Sound.replied (h : Sound api s) {c : Client} (hc : c ∈ s.clients.entries)
    {r : RelayAdmission.Reply} (hr : r.origin ≠ api.self.id) (inRoom : String → Bool)
    (alloc : Bool) : Sound api (replyMedia s c r inRoom alloc) := by
  have hmade := h.media.made h.loc_ne_empty (held_home hc _) (r.body.get "media.chan-uuid" "")
    (r.body.get "media.cmd" "" == "available") alloc
  unfold replyMedia
  dsimp only
  generalize mediaMap (.home c.conn) _ _ alloc s.media = out at hmade ⊢
  obtain ⟨found, maps⟩ := out
  cases found with
  | none => exact h.mapped hmade
  | some m =>
      dsimp only
      split
      · split
        · exact h.mapped (hmade.changed (fun _ => rfl) fun _ _ => hr)
        · exact h.mapped hmade
      split
      · exact h.mapped hmade
      split
      · exact h.mapped (hmade.changed (fun _ => rfl) fun _ => id)
      split
      · exact h.mapped (hmade.changed (fun _ => rfl) fun _ => id)
      · exact h.mapped hmade

theorem Sound.received (h : Sound api s) {r : RelayAdmission.Reply} (hr : r.origin ≠ api.self.id)
    (inRoom : String → Bool) (alloc : Bool) : Sound api (receiveReply s r inRoom alloc) := by
  unfold receiveReply
  split
  · exact h
  rename_i c hfind
  have hc := List.mem_of_find?_eq_some hfind
  dsimp only
  split
  · exact h
  cases (RelayAdmission.membershipRoom r r.body).filter _ with
  | none =>
      dsimp only
      split
      · exact h.replied hc hr inRoom alloc
      · exact h
  | some room =>
      have h₁ := h.mapped (h.media.purged fun m =>
        (some (Conn.home c.conn)).all (m.client == ·) && (some r.origin).all (m.owner == ·) &&
          (some room).all (m.room == ·))
      dsimp only
      split
      · exact h₁.replied hc hr inRoom alloc
      · exact h₁

/-- A remote session is found, or one is made for a server that is routed to. -/
theorem ownerSession_cases (api : Api) (s : Tables) (origin id username : String) (alloc : Bool) :
    ownerSession api s origin id username alloc = (none, s) ∨
    (∃ r ∈ s.remotes.entries, ownerSession api s origin id username alloc = (some r, s)) ∨
    ∃ r : Remote, r.serial = s.serial ∧ r.origin = origin ∧ (s.route origin).isSome = true ∧
      s.remotes.count ≠ maxRelaySessions ∧
      ownerSession api s origin id username alloc =
        (some r, { s with remotes := s.remotes.push r, serial := s.serial + 1 }) := by
  unfold ownerSession
  split
  · exact .inl rfl
  rename_i hargs
  simp only [Bool.or_eq_true, not_or, Bool.not_eq_true, Option.isNone_eq_false_iff] at hargs
  split
  · rename_i r hfind
    split
    · exact .inl rfl
    · exact .inr (.inl ⟨r, List.mem_of_find?_eq_some hfind, rfl⟩)
  · split
    · exact .inl rfl
    · rename_i hroom
      simp only [Bool.or_eq_true, decide_eq_true_eq, not_or] at hroom
      exact .inr (.inr ⟨_, rfl, rfl, hargs.1.1.1.2, hroom.1, rfl⟩)

theorem Sound.joined (h : Sound api s) {r : Remote} (hserial : r.serial = s.serial)
    (horigin : r.origin ≠ api.self.id) (hroom : s.remotes.count ≠ maxRelaySessions) :
    Sound api { s with remotes := s.remotes.push r, serial := s.serial + 1 } where
  __ := h
  remotes := h.remotes.push hroom r
  media := h.media.mono fun m _ hheld => by
    cases hclient : m.client with
    | home conn =>
        rw [hclient] at hheld
        exact hheld
    | guest serial =>
        rw [hclient] at hheld
        obtain ⟨x, hx, hsame⟩ := hheld
        exact ⟨x, List.mem_cons_of_mem r hx, hsame⟩
  numbered := by
    refine List.nodup_cons.mpr ⟨fun hmem => ?_, h.numbered⟩
    obtain ⟨x, hx, hsame⟩ := List.mem_map.mp hmem
    have hlt := h.fresh x hx
    exact absurd (hsame.trans hserial) (Nat.ne_of_lt hlt)
  fresh := by
    intro x hx
    rcases List.mem_cons.mp hx with rfl | hx
    · show x.serial < s.serial + 1
      omega
    · exact Nat.lt_succ_of_lt (h.fresh x hx)
  origins := by
    intro x hx
    rcases List.mem_cons.mp hx with rfl | hx
    · exact horigin
    · exact h.origins x hx

/-- What is done once the session is there. -/
theorem Sound.outcome (h : Sound api s) {r : Remote} (hr : r ∈ s.remotes.entries) (alloc : Bool) :
    ∀ outcome : Outcome, Sound api (match outcome with
      | .denied => s
      | .frame uuid => { s with media := (mediaMap (.guest r.serial) uuid true alloc s.media).2 }
      | .processed isPtt =>
          visitRemotes (fun x => some (if x.serial = r.serial then processed isPtt x else x)) s)
  | .denied => h
  | .frame uuid => h.mapped (h.media.made h.loc_ne_empty (held_guest _ hr) uuid true alloc)
  | .processed isPtt => by
      refine h.visited fun x x' hx => ?_
      obtain rfl := Option.some.inj hx
      split
      · exact ⟨rfl, rfl⟩
      · exact ⟨rfl, rfl⟩

theorem Sound.executed (h : Sound api s) (origin id username : String) (alloc : Bool)
    (outcome : Outcome) : Sound api (execute api s origin id username alloc outcome) := by
  unfold execute
  rcases ownerSession_cases api s origin id username alloc with
    heq | ⟨r, hr, heq⟩ | ⟨r, hserial, rfl, hroute, hroom, heq⟩
  · rw [heq]
    exact h
  · rw [heq]
    have hout := h.outcome hr alloc outcome
    cases outcome <;> exact hout
  · rw [heq]
    have hout := (h.joined hserial (h.ne_of_route hroute) hroom).outcome List.mem_cons_self alloc
      outcome
    cases outcome <;> exact hout

theorem Sound.demanded (h : Sound api s) (dest origin room : String) (subscribe alloc : Bool) :
    Sound api (receiveDemand s dest origin room subscribe alloc) := by
  unfold receiveDemand
  dsimp only
  split
  · exact h
  rename_i hargs
  simp only [ne_eq, Bool.or_eq_true, decide_eq_true_eq, not_or, not_not] at hargs
  have horigin : origin ≠ api.self.id := h.ne_of_route (by rw [hargs.1.2]; rfl)
  split
  · split
    · rename_i hroom
      simp only [Bool.and_eq_true, decide_eq_true_eq] at hroom
      refine h.subscribed (h.subscriptions.push (Nat.ne_of_lt hroom.1.2) _) fun b hb => ?_
      rcases List.mem_cons.mp hb with rfl | hb
      · exact horigin
      · exact h.nodes b hb
    · exact h
  · refine h.subscribed (h.subscriptions.unlink _) fun b hb => ?_
    unfold Counted.unlink at hb
    split at hb
    · exact h.nodes b (List.mem_of_mem_eraseP hb)
    · exact h.nodes b hb

theorem directoryPut_length {l : List Directory} (h : l.length ≤ maxDirectories) (node : String)
    (users : Dict) (fits alloc : Bool) :
    (directoryPut node users fits alloc l).length ≤ maxDirectories := by
  unfold directoryPut
  split
  · exact h
  split
  · have hf : List.Forall₂ (fun _ _ => True) l
        (Lib.changeFirst (·.node == node) (fun e => { e with users := users }) l) :=
      Lib.forall₂_changeFirst (fun _ _ => trivial) (fun _ _ _ => trivial)
    rw [← hf.length_eq]
    exact h
  split
  · exact h
  · rename_i hroom
    simp only [Bool.or_eq_true, decide_eq_true_eq, not_or, Nat.not_le] at hroom
    exact hroom.1

theorem Sound.rejoined (h : Sound api s) (owner room : String) (members : List (Nat × String)) :
    Sound api (rejoinOwnedRoom s owner room members) := by
  obtain ⟨hclients, hsub⟩ := clientFor_all h.clients members
  refine (h.grown hclients hsub).subscribed (h.subscriptions.purge _) fun b hb => ?_
  rw [Counted.entries_purge] at hb
  exact h.nodes b (List.mem_of_mem_filter hb)

theorem Sound.put (h : Sound api s) (site : Catalog.Site) (a : Catalog.Answers)
    (owner : Catalog.Origin api.uuid) (d : Dict) (members : List (Nat × String)) :
    Sound api (catalogPut api s site a owner d members) := by
  have hcatalog := (Catalog.put_spec h.catalog site a false owner d).1
  unfold catalogPut
  generalize Catalog.catalogPut api site a false s.catalog owner d = out at hcatalog ⊢
  obtain ⟨why, catalog⟩ := out
  have h₁ := h.listed hcatalog
  dsimp only
  split
  · split
    · exact h₁
    · exact h₁.rejoined _ _ members
  · exact h₁

theorem removeRemote_same {v : Visit} {r r' : Remote} (hr : removeRemote v r = some r') :
    r'.serial = r.serial ∧ r'.origin = r.origin := by
  unfold removeRemote at hr
  split at hr
  · rw [Option.some.inj hr]
    exact ⟨rfl, rfl⟩
  split at hr
  · rw [← Option.some.inj hr]
    exact ⟨rfl, rfl⟩
  · cases hr

theorem retryRemotePtt_same (v : Visit) (r : Remote) :
    (retryRemotePtt v r).serial = r.serial ∧ (retryRemotePtt v r).origin = r.origin := by
  unfold retryRemotePtt
  repeat' split
  all_goals exact ⟨rfl, rfl⟩

/-- A walk that removes some of the sessions. -/
theorem Sound.removed (h : Sound api s) (sel : Remote → Bool) (v : Nat → Visit) :
    Sound api (visitRemotes
      (fun r => if sel r then removeRemote (v r.serial) r else some r) s) := by
  refine h.visited fun r r' hr => ?_
  split at hr
  · exact removeRemote_same hr
  · rw [Option.some.inj hr]
    exact ⟨rfl, rfl⟩

theorem Sound.polled (h : Sound api s) (v : Nat → Visit) : Sound api (poll s v) := by
  refine h.visited fun r r' hr => ?_
  split at hr
  · exact removeRemote_same hr
  · rw [← Option.some.inj hr]
    exact retryRemotePtt_same _ r

theorem Sound.touched (h : Sound api s) (serial : Nat) (keyed stays : Bool) :
    Sound api (visitRemotes
      (fun r => some (if r.serial = serial then touched keyed stays r else r)) s) := by
  refine h.visited fun r r' hr => ?_
  obtain rfl := Option.some.inj hr
  split
  · exact ⟨rfl, rfl⟩
  · exact ⟨rfl, rfl⟩

end RelayTables

end RustyRig
