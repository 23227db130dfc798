/-
What is left of the tables when servers are lost.

By the time `lost` runs the tree has changed already, so the tables may name any server that
was ever in it.  Every list is filtered by the tree as it is: what names a server that is gone
goes, what names others stays as it was.  A remote session of a lost server may stay for as
long as its transmission cannot be released, and with it the maps of its own channels.
-/
import RustyRig.Proofs.RelayTables.Sound

namespace RustyRig

namespace RelayTables

open Lib (Counted)
open Catalog (Api)

variable {api : Api} {s : Tables}

/-! ### The media maps -/

/-- The loop forgets the maps of every owner out of reach, and no others. -/
theorem entries_lostMedia (reach : String → Bool) (maps : Counted MediaEntry) :
    (lostMedia reach maps).entries =
      maps.entries.filter fun m => m.owner == "" || reach m.owner := by
  induction maps using lostMedia.induct reach with
  | case1 maps hnone =>
      rw [lostMedia, hnone]
      refine (List.filter_eq_self.mpr fun m hm => ?_).symm
      have hkeep := List.find?_eq_none.mp hnone m hm
      by_cases howner : m.owner = ""
      · simp [howner]
      · simpa [howner] using hkeep
  | case2 maps m hfind ih =>
      have hlost := List.find?_some hfind
      rw [lostMedia, hfind]
      show (lostMedia reach (mediaForget none (some m.owner) none maps)).entries = _
      rw [ih, mediaForget, Counted.entries_purge, List.filter_filter]
      refine List.filter_congr fun x _ => ?_
      by_cases howner : x.owner = m.owner
      · rw [howner]
        simpa using hlost
      · simp [howner]

theorem MediaSound.lost {maps : Counted MediaEntry} {P : Conn → Prop} {loc : String}
    (h : MediaSound P loc maps) (reach : String → Bool) :
    MediaSound P loc (lostMedia reach maps) := by
  induction maps using lostMedia.induct reach with
  | case1 maps hnone =>
      rw [lostMedia, hnone]
      exact h
  | case2 maps m hfind ih =>
      rw [lostMedia, hfind]
      exact ih (h.purged _)

/-! ### The whole handler -/

/-- The lists before the remote sessions are looked at. -/
def purged (api : Api) (s : Tables) : Tables :=
  { s with
    media := lostMedia (fun node => (s.route node).isSome) s.media
    subscriptions := s.subscriptions.purge fun b =>
      !(b.owner == api.self.id || (s.route b.owner).isSome) || !(s.route b.node).isSome }

theorem Sound.purged (h : Sound api s) : Sound api (purged api s) := by
  refine (h.mapped (h.media.lost _)).subscribed (h.subscriptions.purge _) fun b hb => ?_
  rw [Counted.entries_purge] at hb
  exact h.nodes b (List.mem_of_mem_filter hb)

/-- The look at one remote session. -/
def visitLost (v : Nat → Visit) (s : Tables) (r : Remote) : Option Remote :=
  if !(s.route r.origin).isSome then removeRemote (v r.serial) r else some r

theorem lost_eq (api : Api) (v : Nat → Visit) (s : Tables) :
    lost api v s = { visitRemotes (visitLost v s) (purged api s) with
      directories := s.directories.filter fun e =>
        e.node == api.self.id || (s.route e.node).isSome
      catalog := Catalog.lost api s.route s.catalog } := rfl

theorem Sound.lost (h : Sound api s) (v : Nat → Visit) : Sound api (lost api v s) := by
  have hvisited := h.purged.removed (fun r => !(s.route r.origin).isSome) v
  rw [lost_eq]
  exact
    { hvisited with
      catalog := h.catalog.purge List.filter_sublist (Catalog.count_purge h.catalog _)
      directories := (List.length_filter_le _ _).trans h.directories }

/-! ### Runs -/

theorem Sound.step (h : Sound api s) (e : Event api) : Sound api (step s e) := by
  cases e with
  | link op => exact { h with tree := h.tree.apply op }
  | put site a owner d members => exact h.put site a owner d members
  | collect site answers steps =>
      exact h.listed (Catalog.collectLocal_spec h.catalog site answers steps).1
  | refresh site answers steps =>
      exact h.listed (Catalog.refresh_spec h.catalog site answers steps).1
  | remove site pin fresh origin d =>
      exact h.listed (Catalog.remove_spec h.catalog site pin fresh origin d).1
  | users node d fits alloc =>
      exact { h with directories := directoryPut_length h.directories node d fits alloc }
  | demand dest origin room subscribe alloc => exact h.demanded dest origin room subscribe alloc
  | relays conn id alloc =>
      obtain ⟨hsound, hsub⟩ := clientFor_sound h.clients conn id alloc
      exact h.grown hsound hsub
  | home conn uuid home => exact h.mapped (h.media.changed (fun _ => rfl) fun _ => id)
  | closed conn => exact h.closed conn
  | reply r inRoom alloc =>
      unfold RelayTables.step
      dsimp only
      split
      · rename_i hroute
        exact h.received (h.ne_of_route hroute) inRoom alloc
      · exact h
  | request origin id username alloc outcome => exact h.executed origin id username alloc outcome
  | touched serial keyed stays => exact h.touched serial keyed stays
  | close origin id v => exact h.removed (fun r => r.origin == origin && r.id == id) v
  | poll v => exact h.polled v
  | lost v => exact h.lost v

theorem Sound.run (h : Sound api s) (events : List (Event api)) : Sound api (run s events) := by
  unfold RelayTables.run
  induction events generalizing s with
  | nil => exact h
  | cons e events ih => exact ih (h.step e)

theorem sound_init {tree : LinkTree} (htree : LinkTree.WellFormed api.uuid api.self.id tree)
    (ids : Identity.Receiver) : Sound api (init tree ids) where
  tree := htree
  catalog := Catalog.Orderly.start api ids
  directories := Nat.zero_le _
  clients := .empty
  remotes := .empty
  subscriptions := .empty
  media := ⟨.empty, fun _ h => absurd h List.not_mem_nil, fun _ h => absurd h List.not_mem_nil⟩
  numbered := List.nodup_nil
  fresh _ h := absurd h List.not_mem_nil
  origins _ h := absurd h List.not_mem_nil
  nodes _ h := absurd h List.not_mem_nil

/-! ### What is left -/

/-- The servers of the tree, the local one among them. -/
def Tables.servers (s : Tables) : List String := s.tree.nodes.map (·.server)

theorem Sound.route_iff (h : Sound api s) (node : String) :
    (s.route node).isSome = true ↔ node ∈ s.servers ∧ node ≠ api.self.id := by
  constructor
  · intro hroute
    refine ⟨?_, h.ne_of_route hroute⟩
    unfold Tables.route LinkTree.route at hroute
    split at hroute
    · rename_i n hfind
      obtain ⟨hn, hid⟩ := LinkTree.find_mem hfind
      rw [Option.some.inj hid]
      exact List.mem_map_of_mem hn
    · exact absurd hroute (by simp)
  · rintro ⟨hmem, hne⟩
    obtain ⟨n, hn, rfl⟩ := List.mem_map.mp hmem
    obtain ⟨site, hroot⟩ := h.tree.root
    rw [hroot] at hn
    rcases List.mem_cons.mp hn with rfl | hn
    · exact absurd rfl hne
    · rw [Tables.route, h.tree.route_server hn]
      rfl

theorem Sound.self_mem (h : Sound api s) : api.self.id ∈ s.servers := by
  obtain ⟨site, hroot⟩ := h.tree.root
  rw [Tables.servers, hroot]
  exact List.mem_cons_self

theorem Sound.served_iff (h : Sound api s) (node : String) :
    (node == api.self.id || (s.route node).isSome) = true ↔ node ∈ s.servers := by
  rw [Bool.or_eq_true, beq_iff_eq, h.route_iff]
  constructor
  · rintro (rfl | ⟨hmem, -⟩)
    · exact h.self_mem
    · exact hmem
  · intro hmem
    by_cases hself : node = api.self.id
    · exact .inl hself
    · exact .inr ⟨hmem, hself⟩

theorem Sound.served_eq (h : Sound api s) (node : String) :
    (node == api.self.id || (s.route node).isSome) = decide (node ∈ s.servers) :=
  Bool.eq_iff_iff.mpr ((h.served_iff node).trans decide_eq_true_iff.symm)

/-- Out of its own link, waiting for the release of its transmission to be tried again. -/
def Remote.Retrying (v : Visit) (r : Remote) : Prop :=
  r.authenticated = false ∧ v.now < r.releaseRetry

theorem retrying_of_removeRemote {v : Visit} {r r' : Remote} (hr : removeRemote v r = some r') :
    r'.Retrying v := by
  unfold removeRemote at hr
  split at hr
  · rename_i hwait
    rw [Bool.and_eq_true, Bool.not_eq_true', decide_eq_true_eq] at hwait
    obtain rfl := Option.some.inj hr
    exact hwait
  split at hr
  · obtain rfl := Option.some.inj hr
    exact ⟨rfl, Nat.lt_add_of_pos_right (by decide)⟩
  · cases hr

/-- The tables name the servers of the tree, and no others. -/
structure Confined (v : Nat → Visit) (s : Tables) : Prop where
  catalog : ∀ c ∈ s.catalog.entries, c.owner ∈ s.servers
  subscriptions : ∀ b ∈ s.subscriptions.entries, b.owner ∈ s.servers ∧ b.node ∈ s.servers
  remotes : ∀ r ∈ s.remotes.entries, r.origin ∈ s.servers ∨ r.Retrying (v r.serial)
  /-- A map without an owner is of a channel of this server, or has not been described yet. -/
  media : ∀ m ∈ s.media.entries, (m.owner = "" ∨ m.owner ∈ s.servers) ∧
    Held s.clients.entries s.remotes.entries m.client
  directories : ∀ e ∈ s.directories, e.node ∈ s.servers

/-- Every counter is the length of its list, within its bound. -/
structure Counts (s : Tables) : Prop where
  catalog : s.catalog.count = s.catalog.entries.length ∧ s.catalog.count ≤ Catalog.maxCatalog
  subscriptions : s.subscriptions.Sound maxSubscriptions
  clients : s.clients.Sound maxRelaySessions
  remotes : s.remotes.Sound maxRelaySessions
  media : s.media.Sound maxRelayMedia
  directories : s.directories.length ≤ maxDirectories

/-- What is of the servers of the tree is as it was, in the order in which it was. -/
structure Untouched (s s' : Tables) : Prop where
  tree : s'.tree = s.tree
  catalog : s'.catalog.entries = s.catalog.entries.filter (·.owner ∈ s.servers)
  subscriptions : s'.subscriptions.entries =
    s.subscriptions.entries.filter fun b => b.owner ∈ s.servers ∧ b.node ∈ s.servers
  clients : s'.clients = s.clients
  remotes : s'.remotes.entries.filter (·.origin ∈ s.servers) =
    s.remotes.entries.filter (·.origin ∈ s.servers)
  media : s'.media.entries.Sublist s.media.entries
  maps : ∀ m, m ∈ s'.media.entries ↔ m ∈ s.media.entries ∧ (m.owner = "" ∨ m.owner ∈ s.servers) ∧
    Held s'.clients.entries s'.remotes.entries m.client
  directories : s'.directories = s.directories.filter (·.node ∈ s.servers)

theorem Sound.counts (h : Sound api s) : Counts s where
  catalog := ⟨h.catalog.counted, h.catalog.bounded⟩
  subscriptions := h.subscriptions
  clients := h.clients
  remotes := h.remotes
  media := h.media.sound
  directories := h.directories

/-! ### The lists after the handler -/

theorem Sound.catalog_lost (h : Sound api s) (v : Nat → Visit) :
    (RelayTables.lost api v s).catalog.entries =
      s.catalog.entries.filter (·.owner ∈ s.servers) := by
  refine List.filter_congr fun c _ => ?_
  rw [Catalog.stranded, Bool.not_not]
  exact h.served_eq c.owner

theorem Sound.directories_lost (h : Sound api s) (v : Nat → Visit) :
    (RelayTables.lost api v s).directories = s.directories.filter (·.node ∈ s.servers) :=
  List.filter_congr fun e _ => h.served_eq e.node

theorem Sound.subscriptions_lost (h : Sound api s) (v : Nat → Visit) :
    (RelayTables.lost api v s).subscriptions.entries =
      s.subscriptions.entries.filter fun b => b.owner ∈ s.servers ∧ b.node ∈ s.servers := by
  show (RelayTables.purged api s).subscriptions.entries = _
  rw [RelayTables.purged, Counted.entries_purge]
  refine List.filter_congr fun b hb => ?_
  have hnode : (s.route b.node).isSome = decide (b.node ∈ s.servers) :=
    Bool.eq_iff_iff.mpr ((h.route_iff b.node).trans
      ⟨fun hmem => decide_eq_true hmem.1, fun hmem => ⟨of_decide_eq_true hmem, h.nodes b hb⟩⟩)
  rw [h.served_eq, hnode]
  simp

theorem remotes_lost (api : Api) (v : Nat → Visit) (s : Tables) :
    (RelayTables.lost api v s).remotes.entries = s.remotes.entries.filterMap (visitLost v s) :=
  remotes_visited (visitLost v s) (RelayTables.purged api s)

theorem media_lost (api : Api) (v : Nat → Visit) (s : Tables) :
    (RelayTables.lost api v s).media.entries =
      (s.media.entries.filter fun m => m.owner == "" || (s.route m.owner).isSome).filter
        fun m => !(s.remotes.entries.filter (visitLost v s · |>.isNone)).any
          fun r => m.client == .guest r.serial := by
  rw [lost_eq, visitRemotes_eq, drop_maps, RelayTables.purged, entries_lostMedia]

theorem visitLost_some {v : Nat → Visit} {r r' : Remote} (hr : visitLost v s r = some r') :
    r'.serial = r.serial ∧ r'.origin = r.origin ∧
      ((s.route r.origin).isSome = true ∧ r' = r ∨ r'.Retrying (v r'.serial)) := by
  unfold visitLost at hr
  split at hr
  · obtain ⟨hserial, horigin⟩ := removeRemote_same hr
    refine ⟨hserial, horigin, .inr ?_⟩
    rw [hserial]
    exact retrying_of_removeRemote hr
  · rename_i hroute
    obtain rfl := Option.some.inj hr
    rw [Bool.not_eq_true', Bool.not_eq_false] at hroute
    exact ⟨rfl, rfl, .inl ⟨hroute, rfl⟩⟩

theorem Sound.confined (h : Sound api s) (v : Nat → Visit) :
    Confined v (RelayTables.lost api v s) where
  catalog c hc := by
    rw [h.catalog_lost] at hc
    exact of_decide_eq_true (List.mem_filter.mp hc).2
  subscriptions b hb := by
    rw [h.subscriptions_lost] at hb
    exact of_decide_eq_true (List.mem_filter.mp hb).2
  remotes r hr := by
    rw [remotes_lost] at hr
    obtain ⟨r₀, -, hvisit⟩ := List.mem_filterMap.mp hr
    obtain ⟨-, -, ⟨hroute, rfl⟩ | hretry⟩ := visitLost_some hvisit
    · exact .inl ((h.route_iff r.origin).mp hroute).1
    · exact .inr hretry
  media m hm := by
    refine ⟨?_, (h.lost v).media.attached m hm⟩
    rw [media_lost] at hm
    have hreach := (List.mem_filter.mp (List.mem_of_mem_filter hm)).2
    rw [Bool.or_eq_true, beq_iff_eq, h.route_iff] at hreach
    exact hreach.imp_right And.left
  directories e he := by
    rw [h.directories_lost] at he
    exact of_decide_eq_true (List.mem_filter.mp he).2

/-- A map goes with its session: one whose session stays is there still. -/
theorem Sound.mem_media_lost (h : Sound api s) (v : Nat → Visit) (m : MediaEntry) :
    m ∈ (RelayTables.lost api v s).media.entries ↔
      m ∈ s.media.entries ∧ (m.owner = "" ∨ m.owner ∈ s.servers) ∧
        Held (RelayTables.lost api v s).clients.entries
          (RelayTables.lost api v s).remotes.entries m.client := by
  have hconfined := h.confined v
  constructor
  · intro hm
    refine ⟨?_, hconfined.media m hm⟩
    rw [media_lost] at hm
    exact List.mem_of_mem_filter (List.mem_of_mem_filter hm)
  · rintro ⟨hm, howner, hheld⟩
    rw [media_lost]
    refine List.mem_filter.mpr ⟨List.mem_filter.mpr ⟨hm, ?_⟩, ?_⟩
    · rw [Bool.or_eq_true, beq_iff_eq, h.route_iff]
      exact howner.imp_right fun hmem => ⟨hmem, h.media.elsewhere m hm⟩
    · rw [Bool.not_eq_true']
      refine List.any_eq_false.mpr fun r hr => ?_
      obtain ⟨hr, hnone⟩ := List.mem_filter.mp hr
      rw [beq_iff_eq]
      intro hclient
      rw [hclient, remotes_lost] at hheld
      obtain ⟨r', hr', hserial⟩ := hheld
      obtain ⟨r₀, hr₀, hvisit⟩ := List.mem_filterMap.mp hr'
      -- the session that stays and the one that is removed would have one serial
      have hsame : r₀ = r := List.inj_on_of_nodup_map h.numbered hr₀ hr
        ((visitLost_some hvisit).1.symm.trans hserial)
      rw [← hsame, hvisit] at hnone
      exact absurd hnone (by simp)

theorem Sound.untouched (h : Sound api s) (v : Nat → Visit) :
    Untouched s (RelayTables.lost api v s) where
  tree := rfl
  catalog := h.catalog_lost v
  subscriptions := h.subscriptions_lost v
  clients := rfl
  remotes := by
    have hkept : ∀ r ∈ s.remotes.entries, (s.route r.origin).isSome = decide (r.origin ∈ s.servers) :=
      fun r hr => Bool.eq_iff_iff.mpr ((h.route_iff r.origin).trans
        ⟨fun hmem => decide_eq_true hmem.1, fun hmem => ⟨of_decide_eq_true hmem, h.origins r hr⟩⟩)
    rw [remotes_lost]
    generalize s.remotes.entries = l at hkept
    induction l with
    | nil => rfl
    | cons r l ih =>
        have ih := ih fun x hx => hkept x (List.mem_cons_of_mem r hx)
        have hr := hkept r List.mem_cons_self
        rw [List.filterMap_cons, List.filter_cons]
        cases hmem : decide (r.origin ∈ s.servers) with
        | true =>
            have hvisit : visitLost v s r = some r := by
              unfold visitLost
              rw [hr, hmem]
              rfl
            rw [hvisit]
            simp only [List.filter_cons, hmem, if_true, ih]
        | false =>
            simp only [Bool.false_eq_true, if_false]
            cases hvisit : visitLost v s r with
            | none => exact ih
            | some r' =>
                have hgone : decide (r'.origin ∈ s.servers) = false := by
                  rw [(visitLost_some hvisit).2.1]
                  exact hmem
                simp only [List.filter_cons, hgone, Bool.false_eq_true, if_false, ih]
  media := by
    rw [media_lost]
    exact List.filter_sublist.trans List.filter_sublist
  maps := h.mem_media_lost v
  directories := h.directories_lost v

/-- **After servers are lost.**  Whatever happened before, and whichever servers the tree has
lost by then: what the handler leaves names servers of the tree only, but for a remote session
that waits to have its transmission released; every counter is the length of its list; and
what is of the other servers is as it was. -/
theorem lost_cleanup {limit : Nat} {tree : LinkTree}
    (hnew : LinkTree.new api.uuid (some api.self.id) limit = some tree) (ids : Identity.Receiver)
    (events : List (Event api)) (v : Nat → Visit) :
    let s := run (init tree ids) events
    let s' := RelayTables.lost api v s
    Confined v s' ∧ Counts s' ∧ Untouched s s' := by
  have h : Sound api (run (init tree ids) events) :=
    (sound_init (LinkTree.WellFormed.new hnew).1 ids).run events
  exact ⟨h.confined v, (h.lost v).counts, h.untouched v⟩

/-! ### A server behind a neighbour is withdrawn -/

def neighbour : String := "22222222-2222-2222-2222-222222222222"
def behind : String := "33333333-3333-3333-3333-333333333333"

def start : LinkTree :=
  { nodes := [{ server := Catalog.exampleApi.self.id, parent := "", peer := "", site := "" }]
    limit := 8 }

theorem start_new :
    LinkTree.new Catalog.exampleApi.uuid (some Catalog.exampleApi.self.id) 8 = some start := by
  decide +kernel

/-- Sessions of both servers are relayed to this one, the one from behind transmits, and then
the link in between is lost. -/
def withdrawn : List (Event Catalog.exampleApi) :=
  [.link (.attach (some neighbour)
      [⟨some neighbour, none, some "B"⟩, ⟨some behind, some neighbour, some "C"⟩]),
    .users neighbour .empty true true,
    .users behind .empty true true,
    .request neighbour "44444444-4444-4444-4444-444444444444" "alice" true (.processed false),
    .request behind "55555555-5555-5555-5555-555555555555" "bob" true (.processed true),
    .link (.remove (some neighbour) (some behind))]

/-- The backend does not take the release. -/
def refused (_ : Nat) : Visit := ⟨7, false, false⟩

/-- The session that transmits is kept, the directory is not. -/
theorem lost_cleanup_refused :
    let s := run (init start ⟨fun _ => none, fun _ => none⟩) withdrawn
    let s' := RelayTables.lost Catalog.exampleApi refused s
    s.directories.length = 2 ∧ s'.directories.length = 1 ∧
      s'.remotes.entries.map (·.chatname) = ["bob", "alice"] ∧ Confined refused s' := by
  intro s s'
  exact ⟨by decide +kernel, by decide +kernel, by decide +kernel,
    (lost_cleanup start_new ⟨fun _ => none, fun _ => none⟩ withdrawn refused).1⟩

end RelayTables

end RustyRig
