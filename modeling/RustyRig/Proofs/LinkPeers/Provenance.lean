/-
Who a server is directly linked to, and whose messages it hands on.

The sessions keep the invariant of the link tree whatever the peer table, the dials and the
tie-break decide; the mesh graph follows the sessions that are established.  A message for the
relay arrives on the one established session that the tree's route to its origin names.
-/
import RustyRig.Proofs.Link.Join
import RustyRig.Proofs.Link.Agreement
import RustyRig.Proofs.LinkMesh.Table
import RustyRig.Rrserver.LinkPeers

namespace RustyRig

namespace Station

open Links LinkTree

variable {c : Config} {node : String} {st st' : Station}

/-! ### The invariant -/

/-- The sessions own the branches of the tree, and the mesh follows the established ones. -/
structure Direct (c : Config) (node : String) (st : Station) : Prop where
  named : st.links.node = node
  sound : Sound c.uuid st.links
  mesh : Mesh.WellFormed node st.mesh
  spokes : Mesh.Spokes node st.links.Linked st.mesh

namespace Direct

/-- Nothing changes that the mesh follows. -/
theorem of_links (h : Direct c node st) (hmesh : st'.mesh = st.mesh)
    (hsound : Sound c.uuid st'.links) (hnode : st'.links.node = st.links.node)
    (hlinked : ∀ p, st'.links.Linked p ↔ st.links.Linked p) : Direct c node st' := by
  refine ⟨hnode.trans h.named, hsound, ?_, ?_⟩
  · rw [hmesh]
    exact h.mesh
  · rw [hmesh]
    exact h.spokes.congr hlinked

/-- The peer of an admitted session is a valid server, and not the local one. -/
theorem peer_valid (h : Direct c node st) {x : LinkSession} (hx : x ∈ st.links.sessions)
    (hadm : x.admitted = true) : validId c.uuid (some x.node) = true ∧ x.node ≠ node := by
  obtain ⟨n, hn, hserver, -⟩ := h.sound.rooted x hx hadm
  rw [← hserver, ← h.named]
  exact ⟨h.sound.tree.valid n (WellFormed.remote_mem hn), h.sound.tree.remote_ne hn⟩

theorem loc_valid (h : Direct c node st) : validId c.uuid (some node) = true := by
  obtain ⟨site, hroot⟩ := h.sound.tree.root
  have hvalid := h.sound.tree.valid
  rw [hroot, h.named] at hvalid
  exact hvalid _ List.mem_cons_self

theorem fail (h : Direct c node st) (id : Nat) : Direct c node (st.fail id) :=
  h.of_links rfl (h.sound.fail id) rfl (linked_fail id)

theorem newSession (h : Direct c node st) (outbound : Bool) (peer : Option Nat) :
    Direct c node (st.newSession outbound peer) := by
  refine h.of_links rfl h.sound.opened ?_ linked_newSession
  show st.links.newSession.node = st.links.node
  unfold Links.newSession
  split <;> rfl

theorem closeSession (h : Direct c node st) (id : Nat) : Direct c node (st.closeSession id) := by
  unfold Station.closeSession
  split
  · exact h
  rename_i x hx
  have hh := closeSession_cases h.sound id
  have hlinked := closeSession_linked h.sound hx
  refine ⟨hh.node_eq.trans h.named, hh.sound h.sound, ?_, ?_⟩
  · show Mesh.WellFormed node (if x.established then _ else _)
    split
    · exact h.mesh.removeEdge _ _
    · exact h.mesh
  · show Mesh.Spokes node (st.links.closeSession id).Linked (if x.established then _ else _)
    split
    · rename_i hest
      have hmem := (session_some hx).1
      rw [h.named]
      refine (h.spokes.removeEdge h.mesh (h.peer_valid hmem
        (h.sound.admitted_of_established hmem hest)).2).congr fun p => ?_
      simp [hlinked p, hest]
    · rename_i hest
      exact h.spokes.congr fun p => by simp [hlinked p, hest]

theorem dial (h : Direct c node st) (i : Nat) (due connected : Bool) :
    Direct c node (st.dial i due connected) := by
  unfold Station.dial
  split
  · exact h
  split
  · exact h
  split
  · exact h
  split
  · exact h
  have hnew := h.newSession true (some i)
  have hdialing : ∀ peers, Direct c node { st.newSession true (some i) with peers := peers } :=
    fun peers => hnew.of_links rfl hnew.sound rfl fun _ => Iff.rfl
  simp only
  split
  · exact hdialing _
  · exact (hdialing _).closeSession _

theorem authenticated (h : Direct c node st) (id : Nat) (a : PeerProof) (inDatabase : Bool) :
    Direct c node (st.authenticated c id a inDatabase) := by
  unfold Station.authenticated
  split
  · exact h
  split
  · exact h
  split
  · exact h.fail id
  have hauth : Direct c node { st with auth := Function.update st.auth id (some a) } :=
    h.of_links rfl h.sound rfl fun _ => Iff.rfl
  simp only
  split
  · exact hauth.fail id
  split
  · exact h.of_links rfl (h.sound.renamed _) rfl (linked_renamed _)
  · exact h.of_links rfl h.sound rfl fun _ => Iff.rfl

theorem greet (h : Direct c node st) (id : Nat) (hello : LinkHello) (i : Nat) (p : PeerEntry) :
    Direct c node (Station.handleHello.greet id hello c st i p) := by
  unfold Station.handleHello.greet
  split
  · exact h.fail id
  have hh := handleHello_cases (u := c.uuid) (s := st.links) id p.policy hello.node true
  exact h.of_links rfl (hh.sound h.sound) hh.node_eq
    (linked_handleHello h.sound id p.policy hello.node true)

theorem handleHello (h : Direct c node st) (id : Nat) (hello : LinkHello) (acl : Bool) :
    Direct c node (st.handleHello c id hello acl) := by
  unfold Station.handleHello
  split
  · exact h
  split
  · exact h
  split
  · exact h.fail id
  split
  · exact h.fail id
  split
  · exact h.fail id
  split
  · exact h.fail id
  split
  · split
    · exact h.fail id
    · exact (h.fail _).greet id hello _ _
  · exact h.greet id hello _ _

theorem handleFrame (h : Direct c node st) (id : Nat) (f : LinkFrame) :
    Direct c node (st.handleFrame c id f) := by
  unfold Station.handleFrame
  split
  · exact h
  have hh := handleFrame_cases h.sound id f
  have hnamed : (st.links.handleFrame c.uuid id f).node = node := hh.node_eq.trans h.named
  simp only
  rcases handleFrame_linked h.sound id f with ⟨x, hx, hnew, hadm, hy, hlinked⟩ | ⟨hsame, hlinked⟩
  · obtain ⟨hvalid, hne⟩ := h.peer_valid (session_some hx).1 hadm
    have hmesh : st.recordEdge c (st.links.handleFrame c.uuid id f) id =
        (Mesh.edge c.uuid st.mesh (some node) (some x.node) 1).2 := by
      simp [recordEdge, hx, hy, hnew, hnamed]
    rw [hmesh]
    exact ⟨hnamed, hh.sound h.sound, h.mesh.edge _ _ _,
      (h.spokes.edge h.mesh h.loc_valid hvalid hne).congr hlinked⟩
  · have hmesh : st.recordEdge c (st.links.handleFrame c.uuid id f) id = st.mesh := by
      unfold recordEdge
      split
      · rename_i x y hx hy
        rw [hsame x y hx hy]
        simp
      · rfl
    exact h.of_links hmesh (hh.sound h.sound) hh.node_eq hlinked

theorem application (h : Direct c node st) (id : Nat) (origin : String) :
    Direct c node (st.application id origin) := by
  unfold Station.application
  split
  · exact h
  split
  · exact h
  split
  · exact h.fail id
  split
  · exact h.fail id
  · exact h.of_links rfl h.sound rfl fun _ => Iff.rfl

theorem administer (h : Direct c node st) (i : Nat) (opens : Bool) :
    Direct c node (st.administer i opens) := by
  have hpeers : ∀ peers, Direct c node { st with peers := peers } :=
    fun peers => h.of_links rfl h.sound rfl fun _ => Iff.rfl
  unfold Station.administer
  split
  · exact h
  split
  · split
    · exact h
    · exact hpeers _
  simp only
  split
  · exact hpeers _
  · exact (hpeers _).fail _

theorem handle (h : Direct c node st) (e : Event) : Direct c node (handle c st e) := by
  cases e with
  | dial i due connected => exact h.dial i due connected
  | accept =>
      show Direct c node st.nativeOpen
      unfold nativeOpen
      split
      · exact h
      · exact h.newSession false none
  | authenticated id a inDatabase => exact h.authenticated id a inDatabase
  | hello id hello acl => exact h.handleHello id hello acl
  | frame id f => exact h.handleFrame id f
  | application id origin => exact h.application id origin
  | administer i opens => exact h.administer i opens
  | fail id => exact h.fail id
  | close id => exact h.closeSession id

theorem emptied (h : Direct c node st) :
    Direct c node { st with links := { st.links with sent := [] }, handed := [] } :=
  h.of_links rfl (h.sound.sent []) rfl fun _ => Iff.rfl

theorem step (h : Direct c node st) (e : Event) : Direct c node (step c st e) := h.emptied.handle e

theorem run (es : List Event) : ∀ {st : Station}, Direct c node st → Direct c node (run c st es) := by
  induction es with
  | nil => exact fun h => h
  | cons e es ih => exact fun h => ih (h.step e)

theorem init {limit : Nat} {peers : List PeerEntry} (hinit : init c node limit peers = some st) :
    Direct c node st := by
  unfold Station.init at hinit
  split at hinit
  swap
  · exact absurd hinit (by simp)
  rename_i links mesh hlinks hmesh
  split at hinit
  · exact absurd hinit (by simp)
  obtain rfl := Option.some.inj hinit
  refine ⟨init_node hlinks, sound_init hlinks, Mesh.WellFormed.new hmesh, ?_⟩
  have hnone : links.sessions = [] := by
    unfold Links.init at hlinks
    split at hlinks
    · exact absurd hlinks (by simp)
    split at hlinks
    · obtain rfl := Option.some.inj hlinks
      rfl
    · exact absurd hlinks (by simp)
  have hunlinked : ∀ p, ¬ links.Linked p := by
    rintro p ⟨x, hx, -⟩
    rw [hnone] at hx
    exact absurd hx List.not_mem_nil
  refine ⟨fun p hw => ?_, fun p hp => (hunlinked p hp).elim, fun p hp => (hunlinked p hp).elim⟩
  by_cases hvalid : validId c.uuid (some node) = true
  · rw [Mesh.new_eq hvalid] at hmesh
    obtain rfl := Option.some.inj hmesh
    obtain ⟨i, j, -, -, -, -, hne⟩ := Mesh.weight_ne_zero hw
    exact absurd rfl hne
  · simp [Mesh.new, hvalid] at hmesh

/-- The session that a message for a peer's branch goes out on is the peer's. -/
theorem carrier_eq (h : Direct c node st) {x : LinkSession} (hx : x ∈ st.links.sessions)
    (hest : x.established = true) {origin : String}
    (hroute : st.links.tree.route (some origin) = some x.node) :
    carrier st.links origin = some x := by
  unfold carrier
  rw [hroute, Option.bind_some]
  cases hfind : st.links.sessions.find? fun y => y.established && y.node == x.node with
  | none =>
      have := List.find?_eq_none.mp hfind x hx
      simp [hest] at this
  | some y =>
      have hy := List.mem_of_find?_eq_some hfind
      have hyx := List.find?_some hfind
      simp only [Bool.and_eq_true, beq_iff_eq] at hyx
      rw [h.sound.single y hy x hx (h.sound.admitted_of_established hy hyx.1)
        (h.sound.admitted_of_established hx hest) hyx.2]

end Direct

/-! ### What reaches the relay -/

theorem closeSession_handed (id : Nat) : (st.closeSession id).handed = st.handed := by
  unfold closeSession
  split <;> rfl

/-- Only an application message is handed on. -/
theorem handle_handed (e : Event) (he : ∀ id origin, e ≠ .application id origin) :
    (handle c st e).handed = st.handed := by
  cases e with
  | dial i due connected =>
      show (st.dial i due connected).handed = st.handed
      unfold dial
      repeat' split
      all_goals first | rfl | exact closeSession_handed _
  | accept =>
      show st.nativeOpen.handed = st.handed
      unfold nativeOpen
      split <;> rfl
  | authenticated id a inDatabase =>
      show (st.authenticated c id a inDatabase).handed = st.handed
      unfold authenticated
      repeat' split
      all_goals first | rfl | skip
      simp only
      split <;> rfl
  | hello id hello acl =>
      have hgreet : ∀ (t : Station) (i : Nat) (p : PeerEntry),
          (handleHello.greet id hello c t i p).handed = t.handed := by
        intro t i p
        unfold handleHello.greet
        split <;> rfl
      show (st.handleHello c id hello acl).handed = st.handed
      unfold handleHello
      repeat' split
      all_goals first | rfl | exact hgreet _ _ _
  | frame id f =>
      show (st.handleFrame c id f).handed = st.handed
      unfold handleFrame
      split <;> rfl
  | application id origin => exact absurd rfl (he id origin)
  | administer i opens =>
      show (st.administer i opens).handed = st.handed
      unfold administer
      repeat' split
      all_goals rfl
  | fail id => rfl
  | close id => exact closeSession_handed id

/-- **What is handed on came on the session that the route to its origin names.** -/
theorem step_handed (h : Direct c node st) {e : Event} {m : Nat × String}
    (hm : m ∈ (step c st e).handed) :
    e = .application m.1 m.2 ∧ (carrier st.links m.2).map (·.id) = some m.1 := by
  by_cases he : ∃ id origin, e = .application id origin
  swap
  · rw [step, handle_handed e fun id origin h => he ⟨id, origin, h⟩] at hm
    exact absurd hm List.not_mem_nil
  obtain ⟨id, origin, rfl⟩ := he
  simp only [step, handle, application] at hm
  split at hm
  · exact absurd hm List.not_mem_nil
  rename_i x hx
  split at hm
  · exact absurd hm List.not_mem_nil
  split at hm
  · exact absurd hm List.not_mem_nil
  rename_i hest
  split at hm
  · exact absurd hm List.not_mem_nil
  rename_i hroute
  rw [List.nil_append, List.mem_singleton] at hm
  obtain rfl := hm
  obtain ⟨hmem, hid⟩ := session_some hx
  refine ⟨rfl, ?_⟩
  have hcarrier := h.carrier_eq hmem (by simpa using hest) (by simpa using hroute)
  rw [hcarrier]
  exact congrArg some hid

/-! ### A mesh without room

A configured peer comes back under ever new identities, each enrolled with its key. -/

namespace Crowd

def loc : String := "aaaaaaaa-0000-4000-8000-000000000001"

def config : Config := ⟨.hex, "d", "A", 5⟩

def stem : List Char := "bbbbbbbb-0000-4000-8000-0000000000".toList

def guest (k : Nat) : String :=
  String.ofList (stem ++ [Nat.digitChar (k / 16), Nat.digitChar (k % 16)])

def proof (w : String) : PeerProof := ⟨w, "B", "K", "S"⟩

def host (node : String) (session : Option Nat) : PeerEntry :=
  ⟨⟨"B", "", false, 0⟩, node, false, "", false, some "K", "S", false, session⟩

/-- The session as it is accepted, and as far as it has come with `w`. -/
def fresh (k : Nat) : LinkSession :=
  ⟨k, default, "", 0, false, false, false, false, false, false, false⟩

def guestSession (k : Nat) (w : String) (g : UInt32) (admitted established : Bool) : LinkSession :=
  ⟨k, ⟨"B", "", false, 0⟩, w, g, true, true, admitted, admitted, established, established, false⟩

def alone : LinkTree := ⟨[⟨loc, "", "", "A"⟩], 8⟩

def joined (w : String) : LinkTree := ⟨[⟨loc, "", "", "A"⟩, ⟨w, loc, w, "B"⟩], 8⟩

def visit (k : Nat) (w : String) : List Event :=
  [.accept, .authenticated k (proof w) true, .hello k ⟨"d", w, "B"⟩ true,
    .frame k (.snapshot [⟨some w, none, some "B"⟩]), .frame k .ready]

/-- The first `k` guests come and go. -/
def visits : Nat → List Event
  | 0 => []
  | k + 1 => visits k ++ visit k (guest k) ++ [.close k]

variable {k : Nat} {w n : String} {g : UInt32} {m : Mesh} {o : Nat → Bool} {p : Nat → Option Nat}
  {a : Nat → Option PeerProof}

theorem accepted :
    handle config ⟨⟨loc, alone, g, [], k, []⟩, m, [host n none], o, p, a, []⟩ .accept =
      ⟨⟨loc, alone, g, [fresh k], k + 1, []⟩, m, [host n none], Function.update o k false,
        Function.update p k none, Function.update a k none, []⟩ := rfl

theorem proved (hp : p k = none) (ha : a k = none) :
    handle config ⟨⟨loc, alone, g, [fresh k], k + 1, []⟩, m, [host n none], o, p, a, []⟩
        (.authenticated k (proof w) true) =
      ⟨⟨loc, alone, g, [fresh k], k + 1, []⟩, m, [host w none], o,
        Function.update p k (some 0), Function.update a k (some (proof w)), []⟩ := by
  simp [handle, authenticated, Links.session, identityTrusted, authenticatedPeer, host,
    authenticate, List.findIdx?_cons, proof, fresh, hp, ha]

theorem greeted (hp : p k = some 0) (ha : a k = some (proof w))
    (hv : UuidFormat.hex.valid w = true) (hw : w ≠ loc) :
    handle config ⟨⟨loc, alone, g, [fresh k], k + 1, []⟩, m, [host w none], o, p, a, []⟩
        (.hello k ⟨"d", w, "B"⟩ true) =
      ⟨⟨loc, alone, g, [guestSession k w g false false], k + 1,
        [(k, .snapshot (snapshotNodes alone))]⟩, m, [host w (some k)], o,
        Function.update p k (some 0), a, []⟩ := by
  have hsize : "B".utf8ByteSize = 1 := by decide +kernel
  simp [handle, handleHello, Links.session, hp, ha, config, hv, hw, hsize, helloPeer, host,
    authentic, oldSession, handleHello.greet, joining, Links.handleHello, Links.modify,
    sendSnapshot, sendMessage, proof, fresh, guestSession]

theorem attached (ha : a k = some (proof w)) (hv : validId .hex (some w) = true) (hw : w ≠ loc) :
    handle config ⟨⟨loc, alone, g, [guestSession k w g false false], k + 1, []⟩, m,
        [host w (some k)], o, p, a, []⟩ (.frame k (.snapshot [⟨some w, none, some "B"⟩])) =
      ⟨⟨loc, joined w, g + 1, [guestSession k w g true false], k + 1, [(k, .ready)]⟩, m,
        [host w (some k)], o, p, a, []⟩ := by
  have hsite : validSite (some "B") = true := by decide +kernel
  simp [handle, handleFrame, Links.handleFrame, Links.session, ha, guestSession, handleSnapshot,
    namedPeer, snapshotPolicy, attach, hv, alone, joined, scan, hsite, find, hw.symm, walk, count,
    Links.modify, sendMessage, Links.establish, recordEdge, config, admitted, localServer]

theorem established (ha : a k = some (proof w)) :
    handle config ⟨⟨loc, joined w, g + 1, [guestSession k w g true false], k + 1, []⟩, m,
        [host w (some k)], o, p, a, []⟩ (.frame k .ready) =
      ⟨⟨loc, joined w, g + 1, [guestSession k w g true true], k + 1, []⟩,
        (Mesh.edge .hex m (some loc) (some w) 1).2, [host w (some k)], o, p, a, []⟩ := by
  simp [handle, handleFrame, Links.handleFrame, Links.session, ha, guestSession, Links.modify,
    Links.establish, recordEdge, config, foldl_announce, reached]

theorem closed (hp : p k = some 0) (hv : validId .hex (some w) = true) (hw : w ≠ loc) :
    handle config ⟨⟨loc, joined w, g + 1, [guestSession k w g true true], k + 1, []⟩, m,
        [host w (some k)], o, p, a, []⟩ (.close k) =
      ⟨⟨loc, alone, g + 1 + 1, [], k + 1, []⟩, (Mesh.removeEdge m (some loc) (some w)).2,
        [host w none], o, p, a, []⟩ := by
  simp [handle, closeSession, Links.closeSession, Links.session, hp, guestSession, joined, alone,
    LinkTree.remove, find, hw.symm, validId_ne_empty hv, indexOf, markAll, sweep, compact,
    List.findIdx?_cons, count, broadcast, host]

/-- A station without sessions, whose mesh knows the first `k` guests. -/
structure Idle (k : Nat) (st : Station) : Prop where
  links : ∃ g sent, st.links = ⟨loc, alone, g, [], k, sent⟩
  peers : ∃ n, st.peers = [host n none]
  mesh : Mesh.WellFormed loc st.mesh
  known : ∀ q, q ∈ st.mesh.id ↔ q = loc ∨ ∃ j < k, q = guest j

theorem run_append (es fs : List Event) : run c st (es ++ fs) = run c (run c st es) fs :=
  List.foldl_append

/-- A visit establishes a session, and leaves the link to the mesh. -/
theorem Idle.visit (h : Idle k st) (hv : validId .hex (some w) = true) (hw : w ≠ loc) :
    ∃ g o p a, p k = some 0 ∧ run config st (visit k w) =
      ⟨⟨loc, joined w, g + 1, [guestSession k w g true true], k + 1, []⟩,
        (Mesh.edge .hex st.mesh (some loc) (some w) 1).2, [host w (some k)], o, p, a, []⟩ := by
  obtain ⟨g, sent, hlinks⟩ := h.links
  obtain ⟨n, hpeers⟩ := h.peers
  obtain ⟨links, mesh, peers, o, p, a, handed⟩ := st
  simp only at hlinks hpeers
  subst hlinks hpeers
  have hvalid : UuidFormat.hex.valid w = true := by
    simp only [validId, Bool.and_eq_true] at hv
    exact hv.1
  refine ⟨g, Function.update o k false,
    Function.update (Function.update (Function.update p k none) k (some 0)) k (some 0),
    Function.update (Function.update a k none) k (some (proof w)), Function.update_self .., ?_⟩
  simp only [run, Crowd.visit, List.foldl_cons, List.foldl_nil, step]
  rw [accepted, proved (Function.update_self ..) (Function.update_self ..),
    greeted (Function.update_self ..) (Function.update_self ..) hvalid hw,
    attached (Function.update_self ..) hv hw, established (Function.update_self ..)]

theorem digitChar_inj : ∀ i j : Fin 16, Nat.digitChar i = Nat.digitChar j → i = j := by decide

theorem guest_inj {i j : Nat} (hi : i < 256) (hj : j < 256) (h : guest i = guest j) : i = j := by
  have hlist := List.append_cancel_left (String.ofList_injective h)
  obtain ⟨hhigh, hlow⟩ : Nat.digitChar (i / 16) = Nat.digitChar (j / 16) ∧
      Nat.digitChar (i % 16) = Nat.digitChar (j % 16) := by simpa using hlist
  have h₁ := digitChar_inj ⟨i / 16, by omega⟩ ⟨j / 16, by omega⟩ hhigh
  have h₂ := digitChar_inj ⟨i % 16, by omega⟩ ⟨j % 16, by omega⟩ hlow
  simp only [Fin.mk.injEq] at h₁ h₂
  omega

theorem stem_hex : (stem.zipIdx.all fun e => if e.2 ∈ [8, 13, 18, 23] then e.1 == '-'
      else e.1.isDigit || e.1.toLower ∈ ['a', 'b', 'c', 'd', 'e', 'f']) = true ∧
    (stem.all fun c => !(decide ('A' ≤ c) && decide (c ≤ 'F'))) = true ∧ stem.length = 34 := by
  decide +kernel

theorem digitChar_hex : ∀ i : Fin 16, ((Nat.digitChar i).isDigit ||
      (Nat.digitChar i).toLower ∈ ['a', 'b', 'c', 'd', 'e', 'f']) = true ∧
    (!(decide ('A' ≤ Nat.digitChar i) && decide (Nat.digitChar i ≤ 'F'))) = true := by
  decide

theorem guest_valid {k : Nat} (hk : k < 256) : validId .hex (some (guest k)) = true := by
  have hhigh := digitChar_hex ⟨k / 16, by omega⟩
  have hlow := digitChar_hex ⟨k % 16, by omega⟩
  obtain ⟨hstem, hcase, hsize⟩ := stem_hex
  have hlist : (guest k).toList = stem ++ [Nat.digitChar (k / 16), Nat.digitChar (k % 16)] :=
    String.toList_ofList
  have hlength : (guest k).length = 36 := by
    rw [← String.length_toList, hlist, List.length_append, hsize]
    rfl
  simp only at hhigh hlow
  simp only [validId, UuidFormat.hex, hlength, hlist, List.zipIdx_append, List.all_append, hstem,
    hcase, hsize, List.zipIdx_cons, List.zipIdx_nil, List.all_cons, List.all_nil]
  rw [if_neg (by decide), if_neg (by decide), hhigh.1, hhigh.2, hlow.1, hlow.2]
  rfl

theorem guest_ne (k : Nat) : guest k ≠ loc := by
  intro h
  have hfirst := congrArg (fun s => s.toList.take 1) h
  simp only [guest, String.toList_ofList] at hfirst
  rw [List.take_append_of_le_length (by decide +kernel)] at hfirst
  exact absurd hfirst (by decide +kernel)

/-- The mesh knows the local server and each guest once. -/
theorem Idle.count (h : Idle k st) (hk : k ≤ 255) : st.mesh.count = k + 1 := by
  have hperm : st.mesh.id.Perm (loc :: (List.range k).map guest) := by
    refine (List.perm_ext_iff_of_nodup h.mesh.distinct (List.nodup_cons.mpr ⟨?_, ?_⟩)).mpr ?_
    · intro hmem
      obtain ⟨j, hj, he⟩ := List.mem_map.mp hmem
      exact guest_ne j he
    · refine List.Nodup.map_on (fun i hi j hj he => ?_) List.nodup_range
      rw [List.mem_range] at hi hj
      exact guest_inj (by omega) (by omega) he
    · intro q
      rw [h.known q]
      simp [eq_comm]
  rw [Mesh.count, hperm.length_eq]
  simp

theorem Idle.visits (h : Idle 0 st) : ∀ k ≤ 255, Idle k (run config st (visits k)) := by
  intro k
  induction k with
  | zero => exact fun _ => h
  | succ k ih =>
      intro hk
      have hidle := ih (by omega)
      have hv := guest_valid (show k < 256 by omega)
      have hw := guest_ne k
      obtain ⟨g, o, p, a, hp, hvisit⟩ := hidle.visit hv hw
      rw [Crowd.visits, run_append, run_append, hvisit]
      show Idle (k + 1) (handle config _ (.close k))
      rw [closed hp hv hw]
      have hloc : validId .hex (some loc) = true := by decide +kernel
      have hmesh : Mesh.WellFormed loc (Mesh.edge .hex (run config st (Crowd.visits k)).mesh
          (some loc) (some (guest k)) 1).2 := hidle.mesh.edge _ _ _
      refine ⟨⟨_, _, rfl⟩, ⟨_, rfl⟩, hmesh.removeEdge _ _, fun q => ?_⟩
      rw [(hmesh.removeEdge_loc hw).2]
      rcases hidle.mesh.edge_loc_cases hloc hv hw with ⟨-, -, hmem, -⟩ | ⟨-, hfull, -⟩
      · rw [hmem q, hidle.known q]
        constructor
        · rintro ((rfl | ⟨j, hj, rfl⟩) | rfl)
          · exact .inl rfl
          · exact .inr ⟨j, by omega, rfl⟩
          · exact .inr ⟨k, by omega, rfl⟩
        · rintro (rfl | ⟨j, hj, rfl⟩)
          · exact .inl (.inl rfl)
          · rcases Nat.lt_succ_iff_lt_or_eq.mp hj with hj | rfl
            · exact .inl (.inr ⟨j, hj, rfl⟩)
            · exact .inr rfl
      · rw [hidle.count (by omega)] at hfull
        exact absurd hfull (by unfold Mesh.maxNodes; omega)

/-- The mesh is full when the last guest comes. -/
theorem Idle.crowded (h : Idle 255 st) :
    ∃ x ∈ (run config st (Crowd.visit 255 (guest 255))).links.sessions, x.established = true ∧
      x.node ∉ (run config st (Crowd.visit 255 (guest 255))).mesh.id := by
  have hv := guest_valid (show 255 < 256 by omega)
  have hw := guest_ne 255
  obtain ⟨g, o, p, a, -, hvisit⟩ := h.visit hv hw
  rw [hvisit]
  refine ⟨_, List.mem_singleton.mpr rfl, rfl, ?_⟩
  have hloc : validId .hex (some loc) = true := by decide +kernel
  rcases h.mesh.edge_loc_cases hloc hv hw with ⟨hroom, -⟩ | ⟨hnew, -, heq⟩
  · rcases hroom with hmem | hroom
    · rcases (h.known _).mp hmem with he | ⟨j, hj, he⟩
      · exact absurd he hw
      · exact absurd (guest_inj (by omega) (by omega) he) (by omega)
    · exact absurd (h.count (Nat.le_refl _)) hroom
  · rw [heq]
    exact hnew

theorem start_eq : Station.init config loc 8 [host "" none] =
    some ⟨⟨loc, alone, 0, [], 0, []⟩, ⟨[loc], fun _ _ => 0⟩, [host "" none], fun _ => false,
      fun _ => none, fun _ => none, []⟩ := rfl

end Crowd

/-! ### Every reachable state -/

theorem length_le_one {α : Type*} {l : List α} (hd : l.Nodup) (h : ∀ x ∈ l, ∀ y ∈ l, x = y) :
    l.length ≤ 1 := by
  match l, hd, h with
  | [], _, _ => exact Nat.zero_le _
  | [_], _, _ => exact Nat.le_refl _
  | x :: y :: l, hd, h =>
      have hxy := h x List.mem_cons_self y (List.mem_cons_of_mem _ List.mem_cons_self)
      rw [hxy] at hd
      exact absurd List.mem_cons_self (List.nodup_cons.mp hd).1

/-- **A server has at most one established session with each other server, admits one at a time,
hands on only what came the way the tree routes, and has the mesh links of its established
sessions, as far as the mesh table, which forgets no server, has room for their peers.** -/
theorem direct_peers (c : Config) (node : String) (limit : Nat) (peers : List PeerEntry)
    (st₀ : Station) (hinit : Station.init c node limit peers = some st₀) (es : List Event) :
    let st := run c st₀ es
    (∀ p, (st.links.sessions.filter fun x => x.established && x.node == p).length ≤ 1) ∧
      (st.links.sessions.filter fun x => x.admitted && !x.established).length ≤ 1 ∧
      (∀ e, ∀ m ∈ (step c st e).handed,
        e = .application m.1 m.2 ∧ (carrier st.links m.2).map (·.id) = some m.1) ∧
      (∀ p, st.mesh.edgeCost (some p) (some node) = st.mesh.edgeCost (some node) (some p)) ∧
      (∀ p, st.mesh.edgeCost (some node) (some p) ≠ 0 ↔
        p ∈ st.mesh.id ∧ ∃ x ∈ st.links.sessions, x.established = true ∧ x.node = p) ∧
      (∀ x ∈ st.links.sessions, x.established = true →
        x.node ∈ st.mesh.id ∨ st.mesh.count = Mesh.maxNodes) := by
  intro st
  have h : Direct c node st := (Direct.init hinit).run es
  have hnodup : st.links.sessions.Nodup := h.sound.ids.of_map
  have hweight : ∀ p, st.mesh.edgeCost (some node) (some p) ≠ 0 ↔ st.mesh.weight node p ≠ 0 := by
    intro p
    rw [Mesh.weight, not_iff_not, ← UInt32.toNat_inj]
    rfl
  refine ⟨fun p => length_le_one (hnodup.filter _) ?_, length_le_one (hnodup.filter _) ?_,
    fun e m hm => step_handed h hm, fun p => ?_, fun p => ?_, fun x hx hest => ?_⟩
  · intro x hx y hy
    simp only [List.mem_filter, Bool.and_eq_true, beq_iff_eq] at hx hy
    exact h.sound.single x hx.1 y hy.1 (h.sound.admitted_of_established hx.1 hx.2.1)
      (h.sound.admitted_of_established hy.1 hy.2.1) (hx.2.2.trans hy.2.2.symm)
  · intro x hx y hy
    simp only [List.mem_filter, Bool.and_eq_true, Bool.not_eq_true'] at hx hy
    exact h.sound.pending x hx.1 y hy.1 ⟨hx.2.2, .inl hx.2.1⟩ ⟨hy.2.2, .inl hy.2.1⟩
  · unfold Mesh.edgeCost
    rw [h.mesh.indexOf_loc]
    cases st.mesh.indexOf (some p) with
    | none => rfl
    | some i => exact h.mesh.symm i 0
  · rw [hweight]
    constructor
    · intro hw
      obtain ⟨i, j, -, hj, -, rfl, -⟩ := Mesh.weight_ne_zero hw
      exact ⟨Mesh.idAt_mem hj, h.spokes.linked _ hw⟩
    · rintro ⟨hid, hp⟩
      exact h.spokes.recorded p hp hid
  · by_cases hid : x.node ∈ st.mesh.id
    · exact .inl hid
    · exact .inr (h.spokes.room x.node ⟨x, hx, hest, rfl⟩ hid)

open Crowd in
/-- The first guest's session has its link. -/
theorem direct_peers_linked :
    ∃ st₀, Station.init config loc 8 [host "" none] = some st₀ ∧
      (run config st₀ (visit 0 (guest 0))).mesh.edgeCost (some loc) (some (guest 0)) ≠ 0 := by
  refine ⟨_, start_eq, ?_⟩
  have h := direct_peers config loc 8 [host "" none] _ start_eq (visit 0 (guest 0))
  exact (h.2.2.2.2.1 (guest 0)).mpr ⟨by decide +kernel, by decide +kernel⟩

open Crowd in
/-- Once 255 servers have come and gone, the mesh has no room for another: the session with the
next one is established and has no link. -/
theorem direct_peers_crowded :
    ∃ st₀, Station.init config loc 8 [host "" none] = some st₀ ∧
      let st := run config st₀ (visits 255 ++ visit 255 (guest 255))
      ¬ ∀ p, st.mesh.edgeCost (some loc) (some p) ≠ 0 ↔
        ∃ x ∈ st.links.sessions, x.established = true ∧ x.node = p := by
  refine ⟨_, start_eq, ?_⟩
  simp only
  have hstart : Idle 0 _ :=
    ⟨⟨_, _, rfl⟩, ⟨_, rfl⟩, (Direct.init start_eq).mesh, fun q => by simp⟩
  obtain ⟨x, hx, hest, hout⟩ := (hstart.visits 255 (Nat.le_refl _)).crowded
  rw [← run_append] at hx hout
  intro hclaim
  have hedge := (hclaim x.node).mpr ⟨x, hx, hest, rfl⟩
  have hweight : Mesh.weight _ loc x.node ≠ 0 := fun h0 => hedge (UInt32.toNat_inj.mp h0)
  obtain ⟨i, j, -, hj, -, he, -⟩ := Mesh.weight_ne_zero hweight
  rw [he] at hout
  exact hout (Mesh.idAt_mem hj)

end Station

end RustyRig
