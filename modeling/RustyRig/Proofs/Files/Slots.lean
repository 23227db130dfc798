/-
Slots are given back.

A slot is held for a client that is connected, or until a worker is done with the file.  So it
is free once an upload has failed, is cancelled, or has lost its client; at the latest when its
flush comes back.
-/
import RustyRig.Proofs.Files.Publication

namespace RustyRig

namespace Files

open Lib (Disk)

variable {s s' : Shares} {u v : Upload} {os : Os} {client c : Nat} {r : Request}

/-! ### Whoever has an upload had one before -/

/-- Nobody gets an upload, and nobody leaves. -/
structure Fewer (s s' : Shares) : Prop where
  session : s'.session = s.session
  uploads : ∀ v ∈ s'.uploads, ∀ c, v.client = some c → ∃ u ∈ s.uploads, u.client = some c

theorem Fewer.of_subset (hsession : s'.session = s.session)
    (hsub : ∀ v ∈ s'.uploads, v ∈ s.uploads) : Fewer s s' :=
  ⟨hsession, fun v hv _ hc => ⟨v, hsub v hv, hc⟩⟩

theorem Fewer.refl (s : Shares) : Fewer s s := .of_subset rfl fun _ hv => hv

theorem fewer_release (os : Os) (s : Shares) (u : Upload) : Fewer s (release os s u) :=
  .of_subset rfl fun _ hv => mem_release hv

/-- A change that only ever takes the client away. -/
theorem Fewer.map {n : Nat} {f : Upload → Upload} (hsession : s'.session = s.session)
    (huploads : s'.uploads = s.uploads.map fun x => if x.serial = n then f x else x)
    (hf : ∀ x, (f x).client = x.client ∨ (f x).client = none) : Fewer s s' := by
  refine ⟨hsession, fun v hv c hc => ?_⟩
  rw [huploads] at hv
  obtain ⟨u, hu, rfl⟩ := List.mem_map.mp hv
  refine ⟨u, hu, ?_⟩
  split at hc
  · rcases hf u with hsame | hnone
    · exact hsame.symm.trans hc
    · rw [hnone] at hc
      cases hc
  · exact hc

theorem fewer_discard (os : Os) (s : Shares) (u : Upload) : Fewer s (discard os s u) := by
  unfold discard
  split
  · exact .map rfl rfl fun _ => .inr rfl
  · exact fewer_release os s u

theorem fewer_left (os : Os) (s : Shares) (client : Nat) : Fewer s (discardJob os s client) := by
  unfold discardJob
  split
  · exact .refl s
  · exact fewer_discard os s _

theorem fewer_chunk (os : Os) (s : Shares) (u : Upload) (r : Request) :
    Fewer s (chunk s os u r).2 := by
  unfold chunk
  dsimp only
  split
  · exact .refl s
  split
  · exact fewer_release os s u
  split
  · exact fewer_release os s u
  split
  · exact .of_subset rfl fun _ hv => List.mem_of_mem_filter hv
  · exact .map rfl rfl fun _ => .inl rfl

theorem fewer_commit (os : Os) (s : Shares) (pool : Pool) (u : Upload) (parent : Nat)
    (name : String) : Fewer s (commit s os pool u parent name).2 := by
  unfold commit
  dsimp only
  split
  · exact fewer_release os s u
  split
  · exact fewer_release os s u
  split
  · exact fewer_release os s u
  · exact .map rfl rfl fun _ => .inl rfl
  · exact .map rfl rfl fun _ => .inr rfl

theorem fewer_advance (os : Os) (s : Shares) (pool : Pool) (client : Nat) (r : Request)
    (parent : Nat) (name : String) : Fewer s (advance s os pool client r parent name).2 := by
  unfold advance
  split
  · exact .refl s
  split
  · exact .refl s
  split
  · exact fewer_discard os s _
  split
  · exact .refl s
  split
  · exact fewer_chunk os s _ r
  · exact fewer_commit os s pool _ parent name

/-! ### Slots are held for clients that are there -/

/-- Every client that has an upload is connected. -/
def Connected (s : Shares) : Prop :=
  ∀ u ∈ s.uploads, ∀ c, u.client = some c → (s.session c).isSome = true

theorem Connected.fewer (h : Connected s) (hfewer : Fewer s s') : Connected s' := by
  intro v hv c hc
  obtain ⟨u, hu, hclient⟩ := hfewer.uploads v hv c hc
  rw [hfewer.session]
  exact h u hu c hclient

theorem Connected.begin (h : Connected s) {x : Session} (hx : s.session client = some x)
    (uuid : String) (r : Request) (parent : Nat) (name : String) :
    Connected (begin s os uuid client r parent name).2 := by
  unfold Files.begin
  split
  · exact h
  split
  · exact h
  split
  · exact h
  split
  · exact h
  dsimp only
  split
  · exact h
  · exact h
  split
  · exact h
  · intro v hv c hc
    rcases List.mem_cons.mp hv with rfl | hv
    · obtain rfl := Option.some.inj hc
      exact Option.isSome_iff_exists.mpr ⟨x, hx⟩
    · exact h v hv c hc

theorem Connected.request (h : Connected s) (uuid : String) (pool : Pool) (client : Nat)
    (r : Request) : Connected (request s os uuid pool client r).2 := by
  unfold Files.request
  split
  · exact h
  rename_i hauth
  obtain ⟨x, hx⟩ : ∃ x, s.session client = some x := by
    cases hx : s.session client with
    | none =>
        rw [hx] at hauth
        exact absurd rfl hauth
    | some x => exact ⟨x, rfl⟩
  split
  · exact h
  split
  · exact h
  split
  · dsimp only
    split
    · exact h.fewer (fewer_left os s client)
    · exact h
  dsimp only
  split
  · exact h
  split
  · exact h
  split
  · exact h.begin hx uuid r _ _
  split
  · exact h.fewer (fewer_advance os s pool client r _ _)
  split
  · unfold mkdir
    split <;> exact h
  split
  · unfold delete
    split
    · exact h
    · exact h
    split
    · exact h
    split <;> exact h
  split
  · unfold rename
    split
    · exact h
    · exact h
    split
    · exact h
    split
    · exact h
    split <;> exact h
  · exact h

/-! ### Who has no upload any more -/

/-- The client has no upload. -/
def Idle (s : Shares) (client : Nat) : Prop := ∀ u ∈ s.uploads, u.client ≠ some client

/-- No client has two. -/
def Single (s : Shares) : Prop :=
  ∀ u ∈ s.uploads, ∀ v ∈ s.uploads, ∀ c, u.client = some c → v.client = some c → u = v

theorem idle_of_job (hjob : job s client = none) : Idle s client := by
  intro v hv hc
  exact absurd (by simpa using hc) (List.find?_eq_none.mp hjob v hv)

/-- An upload's client has no other one. -/
theorem Single.idle_release (h : Single s) (os : Os) (hu : u ∈ s.uploads)
    (hclient : u.client = some client) (hs' : s'.uploads = s.uploads) :
    Idle (release os s' u) client := by
  intro v hv hc
  obtain ⟨hv, hne⟩ := List.mem_filter.mp hv
  rw [hs'] at hv
  rw [h v hv u hu client hc hclient] at hne
  simp at hne

theorem Single.idle_change (h : Single s) (hu : u ∈ s.uploads) (hclient : u.client = some client)
    {f : Upload → Upload} (hf : ∀ x, (f x).client = none) : Idle (change s u f) client := by
  intro v hv hc
  obtain ⟨w, hw, rfl⟩ := List.mem_map.mp hv
  split at hc
  · rw [hf] at hc
    cases hc
  · rename_i hne
    exact hne (congrArg Upload.serial (h w hw u hu client hc hclient))

theorem Single.idle_discard (h : Single s) (os : Os) (hu : u ∈ s.uploads)
    (hclient : u.client = some client) : Idle (discard os s u) client := by
  unfold discard
  split
  · exact h.idle_change hu hclient fun _ => rfl
  · exact h.idle_release os hu hclient rfl

theorem Single.idle_left (h : Single s) (os : Os) (client : Nat) :
    Idle (discardJob os s client) client := by
  unfold discardJob
  split
  · rename_i hnone
    exact idle_of_job hnone
  · rename_i u hjob
    obtain ⟨hu, hclient⟩ := mem_of_job hjob
    exact h.idle_discard os hu hclient

/-! ### Requests that fail -/

/-- A request that failed has changed nothing, or the client has no upload after it. -/
def Failed (s : Shares) (client : Nat) (s' : Shares) : Prop := s' = s ∨ Idle s' client

theorem begin_failed (s : Shares) (os : Os) (uuid : String) (client : Nat) (r : Request)
    (parent : Nat) (name : String) :
    (begin s os uuid client r parent name).1 = none ∨
      Failed s client (begin s os uuid client r parent name).2 := by
  unfold begin
  split
  · exact .inr (.inl rfl)
  rename_i hjob
  split
  · exact .inr (.inl rfl)
  split
  · exact .inr (.inl rfl)
  split
  · exact .inr (.inl rfl)
  dsimp only
  split
  · exact .inr (.inl rfl)
  · exact .inr (.inl rfl)
  split
  · exact .inr (.inr (idle_of_job (Option.not_isSome_iff_eq_none.mp hjob)))
  · exact .inl rfl

theorem chunk_failed (h : Single s) (os : Os) (r : Request) (hu : u ∈ s.uploads)
    (hclient : u.client = some client) :
    (chunk s os u r).1 = none ∨ Failed s client (chunk s os u r).2 := by
  unfold chunk
  dsimp only
  split
  · exact .inr (.inl rfl)
  split
  · exact .inr (.inr (h.idle_release os hu hclient rfl))
  split
  · exact .inr (.inr (h.idle_release os hu hclient rfl))
  split
  · exact .inr (.inr (h.idle_release os hu hclient rfl))
  · exact .inl rfl

theorem commit_failed (h : Single s) (os : Os) (pool : Pool) (parent : Nat) (name : String)
    (hu : u ∈ s.uploads) (hclient : u.client = some client) :
    (commit s os pool u parent name).1 = none ∨
      Failed s client (commit s os pool u parent name).2 := by
  unfold commit
  dsimp only
  split
  · exact .inr (.inr (h.idle_release os hu hclient rfl))
  split
  · exact .inr (.inr (h.idle_release os hu hclient rfl))
  split
  · exact .inr (.inr (h.idle_release os hu hclient rfl))
  · exact .inl rfl
  · exact .inr (.inr (h.idle_change hu hclient fun _ => rfl))

/-- One that succeeds or has no reply yet may have changed the upload, unless it was to be
cancelled. -/
theorem advance_failed (h : Single s) (os : Os) (pool : Pool) (client : Nat) (r : Request)
    (parent : Nat) (name : String) :
    let out := advance s os pool client r parent name
    (r.cmd = "cancel" → out.1 = some none → Idle out.2 client) ∧
      (out.1 = none ∨ out.1 = some none ∨ Failed s client out.2) := by
  unfold advance
  dsimp only
  split
  · exact ⟨nofun, .inr (.inr (.inl rfl))⟩
  rename_i u hjob
  obtain ⟨hu, hclient⟩ := mem_of_job hjob
  split
  · exact ⟨nofun, .inr (.inr (.inl rfl))⟩
  split
  · exact ⟨fun _ _ => h.idle_discard os hu hclient, .inr (.inl rfl)⟩
  rename_i hcancel
  refine ⟨fun hcmd => absurd hcmd hcancel, ?_⟩
  split
  · exact .inr (.inr (.inl rfl))
  split
  · exact .inr ((chunk_failed h os r hu hclient).imp_left fun hnone => congrArg some hnone)
  · exact (commit_failed h os pool parent name hu hclient).imp_right .inr

theorem mkdir_failed (s : Shares) (os : Os) (parent : Nat) (name : String) :
    (mkdir s os parent name).1 = none ∨ (mkdir s os parent name).2 = s := by
  unfold mkdir
  split
  · exact .inr rfl
  · exact .inr rfl
  · exact .inl rfl

theorem delete_failed (s : Shares) (os : Os) (parent : Nat) (name : String) :
    (delete s os parent name).1 = none ∨ (delete s os parent name).2 = s := by
  unfold delete
  split
  · exact .inr rfl
  · exact .inr rfl
  split
  · exact .inr rfl
  split
  · exact .inr rfl
  · exact .inl rfl

theorem rename_failed (s : Shares) (os : Os) (client : Nat) (r : Request) (parent : Nat)
    (name : String) :
    (rename s os client r parent name).1 = none ∨ (rename s os client r parent name).2 = s := by
  unfold rename
  split
  · exact .inr rfl
  · exact .inr rfl
  split
  · exact .inr rfl
  split
  · exact .inr rfl
  split
  · exact .inr rfl
  · exact .inr rfl
  · exact .inl rfl

/-- What the reply to a request tells of its client's upload. -/
structure Answered (s : Shares) (client : Nat) (r : Request) (out : Option Reply × Shares) :
    Prop where
  cancelled : r.cmd = "cancel" → out.1 = some (.result none) → Idle out.2 client
  failed : ∀ error, out.1 = some (.result (some error)) → Failed s client out.2

/-- Requests that are no upload's. -/
theorem answered_of_failed {out : Option Errno × Shares} (hcmd : r.cmd ≠ "cancel")
    (hfailed : out.1 = none ∨ Failed s client out.2) :
    Answered s client r (some (.result out.1), out.2) where
  cancelled hcancel := absurd hcancel hcmd
  failed error herror := by
    rcases hfailed with hnone | hfailed
    · rw [hnone] at herror
      cases herror
    · exact hfailed

theorem request_answered (h : Single s) (os : Os) (uuid : String) (pool : Pool) (client : Nat)
    (r : Request) : Answered s client r (request s os uuid pool client r) := by
  have hsame : ∀ reply, reply ≠ some (.result none) → Answered s client r (reply, s) :=
    fun _ hreply => ⟨fun _ hnone => absurd hnone hreply, fun _ _ => .inl rfl⟩
  unfold request
  split
  · exact hsame _ nofun
  split
  · exact hsame _ nofun
  split
  · exact hsame _ nofun
  split
  · refine ⟨nofun, fun _ _ => ?_⟩
    dsimp only
    split
    · exact .inr (h.idle_left os client)
    · exact .inl rfl
  rename_i parent name _
  dsimp only
  split
  · rename_i hread
    exact ⟨fun hcmd => absurd (hread.symm.trans hcmd) (by decide), fun _ _ => .inl rfl⟩
  split
  · exact hsame _ nofun
  split
  · rename_i hcmd
    exact answered_of_failed (by rw [hcmd]; decide) (begin_failed s os uuid client r parent name)
  split
  · obtain ⟨hcancelled, hfailed⟩ := advance_failed h os pool client r parent name
    refine ⟨fun hcmd hdone => hcancelled hcmd ?_, fun error herror => ?_⟩
    · obtain ⟨reply, hreply, hnone⟩ := Option.map_eq_some_iff.mp hdone
      rw [hreply, Reply.result.inj hnone]
    · obtain ⟨reply, hreply, hsome⟩ := Option.map_eq_some_iff.mp herror
      rw [hreply, Reply.result.inj hsome] at hfailed
      exact (hfailed.resolve_left nofun).resolve_left nofun
  rename_i hupload
  have hcmd : r.cmd ≠ "cancel" := fun hcancel => hupload (by rw [hcancel]; decide)
  split
  · exact answered_of_failed hcmd ((mkdir_failed s os parent name).imp_right .inl)
  split
  · exact answered_of_failed hcmd ((delete_failed s os parent name).imp_right .inl)
  split
  · exact answered_of_failed hcmd ((rename_failed s os client r parent name).imp_right .inl)
  · exact hsame _ nofun

/-! ### Any step of any run -/

theorem Single.connected_closed (h : Single s) (hc : Connected s) (os : Os) (client : Nat) :
    Connected (closed os s client) := by
  intro v hv c hclient
  have hidle : c ≠ client := fun hsame => h.idle_left os client v hv (hsame ▸ hclient)
  show (Function.update (discardJob os s client).session client none c).isSome = true
  rw [Function.update_of_ne hidle]
  exact hc.fewer (fewer_left os s client) v hv c hclient

theorem publish_fewer (s : Shares) (os : Os) (client : Nat) (u : Upload) :
    Fewer s (publish s os client u).2 := by
  rcases publish_cases s os client u with heq | ⟨_, _, _, _, heq⟩
  · rw [heq]
    exact .refl s
  · rw [heq]
    exact .of_subset rfl fun _ hv => hv

theorem complete_connected (h : Sound s) (hc : Connected s) (os : Os) (f : Refresh) :
    Connected (complete os f s).2 := by
  unfold complete
  split
  · exact hc
  rename_i serial error rest _
  have hpopped : Connected { s with flushed := rest } := hc
  have hsingle : Single { s with flushed := rest } := h.single
  dsimp only
  split
  · exact hpopped
  rename_i u _
  have hrelease : ∀ t, Connected t → Connected (release os t u) :=
    fun t ht => ht.fewer (fewer_release os t u)
  split
  · exact hrelease _ hpopped
  · exact hrelease _ hpopped
  rename_i client _ _
  split
  · exact hrelease _ (Single.connected_closed hsingle hpopped os client)
  split
  · exact hrelease _ hpopped
  · exact hrelease _ (hpopped.fewer (publish_fewer _ os client u))

theorem step_connected (h : Sound s) (hc : Connected s) (e : Event) : Connected (step s e) := by
  cases e with
  | configured conf => exact hc
  | granted hasPriv => exact hc
  | session client x =>
      intro u hu c hclient
      show (Function.update s.session client (some x) c).isSome = true
      by_cases hsame : c = client
      · rw [hsame, Function.update_self]
        rfl
      · rw [Function.update_of_ne hsame]
        exact hc u hu c hclient
  | closed os client => exact Single.connected_closed h.single hc os client
  | request os uuid pool client r => exact hc.request uuid pool client r
  | flush serial error =>
      show Connected (flush s serial error)
      unfold flush
      split
      · exact hc
      · exact hc
  | complete os f => exact complete_connected h hc os f

theorem run_connected (h : Sound s) (hc : Connected s) (events : List Event) :
    Connected (run s events) := by
  induction events generalizing s with
  | nil => exact hc
  | cons e events ih => exact ih (step_did h e).sound (step_connected h hc e)

/-- The flush of an upload is its end. -/
theorem complete_ended (os : Os) (f : Refresh) {serial : Nat}
    {error : Option Errno} {rest : List (Nat × Option Errno)}
    (hflushed : s.flushed = (serial, error) :: rest) :
    ∀ v ∈ (complete os f s).2.uploads, v.serial ≠ serial := by
  have hrelease : ∀ t u, ∀ v ∈ (release os t u).uploads, v.serial ≠ u.serial := by
    intro t u v hv
    simpa using (List.mem_filter.mp hv).2
  unfold complete
  rw [hflushed]
  dsimp only
  split
  · rename_i hnone
    intro v hv hserial
    exact absurd (by simpa using hserial) (List.find?_eq_none.mp hnone v hv)
  rename_i u hfind
  obtain rfl : u.serial = serial := by
    have hserial := List.find?_some hfind
    simpa using hserial
  split
  · exact hrelease _ u
  · exact hrelease _ u
  split
  · exact hrelease _ u
  split
  · exact hrelease _ u
  · exact hrelease _ u

/-- A slot is held for a client that is connected, or until a worker is done. -/
structure Freed (s : Shares) (e : Event) (s' : Shares) : Prop where
  held : ∀ u ∈ s'.uploads, (∃ client, u.client = some client ∧ (s'.session client).isSome = true) ∨
    u.client = none ∧ u.serial ∈ s'.queued ++ s'.flushed.map Prod.fst
  left : ∀ os client, e = .closed os client → Idle s' client
  cancelled : ∀ os uuid pool client r, e = .request os uuid pool client r → r.cmd = "cancel" →
    (request s os uuid pool client r).1 = some (.result none) → Idle s' client
  failed : ∀ os uuid pool client r error, e = .request os uuid pool client r →
    (request s os uuid pool client r).1 = some (.result (some error)) → Failed s client s'
  flushed : ∀ os f serial error rest, e = .complete os f → s.flushed = (serial, error) :: rest →
    ∀ u ∈ s'.uploads, u.serial ≠ serial

theorem step_freed (h : Sound s) (hc : Connected s) (e : Event) : Freed s e (step s e) where
  held u hu := by
    have hsound := (step_did h e).sound
    cases hclient : u.client with
    | some client => exact .inl ⟨client, rfl, step_connected h hc e u hu client hclient⟩
    | none => exact .inr ⟨rfl, (hsound.worker u hu).mp (hsound.detached u hu hclient)⟩
  left os client he := by
    subst he
    exact Single.idle_left h.single os client
  cancelled os uuid pool client r he := by
    subst he
    exact (request_answered h.single os uuid pool client r).cancelled
  failed os uuid pool client r error he := by
    subst he
    exact (request_answered h.single os uuid pool client r).failed error
  flushed os f serial error rest he := by
    subst he
    exact complete_ended os f

/-- Publication is all or nothing, whatever the requests, the flushes, the clients that leave
and the privileges that change, in any order. -/
theorem publication_all_or_nothing (conf : Conf) (hasPriv : Nat → String → Bool)
    (root : String → Option Nat) (disk : Disk String UInt8) (events : List Event) (e : Event) :
    let s := run (start conf hasPriv root disk) events
    let s' := step s e
    Single s' ∧ Did s e s' ∧ Freed s e s' := by
  intro s s'
  have h : Sound s := (sound_start conf hasPriv root disk).run events
  have hc : Connected s :=
    run_connected (sound_start conf hasPriv root disk) (fun u hu => nomatch hu) events
  have hdid := step_did h e
  exact ⟨hdid.sound.single, hdid, step_freed h hc e⟩

end Files

end RustyRig
