/-
What becomes of one port.

Whatever a request or a round of the poll does to a port, its owner stays, with the same
stream, or goes; only an `open` brings one.  What is pending came in a frame for the
stream the port has, since a port that is closed keeps nothing.
-/
import Mathlib.Data.List.Nodup
import RustyRig.Rrserver.Serial
import RustyRig.Lib.Folds

namespace RustyRig

namespace Serial

variable {s : Setup} {sys : Sys} {io : PortIo} {client : Nat} {p q r : Export}

/-- Pending bytes are of the stream that is open. -/
def Tagged (p : Export) : Prop := p.pending ≠ [] → ∃ c, p.owner = some c ∧ p.framed = (c, p.stream)

/-- The port lost its owner or has it still, for the same stream. -/
structure Follows (p q : Export) : Prop where
  id : q.id = p.id
  owner : q.owner = none ∨ (q.owner = p.owner ∧ q.stream = p.stream)
  tagged : Tagged p → Tagged q

theorem Follows.refl (p : Export) : Follows p p := ⟨rfl, .inr ⟨rfl, rfl⟩, fun h => h⟩

theorem Follows.trans (h : Follows p q) (h' : Follows q r) : Follows p r where
  id := h'.id.trans h.id
  owner := by
    rcases h'.owner with hr | ⟨hr, hs⟩
    · exact .inl hr
    · rcases h.owner with hq | ⟨hq, ht⟩
      · exact .inl (hr.trans hq)
      · exact .inr ⟨hr.trans hq, hs.trans ht⟩
  tagged := fun hp => h'.tagged (h.tagged hp)

/-- An update that leaves the stream and the pending block alone. -/
theorem follows_of_eq (id : q.id = p.id) (owner : q.owner = p.owner) (stream : q.stream = p.stream)
    (pending : q.pending = p.pending) (framed : q.framed = p.framed) : Follows p q where
  id := id
  owner := .inr ⟨owner, stream⟩
  tagged := by
    intro h hne
    rw [pending] at hne
    rw [owner, framed, stream]
    exact h hne

theorem tagged_closePort (p : Export) : Tagged (closePort p) := fun hne => absurd rfl hne

theorem follows_closePort (p : Export) : Follows p (closePort p) :=
  ⟨rfl, .inl rfl, fun _ => tagged_closePort p⟩

theorem follows_modemFailed (p : Export) : Follows p (modemFailed sys p) := by
  unfold modemFailed
  split
  · exact follows_of_eq rfl rfl rfl rfl rfl
  · exact .refl p

theorem follows_modemEnsureRunning (p : Export) : Follows p (modemEnsureRunning sys p) := by
  unfold modemEnsureRunning
  split
  · exact .refl p
  · split
    · exact follows_of_eq rfl rfl rfl rfl rfl
    · exact follows_modemFailed p

/-! ### A round of the poll -/

theorem follows_pollService (p : Export) : Follows p (pollService io p) := by
  unfold pollService
  split
  · exact .refl p
  · split
    · split
      · exact follows_of_eq rfl rfl rfl rfl rfl
      · exact .refl p
      · exact follows_closePort p
    · split
      · split
        · exact .refl p
        · exact .refl p
        · exact follows_closePort p
      · exact .refl p

theorem follows_drainModem (p : Export) : Follows p (drainModem sys io p) := by
  unfold drainModem
  split
  · exact .refl p
  · split
    · exact .refl p
    · exact .refl p
    · exact follows_modemFailed p

/-- A stage of a round: the port follows, and what was written is of its pending block. -/
structure Stage (p : Export) (r : Served) : Prop where
  follows : Follows p r.port
  written : ∀ x ∈ r.written, x.port = p.id ∧ (x.client, x.stream) = p.framed ∧ p.pending ≠ []

theorem stage_quiet {sent : List Output} {flow : Flow} (h : Follows p q) : Stage p ⟨q, sent, [], flow⟩ :=
  ⟨h, fun _ hx => absurd hx List.not_mem_nil⟩

theorem stage_writePending (io : PortIo) (client : Nat) (p : Export) : Stage p (writePending io client p) := by
  unfold writePending
  by_cases hp : p.pending = []
  · rw [if_pos hp]
    exact stage_quiet (.refl p)
  · rw [if_neg hp]
    cases io.write with
    | again => exact stage_quiet (.refl p)
    | failed => exact stage_quiet (.refl p)
    | wrote n =>
        dsimp only
        split
        · exact stage_quiet (.refl p)
        · have hrecord : ∀ bytes, ∀ x ∈ [(⟨p.id, p.framed.1, p.framed.2, bytes⟩ : Write)],
              x.port = p.id ∧ (x.client, x.stream) = p.framed ∧ p.pending ≠ [] := by
            intro bytes x hx
            rw [List.mem_singleton.mp hx]
            exact ⟨rfl, rfl, hp⟩
          split
          · exact ⟨follows_of_eq rfl rfl rfl rfl rfl, hrecord _⟩
          · split
            · exact ⟨(follows_closePort p).trans ⟨rfl, .inl rfl, fun _ => tagged_closePort _⟩, hrecord _⟩
            · exact ⟨⟨rfl, .inr ⟨rfl, rfl⟩, fun _ hne => absurd rfl hne⟩, hrecord _⟩

theorem follows_readDevice (s : Setup) (io : PortIo) (p : Export) : Follows p (readDevice s io p).1 := by
  unfold readDevice
  split
  · split
    · exact follows_of_eq rfl rfl rfl rfl rfl
    · exact .refl p
    · exact .refl p
  · exact .refl p

theorem stage_sendBlock (s : Setup) (io : PortIo) (client : Nat) (p : Export) :
    Follows p (sendBlock s io client p).port ∧ (sendBlock s io client p).written = [] := by
  unfold sendBlock
  split
  · exact ⟨.refl p, rfl⟩
  · split
    · exact ⟨follows_of_eq rfl rfl rfl rfl rfl, rfl⟩
    · split
      · exact ⟨follows_of_eq rfl rfl rfl rfl rfl, rfl⟩
      · exact ⟨.refl p, rfl⟩

theorem follows_failPort (sys : Sys) (client : Nat) (p : Export) :
    Follows p (failPort sys client p).port :=
  (follows_modemFailed p).trans (follows_closePort _)

theorem stage_serve (s : Setup) (sys : Sys) (io : PortIo) (client : Nat) (p : Export) :
    Stage p (serve s sys io client p) := by
  have hfirst := stage_writePending io client p
  unfold serve
  dsimp only
  generalize writePending io client p = first at hfirst
  cases first.flow with
  | finished => exact hfirst
  | failed => exact stage_quiet (hfirst.follows.trans (follows_failPort sys client _))
  | next =>
      dsimp only
      have hread := follows_readDevice s io first.port
      generalize readDevice s io first.port = read at hread
      have hfail := hfirst.follows.trans (hread.trans (follows_failPort sys client read.1))
      have hsend : Follows p
          (if (sendBlock s io client read.1).flow = Flow.failed then
            failPort sys client (sendBlock s io client read.1).port
          else sendBlock s io client read.1).port := by
        have hblock := hfirst.follows.trans (hread.trans (stage_sendBlock s io client read.1).1)
        split
        · exact hblock.trans (follows_failPort sys client _)
        · exact hblock
      cases hflow : read.2 with
      | failed => exact ⟨hfail, hfirst.written⟩
      | next => exact ⟨hsend, hfirst.written⟩
      | finished => exact ⟨hsend, hfirst.written⟩

/-! ### Discovery -/

theorem swapRemove_perm {l : List Export} {a b : List Export} (h : l = a ++ p :: b) :
    ∃ b', swapRemove l a.length = a ++ b' ∧ b'.Perm b := by
  subst h
  unfold swapRemove
  rcases List.eq_nil_or_concat b with rfl | ⟨b', y, rfl⟩
  · rw [List.getLast?_append_cons, List.getLast?_singleton]
    dsimp only
    rw [List.set_append_right _ _ (Nat.le_refl _), Nat.sub_self, List.set_cons_zero,
      List.dropLast_append_cons]
    exact ⟨[], by simp, .refl _⟩
  · have hlast : (a ++ p :: (b' ++ [y])).getLast? = some y := by
      rw [show a ++ p :: (b' ++ [y]) = (a ++ p :: b') ++ [y] by simp, List.getLast?_concat]
    rw [List.concat_eq_append, hlast]
    dsimp only
    rw [List.set_append_right _ _ (Nat.le_refl _), Nat.sub_self, List.set_cons_zero,
      show a ++ y :: (b' ++ [y]) = (a ++ y :: b') ++ [y] by simp, List.dropLast_concat]
    exact ⟨y :: b', rfl, (List.perm_append_singleton y b').symm⟩

/-- The loop drops what is gone and keeps the rest, in some order. -/
theorem discard_perm (gone : Export → Bool) : ∀ (fuel : Nat) (a b : List Export), b.length ≤ fuel →
    (discard gone fuel a.length (a ++ b)).Perm (a ++ b.filter fun p => !gone p) := by
  intro fuel
  induction fuel with
  | zero =>
      intro a b hb
      rw [List.length_eq_zero_iff.mp (Nat.le_zero.mp hb)]
      exact .refl _
  | succ fuel ih =>
      intro a b hb
      unfold discard
      cases b with
      | nil =>
          rw [List.append_nil, List.getElem?_eq_none (Nat.le_refl _), List.filter_nil, List.append_nil]
      | cons p b =>
          rw [List.length_cons] at hb
          have hget : (a ++ p :: b)[a.length]? = some p := by
            rw [List.getElem?_append_right (Nat.le_refl _), Nat.sub_self, List.getElem?_cons_zero]
          rw [hget]
          dsimp only
          by_cases hgone : gone p = true
          · rw [if_pos hgone, List.filter_cons_of_neg (by simp [hgone])]
            obtain ⟨b', hswap, hperm⟩ := swapRemove_perm (p := p) (a := a) (b := b) rfl
            rw [hswap]
            refine (ih a b' (by rw [hperm.length_eq]; omega)).trans ?_
            exact (hperm.filter _).append_left a
          · rw [if_neg hgone, List.filter_cons_of_pos (by simp [hgone])]
            have hnext := ih (a ++ [p]) b (by omega)
            rw [List.length_append, List.length_singleton, List.append_assoc, List.append_assoc] at hnext
            exact hnext

end Serial

end RustyRig

/-!
Streams over whole runs.

Events are of three kinds.  A calm one hands nothing out: owners stay or go.  An `open` may
grant one free port to a connection, under a stream the connection never had.  The end of a
connection frees its ports and forgets its ids.
-/

namespace RustyRig

namespace Serial

variable {s : Setup} {sys : Sys} {w w' w'' : World} {client stream : Nat}

/-- The streams handed out on a connection that is still there. -/
def handedOut (client : Nat) : List Entry → List Nat
  | [] => []
  | .handed c stream :: log => if c = client then stream :: handedOut client log else handedOut client log
  | .gone c :: log => if c = client then [] else handedOut client log

/-- The ids a session marks as issued. -/
def issued (sessions : List Session) (client : Nat) : List Nat :=
  ((sessions.find? (·.client == client)).map Session.live).getD []

/-- The export is open on this stream of this connection. -/
def World.Open (w : World) (id client stream : Nat) : Prop :=
  ∃ p ∈ w.exports, p.id = id ∧ p.owner = some client ∧ p.stream = stream

/-- Exports are numbered once each. -/
structure Numbered (w : World) : Prop where
  nodup : (w.exports.map Export.id).Nodup
  made : ∀ p ∈ w.exports, p.id < w.made

/-- The new writes are of streams that were open. -/
def Wrote (w w' : World) : Prop :=
  ∃ new, w'.written = new ++ w.written ∧ ∀ x ∈ new, w.Open x.port x.client x.stream

/-- Nothing is handed out. -/
structure Calm (w w' : World) : Prop where
  owned : ∀ id c t, w'.Open id c t → w.Open id c t
  numbered : Numbered w → Numbered w'
  tagged : (∀ p ∈ w.exports, Tagged p) → ∀ p ∈ w'.exports, Tagged p
  sessions : (w.sessions.map Session.client).Nodup → (w'.sessions.map Session.client).Nodup
  issued : ∀ c, issued w'.sessions c = issued w.sessions c
  log : w'.log = w.log
  written : (∀ p ∈ w.exports, Tagged p) → Wrote w w'

theorem Calm.trans (h : Calm w w') (h' : Calm w' w'') : Calm w w'' where
  owned := fun id c t ho => h.owned id c t (h'.owned id c t ho)
  numbered := fun hn => h'.numbered (h.numbered hn)
  tagged := fun ht => h'.tagged (h.tagged ht)
  sessions := fun hs => h'.sessions (h.sessions hs)
  issued := fun c => (h'.issued c).trans (h.issued c)
  log := h'.log.trans h.log
  written := by
    intro ht
    obtain ⟨new, hnew, hopen⟩ := h.written ht
    obtain ⟨new', hnew', hopen'⟩ := h'.written (h.tagged ht)
    refine ⟨new' ++ new, by rw [hnew', hnew, List.append_assoc], fun x hx => ?_⟩
    rcases List.mem_append.mp hx with hx | hx
    · exact h.owned _ _ _ (hopen' x hx)
    · exact hopen x hx

/-- Only what was sent, or who is connected, differs. -/
theorem calm_of_eq (exports : w'.exports = w.exports) (sessions : w'.sessions = w.sessions)
    (made : w'.made = w.made) (written : w'.written = w.written) (log : w'.log = w.log) : Calm w w' where
  owned := by
    unfold World.Open
    rw [exports]
    exact fun _ _ _ h => h
  numbered := fun h => ⟨exports ▸ h.nodup, by rw [exports, made]; exact h.made⟩
  tagged := by
    rw [exports]
    exact fun h => h
  sessions := by
    rw [sessions]
    exact fun h => h
  issued := by
    rw [sessions]
    exact fun _ => rfl
  log := log
  written := fun _ => ⟨[], written, fun _ hx => absurd hx List.not_mem_nil⟩

theorem Calm.refl (w : World) : Calm w w := calm_of_eq rfl rfl rfl rfl rfl

theorem calm_out (w : World) (o : Output) : Calm w (w.out o) := calm_of_eq rfl rfl rfl rfl rfl

theorem calm_reply (w : World) (c : Nat) (cmd name : String) (error : Option String) :
    Calm w (w.reply c cmd name error) := calm_of_eq rfl rfl rfl rfl rfl

/-! ### Exports that follow -/

/-- A world whose exports follow, one by one. -/
theorem calm_of_follows (hexports : ∀ p' ∈ w'.exports, ∃ p ∈ w.exports, Follows p p')
    (hids : w'.exports.map Export.id = w.exports.map Export.id) (sessions : w'.sessions = w.sessions)
    (made : w'.made = w.made) (log : w'.log = w.log)
    (written : (∀ p ∈ w.exports, Tagged p) → Wrote w w') : Calm w w' where
  owned := by
    rintro id c t ⟨p', hp', hid, howner, hstream⟩
    obtain ⟨p, hp, hf⟩ := hexports p' hp'
    rcases hf.owner with hnone | ⟨hsame, ht⟩
    · rw [howner] at hnone
      exact absurd hnone (by simp)
    · exact ⟨p, hp, hf.id ▸ hid, hsame ▸ howner, ht ▸ hstream⟩
  numbered := by
    intro h
    refine ⟨hids ▸ h.nodup, fun p' hp' => ?_⟩
    obtain ⟨p, hp, hf⟩ := hexports p' hp'
    rw [made, hf.id]
    exact h.made p hp
  tagged := by
    intro h p' hp'
    obtain ⟨p, hp, hf⟩ := hexports p' hp'
    exact hf.tagged (h p hp)
  sessions := by
    rw [sessions]
    exact fun h => h
  issued := by
    rw [sessions]
    exact fun _ => rfl
  log := log
  written := written

/-- One port is updated; what is written with it was framed for its stream. -/
theorem calm_modify {i : Nat} {f : Export → Export} (hf : ∀ p, w.exports[i]? = some p → Follows p (f p))
    (exports : w'.exports = w.exports.modify i f) (sessions : w'.sessions = w.sessions)
    (made : w'.made = w.made) (log : w'.log = w.log)
    (written : (∀ p ∈ w.exports, Tagged p) → Wrote w w') : Calm w w' := by
  refine calm_of_follows ?_ ?_ sessions made log written
  · rw [exports]
    intro p' hp'
    rcases Lib.mem_of_modify hp' with hmem | ⟨p, hp, rfl⟩
    · exact ⟨p', hmem, .refl p'⟩
    · exact ⟨p, List.mem_of_getElem? hp, hf p hp⟩
  · rw [exports]
    exact Lib.map_modify fun p hp => (hf p hp).id

/-- One port is updated and nothing written. -/
theorem calm_modifyExport {i : Nat} {f : Export → Export}
    (hf : ∀ p, w.exports[i]? = some p → Follows p (f p)) : Calm w (w.modifyExport i f) :=
  calm_modify hf rfl rfl rfl rfl fun _ => ⟨[], rfl, fun _ hx => absurd hx List.not_mem_nil⟩

/-! ### The poll -/

theorem calm_pollOne (w : World) (i : Nat) : Calm w (w.pollOne s sys i) := by
  unfold World.pollOne
  cases hp : w.exports[i]? with
  | none => exact .refl w
  | some p =>
      have hset : ∀ q, Follows p q → ∀ p', w.exports[i]? = some p' → Follows p' q := by
        intro q hq p' hp'
        rw [hp] at hp'
        rw [← Option.some.inj hp']
        exact hq
      dsimp only
      split
      · exact calm_modifyExport (hset _ (follows_pollService p))
      · have hrun : Follows p (if p.virtualModem then modemEnsureRunning sys p else p) := by
          split
          · exact follows_modemEnsureRunning p
          · exact .refl p
        generalize (if p.virtualModem then modemEnsureRunning sys p else p) = q at hrun
        split
        · refine calm_modifyExport (hset _ ?_)
          split
          · exact hrun.trans (follows_drainModem q)
          · exact hrun
        · rename_i client howner
          split
          · exact (calm_out w _).trans (calm_modifyExport (hset _ (hrun.trans (follows_closePort q))))
          · split
            · exact (calm_out w _).trans (calm_modifyExport (hset _ (hrun.trans (follows_closePort q))))
            · have hstage := stage_serve s sys (sys.io p.id) client q
              refine calm_modify (i := i) (hset _ (hrun.trans hstage.follows)) rfl rfl rfl rfl fun ht => ?_
              refine ⟨_, rfl, fun x hx => ?_⟩
              obtain ⟨hport, hframed, hpending⟩ := hstage.written x hx
              obtain ⟨c, hc, hq⟩ := hrun.tagged (ht p (List.mem_of_getElem? hp)) hpending
              rw [← hframed] at hq
              obtain ⟨rfl, hstream⟩ := Prod.mk.inj hq
              rcases hrun.owner with hnone | ⟨hsame, hs⟩
              · rw [hc] at hnone
                exact absurd hnone (by simp)
              · exact ⟨p, List.mem_of_getElem? hp, by rw [hport, hrun.id], hsame ▸ hc, by rw [hstream, hs]⟩

theorem calm_poll (w : World) : Calm w (w.poll s sys) := by
  unfold World.poll
  generalize List.range w.exports.length = is
  induction is generalizing w with
  | nil => exact .refl w
  | cons i is ih => exact (calm_pollOne w i).trans (ih _)

/-! ### Discovery -/

theorem calm_addUsb (w : World) (name : String) : Calm w (w.addUsb sys name) := by
  unfold World.addUsb
  split
  · refine { owned := ?_, numbered := ?_, tagged := ?_, sessions := id, issued := fun _ => rfl,
             log := rfl, written := fun _ => ⟨[], rfl, fun _ hx => absurd hx List.not_mem_nil⟩ }
    · rintro id c t ⟨p, hp, hid, howner, hstream⟩
      rcases List.mem_append.mp hp with hp | hp
      · exact ⟨p, hp, hid, howner, hstream⟩
      · rw [List.mem_singleton.mp hp] at howner
        exact absurd howner (by simp [usbExport])
    · intro h
      refine ⟨?_, fun p hp => ?_⟩
      · rw [List.map_append, List.map_singleton, List.nodup_append]
        refine ⟨h.nodup, List.nodup_singleton _, fun a ha b hb => ?_⟩
        obtain ⟨p, hp, rfl⟩ := List.mem_map.mp ha
        rw [List.mem_singleton.mp hb]
        exact Nat.ne_of_lt (h.made p hp)
      · rcases List.mem_append.mp hp with hp | hp
        · exact Nat.lt_succ_of_lt (h.made p hp)
        · rw [List.mem_singleton.mp hp]
          exact Nat.lt_succ_self _
    · intro h p hp
      rcases List.mem_append.mp hp with hp | hp
      · exact h p hp
      · rw [List.mem_singleton.mp hp]
        exact fun hne => absurd rfl hne
  · exact .refl w

theorem calm_serialDiscoverUsb (w : World) : Calm w (w.serialDiscoverUsb s sys) := by
  unfold World.serialDiscoverUsb
  split
  · have hperm := discard_perm (usbGone sys) w.exports.length [] w.exports (Nat.le_refl _)
    rw [List.nil_append, List.nil_append, List.length_nil] at hperm
    have hmem : ∀ p ∈ discard (usbGone sys) w.exports.length 0 w.exports, p ∈ w.exports :=
      fun p hp => (List.mem_filter.mp (hperm.mem_iff.mp hp)).1
    have hcalm : Calm w { w with exports := discard (usbGone sys) w.exports.length 0 w.exports } := by
      refine { owned := ?_, numbered := ?_, tagged := fun h p hp => h p (hmem p hp), sessions := id,
               issued := fun _ => rfl, log := rfl,
               written := fun _ => ⟨[], rfl, fun _ hx => absurd hx List.not_mem_nil⟩ }
      · rintro id c t ⟨p, hp, hopen⟩
        exact ⟨p, hmem p hp, hopen⟩
      · intro h
        refine ⟨?_, fun p hp => h.made p (hmem p hp)⟩
        exact (hperm.map Export.id).nodup_iff.mpr (h.nodup.sublist (List.filter_sublist.map _))
    refine hcalm.trans ?_
    generalize { w with exports := discard (usbGone sys) w.exports.length 0 w.exports } = u
    generalize sys.devices = names
    induction names generalizing u with
    | nil => exact .refl u
    | cons name names ih => exact (calm_addUsb u name).trans (ih _)
  · exact .refl w

/-- An owned export is not dropped. -/
theorem discover_keeps (w : World) (id c t : Nat) (h : w.Open id c t) :
    (w.serialDiscoverUsb s sys).Open id c t := by
  unfold World.serialDiscoverUsb
  split
  · have hperm := discard_perm (usbGone sys) w.exports.length [] w.exports (Nat.le_refl _)
    rw [List.nil_append, List.nil_append, List.length_nil] at hperm
    have hdiscard : ({ w with exports := discard (usbGone sys) w.exports.length 0 w.exports } : World).Open
        id c t := by
      obtain ⟨p, hp, hid, howner, hstream⟩ := h
      refine ⟨p, hperm.mem_iff.mpr (List.mem_filter.mpr ⟨hp, ?_⟩), hid, howner, hstream⟩
      simp [usbGone, howner]
    generalize ({ w with exports := discard (usbGone sys) w.exports.length 0 w.exports } : World) = u
      at hdiscard
    generalize sys.devices = names
    induction names generalizing u with
    | nil => exact hdiscard
    | cons name names ih =>
        refine ih _ ?_
        unfold World.addUsb
        split
        · obtain ⟨p, hp, hopen⟩ := hdiscard
          exact ⟨p, List.mem_append_left _ hp, hopen⟩
        · exact hdiscard
  · exact h

/-! ### Handing out a stream -/

theorem issued_cons_other {t : Session} {sessions : List Session} {c : Nat} (h : t.client ≠ c) :
    issued (t :: sessions) c = issued sessions c := by
  have hne : (t.client == c) = false := beq_false_of_ne h
  unfold issued
  rw [List.find?_cons, hne]

theorem issued_eq_nil {sessions : List Session} {c : Nat} (h : ∀ t ∈ sessions, t.client ≠ c) :
    issued sessions c = [] := by
  unfold issued
  rw [List.find?_eq_none.mpr fun t ht he => h t ht (beq_iff_eq.mp he)]
  rfl

/-- A session without ids changes nothing about what was issued. -/
theorem issued_new {sessions : List Session} {client : Nat}
    (h : sessions.any (·.client == client) = false) (c : Nat) :
    issued (⟨client, []⟩ :: sessions) c = issued sessions c := by
  by_cases hc : client = c
  · subst hc
    have hnone : issued sessions client = [] := by
      refine issued_eq_nil fun t ht he => ?_
      exact absurd (beq_iff_eq.mpr he) (List.any_eq_false.mp h t ht)
    rw [hnone]
    unfold issued
    rw [List.find?_cons, beq_self_eq_true]
    rfl
  · exact issued_cons_other hc

/-- Marking an id as issued in the session of a connection. -/
theorem issued_mark {sessions : List Session} {client : Nat} (stream : Nat)
    (h : ∃ t ∈ sessions, t.client = client) (c : Nat) :
    issued (sessions.map fun t =>
      if t.client = client then { t with live := stream :: t.live } else t) c =
      if c = client then stream :: issued sessions c else issued sessions c := by
  unfold issued
  have hcomp : ((fun t : Session => t.client == c) ∘ fun t =>
      if t.client = client then { t with live := stream :: t.live } else t) = fun t => t.client == c := by
    funext t
    show ((if t.client = client then { t with live := stream :: t.live } else t : Session).client == c) = _
    by_cases ht : t.client = client
    · rw [if_pos ht]
    · rw [if_neg ht]
  rw [List.find?_map, hcomp]
  cases hfind : sessions.find? (·.client == c) with
  | none =>
      by_cases hc : c = client
      · obtain ⟨t, ht, hclient⟩ := h
        exact absurd (beq_iff_eq.mpr (hclient.trans hc.symm)) (List.find?_eq_none.mp hfind t ht)
      · rw [if_neg hc]
        rfl
  | some t =>
      have ht := List.find?_some hfind
      have htc : t.client = c := beq_iff_eq.mp ht
      show (if t.client = client then { t with live := stream :: t.live } else t : Session).live = _
      by_cases hc : c = client
      · rw [if_pos (htc.trans hc), if_pos hc]
        rfl
      · rw [if_neg fun he => hc (htc.symm.trans he), if_neg hc]
        rfl

/-- A stream is handed out: fresh on its connection, and on the record. -/
structure Handed (w w' : World) (client stream : Nat) : Prop where
  exports : w'.exports = w.exports
  made : w'.made = w.made
  written : w'.written = w.written
  sessions : (w.sessions.map Session.client).Nodup → (w'.sessions.map Session.client).Nodup
  issued : ∀ c, issued w'.sessions c =
    if c = client then stream :: issued w.sessions c else issued w.sessions c
  fresh : stream ∉ Serial.issued w.sessions client
  pos : stream ≠ 0
  log : w'.log = .handed client stream :: w.log

theorem allocateStream_spec (sys : Sys) (w : World) (client : Nat) :
    (∃ u, w.allocateStream sys client = (u, none) ∧ u.exports = w.exports ∧ Calm w u) ∨
    ∃ u stream, w.allocateStream sys client = (u, some stream) ∧ Handed w u client stream := by
  unfold World.allocateStream
  have hensure : ∀ sessions, (if w.sessions.any (·.client == client) then some w.sessions
      else if sys.sessionRoom then some (⟨client, []⟩ :: w.sessions) else none) = some sessions →
      (∀ c, issued sessions c = issued w.sessions c) ∧ (∃ t ∈ sessions, t.client = client) ∧
      ((w.sessions.map Session.client).Nodup → (sessions.map Session.client).Nodup) := by
    intro sessions h
    by_cases hany : w.sessions.any (·.client == client) = true
    · rw [if_pos hany] at h
      obtain ⟨t, ht, hc⟩ := List.any_eq_true.mp hany
      rw [← Option.some.inj h]
      exact ⟨fun _ => rfl, ⟨t, ht, beq_iff_eq.mp hc⟩, id⟩
    · rw [if_neg hany] at h
      rw [Bool.not_eq_true] at hany
      split at h
      · rw [← Option.some.inj h]
        refine ⟨issued_new hany, ⟨_, List.mem_cons_self, rfl⟩, fun hnd => ?_⟩
        rw [List.map_cons, List.nodup_cons]
        refine ⟨fun hmem => ?_, hnd⟩
        obtain ⟨t, ht, hc⟩ := List.mem_map.mp hmem
        exact absurd (List.any_eq_false.mp hany t ht) (by simp [hc])
      · exact absurd h (by simp)
  dsimp only
  generalize (if w.sessions.any (·.client == client) then some w.sessions
      else if sys.sessionRoom then some (⟨client, []⟩ :: w.sessions) else none) = sessions? at hensure
  cases sessions? with
  | none => exact .inl ⟨w, rfl, rfl, .refl w⟩
  | some sessions =>
      obtain ⟨hissued, hmem, hnodup⟩ := hensure sessions rfl
      dsimp only
      cases hfind : ((List.range streamsMax).drop 1).find? fun candidate =>
          !(((sessions.find? (·.client == client)).map Session.live).getD []).contains candidate with
      | none =>
          refine .inl ⟨_, rfl, rfl, ?_⟩
          exact { owned := fun _ _ _ h => h, numbered := fun h => ⟨h.nodup, h.made⟩, tagged := fun h => h,
                  sessions := hnodup, issued := hissued, log := rfl,
                  written := fun _ => ⟨[], rfl, fun _ hx => absurd hx List.not_mem_nil⟩ }
      | some stream =>
          refine .inr ⟨_, stream, rfl, ?_⟩
          have hfresh := List.find?_some hfind
          have hrange := List.mem_of_find?_eq_some hfind
          refine { exports := rfl, made := rfl, written := rfl, sessions := ?_, issued := ?_,
                   fresh := ?_, pos := ?_, log := rfl }
          · intro hnd
            have hclients : (sessions.map fun t : Session =>
                if t.client = client then { t with live := stream :: t.live } else t).map Session.client =
                sessions.map Session.client := by
              rw [List.map_map]
              refine List.map_congr_left fun t _ => ?_
              show (if t.client = client then { t with live := stream :: t.live } else t : Session).client = _
              by_cases ht : t.client = client
              · rw [if_pos ht]
              · rw [if_neg ht]
            show (List.map _ (List.map _ sessions)).Nodup
            rw [hclients]
            exact hnodup hnd
          · intro c
            rw [← hissued c]
            exact issued_mark stream hmem c
          · rw [← hissued client]
            unfold issued
            simpa using hfresh
          · obtain ⟨n, hn⟩ := List.mem_iff_getElem?.mp hrange
            rw [List.getElem?_drop] at hn
            obtain ⟨hlt, heq⟩ := List.getElem?_eq_some_iff.mp hn
            rw [List.getElem_range] at heq
            omega

end Serial

end RustyRig
