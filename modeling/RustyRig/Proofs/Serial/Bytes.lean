/-
The bytes of every stream, over whole runs.

The tapes run along with the module: a round of the poll records what it wrote, read and sent,
and any other event shows in the port it leaves behind.  A port at rest has nothing pending, and
a port that is open fits the latest of its tapes; so at the end of any run each tape, of a stream
still open or long gone, is whole.
-/
import RustyRig.Proofs.Serial.Tape
import RustyRig.Proofs.Serial.Tunnel

namespace RustyRig

namespace Serial

open Tape (Rested Same Touched Meets Whole Fits)

variable {s : Setup} {sys : Sys} {w u w' : World} {request : Bool}

/-- The module with the tapes of each export, latest first. -/
structure Taped where
  world : World
  tapes : Nat → List Tape

namespace Taped

/-- An event that led to `w'` is seen at each export. -/
def observed (request : Bool) (t : Taped) (w' : World) : Taped where
  world := w'
  tapes n := match w'.exports.find? (·.id == n) with
    | none => t.tapes n
    | some q => Tape.observe request (t.world.exports.find? (·.id == n)) q (t.tapes n)

/-- The tapes after a round of the poll at slot `i`. -/
def pollTapes (s : Setup) (sys : Sys) (w : World) (i : Nat) (tapes : Nat → List Tape) :
    Nat → List Tape :=
  match w.exports[i]? with
  | none => tapes
  | some p =>
      let q := if p.virtualModem then modemEnsureRunning sys p else p
      match q.owner with
      | none => tapes
      | some client =>
          if p.service ≠ 0 ∨ (q.virtualModem && q.fd.isNone) = true ∨
              allowed s sys (w.client? client) q = false then tapes
          else Function.update tapes p.id
            ((tapes p.id).modifyHead (Tape.round s (sys.io p.id) client q))

def pollOne (s : Setup) (sys : Sys) (t : Taped) (i : Nat) : Taped :=
  ⟨t.world.pollOne s sys i, pollTapes s sys t.world i t.tapes⟩

def step (s : Setup) (t : Taped) : Event → Taped
  | .poll sys => (List.range t.world.exports.length).foldl (pollOne s sys) t
  | .request sys client message => t.observed true (t.world.request s sys client message)
  | e => t.observed false (t.world.step s e)

def run (s : Setup) (t : Taped) (events : List Event) : Taped := events.foldl (step s) t

/-- The tapes are empty at first. -/
def start (bindings : List Binding) : Taped := ⟨.start bindings, fun _ => []⟩

theorem poll_world (t : Taped) (slots : List Nat) :
    (slots.foldl (pollOne s sys) t).world = slots.foldl (World.pollOne s sys) t.world := by
  induction slots generalizing t with
  | nil => rfl
  | cons i slots ih => exact ih (t.pollOne s sys i)

/-- The tapes change nothing about the module. -/
theorem step_world (t : Taped) (e : Event) : (t.step s e).world = t.world.step s e := by
  cases e with
  | poll sys => exact t.poll_world _
  | _ => rfl

theorem run_world (t : Taped) (events : List Event) :
    (t.run s events).world = t.world.run s events := by
  induction events generalizing t with
  | nil => rfl
  | cons e events ih =>
      show ((t.step s e).run s events).world = (t.world.step s e).run s events
      rw [ih, step_world]

/-- What holds of the module and its tapes. -/
structure Recorded (t : Taped) : Prop where
  kept : Kept t.world
  meets : ∀ p ∈ t.world.exports, Meets p (t.tapes p.id)
  whole : ∀ n, ∀ x ∈ t.tapes n, Whole x

end Taped

/-! ### Exports that are touched -/

/-- Every export comes from one that was touched. -/
def Moves (request : Bool) (w w' : World) : Prop :=
  ∀ q ∈ w'.exports, ∃ p ∈ w.exports, q.id = p.id ∧ Touched request p q

theorem moves_of_eq (h : w'.exports = w.exports) : Moves request w w' :=
  fun q hq => ⟨q, h ▸ hq, rfl, .same (.refl q)⟩

theorem moves_modify {i : Nat} {f : Export → Export} (h : w'.exports = w.exports.modify i f)
    (hf : ∀ p, w.exports[i]? = some p → (f p).id = p.id ∧ Touched request p (f p)) :
    Moves request w w' := by
  intro q hq
  rw [h] at hq
  rcases Lib.mem_of_modify hq with hmem | ⟨p, hp, rfl⟩
  · exact ⟨q, hmem, rfl, .same (.refl q)⟩
  · exact ⟨p, List.mem_of_getElem? hp, (hf p hp).1, (hf p hp).2⟩

/-- A free port that is closed, which happens when there is no stream for it. -/
theorem touched_free {p q : Export} (hfree : p.owner = none) (h : Rested q) :
    Touched request p q := .rested h fun _ habs => absurd hfree habs

theorem moves_openExport {i : Nat} {p : Export} (hp : w.exports[i]? = some p)
    (hservice : p.service = 0) (hrested : Rested p) (client : Nat) (name : String)
    (proposed : Settings) : Moves request w (w.openExport sys i p client name proposed) := by
  unfold World.openExport
  split
  · exact moves_of_eq rfl
  dsimp only
  have hopened : Same p (if p.virtualModem then modemEnsureRunning sys p
      else { p with fd := sys.opened p.path }) ∧ (if p.virtualModem then modemEnsureRunning sys p
      else { p with fd := sys.opened p.path }).id = p.id := by
    split
    · exact ⟨Tape.same_modemEnsureRunning p, (follows_modemEnsureRunning p).id⟩
    · exact ⟨⟨rfl, rfl, rfl, rfl, rfl, rfl, rfl, rfl, rfl⟩, rfl⟩
  generalize (if p.virtualModem then modemEnsureRunning sys p
      else { p with fd := sys.opened p.path }) = opened at hopened
  obtain ⟨hsame, hid⟩ := hopened
  have hq := hsame.rested hrested
  have hslot : ∀ p', w.exports[i]? = some p' → p' = p := fun p' hp' =>
    Option.some.inj (hp'.symm.trans hp)
  split
  · refine moves_modify rfl fun p' hp' => ?_
    rw [hslot p' hp']
    exact ⟨hid, touched_free hrested.owner ⟨hq.owner, hq.pending, hq.rxPending⟩⟩
  · unfold World.grant
    rcases allocateStream_spec sys (w.modifyExport i fun _ => { opened with buffer := [] }) client
      with ⟨v, halloc, hexports, -⟩ | ⟨v, stream, halloc, hh⟩
    · rw [halloc]
      refine moves_modify (i := i) (f := closePort ∘ fun _ => { opened with buffer := [] }) ?_
        fun p' hp' => ?_
      · show v.exports.modify i closePort = _
        rw [hexports]
        exact List.modify_modify_eq _ _ _ _
      · rw [hslot p' hp']
        exact ⟨hid, touched_free hrested.owner (Tape.rested_closePort _)⟩
    · rw [halloc]
      have hmoves : Moves request w (v.modifyExport i fun p => { p with
          settings := proposed
          owner := some client
          stream := stream
          txSeq := 0
          rxSeq := 0
          clientName := name }) := by
        refine moves_modify (i := i) (f := (fun p : Export => { p with
          settings := proposed
          owner := some client
          stream := stream
          txSeq := 0
          rxSeq := 0
          clientName := name }) ∘ fun _ => { opened with buffer := [] }) ?_ fun p' hp' => ?_
        · show v.exports.modify i _ = _
          rw [hh.exports]
          exact List.modify_modify_eq _ _ _ _
        · rw [hslot p' hp']
          exact ⟨hid, .granted client (hsame.service.trans hservice) hrested.owner rfl hq.pending
            rfl rfl hq.rxPending rfl⟩
      dsimp only
      split
      · exact hmoves
      · exact hmoves

theorem moves_requestOpen (hfree : ∀ p ∈ w.exports, p.owner = none → Rested p) (d : Message)
    (client : Nat) : Moves request w (w.requestOpen s sys d client) := by
  unfold World.requestOpen
  dsimp only
  split
  · exact moves_of_eq rfl
  split
  · exact moves_of_eq rfl
  split
  · split
    · exact moves_of_eq rfl
    · exact moves_of_eq rfl
  cases hfind : w.exports.findIdx? fun p => p.service == 0 && p.name == _ with
  | none => exact moves_of_eq rfl
  | some i =>
      obtain ⟨hi, hmatch, -⟩ := List.findIdx?_eq_some_iff_getElem.mp hfind
      have hp : w.exports[i]? = some w.exports[i] := List.getElem?_eq_getElem hi
      simp only [hp]
      split
      · exact moves_of_eq rfl
      split
      · exact moves_of_eq rfl
      rename_i howner
      split
      · exact moves_of_eq rfl
      split
      · exact moves_of_eq rfl
      · simp only [Bool.and_eq_true, beq_iff_eq] at hmatch
        have hnone : w.exports[i].owner = none := by simpa using howner
        exact moves_openExport hp hmatch.1 (hfree _ (List.getElem_mem hi) hnone) client _ _

theorem moves_requestPort {i : Nat} {p : Export} {client : Nat} (hp : w.exports[i]? = some p)
    (howner : p.owner = some client) (d : Message) :
    Moves request w (w.requestPort sys d client i p) := by
  have hslot : ∀ p', w.exports[i]? = some p' → p' = p := fun p' hp' =>
    Option.some.inj (hp'.symm.trans hp)
  unfold World.requestPort
  dsimp only
  split
  · exact moves_of_eq rfl
  split
  · split
    · rename_i hpending
      refine moves_modify (i := i) (f := closePort) rfl fun p' hp' => ⟨rfl, ?_⟩
      rw [hslot p' hp']
      exact .rested (Tape.rested_closePort p) fun _ _ => hpending
    · exact moves_modify (i := i) (f := fun p => { p with closePending := true }) rfl
        fun p' _ => ⟨rfl, .same ⟨rfl, rfl, rfl, rfl, rfl, rfl, rfl, rfl, rfl⟩⟩
  split
  · unfold World.requestConfigure
    dsimp only
    split
    · exact moves_of_eq rfl
    split
    · exact moves_of_eq rfl
    rename_i proposed _
    split
    · exact moves_modify (i := i) (f := fun p => { p with settings := proposed }) rfl
        fun p' _ => ⟨rfl, .same ⟨rfl, rfl, rfl, rfl, rfl, rfl, rfl, rfl, rfl⟩⟩
    · exact moves_of_eq rfl
  split
  · split
    · rename_i hack
      simp only [Bool.and_eq_true] at hack
      refine moves_modify (i := i) (f := fun p => { p with rxPending := false }) rfl
        fun p' hp' => ⟨rfl, ?_⟩
      rw [hslot p' hp']
      exact .acked rfl hack.1 rfl (by simp [howner]) rfl rfl rfl rfl rfl rfl rfl
    · exact moves_of_eq rfl
  · exact moves_of_eq rfl

theorem moves_frame (client : Nat) (f : Option Frame) :
    Moves false w (w.frame s sys client f) := by
  unfold World.frame
  cases f with
  | none => exact moves_of_eq rfl
  | some f =>
      dsimp only
      cases hfind : w.exports.findIdx? fun p =>
          p.service == 0 && p.owner == some client && p.stream == f.stream &&
            allowed s sys (w.client? client) p with
      | none => exact moves_of_eq rfl
      | some i =>
          obtain ⟨hi, hmatch, -⟩ := List.findIdx?_eq_some_iff_getElem.mp hfind
          have hp : w.exports[i]? = some w.exports[i] := List.getElem?_eq_getElem hi
          have hslot : ∀ p', w.exports[i]? = some p' → p' = w.exports[i] := fun p' hp' =>
            Option.some.inj (hp'.symm.trans hp)
          simp only [hp]
          split
          · exact moves_modify (i := i) (f := closePort) rfl fun p' _ =>
              ⟨rfl, .rested (Tape.rested_closePort p') fun habs => nomatch habs⟩
          · rename_i hready
            rw [not_or, Decidable.not_not, Decidable.not_not] at hready
            refine moves_modify (i := i) (f := fun p => { p with
              pending := f.data
              pendingOffset := 0
              txSeq := f.seq
              framed := (client, f.stream) }) rfl fun p' hp' => ⟨rfl, ?_⟩
            rw [hslot p' hp']
            simp only [Bool.and_eq_true, beq_iff_eq] at hmatch
            exact .accepted rfl hready.1 hready.2 rfl (by simp [hmatch.1.1.2]) rfl rfl rfl rfl rfl

theorem moves_closed (client : Nat) : Moves false w (w.closed client) := by
  intro q hq
  obtain ⟨p, hp, rfl⟩ := List.mem_map.mp hq
  refine ⟨p, hp, ?_⟩
  split
  · exact ⟨rfl, .rested (Tape.rested_closePort p) fun habs => nomatch habs⟩
  · exact ⟨rfl, .same (.refl p)⟩

theorem find?_id (hn : Numbered w) {p : Export} (hp : p ∈ w.exports) :
    w.exports.find? (·.id == p.id) = some p := by
  cases hfind : w.exports.find? (·.id == p.id) with
  | none => exact absurd (beq_self_eq_true p.id) (List.find?_eq_none.mp hfind p hp)
  | some q =>
      have hid : q.id = p.id := by simpa using List.find?_some hfind
      rw [List.inj_on_of_nodup_map hn.nodup (List.mem_of_find?_eq_some hfind) hp hid]

/-! ### Discovery -/

/-- What is found on the bus is at rest, under a number of its own. -/
theorem discover_cases (w : World) {q : Export} (hq : q ∈ (w.serialDiscoverUsb s sys).exports) :
    q ∈ w.exports ∨ (Rested q ∧ w.made ≤ q.id) := by
  unfold World.serialDiscoverUsb at hq
  split at hq
  · have hperm := discard_perm (usbGone sys) w.exports.length [] w.exports (Nat.le_refl _)
    rw [List.nil_append, List.nil_append, List.length_nil] at hperm
    have hfold : ∀ (names : List String) (v : World),
        (w.made ≤ v.made ∧ ∀ q ∈ v.exports, q ∈ w.exports ∨ (Rested q ∧ w.made ≤ q.id)) →
        ∀ q ∈ (names.foldl (World.addUsb sys) v).exports,
          q ∈ w.exports ∨ (Rested q ∧ w.made ≤ q.id) := by
      intro names
      induction names with
      | nil => exact fun v hv => hv.2
      | cons name names ih =>
          intro v hv
          refine ih _ ?_
          unfold World.addUsb
          split
          · refine ⟨Nat.le_succ_of_le hv.1, fun q hq => ?_⟩
            rcases List.mem_append.mp hq with hold | hnew
            · exact hv.2 q hold
            · rw [List.mem_singleton.mp hnew]
              exact .inr ⟨⟨rfl, rfl, rfl⟩, hv.1⟩
          · exact hv
    refine hfold sys.devices
      { w with exports := discard (usbGone sys) w.exports.length 0 w.exports }
      ⟨Nat.le_refl w.made, fun p hp => ?_⟩ q hq
    exact .inl (List.mem_filter.mp (hperm.mem_iff.mp hp)).1
  · exact .inl hq

/-- Every export comes from one that was touched and was there, or was at rest and new. -/
def Comes (request : Bool) (w w' : World) : Prop :=
  ∀ q ∈ w'.exports, ∃ p, q.id = p.id ∧ Touched request p q ∧
    (p ∈ w.exports ∨ (Rested p ∧ ∀ x ∈ w.exports, x.id ≠ p.id))

theorem Moves.comes (h : Moves request w w') : Comes request w w' := by
  intro q hq
  obtain ⟨p, hp, hid, ht⟩ := h q hq
  exact ⟨p, hid, ht, .inl hp⟩

theorem comes_discover (s : Setup) (sys : Sys) (hn : Numbered w)
    (h : Moves request (w.serialDiscoverUsb s sys) w') : Comes request w w' := by
  intro q hq
  obtain ⟨p, hp, hid, ht⟩ := h q hq
  rcases discover_cases w hp with hold | ⟨hrested, hmade⟩
  · exact ⟨p, hid, ht, .inl hold⟩
  · refine ⟨p, hid, ht, .inr ⟨hrested, fun x hx habs => ?_⟩⟩
    exact absurd (hn.made x hx) (by omega)

namespace Taped

variable {t : Taped}

/-- A free export is at rest. -/
theorem Recorded.rested (h : Recorded t) {p : Export} (hp : p ∈ t.world.exports)
    (hfree : p.owner = none) : Rested p := by
  rcases h.meets p hp with hrested | ⟨x, -, -, hfits⟩
  · exact hrested
  · exact nomatch hfree.symm.trans hfits.owner

theorem comes_request (h : Recorded t) (client : Nat) (message : Option Message) :
    Comes true t.world (t.world.request s sys client message) := by
  unfold World.request
  split
  · exact (moves_of_eq rfl).comes
  split
  · exact (moves_of_eq rfl).comes
  split
  · refine comes_discover s sys h.kept.numbered (moves_of_eq ?_)
    unfold World.requestList
    generalize t.world.serialDiscoverUsb s sys = v
    have hfold : ∀ (ps : List Export) (u : World), u.exports = v.exports →
        (ps.foldl (fun u p => if p.service = 0 ∧ allowed s sys (u.client? client) p = true then
          u.out (.reply client "available" (some p.name) (some (info "available" p)) none)
        else u) u).exports = v.exports := by
      intro ps
      induction ps with
      | nil => exact fun u hu => hu
      | cons p ps ih =>
          intro u hu
          refine ih _ ?_
          dsimp only
          split
          · exact hu
          · exact hu
    exact hfold v.exports v rfl
  split
  · refine comes_discover s sys h.kept.numbered (moves_requestOpen ?_ _ _)
    intro p hp hfree
    rcases discover_cases t.world hp with hold | ⟨hrested, -⟩
    · exact h.rested hold hfree
    · exact hrested
  split
  · exact (moves_of_eq rfl).comes
  rename_i i howned
  obtain ⟨hi, hmatch, -⟩ := List.findIdx?_eq_some_iff_getElem.mp howned
  have hp : t.world.exports[i]? = some t.world.exports[i] := List.getElem?_eq_getElem hi
  simp only [hp]
  split
  · exact (moves_of_eq rfl).comes
  · simp only [Bool.and_eq_true, beq_iff_eq] at hmatch
    exact (moves_requestPort hp hmatch.1 _).comes

/-- What an event outside the poll leaves is on the tapes. -/
theorem recorded_observed (h : Recorded t) (hkept : Kept w') (hcomes : Comes request t.world w') :
    Recorded (t.observed request w') := by
  have hspec : ∀ q ∈ w'.exports,
      Meets q (Tape.observe request (t.world.exports.find? (·.id == q.id)) q (t.tapes q.id)) ∧
        ∀ x ∈ Tape.observe request (t.world.exports.find? (·.id == q.id)) q (t.tapes q.id),
          Whole x := by
    intro q hq
    obtain ⟨p, hid, htouched, hp | ⟨hrested, hnew⟩⟩ := hcomes q hq
    · have hfind : t.world.exports.find? (·.id == q.id) = some p := by
        rw [hid]
        exact find?_id h.kept.numbered hp
      refine Tape.observe_spec ?_ (h.whole q.id) (.inl hfind) htouched
      rw [hid]
      exact h.meets p hp
    · have hfind : t.world.exports.find? (·.id == q.id) = none := by
        rw [List.find?_eq_none, hid]
        exact fun x hx => by simpa using hnew x hx
      exact Tape.observe_spec (.inl hrested) (h.whole q.id) (.inr ⟨hfind, hrested.owner⟩) htouched
  refine ⟨hkept, fun q hq => ?_, fun n x hx => ?_⟩
  · have hfind : w'.exports.find? (·.id == q.id) = some q := find?_id hkept.numbered hq
    simp only [observed, hfind]
    exact (hspec q hq).1
  · unfold observed at hx
    dsimp only at hx
    cases hfind : w'.exports.find? (·.id == n) with
    | none =>
        rw [hfind] at hx
        exact h.whole n x hx
    | some q =>
        have hqn : q.id = n := by simpa using List.find?_some hfind
        rw [hfind] at hx
        subst hqn
        exact (hspec q (List.mem_of_find?_eq_some hfind)).2 x hx

/-! ### The poll -/

/-- One export is replaced, and its tapes with it. -/
theorem recorded_slot (h : Recorded t) {i : Nat} {p q : Export} {tapes : Nat → List Tape}
    (hp : t.world.exports[i]? = some p) (hkept : Kept w')
    (hexports : w'.exports = t.world.exports.modify i fun _ => q) (hid : q.id = p.id)
    (hother : ∀ n, n ≠ p.id → tapes n = t.tapes n) (hq : Meets q (tapes p.id))
    (hwhole : ∀ x ∈ tapes p.id, Whole x) : Recorded ⟨w', tapes⟩ := by
  refine ⟨hkept, fun x hx => ?_, fun n x hx => ?_⟩
  · dsimp only at hx ⊢
    rw [hexports] at hx
    obtain ⟨j, hj⟩ := List.mem_iff_getElem?.mp hx
    rcases Lib.getElem?_of_modify hj with ⟨hne, hj⟩ | ⟨rfl, y, -, rfl⟩
    · have hxid := id_ne_of_slot h.kept.numbered hp hj (Ne.symm hne)
      rw [hother x.id hxid]
      exact h.meets x (List.mem_of_getElem? hj)
    · rw [hid]
      exact hq
  · by_cases hn : n = p.id
    · subst hn
      exact hwhole x hx
    · dsimp only at hx
      rw [hother n hn] at hx
      exact h.whole n x hx

theorem rested_pollService {io : PortIo} {p : Export} (h : Rested p) : Rested (pollService io p) := by
  unfold pollService
  split
  · exact h
  split
  · split
    · exact ⟨h.owner, h.pending, h.rxPending⟩
    · exact h
    · exact Tape.rested_closePort p
  split
  · split
    · exact h
    · exact h
    · exact Tape.rested_closePort p
  · exact h

theorem rested_drainModem {io : PortIo} {p : Export} (h : Rested p) :
    Rested (drainModem sys io p) := by
  unfold drainModem
  split
  · exact h
  split
  · exact h
  · exact h
  · exact (Tape.same_modemFailed p).rested h

/-- The worker of a modem is there, or was started anew. -/
def running (sys : Sys) (p : Export) : Export :=
  if p.virtualModem then modemEnsureRunning sys p else p

theorem same_running (sys : Sys) (p : Export) :
    Same p (running sys p) ∧ (running sys p).id = p.id := by
  unfold running
  split
  · exact ⟨Tape.same_modemEnsureRunning p, (follows_modemEnsureRunning p).id⟩
  · exact ⟨.refl p, rfl⟩

/-- **One round of the poll** is on the tapes. -/
theorem recorded_pollOne (h : Recorded t) (i : Nat) : Recorded (t.pollOne s sys i) := by
  have hkept : Kept (t.world.pollOne s sys i) := h.kept.calm (calm_pollOne t.world i)
  unfold pollOne
  cases hp : t.world.exports[i]? with
  | none =>
      have htapes : pollTapes s sys t.world i t.tapes = t.tapes := by simp only [pollTapes, hp]
      have hworld : t.world.pollOne s sys i = t.world := by simp only [World.pollOne, hp]
      rw [htapes, hworld]
      exact h
  | some p =>
      have hmem := List.mem_of_getElem? hp
      obtain ⟨hsame, hid⟩ := same_running sys p
      have hrunning : (if p.virtualModem then modemEnsureRunning sys p else p) = running sys p := rfl
      -- a port that is not served keeps its tapes
      have hquiet : ∀ q, q.id = p.id → Rested q →
          (t.world.pollOne s sys i).exports = t.world.exports.modify i (fun _ => q) →
          pollTapes s sys t.world i t.tapes = t.tapes →
          Recorded ⟨t.world.pollOne s sys i, pollTapes s sys t.world i t.tapes⟩ := by
        intro q hqid hq hexports htapes
        rw [htapes]
        exact recorded_slot h hp hkept hexports hqid (fun _ _ => rfl) (.inl hq) (h.whole p.id)
      by_cases hservice : p.service = 0
      · cases howner : (running sys p).owner with
        | none =>
            have hrested := h.rested hmem (hsame.owner ▸ howner)
            have hq := hsame.rested hrested
            have htapes : pollTapes s sys t.world i t.tapes = t.tapes := by
              simp only [pollTapes, hp, hrunning, howner]
            refine hquiet (if (running sys p).virtualModem then
              drainModem sys (sys.io p.id) (running sys p) else running sys p) ?_ ?_ ?_ htapes
            · split
              · exact (follows_drainModem _).id.trans hid
              · exact hid
            · split
              · exact rested_drainModem hq
              · exact hq
            · simp only [World.pollOne, hp, hrunning, howner, hservice, ne_eq, not_true_eq_false,
                if_false]
              rfl
        | some client =>
            by_cases hdead : ((running sys p).virtualModem && (running sys p).fd.isNone) = true
            · refine hquiet (closePort (running sys p)) hid (Tape.rested_closePort _) ?_ ?_
              · simp only [World.pollOne, hp, hrunning, howner, hservice, ne_eq, not_true_eq_false,
                  if_false, hdead, if_true]
                rfl
              · simp only [pollTapes, hp, hrunning, howner, hdead, true_or, or_true, if_true]
            cases hallowed : allowed s sys (t.world.client? client) (running sys p) with
            | false =>
                refine hquiet (closePort (running sys p)) hid (Tape.rested_closePort _) ?_ ?_
                · simp only [World.pollOne, hp, hrunning, howner, hservice, ne_eq,
                    not_true_eq_false, if_false, hdead, hallowed, Bool.not_false, if_true]
                  rfl
                · simp only [pollTapes, hp, hrunning, howner, hallowed, or_true, if_true]
            | true =>
                obtain ⟨x, rest, htape, hfits⟩ : ∃ x rest, t.tapes p.id = x :: rest ∧ Fits p x := by
                  rcases h.meets p hmem with hrested | hopen
                  · exact nomatch (hsame.owner.symm.trans howner).symm.trans hrested.owner
                  · exact hopen
                have hround := Tape.round_spec (hsame.fits hfits) s sys (sys.io p.id) client
                have htapes : pollTapes s sys t.world i t.tapes = Function.update t.tapes p.id
                    (Tape.round s (sys.io p.id) client (running sys p) x :: rest) := by
                  simp only [pollTapes, hp, hrunning, howner, hservice, hdead, hallowed, ne_eq,
                    not_true_eq_false, Bool.true_eq_false, Bool.false_eq_true, or_self, if_false, htape,
                    List.modifyHead_cons]
                have hexports : (t.world.pollOne s sys i).exports = t.world.exports.modify i
                    fun _ => (serve s sys (sys.io p.id) client (running sys p)).port := by
                  simp only [World.pollOne, hp, hrunning, howner, hservice, ne_eq,
                    not_true_eq_false, if_false, hdead, hallowed, Bool.not_true,
                    Bool.false_eq_true]
                  rfl
                rw [htapes]
                refine recorded_slot h hp hkept hexports
                  ((stage_serve s sys _ client _).follows.id.trans hid)
                  (fun n hn => Function.update_of_ne hn _ _) ?_ ?_
                · rw [Function.update_self]
                  rcases hround with hfits | ⟨hrested, -⟩
                  · exact .inr ⟨_, rest, rfl, hfits⟩
                  · exact .inl hrested
                · rw [Function.update_self]
                  intro y hy
                  rcases List.mem_cons.mp hy with rfl | hy
                  · rcases hround with hfits | ⟨-, hwhole⟩
                    · exact hfits.whole
                    · exact hwhole
                  · exact h.whole p.id y (htape ▸ List.mem_cons_of_mem x hy)
      · -- services have no tape to keep
        have hrested : Rested p := by
          rcases h.meets p hmem with hrested | ⟨x, -, -, hfits⟩
          · exact hrested
          · exact absurd hfits.service hservice
        refine hquiet (pollService (sys.io p.id) p) (follows_pollService p).id
          (rested_pollService hrested) ?_ ?_
        · simp only [World.pollOne, hp, hservice, ne_eq, not_false_eq_true, if_true]
          rfl
        · have howner : (running sys p).owner = none := hsame.owner.trans hrested.owner
          simp only [pollTapes, hp, hrunning, howner]

/-! ### Runs -/

theorem recorded_step (h : Recorded t) (e : Event) : Recorded (t.step s e) := by
  have hkept : Kept (t.world.step s e) := kept_step h.kept e
  cases e with
  | poll sys =>
      unfold step
      generalize List.range t.world.exports.length = slots
      clear hkept
      induction slots generalizing t with
      | nil => exact h
      | cons i slots ih => exact ih (recorded_pollOne h i)
  | request sys client message => exact recorded_observed h hkept (comes_request h client message)
  | frame sys client f => exact recorded_observed h hkept (moves_frame client f).comes
  | discover sys =>
      exact recorded_observed h hkept (comes_discover s sys h.kept.numbered (moves_of_eq rfl))
  | closed client => exact recorded_observed h hkept (moves_closed client).comes
  | connect c =>
      refine recorded_observed h hkept (moves_of_eq ?_).comes
      show (if _ then _ else _ : World).exports = _
      split
      · rfl
      · rfl
  | change c => exact recorded_observed h hkept (moves_of_eq rfl).comes

theorem recorded_run (h : Recorded t) (events : List Event) : Recorded (t.run s events) := by
  induction events generalizing t with
  | nil => exact h
  | cons e events ih => exact ih (recorded_step h e)

theorem recorded_start (bindings : List Binding) : Recorded (start bindings) where
  kept := kept_start bindings
  meets := by
    intro p hp
    obtain ⟨b, -, rfl⟩ := List.mem_map.mp hp
    exact .inl ⟨rfl, rfl, rfl⟩
  whole := fun _ _ habs => absurd habs List.not_mem_nil

end Taped

/-- **Every byte once and in order.**  In any run, of every stream there ever was: what was written
to the device is a prefix of the blocks accepted in sequence, and all of them once the client has
closed the stream; what was offered to the client is a prefix of what was read, in blocks of which
one at most is not acknowledged.  An export that is open has a tape for its stream, on which
nothing is missing but what is pending, and nothing that was read but what is in its buffer. -/
theorem streams_exact (s : Setup) (bindings : List Binding) (events : List Event) :
    ((Taped.start bindings).run s events).world = (World.start bindings).run s events ∧
    (∀ n, ∀ t ∈ ((Taped.start bindings).run s events).tapes n, Whole t) ∧
    ∀ p ∈ ((World.start bindings).run s events).exports, p.owner ≠ none →
      ∃ t rest, ((Taped.start bindings).run s events).tapes p.id = t :: rest ∧
        p.owner = some t.client ∧ p.stream = t.stream ∧
        t.written ++ p.pending.drop p.pendingOffset = Tape.bytes t.accepted ∧
        (p.pending = [] → t.written = Tape.bytes t.accepted) ∧
        t.read = Tape.bytes t.offered ++ p.buffer ∧
        t.offered.length = t.acked + p.rxPending.toNat := by
  have hworld : ((Taped.start bindings).run s events).world = (World.start bindings).run s events :=
    Taped.run_world _ events
  have h : Taped.Recorded ((Taped.start bindings).run s events) :=
    Taped.recorded_run (Taped.recorded_start bindings) events
  refine ⟨hworld, h.whole, fun p hp howner => ?_⟩
  rw [← hworld] at hp
  rcases h.meets p hp with hrested | ⟨t, rest, htapes, hfits⟩
  · exact absurd hrested.owner howner
  · exact ⟨t, rest, htapes, hfits.owner, hfits.stream, hfits.written, hfits.flushed, hfits.read,
      hfits.unacked⟩

end Serial

end RustyRig
