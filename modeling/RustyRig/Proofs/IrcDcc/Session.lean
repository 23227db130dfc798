/-
What a session can do between two calls.

Whatever a poll decides between two of its calls leaves the counts alone and keeps what is
still to be sent: it only looks for the next call, or finishes as complete.  `Going` says so
of every piece of the poll at once, and `Placed` is what each place says about the session
that stands there.
-/
import RustyRig.Rrclient.IrcDcc

namespace RustyRig

namespace Dcc

variable {s s' : Session} {next : Next} {budget : Nat}

/-- What is left of the block that is being sent. -/
def pending (s : Session) : List UInt8 := s.tx.drop s.txOffset

/-- What has been received and is not yet in the file. -/
def unwritten (s : Session) : List UInt8 :=
  match s.place with
  | .write data offset _ => data.drop offset
  | _ => []

/-- How much of what has been received is in the file and not yet counted. -/
def uncounted (s : Session) : Nat :=
  match s.place with
  | .write _ offset _ => offset
  | _ => 0

/-- Nothing is left to send, and nothing to wait for. -/
def Done (s : Session) : Prop :=
  pending s = [] ∧ s.transferred = s.size ∧ (s.outgoing = true → s.acknowledged = s.size)

/-- What a place says about a session that is not finished. -/
structure Placed (s : Session) : Prop where
  clean : pending s = [] → s.tx = []
  undone : s.outgoing = true → s.state = .active → ¬ Done s
  early : s.state ≠ .active → s.place = .away
  sending : ∀ next, s.place = .flush next →
    pending s ≠ [] ∧ ∀ budget, next = .receive budget → s.outgoing = false
  reading : s.place = .read →
    s.outgoing = true ∧ pending s = [] ∧ s.acknowledged = s.transferred ∧ s.transferred < s.size
  receiving : ∀ budget, s.place = .receive budget → s.outgoing = false →
    pending s = [] ∧ s.transferred < s.size
  writing : ∀ data offset budget, s.place = .write data offset budget →
    s.outgoing = false ∧ pending s = [] ∧ data.drop offset ≠ []

/-- What comes of a session between two calls. -/
structure Going (s s' : Session) : Prop where
  outgoing : s'.outgoing = s.outgoing
  sizeKnown : s'.sizeKnown = s.sizeKnown
  size : s'.size = s.size
  transferred : s'.transferred = s.transferred
  acknowledged : s'.acknowledged = s.acknowledged
  ack : s'.ack = s.ack
  counts : s'.counts = s.counts
  pending : pending s' = pending s
  unwritten : unwritten s' = []
  uncounted : uncounted s' = 0
  ended : s'.ended = none ∧ Placed s' ∨ s'.ended = some (.complete, "") ∧ Done s'

/-- A session that looks for its next call. -/
structure Looking (s : Session) : Prop where
  known : s.sizeKnown = true
  running : s.ended = none
  active : s.state = .active
  unwritten : unwritten s = []
  uncounted : uncounted s = 0

theorem pending_eq_nil (h : s.tx = []) : pending s = [] := by
  unfold pending
  rw [h, List.drop_nil]

/-- A session at a place where nothing is being written. -/
theorem going_at (hlook : Looking s) (place : Place)
    (hplace : ∀ data offset budget, place ≠ .write data offset budget)
    (hplaced : Placed { s with place := place }) : Going s { s with place := place } := by
  have hnone : unwritten { s with place := place } = [] ∧ uncounted { s with place := place } = 0 := by
    cases place with
    | write data offset budget => exact absurd rfl (hplace data offset budget)
    | _ => exact ⟨rfl, rfl⟩
  exact ⟨rfl, rfl, rfl, rfl, rfl, rfl, rfl, rfl, hnone.1, hnone.2, Or.inl ⟨hlook.running, hplaced⟩⟩

theorem placed_away (hactive : s.state = .active) (htx : pending s = [] → s.tx = [])
    (hundone : s.outgoing = true → ¬ Done s) : Placed { s with place := .away } where
  clean := htx
  undone := fun hout _ => hundone hout
  early := fun h => absurd hactive h
  sending := by simp
  reading := by simp
  receiving := by simp
  writing := by simp

theorem going_receive (hlook : Looking s) (htx : pending s = [] → s.tx = [])
    (hundone : s.outgoing = true → ¬ Done s) : Going s (receive s budget) := by
  have haway := going_at hlook .away (by simp) (placed_away hlook.active htx hundone)
  unfold receive
  split
  · exact haway
  split
  · exact haway
  rename_i hempty
  split
  · exact haway
  rename_i hleft
  refine going_at hlook _ (by simp) ⟨htx, fun hout _ => hundone hout, fun h => absurd hlook.active h, by simp,
    by simp, fun _ _ hin => ?_, by simp⟩
  have hin : s.outgoing = false := hin
  simp only [hin, Bool.not_false, Bool.true_and, decide_eq_true_eq, not_not] at hempty
  simp only [hin, hlook.known, Bool.not_false, Bool.true_and, decide_eq_true_eq] at hleft
  exact ⟨pending_eq_nil hempty, Nat.lt_of_sub_ne_zero hleft⟩

theorem going_settle (hlook : Looking s) (htx : pending s = [] → s.tx = []) :
    Going s (settle s) := by
  unfold settle
  split
  · rename_i hdone
    simp only [Bool.and_eq_true, decide_eq_true_eq, Bool.or_eq_true, Bool.not_eq_true'] at hdone
    refine ⟨rfl, rfl, rfl, rfl, rfl, rfl, rfl, rfl, hlook.unwritten, hlook.uncounted,
      Or.inr ⟨rfl, pending_eq_nil hdone.1.1.2, hdone.1.2, fun hout => ?_⟩⟩
    have hout : s.outgoing = true := hout
    exact hdone.2.resolve_left (by simp [hout])
  · rename_i hdone
    refine going_receive hlook htx fun hout hall => hdone ?_
    simp [hlook.known, htx hall.1, hall.2.1, hall.2.2 hout]

theorem going_proceed (hlook : Looking s) (htx : pending s = [] → s.tx = [])
    (hnext : ∀ budget, next = .receive budget → s.outgoing = false) : Going s (proceed s next) := by
  cases next with
  | poll =>
      unfold proceed
      simp only
      split
      · rename_i hread
        simp only [Bool.and_eq_true, decide_eq_true_eq] at hread
        obtain ⟨⟨⟨hout, hempty⟩, hacked⟩, hless⟩ := hread
        refine going_at hlook _ (by simp) ⟨htx, fun _ _ hall => ?_, fun h => absurd hlook.active h,
          by simp, fun _ => ⟨hout, pending_eq_nil hempty, hacked, hless⟩, by simp, by simp⟩
        exact absurd hall.2.1 (Nat.ne_of_lt hless)
      · exact going_settle hlook htx
  | block => exact going_settle hlook htx
  | receive budget =>
      refine going_receive hlook htx fun hout => ?_
      rw [hnext budget rfl] at hout
      exact absurd hout (by simp)

theorem going_flush (next : Next) (hlook : Looking s)
    (hnext : ∀ budget, next = .receive budget → s.outgoing = false) : Going s (flush s next) := by
  unfold flush
  split
  · rename_i hmore
    have hpending : pending s ≠ [] := by
      unfold pending
      rw [ne_eq, List.drop_eq_nil_iff]
      omega
    refine going_at hlook _ (by simp) ⟨fun hnone => absurd hnone hpending,
      fun _ _ hall => hpending hall.1, fun h => absurd hlook.active h, fun x hx => ⟨hpending, ?_⟩,
      by simp, by simp, by simp⟩
    rw [← (Place.flush.injEq _ _).mp hx]
    exact hnext
  · rename_i hover
    have hpending : pending s = [] := by
      unfold pending
      rw [List.drop_eq_nil_iff]
      omega
    have hgoing : Going { s with tx := [], txOffset := 0 }
        (proceed { s with tx := [], txOffset := 0 } next) :=
      going_proceed ⟨hlook.known, hlook.running, hlook.active, hlook.unwritten, hlook.uncounted⟩
        (fun _ => rfl) hnext
    exact ⟨hgoing.outgoing, hgoing.sizeKnown, hgoing.size, hgoing.transferred, hgoing.acknowledged,
      hgoing.ack, hgoing.counts, hgoing.pending.trans hpending.symm, hgoing.unwritten,
      hgoing.uncounted, hgoing.ended⟩

end Dcc

end RustyRig

/-!
What the sender reads of acknowledgements.

The receiver counts what it has written and sends each count in 32 bits.  The counts on
their way rise from the one the sender knows to the receiver's, and that is at most a block
ahead, so every one is read as it was sent.  The induction is on the bytes read: four of them
are a count, and fewer stay in `ack`.
-/

namespace RustyRig

namespace Dcc

variable {s : Session} {data tail : List UInt8} {counts : List Nat} {b : Nat}

/-- An acknowledgement. -/
def enc (count : Nat) : List UInt8 := be32 (count % 2 ^ 32)

theorem enc_length (count : Nat) : (enc count).length = 4 := rfl

theorem ofBe32_enc (count : Nat) : ofBe32 (enc count) = count % 2 ^ 32 := by
  unfold enc be32 ofBe32
  simp only [List.foldl_cons, List.foldl_nil, UInt8.toNat_ofNat']
  omega

/-- The sender has read the acknowledgements `counts` as they were, up to those in its buffer and on
the stream, the last of which counts `b`. -/
structure Heard (s : Session) (stream : List UInt8) (counts : List Nat) (b : Nat) : Prop where
  short : s.ack.length < 4
  rest : ∃ rest, counts = s.counts ++ rest ∧ Lib.Ascends s.acknowledged rest b ∧
    s.ack ++ stream = rest.flatMap enc

theorem Heard.le (h : Heard s data counts b) : s.acknowledged ≤ b := by
  obtain ⟨_, -, hup, -⟩ := h.rest
  exact hup.le

/-- Nothing is on its way once the last count is known. -/
theorem Heard.silent (h : Heard s data counts b) (hle : b ≤ s.acknowledged) :
    s.ack = [] ∧ data = [] ∧ s.counts = counts := by
  obtain ⟨rest, hcounts, hup, hstream⟩ := h.rest
  have hrest := hup.eq_nil hle
  subst hrest
  obtain ⟨hack, hdata⟩ := List.append_eq_nil_iff.mp hstream
  exact ⟨hack, hdata, by rw [hcounts, List.append_nil]⟩

/-- Everything is known once nothing is on its way. -/
theorem Heard.all (h : Heard s [] counts b) : s.acknowledged = b := by
  obtain ⟨rest, -, hup, hstream⟩ := h.rest
  rw [List.append_nil] at hstream
  have hrest := Lib.flatMap_partial enc_length h.short hstream
  subst hrest
  exact hup

/-- A count is read as it was sent. -/
theorem Heard.next {c : UInt8} (h : Heard s (c :: tail) counts b) (hfull : (s.ack ++ [c]).length = 4)
    (hwindow : b < s.acknowledged + 2 ^ 32) :
    ∃ count, Lib.widen (2 ^ 32) s.acknowledged (ofBe32 (s.ack ++ [c])) = count ∧
      s.acknowledged ≤ count ∧ count ≤ b ∧
      Heard { s with ack := [], acknowledged := count, counts := s.counts ++ [count] } tail counts b := by
  obtain ⟨rest, hcounts, hup, hstream⟩ := h.rest
  have hsplit : (s.ack ++ [c]) ++ tail = rest.flatMap enc := by
    rw [List.append_assoc]
    exact hstream
  obtain ⟨count, rest', rfl, hrecord, htail⟩ := Lib.flatMap_record enc_length (by decide) hfull hsplit
  have hle : count ≤ b := hup.2.le
  refine ⟨count, ?_, Nat.le_of_lt hup.1, hle, by simp, rest', ?_, hup.2, htail⟩
  · rw [hrecord, ofBe32_enc]
    exact Lib.widen_mod (Nat.le_of_lt hup.1) (Nat.lt_of_le_of_lt hle hwindow)
  · rw [hcounts, List.append_assoc]
    rfl

/-- What the sender has read, and that it knows when all is done. -/
theorem readAcks_spec (hheard : Heard s (data ++ tail) counts b) (hb : b ≤ s.transferred)
    (hwindow : s.transferred ≤ s.acknowledged + blockSize) (hsize : s.transferred ≤ s.size)
    (htx : pending s = [] ↔ s.tx = []) (hout : s.outgoing = true) (hrun : s.ended = none)
    (hundone : ¬ Done s) :
    ∃ ack acknowledged counts' ended,
      readAcks s data = { s with
        ack := ack, acknowledged := acknowledged, counts := counts', ended := ended } ∧
      Heard (readAcks s data) tail counts b ∧ s.acknowledged ≤ acknowledged ∧
      (ended = none ∧ ¬ Done (readAcks s data) ∨
        ended = some (.complete, "") ∧ Done (readAcks s data)) := by
  induction data generalizing s with
  | nil =>
      refine ⟨s.ack, s.acknowledged, s.counts, s.ended, rfl, hheard, Nat.le_refl _, Or.inl ⟨hrun, hundone⟩⟩
  | cons c data ih =>
      by_cases hshort : (s.ack ++ [c]).length < 4
      · have hheard' : Heard { s with ack := s.ack ++ [c] } (data ++ tail) counts b := by
          obtain ⟨rest, hcounts, hup, hstream⟩ := hheard.rest
          refine ⟨hshort, rest, hcounts, hup, ?_⟩
          rw [← hstream]
          simp
        have hstep : readAcks s (c :: data) = readAcks { s with ack := s.ack ++ [c] } data := by
          rw [readAcks, if_pos hshort]
        rw [hstep]
        exact ih hheard' hb hwindow hsize htx hout hrun hundone
      · have hfull : (s.ack ++ [c]).length = 4 := by
          have hack := hheard.short
          simp only [List.length_append, List.length_singleton] at hshort ⊢
          omega
        have hroom : b < s.acknowledged + 2 ^ 32 := by
          have hblock : blockSize = 4096 := rfl
          omega
        obtain ⟨count, hwiden, hup, hle, hnext⟩ := hheard.next hfull hroom
        have hstep : readAcks s (c :: data) =
            if count = s.size && s.transferred = s.size && s.tx = [] then
              finish { s with ack := [], acknowledged := count, counts := s.counts ++ [count] } .complete ""
            else
              readAcks { s with ack := [], acknowledged := count, counts := s.counts ++ [count] } data := by
          rw [readAcks, if_neg hshort]
          simp only [hwiden]
          rw [if_neg (Nat.not_lt.mpr (Nat.le_trans hle hb))]
        rw [hstep]
        split
        · rename_i hall
          simp only [Bool.and_eq_true, decide_eq_true_eq] at hall
          have hsilent := hnext.silent (show b ≤ count by omega)
          have htail := (List.append_eq_nil_iff.mp hsilent.2.1).2
          refine ⟨[], count, s.counts ++ [count], some (.complete, ""), rfl, ?_, hup, Or.inr ⟨rfl, ?_⟩⟩
          · rw [hsilent.2.1] at hnext
            rw [htail]
            exact ⟨hnext.short, hnext.rest⟩
          · exact ⟨htx.mpr hall.2, hall.1.2, fun _ => hall.1.1⟩
        · rename_i hall
          obtain ⟨ack, acknowledged, counts', ended, heq, hheard', hle', hend⟩ :=
            ih (s := { s with ack := [], acknowledged := count, counts := s.counts ++ [count] })
              hnext hb (show s.transferred ≤ count + blockSize by omega) hsize htx hout hrun
              (fun hdone => hall (by
                have hcount : count = s.size := hdone.2.2 hout
                have htransferred : s.transferred = s.size := hdone.2.1
                simp [hcount, htransferred, htx.mp hdone.1]))
          exact ⟨ack, acknowledged, counts', ended, heq, hheard', Nat.le_trans hup hle', hend⟩

end Dcc

end RustyRig
