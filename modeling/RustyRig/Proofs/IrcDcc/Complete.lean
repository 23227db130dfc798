/-
Both sides complete, and neither reports an error.

A side that is complete has closed its end of the connection.  By `Agreed` the other side
has then nothing left to send, and nothing that it would wait for: the receiver has taken
all that was sent to it, and so has the sender.
-/
import RustyRig.Lib.Along
import RustyRig.Proofs.IrcDcc.Transfer

namespace RustyRig

namespace Dcc

variable {source : List UInt8} {y : Transfer} {s : Session} {now : Nat} {answer : Answer}
  {side : Side} {e : Event}

def Side.other : Side → Side
  | .sender => .receiver
  | .receiver => .sender

/-- Where a call on the connection may fail although nothing is wrong with it: the other side has
closed it, and what is sent to it then, or was not read by then, makes it reset the connection. -/
def Reset (y : Transfer) (side : Side) : Prop :=
  (y.session side.other).ended ≠ none ∧
    match (y.session side).place with
    | .flush _ => True
    | .receive _ => (y.party side).outbox ≠ []
    | _ => False

/-- The connection stays up, no file fails, and nobody is late or closes a session. -/
def Fair (y : Transfer) : Event → Prop
  | .poll side now ready => ¬ Overdue (y.session side) now ready
  | .call side _ answer => answer = .fails → Reset y side
  | .close side _ => (y.session side).ended ≠ none

instance (s : Session) (now : Nat) (ready : Answer) : Decidable (Overdue s now ready) :=
  inferInstanceAs (Decidable (_ ∧ _ ∧ (_ ∨ _)))

theorem fair_gives {n : Nat} : Fair y (.call side now (.gives n)) := fun h => nomatch h

/-- Neither side reports an error. -/
def Calm (y : Transfer) : Prop := ∀ side, Quiet (y.session side)

/-- What a complete sender knows. -/
theorem Agreed.senderGone (h : Agreed source y) (hquiet : Quiet y.sender)
    (hgone : y.sender.ended ≠ none) :
    y.receiver.transferred = source.length ∧ pending y.receiver = [] := by
  have hdone := h.sender.done "" (hquiet.resolve_left hgone)
  have hacked : y.sender.acknowledged = source.length := by
    rw [hdone.2.2 h.sends.1, h.sends.2.2]
  have hup := h.heard.le
  have hbehind := h.behind
  have hwithin := h.within
  have hsilent := h.heard.silent (by omega)
  exact ⟨by omega, (List.append_eq_nil_iff.mp hsilent.2.1).2⟩

/-- What a complete receiver knows. -/
theorem Agreed.receiverGone (h : Agreed source y) (hquiet : Quiet y.receiver)
    (hgone : y.receiver.ended ≠ none) :
    y.receiver.transferred = source.length ∧ pending y.receiver = [] := by
  have hdone := h.receiver.done "" (hquiet.resolve_left hgone)
  exact ⟨hdone.2.1.trans h.receives.2.2, hdone.1⟩

theorem Agreed.senderSmooth (h : Agreed source y) (hquiet : Quiet y.receiver)
    (hrun : y.sender.ended = none) (hfair : answer = .fails → Reset y .sender) :
    Smooth (y.party .sender) answer := by
  have hplaced := h.sender.placed hrun
  refine ⟨fun hfails => ?_, fun budget hplace hinbox => ?_⟩
  · obtain ⟨hgone, hreset⟩ := hfair hfails
    have hall := h.whole (h.receiverGone hquiet hgone).1
    cases hplace : y.sender.place with
    | flush next => exact (hplaced.sending next hplace).1 hall.2.2.2.2
    | receive budget =>
        simp only [Transfer.session, hplace] at hreset
        exact hreset hall.2.2.1
    | away => simp [Transfer.session, hplace] at hreset
    | read => simp [Transfer.session, hplace] at hreset
    | write data offset budget => simp [Transfer.session, hplace] at hreset
  · by_contra hopen
    have hplace : y.sender.place = .receive budget := hplace
    have hinbox : y.backward = [] := hinbox
    have hgone : y.receiver.ended ≠ none := by
      intro hnone
      exact hopen (by simp [Transfer.party, hnone])
    obtain ⟨hcount, hsent⟩ := h.receiverGone hquiet hgone
    have hall := h.whole hcount
    have hheard := h.heard
    rw [hinbox, hsent, List.append_nil] at hheard
    have hacked := hheard.all
    have hactive : y.sender.state = .active := by
      by_contra hearly
      exact absurd (hplaced.early hearly) (by simp [hplace])
    refine hplaced.undone h.sends.1 hactive ⟨hall.2.2.2.2, ?_, fun _ => ?_⟩
    · rw [hall.2.2.2.1, h.sends.2.2]
    · rw [hacked, hcount, h.sends.2.2]

theorem Agreed.receiverSmooth (h : Agreed source y) (hquiet : Quiet y.sender)
    (hrun : y.receiver.ended = none) (hfair : answer = .fails → Reset y .receiver) :
    Smooth (y.party .receiver) answer := by
  have hplaced := h.receiver.placed hrun
  have hwaits : y.sender.ended ≠ none → ∀ budget, y.receiver.place ≠ .receive budget := by
    intro hgone budget hplace
    have hless := (hplaced.receiving budget hplace h.receives.1).2
    rw [h.receives.2.2, (h.senderGone hquiet hgone).1] at hless
    exact absurd hless (Nat.lt_irrefl _)
  refine ⟨fun hfails => ?_, fun budget hplace _ => ?_⟩
  · obtain ⟨hgone, hreset⟩ := hfair hfails
    cases hplace : y.receiver.place with
    | flush next => exact (hplaced.sending next hplace).1 (h.senderGone hquiet hgone).2
    | receive budget => exact hwaits hgone budget hplace
    | away => simp [Transfer.session, hplace] at hreset
    | read => simp [Transfer.session, hplace] at hreset
    | write data offset budget => simp [Transfer.session, hplace] at hreset
  · by_contra hopen
    refine hwaits (fun hnone => hopen (by simp [Transfer.party, hnone])) budget hplace

theorem poll_quiet {ready : Answer} (hquiet : Quiet s) (hknown : s.sizeKnown = true)
    (hfair : ¬ Overdue s now ready) : Quiet (poll s now ready) := by
  rcases poll_cases hknown now ready with heq | ⟨hover, -⟩ | ⟨deadline, -, hgoing⟩
  · rw [heq]
    exact hquiet
  · exact absurd hover hfair
  · exact hgoing.quiet

/-- No error is reported as long as nothing goes wrong outside. -/
theorem Agreed.calm (h : Agreed source y) (hcalm : Calm y) (hfair : Fair y e) : Calm (y.step e) := by
  have hsender : Quiet y.sender := hcalm .sender
  have hreceiver : Quiet y.receiver := hcalm .receiver
  cases e with
  | poll side now ready =>
      cases side with
      | sender =>
          rintro (_ | _)
          · exact poll_quiet hsender h.sends.2.1 hfair
          · exact hreceiver
      | receiver =>
          rintro (_ | _)
          · exact hsender
          · exact poll_quiet hreceiver h.receives.2.1 hfair
  | call side now answer =>
      by_cases hrun : (y.session side).ended = none
      · cases side with
        | sender =>
            rintro (_ | _)
            · exact (h.senderCall now answer).2 hsender (h.senderSmooth hreceiver hrun hfair)
            · exact hreceiver
        | receiver =>
            rintro (_ | _)
            · exact hsender
            · exact (h.receiverCall now answer).2 hreceiver (h.receiverSmooth hsender hrun hfair)
      · have hstep : y.step (.call side now answer) = y := by
          cases side with
          | sender => simp only [Transfer.step, call_ended (p := y.party .sender) hrun]; rfl
          | receiver => simp only [Transfer.step, call_ended (p := y.party .receiver) hrun]; rfl
        rw [hstep]
        exact hcalm
  | close side reason =>
      have hstep : y.step (.close side reason) = y := by
        simp only [Transfer.step, Option.isSome_iff_ne_none.mpr hfair, if_true]
      rw [hstep]
      exact hcalm

/-! ### Completion -/

/-- The whole file has been acknowledged, as far as a side can tell. -/
def Finished (y : Transfer) : Side → Prop
  | .sender => y.sender.acknowledged = y.sender.size
  | .receiver => y.receiver.transferred = y.receiver.size ∧ pending y.receiver = []

/-- What the two sides of a transfer agree on. -/
structure Accord (source : List UInt8) (y : Transfer) : Prop where
  copied : y.file <+: source
  counted : y.sender.acknowledged ≤ y.sender.transferred
  /-- The sender reads every acknowledgement as the count that the receiver has sent. -/
  heard : y.sender.counts <+: y.receiver.counts
  complete : ∀ side reason, (y.session side).ended = some (.complete, reason) →
    y.file = source ∧ Finished y side
  /-- A side that knows the whole file acknowledged completes when it is polled in time. -/
  completes : ∀ side now n, Finished y side → y.file = source ∧
    ((y.session side).ended = none → ¬ Overdue (y.session side) now (.gives n) →
      ((y.step (.poll side now (.gives n))).session side).ended = some (.complete, ""))

theorem flush_done (hdone : Done s) (hknown : s.sizeKnown = true) :
    (flush s .poll).ended = some (.complete, "") := by
  obtain ⟨hempty, htransferred, hacked⟩ := hdone
  unfold pending at hempty
  rw [List.drop_eq_nil_iff] at hempty
  have hsettles : (!s.outgoing || decide (s.acknowledged = s.size)) = true := by
    cases hout : s.outgoing
    · rfl
    · simp [hacked hout]
  unfold flush
  rw [if_neg (Nat.not_lt.mpr hempty)]
  simp [proceed, settle, htransferred, hknown, hsettles, finish]

theorem poll_done (hdone : Done s) (hknown : s.sizeKnown = true) (hrun : s.ended = none)
    (haway : s.place = .away) {n : Nat} (hfair : ¬ Overdue s now (.gives n)) :
    (poll s now (.gives n)).ended = some (.complete, "") := by
  have htimely : ¬ (s.deadline ≠ 0 && s.deadline ≤ now) = true := by
    intro hlate
    simp only [ne_eq, Bool.and_eq_true, decide_eq_true_eq] at hlate
    exact hfair ⟨hrun, haway, Or.inl hlate⟩
  unfold poll
  rw [if_neg (by simp [hrun, haway]), if_neg htimely]
  cases hstate : s.state with
  | active => exact flush_done hdone hknown
  | listening => exact flush_done (s := { s with state := .active, deadline := now + timeout }) hdone hknown
  | connecting => exact flush_done (s := { s with state := .active, deadline := now + timeout }) hdone hknown

theorem Agreed.finished (h : Agreed source y) (hfinished : Finished y side) :
    y.receiver.transferred = source.length ∧ Done (y.session side) := by
  have hup := h.heard.le
  have hbehind := h.behind
  have hwithin := h.within
  cases side with
  | sender =>
      have hacked : y.sender.acknowledged = source.length := hfinished.trans h.sends.2.2
      have hcount : y.receiver.transferred = source.length := by omega
      have hall := h.whole hcount
      exact ⟨hcount, hall.2.2.2.2, hall.2.2.2.1.trans h.sends.2.2.symm, fun _ => hfinished⟩
  | receiver =>
      refine ⟨hfinished.1.trans h.receives.2.2, hfinished.2, hfinished.1, fun hout => ?_⟩
      exact absurd (h.receives.1.symm.trans hout) (by simp)

/-- A side that has nothing left to do waits for its poll. -/
theorem Agreed.waits (h : Agreed source y) (hfinished : Finished y side)
    (hrun : (y.session side).ended = none) : (y.session side).place = .away := by
  obtain ⟨hcount, hdone⟩ := h.finished hfinished
  cases side with
  | sender =>
      have hplaced := h.sender.placed hrun
      by_contra haway
      refine hplaced.undone h.sends.1 ?_ hdone
      by_contra hearly
      exact haway (hplaced.early hearly)
  | receiver =>
      have hplaced := h.receiver.placed hrun
      show y.receiver.place = .away
      cases hplace : y.receiver.place with
      | away => rfl
      | flush next => exact absurd hdone.1 (hplaced.sending next hplace).1
      | read =>
          have hout := (hplaced.reading hplace).1
          exact absurd (h.receives.1.symm.trans hout) (by simp)
      | receive budget =>
          have hless := (hplaced.receiving budget hplace h.receives.1).2
          exact absurd hdone.2.1 (Nat.ne_of_lt hless)
      | write data offset budget =>
          have hmore := (hplaced.writing data offset budget hplace).2.2
          have hnone := (h.whole hcount).2.1
          simp only [unwritten, hplace] at hnone
          exact absurd hnone hmore

theorem Agreed.accord (h : Agreed source y) : Accord source y where
  copied := by
    have hpassed := h.passed
    rw [List.append_assoc] at hpassed
    exact (hpassed ▸ List.prefix_append _ _ : y.file <+: source.take y.sender.transferred).trans
      (List.take_prefix _ _)
  counted := Nat.le_trans h.heard.le h.behind
  heard := by
    obtain ⟨rest, hcounts, -⟩ := h.heard.rest
    exact ⟨rest, hcounts.symm⟩
  complete := fun side reason hend => by
    have hfinished : Finished y side := by
      cases side with
      | sender =>
          have hdone := h.sender.done reason hend
          exact hdone.2.2 h.sends.1
      | receiver =>
          have hdone := h.receiver.done reason hend
          exact ⟨hdone.2.1, hdone.1⟩
    exact ⟨(h.whole (h.finished hfinished).1).1, hfinished⟩
  completes := fun side now n hfinished => by
    obtain ⟨hcount, hdone⟩ := h.finished hfinished
    refine ⟨(h.whole hcount).1, fun hrun hfair => ?_⟩
    have haway := h.waits hfinished hrun
    cases side with
    | sender => exact poll_done hdone h.sends.2.1 hrun haway hfair
    | receiver => exact poll_done hdone h.receives.2.1 hrun haway hfair

/-- In every run the two sides agree, and they report no error where nothing goes wrong outside. -/
theorem accord_run (source : List UInt8) (deadline deadline' : Nat) (es : List Event) :
    Accord source (es.foldl Transfer.step (Transfer.offered source deadline deadline')) ∧
      (Lib.Along Transfer.step Fair (Transfer.offered source deadline deadline') es →
        Calm (es.foldl Transfer.step (Transfer.offered source deadline deadline'))) := by
  refine ⟨(agreed_run source deadline deadline' es).accord, fun hfair => ?_⟩
  have hrun := hfair.invariant (P := fun y => Agreed source y ∧ Calm y)
    ⟨agreed_offered source deadline deadline', fun side => by cases side <;> exact Or.inl rfl⟩
    fun y e h hfair => ⟨h.1.step e, h.1.calm h.2 hfair⟩
  exact hrun.2

/-- Two bytes, sent one by one; their acknowledgements arrive in parts. -/
def twoBytes : List Event :=
  [.poll .sender 1 (.gives 0), .call .sender 2 (.gives 5), .call .sender 3 (.gives 0),
    .poll .receiver 3 (.gives 0), .call .receiver 4 (.gives 9), .call .receiver 5 (.gives 0),
    .call .receiver 6 (.gives 1), .call .sender 7 (.gives 0), .call .sender 8 (.gives 9),
    .call .receiver 9 (.gives 5), .call .receiver 10 (.gives 5), .call .receiver 11 (.gives 5),
    .call .receiver 12 (.gives 5), .call .sender 13 (.gives 9), .poll .receiver 14 (.gives 0)]

theorem accord_run_twoBytes :
    (twoBytes.foldl Transfer.step (Transfer.offered [7, 8] 300 300)).sender.ended =
        some (.complete, "") ∧
      (twoBytes.foldl Transfer.step (Transfer.offered [7, 8] 300 300)).receiver.ended =
        some (.complete, "") ∧
      Calm (twoBytes.foldl Transfer.step (Transfer.offered [7, 8] 300 300)) :=
  ⟨by decide +kernel, by decide +kernel,
    (accord_run [7, 8] 300 300 twoBytes).2
      ⟨by show ¬ Overdue _ _ _; decide +kernel, fair_gives, fair_gives,
        by show ¬ Overdue _ _ _; decide +kernel, fair_gives, fair_gives, fair_gives, fair_gives,
        fair_gives, fair_gives, fair_gives, fair_gives, fair_gives, fair_gives,
        by show ¬ Overdue _ _ _; decide +kernel, trivial⟩⟩

/-- A sender that hears nothing for five minutes reports an error, and so does a receiver whose file
cannot be written. -/
theorem accord_error :
    ([.poll .sender 1 (.gives 0), .call .sender 2 (.gives 0), .call .sender 3 (.gives 0),
        .call .sender 4 .again, .poll .sender 300000003 (.gives 0)].foldl Transfer.step
        (Transfer.offered [7] 300 300)).sender.ended =
        some (.error, "DCC offer or transfer timed out") ∧
      ([.poll .sender 1 (.gives 0), .call .sender 2 (.gives 0), .call .sender 3 (.gives 0),
        .poll .receiver 4 (.gives 0), .call .receiver 5 (.gives 0), .call .receiver 6 .fails].foldl
        Transfer.step (Transfer.offered [7] 300 300)).receiver.ended =
        some (.error, "file write failed") := by
  decide +kernel

end Dcc

end RustyRig
