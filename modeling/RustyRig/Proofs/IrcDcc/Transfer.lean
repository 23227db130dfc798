/-
A transfer of any length, in any order of calls.

Every event keeps `Agreed`: one case for each place and each answer.  As long as no call
fails and nobody is late or closed, no side reports an error: the calls that could fail are
not made any more once the other side is complete.
-/
import RustyRig.Proofs.IrcDcc.Agreement

namespace RustyRig

namespace Dcc

variable {source : List UInt8} {y : Transfer} {s : Session} {now : Nat} {answer : Answer}

/-- A call that is not made after all. -/
theorem Standing.leave (h : Standing s) (hrun : s.ended = none) (hplace : s.place ≠ .away) :
    Standing { s with place := .away } where
  placed := fun _ => by
    have hplaced := h.placed hrun
    have hactive : s.state = .active := by
      by_contra hearly
      exact hplace (hplaced.early hearly)
    exact placed_away hactive hplaced.clean fun hout => hplaced.undone hout hactive
  done := fun _ hend => absurd (hrun.symm.trans hend) (by simp)

/-- The call does not fail, and finds the connection open. -/
def Smooth (p : Party) (answer : Answer) : Prop :=
  answer ≠ .fails ∧ ∀ budget, p.self.place = .receive budget → p.inbox = [] → p.peerGone = false

theorem Agreed.senderFinish (h : Agreed source y) {status : Status} {reason : String}
    (hstatus : status ≠ .complete) :
    Agreed source { y with sender := finish y.sender status reason } :=
  { h with
    heard := ⟨h.heard.short, h.heard.rest⟩
    sender := standing_finish hstatus }

theorem Agreed.receiverFinish (h : Agreed source y) {status : Status} {reason : String}
    (hstatus : status ≠ .complete) :
    Agreed source { y with receiver := finish y.receiver status reason } :=
  { h with receiver := standing_finish hstatus }

/-- A session that has ended makes no calls. -/
theorem call_ended {p : Party} (hend : p.self.ended ≠ none) : call p now answer = p := by
  have hsome : p.self.ended.isSome = true := Option.isSome_iff_ne_none.mpr hend
  simp [call, hsome]

/-! ### The sender's calls -/

theorem Agreed.senderFlush (h : Agreed source y) (hrun : y.sender.ended = none) {next : Next}
    (hplace : y.sender.place = .flush next) (now : Nat) (answer : Answer) :
    Agreed source (y.put .sender (callFlush (y.party .sender) next now answer)) ∧
      (Smooth (y.party .sender) answer → Quiet (y.put .sender (callFlush (y.party .sender) next now answer)).sender) := by
  obtain ⟨hout, hknown, -⟩ := h.sends
  have hplaced := h.sender.placed hrun
  have hlook := Looking.of_placed hplaced hknown hrun (by simp [hplace]) (by simp [hplace])
  have hnext := (hplaced.sending next hplace).2
  cases answer with
  | again =>
      have hgoing : Going y.sender (proceed y.sender next) := going_proceed hlook hplaced.clean hnext
      have hcall : y.put .sender (callFlush (y.party .sender) next now .again) =
          { y with sender := proceed y.sender next } := rfl
      rw [hcall]
      exact ⟨{ h.toCarried.senderGoing hgoing with
        sender := hgoing.standing
        receiver := h.receiver }, fun _ => hgoing.quiet⟩
  | fails =>
      have hcall : y.put .sender (callFlush (y.party .sender) next now .fails) =
          { y with sender := finish y.sender .error "TCP write failed" } := rfl
      rw [hcall]
      exact ⟨h.senderFinish (by simp), fun hsmooth => absurd rfl hsmooth.1⟩
  | gives n =>
      have hsent := h.toCarried.senderSends
        (List.take_append_drop (n + 1) (pending y.sender)).symm now
      have hgoing := going_flush next (s := { y.sender with
        txOffset := y.sender.txOffset + ((pending y.sender).take (n + 1)).length
        transferred := y.sender.transferred + ((pending y.sender).take (n + 1)).length
        deadline := now + timeout })
        ⟨hknown, hrun, hlook.active, hlook.unwritten, hlook.uncounted⟩ hnext
      have hcall := hsent.senderGoing hgoing
      have heq : y.put .sender (callFlush (y.party .sender) next now (.gives n)) =
          { y with
            forward := y.forward ++ (pending y.sender).take (n + 1)
            sender := flush { y.sender with
              txOffset := y.sender.txOffset + ((pending y.sender).take (n + 1)).length
              transferred := y.sender.transferred + ((pending y.sender).take (n + 1)).length
              deadline := now + timeout } next } := by
        simp [callFlush, Transfer.party, Transfer.put, hout, pending]
      rw [heq]
      exact ⟨{ hcall with
        sender := hgoing.standing
        receiver := h.receiver }, fun _ => hgoing.quiet⟩

theorem Agreed.senderLeave (h : Agreed source y) (hrun : y.sender.ended = none)
    (hplace : y.sender.place ≠ .away) :
    Agreed source { y with sender := { y.sender with place := .away } } :=
  { h with
    heard := ⟨h.heard.short, h.heard.rest⟩
    sender := h.sender.leave hrun hplace }

theorem Agreed.senderRead (h : Agreed source y) (hrun : y.sender.ended = none)
    (hplace : y.sender.place = .read) (answer : Answer) :
    Agreed source (y.put .sender (callRead (y.party .sender) answer)) ∧
      (Smooth (y.party .sender) answer → Quiet (y.put .sender (callRead (y.party .sender) answer)).sender) := by
  obtain ⟨hout, hknown, hsize⟩ := h.sends
  have hplaced := h.sender.placed hrun
  have hlook := Looking.of_placed hplaced hknown hrun (by simp [hplace]) (by simp [hplace])
  obtain ⟨-, -, hacked, hless⟩ := hplaced.reading hplace
  cases answer with
  | again =>
      have hcall : y.put .sender (callRead (y.party .sender) .again) =
          { y with sender := { y.sender with place := .away } } := rfl
      rw [hcall]
      exact ⟨h.senderLeave hrun (by simp [hplace]), fun _ => Or.inl hrun⟩
  | fails =>
      have hcall : y.put .sender (callRead (y.party .sender) .fails) =
          { y with sender := finish y.sender .error "source file read failed or file shrank" } := rfl
      rw [hcall]
      exact ⟨h.senderFinish (by simp), fun hsmooth => absurd rfl hsmooth.1⟩
  | gives n =>
      by_cases hdata : (y.source.drop y.sender.transferred).take
          (min (n + 1) (min (y.sender.size - y.sender.transferred) blockSize)) = []
      · rw [h.unchanged, List.take_eq_nil_iff, List.drop_eq_nil_iff] at hdata
        have hblock : blockSize = 4096 := rfl
        exact absurd hdata (by omega)
      · have hcall : y.put .sender (callRead (y.party .sender) (.gives n)) =
            { y with sender := flush { y.sender with
              tx := (y.source.drop y.sender.transferred).take
                (min (n + 1) (min (y.sender.size - y.sender.transferred) blockSize))
              txOffset := 0 } .block } := by
          simp only [callRead, Transfer.party, Transfer.put, hdata, if_false]
        have hread := h.toCarried.senderReads ((y.source.drop y.sender.transferred).take
          (min (n + 1) (min (y.sender.size - y.sender.transferred) blockSize))) hacked
          (by rw [h.unchanged]; exact List.take_prefix _ _)
          (by rw [List.length_take]; omega)
        have hgoing := going_flush .block (s := { y.sender with
          tx := (y.source.drop y.sender.transferred).take
            (min (n + 1) (min (y.sender.size - y.sender.transferred) blockSize))
          txOffset := 0 })
          ⟨hknown, hrun, hlook.active, hlook.unwritten, hlook.uncounted⟩ (by simp)
        rw [hcall]
        exact ⟨{ hread.senderGoing hgoing with
          sender := hgoing.standing
          receiver := h.receiver }, fun _ => hgoing.quiet⟩

theorem Agreed.senderReceive (h : Agreed source y) (hrun : y.sender.ended = none) {budget : Nat}
    (hplace : y.sender.place = .receive budget) (now : Nat) (answer : Answer) :
    Agreed source (y.put .sender (callReceive (y.party .sender) budget now answer)) ∧
      (Smooth (y.party .sender) answer → Quiet (y.put .sender (callReceive (y.party .sender) budget now answer)).sender) := by
  obtain ⟨hout, hknown, -⟩ := h.sends
  cases answer with
  | again =>
      have hcall : y.put .sender (callReceive (y.party .sender) budget now .again) =
          { y with sender := { y.sender with place := .away } } := rfl
      rw [hcall]
      exact ⟨h.senderLeave hrun (by simp [hplace]), fun _ => Or.inl hrun⟩
  | fails =>
      have hcall : y.put .sender (callReceive (y.party .sender) budget now .fails) =
          { y with sender := finish y.sender .error "TCP read failed" } := rfl
      rw [hcall]
      exact ⟨h.senderFinish (by simp), fun hsmooth => absurd rfl hsmooth.1⟩
  | gives n =>
      by_cases hinbox : y.backward = []
      · cases hgone : y.receiver.ended.isSome with
        | true =>
            have hcall : y.put .sender (callReceive (y.party .sender) budget now (.gives n)) =
                { y with sender := finish y.sender .error "peer closed connection" } := by
              simp [callReceive, Transfer.party, Transfer.put, hinbox, hgone, hout]
            rw [hcall]
            refine ⟨h.senderFinish (by simp), fun hsmooth => ?_⟩
            have hopen := hsmooth.2 budget hplace hinbox
            exact absurd (hgone.symm.trans hopen) (by simp)
        | false =>
            have hcall : y.put .sender (callReceive (y.party .sender) budget now (.gives n)) =
                { y with sender := { y.sender with place := .away } } := by
              simp [callReceive, Transfer.party, Transfer.put, hinbox, hgone]
            rw [hcall]
            exact ⟨h.senderLeave hrun (by simp [hplace]), fun _ => Or.inl hrun⟩
      · have hcall : y.put .sender (callReceive (y.party .sender) budget now (.gives n)) =
            { y with
              backward := y.backward.drop (min (n + 1) (maximum y.sender))
              sender := received { y.sender with deadline := now + timeout }
                (y.backward.take (min (n + 1) (maximum y.sender))) budget } := by
          simp [callReceive, Transfer.party, Transfer.put, hinbox]
        rw [hcall]
        obtain ⟨hagreed, hquiet⟩ := h.senderHears
          (List.take_append_drop (min (n + 1) (maximum y.sender)) y.backward).symm now budget hrun hplace
        exact ⟨hagreed, fun _ => hquiet⟩

theorem Agreed.senderCall (h : Agreed source y) (now : Nat) (answer : Answer) :
    Agreed source (y.put .sender (call (y.party .sender) now answer)) ∧
      (Quiet y.sender → Smooth (y.party .sender) answer →
        Quiet (y.put .sender (call (y.party .sender) now answer)).sender) := by
  by_cases hrun : y.sender.ended = none
  · cases hplace : y.sender.place with
    | away =>
        have hcall : call (y.party .sender) now answer = y.party .sender := by
          simp [call, Transfer.party, hrun, hplace]
        rw [hcall]
        exact ⟨h, fun hquiet _ => hquiet⟩
    | flush next =>
        have hcall : call (y.party .sender) now answer = callFlush (y.party .sender) next now answer := by
          simp [call, Transfer.party, hrun, hplace]
        obtain ⟨hagreed, hquiet⟩ := h.senderFlush hrun hplace now answer
        rw [hcall]
        exact ⟨hagreed, fun _ => hquiet⟩
    | read =>
        have hcall : call (y.party .sender) now answer = callRead (y.party .sender) answer := by
          simp [call, Transfer.party, hrun, hplace]
        obtain ⟨hagreed, hquiet⟩ := h.senderRead hrun hplace answer
        rw [hcall]
        exact ⟨hagreed, fun _ => hquiet⟩
    | receive budget =>
        have hcall : call (y.party .sender) now answer = callReceive (y.party .sender) budget now answer := by
          simp [call, Transfer.party, hrun, hplace]
        obtain ⟨hagreed, hquiet⟩ := h.senderReceive hrun hplace now answer
        rw [hcall]
        exact ⟨hagreed, fun _ => hquiet⟩
    | write data offset budget =>
        have hin := ((h.sender.placed hrun).writing data offset budget hplace).1
        exact absurd (h.sends.1.symm.trans hin) (by simp)
  · rw [call_ended (p := y.party .sender) hrun]
    exact ⟨h, fun hquiet _ => hquiet⟩

/-! ### The receiver's calls -/

theorem Agreed.receiverFlush (h : Agreed source y) (hrun : y.receiver.ended = none) {next : Next}
    (hplace : y.receiver.place = .flush next) (now : Nat) (answer : Answer) :
    Agreed source (y.put .receiver (callFlush (y.party .receiver) next now answer)) ∧
      (Smooth (y.party .receiver) answer → Quiet (y.put .receiver (callFlush (y.party .receiver) next now answer)).receiver) := by
  obtain ⟨hin, hknown, -⟩ := h.receives
  have hplaced := h.receiver.placed hrun
  have hlook := Looking.of_placed hplaced hknown hrun (by simp [hplace]) (by simp [hplace])
  have hnext := (hplaced.sending next hplace).2
  cases answer with
  | again =>
      have hgoing : Going y.receiver (proceed y.receiver next) :=
        going_proceed hlook hplaced.clean hnext
      have hcall : y.put .receiver (callFlush (y.party .receiver) next now .again) =
          { y with receiver := proceed y.receiver next } := rfl
      rw [hcall]
      exact ⟨{ h.toCarried.receiverGoing hlook.unwritten hlook.uncounted hgoing with
        sender := h.sender
        receiver := hgoing.standing }, fun _ => hgoing.quiet⟩
  | fails =>
      have hcall : y.put .receiver (callFlush (y.party .receiver) next now .fails) =
          { y with receiver := finish y.receiver .error "TCP write failed" } := rfl
      rw [hcall]
      exact ⟨h.receiverFinish (by simp), fun hsmooth => absurd rfl hsmooth.1⟩
  | gives n =>
      have hsent := h.toCarried.receiverSends
        (List.take_append_drop (n + 1) (pending y.receiver)).symm now
      have hgoing := going_flush next (s := { y.receiver with
        txOffset := y.receiver.txOffset + ((pending y.receiver).take (n + 1)).length
        deadline := now + timeout })
        ⟨hknown, hrun, hlook.active, hlook.unwritten, hlook.uncounted⟩ hnext
      have hcall := hsent.receiverGoing hlook.unwritten hlook.uncounted hgoing
      have heq : y.put .receiver (callFlush (y.party .receiver) next now (.gives n)) =
          { y with
            backward := y.backward ++ (pending y.receiver).take (n + 1)
            receiver := flush { y.receiver with
              txOffset := y.receiver.txOffset + ((pending y.receiver).take (n + 1)).length
              deadline := now + timeout } next } := by
        simp [callFlush, Transfer.party, Transfer.put, hin, pending]
      rw [heq]
      exact ⟨{ hcall with
        sender := h.sender
        receiver := hgoing.standing }, fun _ => hgoing.quiet⟩

theorem Agreed.receiverLeave (h : Agreed source y) (hrun : y.receiver.ended = none) {budget : Nat}
    (hplace : y.receiver.place = .receive budget) :
    Agreed source { y with receiver := { y.receiver with place := .away } } :=
  { h with
    passed := by
      have hpassed := h.passed
      simp only [unwritten, hplace] at hpassed
      exact hpassed
    counted := by
      have hcounted := h.counted
      simp only [uncounted, hplace] at hcounted
      exact hcounted
    receiver := h.receiver.leave hrun (by simp [hplace]) }

/-- The receiver has bytes to write. -/
theorem standing_write {data : List UInt8} {offset budget : Nat} (hrun : s.ended = none)
    (hactive : s.state = .active) (hin : s.outgoing = false) (hclean : pending s = [] → s.tx = [])
    (hempty : pending s = []) (hmore : data.drop offset ≠ []) :
    Standing { s with place := .write data offset budget } where
  placed := fun _ =>
    { clean := hclean
      undone := fun hout => absurd (hin.symm.trans hout) (by simp)
      early := fun hearly => absurd hactive hearly
      sending := by simp
      reading := by simp
      receiving := by simp
      writing := fun _ _ _ hplace => by
        obtain ⟨rfl, rfl, -⟩ := (Place.write.injEq ..).mp hplace
        exact ⟨hin, hempty, hmore⟩ }
  done := fun _ hend => absurd (hrun.symm.trans hend) (by simp)

theorem Agreed.receiverReceive (h : Agreed source y) (hrun : y.receiver.ended = none) {budget : Nat}
    (hplace : y.receiver.place = .receive budget) (now : Nat) (answer : Answer) :
    Agreed source (y.put .receiver (callReceive (y.party .receiver) budget now answer)) ∧
      (Smooth (y.party .receiver) answer → Quiet (y.put .receiver (callReceive (y.party .receiver) budget now answer)).receiver) := by
  obtain ⟨hin, hknown, hsize⟩ := h.receives
  have hplaced := h.receiver.placed hrun
  have hlook := Looking.of_placed hplaced hknown hrun (by simp [hplace]) (by simp [hplace])
  obtain ⟨hempty, hless⟩ := hplaced.receiving budget hplace hin
  cases answer with
  | again =>
      have hcall : y.put .receiver (callReceive (y.party .receiver) budget now .again) =
          { y with receiver := { y.receiver with place := .away } } := rfl
      rw [hcall]
      exact ⟨h.receiverLeave hrun hplace, fun _ => Or.inl hrun⟩
  | fails =>
      have hcall : y.put .receiver (callReceive (y.party .receiver) budget now .fails) =
          { y with receiver := finish y.receiver .error "TCP read failed" } := rfl
      rw [hcall]
      exact ⟨h.receiverFinish (by simp), fun hsmooth => absurd rfl hsmooth.1⟩
  | gives n =>
      by_cases hinbox : y.forward = []
      · cases hgone : y.sender.ended.isSome with
        | true =>
            have hcall : y.put .receiver (callReceive (y.party .receiver) budget now (.gives n)) =
                { y with receiver := finish y.receiver .error "peer closed connection" } := by
              simp [callReceive, Transfer.party, Transfer.put, hinbox, hgone, hknown]
            rw [hcall]
            refine ⟨h.receiverFinish (by simp), fun hsmooth => ?_⟩
            have hopen := hsmooth.2 budget hplace hinbox
            exact absurd (hgone.symm.trans hopen) (by simp)
        | false =>
            have hcall : y.put .receiver (callReceive (y.party .receiver) budget now (.gives n)) =
                { y with receiver := { y.receiver with place := .away } } := by
              simp [callReceive, Transfer.party, Transfer.put, hinbox, hgone]
            rw [hcall]
            exact ⟨h.receiverLeave hrun hplace, fun _ => Or.inl hrun⟩
      · have hcall : y.put .receiver (callReceive (y.party .receiver) budget now (.gives n)) =
            { y with
              forward := y.forward.drop (min (n + 1) (maximum y.receiver))
              receiver := { y.receiver with
                deadline := now + timeout
                place := .write (y.forward.take (min (n + 1) (maximum y.receiver))) 0 budget } } := by
          simp [callReceive, Transfer.party, Transfer.put, hinbox, received, hin]
        have htakes := h.toCarried.receiverTakes hlook.unwritten hlook.uncounted
          (List.take_append_drop (min (n + 1) (maximum y.receiver)) y.forward).symm now budget
        have hmax : 0 < min (n + 1) (maximum y.receiver) := by
          have hblock : blockSize = 4096 := rfl
          simp only [maximum, hin, hknown, Bool.not_false, Bool.true_and, if_true]
          omega
        have hmore : (y.forward.take (min (n + 1) (maximum y.receiver))).drop 0 ≠ [] := by
          rw [List.drop_zero, ne_eq, List.take_eq_nil_iff, not_or]
          exact ⟨Nat.ne_of_gt hmax, hinbox⟩
        rw [hcall]
        exact ⟨{ htakes with
          sender := h.sender
          receiver := standing_write (s := { y.receiver with deadline := now + timeout }) hrun
            hlook.active hin hplaced.clean hempty hmore }, fun _ => Or.inl hrun⟩

theorem Agreed.receiverWrite (h : Agreed source y) (hrun : y.receiver.ended = none)
    {data : List UInt8} {offset budget : Nat} (hplace : y.receiver.place = .write data offset budget)
    (answer : Answer) :
    Agreed source (y.put .receiver (callWrite (y.party .receiver) data offset budget answer)) ∧
      (Smooth (y.party .receiver) answer → Quiet (y.put .receiver (callWrite (y.party .receiver) data offset budget answer)).receiver) := by
  obtain ⟨hin, hknown, -⟩ := h.receives
  have hplaced := h.receiver.placed hrun
  have hactive : y.receiver.state = .active := by
    by_contra hearly
    exact absurd (hplaced.early hearly) (by simp [hplace])
  obtain ⟨-, hempty, hmore⟩ := hplaced.writing data offset budget hplace
  cases answer with
  | again =>
      have hcall : y.put .receiver (callWrite (y.party .receiver) data offset budget .again) = y := rfl
      rw [hcall]
      exact ⟨h, fun _ => Or.inl hrun⟩
  | fails =>
      have hcall : y.put .receiver (callWrite (y.party .receiver) data offset budget .fails) =
          { y with receiver := finish y.receiver .error "file write failed" } := rfl
      rw [hcall]
      exact ⟨h.receiverFinish (by simp), fun hsmooth => absurd rfl hsmooth.1⟩
  | gives n =>
      have hsplit := (List.take_append_drop (n + 1) (data.drop offset)).symm
      have hend : y.file.length = y.receiver.transferred + offset := by
        have hcounted := h.counted
        simp only [uncounted, hplace] at hcounted
        exact hcounted
      have hwritten := h.toCarried.receiverWrites hplace hsplit
      have hcall : y.put .receiver (callWrite (y.party .receiver) data offset budget (.gives n)) =
          { y with
            file := y.file ++ (data.drop offset).take (n + 1)
            receiver := written y.receiver data
              (offset + ((data.drop offset).take (n + 1)).length) budget } := by
        simp only [callWrite, Transfer.party, Transfer.put, pwrite_end hend]
      rw [hcall]
      unfold written
      split
      · rename_i hrest
        exact ⟨{ hwritten with
          sender := h.sender
          receiver := standing_write hrun hactive hin hplaced.clean hempty (by
            rw [ne_eq, List.drop_eq_nil_iff]
            omega) }, fun _ => Or.inl hrun⟩
      · rename_i hover
        have hdata : data ≠ [] := by
          rintro rfl
          exact hmore List.drop_nil
        have hoffset : offset + ((data.drop offset).take (n + 1)).length = data.length := by
          have hlength : ((data.drop offset).take (n + 1)).length ≤ data.length - offset := by
            rw [List.length_take, List.length_drop]
            exact Nat.min_le_right _ _
          have hless : offset < data.length := by
            rw [ne_eq, List.drop_eq_nil_iff] at hmore
            omega
          omega
        have hcounts := hwritten.receiverCounts data.length budget
          (by rw [← hoffset]) rfl hdata hempty
        have hgoing := going_flush (.receive budget) (s := { y.receiver with
          transferred := y.receiver.transferred + data.length
          tx := be32 ((y.receiver.transferred + data.length) % 2 ^ 32)
          txOffset := 0
          place := .away
          counts := y.receiver.counts ++ [y.receiver.transferred + data.length] })
          ⟨hknown, hrun, hactive, rfl, rfl⟩ fun _ _ => hin
        exact ⟨{ hcounts.receiverGoing rfl rfl hgoing with
          sender := h.sender
          receiver := hgoing.standing }, fun _ => hgoing.quiet⟩

theorem Agreed.receiverCall (h : Agreed source y) (now : Nat) (answer : Answer) :
    Agreed source (y.put .receiver (call (y.party .receiver) now answer)) ∧
      (Quiet y.receiver → Smooth (y.party .receiver) answer →
        Quiet (y.put .receiver (call (y.party .receiver) now answer)).receiver) := by
  by_cases hrun : y.receiver.ended = none
  · cases hplace : y.receiver.place with
    | away =>
        have hcall : call (y.party .receiver) now answer = y.party .receiver := by
          simp [call, Transfer.party, hrun, hplace]
        rw [hcall]
        exact ⟨h, fun hquiet _ => hquiet⟩
    | flush next =>
        have hcall : call (y.party .receiver) now answer = callFlush (y.party .receiver) next now answer := by
          simp [call, Transfer.party, hrun, hplace]
        obtain ⟨hagreed, hquiet⟩ := h.receiverFlush hrun hplace now answer
        rw [hcall]
        exact ⟨hagreed, fun _ => hquiet⟩
    | read =>
        have hout := ((h.receiver.placed hrun).reading hplace).1
        exact absurd (hout.symm.trans h.receives.1) (by simp)
    | receive budget =>
        have hcall : call (y.party .receiver) now answer = callReceive (y.party .receiver) budget now answer := by
          simp [call, Transfer.party, hrun, hplace]
        obtain ⟨hagreed, hquiet⟩ := h.receiverReceive hrun hplace now answer
        rw [hcall]
        exact ⟨hagreed, fun _ => hquiet⟩
    | write data offset budget =>
        have hcall : call (y.party .receiver) now answer = callWrite (y.party .receiver) data offset budget answer := by
          simp [call, Transfer.party, hrun, hplace]
        obtain ⟨hagreed, hquiet⟩ := h.receiverWrite hrun hplace answer
        rw [hcall]
        exact ⟨hagreed, fun _ => hquiet⟩
  · rw [call_ended (p := y.party .receiver) hrun]
    exact ⟨h, fun hquiet _ => hquiet⟩

/-! ### Every event -/

/-- The poll comes too late, or the connection could not be made. -/
def Overdue (s : Session) (now : Nat) (ready : Answer) : Prop :=
  s.ended = none ∧ s.place = .away ∧
    (s.deadline ≠ 0 ∧ s.deadline ≤ now ∨ s.state ≠ .active ∧ ready = .fails)

/-- A poll changes nothing, is overdue, or looks for the first call. -/
theorem poll_cases (hknown : s.sizeKnown = true) (now : Nat) (ready : Answer) :
    poll s now ready = s ∨
      (Overdue s now ready ∧ ∃ reason, poll s now ready = finish s .error reason) ∨
      ∃ deadline, s.place = .away ∧
        Going { s with state := .active, deadline := deadline } (poll s now ready) := by
  unfold poll
  split
  · exact Or.inl rfl
  rename_i hstart
  simp only [Bool.or_eq_true, Option.isSome_iff_ne_none, decide_eq_true_eq, not_or, not_not] at hstart
  obtain ⟨hrun, haway⟩ := hstart
  split
  · rename_i hlate
    simp only [ne_eq, Bool.and_eq_true, decide_eq_true_eq] at hlate
    exact Or.inr (Or.inl ⟨⟨hrun, haway, Or.inl hlate⟩, _, rfl⟩)
  have hlook : ∀ deadline, Looking { s with state := .active, deadline := deadline } := fun _ =>
    ⟨hknown, hrun, rfl, by simp [unwritten, haway], by simp [uncounted, haway]⟩
  have hfails : ∀ hearly : s.state ≠ .active, ready = .fails → Overdue s now ready :=
    fun hearly hready => ⟨hrun, haway, Or.inr ⟨hearly, hready⟩⟩
  split
  · rename_i hactive
    have hself : { s with state := .active, deadline := s.deadline } = s := by rw [← hactive]
    have hgoing := going_flush .poll (hlook s.deadline) (by simp)
    rw [hself] at hgoing
    exact Or.inr (Or.inr ⟨s.deadline, haway, by rw [hself]; exact hgoing⟩)
  · exact Or.inl rfl
  · rename_i hearly
    exact Or.inr (Or.inl ⟨hfails (by simp [hearly]) rfl, _, rfl⟩)
  · rename_i hearly
    exact Or.inr (Or.inl ⟨hfails (by simp [hearly]) rfl, _, rfl⟩)
  · exact Or.inr (Or.inr ⟨now + timeout, haway, going_flush .poll (hlook _) (by simp)⟩)

theorem Agreed.poll (h : Agreed source y) (side : Side) (now : Nat) (ready : Answer) :
    Agreed source (y.step (.poll side now ready)) := by
  cases side with
  | sender =>
      have hstep : y.step (.poll .sender now ready) = { y with sender := Dcc.poll y.sender now ready } := rfl
      rw [hstep]
      rcases poll_cases h.sends.2.1 now ready with heq | ⟨-, reason, heq⟩ | ⟨deadline, -, hgoing⟩
      · rw [heq]
        exact h
      · rw [heq]
        exact h.senderFinish (by simp)
      · have hcarried : Carried source
            { y with sender := { y.sender with state := .active, deadline := deadline } } :=
          { h.toCarried with heard := ⟨h.heard.short, h.heard.rest⟩ }
        exact { hcarried.senderGoing hgoing with
          sender := hgoing.standing
          receiver := h.receiver }
  | receiver =>
      have hstep : y.step (.poll .receiver now ready) =
          { y with receiver := Dcc.poll y.receiver now ready } := rfl
      rw [hstep]
      rcases poll_cases h.receives.2.1 now ready with heq | ⟨-, reason, heq⟩ | ⟨deadline, haway, hgoing⟩
      · rw [heq]
        exact h
      · rw [heq]
        exact h.receiverFinish (by simp)
      · have hcarried : Carried source
            { y with receiver := { y.receiver with state := .active, deadline := deadline } } :=
          { h.toCarried with }
        have hidle : unwritten { y.receiver with state := .active, deadline := deadline } = [] ∧
            uncounted { y.receiver with state := .active, deadline := deadline } = 0 := by
          simp [unwritten, uncounted, haway]
        exact { hcarried.receiverGoing hidle.1 hidle.2 hgoing with
          sender := h.sender
          receiver := hgoing.standing }

theorem Agreed.step (h : Agreed source y) (e : Event) : Agreed source (y.step e) := by
  cases e with
  | poll side now ready => exact h.poll side now ready
  | call side now answer =>
      cases side with
      | sender => exact (h.senderCall now answer).1
      | receiver => exact (h.receiverCall now answer).1
  | close side reason =>
      unfold Transfer.step
      simp only
      split
      · exact h
      · cases side with
        | sender => exact h.senderFinish (by simp)
        | receiver => exact h.receiverFinish (by simp)

theorem agreed_run (source : List UInt8) (deadline deadline' : Nat) (es : List Event) :
    Agreed source (es.foldl Transfer.step (Transfer.offered source deadline deadline')) := by
  have hall : ∀ (es : List Event) (y : Transfer), Agreed source y →
      Agreed source (es.foldl Transfer.step y) := by
    intro es
    induction es with
    | nil => exact fun _ h => h
    | cons e es ih => exact fun y h => ih (y.step e) (h.step e)
  exact hall es _ (agreed_offered source deadline deadline')

end Dcc

end RustyRig
