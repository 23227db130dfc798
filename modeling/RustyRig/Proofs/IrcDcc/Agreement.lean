/-
The two sides of a transfer agree.

The bytes of the source are, in order, in the file, received but not yet written, on the wire,
and in the sender's block; the receiver's counts are read, on the wire, and in the receiver's
block.  `Agreed` holds whatever happens, also where calls fail and sessions are closed; a call
moves bytes from one of these places to the next and changes nothing else.
-/
import RustyRig.Lib.Along
import RustyRig.Proofs.IrcDcc.Session

namespace RustyRig

namespace Dcc

variable {y : Transfer} {s s' : Session} {now : Nat} {answer : Answer}

/-- Where the bytes and the counts of a transfer are. -/
structure Carried (source : List UInt8) (y : Transfer) : Prop where
  unchanged : y.source = source
  sends : y.sender.outgoing = true ∧ y.sender.sizeKnown = true ∧ y.sender.size = source.length
  receives : y.receiver.outgoing = false ∧ y.receiver.sizeKnown = true ∧
    y.receiver.size = source.length
  block : pending y.sender <+: source.drop y.sender.transferred
  within : y.sender.transferred ≤ source.length
  window : y.sender.transferred + (pending y.sender).length ≤ y.sender.acknowledged + blockSize
  passed : y.file ++ unwritten y.receiver ++ y.forward = source.take y.sender.transferred
  counted : y.file.length = y.receiver.transferred + uncounted y.receiver
  heard : Heard y.sender (y.backward ++ pending y.receiver) y.receiver.counts y.receiver.transferred

/-- A session stands at its place, or it is complete where nothing is left to do. -/
structure Standing (s : Session) : Prop where
  placed : s.ended = none → Placed s
  done : ∀ reason, s.ended = some (.complete, reason) → Done s

/-- What holds of a transfer at any time. -/
structure Agreed (source : List UInt8) (y : Transfer) : Prop extends Carried source y where
  sender : Standing y.sender
  receiver : Standing y.receiver

variable {source : List UInt8}

/-- The receiver's count is not ahead of the sender's. -/
theorem Carried.behind (h : Carried source y) : y.receiver.transferred ≤ y.sender.transferred := by
  have hlen := congrArg List.length h.passed
  simp only [List.length_append, List.length_take] at hlen
  have hcounted := h.counted
  omega

/-- Once all is counted nothing is left on the way. -/
theorem Carried.whole (h : Carried source y) (hall : y.receiver.transferred = source.length) :
    y.file = source ∧ unwritten y.receiver = [] ∧ y.forward = [] ∧
      y.sender.transferred = source.length ∧ pending y.sender = [] := by
  have hbehind := h.behind
  have hwithin := h.within
  have htransferred : y.sender.transferred = source.length := by omega
  have hpassed := h.passed
  rw [htransferred, List.take_length] at hpassed
  have hlen := congrArg List.length hpassed
  have hcounted := h.counted
  simp only [List.length_append] at hlen
  have hunwritten : unwritten y.receiver = [] := List.length_eq_zero_iff.mp (by omega)
  have hforward : y.forward = [] := List.length_eq_zero_iff.mp (by omega)
  have hblock := h.block
  rw [htransferred, List.drop_length, List.prefix_nil] at hblock
  rw [hunwritten, hforward, List.append_nil, List.append_nil] at hpassed
  exact ⟨hpassed, hunwritten, hforward, htransferred, hblock⟩

/-- A session that has not begun. -/
theorem standing_offered (hrun : s.ended = none) (hplace : s.place = .away) (htx : s.tx = [])
    (hearly : s.state ≠ .active) : Standing s where
  placed := fun _ =>
    { clean := fun _ => htx
      undone := fun _ hactive => absurd hactive hearly
      early := fun _ => hplace
      sending := by simp [hplace]
      reading := by simp [hplace]
      receiving := by simp [hplace]
      writing := by simp [hplace] }
  done := fun _ h => absurd (hrun.symm.trans h) (by simp)

theorem agreed_offered (source : List UInt8) (deadline deadline' : Nat) :
    Agreed source (Transfer.offered source deadline deadline') where
  unchanged := rfl
  sends := ⟨rfl, rfl, rfl⟩
  receives := ⟨rfl, rfl, rfl⟩
  block := List.nil_prefix
  within := Nat.zero_le _
  window := Nat.zero_le _
  passed := rfl
  counted := rfl
  heard := ⟨Nat.zero_lt_succ 3, [], rfl, rfl, rfl⟩
  sender := standing_offered rfl rfl rfl (by simp [Transfer.offered])
  receiver := standing_offered rfl rfl rfl (by simp [Transfer.offered])

/-- `pwrite` at the end of a file. -/
theorem pwrite_end {disk data : List UInt8} {position : Nat} (h : disk.length = position) :
    pwrite disk position data = disk ++ data := by
  unfold pwrite
  rw [← h, List.take_length, Nat.sub_self, List.replicate_zero, List.append_nil,
    List.drop_eq_nil_of_le (by omega), List.append_nil]

/-- A session that looks for its next call, from one that had found one. -/
theorem Looking.of_placed (h : Placed s) (hknown : s.sizeKnown = true) (hrun : s.ended = none)
    (hplace : s.place ≠ .away) (hwrite : ∀ data offset budget, s.place ≠ .write data offset budget) :
    Looking s where
  known := hknown
  running := hrun
  active := by
    by_contra hearly
    exact hplace (h.early hearly)
  unwritten := by
    unfold Dcc.unwritten
    split
    · rename_i hplace'
      exact absurd hplace' (hwrite _ _ _)
    · rfl
  uncounted := by
    unfold Dcc.uncounted
    split
    · rename_i hplace'
      exact absurd hplace' (hwrite _ _ _)
    · rfl

/-- A session that looks for its next call stands where it finds one. -/
theorem Going.standing {s s' : Session} (h : Going s s') : Standing s' where
  placed := fun hrun => by
    rcases h.ended with ⟨-, hplaced⟩ | ⟨hend, -⟩
    · exact hplaced
    · exact absurd (hrun.symm.trans hend) (by simp)
  done := fun _ hend => by
    rcases h.ended with ⟨hrun, -⟩ | ⟨-, hdone⟩
    · exact absurd (hrun.symm.trans hend) (by simp)
    · exact hdone

theorem standing_finish {status : Status} {reason : String} (hstatus : status ≠ .complete) :
    Standing (finish s status reason) where
  placed := fun hrun => absurd hrun (by simp [finish])
  done := fun _ hend =>
    absurd (congrArg (Option.map Prod.fst) hend) (by simpa [finish] using hstatus)

/-- No error is reported. -/
def Quiet (s : Session) : Prop := s.ended = none ∨ s.ended = some (.complete, "")

theorem Going.quiet {s s' : Session} (h : Going s s') : Quiet s' :=
  h.ended.imp (fun hrun => hrun.1) fun hend => hend.1

/-! ### The sender -/

/-- The sender looks for its next call, and nothing that the other side has to do with changes. -/
theorem Carried.senderGoing (h : Carried source y) {s : Session} (hgoing : Going y.sender s) :
    Carried source { y with sender := s } where
  unchanged := h.unchanged
  sends := by
    show s.outgoing = true ∧ s.sizeKnown = true ∧ s.size = source.length
    rw [hgoing.outgoing, hgoing.sizeKnown, hgoing.size]
    exact h.sends
  receives := h.receives
  block := by
    show pending s <+: source.drop s.transferred
    rw [hgoing.pending, hgoing.transferred]
    exact h.block
  within := by
    show s.transferred ≤ source.length
    rw [hgoing.transferred]
    exact h.within
  window := by
    show s.transferred + (pending s).length ≤ s.acknowledged + blockSize
    rw [hgoing.transferred, hgoing.pending, hgoing.acknowledged]
    exact h.window
  passed := by
    show y.file ++ unwritten y.receiver ++ y.forward = source.take s.transferred
    rw [hgoing.transferred]
    exact h.passed
  counted := h.counted
  heard := by
    obtain ⟨hshort, rest, hcounts, hup, hstream⟩ := h.heard
    refine ⟨?_, rest, ?_, ?_, ?_⟩
    · show s.ack.length < 4
      rw [hgoing.ack]
      exact hshort
    · show y.receiver.counts = s.counts ++ rest
      rw [hgoing.counts]
      exact hcounts
    · show Lib.Ascends s.acknowledged rest _
      rw [hgoing.acknowledged]
      exact hup
    · show s.ack ++ _ = _
      rw [hgoing.ack]
      exact hstream

/-- A part of the sender's block is on the wire. -/
theorem Carried.senderSends (h : Carried source y) {data rest : List UInt8}
    (hsplit : pending y.sender = data ++ rest) (now : Nat) :
    Carried source { y with
      forward := y.forward ++ data
      sender := { y.sender with
        txOffset := y.sender.txOffset + data.length
        transferred := y.sender.transferred + data.length
        deadline := now + timeout } } := by
  have hrest : pending { y.sender with
      txOffset := y.sender.txOffset + data.length
      transferred := y.sender.transferred + data.length
      deadline := now + timeout } = rest := by
    show y.sender.tx.drop (y.sender.txOffset + data.length) = rest
    rw [← List.drop_drop]
    show (pending y.sender).drop data.length = rest
    rw [hsplit, List.drop_left]
  obtain ⟨tail, htail⟩ := h.block
  rw [hsplit, List.append_assoc] at htail
  refine { h with
    block := ?_
    within := ?_
    window := ?_
    passed := ?_
    heard := ⟨h.heard.short, h.heard.rest⟩ }
  · rw [hrest, ← List.drop_drop, ← htail, List.drop_left]
    exact ⟨tail, rfl⟩
  · have hlen := congrArg List.length htail
    have hwithin := h.within
    simp only [List.length_append, List.length_drop] at hlen
    show y.sender.transferred + data.length ≤ source.length
    omega
  · have hwindow := h.window
    rw [hsplit, List.length_append] at hwindow
    rw [hrest]
    show y.sender.transferred + data.length + rest.length ≤ y.sender.acknowledged + blockSize
    omega
  · show y.file ++ unwritten y.receiver ++ (y.forward ++ data) = _
    rw [List.take_add, ← htail, List.take_left, ← List.append_assoc, h.passed]

/-- The sender has read its next block. -/
theorem Carried.senderReads (h : Carried source y) (data : List UInt8)
    (hacked : y.sender.acknowledged = y.sender.transferred)
    (hdata : data <+: source.drop y.sender.transferred) (hsize : data.length ≤ blockSize) :
    Carried source { y with sender := { y.sender with tx := data, txOffset := 0 } } :=
  { h with
    block := hdata
    window := by
      show y.sender.transferred + data.length ≤ y.sender.acknowledged + blockSize
      omega
    heard := ⟨h.heard.short, h.heard.rest⟩ }

/-- The sender has read a part of the acknowledgements. -/
theorem Agreed.senderHears (h : Agreed source y) {data tail : List UInt8}
    (hsplit : y.backward = data ++ tail) (now budget : Nat) (hrun : y.sender.ended = none)
    (hplace : y.sender.place = .receive budget) :
    Agreed source { y with
      backward := tail
      sender := received { y.sender with deadline := now + timeout } data budget } ∧
      Quiet (received { y.sender with deadline := now + timeout } data budget) := by
  obtain ⟨hout, hknown, hsize⟩ := h.sends
  have hplaced := h.sender.placed hrun
  have hlook := Looking.of_placed hplaced hknown hrun (by simp [hplace]) (by simp [hplace])
  have hheard : Heard { y.sender with deadline := now + timeout }
      (data ++ (tail ++ pending y.receiver)) y.receiver.counts y.receiver.transferred := by
    have hstream := h.heard
    rw [hsplit, List.append_assoc] at hstream
    exact ⟨hstream.short, hstream.rest⟩
  have hwindow : y.sender.transferred ≤ y.sender.acknowledged + blockSize := by
    have hw := h.window
    omega
  have htx : pending y.sender = [] ↔ y.sender.tx = [] := ⟨hplaced.clean, pending_eq_nil⟩
  obtain ⟨ack, acknowledged, counts, ended, heq, hheard', hup, hend⟩ :=
    readAcks_spec hheard h.behind hwindow (hsize ▸ h.within) htx hout hrun
      (hplaced.undone hout hlook.active)
  have hcarried : Carried source { y with
      backward := tail
      sender := readAcks { y.sender with deadline := now + timeout } data } := by
    rw [heq] at hheard' ⊢
    exact { h.toCarried with
      window := by
        have hw := h.window
        show y.sender.transferred + (pending y.sender).length ≤ acknowledged + blockSize
        exact Nat.le_trans hw (Nat.add_le_add_right hup blockSize)
      heard := hheard' }
  unfold received
  rw [if_pos hout]
  have hended : (readAcks { y.sender with deadline := now + timeout } data).ended = ended := by
    rw [heq]
  rcases hend with ⟨rfl, hundone⟩ | ⟨rfl, hdone⟩
  · have hgoing : Going (readAcks { y.sender with deadline := now + timeout } data)
        (receive (readAcks { y.sender with deadline := now + timeout } data) (budget + 1)) := by
      refine going_receive ?_ ?_ fun _ => hundone
      · rw [heq]
        exact ⟨hknown, rfl, hlook.active, hlook.unwritten, hlook.uncounted⟩
      · rw [heq]
        exact htx.mp
    simp only [hended, Option.isSome_none, Bool.false_eq_true, if_false]
    exact ⟨{ hcarried.senderGoing hgoing with
      sender := hgoing.standing
      receiver := h.receiver }, hgoing.quiet⟩
  · simp only [hended, Option.isSome_some, if_true]
    exact ⟨{ hcarried with
      sender := ⟨fun hrun' => absurd (hended.symm.trans hrun') (by simp), fun _ _ => hdone⟩
      receiver := h.receiver }, Or.inr hended⟩

/-! ### The receiver -/

/-- The receiver looks for its next call, with nothing left to write. -/
theorem Carried.receiverGoing (h : Carried source y) (hunwritten : unwritten y.receiver = [])
    (huncounted : uncounted y.receiver = 0) {s : Session} (hgoing : Going y.receiver s) :
    Carried source { y with receiver := s } where
  unchanged := h.unchanged
  sends := h.sends
  receives := by
    show s.outgoing = false ∧ s.sizeKnown = true ∧ s.size = source.length
    rw [hgoing.outgoing, hgoing.sizeKnown, hgoing.size]
    exact h.receives
  block := h.block
  within := h.within
  window := h.window
  passed := by
    show y.file ++ unwritten s ++ y.forward = _
    rw [hgoing.unwritten, ← hunwritten]
    exact h.passed
  counted := by
    show y.file.length = s.transferred + uncounted s
    rw [hgoing.transferred, hgoing.uncounted, ← huncounted]
    exact h.counted
  heard := by
    show Heard y.sender (y.backward ++ pending s) s.counts s.transferred
    rw [hgoing.pending, hgoing.counts, hgoing.transferred]
    exact h.heard

/-- A part of an acknowledgement is on the wire. -/
theorem Carried.receiverSends (h : Carried source y) {data rest : List UInt8}
    (hsplit : pending y.receiver = data ++ rest) (now : Nat) :
    Carried source { y with
      backward := y.backward ++ data
      receiver := { y.receiver with
        txOffset := y.receiver.txOffset + data.length
        deadline := now + timeout } } := by
  have hrest : pending { y.receiver with
      txOffset := y.receiver.txOffset + data.length
      deadline := now + timeout } = rest := by
    show y.receiver.tx.drop (y.receiver.txOffset + data.length) = rest
    rw [← List.drop_drop]
    show (pending y.receiver).drop data.length = rest
    rw [hsplit, List.drop_left]
  have hheard := h.heard
  rw [hsplit, ← List.append_assoc] at hheard
  refine { h with
    heard := ?_ }
  show Heard y.sender (y.backward ++ data ++ pending _) y.receiver.counts y.receiver.transferred
  rw [hrest]
  exact hheard

/-- The receiver has taken bytes from the wire. -/
theorem Carried.receiverTakes (h : Carried source y) (hunwritten : unwritten y.receiver = [])
    (huncounted : uncounted y.receiver = 0) {data tail : List UInt8}
    (hsplit : y.forward = data ++ tail) (now budget : Nat) :
    Carried source { y with
      forward := tail
      receiver := { y.receiver with deadline := now + timeout, place := .write data 0 budget } } :=
  { h with
    passed := by
      have hpassed := h.passed
      rw [hunwritten, hsplit, List.append_nil, ← List.append_assoc] at hpassed
      exact hpassed
    counted := by
      have hcounted := h.counted
      rw [huncounted] at hcounted
      exact hcounted }

/-- A part of the bytes it has taken is in the file. -/
theorem Carried.receiverWrites (h : Carried source y) {data part rest : List UInt8}
    {offset budget : Nat} (hplace : y.receiver.place = .write data offset budget)
    (hsplit : data.drop offset = part ++ rest) :
    Carried source { y with
      file := y.file ++ part
      receiver := { y.receiver with place := .write data (offset + part.length) budget } } := by
  have hunwritten : unwritten y.receiver = part ++ rest := by
    simp [unwritten, hplace, hsplit]
  have hrest : data.drop (offset + part.length) = rest := by
    rw [← List.drop_drop, hsplit, List.drop_left]
  refine { h with
    passed := ?_
    counted := ?_ }
  · have hpassed := h.passed
    rw [hunwritten, ← List.append_assoc] at hpassed
    show y.file ++ part ++ data.drop (offset + part.length) ++ y.forward = _
    rw [hrest]
    exact hpassed
  · have hcounted := h.counted
    simp only [uncounted, hplace] at hcounted
    show (y.file ++ part).length = y.receiver.transferred + (offset + part.length)
    rw [List.length_append]
    omega

/-- All of what it has taken is in the file, and it acknowledges that. -/
theorem Carried.receiverCounts (h : Carried source y) {data : List UInt8} (offset budget : Nat)
    (hplace : y.receiver.place = .write data offset budget) (hoffset : offset = data.length)
    (hdata : data ≠ []) (hempty : pending y.receiver = []) :
    Carried source { y with
      receiver := { y.receiver with
        transferred := y.receiver.transferred + data.length
        tx := be32 ((y.receiver.transferred + data.length) % 2 ^ 32)
        txOffset := 0
        place := .away
        counts := y.receiver.counts ++ [y.receiver.transferred + data.length] } } := by
  have hunwritten : unwritten y.receiver = [] := by
    simp [unwritten, hplace, hoffset]
  refine { h with
    passed := ?_
    counted := ?_
    heard := ?_ }
  · have hpassed := h.passed
    rw [hunwritten] at hpassed
    exact hpassed
  · have hcounted := h.counted
    simp only [uncounted, hplace] at hcounted
    show y.file.length = y.receiver.transferred + data.length + 0
    omega
  · obtain ⟨hshort, rest, hcounts, hup, hstream⟩ := h.heard
    rw [hempty, List.append_nil] at hstream
    have hless : y.receiver.transferred < y.receiver.transferred + data.length :=
      Nat.lt_add_of_pos_right (List.length_pos_of_ne_nil hdata)
    refine ⟨hshort, rest ++ [y.receiver.transferred + data.length], ?_, hup.append hless, ?_⟩
    · show y.receiver.counts ++ [_] = _
      rw [hcounts, List.append_assoc]
    · show y.sender.ack ++ (y.backward ++ enc (y.receiver.transferred + data.length)) = _
      rw [← List.append_assoc, hstream, List.flatMap_append, List.flatMap_singleton]

end Dcc

end RustyRig
