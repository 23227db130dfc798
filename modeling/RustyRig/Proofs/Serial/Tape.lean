/-
What passed over a stream.

A tape records the bytes of one stream in both directions: the blocks that were accepted from
the client and what of them was written to the device, what was read from the device and the
blocks that went to the client.  The port holds what lies between the two ends of each.
-/
import RustyRig.Rrserver.Serial

namespace RustyRig

namespace Serial

variable {s : Setup} {sys : Sys} {io : PortIo} {client : Nat} {p q : Export}

structure Tape where
  client : Nat
  stream : Nat
  /-- The frames of the client that became pending, with their sequence numbers. -/
  accepted : List (UInt32 × List UInt8)
  written : List UInt8
  read : List UInt8
  /-- The blocks that went to the client, with their sequence numbers. -/
  offered : List (UInt32 × List UInt8)
  /-- How many of these it acknowledged. -/
  acked : Nat
  /-- The stream ended because the client had closed it. -/
  complete : Bool

namespace Tape

variable {t : Tape} {ts : List Tape}

/-- The bytes of some blocks. -/
abbrev bytes (blocks : List (UInt32 × List UInt8)) : List UInt8 := blocks.flatMap Prod.snd

/-- The numbers of `n` blocks in sequence. -/
def numbers (n : Nat) : List UInt32 := (List.range n).map fun k => UInt32.ofNat (k + 1)

def blank (client stream : Nat) : Tape := ⟨client, stream, [], [], [], [], 0, false⟩

/-! ### Recording -/

/-- The blocks among what was sent. -/
def blocks (sent : List Output) : List (UInt32 × List UInt8) :=
  sent.filterMap fun
    | .block _ _ seq data => some (seq, data)
    | .reply .. => none

/-- The first stage of a round. -/
def wrote (t : Tape) (first : Served) : Tape :=
  { t with written := t.written ++ first.written.flatMap (·.data)
           complete := decide (first.flow = .finished) }

/-- One round of a port that is served. -/
def round (s : Setup) (io : PortIo) (client : Nat) (p : Export) (t : Tape) : Tape :=
  let first := writePending io client p
  match first.flow with
  | .next =>
      let (port, flow) := readDevice s io first.port
      let t := { t.wrote first with read := t.read ++ port.buffer.drop first.port.buffer.length }
      match flow with
      | .failed => t
      | _ => { t with offered := t.offered ++ blocks (sendBlock s io client port).sent }
  | _ => t.wrote first

/-- Any other event that leaves the port as `q`.  Of all of these only a request can close a
port in order. -/
def observe (request : Bool) (before : Option Export) (q : Export) (ts : List Tape) : List Tape :=
  match q.owner with
  | none =>
      if request && before.any (·.owner.isSome) then
        ts.modifyHead fun t => { t with complete := true }
      else ts
  | some client =>
      match before.filter (·.owner.isSome) with
      | none => blank client q.stream :: ts
      | some p =>
          if q.txSeq ≠ p.txSeq then
            ts.modifyHead fun t => { t with accepted := t.accepted ++ [(q.txSeq, q.pending)] }
          else if p.rxPending && !q.rxPending then
            ts.modifyHead fun t => { t with acked := t.acked + 1 }
          else ts

/-! ### What holds of a tape -/

/-- **Exactly once and in order.**  What was written is a prefix of what was accepted, and what was
offered of what was read; one block at most waits for its acknowledgement; and a stream that the
client closed was written to its end. -/
structure Whole (t : Tape) : Prop where
  acceptedSeq : t.accepted.map Prod.fst = numbers t.accepted.length
  written : t.written <+: bytes t.accepted
  offeredSeq : t.offered.map Prod.fst = numbers t.offered.length
  offered : bytes t.offered <+: t.read
  unacked : t.acked ≤ t.offered.length ∧ t.offered.length ≤ t.acked + 1
  complete : t.complete = true → t.written = bytes t.accepted

/-- A port and the tape of the stream it is open on. -/
structure Fits (p : Export) (t : Tape) : Prop where
  service : p.service = 0
  owner : p.owner = some t.client
  stream : p.stream = t.stream
  acceptedSeq : t.accepted.map Prod.fst = numbers t.accepted.length
  txSeq : p.txSeq = UInt32.ofNat t.accepted.length
  /-- The rest of the pending block is what was not written yet. -/
  written : t.written ++ p.pending.drop p.pendingOffset = bytes t.accepted
  offeredSeq : t.offered.map Prod.fst = numbers t.offered.length
  rxSeq : p.rxSeq = UInt32.ofNat t.offered.length
  /-- The buffer is what was not offered yet. -/
  read : t.read = bytes t.offered ++ p.buffer
  unacked : t.offered.length = t.acked + p.rxPending.toNat
  running : t.complete = false

/-- A port that nobody has open. -/
structure Rested (p : Export) : Prop where
  owner : p.owner = none
  pending : p.pending = []
  rxPending : p.rxPending = false

theorem numbers_succ (n : Nat) : numbers (n + 1) = numbers n ++ [UInt32.ofNat (n + 1)] := by
  rw [numbers, List.range_succ, List.map_append]
  rfl

theorem Fits.whole (h : Fits p t) : Whole t where
  acceptedSeq := h.acceptedSeq
  written := ⟨_, h.written⟩
  offeredSeq := h.offeredSeq
  offered := ⟨_, h.read.symm⟩
  unacked := by
    have hunacked := h.unacked
    cases hp : p.rxPending <;> simp only [hp, Bool.toNat_false, Bool.toNat_true] at hunacked <;> omega
  complete habs := nomatch h.running.symm.trans habs

/-- When nothing is pending, everything was written. -/
theorem Fits.flushed (h : Fits p t) (hp : p.pending = []) : t.written = bytes t.accepted := by
  have hwritten := h.written
  rwa [hp, List.drop_nil, List.append_nil] at hwritten

theorem Fits.completed (h : Fits p t) (hp : p.pending = []) : Whole { t with complete := true } :=
  { h.whole with complete := fun _ => h.flushed hp }

theorem rested_closePort (p : Export) : Rested (closePort p) := ⟨rfl, rfl, rfl⟩

/-- The same port for its tape. -/
structure Same (p q : Export) : Prop where
  service : q.service = p.service
  owner : q.owner = p.owner
  stream : q.stream = p.stream
  pending : q.pending = p.pending
  pendingOffset : q.pendingOffset = p.pendingOffset
  txSeq : q.txSeq = p.txSeq
  rxSeq : q.rxSeq = p.rxSeq
  rxPending : q.rxPending = p.rxPending
  buffer : q.buffer = p.buffer

theorem Same.refl (p : Export) : Same p p := ⟨rfl, rfl, rfl, rfl, rfl, rfl, rfl, rfl, rfl⟩

theorem Same.fits (hs : Same p q) (h : Fits p t) : Fits q t where
  service := hs.service.trans h.service
  owner := hs.owner.trans h.owner
  stream := hs.stream.trans h.stream
  acceptedSeq := h.acceptedSeq
  txSeq := hs.txSeq.trans h.txSeq
  written := by rw [hs.pending, hs.pendingOffset, h.written]
  offeredSeq := h.offeredSeq
  rxSeq := hs.rxSeq.trans h.rxSeq
  read := by rw [hs.buffer, h.read]
  unacked := by rw [hs.rxPending, h.unacked]
  running := h.running

theorem Same.rested (hs : Same p q) (h : Rested p) : Rested q :=
  ⟨hs.owner.trans h.owner, hs.pending.trans h.pending, hs.rxPending.trans h.rxPending⟩

theorem same_modemFailed (p : Export) : Same p (modemFailed sys p) := by
  unfold modemFailed
  split
  · exact ⟨rfl, rfl, rfl, rfl, rfl, rfl, rfl, rfl, rfl⟩
  · exact .refl p

theorem same_modemEnsureRunning (p : Export) : Same p (modemEnsureRunning sys p) := by
  unfold modemEnsureRunning
  split
  · exact .refl p
  · split
    · exact ⟨rfl, rfl, rfl, rfl, rfl, rfl, rfl, rfl, rfl⟩
    · exact same_modemFailed p

/-! ### A round -/

/-- Writing moves bytes of the pending block to the tape, and ends a stream only once all of them
are there. -/
theorem fits_writePending (h : Fits p t) (io : PortIo) (client : Nat) :
    ((writePending io client p).flow ≠ .finished ∧
        Fits (writePending io client p).port (t.wrote (writePending io client p))) ∨
      ((writePending io client p).flow = .finished ∧ Rested (writePending io client p).port ∧
        Whole (t.wrote (writePending io client p))) := by
  have hnext : Flow.next ≠ .finished := by decide
  have hfailed : Flow.failed ≠ .finished := by decide
  have hidle : ∀ flow, flow ≠ Flow.finished → Fits p (t.wrote ⟨p, [], [], flow⟩) := by
    intro flow hflow
    have hsame : t.wrote ⟨p, [], [], flow⟩ = { t with complete := false } := by
      simp [wrote, hflow]
    rw [hsame]
    exact { h with running := rfl }
  unfold writePending
  by_cases hp : p.pending = []
  · rw [if_pos hp]
    exact .inl ⟨hnext, hidle .next hnext⟩
  rw [if_neg hp]
  cases io.write with
  | again => exact .inl ⟨hnext, hidle .next hnext⟩
  | failed => exact .inl ⟨hfailed, hidle .failed hfailed⟩
  | wrote n =>
      dsimp only
      generalize hbytes : (p.pending.drop p.pendingOffset).take n = bs
      by_cases hnone : bs = []
      · rw [if_pos hnone]
        exact .inl ⟨hnext, hidle .next hnext⟩
      rw [if_neg hnone]
      -- what is left of the block after these bytes
      have hrest : p.pending.drop p.pendingOffset =
          bs ++ p.pending.drop (p.pendingOffset + bs.length) := by
        have htake := List.take_append_drop bs.length (p.pending.drop p.pendingOffset)
        have hbs : (p.pending.drop p.pendingOffset).take bs.length = bs := by
          rw [← hbytes, List.length_take, List.take_eq_take_iff]
          omega
        rw [hbs, List.drop_drop] at htake
        exact htake.symm
      have hwritten : t.written ++ bs ++ p.pending.drop (p.pendingOffset + bs.length) =
          bytes t.accepted := by
        rw [List.append_assoc, ← hrest, h.written]
      by_cases hpart : p.pendingOffset + bs.length ≠ p.pending.length
      · rw [if_pos hpart]
        refine .inl ⟨hnext, ?_⟩
        exact { h with written := by simpa [wrote] using hwritten, running := rfl }
      · rw [if_neg hpart]
        rw [List.drop_eq_nil_of_le (by omega), List.append_nil] at hwritten
        split
        · refine .inr ⟨rfl, rested_closePort _, ?_⟩
          have hall : t.written ++ (bs ++ []) = bytes t.accepted := by
            rw [List.append_nil, hwritten]
          exact { h.whole with written := by simp [wrote, hwritten],
                               complete := fun _ => hall }
        · refine .inl ⟨hnext, ?_⟩
          exact { h with written := by simp [wrote, hwritten], running := rfl }

theorem fits_readDevice (h : Fits p t) (s : Setup) (io : PortIo) :
    Fits (readDevice s io p).1
      { t with read := t.read ++ (readDevice s io p).1.buffer.drop p.buffer.length } := by
  have hidle : Fits p { t with read := t.read ++ p.buffer.drop p.buffer.length } := by
    rw [List.drop_length, List.append_nil]
    exact h
  unfold readDevice
  split
  · split
    · refine { h with read := ?_ }
      dsimp only
      rw [h.read, List.drop_left, List.append_assoc]
    · exact hidle
    · exact hidle
  · exact hidle

/-- A block is offered and waits, or nothing changes; a block that cannot be framed ends the
stream. -/
theorem fits_sendBlock (h : Fits p t) (s : Setup) (io : PortIo) (client : Nat) :
    ((sendBlock s io client p).flow ≠ .failed ∧ Fits (sendBlock s io client p).port
        { t with offered := t.offered ++ blocks (sendBlock s io client p).sent }) ∨
      ((sendBlock s io client p).flow = .failed ∧
        blocks (sendBlock s io client p).sent = []) := by
  have hidle : Fits p { t with offered := t.offered ++ blocks [] } := by
    rw [show blocks [] = [] from rfl, List.append_nil]
    exact h
  have hnext : Flow.next ≠ .failed := by decide
  unfold sendBlock
  split
  · exact .inl ⟨hnext, hidle⟩
  rename_i hready
  split
  · exact .inr ⟨rfl, rfl⟩
  split
  · refine .inl ⟨hnext, ?_⟩
    have hlength : (t.offered ++ [(p.rxSeq + 1, p.buffer.take s.blockMax)]).length =
        t.offered.length + 1 := by simp
    have hnext : p.rxSeq + 1 = UInt32.ofNat (t.offered.length + 1) := by
      rw [h.rxSeq, UInt32.ofNat_add]
      rfl
    have hquiet : p.rxPending = false := by
      simp only [Bool.or_eq_true, not_or, Bool.not_eq_true] at hready
      exact hready.1.1
    refine { h with offeredSeq := ?_, rxSeq := ?_, read := ?_, unacked := ?_ }
    · show (t.offered ++ [(p.rxSeq + 1, p.buffer.take s.blockMax)]).map Prod.fst = _
      rw [show blocks [Output.block client p.stream (p.rxSeq + 1) (p.buffer.take s.blockMax)] =
        [(p.rxSeq + 1, p.buffer.take s.blockMax)] from rfl, hlength, numbers_succ, List.map_append,
        h.offeredSeq, hnext]
      rfl
    · show p.rxSeq + 1 = UInt32.ofNat (t.offered ++ [_]).length
      rw [hnext]
      simp
    · show t.read = bytes (t.offered ++ [(p.rxSeq + 1, p.buffer.take s.blockMax)]) ++
        p.buffer.drop s.blockMax
      simp [h.read]
    · show (t.offered ++ [_]).length = t.acked + true.toNat
      have hunacked := h.unacked
      rw [hquiet] at hunacked
      simpa using hunacked
  · exact .inl ⟨hnext, hidle⟩

/-- **One round** of a port that is served keeps its tape. -/
theorem round_spec (h : Fits p t) (s : Setup) (sys : Sys) (io : PortIo) (client : Nat) :
    Fits (serve s sys io client p).port (t.round s io client p) ∨
      (Rested (serve s sys io client p).port ∧ Whole (t.round s io client p)) := by
  have hfirst := fits_writePending h io client
  unfold serve round
  dsimp only
  generalize writePending io client p = first at hfirst
  cases hflow : first.flow with
  | finished =>
      rcases hfirst with ⟨hne, -⟩ | ⟨-, hrested, hwhole⟩
      · exact absurd hflow hne
      · exact .inr ⟨hrested, hwhole⟩
  | failed =>
      rcases hfirst with ⟨-, hfits⟩ | ⟨habs, -⟩
      · exact .inr ⟨rested_closePort _, hfits.whole⟩
      · exact nomatch hflow.symm.trans habs
  | next =>
      rcases hfirst with ⟨-, hfits⟩ | ⟨habs, -⟩
      · have hread := fits_readDevice hfits s io
        generalize readDevice s io first.port = out at hread
        obtain ⟨port, flow⟩ := out
        cases flow with
        | failed => exact .inr ⟨rested_closePort _, hread.whole⟩
        | finished | next =>
            dsimp only at hread ⊢
            rcases fits_sendBlock hread s io client with ⟨hne, hsent⟩ | ⟨hfail, hnone⟩
            · rw [if_neg hne]
              exact .inl hsent
            · rw [if_pos hfail, hnone, List.append_nil]
              exact .inr ⟨rested_closePort _, hread.whole⟩
      · exact nomatch hflow.symm.trans habs

/-! ### Other events -/

/-- What an event outside the poll does to a port. -/
inductive Touched (request : Bool) (p q : Export) : Prop
  | same (h : Same p q)
  /-- A request closes a port only when nothing is pending. -/
  | rested (h : Rested q) (flushed : request = true → p.owner ≠ none → p.pending = [])
  | granted (client : Nat) (service : q.service = 0) (free : p.owner = none) (owner : q.owner = some client)
      (pending : q.pending = []) (txSeq : q.txSeq = 0) (rxSeq : q.rxSeq = 0)
      (rxPending : q.rxPending = false) (buffer : q.buffer = [])
  | accepted (service : q.service = p.service) (ready : p.pending = [])
      (txSeq : q.txSeq = p.txSeq + 1) (offset : q.pendingOffset = 0)
      (owned : p.owner ≠ none) (owner : q.owner = p.owner) (stream : q.stream = p.stream)
      (rxSeq : q.rxSeq = p.rxSeq) (rxPending : q.rxPending = p.rxPending)
      (buffer : q.buffer = p.buffer)
  | acked (service : q.service = p.service) (waits : p.rxPending = true) (rxPending : q.rxPending = false) (owned : p.owner ≠ none)
      (owner : q.owner = p.owner) (stream : q.stream = p.stream) (pending : q.pending = p.pending)
      (offset : q.pendingOffset = p.pendingOffset) (txSeq : q.txSeq = p.txSeq)
      (rxSeq : q.rxSeq = p.rxSeq) (buffer : q.buffer = p.buffer)

/-- A port and its tapes: it is at rest, or the latest tape is that of its stream. -/
def Meets (p : Export) (ts : List Tape) : Prop := Rested p ∨ ∃ t rest, ts = t :: rest ∧ Fits p t

theorem fits_blank {client : Nat} (service : q.service = 0) (owner : q.owner = some client) (pending : q.pending = [])
    (txSeq : q.txSeq = 0) (rxSeq : q.rxSeq = 0) (rxPending : q.rxPending = false)
    (buffer : q.buffer = []) : Fits q (blank client q.stream) where
  service := service
  owner := owner
  stream := rfl
  acceptedSeq := rfl
  txSeq := txSeq
  written := by
    rw [pending, List.drop_nil]
    rfl
  offeredSeq := rfl
  rxSeq := rxSeq
  read := by
    rw [buffer]
    rfl
  unacked := by
    rw [rxPending]
    rfl
  running := rfl

theorem Fits.accept (h : Fits p t) (service : q.service = p.service) (ready : p.pending = []) (txSeq : q.txSeq = p.txSeq + 1)
    (offset : q.pendingOffset = 0) (owner : q.owner = p.owner) (stream : q.stream = p.stream)
    (rxSeq : q.rxSeq = p.rxSeq) (rxPending : q.rxPending = p.rxPending)
    (buffer : q.buffer = p.buffer) :
    Fits q { t with accepted := t.accepted ++ [(q.txSeq, q.pending)] } := by
  have hnext : q.txSeq = UInt32.ofNat (t.accepted.length + 1) := by
    rw [txSeq, h.txSeq, UInt32.ofNat_add]
    rfl
  have hlength : (t.accepted ++ [(q.txSeq, q.pending)]).length = t.accepted.length + 1 := by simp
  refine { h with service := service.trans h.service, owner := owner.trans h.owner,
                  stream := stream.trans h.stream, acceptedSeq := ?_, txSeq := ?_,
                  written := ?_, rxSeq := rxSeq.trans h.rxSeq, read := ?_, unacked := ?_ }
  · rw [hlength, numbers_succ, List.map_append, h.acceptedSeq, ← hnext]
    rfl
  · rw [hlength, hnext]
  · rw [offset, List.drop_zero, h.flushed ready]
    simp
  · rw [buffer, h.read]
  · rw [rxPending, h.unacked]

/-- **One event outside the poll** keeps the tapes of a port. -/
theorem observe_spec {request : Bool} {before : Option Export} (hp : Meets p ts)
    (hts : ∀ t ∈ ts, Whole t) (hbefore : before = some p ∨ (before = none ∧ p.owner = none))
    (h : Touched request p q) :
    Meets q (observe request before q ts) ∧ ∀ t ∈ observe request before q ts, Whole t := by
  have howned : p.owner ≠ none → before.filter (·.owner.isSome) = some p ∧
      before.any (·.owner.isSome) = true := by
    intro howner
    rcases hbefore with rfl | ⟨-, hnone⟩
    · have hsome := Option.isSome_iff_ne_none.mpr howner
      exact ⟨by simp [Option.filter, hsome], hsome⟩
    · exact absurd hnone howner
  have hfree : p.owner = none → before.filter (·.owner.isSome) = none ∧
      before.any (·.owner.isSome) = false := by
    intro howner
    rcases hbefore with rfl | ⟨rfl, -⟩
    · exact ⟨by simp [Option.filter, howner], by simp [howner]⟩
    · exact ⟨rfl, rfl⟩
  have hfits : p.owner ≠ none → ∃ t rest, ts = t :: rest ∧ Fits p t := fun howner =>
    hp.resolve_left fun hrested => howner hrested.owner
  cases h with
  | same h =>
      rcases hp with hrested | ⟨t, rest, rfl, ht⟩
      · have hq := h.rested hrested
        have hobserve : observe request before q ts = ts := by
          simp [observe, hq.owner, (hfree hrested.owner).2]
        rw [hobserve]
        exact ⟨.inl hq, hts⟩
      · have hq := h.fits ht
        have hne : p.owner ≠ none := by simp [ht.owner]
        have hobserve : observe request before q (t :: rest) = t :: rest := by
          simp [observe, hq.owner, (howned hne).1, h.txSeq, h.rxPending]
        rw [hobserve]
        exact ⟨.inr ⟨t, rest, rfl, hq⟩, hts⟩
  | rested h flushed =>
      refine ⟨.inl h, ?_⟩
      unfold observe
      simp only [h.owner]
      split
      · rename_i hclosed
        simp only [Bool.and_eq_true] at hclosed
        have hne : p.owner ≠ none := fun hnone =>
          nomatch hclosed.2.symm.trans (hfree hnone).2
        obtain ⟨t, rest, rfl, ht⟩ := hfits hne
        intro u hu
        rcases List.mem_cons.mp hu with rfl | hu
        · exact ht.completed (flushed hclosed.1 hne)
        · exact hts u (List.mem_cons_of_mem t hu)
      · exact hts
  | granted client service free owner pending txSeq rxSeq rxPending buffer =>
      have hblank := fits_blank service owner pending txSeq rxSeq rxPending buffer
      have hobserve : observe request before q ts = blank client q.stream :: ts := by
        simp [observe, owner, (hfree free).1]
      rw [hobserve]
      refine ⟨.inr ⟨_, ts, rfl, hblank⟩, fun u hu => ?_⟩
      rcases List.mem_cons.mp hu with rfl | hu
      · exact hblank.whole
      · exact hts u hu
  | accepted service ready txSeq offset owned owner stream rxSeq rxPending buffer =>
      obtain ⟨t, rest, rfl, ht⟩ := hfits owned
      have hq := ht.accept service ready txSeq offset owner stream rxSeq rxPending buffer
      have hne : q.txSeq ≠ p.txSeq := by
        rw [txSeq]
        simp
      have hobserve : observe request before q (t :: rest) =
          { t with accepted := t.accepted ++ [(q.txSeq, q.pending)] } :: rest := by
        simp [observe, owner, ht.owner, (howned owned).1, hne]
      rw [hobserve]
      refine ⟨.inr ⟨_, rest, rfl, hq⟩, fun u hu => ?_⟩
      rcases List.mem_cons.mp hu with rfl | hu
      · exact hq.whole
      · exact hts u (List.mem_cons_of_mem t hu)
  | acked service waits rxPending owned owner stream pending offset txSeq rxSeq buffer =>
      obtain ⟨t, rest, rfl, ht⟩ := hfits owned
      have hq : Fits q { t with acked := t.acked + 1 } := by
        refine { ht with service := service.trans ht.service, owner := owner.trans ht.owner,
                         stream := stream.trans ht.stream,
                         txSeq := txSeq.trans ht.txSeq, written := ?_,
                         rxSeq := rxSeq.trans ht.rxSeq, read := ?_, unacked := ?_ }
        · rw [pending, offset]
          exact ht.written
        · rw [buffer]
          exact ht.read
        · rw [rxPending]
          have hunacked := ht.unacked
          rw [waits] at hunacked
          exact hunacked
      have hobserve : observe request before q (t :: rest) =
          { t with acked := t.acked + 1 } :: rest := by
        simp [observe, owner, ht.owner, (howned owned).1, txSeq, waits, rxPending]
      rw [hobserve]
      refine ⟨.inr ⟨_, rest, rfl, hq⟩, fun u hu => ?_⟩
      rcases List.mem_cons.mp hu with rfl | hu
      · exact hq.whole
      · exact hts u (List.mem_cons_of_mem t hu)

end Tape

end Serial

end RustyRig
