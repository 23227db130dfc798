/-
A session's output stays in the order in which it was submitted.

What the transport took, with what is queued behind it, is what was submitted, as long as
the session does not fail; afterwards it is the front of it, because nothing goes out any
more.  A message joins at the end either way: past an empty queue, or at the queue's tail.
-/
import Mathlib.Algebra.GroupWithZero.Nat
import RustyRig.Rrserver.LinkDeferred

namespace RustyRig

namespace LinkOutput

variable {encode : Dict → Option (List UInt8)} {s : LinkOutput} {wire : List UInt8}
  {submitted : List (List UInt8)}

/-! ### Accounting -/

/-- The counter says what is queued, which is within the limits. -/
structure Accounted (s : LinkOutput) : Prop where
  bytes : s.deferredBytes = (s.queued.map List.length).sum
  limit : s.deferredBytes ≤ maxDeferredQueue
  frames : s.queued.length ≤ maxDeferredFrames

theorem Accounted.congr {s' : LinkOutput} (h : Accounted s) (hqueued : s'.queued = s.queued)
    (hbytes : s'.deferredBytes = s.deferredBytes) : Accounted s' where
  bytes := by rw [hbytes, hqueued, h.bytes]
  limit := by rw [hbytes]; exact h.limit
  frames := by rw [hqueued]; exact h.frames

/-- What has become of the messages that were submitted. -/
structure InOrder (submitted : List (List UInt8)) (s : LinkOutput) : Prop extends Accounted s where
  front : s.taken ++ s.queued <+: submitted
  all : s.closing = false → s.taken ++ s.queued = submitted

theorem inOrder_fresh (transport : Bool) : InOrder [] (fresh transport) where
  bytes := rfl
  limit := Nat.zero_le _
  frames := Nat.zero_le _
  front := List.nil_prefix
  all := fun _ => rfl

/-- What is submitted to a session that has failed changes nothing. -/
theorem InOrder.more (h : InOrder submitted s) (hclosing : s.closing = true) (rest : List (List UInt8)) :
    InOrder (submitted ++ rest) s :=
  { h.toAccounted with
    front := h.front.trans (List.prefix_append _ _)
    all := fun hopen => absurd (hclosing.symm.trans hopen) (by simp) }

theorem closing_failCause (s : LinkOutput) (cause reason : String) :
    (failCause s cause reason).closing = true := by
  unfold failCause
  split
  · assumption
  · rfl

theorem InOrder.failCause (h : InOrder submitted s) (cause reason : String) :
    InOrder submitted (failCause s cause reason) := by
  have hclosing := closing_failCause s cause reason
  unfold LinkOutput.failCause at hclosing ⊢
  split
  · exact h
  · exact { h.toAccounted with
      front := h.front
      all := fun hopen => absurd hopen (by simp) }

/-! ### Submitting -/

/-- A message goes behind all others, to the transport or to the queue. -/
structure Joins (s : LinkOutput) (wire : List UInt8) (r : Bool × LinkOutput) : Prop where
  done : r.1 = true
  wasOpen : s.closing = false
  isOpen : r.2.closing = false
  order : r.2.taken ++ r.2.queued = s.taken ++ s.queued ++ [wire]
  accounted : Accounted r.2

/-- A message goes nowhere, and the session fails if it has not. -/
structure Refused (s : LinkOutput) (r : Bool × LinkOutput) : Prop where
  done : r.1 = false
  closing : r.2.closing = true
  order : r.2.taken ++ r.2.queued = s.taken ++ s.queued
  accounted : Accounted r.2

theorem Accounted.refused {x : LinkOutput} (h : Accounted x) (horder : x.taken ++ x.queued = s.taken ++ s.queued)
    (cause reason : String) : Refused s (false, failCause x cause reason) := by
  have hclosing := closing_failCause x cause reason
  refine ⟨rfl, hclosing, ?_, ?_⟩
  all_goals
    simp only
    unfold failCause
    split
  · exact horder
  · exact horder
  · exact h
  · exact h.congr rfl rfl

/-- A message is queued at the tail, or the session fails for want of room. -/
theorem deferMessage_cases (h : Accounted s) (hopen : s.closing = false) (wire : List UInt8) (op : String) (since now : Int) :
    Joins s wire (deferMessage s wire op since now) ∨ Refused s (deferMessage s wire op since now) := by
  unfold deferMessage
  simp only
  have hsame : ({ s with deferredMessages := some s.queued } : LinkOutput).queued = s.queued := rfl
  split
  · have hsame : Accounted { s with deferredMessages := some s.queued } := h.congr rfl rfl
    exact Or.inr (hsame.refused (s := s) rfl _ _)
  rename_i hroom
  simp only [hsame, Bool.or_eq_true, decide_eq_true_eq, not_or, Nat.not_lt, Nat.not_le] at hroom
  obtain ⟨hbytes, hframes⟩ := hroom
  have hlimit := h.limit
  have hsmall : s.deferredBytes + wire.length ≤ maxDeferredQueue := by omega
  have hfit : (s.deferredBytes + wire.length) % 2 ^ 64 = s.deferredBytes + wire.length := by
    unfold maxDeferredQueue at hsmall
    omega
  have hput : Accounted { s with
      deferredMessages := some (s.queued ++ [wire])
      deferredBytes := s.deferredBytes + wire.length } := by
    refine ⟨?_, hsmall, ?_⟩
    · show s.deferredBytes + wire.length = ((s.queued ++ [wire]).map List.length).sum
      rw [List.map_append, List.sum_append, ← h.bytes]
      rfl
    · show (s.queued ++ [wire]).length ≤ maxDeferredFrames
      rw [List.length_append]
      exact hframes
  have horder : s.taken ++ (s.queued ++ [wire]) = s.taken ++ s.queued ++ [wire] :=
    (List.append_assoc _ _ _).symm
  left
  by_cases hempty : s.queued.isEmpty = true
  all_goals
    simp only [hsame, hempty, if_true, if_false, Bool.false_eq_true]
    split
    · exact ⟨rfl, hopen, hopen, horder, hput.congr rfl hfit⟩
    · exact ⟨rfl, hopen, hopen, horder, hput.congr rfl hfit⟩

/-- Past an empty queue only. -/
theorem sendEncoded_cases (h : Accounted s) (op : String) (encoded : Option (List UInt8))
    (result : TransportResult) (transportQueued : Nat) (since now : Int) :
    (∃ wire, encoded = some wire ∧
        Joins s wire (sendEncoded s op encoded result transportQueued since now)) ∨
      Refused s (sendEncoded s op encoded result transportQueued since now) := by
  cases encoded with
  | none => exact Or.inr (h.refused rfl _ _)
  | some wire =>
      unfold sendEncoded
      simp only
      split
      · rename_i hclosing
        exact Or.inr ⟨rfl, hclosing, rfl, h⟩
      rename_i hopen
      have hopen : s.closing = false := by simpa using hopen
      have hdefer := (deferMessage_cases h hopen wire op since now).imp_left fun hjoins =>
        (⟨wire, rfl, hjoins⟩ : ∃ wire', some wire = some wire' ∧ Joins s wire' _)
      split
      · exact hdefer
      · rename_i hempty
        have hnil : s.queued = [] := by simpa using hempty
        cases result with
        | ok =>
            refine Or.inl ⟨wire, rfl, rfl, hopen, hopen, ?_, h.congr rfl rfl⟩
            show (s.taken ++ [wire]) ++ s.queued = s.taken ++ s.queued ++ [wire]
            rw [hnil, List.append_nil, List.append_nil]
        | backpressure => exact hdefer
        | failed status => exact Or.inr (h.refused rfl _ _)

/-! ### Draining -/

/-- The loop moves messages from the head of the queue to the transport. -/
theorem drainLoop_spec (answers : Nat → TransportResult) (left sent : Nat) (h : Accounted s) :
    let r := drainLoop answers left sent s
    r.2.taken ++ r.2.queued = s.taken ++ s.queued ∧ Accounted r.2 ∧ r.2.transport = s.transport ∧
      (r.1 = true → r.2.closing = s.closing) ∧ (r.1 = false → r.2.closing = true) := by
  induction left generalizing sent s with
  | zero => exact ⟨rfl, h, rfl, fun _ => rfl, fun hno => absurd hno (by simp [drainLoop])⟩
  | succ left ih =>
      unfold drainLoop
      split
      · exact ⟨rfl, h, rfl, fun _ => rfl, fun hno => absurd hno (by simp)⟩
      rename_i wire rest hqueued
      split
      · exact ⟨rfl, h, rfl, fun _ => rfl, fun hno => absurd hno (by simp)⟩
      · have hfailed := h.refused (s := s) rfl "transport-send-failure"
          "Deferred mesh send failed while draining output"
        refine ⟨hfailed.order, hfailed.accounted, ?_, fun hno => absurd hno (by simp), fun _ => hfailed.closing⟩
        simp only
        unfold failCause
        split
        · rfl
        · rfl
      · have hbytes := h.bytes
        have hlimit := h.limit
        have hframes := h.frames
        rw [hqueued] at hbytes hframes
        simp only [List.map_cons, List.sum_cons] at hbytes
        unfold maxDeferredQueue at hlimit
        have hless : (s.deferredBytes + 2 ^ 64 - wire.length) % 2 ^ 64 = (rest.map List.length).sum := by omega
        have hnext : Accounted { s with
            deferredMessages := some rest
            deferredBytes := (s.deferredBytes + 2 ^ 64 - wire.length) % 2 ^ 64
            taken := s.taken ++ [wire] } := by
          refine ⟨hless, ?_, Nat.le_of_succ_le hframes⟩
          show (s.deferredBytes + 2 ^ 64 - wire.length) % 2 ^ 64 ≤ maxDeferredQueue
          unfold maxDeferredQueue
          omega
        obtain ⟨horder, hacc, htransport, hopen, hclosed⟩ := ih (sent + 1) hnext
        refine ⟨?_, hacc, htransport, hopen, hclosed⟩
        rw [horder, hqueued]
        show (s.taken ++ [wire]) ++ rest = s.taken ++ wire :: rest
        rw [List.append_assoc]
        rfl

/-- Draining changes neither the order nor what there is. -/
theorem drainDeferred_spec (answers : Nat → TransportResult) (h : Accounted s) :
    let s' := drainDeferred s answers
    s'.taken ++ s'.queued = s.taken ++ s.queued ∧ Accounted s' ∧ s'.transport = s.transport ∧
      (s'.closing = false → s.closing = false) := by
  unfold drainDeferred
  split
  · exact ⟨rfl, h, rfl, id⟩
  rename_i hruns
  have hopen : s.closing = false := by
    simp only [Bool.or_eq_true, not_or] at hruns
    simpa using hruns.1.2
  obtain ⟨horder, hacc, htransport, -⟩ := drainLoop_spec answers 128 0 h
  split
  · rename_i s' heq
    rw [heq] at horder hacc htransport
    exact ⟨horder, hacc, htransport, fun _ => hopen⟩
  · rename_i s' heq
    rw [heq] at horder hacc htransport
    simp only
    split
    · exact ⟨horder, hacc.congr rfl rfl, htransport, fun _ => hopen⟩
    · exact ⟨horder, hacc, htransport, fun _ => hopen⟩

/-- A drain that the transport takes everything of sends the first 128 messages. -/
theorem drainLoop_ok (left sent : Nat) (s : LinkOutput) :
    let r := drainLoop (fun _ => .ok) left sent s
    r.1 = true ∧ r.2.queued = s.queued.drop left ∧ r.2.closing = s.closing := by
  induction left generalizing sent s with
  | zero => exact ⟨rfl, rfl, rfl⟩
  | succ left ih =>
      unfold drainLoop
      split
      · rename_i hnil
        refine ⟨rfl, ?_, rfl⟩
        rw [hnil]
        rfl
      · rename_i wire rest hqueued
        obtain ⟨hdone, hleft, hclosing⟩ := ih (sent + 1)
          { s with
            deferredMessages := some rest
            deferredBytes := (s.deferredBytes + 2 ^ 64 - wire.length) % 2 ^ 64
            taken := s.taken ++ [wire] }
        refine ⟨hdone, ?_, hclosing⟩
        rw [hqueued]
        exact hleft

theorem drainDeferred_ok (htransport : s.transport = true) (hopen : s.closing = false) :
    (drainDeferred s fun _ => .ok).queued = s.queued.drop 128 ∧
      (drainDeferred s fun _ => .ok).closing = false := by
  unfold drainDeferred
  split
  · rename_i hidle
    have hnone : s.deferredMessages = none := by simpa [htransport, hopen] using hidle
    have hnil : s.queued = [] := by
      unfold queued
      rw [hnone]
      rfl
    rw [hnil]
    exact ⟨rfl, hopen⟩
  · obtain ⟨hdone, hleft, hclosing⟩ := drainLoop_ok 128 0 s
    split
    · rename_i heq
      rw [heq] at hdone
      exact absurd hdone (by simp)
    · rename_i s' heq
      rw [heq] at hleft hclosing
      split
      · exact ⟨hleft, hclosing.trans hopen⟩
      · exact ⟨hleft, hclosing.trans hopen⟩

/-! ### Runs -/

/-- The messages that were submitted and could be encoded, in order. -/
def submissions (encode : Dict → Option (List UInt8)) (es : List Event) : List (List UInt8) :=
  es.filterMap fun e =>
    match e with
    | .send d _ _ _ _ => encode d
    | _ => none

/-- The order depends on what there is, and on whether the session is open. -/
theorem InOrder.congr {s' : LinkOutput} (h : InOrder submitted s)
    (horder : s'.taken ++ s'.queued = s.taken ++ s.queued) (hacc : Accounted s')
    (hopen : s'.closing = false → s.closing = false) : InOrder submitted s' :=
  { hacc with
    front := by rw [horder]; exact h.front
    all := fun h' => horder.trans (h.all (hopen h')) }

theorem inOrder_step (h : InOrder submitted s) (e : Event) :
    InOrder (submitted ++ submissions encode [e]) (step encode s e) := by
  cases e with
  | send d result transportQueued since now =>
      obtain ⟨wire, hwire, hjoins⟩ | hrefused :=
        sendEncoded_cases h.toAccounted (d.get "op" "unknown") (encode d) result transportQueued since now
      · have hsub : submissions encode [.send d result transportQueued since now] = [wire] := by
          simp [submissions, hwire]
        have horder := hjoins.order
        rw [h.all hjoins.wasOpen] at horder
        rw [hsub]
        exact { hjoins.accounted with
          front := ⟨[], (List.append_nil _).trans horder⟩
          all := fun _ => horder }
      · have hfailed : InOrder submitted (step encode s (.send d result transportQueued since now)) :=
          h.congr hrefused.order hrefused.accounted fun hopen =>
            absurd (hrefused.closing.symm.trans hopen) (by simp)
        exact hfailed.more hrefused.closing _
  | drain answers =>
      obtain ⟨horder, hacc, -, hopen⟩ := drainDeferred_spec answers h.toAccounted
      have hdrained : InOrder submitted (step encode s (.drain answers)) := h.congr horder hacc hopen
      rw [show submissions encode [Event.drain answers] = [] from rfl, List.append_nil]
      exact hdrained
  | fail cause reason =>
      rw [show submissions encode [Event.fail cause reason] = [] from rfl, List.append_nil]
      exact h.failCause cause reason

theorem inOrder_run (encode : Dict → Option (List UInt8)) (h : InOrder submitted s) (es : List Event) :
    InOrder (submitted ++ submissions encode es) (es.foldl (step encode) s) := by
  induction es generalizing submitted s with
  | nil =>
      rw [show submissions encode [] = [] from rfl, List.append_nil]
      exact h
  | cons e es ih =>
      have hsplit : submissions encode (e :: es) = submissions encode [e] ++ submissions encode es := by
        unfold submissions
        rw [← List.filterMap_append]
        rfl
      rw [hsplit, ← List.append_assoc, List.foldl_cons]
      exact ih (inOrder_step h e)

theorem transport_failCause (s : LinkOutput) (cause reason : String) :
    (failCause s cause reason).transport = s.transport := by
  unfold failCause
  split
  · rfl
  · rfl

theorem transport_deferMessage (s : LinkOutput) (wire : List UInt8) (op : String) (since now : Int) :
    (deferMessage s wire op since now).2.transport = s.transport := by
  unfold deferMessage
  simp only
  split
  · exact transport_failCause _ _ _
  · simp only
    split
    all_goals split <;> rfl

/-- A session keeps its transport. -/
theorem transport_step (h : Accounted s) (e : Event) : (step encode s e).transport = s.transport := by
  cases e with
  | send d result transportQueued since now =>
      show (sendEncoded s _ _ _ _ _ _).2.transport = _
      unfold sendEncoded
      split
      · exact transport_failCause _ _ _
      split
      · rfl
      split
      · exact transport_deferMessage _ _ _ _ _
      · cases result with
        | ok => rfl
        | backpressure => exact transport_deferMessage _ _ _ _ _
        | failed status => exact transport_failCause _ _ _
  | drain answers => exact (drainDeferred_spec answers h).2.2.1
  | fail cause reason => exact transport_failCause _ _ _

theorem transport_run (h : InOrder submitted s) (es : List Event) :
    (es.foldl (step encode) s).transport = s.transport := by
  induction es generalizing submitted s with
  | nil => rfl
  | cons e es ih => exact (ih (inOrder_step h e)).trans (transport_step h.toAccounted e)

/-- As many drains as it takes empty the queue, if the transport takes what it is given. -/
theorem drained (encode : Dict → Option (List UInt8)) (htransport : s.transport = true) (hopen : s.closing = false) (h : Accounted s) (k : Nat)
    (hk : s.queued.length ≤ 128 * k) :
    let s' := (List.replicate k (.drain fun _ => .ok)).foldl (step encode) s
    s'.queued = [] ∧ s'.closing = false := by
  induction k generalizing s with
  | zero =>
      have hnil : s.queued.length = 0 := Nat.le_zero.mp hk
      exact ⟨List.eq_nil_of_length_eq_zero hnil, hopen⟩
  | succ k ih =>
      obtain ⟨hleft, hopen'⟩ := drainDeferred_ok htransport hopen
      obtain ⟨-, hacc, htransport', -⟩ := drainDeferred_spec (fun _ => .ok) h
      rw [List.replicate_succ, List.foldl_cons]
      refine ih (htransport'.trans htransport) hopen' hacc ?_
      rw [show (step encode s (.drain fun _ => .ok)).queued = s.queued.drop 128 from hleft, List.length_drop]
      omega

/-- **Output in order.**  What is queued is counted exactly and within its limit; what the transport
took, and then what is queued, is what was submitted, or the front of it once the session has failed;
and drains get all of it out. -/
theorem deferred_run (encode : Dict → Option (List UInt8)) (transport : Bool) (es : List Event) :
    let s := es.foldl (step encode) (fresh transport)
    s.deferredBytes = (s.queued.map List.length).sum ∧ s.deferredBytes ≤ maxDeferredQueue ∧
      s.queued.length ≤ maxDeferredFrames ∧
      s.taken ++ s.queued <+: submissions encode es ∧
      (s.closing = false → s.taken ++ s.queued = submissions encode es) ∧
      (s.closing = false → transport = true → ∀ k, s.queued.length ≤ 128 * k →
        ((List.replicate k (.drain fun _ => .ok)).foldl (step encode) s).taken = submissions encode es) := by
  intro s
  have hrun : InOrder (submissions encode es) s := inOrder_run encode (inOrder_fresh transport) es
  refine ⟨hrun.bytes, hrun.limit, hrun.frames, hrun.front, hrun.all, fun hopen htransport k hk => ?_⟩
  have hwired : s.transport = true := (transport_run (inOrder_fresh transport) es).trans htransport
  obtain ⟨hempty, hopen'⟩ := drained encode hwired hopen hrun.toAccounted k hk
  have hdrained := inOrder_run encode hrun (List.replicate k (.drain fun _ => .ok))
  have hnothing : submissions encode (List.replicate k (.drain fun _ => .ok)) = [] :=
    List.filterMap_eq_nil_iff.mpr fun e he => by rw [List.eq_of_mem_replicate he]
  have hall := hdrained.all hopen'
  rwa [hempty, List.append_nil, hnothing, List.append_nil] at hall

end LinkOutput

end RustyRig
