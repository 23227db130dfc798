/-
Chat lines on their way.

What one side has accepted and the other not yet reported is on the stream: in the reader's
line, behind the line it is reporting, on the wire, or in the sender's block.  `Flow` says so.
A text of `blockSize - 3` bytes is the longest whose CR fits the reader's line; with one byte
more, which the sender takes, the line is full when its LF comes.
-/
import RustyRig.Lib.Lines
import RustyRig.Rrclient.IrcDccChat

namespace RustyRig

namespace Dcc.Chat

variable {s s' r : Session} {p : Party} {wire data tail : List UInt8} {budget : Nat}
  {rest : List (List UInt8)}

/-- What the LF of a text stands behind. -/
def body (text : List UInt8) : List UInt8 := text ++ [13]

/-- A text that the reader can take. -/
structure Readable (text : List UInt8) : Prop where
  noNul : 0 ∉ text
  noLf : 10 ∉ text
  fits : text.length ≤ blockSize - 3

/-- What is left of the line that is being sent. -/
def pending (s : Session) : List UInt8 := s.tx.drop s.txOffset

/-- What the reader has of the line it is in. -/
def held (s : Session) : List UInt8 :=
  match s.place with
  | .event _ _ => []
  | _ => s.line

/-- What has been received behind the line that is being reported. -/
def unread (s : Session) : List UInt8 :=
  match s.place with
  | .event rest _ => rest
  | _ => []

/-- The texts of the sender `s` that its reader `r` has not reported are on the stream. -/
structure Flow (s r : Session) (wire : List UInt8) : Prop where
  readable : ∀ text ∈ s.accepted, Readable text
  way : ∃ rest, s.accepted = r.emitted ++ rest ∧
    Lib.Partway body 10 (held r) (unread r ++ wire ++ pending s) rest
  kept : r.ended ≠ some overlong

theorem Readable.body_clean {text : List UInt8} (h : Readable text) : 10 ∉ body text := by
  simp [body, h.noLf]

theorem chomp_body (text : List UInt8) : chomp (body text) = text := by
  unfold chomp body
  simp

/-! ### What a session keeps -/

/-- The half of a session that sends. -/
structure SendsOn (s s' : Session) : Prop where
  pending : pending s' = pending s
  accepted : s'.accepted = s.accepted

/-- The half of a session that reads. -/
structure ReadsOn (s s' : Session) : Prop where
  held : held s' = held s
  unread : unread s' = unread s
  emitted : s'.emitted = s.emitted
  kept : s.ended ≠ some overlong → s'.ended ≠ some overlong

theorem SendsOn.refl (s : Session) : SendsOn s s := ⟨rfl, rfl⟩

theorem ReadsOn.refl (s : Session) : ReadsOn s s := ⟨rfl, rfl, rfl, id⟩

theorem Flow.sender (h : Flow s r wire) (hs : SendsOn s s') : Flow s' r wire where
  readable := by
    rw [hs.accepted]
    exact h.readable
  way := by
    rw [hs.accepted, hs.pending]
    exact h.way
  kept := h.kept

theorem Flow.reader {r' : Session} (h : Flow s r wire) (hr : ReadsOn r r') : Flow s r' wire where
  readable := h.readable
  way := by
    rw [hr.emitted, hr.held, hr.unread]
    exact h.way
  kept := hr.kept h.kept

/-- A session that ends for any other reason keeps what it had. -/
theorem finish_on (s : Session) {status : Status} {reason : String} (h : (status, reason) ≠ overlong) :
    SendsOn s (finish s status reason) ∧ ReadsOn s (finish s status reason) :=
  ⟨⟨rfl, rfl⟩, rfl, rfl, rfl, fun _ hover => h (Option.some.inj hover)⟩

/-- A session that has reported its lines. -/
def Idle (s : Session) : Prop := ∀ rest budget, s.place ≠ .event rest budget

theorem Idle.held (h : Idle s) : held s = s.line := by
  unfold Chat.held
  split
  · rename_i rest budget hplace
    exact absurd hplace (h rest budget)
  · rfl

theorem Idle.unread (h : Idle s) : unread s = [] := by
  unfold Chat.unread
  split
  · rename_i rest budget hplace
    exact absurd hplace (h rest budget)
  · rfl

theorem idle_receive (s : Session) (budget : Nat) : Idle (receive s budget) := by
  unfold receive Idle
  split <;> simp

/-- Where the loop over `recv` begins, no line is being reported. -/
theorem receive_on (h : Idle s) (budget : Nat) :
    SendsOn s (receive s budget) ∧ ReadsOn s (receive s budget) := by
  have hline : (receive s budget).line = s.line ∧ (receive s budget).emitted = s.emitted ∧
      (receive s budget).ended = s.ended ∧ SendsOn s (receive s budget) := by
    unfold receive
    split <;> exact ⟨rfl, rfl, rfl, rfl, rfl⟩
  obtain ⟨hline, hemitted, hended, hsends⟩ := hline
  have hidle := idle_receive s budget
  refine ⟨hsends, ?_, ?_, hemitted, ?_⟩
  · rw [hidle.held, h.held, hline]
  · rw [hidle.unread, h.unread]
  · rw [hended]
    exact id

theorem idle_flush (s : Session) : Idle (flush s) := by
  unfold flush
  split
  · simp [Idle]
  · exact idle_receive _ _

theorem flush_on (h : Idle s) : SendsOn s (flush s) ∧ ReadsOn s (flush s) := by
  unfold flush
  split
  · refine ⟨⟨rfl, rfl⟩, ?_, ?_, rfl, id⟩
    · rw [h.held]
      rfl
    · rw [h.unread]
      rfl
  · rename_i hsent
    have hclear : Idle { s with tx := [], txOffset := 0 } := h
    obtain ⟨hsends, hreads⟩ := receive_on hclear 0
    have hpending : pending s = [] := List.drop_eq_nil_of_le (Nat.not_lt.mp hsent)
    exact ⟨⟨hsends.pending.trans hpending.symm, hsends.accepted⟩,
      hreads.held, hreads.unread, hreads.emitted, hreads.kept⟩

theorem poll_on (s : Session) (connected : Bool) (now : Nat) (ready : Answer) :
    SendsOn s (poll s connected now ready) ∧ ReadsOn s (poll s connected now ready) := by
  unfold poll
  split
  · exact ⟨SendsOn.refl s, ReadsOn.refl s⟩
  rename_i haway
  have haway : s.place = .away := by
    simp only [ne_eq, Bool.or_eq_true, decide_eq_true_eq, not_or, not_not] at haway
    exact haway.2
  have hidle : Idle s := by
    intro rest budget hevent
    exact absurd (haway.symm.trans hevent) (by simp)
  split
  · exact finish_on s (by decide)
  split
  · exact finish_on s (by decide)
  split
  · exact flush_on hidle
  · exact ⟨SendsOn.refl s, ReadsOn.refl s⟩
  · exact finish_on s (by decide)
  · exact finish_on s (by decide)
  · refine ⟨⟨rfl, rfl⟩, ?_, ?_, rfl, id⟩
    · rw [hidle.held]
      rfl
    · rw [hidle.unread]
      rfl

/-! ### Reading -/

/-- What the bytes of a stream make of its reader: it stops at the next line, or at their end. -/
structure Read (s s' : Session) (data tail : List UInt8) (rest : List (List UInt8)) : Prop where
  sends : SendsOn s s'
  running : s'.ended = none
  way : ∃ done rest', rest = done ++ rest' ∧ s'.emitted = s.emitted ++ done ∧
    Lib.Partway body 10 (held s') (unread s' ++ tail) rest'
  /-- The bytes behind a line that is being reported are fewer. -/
  shorter : Idle s' ∨ (unread s').length < data.length

/-- No byte of a readable text is refused. -/
theorem Readable.byte {text : List UInt8} {c : UInt8} (h : Readable text) (hc : c ∈ body text) :
    c ≠ 0 := by
  rintro rfl
  rcases List.mem_append.mp hc with hc | hc
  · exact h.noNul hc
  · exact absurd (List.mem_singleton.mp hc) (by decide)

theorem Readable.short {text : List UInt8} (h : Readable text) :
    (body text).length < blockSize - 1 := by
  have hfits := h.fits
  unfold blockSize at hfits ⊢
  simp only [body, List.length_append, List.length_singleton]
  omega

theorem readLine_read (hrun : s.ended = none) (hrest : ∀ text ∈ rest, Readable text)
    (hway : Lib.Partway body 10 s.line (data ++ tail) rest) :
    Read s (readLine s data budget) data tail rest := by
  induction data generalizing s with
  | nil =>
      have hidle := idle_receive s (budget + 1)
      have hsame : SendsOn s (receive s (budget + 1)) ∧ (receive s (budget + 1)).ended = s.ended ∧
          (receive s (budget + 1)).emitted = s.emitted ∧ (receive s (budget + 1)).line = s.line := by
        unfold receive
        split <;> exact ⟨⟨rfl, rfl⟩, rfl, rfl, rfl⟩
      refine ⟨hsame.1, hsame.2.1.trans hrun, ⟨[], rest, rfl, ?_, ?_⟩, Or.inl hidle⟩
      · rw [List.append_nil]
        exact hsame.2.2.1
      · show Lib.Partway body 10 (held (receive s (budget + 1))) (unread (receive s (budget + 1)) ++ tail) rest
        rw [hidle.held, hidle.unread, hsame.2.2.2]
        exact hway
  | cons c data ih =>
      unfold readLine
      by_cases hc : c = 10
      · subst hc
        obtain ⟨text, rest', rfl, hline, hnext⟩ := hway.close fun a ha => (hrest a ha).body_clean
        have hshort := (hrest text List.mem_cons_self).short
        rw [hline, if_neg (by simpa using Nat.not_le.mpr hshort), if_pos rfl, chomp_body]
        exact ⟨⟨rfl, rfl⟩, hrun, ⟨[text], rest', rfl, rfl, hnext⟩, Or.inr (Nat.lt_succ_self _)⟩
      · obtain ⟨hnext, text, htext, hmem, hlt⟩ := hway.more hc
        have hshort := (hrest text htext).short
        have hbyte := (hrest text htext).byte hmem
        have hguard : ¬ (decide (c = 0) || decide (blockSize - 1 ≤ s.line.length)) = true := by
          simp only [hbyte, decide_false, Bool.false_or, decide_eq_true_eq]
          omega
        rw [if_neg hguard, if_neg hc]
        have hread := ih (s := { s with line := s.line ++ [c] }) hrun hnext
        refine ⟨⟨hread.sends.pending, hread.sends.accepted⟩, hread.running, hread.way, ?_⟩
        exact hread.shorter.imp id Nat.lt_succ_of_lt

/-- A reader that goes on with `data`, which is next on the stream. -/
theorem Flow.reads {x r' : Session} (h : Flow x r wire) (hdata : unread r ++ wire = data ++ tail)
    (hheld : r'.line = held r) (hrun : r'.ended = none) (budget : Nat) :
    ∃ rest, x.accepted = r.emitted ++ rest ∧
      Read r' (readLine r' data budget) data (tail ++ pending x) rest := by
  obtain ⟨rest, haccepted, hway⟩ := h.way
  have hrest : ∀ text ∈ rest, Readable text := fun text ht =>
    h.readable text (by rw [haccepted]; exact List.mem_append_right _ ht)
  rw [hdata, List.append_assoc, ← hheld] at hway
  exact ⟨rest, haccepted, readLine_read hrun hrest hway⟩

theorem Flow.read {x r' : Session} (h : Flow x r wire) (hdata : unread r ++ wire = data ++ tail)
    (hheld : r'.line = held r) (hemitted : r'.emitted = r.emitted) (hrun : r'.ended = none) :
    Flow x (readLine r' data budget) tail := by
  obtain ⟨rest, haccepted, hread⟩ := h.reads hdata hheld hrun budget
  obtain ⟨done, rest', rfl, hdone, hway⟩ := hread.way
  refine ⟨h.readable, ⟨rest', ?_, ?_⟩, ?_⟩
  · rw [haccepted, hdone, hemitted, List.append_assoc]
  · rw [List.append_assoc]
    exact hway
  · rw [hread.running]
    simp

theorem readLine_sends (s : Session) (data : List UInt8) (budget : Nat) :
    SendsOn s (readLine s data budget) := by
  induction data generalizing s with
  | nil =>
      unfold readLine receive
      split <;> exact ⟨rfl, rfl⟩
  | cons c data ih =>
      unfold readLine
      split
      · exact ⟨rfl, rfl⟩
      split
      · exact ⟨rfl, rfl⟩
      · have hrest := ih { s with line := s.line ++ [c] }
        exact ⟨hrest.pending, hrest.accepted⟩

/-! ### A party -/

/-- Both ways between a party and the other side `x`. -/
structure Paired (p : Party) (x : Session) : Prop where
  out : Flow p.self x p.outbox
  into : Flow x p.self p.inbox

variable {x : Session}

/-- What happens inside a session alone. -/
theorem Paired.on (h : Paired p x) (hon : SendsOn p.self s' ∧ ReadsOn p.self s') :
    Paired { p with self := s' } x :=
  ⟨h.out.sender hon.1, h.into.reader hon.2⟩

/-- The part of the block that `send` takes is on the wire. -/
theorem Flow.sent (h : Flow s r wire) (n : Nat) :
    Flow { s with txOffset := s.txOffset + ((s.tx.drop s.txOffset).take n).length, deadline := 0 } r
      (wire ++ (s.tx.drop s.txOffset).take n) where
  readable := h.readable
  way := by
    obtain ⟨rest, haccepted, hway⟩ := h.way
    refine ⟨rest, haccepted, ?_⟩
    have hsplit : wire ++ pending s = wire ++ (s.tx.drop s.txOffset).take n ++
        s.tx.drop (s.txOffset + ((s.tx.drop s.txOffset).take n).length) := by
      have hrest : s.tx.drop (s.txOffset + ((s.tx.drop s.txOffset).take n).length) =
          (s.tx.drop s.txOffset).drop n := by
        rw [List.length_take, ← List.drop_drop]
        rcases Nat.le_total n (s.tx.drop s.txOffset).length with hle | hle
        · rw [Nat.min_eq_left hle]
        · rw [Nat.min_eq_right hle, List.drop_eq_nil_of_le (Nat.le_refl _), List.drop_eq_nil_of_le hle]
      rw [hrest, List.append_assoc, List.take_append_drop]
      rfl
    rw [List.append_assoc, hsplit] at hway
    rw [List.append_assoc]
    exact hway
  kept := h.kept

theorem Paired.callFlush (h : Paired p x) (hplace : p.self.place = .flush) (answer : Answer) :
    Paired (callFlush p answer) x := by
  have hidle : Idle p.self := fun rest budget hevent => absurd (hplace.symm.trans hevent) (by simp)
  cases answer with
  | again => exact h.on (receive_on hidle 0)
  | fails => exact h.on (finish_on _ (by decide))
  | gives n =>
      have hsent := h.out.sent (n + 1)
      have hmoved : Idle { p.self with
          txOffset := p.self.txOffset + ((p.self.tx.drop p.self.txOffset).take (n + 1)).length
          deadline := 0 } := hidle
      obtain ⟨hsends, hreads⟩ := flush_on hmoved
      exact ⟨hsent.sender hsends, h.into.reader ⟨hreads.held, hreads.unread, hreads.emitted, hreads.kept⟩⟩

theorem Paired.callReceive (h : Paired p x) {budget : Nat} (hrun : p.self.ended = none)
    (hplace : p.self.place = .receive budget) (answer : Answer) :
    Paired (callReceive p budget answer) x := by
  have hidle : Idle p.self := fun rest budget hevent => absurd (hplace.symm.trans hevent) (by simp)
  have haway : SendsOn p.self { p.self with place := .away } ∧
      ReadsOn p.self { p.self with place := .away } :=
    ⟨⟨rfl, rfl⟩, hidle.held.symm, hidle.unread.symm, rfl, id⟩
  cases answer with
  | again => exact h.on haway
  | fails => exact h.on (finish_on _ (by decide))
  | gives n =>
      unfold Chat.callReceive
      simp only
      split
      · split
        · exact h.on (finish_on _ (by decide))
        · exact h.on haway
      · refine ⟨h.out.sender (readLine_sends _ _ _), ?_⟩
        refine h.into.read ?_ hidle.held.symm rfl hrun
        rw [hidle.unread, List.nil_append, List.take_append_drop]

theorem Paired.call (h : Paired p x) (answer : Answer) : Paired (call p answer) x := by
  unfold Chat.call
  split
  · exact h
  rename_i hrun
  have hrun : p.self.ended = none := by simpa using hrun
  split
  · exact h
  · rename_i hplace
    have hidle : Idle p.self := fun rest budget hevent => absurd (hplace.symm.trans hevent) (by simp)
    exact h.on (flush_on hidle)
  · rename_i hplace
    exact h.callFlush hplace answer
  · rename_i hplace
    exact h.callReceive hrun hplace answer
  · rename_i rest budget hplace
    have hsends := readLine_sends { p.self with line := [] } rest budget
    refine ⟨h.out.sender ⟨hsends.pending, hsends.accepted⟩, ?_⟩
    refine h.into.read ?_ ?_ rfl hrun
    · show unread p.self ++ p.inbox = rest ++ p.inbox
      simp [unread, hplace]
    · simp [held, hplace]

/-- A text that is sent can be read, unless it has the one length that only the sender takes. -/
theorem readable_of_sendable {connected : Bool} {text : Text} (h : sendable s connected text = true)
    (hlength : text.1.length ≠ blockSize - 2) : Readable text.1 := by
  unfold sendable at h
  simp only [Bool.and_eq_true, decide_eq_true_eq, Bool.not_eq_true', List.contains_eq_mem,
    decide_eq_false_iff_not] at h
  refine ⟨text.2, h.1.2, ?_⟩
  have hmost := h.1.1.1.2
  omega

theorem Paired.text (h : Paired p x) (connected : Bool) {text : Option Text}
    (hbrief : ∀ t ∈ text, sendable p.self connected t = true → t.1.length ≠ blockSize - 2) :
    Paired { p with self := (chatSend p.self connected text).2 } x := by
  unfold chatSend
  cases text with
  | none => exact h
  | some text =>
      simp only
      split
      · exact h
      rename_i hsend
      have hsend : sendable p.self connected text = true := by simpa using hsend
      have htx : p.self.tx = [] := by
        unfold sendable at hsend
        simp only [Bool.and_eq_true, decide_eq_true_eq] at hsend
        exact hsend.2
      refine ⟨⟨?_, ?_, h.out.kept⟩, h.into.reader ⟨rfl, rfl, rfl, id⟩⟩
      · intro t ht
        rcases List.mem_append.mp ht with ht | ht
        · exact h.out.readable t ht
        · rw [List.mem_singleton.mp ht]
          exact readable_of_sendable hsend (hbrief text rfl hsend)
      · obtain ⟨rest, haccepted, hway⟩ := h.out.way
        refine ⟨rest ++ [text.1], ?_, ?_⟩
        · show p.self.accepted ++ [text.1] = _
          rw [haccepted, List.append_assoc]
        · have hnone : pending p.self = [] := by
            unfold pending
            rw [htx, List.drop_nil]
          rw [hnone, List.append_nil] at hway
          have hnext := hway.send (a := text.1)
          have hblock : text.1 ++ [13, 10] = body text.1 ++ [10] := by simp [body]
          show Lib.Partway body 10 (held x) (unread x ++ p.outbox ++ (text.1 ++ [13, 10])) _
          rw [hblock]
          exact hnext

/-! ### Every run -/

namespace Talk

/-- No text is sent that has the one length that only the sender takes. -/
def Brief (y : Talk) : Event → Prop
  | .text side connected (some text) =>
      sendable (y.session side) connected text = true → text.1.length ≠ blockSize - 2
  | _ => True

/-- What is said on one side arrives on the other. -/
def Flows (y : Talk) : Prop :=
  ∀ side, Flow (y.session side) (y.session side.other) (y.wire side)

theorem flows_offered (deadline deadline' : Nat) : Flows (offered deadline deadline') := by
  intro side
  have hstart : Flow ⟨.listening, deadline, [], 0, [], .away, none, [], []⟩
      ⟨.connecting, deadline', [], 0, [], .away, none, [], []⟩ [] :=
    ⟨by simp, ⟨[], rfl, Lib.Partway.start⟩, by simp⟩
  cases side with
  | offerer => exact hstart
  | accepter => exact ⟨by simp [offered, session], ⟨[], rfl, Lib.Partway.start⟩, by simp [offered, session, Side.other]⟩

theorem Flows.paired {y : Talk} (h : Flows y) (side : Side) :
    Paired (y.party side) (y.session side.other) := by
  refine ⟨h side, ?_⟩
  have hinto := h side.other
  cases side <;> exact hinto

theorem flows_put {y : Talk} {side : Side} {p : Party} (h : Paired p (y.session side.other)) :
    Flows (y.put side p) := by
  intro way
  cases side <;> cases way <;> first | exact h.out | exact h.into

theorem Flows.step {y : Talk} {e : Event} (h : Flows y) (hbrief : Brief y e) : Flows (y.step e) := by
  have hpair := h.paired e.side
  refine flows_put ?_
  cases e with
  | text side connected text =>
      refine hpair.text connected fun t ht => ?_
      obtain rfl : text = some t := ht
      exact hbrief
  | poll side connected now ready => exact hpair.on (poll_on _ connected now ready)
  | call side answer => exact hpair.call answer
  | close side reason =>
      show Paired (if _ then _ else _) _
      split
      · exact hpair
      · exact hpair.on (finish_on _ (by simp [overlong]))

end Talk

end Dcc.Chat

end RustyRig
