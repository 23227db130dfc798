/-
What the IRC connection reads is what the other end wrote, wherever the stream is cut.

A stream that the connection goes on with is a run of lines, CR and LF behind each, and what it holds of
the next.  The bytes of a line only extend what is held (`feedLoop_held`), the two behind it dispatch it
(`feedLoop_line`), and the other way round a stream that was taken splits into such lines
(`feedLoop_split`).  What the loop makes of a stream does not depend on where it is cut
(`receive_flatten`), so this describes every sequence of reads.
-/
import RustyRig.Librustyirc.Connection
import RustyRig.Proofs.IrcMessage.RoundTrip
import Mathlib.Data.List.Forall2

namespace RustyRig

namespace Irc

namespace Connection

variable {closes : List Message → Message → Bool} {c c' : Connection} {l held stream : Text} {lines : List Text}
  {done : List Message}

/-- A line that the connection takes. -/
structure Line (l : Text) : Prop where
  clean : 0 ∉ l
  unbroken : lineFeed ∉ l
  short : l.length ≤ IRC_MSGLEN - 2

/-- A part of a line that the connection keeps. -/
structure Held (l : Text) : Prop where
  clean : 0 ∉ l
  unbroken : lineFeed ∉ l
  short : l.length ≤ IRC_MSGLEN

/-- Lines on the stream. -/
def wire (lines : List Text) : Text := lines.flatMap fun l => l ++ [carriageReturn, lineFeed]

/-- The messages of lines. -/
def messages (lines : List Text) : List Message := lines.filterMap parseMessage

/-- No handler releases the connection on these messages, dispatched behind `done`. -/
def Open (closes : List Message → Message → Bool) (done : List Message) : List Message → Prop
  | [] => True
  | m :: ms => closes done m = false ∧ Open closes (done ++ [m]) ms

theorem Held.nil : Held [] := ⟨by simp, by simp, by simp⟩

theorem wire_cons (l : Text) (lines : List Text) : wire (l :: lines) = l ++ carriageReturn :: lineFeed :: wire lines := by
  simp [wire]

/-! ### Where the stream is cut -/

/-- The loop is one byte and then the loop over the others. -/
theorem feedLoop_cons (c : Connection) (ch : UInt8) (stream : Text) : c.feedLoop closes (ch :: stream) =
    if (c.feedLoop closes [ch]).1 = true then (c.feedLoop closes [ch]).2.feedLoop closes stream
    else c.feedLoop closes [ch] := by
  simp only [feedLoop]
  by_cases hnul : ch = 0
  · simp only [if_pos hnul, Bool.false_eq_true, if_false]
  by_cases hfull : IRC_MSGLEN ≤ c.recvq.length
  · simp only [if_neg hnul, if_pos hfull, Bool.false_eq_true, if_false]
  by_cases hmore : ch ≠ lineFeed
  · simp only [if_neg hnul, if_neg hfull, if_pos hmore, if_true]
  · simp only [if_neg hnul, if_neg hfull, if_neg hmore]
    split_ifs <;> first | contradiction | rfl

theorem feedLoop_append (stream rest : Text) : ∀ c : Connection, c.feedLoop closes (stream ++ rest) =
    if (c.feedLoop closes stream).1 = true then (c.feedLoop closes stream).2.feedLoop closes rest
    else c.feedLoop closes stream := by
  induction stream with
  | nil => exact fun c => rfl
  | cons ch stream ih =>
      intro c
      rw [List.cons_append, feedLoop_cons c ch (stream ++ rest), feedLoop_cons c ch stream]
      by_cases hgo : (c.feedLoop closes [ch]).1 = true
      · simp only [if_pos hgo]
        exact ih _
      · simp only [if_neg hgo]

/-- A connection that goes on was not released. -/
theorem closing_of_feedLoop (stream : Text) : ∀ c : Connection, c.closing = false →
    (c.feedLoop closes stream).1 = true → (c.feedLoop closes stream).2.closing = false := by
  induction stream with
  | nil => exact fun c hopen _ => hopen
  | cons ch stream ih =>
      intro c hopen hgo
      simp only [feedLoop] at hgo ⊢
      split_ifs at hgo ⊢ with hnul hfull hmore hbare hlong hclosed
      · exact ih _ hopen hgo
      · exact ih _ (by simpa using hclosed) hgo

/-- What the connection makes of its reads, it makes of all of them at once. -/
theorem receive_flatten (reads : List Text) : ∀ c : Connection, c.closing = false →
    c.receive closes reads = c.feedLoop closes reads.flatten := by
  induction reads with
  | nil => exact fun c _ => rfl
  | cons bytes reads ih =>
      intro c hopen
      have hfeed : c.feed closes bytes = c.feedLoop closes bytes := by
        simp [feed, hopen]
      rw [receive, hfeed, List.flatten_cons, feedLoop_append]
      by_cases hgo : (c.feedLoop closes bytes).1 = true
      · simp only [hgo, if_true]
        exact ih _ (closing_of_feedLoop bytes c hopen hgo)
      · simp only [if_neg hgo]

/-! ### Lines -/

/-- A byte that ends no line is held, as long as there is room. -/
theorem feedLoop_byte {ch : UInt8} (hnul : ch ≠ 0) (hmore : ch ≠ lineFeed) (hroom : c.recvq.length < IRC_MSGLEN)
    (stream : Text) : c.feedLoop closes (ch :: stream) =
      ({ c with recvq := c.recvq ++ [ch] } : Connection).feedLoop closes stream := by
  simp only [feedLoop, if_neg hnul, if_neg (Nat.not_le.mpr hroom), if_pos hmore]

/-- The bytes of a line extend what is held. -/
theorem feedLoop_held (closes : List Message → Message → Bool) (l : Text) : ∀ c : Connection, Held (c.recvq ++ l) → ∀ stream : Text,
    c.feedLoop closes (l ++ stream) = ({ c with recvq := c.recvq ++ l } : Connection).feedLoop closes stream := by
  induction l with
  | nil => intro c _ stream; simp
  | cons ch l ih =>
      intro c h stream
      have hnul : ch ≠ 0 := fun hch => h.clean (by simp [hch])
      have hmore : ch ≠ lineFeed := fun hch => h.unbroken (by simp [hch])
      have hroom : c.recvq.length < IRC_MSGLEN := by
        have hshort := h.short
        rw [List.length_append, List.length_cons] at hshort
        omega
      rw [List.cons_append, feedLoop_byte hnul hmore hroom]
      have hheld : Held (({ c with recvq := c.recvq ++ [ch] } : Connection).recvq ++ l) := by
        simpa using h
      rw [ih { c with recvq := c.recvq ++ [ch] } hheld stream]
      simp

/-- What a line feed does to what is held. -/
theorem feedLoop_lineFeed (closes : List Message → Message → Bool) (hroom : c.recvq.length < IRC_MSGLEN) (stream : Text) :
    c.feedLoop closes (lineFeed :: stream) =
      if c.recvq.getLast? = some carriageReturn then
        let c := ({ c with recvq := c.recvq.dropLast } : Connection).processMessage closes c.recvq.dropLast
        if c.closing = true then (false, c) else ({ c with recvq := [] } : Connection).feedLoop closes stream
      else (false, { c with recvq := c.recvq ++ [lineFeed] }) := by
  have hnul : lineFeed ≠ 0 := by decide
  have hend : (c.recvq ++ [lineFeed]).length - 2 = c.recvq.length - 1 := by simp
  simp only [feedLoop, if_neg hnul, if_neg (Nat.not_le.mpr hroom), ne_eq, not_true, if_false, hend]
  rcases List.eq_nil_or_concat c.recvq with hnil | ⟨l, x, hl⟩
  · simp [hnil]
  · rw [List.concat_eq_append] at hl
    have hx : (c.recvq ++ [lineFeed])[c.recvq.length - 1]? = some x := by
      rw [hl]
      simp
    have htake : (c.recvq ++ [lineFeed]).take (c.recvq.length - 1) = l := by
      rw [hl]
      simp
    have hlast : c.recvq.getLast? = some x := by
      rw [hl]
      simp
    have hdrop : c.recvq.dropLast = l := by
      rw [hl]
      simp
    have htwo : ¬ (c.recvq ++ [lineFeed]).length < 2 := by
      rw [hl]
      simp
    have hshort : ¬ IRC_MSGLEN - 2 < c.recvq.length - 1 := by omega
    simp only [hx, htake, hlast, hdrop, htwo, hshort, false_or, if_false]
    by_cases hcr : x = carriageReturn
    · simp [hcr]
    · simp [hcr]

/-! ### Dispatching -/

theorem messages_cons (l : Text) (lines : List Text) : messages (l :: lines) = messages [l] ++ messages lines := by
  rw [messages, messages, messages, ← List.filterMap_append, List.singleton_append]

theorem Open.append {done ms ns : List Message} : Open closes done (ms ++ ns) ↔
    Open closes done ms ∧ Open closes (done ++ ms) ns := by
  induction ms generalizing done with
  | nil => simp [Open]
  | cons m ms ih =>
      rw [List.cons_append, Open, Open, ih, and_assoc, List.append_assoc, List.singleton_append]

/-- A line is dispatched, and the connection stays open or does not. -/
theorem processMessage_eq (closes : List Message → Message → Bool) (hopen : c.closing = false) (l : Text) : ∃ closing : Bool,
    c.processMessage closes l = { c with closing := closing, dispatched := c.dispatched ++ messages [l] } ∧
      (closing = false ↔ Open closes c.dispatched (messages [l])) := by
  unfold processMessage
  cases hparse : parseMessage l with
  | none =>
      refine ⟨false, ?_, by simp [messages, hparse, Open]⟩
      simp [messages, hparse, ← hopen]
  | some m => exact ⟨closes c.dispatched m, by simp [messages, hparse, hopen], by simp [messages, hparse, Open]⟩

/-- A line and the two bytes behind it. -/
theorem feedLoop_line (hl : Line l) (hempty : c.recvq = []) (hopen : c.closing = false)
    (hmessages : Open closes c.dispatched (messages [l])) (stream : Text) :
    c.feedLoop closes (l ++ carriageReturn :: lineFeed :: stream) =
      ({ c with dispatched := c.dispatched ++ messages [l] } : Connection).feedLoop closes stream := by
  have hheld : Held (c.recvq ++ (l ++ [carriageReturn])) := by
    have hcr : (0 : UInt8) ≠ carriageReturn ∧ lineFeed ≠ carriageReturn := by decide
    rw [hempty, List.nil_append]
    refine ⟨by simp [hl.clean, hcr.1], by simp [hl.unbroken, hcr.2], ?_⟩
    have hshort := hl.short
    rw [List.length_append, List.length_singleton]
    unfold IRC_MSGLEN at hshort ⊢
    omega
  have hroom : (l ++ [carriageReturn]).length < IRC_MSGLEN := by
    have hshort := hl.short
    rw [List.length_append, List.length_singleton]
    unfold IRC_MSGLEN at hshort ⊢
    omega
  have hbytes := feedLoop_held closes (l ++ [carriageReturn]) c hheld (lineFeed :: stream)
  rw [List.append_assoc, List.singleton_append, hempty, List.nil_append] at hbytes
  obtain ⟨closing, hprocess, hclosing⟩ :=
    processMessage_eq closes (c := { c with recvq := l }) hopen l
  have hlast : (l ++ [carriageReturn]).getLast? = some carriageReturn := by simp
  have hdrop : (l ++ [carriageReturn]).dropLast = l := by simp
  have hstep := feedLoop_lineFeed closes (c := { c with recvq := l ++ [carriageReturn] }) hroom stream
  rw [if_pos hlast, hdrop, hprocess, hclosing.mpr hmessages] at hstep
  rw [hbytes, hstep]
  simp [hempty, hopen]

theorem feedLoop_lines (lines : List Text) : ∀ c : Connection, (∀ l ∈ lines, Line l) → c.recvq = [] →
    c.closing = false → Open closes c.dispatched (messages lines) → ∀ stream : Text,
    c.feedLoop closes (wire lines ++ stream) =
      ({ c with dispatched := c.dispatched ++ messages lines } : Connection).feedLoop closes stream := by
  induction lines with
  | nil => intro c _ _ _ _ stream; simp [wire, messages]
  | cons l lines ih =>
      intro c hlines hempty hopen hmessages stream
      rw [messages_cons, Open.append] at hmessages
      have hwire : wire (l :: lines) ++ stream = l ++ carriageReturn :: lineFeed :: (wire lines ++ stream) := by
        rw [wire_cons]
        simp
      rw [hwire, feedLoop_line (hlines l List.mem_cons_self) hempty hopen hmessages.1]
      have hrest := ih { c with dispatched := c.dispatched ++ messages [l] }
        (fun x hx => hlines x (List.mem_cons_of_mem l hx)) hempty hopen hmessages.2 stream
      rw [hrest, messages_cons l lines, List.append_assoc]

/-- Lines that release nothing and a part of another are taken. -/
theorem feedLoop_wire (hlines : ∀ l ∈ lines, Line l) (hheld : Held held)
    (hmessages : Open closes [] (messages lines)) : start.feedLoop closes (wire lines ++ held) =
      (true, { recvq := held, closing := false, dispatched := messages lines }) := by
  have hend := feedLoop_held closes held
    { recvq := [], closing := false, dispatched := messages lines } (by simpa using hheld) []
  rw [feedLoop_lines lines start hlines rfl rfl hmessages]
  simpa [start, feedLoop] using hend

/-- The other way round: a stream splits into the lines whose messages were dispatched and a rest, which is what
is held of one that is taken. -/
theorem feedLoop_split (closes : List Message → Message → Bool) (stream : Text) : ∀ c : Connection, Held c.recvq → c.closing = false →
    ∃ lines rest, c.recvq ++ stream = wire lines ++ rest ∧ (∀ l ∈ lines, Line l) ∧
      (c.feedLoop closes stream).2.dispatched = c.dispatched ++ messages lines ∧
      ((c.feedLoop closes stream).1 = true → Held rest ∧ Open closes c.dispatched (messages lines)) := by
  induction stream with
  | nil =>
      intro c hheld _
      exact ⟨[], c.recvq, by simp [wire], by simp, by simp [feedLoop, messages], fun _ => ⟨hheld, trivial⟩⟩
  | cons ch stream ih =>
      intro c hheld hopen
      -- a byte that is refused leaves everything in the rest
      have hrefused : c.feedLoop closes (ch :: stream) = (false, (c.feedLoop closes (ch :: stream)).2) →
          (c.feedLoop closes (ch :: stream)).2.dispatched = c.dispatched →
          ∃ lines rest, c.recvq ++ ch :: stream = wire lines ++ rest ∧ (∀ l ∈ lines, Line l) ∧
            (c.feedLoop closes (ch :: stream)).2.dispatched = c.dispatched ++ messages lines ∧
            ((c.feedLoop closes (ch :: stream)).1 = true → Held rest ∧ Open closes c.dispatched (messages lines)) := by
        intro hres hsame
        refine ⟨[], c.recvq ++ ch :: stream, by simp [wire], by simp, by simp [hsame, messages], fun hgo => ?_⟩
        rw [hres] at hgo
        exact absurd hgo (by simp)
      by_cases hnul : ch = 0
      · exact hrefused (by simp [feedLoop, hnul]) (by simp [feedLoop, hnul])
      by_cases hfull : IRC_MSGLEN ≤ c.recvq.length
      · exact hrefused (by simp [feedLoop, hnul, hfull]) (by simp [feedLoop, hnul, hfull])
      have hroom : c.recvq.length < IRC_MSGLEN := Nat.lt_of_not_le hfull
      by_cases hmore : ch ≠ lineFeed
      · have hnext : Held (c.recvq ++ [ch]) := by
          refine ⟨by simp [hheld.clean, Ne.symm hnul], by simp [hheld.unbroken, Ne.symm hmore], ?_⟩
          rw [List.length_append, List.length_singleton]
          exact hroom
        obtain ⟨lines, rest, hsplit, hlines, hdone, hgo⟩ := ih { c with recvq := c.recvq ++ [ch] } hnext hopen
        rw [feedLoop_byte hnul hmore hroom]
        exact ⟨lines, rest, by simpa using hsplit, hlines, hdone, hgo⟩
      rw [not_not] at hmore
      subst hmore
      by_cases hcr : c.recvq.getLast? = some carriageReturn
      · obtain ⟨l, hl⟩ := List.getLast?_eq_some_iff.mp hcr
        have hline : Line l := by
          refine ⟨fun h => hheld.clean (by simp [hl, h]), fun h => hheld.unbroken (by simp [hl, h]), ?_⟩
          rw [hl, List.length_append, List.length_singleton] at hroom
          omega
        obtain ⟨closing, hprocess, hclosing⟩ :=
          processMessage_eq closes (c := { c with recvq := l }) hopen l
        have hdrop : c.recvq.dropLast = l := by simp [hl]
        have hstep := feedLoop_lineFeed closes hroom stream
        rw [if_pos hcr, hdrop, hprocess] at hstep
        cases hclosed : closing with
        | true =>
            rw [hclosed] at hstep
            simp only [if_true] at hstep
            rw [hstep]
            exact ⟨[l], stream, by simp [hl, wire], by simpa using hline, rfl, by simp⟩
        | false =>
            rw [hclosed] at hstep
            simp only [Bool.false_eq_true, if_false] at hstep
            obtain ⟨lines, rest, hsplit, hlines, hdone, hgo⟩ :=
              ih { recvq := [], closing := false, dispatched := c.dispatched ++ messages [l] } Held.nil rfl
            rw [List.nil_append] at hsplit
            rw [hstep]
            refine ⟨l :: lines, rest, ?_, ?_, ?_, fun h => ⟨(hgo h).1, ?_⟩⟩
            · rw [hl, hsplit, wire_cons]
              simp
            · intro x hx
              rcases List.mem_cons.mp hx with rfl | hx
              · exact hline
              · exact hlines x hx
            · rw [hdone, messages_cons l lines, List.append_assoc]
            · rw [messages_cons l lines, Open.append]
              exact ⟨hclosing.mp hclosed, (hgo h).2⟩
      · have hstep := feedLoop_lineFeed closes hroom stream
        rw [if_neg hcr] at hstep
        exact hrefused (by rw [hstep]) (by rw [hstep])

/-- Wherever the stream is cut, the connection goes on with it exactly when it is lines without NUL, each of at most
1022 bytes with CR and LF behind it, then at most 1024 bytes of another, and no handler released the connection;
it has dispatched the messages of these lines, in order and once each, and holds the rest.  Of a stream that is
refused, too, only whole lines in front were dispatched. -/
theorem reads_exact (closes : List Message → Message → Bool) (reads : List Text) :
    ((start.receive closes reads).1 = true ↔ ∃ lines held, reads.flatten = wire lines ++ held ∧
      (∀ l ∈ lines, Line l) ∧ Held held ∧ Open closes [] (messages lines)) ∧
    (∀ lines held, reads.flatten = wire lines ++ held → (∀ l ∈ lines, Line l) → Held held →
      Open closes [] (messages lines) → start.receive closes reads =
        (true, { recvq := held, closing := false, dispatched := messages lines })) ∧
    ∃ lines rest, reads.flatten = wire lines ++ rest ∧ (∀ l ∈ lines, Line l) ∧
      (start.receive closes reads).2.dispatched = messages lines := by
  rw [receive_flatten reads start rfl]
  have htaken : ∀ lines held, reads.flatten = wire lines ++ held → (∀ l ∈ lines, Line l) → Held held →
      Open closes [] (messages lines) → start.feedLoop closes reads.flatten =
        (true, { recvq := held, closing := false, dispatched := messages lines }) := by
    intro lines held hstream hlines hheld hmessages
    rw [hstream, feedLoop_wire hlines hheld hmessages]
  obtain ⟨lines, rest, hsplit, hlines, hdone, hgo⟩ :=
    feedLoop_split closes reads.flatten start Held.nil rfl
  refine ⟨⟨fun h => ⟨lines, rest, hsplit, hlines, hgo h⟩, ?_⟩, htaken, lines, rest, hsplit, hlines, hdone⟩
  rintro ⟨lines, held, hstream, hlines, hheld, hmessages⟩
  rw [htaken lines held hstream hlines hheld hmessages]

/-! ### Both ends -/

/-- What an application sends: a message, the way its last parameter is written, and the limit at the time. -/
structure Outgoing where
  pre : Option Text
  command : Text
  params : List Text
  explicit : Bool
  limit : Option Text

namespace Outgoing

def line (o : Outgoing) : Text := Irc.line o.pre o.command o.params o.explicit

def message (o : Outgoing) : Message := { prefix_ := o.pre, argv := o.command :: o.params }

/-- The message is well formed, and its text is a C string. -/
def Valid (o : Outgoing) : Prop := WellFormed o.pre o.command o.params o.explicit ∧ 0 ∉ o.line

end Outgoing

end Connection

end Irc

end RustyRig
