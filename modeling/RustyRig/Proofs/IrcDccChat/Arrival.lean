/-
Chat lines arrive.

A side whose socket takes everything sends what it has in one poll, and a side that reads
what is there takes at least a byte with every `recv`.  So from any state in which both
sessions are up some polls bring everything that was accepted to the other side.  The parts
of a poll are taken one call at a time; `Still` is what a call that moves no bytes leaves.
-/
import RustyRig.Lib.Along
import RustyRig.Proofs.IrcDccChat.Delivery

namespace RustyRig

namespace Dcc.Chat

variable {p p' q : Party} {x s : Session} {side : Side} {budget : Nat}

/-- The polls of a side and the calls that come back to it. -/
def Event.moves (side : Side) : Event → Prop
  | .poll who _ _ _ => who = side
  | .call who _ => who = side
  | _ => False

/-- Polls of a side lead from one party to the other. -/
def Runs (side : Side) (p p' : Party) : Prop :=
  ∃ es : List Event, (∀ e ∈ es, e.moves side) ∧ es.foldl Talk.act p = p'

theorem Runs.refl (side : Side) (p : Party) : Runs side p p := ⟨[], by simp, rfl⟩

theorem Runs.trans (h : Runs side p p') (h' : Runs side p' q) : Runs side p q := by
  obtain ⟨es, hes, rfl⟩ := h
  obtain ⟨es', hes', rfl⟩ := h'
  refine ⟨es ++ es', fun e he => ?_, List.foldl_append⟩
  exact (List.mem_append.mp he).elim (hes e) (hes' e)

theorem runs_call (side : Side) (p : Party) (answer : Answer) : Runs side p (call p answer) :=
  ⟨[.call side answer], by simp [Event.moves], rfl⟩

theorem runs_poll (side : Side) (p : Party) (connected : Bool) (now : Nat) (ready : Answer) :
    Runs side p { p with self := poll p.self connected now ready } :=
  ⟨[.poll side connected now ready], by simp [Event.moves], rfl⟩

theorem Runs.paired (h : Runs side p p') (hp : Paired p x) : Paired p' x := by
  obtain ⟨es, hes, rfl⟩ := h
  induction es generalizing p with
  | nil => exact hp
  | cons e es ih =>
      refine ih ?_ fun e he => hes e (List.mem_cons_of_mem _ he)
      cases e with
      | poll _ connected now ready => exact hp.on (poll_on _ connected now ready)
      | call _ answer => exact hp.call answer
      | text _ _ _ => exact (hes _ List.mem_cons_self).elim
      | close _ _ => exact (hes _ List.mem_cons_self).elim

/-! ### Calls that move no bytes -/

/-- A party that goes on without sending or receiving. -/
structure Still (side : Side) (p p' : Party) : Prop where
  runs : Runs side p p'
  running : p'.self.ended = none
  inbox : p'.inbox = p.inbox
  outbox : p'.outbox = p.outbox
  sends : SendsOn p.self p'.self

theorem Still.trans (h : Still side p p') (h' : Still side p' q) : Still side p q where
  runs := h.runs.trans h'.runs
  running := h'.running
  inbox := h'.inbox.trans h.inbox
  outbox := h'.outbox.trans h.outbox
  sends := ⟨h'.sends.pending.trans h.sends.pending, h'.sends.accepted.trans h.sends.accepted⟩

theorem still_refl (h : p.self.ended = none) : Still side p p :=
  ⟨Runs.refl side p, h, rfl, rfl, SendsOn.refl _⟩

theorem receive_zero (s : Session) : receive s 0 = { s with place := .receive 0 } := rfl

theorem flush_ended (s : Session) : (flush s).ended = s.ended := by
  unfold flush
  split <;> rfl

theorem flush_place (s : Session) :
    (flush s).place = .flush ∨ (flush s).place = .receive 0 ∧ pending (flush s) = [] := by
  unfold flush
  split
  · exact Or.inl rfl
  · exact Or.inr ⟨rfl, rfl⟩

/-- The event of an opened session is followed by a flush. -/
theorem still_active (h : p.self.ended = none) (hplace : p.self.place = .active) :
    Still side p { p with self := flush p.self } := by
  have hcall : call p .again = { p with self := flush p.self } := by
    unfold call
    simp [h, hplace]
  have hidle : Idle p.self := fun rest budget hevent => absurd (hplace.symm.trans hevent) (by simp)
  exact ⟨hcall ▸ runs_call side p .again, (flush_ended _).trans h, rfl, rfl, (flush_on hidle).1⟩

/-- A socket that takes nothing ends the flush. -/
theorem still_flush (h : p.self.ended = none) (hplace : p.self.place = .flush) :
    Still side p { p with self := { p.self with place := .receive 0 } } := by
  have hcall : call p .again = { p with self := { p.self with place := .receive 0 } } := by
    unfold call
    simp [h, hplace, callFlush, receive_zero]
  exact ⟨hcall ▸ runs_call side p .again, h, rfl, rfl, rfl, rfl⟩

/-- A socket that gives nothing ends the poll. -/
theorem still_receive (h : p.self.ended = none) (hplace : p.self.place = .receive budget) :
    Still side p { p with self := { p.self with place := .away } } := by
  have hcall : call p .again = { p with self := { p.self with place := .away } } := by
    unfold call
    simp [h, hplace, callReceive]
  exact ⟨hcall ▸ runs_call side p .again, h, rfl, rfl, rfl, rfl⟩

/-- The bytes behind a reported line are read up to the next. -/
theorem still_event {rest : List UInt8} (hp : Paired p x) (h : p.self.ended = none)
    (hplace : p.self.place = .event rest budget) :
    ∃ p', Still side p p' ∧ (Idle p'.self ∨ (unread p'.self).length < rest.length) := by
  have hcall : call p .again =
      { p with self := readLine { p.self with line := [] } rest budget } := by
    unfold call
    simp [h, hplace]
  have hdata : unread p.self ++ p.inbox = rest ++ p.inbox := by simp [unread, hplace]
  have hheld : held p.self = [] := by simp [held, hplace]
  obtain ⟨texts, -, hread⟩ : ∃ texts, x.accepted = p.self.emitted ++ texts ∧
      Read { p.self with line := [] } (readLine { p.self with line := [] } rest budget) rest
        (p.inbox ++ pending x) texts := by
    refine hp.into.reads hdata ?_ ?_ budget
    · exact hheld.symm
    · exact h
  have hstill : Still side p { p with self := readLine { p.self with line := [] } rest budget } :=
    ⟨hcall ▸ runs_call side p .again, hread.running, rfl, rfl,
      ⟨hread.sends.pending, hread.sends.accepted⟩⟩
  exact ⟨_, hstill, hread.shorter⟩

/-- The rest of a poll that reports no line, with a socket that neither takes nor gives. -/
theorem Idle.comes_away (hidle : Idle p.self) (h : p.self.ended = none) :
    ∃ p', Still side p p' ∧ p'.self.place = .away := by
  have hreceive : ∀ {q : Party} {b : Nat}, Still side p q → q.self.place = .receive b →
      ∃ p', Still side p p' ∧ p'.self.place = .away := fun hq hplace =>
    ⟨_, hq.trans (still_receive hq.running hplace), rfl⟩
  have hflush : ∀ {q : Party}, Still side p q → q.self.place = .flush →
      ∃ p', Still side p p' ∧ p'.self.place = .away := fun hq hplace =>
    hreceive (hq.trans (still_flush hq.running hplace)) rfl
  cases hplace : p.self.place with
  | away => exact ⟨p, still_refl h, hplace⟩
  | active =>
      have hactive : Still side p { p with self := flush p.self } := still_active h hplace
      rcases flush_place p.self with hnext | ⟨hnext, -⟩
      · exact hflush hactive hnext
      · exact hreceive hactive hnext
  | flush => exact hflush (still_refl h) hplace
  | receive b => exact hreceive (still_refl h) hplace
  | event rest b => exact absurd hplace (hidle rest b)

/-- The rest of a poll: the lines that have been received are reported first. -/
theorem comes_away (hp : Paired p x) (h : p.self.ended = none) :
    ∃ p', Still side p p' ∧ p'.self.place = .away := by
  induction hn : (unread p.self).length using Nat.strongRecOn generalizing p with
  | ind n ih =>
      subst hn
      by_cases hidle : Idle p.self
      · exact hidle.comes_away h
      simp only [Idle, ne_eq, not_forall, not_not] at hidle
      obtain ⟨rest, b, hplace⟩ := hidle
      obtain ⟨q, hq, hshort⟩ : ∃ q, Still side p q ∧
        (Idle q.self ∨ (unread q.self).length < rest.length) := still_event hp h hplace
      have hgone : ∃ p', Still side q p' ∧ p'.self.place = .away := by
        rcases hshort with hidle | hlt
        · exact hidle.comes_away hq.running
        · refine ih _ ?_ (hq.runs.paired hp) hq.running rfl
          simpa [unread, hplace] using hlt
      obtain ⟨p', hp', haway⟩ := hgone
      exact ⟨p', hq.trans hp', haway⟩

/-- A poll up to its flush, or to its first `recv` where there is nothing to send. -/
theorem comes_up (h : p.self.ended = none) (hplace : p.self.place = .away) :
    ∃ p', Still side p p' ∧
      (p'.self.place = .flush ∨ p'.self.place = .receive 0 ∧ pending p'.self = []) := by
  have hpoll := runs_poll side p true 0 (.gives 0)
  have hidle : Idle p.self := fun rest budget hevent => absurd (hplace.symm.trans hevent) (by simp)
  by_cases hstate : p.self.state = .active
  · have heq : poll p.self true 0 (.gives 0) = flush p.self := by
      unfold poll
      simp [h, hplace, hstate]
    rw [heq] at hpoll
    exact ⟨_, ⟨hpoll, (flush_ended _).trans h, rfl, rfl, (flush_on hidle).1⟩, flush_place _⟩
  · have heq : poll p.self true 0 (.gives 0) =
        { p.self with state := .active, deadline := 0, place := .active } := by
      unfold poll
      cases hs : p.self.state <;> simp_all
    rw [heq] at hpoll
    have hup : Still side p
        { p with self := { p.self with state := .active, deadline := 0, place := .active } } :=
      ⟨hpoll, h, rfl, rfl, rfl, rfl⟩
    exact ⟨_, hup.trans (still_active h rfl), flush_place _⟩

/-! ### Calls that do -/

/-- One poll sends what is left. -/
theorem sends_all (hp : Paired p x) (h : p.self.ended = none) :
    ∃ p', Runs side p p' ∧ pending p'.self = [] ∧ p'.self.accepted = p.self.accepted := by
  obtain ⟨q, hq, haway⟩ : ∃ q, Still side p q ∧ q.self.place = .away := comes_away hp h
  obtain ⟨u, hu, hplace | ⟨-, hnone⟩⟩ : ∃ u, Still side q u ∧
    (u.self.place = .flush ∨ u.self.place = .receive 0 ∧ pending u.self = []) := comes_up hq.running haway
  · have hstill := hq.trans hu
    have hidle : Idle u.self := fun rest budget hevent => absurd (hplace.symm.trans hevent) (by simp)
    have hcall : call u (.gives u.self.tx.length) = callFlush u (.gives u.self.tx.length) := by
      unfold call
      simp [hu.running, hplace]
    have hmoved : Idle { u.self with
        txOffset := u.self.txOffset +
          ((u.self.tx.drop u.self.txOffset).take (u.self.tx.length + 1)).length
        deadline := 0 } := hidle
    obtain ⟨hsends, -⟩ := flush_on hmoved
    refine ⟨_, hstill.runs.trans (hcall ▸ runs_call side u (.gives u.self.tx.length)), ?_, ?_⟩
    · refine hsends.pending.trans (List.drop_eq_nil_of_le ?_)
      simp only [List.length_take, List.length_drop]
      omega
    · exact hsends.accepted.trans hstill.sends.accepted
  · exact ⟨u, (hq.trans hu).runs, hnone, (hq.trans hu).sends.accepted⟩

/-- A `recv` that gives a byte. -/
theorem reads_one (hp : Paired p x) (h : p.self.ended = none) (hplace : p.self.place = .receive budget)
    (hinbox : p.inbox ≠ []) :
    (call p (.gives 0)).self.ended = none ∧ (call p (.gives 0)).inbox = p.inbox.drop 1 := by
  have hidle : Idle p.self := fun rest budget hevent => absurd (hplace.symm.trans hevent) (by simp)
  have hcall : call p (.gives 0) =
      { p with inbox := p.inbox.drop 1, self := readLine p.self (p.inbox.take 1) budget } := by
    unfold call
    simp [h, hplace, callReceive, hinbox, blockSize]
  have hdata : unread p.self ++ p.inbox = p.inbox.take 1 ++ p.inbox.drop 1 := by
    rw [hidle.unread, List.nil_append, List.take_append_drop]
  obtain ⟨_, -, hread⟩ := hp.into.reads hdata hidle.held.symm h budget
  rw [hcall]
  exact ⟨hread.running, rfl⟩

/-- Some polls read what is there. -/
theorem reads_all (hp : Paired p x) (h : p.self.ended = none) :
    ∃ p', Runs side p p' ∧ p'.inbox = [] ∧ unread p'.self = [] := by
  induction hn : p.inbox.length using Nat.strongRecOn generalizing p with
  | ind n ih =>
      subst hn
      obtain ⟨q, hq, haway⟩ : ∃ q, Still side p q ∧ q.self.place = .away := comes_away hp h
      by_cases hinbox : p.inbox = []
      · exact ⟨q, hq.runs, hq.inbox.trans hinbox, by simp [unread, haway]⟩
      obtain ⟨u, hu, hplace⟩ : ∃ u, Still side q u ∧ u.self.place = .receive 0 := by
        obtain ⟨u, hu, hflush | ⟨hplace, -⟩⟩ : ∃ u, Still side q u ∧
          (u.self.place = .flush ∨ u.self.place = .receive 0 ∧ pending u.self = []) :=
            comes_up hq.running haway
        · exact ⟨_, hu.trans (still_flush hu.running hflush), rfl⟩
        · exact ⟨u, hu, hplace⟩
      have hstill := hq.trans hu
      obtain ⟨hrun, hrest⟩ := reads_one (hstill.runs.paired hp) hu.running hplace
        (by rw [hstill.inbox]; exact hinbox)
      have hruns := hstill.runs.trans (runs_call side u (.gives 0))
      obtain ⟨p', hp', hdone⟩ := ih _ (by
        rw [hrest, hstill.inbox, List.length_drop]
        exact Nat.sub_lt (List.length_pos_iff.mpr hinbox) Nat.one_pos) (hruns.paired hp) hrun rfl
      exact ⟨p', hruns.trans hp', hdone⟩

/-! ### Both sides -/

/-- Nothing that was accepted is missing when nothing is on its way. -/
theorem Flow.whole {r : Session} {wire : List UInt8} (h : Flow s r wire) (hpending : pending s = [])
    (hwire : wire = []) (hunread : unread r = []) : r.emitted = s.accepted := by
  obtain ⟨rest, haccepted, hway⟩ := h.way
  rw [hpending, hwire, hunread] at hway
  rw [haccepted, hway.eq_nil.2, List.append_nil]

namespace Talk

variable {y : Talk}

theorem party_put (y : Talk) (side : Side) (p : Party) :
    (y.put side p).party side = { p with peerGone := (y.session side.other).ended.isSome } := by
  cases side <;> rfl

theorem put_put (y : Talk) (side : Side) (p q : Party) : (y.put side p).put side q = y.put side q := by
  cases side <;> rfl

theorem put_party (y : Talk) (side : Side) : y.put side (y.party side) = y := by
  cases side <;> rfl

theorem session_put (y : Talk) (side : Side) (p : Party) : (y.put side p).session side = p.self := by
  cases side <;> rfl

theorem session_put_other (y : Talk) (side : Side) (p : Party) :
    (y.put side p).session side.other = y.session side.other := by
  cases side <;> rfl

theorem act_peerGone (p : Party) (e : Event) : (act p e).peerGone = p.peerGone := by
  cases e with
  | text _ _ _ => rfl
  | poll _ _ _ _ => rfl
  | call _ answer =>
      show (Chat.call p answer).peerGone = p.peerGone
      unfold Chat.call callFlush callReceive
      cases answer <;> (repeat' split) <;> rfl
  | close _ _ =>
      show (if _ then _ else _ : Party).peerGone = p.peerGone
      split <;> rfl

/-- Polls of one side are polls of the whole. -/
theorem lift (h : Runs side (y.party side) p') :
    ∃ es : List Event, (∀ e ∈ es, e.moves side) ∧ es.foldl step y = y.put side p' := by
  obtain ⟨es, hes, rfl⟩ := h
  refine ⟨es, hes, ?_⟩
  have hrun : ∀ (es : List Event) (p : Party), (∀ e ∈ es, e.moves side) →
      p.peerGone = (y.session side.other).ended.isSome →
      es.foldl step (y.put side p) = y.put side (es.foldl act p) := by
    intro es
    induction es with
    | nil => exact fun _ _ _ => rfl
    | cons e es ih =>
        intro p hes hgone
        have hside : e.side = side := by
          have hmoves := hes e List.mem_cons_self
          cases e with
          | poll _ _ _ _ => exact hmoves
          | call _ _ => exact hmoves
          | text _ _ _ => exact hmoves.elim
          | close _ _ => exact hmoves.elim
        have hstep : step (y.put side p) e = y.put side (act p e) := by
          unfold step
          rw [hside, party_put, put_put, ← hgone]
        rw [List.foldl_cons, List.foldl_cons, hstep]
        exact ih _ (fun e he => hes e (List.mem_cons_of_mem _ he)) ((act_peerGone p e).trans hgone)
  have hall := hrun es (y.party side) hes rfl
  rw [put_party] at hall
  exact hall

/-- What the sessions of a chat promise for the texts of a side. -/
structure Delivered (y : Talk) (side : Side) : Prop where
  /-- The other side has reported texts as they were accepted, in their order, each once. -/
  intact : (y.session side.other).emitted <+: (y.session side).accepted
  /-- All of them are reported where nothing is on its way. -/
  whole : pending (y.session side) = [] → y.wire side = [] → unread (y.session side.other) = [] →
    (y.session side.other).emitted = (y.session side).accepted
  /-- As long as neither side has ended, some polls bring what has been accepted. -/
  arrives : (y.session side).ended = none → (y.session side.other).ended = none →
    ∃ es : List Event, (∀ e ∈ es, e.moves side ∨ e.moves side.other) ∧
      ((es.foldl step y).session side.other).emitted = (y.session side).accepted
  kept : (y.session side.other).ended ≠ some overlong

theorem other_other (side : Side) : side.other.other = side := by
  cases side <;> rfl

theorem wire_put (y : Talk) (side : Side) (p : Party) : (y.put side p).wire side.other = p.inbox := by
  cases side <;> rfl

theorem Flows.arrives (h : Flows y) (side : Side) (hrun : (y.session side).ended = none)
    (hother : (y.session side.other).ended = none) :
    ∃ es : List Event, (∀ e ∈ es, e.moves side ∨ e.moves side.other) ∧
      ((es.foldl Talk.step y).session side.other).emitted = (y.session side).accepted := by
  obtain ⟨p, hp, hsent, haccepted⟩ : ∃ p, Runs side (y.party side) p ∧ pending p.self = [] ∧
      p.self.accepted = (y.session side).accepted := sends_all (h.paired side) hrun
  have hflows := flows_put (hp.paired (h.paired side))
  have hpair := hflows.paired side.other
  have hrun' : ((y.put side p).session side.other).ended = none := by
    rw [session_put_other]
    exact hother
  obtain ⟨q, hq, hinbox, hunread⟩ : ∃ q, Runs side.other ((y.put side p).party side.other) q ∧
      q.inbox = [] ∧ unread q.self = [] := reads_all hpair hrun'
  obtain ⟨es, hes, hsend⟩ := lift hp
  obtain ⟨es', hes', hread⟩ := lift hq
  refine ⟨es ++ es', fun e he => (List.mem_append.mp he).imp (hes e) (hes' e), ?_⟩
  rw [List.foldl_append, hsend, hread]
  have hfinal := flows_put (hq.paired hpair) side
  have hsender : ((y.put side p).put side.other q).session side = p.self := by
    have hkept := session_put_other (y.put side p) side.other q
    rw [other_other, session_put] at hkept
    exact hkept
  have hwire := wire_put (y.put side p) side.other q
  rw [other_other, hinbox] at hwire
  rw [← haccepted, ← hsender]
  refine hfinal.whole ?_ hwire ?_
  · rw [hsender]
    exact hsent
  · rw [session_put]
    exact hunread

theorem Flows.delivered (h : Flows y) (side : Side) : Delivered y side where
  intact := by
    obtain ⟨rest, haccepted, -⟩ := (h side).way
    exact ⟨rest, haccepted.symm⟩
  whole := (h side).whole
  arrives := h.arrives side
  kept := (h side).kept

end Talk

/-! ### Every run -/

/-- Bytes that end no line are kept while there is room. -/
theorem readLine_append {s : Session} {data tail : List UInt8} (hdata : ∀ c ∈ data, c ≠ 0 ∧ c ≠ 10)
    (hroom : s.line.length + data.length ≤ blockSize - 1) :
    readLine s (data ++ tail) budget = readLine { s with line := s.line ++ data } tail budget := by
  induction data generalizing s with
  | nil => simp
  | cons c data ih =>
      obtain ⟨hzero, hlf⟩ := hdata c List.mem_cons_self
      rw [List.length_cons] at hroom
      have hguard : ¬ (decide (c = 0) || decide (blockSize - 1 ≤ s.line.length)) = true := by
        simp only [hzero, decide_false, Bool.false_or, decide_eq_true_eq]
        omega
      rw [List.cons_append, readLine, if_neg hguard, if_neg hlf]
      rw [ih (fun c hc => hdata c (List.mem_cons_of_mem _ hc))
        (by simp only [List.length_append, List.length_singleton]; omega)]
      simp

/-- Of the texts that are sent, those of one length are refused by the reader. -/
theorem refused_iff {r : Session} {connected : Bool} {text : Text}
    (hsend : sendable s connected text = true) (hrun : r.ended = none) (hline : r.line = []) :
    (readLine r (text.1 ++ [13, 10]) budget).ended = some overlong ↔ text.1.length = blockSize - 2 := by
  constructor
  · intro hover
    by_contra hlength
    have hreadable := readable_of_sendable hsend hlength
    have hway : Lib.Partway body 10 r.line (text.1 ++ [13, 10] ++ []) [text.1] := by
      rw [hline]
      exact ⟨by simp, by simp [body]⟩
    have hread : Read r (readLine r (text.1 ++ [13, 10]) budget) (text.1 ++ [13, 10]) [] [text.1] :=
      readLine_read hrun (fun t ht => by rw [List.mem_singleton.mp ht]; exact hreadable) hway
    rw [hread.running] at hover
    exact absurd hover (by simp)
  · intro hlength
    have hlf : 10 ∉ text.1 := by
      unfold sendable at hsend
      simp only [Bool.and_eq_true, decide_eq_true_eq, Bool.not_eq_true', List.contains_eq_mem,
        decide_eq_false_iff_not] at hsend
      exact hsend.1.2
    have hbytes : ∀ c ∈ body text.1, c ≠ 0 ∧ c ≠ 10 := by
      intro c hc
      rcases List.mem_append.mp hc with hc | hc
      · exact ⟨fun h => text.2 (h ▸ hc), fun h => hlf (h ▸ hc)⟩
      · rw [List.mem_singleton.mp hc]
        decide
    have hfull : (body text.1).length = blockSize - 1 := by
      simp [body, hlength, blockSize]
    have hsplit : text.1 ++ [13, 10] = body text.1 ++ [10] := by simp [body]
    rw [hsplit, readLine_append hbytes (by rw [hline, hfull]; simp), hline, List.nil_append]
    simp [readLine, hfull, finish, overlong]

open Talk in
/-- As long as no text is sent that has the one length which only the sender takes, all texts arrive;
and this is the one length at which the two sides disagree. -/
theorem delivered_run (deadline deadline' : Nat) :
    (∀ es, Lib.Along step Brief (offered deadline deadline') es →
      ∀ side, Delivered (es.foldl step (offered deadline deadline')) side) ∧
    ∀ s connected text, sendable s connected text = true → ∀ r budget, r.ended = none → r.line = [] →
      ((readLine r (text.1 ++ [13, 10]) budget).ended = some overlong ↔
        text.1.length = blockSize - 2) := by
  refine ⟨fun es hbrief side => ?_, fun s connected text hsend r budget hrun hline =>
    refused_iff hsend hrun hline⟩
  have hflows := hbrief.invariant (P := Flows) (flows_offered deadline deadline')
    fun y e h hbrief => h.step hbrief
  exact hflows.delivered side

/-- Both sides come up, and a text is given to the one that was called. -/
def speaks (text : Text) : List Event :=
  [.poll .offerer true 0 (.gives 0), .call .offerer .again, .call .offerer .again,
    .text .offerer true (some text), .poll .offerer true 0 .again, .call .offerer (.gives 5000),
    .poll .accepter true 0 (.gives 0), .call .accepter .again, .call .accepter (.gives 5000)]

def hi : Text := ⟨[104, 105], by decide⟩

theorem delivered_run_hi : Talk.Delivered ((speaks hi).foldl Talk.step (Talk.offered 1 1)) .offerer :=
  (delivered_run 1 1).1 (speaks hi)
    ⟨trivial, trivial, trivial, fun _ => by decide, trivial, trivial, trivial, trivial, trivial, trivial⟩
    .offerer

/-- A session that is up and between two polls. -/
def up : Session := ⟨.active, 0, [], 0, [], .away, none, [], []⟩

/-- What the side that was called has sent, when the other side asks for it. -/
theorem speaks_eq {text : Text} (h : sendable up true text = true) :
    (speaks text).foldl Talk.step (Talk.offered 1 1) =
      Talk.step ⟨{ up with place := .receive 0, accepted := [text.1] }, { up with place := .receive 0 },
        text.1 ++ [13, 10], []⟩ (.call .accepter (.gives 5000)) := by
  have hshort : text.1.length ≤ 4094 := by
    unfold sendable at h
    simp only [Bool.and_eq_true, decide_eq_true_eq] at h
    exact h.1.1.1.2
  have htaken : (text.1 ++ [13, 10]).take 5001 = text.1 ++ [13, 10] :=
    List.take_of_length_le (by simp; omega)
  have hopened : Talk.step (Talk.step (Talk.step (Talk.offered 1 1) (.poll .offerer true 0 (.gives 0)))
        (.call .offerer .again)) (.call .offerer .again) =
      ⟨up, ⟨.connecting, 1, [], 0, [], .away, none, [], []⟩, [], []⟩ := rfl
  have hsend : chatSend up true (some text) =
      (true, { up with tx := text.1 ++ [13, 10], accepted := [text.1] }) := by
    unfold chatSend
    simp only [h]
    rfl
  have hgiven : Talk.step ⟨up, ⟨.connecting, 1, [], 0, [], .away, none, [], []⟩, [], []⟩
        (.text .offerer true (some text)) =
      ⟨(chatSend up true (some text)).2, ⟨.connecting, 1, [], 0, [], .away, none, [], []⟩, [], []⟩ := rfl
  rw [hsend] at hgiven
  have hsent : Talk.step (Talk.step ⟨{ up with tx := text.1 ++ [13, 10], accepted := [text.1] },
        ⟨.connecting, 1, [], 0, [], .away, none, [], []⟩, [], []⟩ (.poll .offerer true 0 .again))
        (.call .offerer (.gives 5000)) =
      ⟨{ up with place := .receive 0, accepted := [text.1] },
        ⟨.connecting, 1, [], 0, [], .away, none, [], []⟩, text.1 ++ [13, 10], []⟩ := by
    simp [Talk.step, Talk.act, Talk.party, Talk.put, Talk.session, Talk.wire, Side.other, Event.side,
      poll, call, callFlush, flush, receive, up, htaken]
  simp only [speaks, List.foldl_cons, List.foldl_nil]
  rw [hopened, hgiven, hsent]
  rfl

/-- A text of the one length closes the session of the other side. -/
theorem speaks_closes {text : Text} (h : sendable up true text = true)
    (hlength : text.1.length = blockSize - 2) :
    ((speaks text).foldl Talk.step (Talk.offered 1 1)).offerer.accepted = [text.1] ∧
      ((speaks text).foldl Talk.step (Talk.offered 1 1)).accepter.ended = some overlong := by
  have hall : text.1 ++ [13, 10] ≠ [] := by simp
  have htaken : (text.1 ++ [13, 10]).take (min (5000 + 1) blockSize) = text.1 ++ [13, 10] :=
    List.take_of_length_le (by simp [hlength, blockSize])
  have hover : (readLine { up with place := .receive 0 } (text.1 ++ [13, 10]) 0).ended = some overlong :=
    (refused_iff h rfl rfl).mpr hlength
  rw [speaks_eq h]
  refine ⟨rfl, ?_⟩
  show (callReceive ⟨{ up with place := .receive 0 }, text.1 ++ [13, 10], [], false⟩ 0
    (.gives 5000)).self.ended = some overlong
  unfold callReceive
  simp only
  rw [if_neg hall, htaken]
  exact hover

/-- As many times `a` as the sender takes. -/
def longest : Text := ⟨List.replicate (blockSize - 2) 97, by simp [List.mem_replicate]⟩

theorem longest_length : longest.1.length = blockSize - 2 := List.length_replicate

theorem longest_sendable : sendable up true longest = true := by
  have hcr : longest.1.contains 13 = false := by simp [longest, List.mem_replicate]
  have hlf : longest.1.contains 10 = false := by simp [longest, List.mem_replicate]
  unfold sendable
  rw [longest_length, hcr, hlf]
  decide

/-- The longest text is sent, and closes the session of the other side. -/
theorem longest_closes :
    ((speaks longest).foldl Talk.step (Talk.offered 1 1)).offerer.accepted = [longest.1] ∧
      ((speaks longest).foldl Talk.step (Talk.offered 1 1)).accepter.ended = some overlong ∧
      ¬ Talk.Delivered ((speaks longest).foldl Talk.step (Talk.offered 1 1)) .offerer := by
  have hkept : ∀ y : Talk, y.accepter.ended = some overlong → ¬ y.Delivered .offerer :=
    fun y hclosed h => h.kept hclosed
  obtain ⟨haccepted, hclosed⟩ := speaks_closes longest_sendable longest_length
  exact ⟨haccepted, hclosed, hkept _ hclosed⟩

end Dcc.Chat

end RustyRig
