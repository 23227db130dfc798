/-
What a server sees of the negotiation, whatever it sends and whenever.

The loops over the tokens of a message leave the three flags of the negotiation alone (`Quiet`), so a step
is one of few: `Move` says what each of them sends and does to the flags.  From that the lines of a run
keep to one exchange (`Phase`), a wait has a deadline, and what is over stays over.
-/
import RustyRig.Librustyirc.Capabilities

namespace RustyRig

namespace Irc

namespace Capabilities

open Lib

variable {c : Client} {w w' : World} {s s' : CapState} {now : Nat} {l : Line}

/-! ### The loops over the tokens -/

/-- The flags of the negotiation are the same; the deadline is too, or it is new. -/
structure Quiet (now : Nat) (s s' : CapState) : Prop where
  negotiating : s'.negotiating = s.negotiating
  wait : s'.sasl_wait = s.sasl_wait
  sent : s'.sasl_sent = s.sasl_sent
  deadline : s'.sasl_deadline = s.sasl_deadline ∨ s'.sasl_deadline = now + 30000

theorem Quiet.refl (now : Nat) (s : CapState) : Quiet now s s := ⟨rfl, rfl, rfl, Or.inl rfl⟩

theorem Quiet.trans {t : CapState} (h : Quiet now s s') (h' : Quiet now s' t) : Quiet now s t where
  negotiating := h'.negotiating.trans h.negotiating
  wait := h'.wait.trans h.wait
  sent := h'.sent.trans h.sent
  deadline := by
    rcases h'.deadline with hsame | hnew
    · rw [hsame]
      exact h.deadline
    · exact Or.inr hnew

theorem quiet_foldl {f : CapState → Text → CapState} (h : ∀ s token, Quiet now s (f s token)) (tokens : List Text) :
    ∀ s : CapState, Quiet now s (tokens.foldl f s) := by
  induction tokens with
  | nil => exact fun s => Quiet.refl now s
  | cons token tokens ih => exact fun s => (h s token).trans (ih (f s token))

theorem quiet_takePrefix (s : CapState) (value : Text) : Quiet now s (takePrefix s value) := by
  unfold takePrefix
  dsimp only
  split_ifs <;> exact ⟨rfl, rfl, rfl, Or.inl rfl⟩

theorem quiet_isupportToken (s : CapState) (token : Text) : Quiet now s (isupportToken s token) := by
  unfold isupportToken
  dsimp only
  by_cases hskip : (nameOf (undash token).2).map toUpper = [] ∨
      IRC_MSGLEN + 1 ≤ ((nameOf (undash token).2).map toUpper).length
  · rw [if_pos hskip]
    exact Quiet.refl now s
  rw [if_neg hskip]
  generalize (if (undash token).1 = true then s.properties.del ((nameOf (undash token).2).map toUpper)
    else s.properties.add ((nameOf (undash token).2).map toUpper) (valueOf (undash token).2)) = properties
  have hproperties : Quiet now s { s with properties := properties } := ⟨rfl, rfl, rfl, Or.inl rfl⟩
  split_ifs
  · exact ⟨rfl, rfl, rfl, Or.inl rfl⟩
  · exact ⟨rfl, rfl, rfl, Or.inl rfl⟩
  · exact hproperties.trans (quiet_takePrefix _ _)
  · exact ⟨rfl, rfl, rfl, Or.inl rfl⟩
  · exact hproperties

theorem quiet_capabToken (s : CapState) (token : Text) : Quiet now s (capabToken s token) := by
  unfold capabToken
  dsimp only
  split_ifs <;> exact ⟨rfl, rfl, rfl, Or.inl rfl⟩

theorem quiet_beginLists (s : CapState) (listing listing_enabled more : Bool) :
    Quiet now s (beginLists s listing listing_enabled more) := by
  unfold beginLists
  dsimp only
  split_ifs <;> exact ⟨rfl, rfl, rfl, Or.inl rfl⟩

theorem quiet_capToken (c : Client) (command : Text) (s : CapState) (token : Text) :
    Quiet now s (capToken c now command s token) := by
  have hrecord : ∀ remove key value, Quiet now s (record command remove key value s) := by
    intro remove key value
    unfold record
    split_ifs <;> exact ⟨rfl, rfl, rfl, Or.inl rfl⟩
  have hoffered : ∀ key (t : CapState), Quiet now t (offered c now command key t) := by
    intro key t
    unfold offered
    split_ifs
    · exact ⟨rfl, rfl, rfl, Or.inr rfl⟩
    · exact Quiet.refl now t
  have hrequest : ∀ remove key (t : CapState), Quiet now t (request c command remove key t) := by
    intro remove key t
    unfold request
    dsimp only
    split_ifs <;> exact ⟨rfl, rfl, rfl, Or.inl rfl⟩
  unfold capToken
  dsimp only
  split_ifs
  · exact Quiet.refl now s
  · exact ((hrecord _ _ _).trans (hoffered _ _)).trans (hrequest _ _ _)

/-! ### What a step sends -/

/-- Lines that the response to a challenge consists of, or as many of them as went out. -/
def Answers (c : Client) (lines : List Sasl.Text) : Prop :=
  ∃ k ok, k.credentials = c.credentials ∧ Sasl.saslResponse k = some (ok, lines)

/-- The mechanism of a client. -/
def external (c : Client) : Bool := Sasl.sameName c.credentials.mechanism Sasl.EXTERNAL

/-- What one event sends and does to the flags. -/
inductive Move (c : Client) (now : Nat) (w w' : World) : Prop
  | quiet (lines : w'.sent = w.sent) (caps : Quiet now w.caps w'.caps)
  | ask (requests : Text) (negotiating : w.caps.negotiating = true)
      (lines : w'.sent = w.sent ++ [.capReq requests]) (caps : Quiet now w.caps w'.caps)
  | close (lines : w'.sent = w.sent ∨ (w.caps.negotiating = true ∧ w'.sent = w.sent ++ [.capEnd]))
      (closed : w'.caps.negotiating = false) (wait : w'.caps.sasl_wait = w.caps.sasl_wait)
      (sent : w'.caps.sasl_sent = w.caps.sasl_sent)
      (deadline : w'.caps.sasl_deadline = w.caps.sasl_deadline ∨ w'.caps.sasl_deadline = now + 30000)
  | start (negotiating : w.caps.negotiating = true) (idle : w.caps.sasl_wait = false)
      (lines : w'.sent = w.sent ++ [.mechanism (external c)]) (still : w'.caps.negotiating = true)
      (wait : w'.caps.sasl_wait = true) (sent : w'.caps.sasl_sent = w.caps.sasl_sent)
      (deadline : w'.caps.sasl_deadline = now + 30000)
  | answer (text : List Sasl.Text) (waited : w.caps.sasl_wait = true) (first : w.caps.sasl_sent = false)
      (answers : Answers c text) (lines : w'.sent = w.sent ++ text.map Line.response)
      (still : w'.caps.negotiating = w.caps.negotiating) (wait : w'.caps.sasl_wait = true)
      (sent : w'.caps.sasl_sent = true)
      (deadline : w'.caps.sasl_deadline = w.caps.sasl_deadline ∨ w'.caps.sasl_deadline = now + 30000)
  | finish (text : List Sasl.Text) (tail closing : List Line)
      (answers : text = [] ∨ (w.caps.sasl_wait = true ∧ w.caps.sasl_sent = false ∧ Answers c text))
      (aborts : tail = [] ∨ (tail = [.abort] ∧ w.caps.sasl_wait = true))
      (ends : closing = [] ∨ (closing = [.capEnd] ∧ w.caps.negotiating = true))
      (lines : w'.sent = w.sent ++ (text.map Line.response ++ (tail ++ closing)))
      (closed : w'.caps.negotiating = false) (wait : w'.caps.sasl_wait = false)
      (sent : w'.caps.sasl_sent = w.caps.sasl_sent) (deadline : w'.caps.sasl_deadline = 0)

theorem send_cases (c : Client) (w : World) (l : Line) :
    send c w l = (true, { w with sent := w.sent ++ [l] }) ∨ send c w l = (false, w) := by
  unfold send
  cases connectionSend (lineLimit (w.caps.properties.get (ascii "LINELEN"))) l.text with
  | none => exact Or.inr rfl
  | some wire =>
      simp only
      split_ifs
      · exact Or.inl rfl
      · exact Or.inr rfl

/-- Sending leaves the state alone. -/
theorem send_caps (c : Client) (w : World) (l : Line) : (send c w l).2.caps = w.caps := by
  rcases send_cases c w l with h | h <;> rw [h]

theorem send_sent (c : Client) (w : World) (l : Line) :
    (send c w l).2.sent = w.sent ∨ (send c w l).2.sent = w.sent ++ [l] := by
  rcases send_cases c w l with h | h
  · exact Or.inr (by rw [h])
  · exact Or.inl (by rw [h])

theorem saslResponse_spec (c : Client) (w : World) : ∃ text, (text = [] ∨ Answers c text) ∧
    (saslResponse c w).2 = { w with sent := w.sent ++ text.map Line.response } ∧
    ((saslResponse c w).1 = true → Answers c text) := by
  unfold saslResponse
  cases hresponse : Sasl.saslResponse (responder c w) with
  | none => exact ⟨[], Or.inl rfl, by simp, by simp⟩
  | some answer =>
      obtain ⟨ok, lines⟩ := answer
      have hanswers : Answers c lines := ⟨responder c w, ok, rfl, hresponse⟩
      exact ⟨lines, Or.inr hanswers, rfl, fun _ => hanswers⟩

theorem saslFinish_spec (c : Client) (w : World) (result : Option Notice) : ∃ closing,
    (closing = [] ∨ (closing = [Line.capEnd] ∧ w.caps.negotiating = true)) ∧
    (saslFinish c w result).sent = w.sent ++ closing ∧ (saslFinish c w result).caps.negotiating = false ∧
    (saslFinish c w result).caps.sasl_wait = false ∧ (saslFinish c w result).caps.sasl_sent = w.caps.sasl_sent ∧
    (saslFinish c w result).caps.sasl_deadline = 0 := by
  unfold saslFinish
  dsimp only
  by_cases hopen : w.caps.negotiating = true
  · simp only [if_pos hopen, send_caps]
    rcases send_sent c { w with caps := { w.caps with sasl_wait := false, sasl_deadline := 0 } } .capEnd with h | h
    · exact ⟨[], Or.inl rfl, by rw [h, List.append_nil], trivial, trivial, trivial, trivial⟩
    · exact ⟨[.capEnd], Or.inr ⟨rfl, hopen⟩, h, trivial, trivial, trivial, trivial⟩
  · simp only [if_neg hopen]
    exact ⟨[], Or.inl rfl, by rw [List.append_nil], by simpa using hopen, trivial, trivial, trivial⟩

/-- The end of a wait, or of the negotiation without one. -/
theorem move_finish (result : Option Notice) : Move c now w (saslFinish c w result) := by
  obtain ⟨closing, hends, hlines, hclosed, hwait, hsent, hdeadline⟩ := saslFinish_spec c w result
  exact Move.finish [] [] closing (Or.inl rfl) (Or.inl rfl) hends (by simpa using hlines) hclosed hwait hsent hdeadline

theorem move_poll (c : Client) (w : World) (now : Nat) : Move c now w (poll c w now) := by
  unfold poll
  by_cases hdue : w.caps.sasl_deadline ≠ 0 ∧ w.caps.sasl_deadline ≤ now
  · rw [if_pos hdue]
    by_cases hwait : w.caps.sasl_wait = true
    · simp only [if_pos hwait]
      obtain ⟨closing, hends, hlines, hclosed, hidle, hsame, hdeadline⟩ :=
        saslFinish_spec c (send c w .abort).2 (some .timedOut)
      rw [send_caps] at hends hsame
      rcases send_sent c w .abort with h | h
      · exact Move.finish [] [] closing (Or.inl rfl) (Or.inl rfl) hends (by rw [hlines, h]; rfl) hclosed hidle hsame hdeadline
      · exact Move.finish [] [.abort] closing (Or.inl rfl) (Or.inr ⟨rfl, hwait⟩) hends
          (by rw [hlines, h, List.append_assoc]; rfl) hclosed hidle hsame hdeadline
    · simp only [if_neg hwait]
      exact move_finish (some .timedOut)
  · rw [if_neg hdue]
    exact Move.quiet rfl (Quiet.refl now w.caps)

theorem move_challenged (hwait : w.caps.sasl_wait = true) (challenge : Text) :
    Move c now w (challenged c w challenge) := by
  unfold challenged
  by_cases hwrong : w.caps.sasl_sent = true ∨ challenge ≠ ascii "+"
  · simp only [if_pos hwrong, Bool.false_eq_true, if_false]
    obtain ⟨closing, hends, hlines, hclosed, hidle, hsame, hdeadline⟩ :=
      saslFinish_spec c (send c w .abort).2 (some .aborted)
    rw [send_caps] at hends hsame
    rcases send_sent c w .abort with h | h
    · exact Move.finish [] [] closing (Or.inl rfl) (Or.inl rfl) hends (by rw [hlines, h]; rfl) hclosed hidle hsame hdeadline
    · exact Move.finish [] [.abort] closing (Or.inl rfl) (Or.inr ⟨rfl, hwait⟩) hends
        (by rw [hlines, h, List.append_assoc]; rfl) hclosed hidle hsame hdeadline
  · have hfirst : w.caps.sasl_sent = false := by
      rw [not_or] at hwrong
      simpa using hwrong.1
    simp only [if_neg hwrong]
    obtain ⟨text, htext, hworld, hok⟩ := saslResponse_spec c w
    by_cases hsent : (saslResponse c w).1 = true
    · rw [if_pos hsent, hworld]
      exact Move.answer text hwait hfirst (hok hsent) rfl rfl hwait rfl (Or.inl rfl)
    · rw [if_neg hsent, hworld]
      have hanswers : text = [] ∨ (w.caps.sasl_wait = true ∧ w.caps.sasl_sent = false ∧ Answers c text) :=
        htext.imp_right fun h => ⟨hwait, hfirst, h⟩
      generalize hmiddle : ({ w with sent := w.sent ++ text.map Line.response } : World) = v
      have hcaps : v.caps = w.caps := by rw [← hmiddle]
      have hlines : v.sent = w.sent ++ text.map Line.response := by rw [← hmiddle]
      obtain ⟨closing, hends, hfinish, hclosed, hidle, hsame, hdeadline⟩ :=
        saslFinish_spec c (send c v .abort).2 (some .aborted)
      rw [send_caps, hcaps] at hends hsame
      rcases send_sent c v .abort with h | h
      · exact Move.finish text [] closing hanswers (Or.inl rfl) hends
          (by rw [hfinish, h, hlines, List.append_assoc]; rfl) hclosed hidle hsame hdeadline
      · exact Move.finish text [.abort] closing hanswers (Or.inr ⟨rfl, hwait⟩) hends
          (by rw [hfinish, h, hlines, List.append_assoc, List.append_assoc]) hclosed hidle hsame hdeadline

/-- A move that begins once the tokens were read. -/
theorem Move.after {v : World} (hlines : v.sent = w.sent) (h : Quiet now w.caps v.caps) (hmove : Move c now v w') :
    Move c now w w' := by
  cases hmove with
  | quiet lines caps => exact Move.quiet (lines.trans hlines) (h.trans caps)
  | ask requests negotiating lines caps =>
      rw [h.negotiating] at negotiating
      rw [hlines] at lines
      exact Move.ask requests negotiating lines (h.trans caps)
  | close lines closed wait sent deadline =>
      rw [h.negotiating, hlines] at lines
      refine Move.close lines closed (wait.trans h.wait) (sent.trans h.sent) ?_
      rcases deadline with hsame | hnew
      · rw [hsame]
        exact h.deadline
      · exact Or.inr hnew
  | start negotiating idle lines still wait sent deadline =>
      rw [h.negotiating] at negotiating
      rw [h.wait] at idle
      rw [hlines] at lines
      exact Move.start negotiating idle lines still wait (sent.trans h.sent) deadline
  | answer text waited first answers lines still wait sent deadline =>
      rw [h.wait] at waited
      rw [h.sent] at first
      rw [hlines] at lines
      refine Move.answer text waited first answers lines (still.trans h.negotiating) wait sent ?_
      rcases deadline with hsame | hnew
      · rw [hsame]
        exact h.deadline
      · exact Or.inr hnew
  | finish text tail closing answers aborts ends lines closed wait sent deadline =>
      rw [h.wait, h.sent] at answers
      rw [h.wait] at aborts
      rw [h.negotiating] at ends
      rw [hlines] at lines
      exact Move.finish text tail closing answers aborts ends lines closed wait (sent.trans h.sent) deadline

theorem move_capListed (hopen : w.caps.negotiating = true) : Move c now w (capListed c w) := by
  unfold capListed
  dsimp only
  generalize hnoticed : (if saslConfigured c = true ∧ w.caps.capabilities.get (ascii "sasl") = none then
    ({ w with told := w.told ++ [.notAdvertised] } : World) else w) = v
  have hcaps : v.caps = w.caps := by
    rw [← hnoticed]
    split_ifs <;> rfl
  have hlines : v.sent = w.sent := by
    rw [← hnoticed]
    split_ifs <;> rfl
  rw [← hcaps] at hopen
  refine Move.after hlines (by rw [hcaps]; exact Quiet.refl now w.caps) ?_
  split_ifs
  · have hquiet : Quiet now v.caps (send c v (.capReq v.caps.requests)).2.caps := by
      rw [send_caps]
      exact Quiet.refl now v.caps
    rcases send_sent c v (.capReq v.caps.requests) with h | h
    · exact Move.quiet h hquiet
    · exact Move.ask v.caps.requests hopen h hquiet
  · refine Move.close ?_ rfl ?_ ?_ ?_
    · exact (send_sent c v .capEnd).imp_right fun h => ⟨hopen, h⟩
    · simp only [send_caps]
    · simp only [send_caps]
    · simp only [send_caps]
      exact Or.inl trivial

theorem move_capAnswered (hopen : w.caps.negotiating = true) (command : Text) :
    Move c now w (capAnswered c w now command).2 := by
  unfold capAnswered
  dsimp only
  split_ifs with hother hwait hack hsent
  · exact Move.quiet rfl (Quiet.refl now w.caps)
  · exact Move.quiet rfl (Quiet.refl now w.caps)
  · rcases send_cases c w (.mechanism (Sasl.sameName c.credentials.mechanism Sasl.EXTERNAL)) with h | h
    · rw [h]
      exact Move.start hopen (by simpa using hwait) rfl hopen rfl rfl rfl
    · rw [h] at hsent
      exact absurd hsent (by simp)
  · rcases send_cases c w (.mechanism (Sasl.sameName c.credentials.mechanism Sasl.EXTERNAL)) with h | h
    · rw [h] at hsent
      exact absurd rfl hsent
    · rw [h]
      exact move_finish (some .unableToStart)
  · exact move_finish (some .rejected)
  · exact move_finish none

theorem move_capMessage (c : Client) (w : World) (now : Nat) (argv : List Text) :
    Move c now w (capMessage c w now argv).2 := by
  unfold capMessage
  dsimp only
  generalize (decide (5 ≤ argv.length) && decide (argv.getD 3 [] = ascii "*")) = more
  generalize argv.getD 2 [] = command
  generalize blankTokens (argv.getD (argv.length - 1) []) = tokens
  have hquiet : Quiet now w.caps (tokens.foldl (capToken c now command)
      (beginLists w.caps (same command (ascii "LS")) (same command (ascii "LIST")) more)) :=
    (quiet_beginLists w.caps _ _ more).trans (quiet_foldl (fun s token => quiet_capToken c command s token) tokens _)
  generalize tokens.foldl (capToken c now command)
    (beginLists w.caps (same command (ascii "LS")) (same command (ascii "LIST")) more) = caps at hquiet
  have hafter : ∀ {w'}, Move c now { w with caps := caps } w' → Move c now w w' := fun h =>
    Move.after (v := { w with caps := caps }) rfl hquiet h
  split_ifs with hlisted hanswered
  · exact hafter (move_capListed hlisted.1)
  · exact hafter (move_capAnswered hanswered.1 command)
  · exact Move.quiet rfl hquiet

theorem move_otherMessage (c : Client) (w : World) (now : Nat) (argv : List Text) :
    Move c now w (otherMessage c w now argv) := by
  have htold : ∀ {v : World} (p : Prop) [Decidable p], Move c now w v →
      Move c now w (if p then { v with told := v.told ++ [.capabilities] } else v) := by
    intro v p _ h
    split_ifs
    · cases h with
      | quiet lines caps => exact Move.quiet lines caps
      | ask requests negotiating lines caps => exact Move.ask requests negotiating lines caps
      | close lines closed wait sent deadline => exact Move.close lines closed wait sent deadline
      | start negotiating idle lines still wait sent deadline =>
          exact Move.start negotiating idle lines still wait sent deadline
      | answer text waited first answers lines still wait sent deadline =>
          exact Move.answer text waited first answers lines still wait sent deadline
      | finish text tail closing answers aborts ends lines closed wait sent deadline =>
          exact Move.finish text tail closing answers aborts ends lines closed wait sent deadline
    · exact h
  unfold otherMessage
  dsimp only
  refine htold _ ?_
  split_ifs
  · exact Move.quiet rfl (quiet_foldl quiet_isupportToken _ w.caps)
  · exact move_capMessage c w now argv
  · exact Move.quiet rfl (quiet_foldl quiet_capabToken _ w.caps)
  · exact Move.close (Or.inl rfl) rfl rfl rfl (Or.inl rfl)
  · exact Move.quiet rfl (Quiet.refl now w.caps)

theorem move_step (c : Client) (w : World) (now : Nat) (e : Event) : Move c now w (step c w now e) := by
  cases e with
  | poll => exact move_poll c w now
  | message m =>
      unfold step message
      dsimp only
      split_ifs with hshort hchallenge
      · exact Move.quiet rfl (Quiet.refl now w.caps)
      · exact move_challenged hchallenge.1 _
      · exact move_finish (some .successful)
      · exact move_finish (some .failed)
      · exact move_otherMessage c w now m.argv

/-! ### The exchange -/

/-- The lines of SASL. -/
def Line.ofSasl : Line → Bool
  | .capReq _ => false
  | .capEnd => false
  | .mechanism _ => true
  | .response _ => true
  | .abort => true

/-- What may still be sent behind `CAP END`. -/
def Late (l : Line) : Prop := l = .abort ∨ ∃ text, l = .response text

/-- Nothing is asked for behind `CAP END`. -/
def Closed (lines : List Line) : Prop := lines.Pairwise fun a b => a = .capEnd → Late b

/-- How far SASL has come: the flags, and the lines of it that were sent. -/
inductive Stage (c : Client) (s : CapState) : List Line → Prop
  | idle (wait : s.sasl_wait = false) (sent : s.sasl_sent = false) : Stage c s []
  | waiting (wait : s.sasl_wait = true) (sent : s.sasl_sent = false) : Stage c s [.mechanism (external c)]
  | answered (text : List Sasl.Text) (answers : Answers c text) (wait : s.sasl_wait = true)
      (sent : s.sasl_sent = true) : Stage c s (.mechanism (external c) :: text.map .response)
  | ended (text : List Sasl.Text) (tail : List Line) (answers : text = [] ∨ Answers c text)
      (aborts : tail = [] ∨ tail = [.abort]) (wait : s.sasl_wait = false) (closed : s.negotiating = false) :
      Stage c s (.mechanism (external c) :: (text.map .response ++ tail))

/-- What holds of a connection all along. -/
structure Phase (c : Client) (w : World) : Prop where
  closed : Closed w.sent
  opening : w.caps.negotiating = true → .capEnd ∉ w.sent
  stage : Stage c w.caps (w.sent.filter Line.ofSasl)
  deadline : w.caps.sasl_wait = true → w.caps.sasl_deadline ≠ 0

theorem not_late_capEnd : ¬ Late .capEnd := by
  rintro (h | ⟨text, h⟩)
  · exact Line.noConfusion h
  · exact Line.noConfusion h

/-- Lines of which none asks for anything, behind any. -/
theorem Closed.late {lines new : List Line} (h : Closed lines) (hnew : ∀ l ∈ new, Late l) : Closed (lines ++ new) := by
  refine List.pairwise_append.mpr ⟨h, ?_, fun a _ b hb _ => hnew b hb⟩
  exact List.Pairwise.imp_of_mem (fun _ hb _ _ => hnew _ hb) (List.pairwise_of_forall (R := fun _ _ => True) fun _ _ => trivial)

/-- Any line, as long as there was no `CAP END`. -/
theorem Closed.single {lines : List Line} (h : Closed lines) (hnone : .capEnd ∉ lines) (l : Line) :
    Closed (lines ++ [l]) :=
  List.pairwise_append.mpr ⟨h, List.pairwise_singleton _ l, fun _ ha _ _ hend => absurd (hend ▸ ha) hnone⟩

/-- `CAP END` goes out once at most. -/
theorem Closed.count_le {lines : List Line} (h : Closed lines) : lines.count .capEnd ≤ 1 := by
  unfold Closed at h
  induction h with
  | nil => simp
  | @cons a lines hlate _ ih =>
      by_cases ha : a = .capEnd
      · have hnone : Line.capEnd ∉ lines := fun hmem => not_late_capEnd (hlate _ hmem ha)
        rw [ha, List.count_cons_self, List.count_eq_zero_of_not_mem hnone]
      · rw [List.count_cons_of_ne ha]
        exact ih

/-- The flags are the same, or nothing but the end of the negotiation is. -/
theorem Stage.congr {lines : List Line} (h : Stage c s lines) (hwait : s'.sasl_wait = s.sasl_wait)
    (hsent : s'.sasl_sent = s.sasl_sent) (hnegotiating : s.negotiating = false → s'.negotiating = false) :
    Stage c s' lines := by
  cases h with
  | idle wait sent => exact Stage.idle (hwait.trans wait) (hsent.trans sent)
  | waiting wait sent => exact Stage.waiting (hwait.trans wait) (hsent.trans sent)
  | answered text answers wait sent => exact Stage.answered text answers (hwait.trans wait) (hsent.trans sent)
  | ended text tail answers aborts wait closed =>
      exact Stage.ended text tail answers aborts (hwait.trans wait) (hnegotiating closed)

theorem filter_responses (text : List Sasl.Text) :
    (text.map Line.response).filter Line.ofSasl = text.map Line.response := by
  refine List.filter_eq_self.mpr fun l hl => ?_
  obtain ⟨line, -, rfl⟩ := List.mem_map.mp hl
  rfl

theorem late_responses {text : List Sasl.Text} : ∀ l ∈ text.map Line.response, Late l := by
  intro l hl
  obtain ⟨line, -, rfl⟩ := List.mem_map.mp hl
  exact Or.inr ⟨line, rfl⟩

/-- The wait ends, or the negotiation does without one. -/
theorem stage_finish {lines : List Line} {text : List Sasl.Text} {tail : List Line} (h : Stage c s lines)
    (answers : text = [] ∨ (s.sasl_wait = true ∧ s.sasl_sent = false ∧ Answers c text))
    (aborts : tail = [] ∨ (tail = [.abort] ∧ s.sasl_wait = true)) (hwait : s'.sasl_wait = false)
    (hsent : s'.sasl_sent = s.sasl_sent) (hclosed : s'.negotiating = false) :
    Stage c s' (lines ++ (text.map Line.response ++ tail)) := by
  have habort : tail = [] ∨ tail = [.abort] := aborts.imp_right fun h => h.1
  cases h with
  | idle wait sent =>
      have htext : text = [] := answers.resolve_right fun h => by simp [wait] at h
      have htail : tail = [] := aborts.resolve_right fun h => by simp [wait] at h
      rw [htext, htail]
      exact Stage.idle hwait (hsent.trans sent)
  | waiting wait sent =>
      exact Stage.ended text tail (answers.imp_right fun h => h.2.2) habort hwait hclosed
  | answered past answered wait sent =>
      have htext : text = [] := answers.resolve_right fun h => by simp [sent] at h
      rw [htext]
      exact Stage.ended past tail (Or.inr answered) habort hwait hclosed
  | ended past before answered aborted wait closed =>
      have htext : text = [] := answers.resolve_right fun h => by simp [wait] at h
      have htail : tail = [] := aborts.resolve_right fun h => by simp [wait] at h
      rw [htext, htail, List.map_nil, List.append_nil, List.append_nil]
      exact Stage.ended past before answered aborted hwait hclosed

/-- A deadline that stays or is new is one. -/
theorem due {old new : Nat} (h : new = old ∨ new = now + 30000) (hold : old ≠ 0) : new ≠ 0 := by
  rcases h with rfl | rfl
  · exact hold
  · omega

theorem phase_move (h : Phase c w) (hmove : Move c now w w') : Phase c w' := by
  cases hmove with
  | quiet lines caps =>
      refine ⟨by rw [lines]; exact h.closed, fun hopen => ?_, ?_, fun hwait => ?_⟩
      · rw [lines]
        exact h.opening (caps.negotiating.symm.trans hopen)
      · rw [lines]
        exact h.stage.congr caps.wait caps.sent fun hclosed => caps.negotiating.trans hclosed
      · exact due caps.deadline (h.deadline (caps.wait.symm.trans hwait))
  | ask requests negotiating lines caps =>
      have hnone := h.opening negotiating
      refine ⟨by rw [lines]; exact h.closed.single hnone _, fun _ => ?_, ?_, fun hwait => ?_⟩
      · rw [lines]
        simpa using hnone
      · rw [lines, List.filter_append]
        exact (List.append_nil _).symm ▸
          h.stage.congr caps.wait caps.sent fun hclosed => caps.negotiating.trans hclosed
      · exact due caps.deadline (h.deadline (caps.wait.symm.trans hwait))
  | close lines closed wait sent deadline =>
      have hstage : Stage c w'.caps (w.sent.filter Line.ofSasl) := h.stage.congr wait sent fun _ => closed
      have hdeadline : w'.caps.sasl_wait = true → w'.caps.sasl_deadline ≠ 0 :=
        fun hwait => due deadline (h.deadline (wait.symm.trans hwait))
      have hopening : w'.caps.negotiating = true → Line.capEnd ∉ w'.sent :=
        fun hopen => absurd (hopen.symm.trans closed) Bool.noConfusion
      rcases lines with lines | ⟨hopen, lines⟩
      · exact ⟨by rw [lines]; exact h.closed, hopening, by rw [lines]; exact hstage, hdeadline⟩
      · refine ⟨by rw [lines]; exact h.closed.single (h.opening hopen) _, hopening, ?_, hdeadline⟩
        rw [lines, List.filter_append]
        exact (List.append_nil _).symm ▸ hstage
  | start negotiating idle lines still wait sent deadline =>
      have hnone := h.opening negotiating
      refine ⟨by rw [lines]; exact h.closed.single hnone _, fun _ => ?_, ?_,
        fun _ => due (Or.inr deadline) (Nat.succ_ne_zero 0)⟩
      · rw [lines]
        simpa using hnone
      · rw [lines, List.filter_append]
        have hstage := h.stage
        generalize w.sent.filter Line.ofSasl = before at hstage ⊢
        cases hstage with
        | idle _ first => exact Stage.waiting wait (sent.trans first)
        | waiting waited _ => exact absurd (waited.symm.trans idle) Bool.noConfusion
        | answered _ _ waited _ => exact absurd (waited.symm.trans idle) Bool.noConfusion
        | ended _ _ _ _ _ closed => exact absurd (negotiating.symm.trans closed) Bool.noConfusion
  | answer text waited first answers lines still wait sent deadline =>
      refine ⟨by rw [lines]; exact h.closed.late late_responses, fun hopen => ?_, ?_, fun _ => ?_⟩
      · rw [lines]
        have hnone := h.opening (still.symm.trans hopen)
        simpa using hnone
      · rw [lines, List.filter_append, filter_responses]
        have hstage := h.stage
        generalize w.sent.filter Line.ofSasl = before at hstage ⊢
        cases hstage with
        | idle idle _ => exact absurd (waited.symm.trans idle) Bool.noConfusion
        | waiting _ _ => exact Stage.answered text answers wait sent
        | answered _ _ _ answered => exact absurd (answered.symm.trans first) Bool.noConfusion
        | ended _ _ _ _ idle _ => exact absurd (waited.symm.trans idle) Bool.noConfusion
      · exact due deadline (h.deadline waited)
  | finish text tail closing answers aborts ends lines closed wait sent deadline =>
      have hlate : ∀ l ∈ text.map Line.response ++ tail, Late l := by
        intro l hl
        rcases List.mem_append.mp hl with hl | hl
        · exact late_responses l hl
        · rcases aborts with htail | ⟨htail, -⟩
          · rw [htail] at hl
            exact absurd hl List.not_mem_nil
          · rw [htail] at hl
            exact Or.inl (List.mem_singleton.mp hl)
      have hsasl : (text.map Line.response ++ tail).filter Line.ofSasl = text.map Line.response ++ tail := by
        rw [List.filter_append, filter_responses]
        rcases aborts with htail | ⟨htail, -⟩ <;> rw [htail] <;> rfl
      have hstage := stage_finish h.stage answers aborts wait sent closed
      have hclosed := h.closed.late hlate
      have hfront : w'.sent = w.sent ++ (text.map Line.response ++ tail) ++ closing := by
        rw [lines, List.append_assoc, List.append_assoc]
      refine ⟨?_, fun hopen => absurd (hopen.symm.trans closed) Bool.noConfusion, ?_,
        fun hwait => absurd (hwait.symm.trans wait) Bool.noConfusion⟩
      · rw [hfront]
        rcases ends with hends | ⟨hends, hopen⟩
        · rw [hends, List.append_nil]
          exact hclosed
        · rw [hends]
          refine hclosed.single ?_ _
          intro hmem
          rcases List.mem_append.mp hmem with hmem | hmem
          · exact h.opening hopen hmem
          · exact not_late_capEnd (hlate _ hmem)
      · have hnone : closing.filter Line.ofSasl = [] := by
          rcases ends with hends | ⟨hends, -⟩ <;> rw [hends] <;> rfl
        rw [hfront, List.filter_append, List.filter_append, hsasl, hnone, List.append_nil]
        exact hstage

theorem phase_run (c : Client) (events : List (Nat × Event)) : ∀ w, Phase c w → Phase c (run c w events) := by
  induction events with
  | nil => exact fun w h => h
  | cons e events ih => exact fun w h => ih _ (phase_move h (move_step c w e.1 e.2))

theorem phase_reset (c : Client) : Phase c World.reset where
  closed := List.Pairwise.nil
  opening := fun _ => List.not_mem_nil
  stage := Stage.idle rfl rfl
  deadline := fun hwait => absurd hwait (by decide)

/-! ### The end of it -/

/-- Neither the negotiation nor a wait is under way. -/
def Over (w : World) : Prop := w.caps.negotiating = false ∧ w.caps.sasl_wait = false

theorem over_move (h : Over w) (hmove : Move c now w w') : Over w' ∧ w'.sent = w.sent := by
  obtain ⟨hclosed, hidle⟩ := h
  cases hmove with
  | quiet lines caps => exact ⟨⟨caps.negotiating.trans hclosed, caps.wait.trans hidle⟩, lines⟩
  | ask requests negotiating lines caps => exact absurd (negotiating.symm.trans hclosed) Bool.noConfusion
  | close lines closed wait sent deadline =>
      refine ⟨⟨closed, wait.trans hidle⟩, lines.resolve_right fun h => ?_⟩
      exact absurd (h.1.symm.trans hclosed) Bool.noConfusion
  | start negotiating idle lines still wait sent deadline =>
      exact absurd (negotiating.symm.trans hclosed) Bool.noConfusion
  | answer text waited first answers lines still wait sent deadline =>
      exact absurd (waited.symm.trans hidle) Bool.noConfusion
  | finish text tail closing answers aborts ends lines closed wait sent deadline =>
      have htext : text = [] := answers.resolve_right fun h => absurd (h.1.symm.trans hidle) Bool.noConfusion
      have htail : tail = [] := aborts.resolve_right fun h => absurd (h.2.symm.trans hidle) Bool.noConfusion
      have hends : closing = [] := ends.resolve_right fun h => absurd (h.2.symm.trans hclosed) Bool.noConfusion
      refine ⟨⟨closed, wait⟩, ?_⟩
      rw [lines, htext, htail, hends, List.map_nil, List.append_nil, List.append_nil, List.append_nil]

theorem over_run (events : List (Nat × Event)) : ∀ w, Over w → (run c w events).sent = w.sent := by
  induction events with
  | nil => exact fun w _ => rfl
  | cons e events ih =>
      intro w h
      obtain ⟨hover, hsent⟩ := over_move h (move_step c w e.1 e.2)
      exact (ih _ hover).trans hsent

/-- A deadline is 30 seconds away at most. -/
theorem deadline_run {limit : Nat} (events : List (Nat × Event)) (htimes : ∀ e ∈ events, e.1 + 30000 ≤ limit) :
    ∀ w, w.caps.sasl_deadline ≤ limit → (run c w events).caps.sasl_deadline ≤ limit := by
  induction events with
  | nil => exact fun w h => h
  | cons e events ih =>
      intro w h
      refine ih (fun x hx => htimes x (List.mem_cons_of_mem e hx)) _ ?_
      have htime := htimes e List.mem_cons_self
      have hlater : ∀ {d : Nat}, (d = w.caps.sasl_deadline ∨ d = e.1 + 30000) → d ≤ limit := by
        rintro d (rfl | rfl)
        · exact h
        · exact htime
      cases move_step c w e.1 e.2 with
      | quiet lines caps => exact hlater caps.deadline
      | ask requests negotiating lines caps => exact hlater caps.deadline
      | close lines closed wait sent deadline => exact hlater deadline
      | start negotiating idle lines still wait sent deadline => exact hlater (Or.inr deadline)
      | answer text waited first answers lines still wait sent deadline => exact hlater deadline
      | finish text tail closing answers aborts ends lines closed wait sent deadline =>
          rw [deadline]
          exact Nat.zero_le limit

/-- Whatever the server sends, and whenever the connection is polled, it sends `CAP END` at most once and asks for
nothing behind it; and of SASL it sends at most the mechanism, then one response, then one abort, in this order. -/
theorem one_exchange (c : Client) (events : List (Nat × Event)) :
    let w := run c World.reset events
    w.sent.count .capEnd ≤ 1 ∧
      (∀ front back, w.sent = front ++ .capEnd :: back → ∀ l ∈ back, l = .abort ∨ ∃ text, l = .response text) ∧
      (w.caps.negotiating = true → .capEnd ∉ w.sent) ∧
      (w.sent.filter Line.ofSasl = [] ∨ ∃ text tail, (text = [] ∨ Answers c text) ∧ (tail = [] ∨ tail = [.abort]) ∧
        w.sent.filter Line.ofSasl = .mechanism (external c) :: (text.map Line.response ++ tail)) := by
  have h := phase_run c events World.reset (phase_reset c)
  refine ⟨h.closed.count_le, ?_, h.opening, ?_⟩
  · intro front back hsent l hl
    have hclosed := h.closed
    rw [hsent] at hclosed
    exact (List.pairwise_cons.mp (List.pairwise_append.mp hclosed).2.1).1 l hl rfl
  · have hstage := h.stage
    generalize (run c World.reset events).sent.filter Line.ofSasl = lines at hstage
    cases hstage with
    | idle wait sent => exact Or.inl rfl
    | waiting wait sent => exact Or.inr ⟨[], [], Or.inl rfl, Or.inl rfl, rfl⟩
    | answered text answers wait sent => exact Or.inr ⟨text, [], Or.inr answers, Or.inl rfl, by rw [List.append_nil]⟩
    | ended text tail answers aborts wait closed => exact Or.inr ⟨text, tail, answers, aborts, rfl⟩

/-- A poll 30 seconds after the last event ends every wait; where a deadline was set it ends the negotiation too,
and then the connection sends no other line of it, whatever comes. -/
theorem silence_ends (c : Client) (events : List (Nat × Event)) (now : Nat)
    (htimes : ∀ e ∈ events, e.1 + 30000 ≤ now) :
    let w := run c World.reset events
    (poll c w now).caps.sasl_wait = false ∧
      (w.caps.sasl_deadline ≠ 0 → (poll c w now).caps.negotiating = false ∧
        ∀ later, (run c (poll c w now) later).sent = (poll c w now).sent) := by
  intro w
  have hphase : Phase c w := phase_run c events World.reset (phase_reset c)
  have hdue : w.caps.sasl_deadline ≤ now := deadline_run events htimes World.reset (Nat.zero_le now)
  by_cases hset : w.caps.sasl_deadline = 0
  · have hsame : poll c w now = w := by
      unfold poll
      rw [if_neg fun h => h.1 hset]
    have hidle : w.caps.sasl_wait = false := by
      rw [← Bool.not_eq_true]
      exact fun hwait => hphase.deadline hwait hset
    rw [hsame]
    exact ⟨hidle, fun h => absurd hset h⟩
  · have hover : Over (poll c w now) := by
      unfold poll
      rw [if_pos ⟨hset, hdue⟩]
      obtain ⟨_, _, _, hclosed, hidle, _, _⟩ :=
        saslFinish_spec c (if w.caps.sasl_wait = true then (send c w .abort).2 else w) (some .timedOut)
      exact ⟨hclosed, hidle⟩
    exact ⟨hover.2, fun _ => ⟨hover.1, fun later => over_run later _ hover⟩⟩

/-- `CAP * LS :sasl`, then `CAP * ACK :sasl`. -/
def exampleEvents : List (Nat × Event) :=
  [(5, .message { prefix_ := none, argv := [ascii "CAP", ascii "*", ascii "LS", ascii "sasl"] }),
    (6, .message { prefix_ := none, argv := [ascii "CAP", ascii "*", ascii "ACK", ascii "sasl"] })]

theorem exampleUser_fits : ([117] : Sasl.Bytes).length ≤ Sasl.LOGINLEN := by decide

theorem examplePass_fits : ([112] : Sasl.Bytes).length ≤ Sasl.PASSLEN := by decide

def exampleClient : Client where
  credentials := { user := [117], pass := [112], mechanism := [], userFits := exampleUser_fits, passFits := examplePass_fits }
  takes := fun _ _ => true

example : (run exampleClient World.reset exampleEvents).sent = [.capReq (ascii "sasl"), .mechanism false] := by decide

/-- The server answers no more: half a minute later the wait is over, and with it the negotiation. -/
theorem exampleWait_ends :
    (run exampleClient World.reset exampleEvents).caps.sasl_wait = true ∧
      (poll exampleClient (run exampleClient World.reset exampleEvents) 30006).caps.sasl_wait = false ∧
      (poll exampleClient (run exampleClient World.reset exampleEvents) 30006).caps.negotiating = false :=
  have hends := silence_ends exampleClient exampleEvents 30006 (by decide)
  ⟨by decide, hends.1, (hends.2 (by decide)).1⟩

/-! ### The buffers -/

/-- What the server says stays within the buffers, and every symbol has its mode. -/
structure Bounded (s : CapState) : Prop where
  requests : s.requests.length ≤ 63
  paired : s.symbols.length = s.modes.length
  modes : s.modes.length < 32
  chanmodes : s.chanmodes.length < 128

theorem bounded_foldl {f : CapState → Text → CapState} (h : ∀ s token, Bounded s → Bounded (f s token))
    (tokens : List Text) : ∀ s : CapState, Bounded s → Bounded (tokens.foldl f s) := by
  induction tokens with
  | nil => exact fun s hs => hs
  | cons token tokens ih => exact fun s hs => ih (f s token) (h s token hs)

theorem addRequest_length {requests cap : Text} (h : requests.length ≤ 63) : (addRequest requests cap).length ≤ 63 := by
  unfold addRequest
  split_ifs
  · exact h
  · exact List.length_take_le _ _
  · exact List.length_take_le _ _

theorem bounded_isupportToken (s : CapState) (token : Text) (h : Bounded s) : Bounded (isupportToken s token) := by
  unfold isupportToken
  dsimp only
  by_cases hskip : (nameOf (undash token).2).map toUpper = [] ∨
      IRC_MSGLEN + 1 ≤ ((nameOf (undash token).2).map toUpper).length
  · rw [if_pos hskip]
    exact h
  rw [if_neg hskip]
  generalize (if (undash token).1 = true then s.properties.del ((nameOf (undash token).2).map toUpper)
    else s.properties.add ((nameOf (undash token).2).map toUpper) (valueOf (undash token).2)) = properties
  split_ifs with hrusty hplain hmodes hchanmodes
  · exact ⟨h.requests, h.paired, h.modes, h.chanmodes⟩
  · exact ⟨h.requests, h.paired, h.modes, h.chanmodes⟩
  · unfold takePrefix
    dsimp only
    split_ifs with htaken
    · exact ⟨h.requests, htaken.2.2.2, htaken.2.2.1, h.chanmodes⟩
    · exact ⟨h.requests, h.paired, h.modes, h.chanmodes⟩
  · exact ⟨h.requests, h.paired, h.modes, hchanmodes.2⟩
  · exact ⟨h.requests, h.paired, h.modes, h.chanmodes⟩

theorem bounded_capabToken (s : CapState) (token : Text) (h : Bounded s) : Bounded (capabToken s token) := by
  unfold capabToken
  dsimp only
  split_ifs <;> exact ⟨h.requests, h.paired, h.modes, h.chanmodes⟩

theorem bounded_beginLists (listing listing_enabled more : Bool) (h : Bounded s) :
    Bounded (beginLists s listing listing_enabled more) := by
  unfold beginLists
  dsimp only
  split_ifs <;>
    first
      | exact ⟨h.requests, h.paired, h.modes, h.chanmodes⟩
      | exact ⟨Nat.zero_le 63, h.paired, h.modes, h.chanmodes⟩

theorem bounded_capToken (c : Client) (now : Nat) (command : Text) (s : CapState) (token : Text) (h : Bounded s) :
    Bounded (capToken c now command s token) := by
  have hrecord : ∀ remove key value, Bounded (record command remove key value s) := by
    intro remove key value
    unfold record
    split_ifs <;> exact ⟨h.requests, h.paired, h.modes, h.chanmodes⟩
  have hoffered : ∀ key (t : CapState), Bounded t → Bounded (offered c now command key t) := by
    intro key t ht
    unfold offered
    split_ifs <;> exact ⟨ht.requests, ht.paired, ht.modes, ht.chanmodes⟩
  have hrequest : ∀ remove key (t : CapState), Bounded t → Bounded (request c command remove key t) := by
    intro remove key t ht
    unfold request
    dsimp only
    split_ifs
    · exact ⟨addRequest_length ht.requests, ht.paired, ht.modes, ht.chanmodes⟩
    all_goals exact ⟨ht.requests, ht.paired, ht.modes, ht.chanmodes⟩
  unfold capToken
  dsimp only
  split_ifs
  · exact h
  · exact hrequest _ _ _ (hoffered _ _ (hrecord _ _ _))

theorem bounded_saslFinish (result : Option Notice) (h : Bounded w.caps) : Bounded (saslFinish c w result).caps := by
  unfold saslFinish
  dsimp only
  by_cases hopen : w.caps.negotiating = true
  · simp only [if_pos hopen, send_caps]
    exact ⟨h.requests, h.paired, h.modes, h.chanmodes⟩
  · simp only [if_neg hopen]
    exact ⟨h.requests, h.paired, h.modes, h.chanmodes⟩

theorem bounded_send (l : Line) (h : Bounded w.caps) : Bounded (send c w l).2.caps := by
  rw [send_caps]
  exact h

theorem bounded_poll (now : Nat) (h : Bounded w.caps) : Bounded (poll c w now).caps := by
  unfold poll
  split_ifs
  · exact bounded_saslFinish _ (bounded_send _ h)
  · exact bounded_saslFinish _ h
  · exact h

theorem bounded_challenged (challenge : Text) (h : Bounded w.caps) : Bounded (challenged c w challenge).caps := by
  have hanswer : Bounded (saslResponse c w).2.caps := by
    obtain ⟨text, -, hworld, -⟩ := saslResponse_spec c w
    rw [hworld]
    exact h
  have heither : ∀ answer : Bool × World, Bounded answer.2.caps →
      Bounded (if answer.1 = true then { answer.2 with caps := { answer.2.caps with sasl_sent := true } }
        else saslFinish c (send c answer.2 .abort).2 (some .aborted)).caps := by
    intro answer hbounded
    split_ifs
    · exact ⟨hbounded.requests, hbounded.paired, hbounded.modes, hbounded.chanmodes⟩
    · exact bounded_saslFinish _ (bounded_send _ hbounded)
  unfold challenged
  refine heither _ ?_
  split_ifs
  · exact h
  · exact hanswer

theorem bounded_capListed (h : Bounded w.caps) : Bounded (capListed c w).caps := by
  unfold capListed
  dsimp only
  split_ifs <;>
    (simp only [send_caps]
     exact ⟨h.requests, h.paired, h.modes, h.chanmodes⟩)

theorem bounded_capAnswered (now : Nat) (command : Text) (h : Bounded w.caps) :
    Bounded (capAnswered c w now command).2.caps := by
  have hsent := bounded_send (c := c) (.mechanism (Sasl.sameName c.credentials.mechanism Sasl.EXTERNAL)) h
  unfold capAnswered
  dsimp only
  split_ifs
  · exact h
  · exact h
  · exact ⟨hsent.requests, hsent.paired, hsent.modes, hsent.chanmodes⟩
  · exact bounded_saslFinish _ hsent
  · exact bounded_saslFinish _ h
  · exact bounded_saslFinish _ h

theorem bounded_capMessage (now : Nat) (argv : List Text) (h : Bounded w.caps) :
    Bounded (capMessage c w now argv).2.caps := by
  have hcaps := fun listing listing_enabled more => bounded_foldl (bounded_capToken c now (argv.getD 2 []))
    (blankTokens (argv.getD (argv.length - 1) [])) _ (bounded_beginLists listing listing_enabled more h)
  unfold capMessage
  dsimp only
  split_ifs
  · exact bounded_capListed (w := { w with caps := _ }) (hcaps _ _ _)
  · exact bounded_capAnswered (w := { w with caps := _ }) now _ (hcaps _ _ _)
  · exact hcaps _ _ _

theorem bounded_otherMessage (now : Nat) (argv : List Text) (h : Bounded w.caps) :
    Bounded (otherMessage c w now argv).caps := by
  have htold : ∀ {v : World} (p : Prop) [Decidable p], Bounded v.caps →
      Bounded (if p then ({ v with told := v.told ++ [.capabilities] } : World) else v).caps := by
    intro v p _ hv
    split_ifs <;> exact hv
  unfold otherMessage
  dsimp only
  refine htold _ ?_
  split_ifs
  · exact bounded_foldl bounded_isupportToken _ _ h
  · exact bounded_capMessage now argv h
  · exact bounded_foldl bounded_capabToken _ _ h
  · exact ⟨h.requests, h.paired, h.modes, h.chanmodes⟩
  · exact h

theorem bounded_step (now : Nat) (e : Event) (h : Bounded w.caps) : Bounded (step c w now e).caps := by
  cases e with
  | poll => exact bounded_poll now h
  | message m =>
      unfold step message
      dsimp only
      split_ifs
      · exact h
      · exact bounded_challenged _ h
      · exact bounded_saslFinish _ h
      · exact bounded_saslFinish _ h
      · exact bounded_otherMessage now m.argv h

theorem bounded_run (c : Client) (events : List (Nat × Event)) : ∀ w, Bounded w.caps →
    Bounded (run c w events).caps := by
  induction events with
  | nil => exact fun w h => h
  | cons e events ih => exact fun w h => ih _ (bounded_step e.1 e.2 h)

/-- Whatever the server says of itself, the requests, the prefixes and the channel modes stay within their buffers, and
the mode of a prefix is read within the modes there are. -/
theorem buffers_kept (c : Client) (events : List (Nat × Event)) :
    let s := (run c World.reset events).caps
    s.requests.length ≤ 63 ∧ s.symbols.length = s.modes.length ∧ s.modes.length < 32 ∧ s.chanmodes.length < 128 ∧
      ∀ symbol, prefixMode s symbol ≠ none := by
  intro s
  have h : Bounded s := bounded_run c events World.reset ⟨by decide, by decide, by decide, by decide⟩
  refine ⟨h.requests, h.paired, h.modes, h.chanmodes, fun symbol => ?_⟩
  unfold prefixMode
  split_ifs
  · exact Option.some_ne_none none
  · cases hfound : s.symbols.findIdx? (· == symbol) with
    | none => exact Option.some_ne_none none
    | some i =>
        have hi : i < s.modes.length := by
          obtain ⟨hlt, -⟩ := List.findIdx?_eq_some_iff_getElem.mp hfound
          rw [← h.paired]
          exact hlt
        simp [hi]

end Capabilities

end Irc

end RustyRig
