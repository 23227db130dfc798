/-
What the parser of IRC messages makes of a line.

The grammar is stated on its own: `Reads` takes the prefix off a line, `Body` the command and `Params`
the parameters.  Every line has one of these readings or lacks a prefix or a command
(`prefix_cases`, `body_cases`, `exists_params`), and the scanner finds the reading there is
(`parse_of_reads`, `parseCommand_of_body`, `parseArguments_eq`).  A message written as a line is read
by the same grammar, so it comes back.
-/
import RustyRig.Librustyirc.Message

namespace RustyRig

namespace Irc

open Lib

variable {msg s c p : Text} {pre : Option Text} {ps : List Text}

/-- A parameter that needs no colon in front of it. -/
structure Middle (w : Text) : Prop where
  nonempty : w ≠ []
  unbroken : blank ∉ w
  bare : w.head? ≠ some colon

/-- The parameters in what is behind the command. -/
inductive Params : Text → List Text → Prop
  | blanks (n : Nat) : Params (List.replicate n blank) []
  | trailing (n : Nat) (t : Text) : Params (List.replicate n blank ++ colon :: t) [t]
  | last (n : Nat) {w : Text} (hw : Middle w) : Params (List.replicate n blank ++ w) [w]
  | more (n : Nat) {w rest : Text} {ps : List Text} (hw : Middle w) (h : Params rest ps) :
      Params (List.replicate n blank ++ (w ++ blank :: rest)) (w :: ps)

/-- The command and the parameters in what is behind the prefix. -/
inductive Body : Text → Text → List Text → Prop
  | alone (n : Nat) {c : Text} (hne : c ≠ []) (hc : blank ∉ c) : Body (List.replicate n blank ++ c) c []
  | more (n : Nat) {c rest : Text} {ps : List Text} (hne : c ≠ []) (hc : blank ∉ c) (h : Params rest ps) :
      Body (List.replicate n blank ++ (c ++ blank :: rest)) c ps

/-- The prefix of a line and what is behind it. -/
inductive Reads : Text → Option Text → Text → Prop
  | bare {s : Text} (h : s.head? ≠ some colon) : Reads s none s
  | alone {p : Text} (hne : p ≠ []) (hp : blank ∉ p) : Reads (colon :: p) (some p) []
  | more {p s : Text} (hne : p ≠ []) (hp : blank ∉ p) : Reads (colon :: (p ++ blank :: s)) (some p) s

def EmptyPrefix (msg : Text) : Prop := msg = [colon] ∨ ∃ s, msg = colon :: blank :: s

def NoCommand (msg : Text) : Prop := ∃ pre n, Reads msg pre (List.replicate n blank)

def ManyParams (msg : Text) : Prop := ∃ pre s c ps, Reads msg pre s ∧ Body s c ps ∧ 15 < ps.length

/-! ### The parameters -/

/-- A word has something else than a blank in front. -/
theorem head_of_word (hne : c ≠ []) (hc : blank ∉ c) (rest : Text) : (c ++ rest).head? ≠ some blank := by
  cases c with
  | nil => exact absurd rfl hne
  | cons x c =>
      intro hx
      have hhead : x = blank := Option.some.inj hx
      exact hc (hhead ▸ List.mem_cons_self)

theorem trailing_head (t : Text) : (colon :: t).head? ≠ some blank := by
  rw [List.head?_cons]
  exact fun h => absurd (Option.some.inj h) (by decide)

theorem skip_blanks (n : Nat) : Words.skip blank (List.replicate n blank) = [] := by
  have hskip := Words.skip_replicate n (List.head?_nil.trans_ne (Option.some_ne_none blank).symm)
  rwa [List.append_nil] at hskip

theorem append_ne_nil (hne : c ≠ []) (rest : Text) : c ++ rest ≠ [] :=
  fun h => hne (List.append_eq_nil_iff.mp h).1

theorem Middle.head (hw : Middle c) (rest : Text) : (c ++ rest).head? ≠ some colon := by
  cases c with
  | nil => exact absurd rfl hw.nonempty
  | cons x c => exact hw.bare

/-- Every text has parameters, if only none. -/
theorem exists_params (s : Text) : ∃ ps, Params s ps := by
  induction hn : s.length using Nat.strongRecOn generalizing s with
  | ind n ih =>
      obtain ⟨k, hs, hhead⟩ := Words.skip_cases blank s
      by_cases hnil : Words.skip blank s = []
      · rw [hnil, List.append_nil] at hs
        exact ⟨[], hs ▸ Params.blanks k⟩
      by_cases hcolon : (Words.skip blank s).head? = some colon
      · obtain ⟨t, ht⟩ : ∃ t, Words.skip blank s = colon :: t := List.head?_eq_some_iff.mp hcolon
        rw [ht] at hs
        exact ⟨[t], hs ▸ Params.trailing k t⟩
      obtain ⟨hword, hcut⟩ := Words.cut_cases blank (Words.skip blank s)
      have hlt := Words.length_cut_lt blank hnil
      have hle := Words.length_skip_le blank s
      generalize Words.cut blank (Words.skip blank s) = cut at hword hcut hlt
      have hmiddle : ∀ rest, Words.skip blank s = cut.1 ++ rest → (rest = [] ∨ rest.head? = some blank) → Middle cut.1 := by
        intro rest heq hrest
        have hne : cut.1 ≠ [] := by
          intro hempty
          rw [hempty, List.nil_append] at heq
          rcases hrest with hrest | hrest
          · exact hnil (heq.trans hrest)
          · exact hhead (heq ▸ hrest)
        refine ⟨hne, hword, fun hc => hcolon ?_⟩
        rw [heq, List.head?_append, hc]
        rfl
      rcases hcut with ⟨heq, -⟩ | heq
      · have hw : Middle cut.1 := hmiddle [] (heq.trans (List.append_nil _).symm) (Or.inl rfl)
        refine ⟨[cut.1], ?_⟩
        rw [hs, heq]
        exact Params.last k hw
      · have hw : Middle cut.1 := hmiddle _ heq (Or.inr rfl)
        obtain ⟨ps, hps⟩ := ih cut.2.length (by omega) cut.2 rfl
        refine ⟨cut.1 :: ps, ?_⟩
        rw [hs, heq]
        exact Params.more k hw hps

/-- The loop appends the parameters there are, unless they are too many. -/
theorem parseArguments_eq {limit : Nat} (h : Params s ps) : ∀ argv : List Text, argv.length ≤ limit →
    parseArguments limit s argv = if argv.length + ps.length ≤ limit then some (argv ++ ps) else none := by
  induction h with
  | blanks n =>
      intro argv hle
      rw [parseArguments, if_pos (skip_blanks n), if_pos (by simpa using hle), List.append_nil]
  | trailing n t =>
      intro argv hle
      have hskip := Words.skip_replicate n (trailing_head t)
      rw [parseArguments, hskip, if_neg (List.cons_ne_nil _ _)]
      by_cases hfull : limit ≤ argv.length
      · rw [if_pos hfull, if_neg (by simp; omega)]
      · rw [if_neg hfull, if_pos List.head?_cons, if_pos (by simp; omega)]
        rfl
  | @last n w hw =>
      intro argv hle
      have hhead : w.head? ≠ some blank := by simpa using head_of_word hw.nonempty hw.unbroken []
      have hskip := Words.skip_replicate n hhead
      rw [parseArguments, hskip, if_neg hw.nonempty, if_neg hw.bare, Words.cut_word hw.unbroken]
      by_cases hfull : limit ≤ argv.length
      · rw [if_pos hfull, if_neg (by simp; omega)]
      · have hnone : Words.skip blank (w, ([] : Text)).2 = [] := rfl
        rw [if_neg hfull, if_pos (by simp; omega), parseArguments, if_pos hnone]
  | @more n w rest ps hw h ih =>
      intro argv hle
      have hskip := Words.skip_replicate n (head_of_word hw.nonempty hw.unbroken (blank :: rest))
      rw [parseArguments, hskip, if_neg (append_ne_nil hw.nonempty _), if_neg (hw.head _), Words.cut_append hw.unbroken]
      by_cases hfull : limit ≤ argv.length
      · rw [if_pos hfull, if_neg (by simp; omega)]
      · rw [if_neg hfull, ih _ (by simp; omega), List.length_append, List.append_assoc]
        have hcount : argv.length + [w].length + ps.length = argv.length + (w :: ps).length := by
          simp only [List.length_cons, List.length_nil]
          omega
        rw [hcount]
        rfl

/-! ### The command and the prefix -/

/-- Behind the prefix is a command, or nothing but blanks. -/
theorem body_cases (s : Text) : (∃ n, s = List.replicate n blank) ∨ ∃ c ps, Body s c ps := by
  obtain ⟨k, hs, hhead⟩ := Words.skip_cases blank s
  by_cases hnil : Words.skip blank s = []
  · rw [hnil, List.append_nil] at hs
    exact Or.inl ⟨k, hs⟩
  obtain ⟨hword, hcut⟩ := Words.cut_cases blank (Words.skip blank s)
  generalize Words.cut blank (Words.skip blank s) = cut at hword hcut
  rcases hcut with ⟨heq, -⟩ | heq
  · rw [heq] at hs hnil
    exact Or.inr ⟨cut.1, [], hs ▸ Body.alone k hnil hword⟩
  · have hne : cut.1 ≠ [] := by
      intro hempty
      rw [hempty] at heq
      exact hhead (heq ▸ rfl)
    obtain ⟨ps, hps⟩ := exists_params cut.2
    rw [heq] at hs
    exact Or.inr ⟨cut.1, ps, hs ▸ Body.more k hne hword hps⟩

theorem parseCommand_blanks (n : Nat) : parseCommand (List.replicate n blank) = ([], []) := by
  unfold parseCommand
  rw [skip_blanks]
  rfl

/-- The command is found, and the parameters are behind it. -/
theorem parseCommand_of_body (h : Body s c ps) : ∃ rest, parseCommand s = ([c], rest) ∧ Params rest ps := by
  unfold parseCommand
  cases h with
  | alone n hne hc =>
      have hhead : c.head? ≠ some blank := by simpa using head_of_word hne hc []
      refine ⟨[], ?_, Params.blanks 0⟩
      rw [Words.skip_replicate n hhead]
      dsimp only
      rw [if_neg hne, Words.cut_word hc]
  | @more n _ rest _ hne hc hps =>
      refine ⟨rest, ?_, hps⟩
      rw [Words.skip_replicate n (head_of_word hne hc (blank :: rest))]
      dsimp only
      rw [if_neg (append_ne_nil hne _), Words.cut_append hc]

/-- A line has an empty prefix, or a prefix or none. -/
theorem prefix_cases (msg : Text) : EmptyPrefix msg ∨ ∃ pre s, Reads msg pre s := by
  by_cases hcolon : msg.head? = some colon
  · obtain ⟨t, rfl⟩ := List.head?_eq_some_iff.mp hcolon
    obtain ⟨hword, hcut⟩ := Words.cut_cases blank t
    generalize Words.cut blank t = cut at hword hcut
    by_cases hne : cut.1 = []
    · rw [hne] at hcut
      rcases hcut with ⟨ht, -⟩ | ht
      · exact Or.inl (Or.inl (by rw [ht]))
      · exact Or.inl (Or.inr ⟨cut.2, by rw [ht]; rfl⟩)
    · rcases hcut with ⟨ht, -⟩ | ht
      · rw [ht]
        exact Or.inr ⟨some cut.1, [], Reads.alone hne hword⟩
      · rw [ht]
        exact Or.inr ⟨some cut.1, cut.2, Reads.more hne hword⟩
  · exact Or.inr ⟨none, msg, Reads.bare hcolon⟩

theorem parsePrefix_of_reads (h : Reads msg pre s) : parsePrefix msg = some (pre, s) := by
  unfold parsePrefix
  cases h with
  | bare hcolon => rw [if_neg hcolon]
  | @alone p hne hp =>
      have hhead : p.head? ≠ some blank := by simpa using head_of_word hne hp []
      rw [if_pos List.head?_cons, List.tail_cons, if_neg hhead, Words.cut_word hp]
  | more hne hp => rw [if_pos List.head?_cons, List.tail_cons, if_neg (head_of_word hne hp _), Words.cut_append hp]

/-! ### The whole line -/

/-- What the entry of the parser lets through. -/
structure Fits (msg : Text) : Prop where
  nonempty : msg ≠ []
  short : msg.length ≤ RUSTYIRC_MAX_LINE
  unbroken : carriageReturn ∉ msg ∧ lineFeed ∉ msg

theorem parseMessage_of_fits (hfits : Fits msg) (h : Reads msg pre s) : parseMessage msg =
    match parseArguments 16 (parseCommand s).2 (parseCommand s).1 with
    | none => none
    | some argv => if argv = [] ∨ 16 < argv.length then none else some { prefix_ := pre, argv := argv } := by
  have hentry : ¬ (msg = [] ∨ RUSTYIRC_MAX_LINE < msg.length ∨ carriageReturn ∈ msg ∨ lineFeed ∈ msg) := by
    rintro (hempty | hlong | hcr | hlf)
    · exact hfits.nonempty hempty
    · exact absurd hfits.short (Nat.not_le.mpr hlong)
    · exact hfits.unbroken.1 hcr
    · exact hfits.unbroken.2 hlf
  have hprefix := parsePrefix_of_reads h
  unfold parseMessage
  rw [if_neg hentry]
  generalize parsePrefix msg = found at hprefix
  subst hprefix
  rfl

/-- A line with a command gives it and its parameters, unless they are too many. -/
theorem parseMessage_of_body (hfits : Fits msg) (h : Reads msg pre s) (hb : Body s c ps) :
    parseMessage msg = if ps.length ≤ 15 then some { prefix_ := pre, argv := c :: ps } else none := by
  obtain ⟨rest, hcommand, hps⟩ := parseCommand_of_body hb
  rw [parseMessage_of_fits hfits h, hcommand]
  dsimp only
  rw [parseArguments_eq hps [c] (by simp)]
  by_cases hle : ps.length ≤ 15
  · rw [if_pos hle, if_pos (by simp; omega)]
    dsimp only
    rw [if_neg (by simp; omega)]
    rfl
  · rw [if_neg hle, if_neg (by simp; omega)]

/-- A line without a command gives nothing. -/
theorem parseMessage_of_noCommand (hfits : Fits msg) (h : NoCommand msg) : parseMessage msg = none := by
  obtain ⟨pre, n, hreads⟩ := h
  have hnil : parseArguments 16 [] [] = some [] := parseArguments_eq (Params.blanks 0) [] (by simp)
  rw [parseMessage_of_fits hfits hreads, parseCommand_blanks n]
  dsimp only
  rw [hnil]
  exact if_pos (Or.inl rfl)

theorem parseMessage_of_emptyPrefix (h : EmptyPrefix msg) : parseMessage msg = none := by
  unfold parseMessage
  split
  · rfl
  rcases h with rfl | ⟨s, rfl⟩
  · have hcommand : parseCommand [] = ([], []) := parseCommand_blanks 0
    have hnil : parseArguments 16 [] [] = some [] := parseArguments_eq (Params.blanks 0) [] (by simp)
    have hpre : parsePrefix [colon] = some (some [], []) := rfl
    rw [hpre]
    dsimp only
    rw [hcommand]
    dsimp only
    rw [hnil]
    exact if_pos (Or.inl rfl)
  · have hpre : parsePrefix (colon :: blank :: s) = none := by
      unfold parsePrefix
      rw [if_pos List.head?_cons, List.tail_cons, if_pos List.head?_cons]
    rw [hpre]

theorem fits_of_entry (h : ¬ (msg = [] ∨ RUSTYIRC_MAX_LINE < msg.length ∨ carriageReturn ∈ msg ∨ lineFeed ∈ msg)) :
    Fits msg where
  nonempty he := h (Or.inl he)
  short := Nat.not_lt.mp fun hl => h (Or.inr (Or.inl hl))
  unbroken := ⟨fun hc => h (Or.inr (Or.inr (Or.inl hc))), fun hc => h (Or.inr (Or.inr (Or.inr hc)))⟩

/-- When the parser gives nothing. -/
theorem parseMessage_none_iff (msg : Text) : parseMessage msg = none ↔
    msg = [] ∨ RUSTYIRC_MAX_LINE < msg.length ∨ carriageReturn ∈ msg ∨ lineFeed ∈ msg ∨
      EmptyPrefix msg ∨ NoCommand msg ∨ ManyParams msg := by
  by_cases hentry : msg = [] ∨ RUSTYIRC_MAX_LINE < msg.length ∨ carriageReturn ∈ msg ∨ lineFeed ∈ msg
  · have hnone : parseMessage msg = none := by
      unfold parseMessage
      exact if_pos hentry
    refine iff_of_true hnone ?_
    rcases hentry with h | h | h | h
    · exact Or.inl h
    · exact Or.inr (Or.inl h)
    · exact Or.inr (Or.inr (Or.inl h))
    · exact Or.inr (Or.inr (Or.inr (Or.inl h)))
  have hfits : Fits msg := fits_of_entry hentry
  have hrest : (EmptyPrefix msg ∨ NoCommand msg ∨ ManyParams msg) → msg = [] ∨ RUSTYIRC_MAX_LINE < msg.length ∨
      carriageReturn ∈ msg ∨ lineFeed ∈ msg ∨ EmptyPrefix msg ∨ NoCommand msg ∨ ManyParams msg :=
    fun h => Or.inr (Or.inr (Or.inr (Or.inr h)))
  constructor
  · intro hnone
    refine hrest ?_
    rcases prefix_cases msg with hempty | ⟨pre, s, hreads⟩
    · exact Or.inl hempty
    rcases body_cases s with ⟨n, rfl⟩ | ⟨c, ps, hbody⟩
    · exact Or.inr (Or.inl ⟨pre, n, hreads⟩)
    · refine Or.inr (Or.inr ⟨pre, s, c, ps, hreads, hbody, ?_⟩)
      rw [parseMessage_of_body hfits hreads hbody] at hnone
      by_contra hle
      rw [if_pos (Nat.not_lt.mp hle)] at hnone
      exact absurd hnone (Option.some_ne_none _)
  · rintro (h | h | h | h | h | h | ⟨pre, s, c, ps, hreads, hbody, hmany⟩)
    · exact absurd (Or.inl h) hentry
    · exact absurd (Or.inr (Or.inl h)) hentry
    · exact absurd (Or.inr (Or.inr (Or.inl h))) hentry
    · exact absurd (Or.inr (Or.inr (Or.inr h))) hentry
    · exact parseMessage_of_emptyPrefix h
    · exact parseMessage_of_noCommand hfits h
    · rw [parseMessage_of_body hfits hreads hbody, if_neg (Nat.not_le.mpr hmany)]

theorem parseMessage_length {m : Message} (h : parseMessage msg = some m) : 1 ≤ m.argv.length ∧ m.argv.length ≤ 16 := by
  unfold parseMessage at h
  split at h
  · exact absurd h.symm (Option.some_ne_none m)
  split at h
  · exact absurd h.symm (Option.some_ne_none m)
  dsimp only at h
  split at h
  · exact absurd h.symm (Option.some_ne_none m)
  split at h
  · exact absurd h.symm (Option.some_ne_none m)
  · rename_i argv _ hargv
    cases h
    have hne : argv ≠ [] := fun he => hargv (Or.inl he)
    exact ⟨List.length_pos_iff.mpr hne, Nat.not_lt.mp fun hl => hargv (Or.inr hl)⟩

/-! ### Messages as lines -/

/-- The parameters of a message as they are sent; the last one has a colon in front if `explicit` is set. -/
def paramsText (explicit : Bool) : List Text → Text
  | [] => []
  | [p] => blank :: (if explicit then colon :: p else p)
  | p :: q :: ps => blank :: (p ++ paramsText explicit (q :: ps))

/-- The line of a message. -/
def line (pre : Option Text) (command : Text) (params : List Text) (explicit : Bool) : Text :=
  match pre with
  | none => command ++ paramsText explicit params
  | some p => colon :: (p ++ blank :: (command ++ paramsText explicit params))

/-- The messages that have a line: only the last parameter may be empty, contain blanks or start with
a colon, and then a colon is put in front of it. -/
structure WellFormed (pre : Option Text) (name : Text) (params : List Text) (explicit : Bool) : Prop where
  prefix_ : ∀ p ∈ pre, p ≠ [] ∧ blank ∉ p
  command : name ≠ [] ∧ blank ∉ name
  bare : pre = none → name.head? ≠ some colon
  few : params.length ≤ 15
  middle : ∀ p ∈ params.dropLast, Middle p
  last : explicit = false → ∀ p ∈ params.getLast?, Middle p
  short : (line pre name params explicit).length ≤ RUSTYIRC_MAX_LINE
  unbroken : carriageReturn ∉ line pre name params explicit ∧ lineFeed ∉ line pre name params explicit

/-- The parameters of a message are read off what was written behind the first blank. -/
theorem params_of_text (explicit : Bool) : ∀ ps : List Text, ps ≠ [] → (∀ p ∈ ps.dropLast, Middle p) →
    (explicit = false → ∀ p ∈ ps.getLast?, Middle p) →
    ∃ rest, paramsText explicit ps = blank :: rest ∧ Params rest ps := by
  intro ps
  induction ps with
  | nil => exact fun h => absurd rfl h
  | cons p ps ih =>
      intro _ hmiddle hlast
      cases ps with
      | nil =>
          cases explicit with
          | true => exact ⟨colon :: p, rfl, Params.trailing 0 p⟩
          | false => exact ⟨p, rfl, Params.last 0 (hlast rfl p rfl)⟩
      | cons q ps =>
          have hp : Middle p := hmiddle p List.mem_cons_self
          obtain ⟨rest, htext, hparams⟩ := ih (List.cons_ne_nil q ps)
            (fun x hx => hmiddle x (List.mem_cons_of_mem p hx)) hlast
          exact ⟨p ++ blank :: rest, by rw [← htext]; rfl, Params.more 0 hp hparams⟩

theorem body_of_text {explicit : Bool} (h : WellFormed pre c ps explicit) : Body (c ++ paramsText explicit ps) c ps := by
  by_cases hnil : ps = []
  · rw [hnil]
    have hbody := Body.alone 0 h.command.1 h.command.2
    simpa [paramsText] using hbody
  · obtain ⟨rest, htext, hparams⟩ := params_of_text explicit ps hnil h.middle h.last
    rw [htext]
    exact Body.more 0 h.command.1 h.command.2 hparams

theorem reads_line {explicit : Bool} (h : WellFormed pre c ps explicit) :
    Reads (line pre c ps explicit) pre (c ++ paramsText explicit ps) := by
  cases hpre : pre with
  | none =>
      refine Reads.bare ?_
      have hbare := h.bare hpre
      cases hc : c with
      | nil => exact absurd hc h.command.1
      | cons x c => rwa [hc] at hbare
  | some p => exact Reads.more (h.prefix_ p hpre).1 (h.prefix_ p hpre).2

theorem parse_line {explicit : Bool} (h : WellFormed pre c ps explicit) :
    parseMessage (line pre c ps explicit) = some { prefix_ := pre, argv := c :: ps } := by
  have hne : line pre c ps explicit ≠ [] := by
    unfold line
    cases pre with
    | none => exact append_ne_nil h.command.1 _
    | some p => exact List.cons_ne_nil _ _
  rw [parseMessage_of_body ⟨hne, h.short, h.unbroken⟩ (reads_line h) (body_of_text h), if_pos h.few]

/-- The parser of IRC messages gives nothing exactly for the lines that are empty, too long or broken, or have an
empty prefix, no command or too many parameters; else a command and at most 15 parameters; and of the line of
every well-formed message its prefix, command and parameters. -/
theorem messages_round_trip (msg : Text) (pre : Option Text) (command : Text) (params : List Text) (explicit : Bool) :
    (parseMessage msg = none ↔
      msg = [] ∨ RUSTYIRC_MAX_LINE < msg.length ∨ carriageReturn ∈ msg ∨ lineFeed ∈ msg ∨
        EmptyPrefix msg ∨ NoCommand msg ∨ ManyParams msg) ∧
      (∀ m, parseMessage msg = some m → 1 ≤ m.argv.length ∧ m.argv.length ≤ 16) ∧
      (WellFormed pre command params explicit →
        parseMessage (line pre command params explicit) = some { prefix_ := pre, argv := command :: params }) :=
  ⟨parseMessage_none_iff msg, fun _ h => parseMessage_length h, parse_line⟩

end Irc

end RustyRig
