/-
The parser of IRC messages (`librustyirc/irc.c`).

A line is cut in place at its blanks: a prefix behind a colon, the command, and up to 15 parameters,
the last of which may be what is behind a colon, blanks and all.  The null pointer the scanner ends
with where there is no blank is here the empty text; it ends the loops alike.
-/
import RustyRig.Lib.Words

namespace RustyRig

namespace Irc

open Lib

/-- A C string, without its terminator. -/
abbrev Text := List UInt8

def RUSTYIRC_MAX_LINE : Nat := 1022

def blank : UInt8 := 32
def colon : UInt8 := 58
def carriageReturn : UInt8 := 13
def lineFeed : UInt8 := 10

/-- `irc_message_t`. -/
structure Message where
  prefix_ : Option Text
  argv : List Text
deriving DecidableEq, Repr

/-- The prefix and what is behind it; an empty one is an error. -/
def parsePrefix (s : Text) : Option (Option Text × Text) :=
  if s.head? = some colon then
    if s.tail.head? = some blank then none
    else some (some (Words.cut blank s.tail).1, (Words.cut blank s.tail).2)
  else some (none, s)

/-- The command and what is behind it. -/
def parseCommand (s : Text) : List Text × Text :=
  let s := Words.skip blank s
  if s = [] then ([], []) else ([(Words.cut blank s).1], (Words.cut blank s).2)

/-- The loop over the parameters, with those found so far; one too many is an error. -/
def parseArguments (limit : Nat) (s : Text) (argv : List Text) : Option (List Text) :=
  if Words.skip blank s = [] then some argv
  else if limit ≤ argv.length then none
  else if (Words.skip blank s).head? = some colon then some (argv ++ [(Words.skip blank s).tail])
  else
    parseArguments limit (Words.cut blank (Words.skip blank s)).2 (argv ++ [(Words.cut blank (Words.skip blank s)).1])
termination_by s.length
decreasing_by
  rename_i hne _ _
  exact Nat.lt_of_lt_of_le (Words.length_cut_lt blank hne) (Words.length_skip_le blank s)

/-- `irc_parse_message`. -/
def parseMessage (msg : Text) : Option Message :=
  if msg = [] ∨ RUSTYIRC_MAX_LINE < msg.length ∨ carriageReturn ∈ msg ∨ lineFeed ∈ msg then none
  else
    match parsePrefix msg with
    | none => none
    | some (pre, s) =>
        let (argv, s) := parseCommand s
        match parseArguments 16 s argv with
        | none => none
        | some argv => if argv = [] ∨ 16 < argv.length then none else some { prefix_ := pre, argv := argv }

end Irc

end RustyRig
