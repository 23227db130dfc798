/-
Where a Kiwi proxy redirects to.

`kiwi_redirect` of `rrbridge/module.kiwi.c` looks for a `Location` in a complete HTTP 307 and
makes the next WebSocket URL of it.  Everything it reads of the response goes through `read`
and `readByte` here, which have nothing to give outside of the bytes received, so a scan that
left them would come to nothing.  What the decision changes of the driver is in `Kiwi`.
-/
import Mathlib.Data.List.Basic

namespace RustyRig

namespace Kiwi

/-- The bytes of an ASCII text. -/
def ascii (s : String) : List UInt8 := s.toList.map fun c => UInt8.ofNat c.toNat

/-- `tolower`, as `strncasecmp` compares. -/
def lower (c : UInt8) : UInt8 := if 65 ≤ c ∧ c ≤ 90 then c + 32 else c

/-- `char url[512]`. -/
structure Url where
  bytes : List UInt8
  fits : bytes.length < 512
deriving DecidableEq

variable (buf : List UInt8)

/-! ### The response -/

/-- The operand of `memcmp` and `memcpy`. -/
def read (i n : Nat) : Option (List UInt8) :=
  if i + n ≤ buf.length then some ((buf.drop i).take n) else none

def readByte (i : Nat) : Option UInt8 := buf[i]?

/-- The loop that looks for the empty line. -/
def headersEnd (p : Nat) : Option (Option Nat) :=
  if p + 3 < buf.length then
    match read buf p 4 with
    | none => none
    | some word => if word = [13, 10, 13, 10] then some (some p) else headersEnd (p + 1)
  else some none
termination_by buf.length - p

/-- The loop that looks for the end of a line. -/
def lineEnd (stop scan : Nat) : Option (Option Nat) :=
  if scan + 1 < stop + 2 then
    match readByte buf scan with
    | none => none
    | some c =>
        if c = 13 then
          match readByte buf (scan + 1) with
          | none => none
          | some d => if d = 10 then some (some scan) else lineEnd stop (scan + 1)
        else lineEnd stop (scan + 1)
  else some none
termination_by stop + 2 - scan

/-- The loop over the blanks in front of the value. -/
def skipBlanks (line loc : Nat) : Option Nat :=
  if loc < line then
    match readByte buf loc with
    | none => none
    | some c => if c = 32 ∨ c = 9 then skipBlanks line (loc + 1) else some loc
  else some loc
termination_by line - loc

theorem lineEnd_ge {stop scan line : Nat} (h : lineEnd buf stop scan = some (some line)) :
    scan ≤ line := by
  fun_induction lineEnd buf stop scan with
  | case1 => exact absurd h (by simp)
  | case2 => exact absurd h (by simp)
  | case3 scan _ _ _ =>
      exact Nat.le_of_eq (Option.some.inj (Option.some.inj h))
  | case4 scan _ _ _ _ _ ih => exact Nat.le_of_succ_le (ih h)
  | case5 scan _ _ _ _ ih => exact Nat.le_of_succ_le (ih h)
  | case6 => exact absurd h (by simp)

/-- The loop over the header lines: the first `Location`, from where to where. -/
def location (stop p : Nat) : Option (Option (Nat × Nat)) :=
  if p < stop then
    match hline : lineEnd buf stop p with
    | none => none
    | some none => some none
    | some (some line) =>
        if stop < line then some none
        else if 9 ≤ line - p then
          match read buf p 9 with
          | none => none
          | some name =>
              if name.map lower = ascii "location:" then
                (skipBlanks buf line (p + 9)).map fun loc => some (loc, line - loc)
              else location stop (line + 2)
        else location stop (line + 2)
  else some none
termination_by stop - p
decreasing_by
  all_goals
    have hge := lineEnd_ge buf hline
    omega

/-- What a response is to the driver: a redirect has its target, if that has a length that fits. -/
inductive Response
  | other
  | moved (target : Option (List UInt8))
deriving DecidableEq, Repr

/-- The first half of `kiwi_redirect`. -/
def response : Option Response :=
  if buf.length < 12 ∨ 8192 < buf.length then some .other
  else do
    let start ← read buf 0 5
    if start ≠ ascii "HTTP/" then return .other
    let headers ← headersEnd buf 0
    match headers with
    | none => return .other
    | some stop =>
        let status ← read buf 9 3
        if status ≠ ascii "307" then return .other
        let found ← location buf stop 0
        match found with
        | none => return .moved none
        | some (loc, len) =>
            if len = 0 ∨ 512 ≤ len then return .moved none
            let target ← read buf loc len
            return .moved (some target)

/-! ### The next URL -/

/-- `strstr`, as far as into the text. -/
def find (needle : List UInt8) : List UInt8 → Option Nat
  | [] => if needle = [] then some 0 else none
  | c :: text => if needle.isPrefixOf (c :: text) then some 0 else (find needle text).map (· + 1)

/-- What is behind `://`. -/
def afterScheme (url : List UInt8) : Option (List UInt8) :=
  (find (ascii "://") url).map fun i => url.drop (i + 3)

/-- What `strcspn` spans, up to the path. -/
def authority (rest : List UInt8) : List UInt8 := rest.takeWhile (· ≠ 47)

/-- `strchr` of the slash behind `://`. -/
def pathOf (url : List UInt8) : Option (List UInt8) :=
  (afterScheme url).bind fun rest =>
    match rest.dropWhile (· ≠ 47) with
    | [] => none
    | path => some path

/-- The URL up to its path. -/
def root (url : List UInt8) : List UInt8 := url.take (url.length - ((pathOf url).getD []).length)

def startsWith (scheme : String) (target : List UInt8) : Bool :=
  (target.take scheme.length).map lower = ascii scheme

/-- The WebSocket URL of a target. -/
def resolve (url target : List UInt8) : Option (List UInt8) :=
  if startsWith "https://" target then some (ascii "wss://" ++ target.drop 8)
  else if startsWith "http://" target then some (ascii "ws://" ++ target.drop 7)
  else if startsWith "wss://" target || startsWith "ws://" target then some target
  else if target.head? = some 47 then
    match afterScheme url with
    | none => none
    | some _ => if 512 ≤ (root url).length + target.length then none else some (root url ++ target)
  else none

/-- A root keeps the path of the current URL, if that is the one of a sound stream and fits. -/
def retain (url next : List UInt8) : List UInt8 :=
  if next.getLast? = some 47 ∧ (find (ascii "/SND") url).isSome then
    match pathOf url with
    | some path => if next.length + path.length - 1 < 512 then next.dropLast ++ path else next
    | none => next
  else next

/-- Whether the password may go along. -/
def passwordAllows (password : Option (List UInt8)) (url next : List UInt8) : Bool :=
  if password.getD [] = [] then true
  else
    match afterScheme url, afterScheme next with
    | some old, some dest => (authority old).map lower = (authority dest).map lower
    | _, _ => false

theorem retain_fits (url : Url) {next : List UInt8} (h : next.length < 512) :
    (retain url.bytes next).length < 512 := by
  unfold retain
  split
  · rename_i hlast
    have hpos : 0 < next.length := List.length_pos_iff.mpr fun hnil => by simp [hnil] at hlast
    split
    · rename_i path _
      split
      · rename_i hfits
        simp only [List.length_append, List.length_dropLast]
        omega
      · exact h
    · exact h
  · exact h

end Kiwi

end RustyRig
