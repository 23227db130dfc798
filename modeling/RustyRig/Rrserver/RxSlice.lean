/-
Shared receiver slices, from `rrserver/rx.slice.c`.

A specification is printed to a name, and the name is the key under which those who ask for the
same slice share one.  The parser prints again what it has read, so that nothing but a printed
name passes.

Slices are told apart by their address.  `calloc` gives an address that no slice has, or none.
-/
import RustyRig.Lib.Scanf

namespace RustyRig

namespace RxSlice

open Lib.Scanf (literal upTo unsigned)

/-- `RR_RX_SLICE_NAME_MAX`. -/
def nameMax : Nat := 256

/-- `RR_RX_SOURCE_MAX`. -/
def sourceMax : Nat := 64

/-- `RR_RX_S16LE`. -/
def s16le : UInt32 := 1

/-- `RR_RX_F32LE`. -/
def f32le : UInt32 := 2

/-- `rr_rx_slice_spec_t`.  The source is the text before the first null, the whole array where
there is none. -/
structure Spec where
  source : List Char
  centerHz : UInt64
  bandwidthHz : UInt32
  rate : UInt32
  format : UInt32
  channels : UInt8
deriving DecidableEq, Repr

/-! ### Names -/

/-- A character that may stand in a source. -/
def sourceChar (c : Char) : Bool :=
  (decide ('a' ≤ c) && decide (c ≤ 'z')) || (decide ('A' ≤ c) && decide (c ≤ 'Z')) ||
    (decide ('0' ≤ c) && decide (c ≤ '9')) || c == '-' || c == '_'

/-- `valid`. -/
def Spec.valid (s : Spec) : Bool :=
  !(s.source.isEmpty || decide (sourceMax ≤ s.source.length) || s.centerHz == 0 || s.bandwidthHz == 0 ||
      s.rate == 0 || decide (s.rate < s.bandwidthHz) || decide (192000 < s.rate) ||
      (s.channels != 1 && s.channels != 2) || (s.format != s16le && s.format != f32le)) &&
    s.source.all sourceChar

/-- What `snprintf` prints. -/
def Spec.text (s : Spec) : List Char :=
  "rx://".toList ++ (s.source ++ ("/slice/".toList ++ (Nat.toDigits 10 s.centerHz.toNat ++
    ("Hz/bw".toList ++ (Nat.toDigits 10 s.bandwidthHz.toNat ++ ("Hz/rate".toList ++
      (Nat.toDigits 10 s.rate.toNat ++ ("/".toList ++
        ((if s.format = s16le then "s16le".toList else "f32le".toList) ++ ("/".toList ++
          (if s.channels = 1 then "mono".toList else "stereo".toList)))))))))))

/-- `rr_rx_slice_name`, into a buffer of some size. -/
def sliceName (s : Spec) (size : Nat) : Option (List Char) :=
  if size = 0 then none
  else if !s.valid then none
  else if s.text.length < size then some s.text
  else none

/-- The six conversions of `sscanf`, and what they leave. -/
def scan (name : List Char) :
    Option (List Char × Nat × Nat × Nat × List Char × List Char × List Char) := do
  let s ← literal "rx://".toList name
  let (source, s) ← upTo 63 '/' s
  let s ← literal "/slice/".toList s
  let (center, s) ← unsigned 64 s
  let s ← literal "Hz/bw".toList s
  let (bandwidth, s) ← unsigned 32 s
  let s ← literal "Hz/rate".toList s
  let (rate, s) ← unsigned 32 s
  let s ← literal "/".toList s
  let (format, s) ← upTo 15 '/' s
  let s ← literal "/".toList s
  let (layout, s) ← upTo 15 '/' s
  some (source, center, bandwidth, rate, format, layout, s)

/-- The formats by name. -/
def formatNamed (format : List Char) : Option UInt32 :=
  if format = "s16le".toList then some s16le else if format = "f32le".toList then some f32le else none

/-- The channels by name. -/
def channelsNamed (layout : List Char) : Option UInt8 :=
  if layout = "mono".toList then some 1 else if layout = "stereo".toList then some 2 else none

/-- `rr_rx_slice_parse`. -/
def parseName (name : List Char) : Option Spec :=
  if nameMax ≤ name.length || !"rx://".toList.isPrefixOf name then none
  else
    match scan name with
    | some (source, center, bandwidth, rate, format, layout, []) =>
        match formatNamed format, channelsNamed layout with
        | some format, some channels =>
            let spec : Spec := ⟨source, .ofNat center, .ofNat bandwidth, .ofNat rate, format, channels⟩
            if sliceName spec nameMax = some name then some spec else none
        | _, _ => none
    | _ => none

/-! ### The registry -/

/-- `struct rr_rx_slice`. -/
structure Slice where
  address : UInt64
  id : List Char
  subscribers : UInt32
deriving DecidableEq, Repr

/-- `struct rr_rx_slices`. -/
structure Slices where
  entries : List Slice
  count : UInt64
deriving DecidableEq, Repr

/-- `calloc`, which knows what is in use. -/
abbrev Calloc := (inUse : List UInt64) → Option { a : UInt64 // a ≠ 0 ∧ a ∉ inUse }

/-- `rr_rx_slices_new`. -/
def Slices.new : Slices := ⟨[], 0⟩

/-- Changes the entry at an address. -/
def atAddress (a : UInt64) (f : Slice → Slice) (l : List Slice) : List Slice :=
  l.map fun s => if s.address = a then f s else s

/-- `rr_rx_slice_acquire`. -/
def acquire (r : Slices) (spec : Spec) (calloc : Calloc) : Option UInt64 × Slices :=
  match sliceName spec nameMax with
  | none => (none, r)
  | some id =>
      match r.entries.find? (·.id == id) with
      | some s =>
          if s.subscribers = 4294967295 then (none, r)
          else
            (some s.address, { r with
              entries := atAddress s.address (fun s => { s with subscribers := s.subscribers + 1 }) r.entries })
      | none =>
          match calloc (r.entries.map (·.address)) with
          | none => (none, r)
          | some a => (some a.val, ⟨⟨a.val, id, 1⟩ :: r.entries, r.count + 1⟩)

/-- `rr_rx_slice_release`.  The first component says whether the slice was found. -/
def release (r : Slices) (slice : UInt64) : Bool × Slices :=
  if slice = 0 then (false, r)
  else
    match r.entries.find? (·.address == slice) with
    | none => (false, r)
    | some s =>
        let left := s.subscribers - 1
        if left ≠ 0 then
          (true, { r with entries := atAddress slice (fun s => { s with subscribers := left }) r.entries })
        else (true, ⟨r.entries.eraseP (·.address == slice), r.count - 1⟩)

inductive Event
  | acquire (spec : Spec) (calloc : Calloc)
  | release (slice : UInt64)

/-- What came of a call. -/
inductive Outcome
  | acquired (slice : UInt64)
  | released (slice : UInt64)
  | refused
deriving DecidableEq, Repr

def step (r : Slices) : Event → Outcome × Slices
  | .acquire spec calloc =>
      match acquire r spec calloc with
      | (some a, r) => (.acquired a, r)
      | (none, r) => (.refused, r)
  | .release slice =>
      match release r slice with
      | (true, r) => (.released slice, r)
      | (false, r) => (.refused, r)

/-- The calls of a run, and what came of them. -/
def run (r : Slices) : List Event → List Outcome × Slices
  | [] => ([], r)
  | e :: events =>
      let (outcome, r) := step r e
      let (outcomes, r) := run r events
      (outcome :: outcomes, r)

end RxSlice

end RustyRig
