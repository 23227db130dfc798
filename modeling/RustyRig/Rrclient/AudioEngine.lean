/-
The client's audio mixer (`rrclient/audio.engine.c`).

A stream queues decoded samples in a ring of 4000 cells.  Every 20 ms a tick takes a block of 320
from each stream that has its cushion and adds them up for the two sides.  The audio thread's own
clock (its late and skipped blocks) is no part of this.
-/
import Mathlib.Algebra.Group.Nat.Defs
import Mathlib.Algebra.Group.Int.Defs
import Mathlib.Logic.Function.Basic
import RustyRig.Lib.Ring

namespace RustyRig

namespace AudioEngine

open Lib

def AUDIO_BLOCK : Nat := 320
def AUDIO_CAPACITY : Nat := 4000
def AUDIO_PREFILL : Nat := 4 * AUDIO_BLOCK
def AUDIO_MAX_QUEUED : Nat := 12 * AUDIO_BLOCK
def AUDIO_FADE_IN : Nat := 64

/-- A C string, without its terminator. -/
abbrev Id := List UInt8

def left : UInt8 := 76
def right : UInt8 := 82
def both : UInt8 := 83
def muted : UInt8 := 77

/-- `stream_t`. -/
structure Stream where
  id : Id
  route : UInt8
  samples : Nat → Int16
  head : Nat
  count : Nat
  primed : Bool
  everPrimed : Bool
  starved : Bool
  fadeIn : Nat

/-- `rr_audio_engine_stats_t`. -/
structure Stats where
  blocks : Nat
  underrunBlocks : Nat
  overflowSamples : Nat
  startupBlocks : Nat
  rebufferBlocks : Nat
  starvationEvents : Nat
  pushCalls : Nat
  pushedSamples : Nat
  maxPushSamples : Nat
  maxQueuedSamples : Nat
deriving DecidableEq, Repr

/-- `struct rr_audio_engine`, the newest stream first. -/
structure Engine where
  streams : List Stream
  stats : Stats
  /-- Percent, of the left and of the right side. -/
  gain : Int × Int

/-- `rr_audio_engine_new`. -/
def Engine.new : Engine where
  streams := []
  stats := ⟨0, 0, 0, 0, 0, 0, 0, 0, 0, 0⟩
  gain := (100, 100)

/-- `find_stream`; no string is found at the null pointer. -/
def findStream (e : Engine) (id : Option Id) : Option Nat :=
  id.bind fun id => e.streams.findIdx? fun s => s.id == id

/-! ### The streams -/

def Stream.new (id : Id) : Stream where
  id := id
  route := both
  samples := fun _ => 0
  head := 0
  count := 0
  primed := false
  everPrimed := false
  starved := false
  fadeIn := 0

/-- `rr_audio_engine_add_stream`. -/
def addStream (e : Engine) (id : Option Id) : Bool × Engine :=
  match id with
  | none => (false, e)
  | some [] => (false, e)
  | some name =>
      if (findStream e id).isSome then (true, e)
      else (true, { e with streams := .new name :: e.streams })

/-- `rr_audio_engine_remove_stream`. -/
def removeStream (e : Engine) (id : Option Id) : Engine :=
  match findStream e id with
  | some i => { e with streams := e.streams.eraseIdx i }
  | none => e

/-- The samples of a push, and what is dropped for them. -/
def Stream.push (s : Stream) (pcm : List Int16) : Stream × Nat :=
  let (s, overflow, pcm) :=
    if AUDIO_MAX_QUEUED ≤ pcm.length then
      ({ s with head := 0, count := 0 }, s.count + pcm.length - AUDIO_MAX_QUEUED,
        pcm.drop (pcm.length - AUDIO_MAX_QUEUED))
    else if AUDIO_MAX_QUEUED < s.count + pcm.length then
      let drop := s.count + pcm.length - AUDIO_MAX_QUEUED
      ({ s with head := (s.head + drop) % AUDIO_CAPACITY, count := s.count - drop }, drop, pcm)
    else (s, 0, pcm)
  let tail := (s.head + s.count) % AUDIO_CAPACITY
  ({ s with samples := Ring.store AUDIO_CAPACITY s.samples tail pcm, count := s.count + pcm.length }, overflow)

/-- `rr_audio_engine_push`. -/
def push (e : Engine) (id : Option Id) (pcm : List Int16) : Bool × Engine :=
  if pcm.isEmpty then (false, e)
  else
    match findStream e id with
    | none => (false, e)
    | some i =>
        match e.streams[i]? with
        | none => (false, e)
        | some s =>
            let (s, overflow) := s.push pcm
            (true, { e with
              streams := e.streams.modify i fun _ => s
              stats := { e.stats with
                pushCalls := e.stats.pushCalls + 1
                pushedSamples := e.stats.pushedSamples + pcm.length
                maxPushSamples := max e.stats.maxPushSamples pcm.length
                overflowSamples := e.stats.overflowSamples + overflow
                maxQueuedSamples := max e.stats.maxQueuedSamples s.count } })

def Stream.setRoute (s : Stream) (route : UInt8) : Stream :=
  { s with
    route := route, count := 0, head := 0, primed := false, everPrimed := false, starved := false, fadeIn := 0 }

/-- `rr_audio_engine_route`; the search for the letter finds the terminator too. -/
def route (e : Engine) (id : Option Id) (route : UInt8) : Bool × Engine :=
  if [left, right, both, muted, 0].contains route then
    match findStream e id with
    | none => (false, e)
    | some i => (true, { e with streams := e.streams.modify i (·.setRoute route) })
  else (false, e)

/-- `rr_audio_engine_gain`. -/
def gain (e : Engine) (channel : Nat) (percent : Int) : Engine :=
  let percent := max 0 (min percent 100)
  match channel with
  | 0 => { e with gain := (percent, e.gain.2) }
  | 1 => { e with gain := (e.gain.1, percent) }
  | _ => e

/-! ### The tick -/

/-- `accum[k] += sample`, on 32 bits. -/
def accumulate (accum : Nat → Int) (k : Nat) (sample : Int) : Nat → Int :=
  Function.update accum k ((accum k + sample).bmod (2 ^ 32))

/-- The body of the loop over a stream's samples. -/
def mixSample (s : Stream) (take : Nat) (state : (Nat → Int) × Nat) (i : Nat) : (Nat → Int) × Nat :=
  let (accum, fadeIn) := state
  let sample := (s.samples ((s.head + i) % AUDIO_CAPACITY)).toInt
  let (sample, fadeIn) :=
    if fadeIn ≠ 0 then ((sample * ((AUDIO_FADE_IN : Int) - fadeIn)).tdiv AUDIO_FADE_IN, fadeIn - 1)
    else (sample, fadeIn)
  -- a short buffer's tail goes to silence
  let sample :=
    if take < AUDIO_BLOCK ∧ 1 < take ∧ take - min take AUDIO_FADE_IN ≤ i then
      (sample * ((take : Int) - i - 1)).tdiv (min take AUDIO_FADE_IN : Nat)
    else sample
  let accum := if s.route ≠ right then accumulate accum (2 * i) sample else accum
  let accum := if s.route ≠ left then accumulate accum (2 * i + 1) sample else accum
  (accum, fadeIn)

/-- What a tick adds up. -/
structure Mix where
  accum : Nat → Int
  active : Bool
  stats : Stats

/-- A stream's part of a tick. -/
def mixStream (s : Stream) (m : Mix) : Stream × Mix :=
  if s.route = muted then ({ s with count := 0, head := 0, primed := false, everPrimed := false, starved := false }, m)
  else
    let m := { m with active := true }
    if !s.primed && s.count < AUDIO_PREFILL then
      if s.everPrimed then
        let events := if s.starved then m.stats.starvationEvents else m.stats.starvationEvents + 1
        ({ s with starved := true },
          { m with stats := { m.stats with
              underrunBlocks := m.stats.underrunBlocks + 1
              rebufferBlocks := m.stats.rebufferBlocks + 1
              starvationEvents := events } })
      else (s, { m with stats := { m.stats with startupBlocks := m.stats.startupBlocks + 1 } })
    else
      let s := if s.primed then s
        else { s with primed := true, everPrimed := true, starved := false, fadeIn := AUDIO_FADE_IN }
      let take := min s.count AUDIO_BLOCK
      let (primed, starved, stats) :=
        if take < AUDIO_BLOCK then
          (false, true, { m.stats with
            underrunBlocks := m.stats.underrunBlocks + 1
            starvationEvents := if s.starved then m.stats.starvationEvents else m.stats.starvationEvents + 1 })
        else (s.primed, s.starved, m.stats)
      let (accum, fadeIn) := (List.range take).foldl (mixSample s take) (m.accum, s.fadeIn)
      ({ s with
          primed := primed, starved := starved, fadeIn := fadeIn
          head := (s.head + take) % AUDIO_CAPACITY
          count := s.count - take },
        { m with accum := accum, stats := stats })

def mixStreams : List Stream → Mix → List Stream × Mix
  | [], m => ([], m)
  | s :: streams, m =>
      let (s, m) := mixStream s m
      let (streams, m) := mixStreams streams m
      (s :: streams, m)

/-- The block of a tick: whether it is output, and its samples, the sides in turn. -/
structure Block where
  active : Bool
  stereo : Nat → Int

/-- `CLAMP(scaled, INT16_MIN, INT16_MAX)`. -/
def clamp (scaled : Int) : Int := max (-2 ^ 15) (min scaled (2 ^ 15 - 1))

/-- `tick`. -/
def tick (e : Engine) : Engine × Block :=
  let (streams, m) := mixStreams e.streams { accum := fun _ => 0, active := false, stats := e.stats }
  ({ e with streams := streams, stats := { m.stats with blocks := m.stats.blocks + 1 } },
    { active := m.active
      stereo := fun k => clamp ((m.accum k * if k % 2 = 1 then e.gain.2 else e.gain.1).tdiv 100) })

/-! ### Runs -/

inductive Event where
  | add (id : Option Id)
  | remove (id : Option Id)
  | push (id : Option Id) (pcm : List Int16)
  | route (id : Option Id) (route : UInt8)
  | gain (channel : Nat) (percent : Int)
  | tick

def step (e : Engine) : Event → Engine
  | .add id => (addStream e id).2
  | .remove id => removeStream e id
  | .push id pcm => (push e id pcm).2
  | .route id r => (route e id r).2
  | .gain channel percent => gain e channel percent
  | .tick => (tick e).1

def run (events : List Event) : Engine := events.foldl step .new

end AudioEngine

end RustyRig
