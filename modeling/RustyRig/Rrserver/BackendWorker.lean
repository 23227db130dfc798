/-
The per-rig hardware worker of `rrserver/backend.worker.c`.

The server thread submits jobs and drains finished ones; one worker thread takes the
head of the queue, runs it and files it as done.  Whatever either thread does under
the mutex is one function here, and what the worker does between two locks (the halt
check, the hardware call, the state it reads afterwards) is one function each, so
that any interleaving of the two threads is a sequence of these.

A job is known by the number of its submission, which stands for its address.  The
queue, the job in hand and the done list hold the jobs themselves; `off` holds, for
every VFO index, the address of its outstanding release.  Followers are the releases
that were folded into one already outstanding.

What a job carries for the model of the radio (frequencies, texts, observed state,
logs, latencies) does not enter the queueing and is left out; so is the destruction
of the worker.  `MAX_VFOS` belongs to the protocol library and is a parameter.
-/
import Mathlib.Logic.Function.Basic
import Mathlib.Data.List.Basic

namespace RustyRig

/-- `rr_backend_operation_t`. -/
inductive Operation
  | poll
  | select
  | freq
  | mode
  | width
  | power
  | ptt
  | split
  | swap
  | brightness
  | speakerVolume
  | rigControl
  | menuRead
  | menuWrite
deriving DecidableEq, Repr

/-- `backend_job_t`.  `on` is the truth of `value.i`, which only a PTT job looks at. -/
structure Job where
  id : Nat
  index : Nat
  operation : Operation
  on : Bool
  user : Nat
  failed : Bool
  cancelled : Bool
  ptt : Bool
deriving DecidableEq, Repr

namespace Job

/-- A PTT job with a true value. -/
def keyUp (j : Job) : Bool := j.operation == .ptt && j.on

/-- A PTT job with a false value. -/
def release (j : Job) : Bool := j.operation == .ptt && !j.on

end Job

/-- A job and the releases folded into it. -/
structure Entry where
  job : Job
  followers : List Job
deriving DecidableEq, Repr

/-- How far `execute` has come with the job in hand. -/
inductive Phase
  | taken
  | checked
  | ran
deriving DecidableEq, Repr

/-- `struct rr_backend_worker`. -/
structure Worker where
  queue : List Entry
  executing : Option (Phase × Entry)
  done : List Job
  off : Nat → Option Nat
  polls : Nat → Bool
  keyed : Nat → Bool
  cachePtt : Nat → Bool
  outstanding : Nat
  stopping : Bool
  nextId : Nat

namespace Worker

/-- `BACKEND_QUEUE_LIMIT`. -/
def queueLimit : Nat := 64

/-- `rr_backend_worker_start`. -/
def start : Worker where
  queue := []
  executing := none
  done := []
  off := fun _ => none
  polls := fun _ => false
  keyed := fun _ => false
  cachePtt := fun _ => false
  outstanding := 0
  stopping := false
  nextId := 0

/-- `finish_job_locked`: a follower shares the outcome of the job it was folded into. -/
def finishJob (w : Worker) (e : Entry) : Worker :=
  { w with
    off := if w.off e.job.index = some e.job.id then Function.update w.off e.job.index none
           else w.off
    done := w.done ++ e.job :: e.followers.map fun f =>
      { f with failed := e.job.failed, cancelled := e.job.cancelled, ptt := e.job.ptt } }

/-! ### The worker thread -/

/-- `worker_main` takes the head of the queue. -/
def dequeue (w : Worker) : Worker :=
  match w.executing, w.queue with
  | none, e :: rest => { w with queue := rest, executing := some (.taken, e) }
  | _, _ => w

/-- What `execute` and `rr_backend_worker_submit` let through to a halted rig. -/
def allowedHalted (operation : Operation) (on : Bool) : Bool :=
  operation == .poll || operation == .menuRead || (operation == .ptt && !on)

/-- `execute` reads the rig's halt flag, once. -/
def check (halted : Bool) (w : Worker) : Worker :=
  match w.executing with
  | some (.taken, e) =>
      if halted && !allowedHalted e.job.operation e.job.on then
        { w with executing := some (.ran, { e with job := { e.job with failed := true } }) }
      else { w with executing := some (.checked, e) }
  | _ => w

/-- The operations whose backend call reports success or failure. -/
def fallible : Operation → Bool
  | .poll | .select => false
  | _ => true

/-- The hardware call of `execute`; `ok` is what the backend answers, `pttSet` whether it
has a `ptt_set`. -/
def call (pttSet ok : Bool) (w : Worker) : Worker :=
  match w.executing with
  | some (.checked, e) =>
      let failed := match e.job.operation with
        | .ptt => !pttSet || !ok
        | op => if fallible op then !ok else e.job.failed
      { w with executing := some (.ran, { e with job := { e.job with failed := failed } }) }
  | _ => w

/-- The `ptt_set` that `call` makes: the index and the value. -/
def pttCall (pttSet : Bool) (w : Worker) : Option (Nat × Bool) :=
  match w.executing with
  | some (.checked, e) =>
      if pttSet && e.job.operation == .ptt then some (e.job.index, e.job.on) else none
  | _ => none

/-- The end of `execute`, where the backend reads the PTT line, and `finish_job_locked`. -/
def finish (ptt : Bool) (w : Worker) : Worker :=
  match w.executing with
  | some (.ran, e) =>
      finishJob { w with executing := none
                         keyed := Function.update w.keyed e.job.index ptt }
        { e with job := { e.job with ptt := ptt } }
  | _ => w

/-! ### The server thread -/

/-- The queued key-ups of an index are filed as failed and cancelled. -/
def cancelKeyUps (i : Nat) (w : Worker) : Worker :=
  (w.queue.filter fun e => e.job.keyUp && e.job.index == i).foldl
    (fun w e => finishJob w { e with job := { e.job with failed := true, cancelled := true } })
    { w with queue := w.queue.filter fun e => !(e.job.keyUp && e.job.index == i) }

/-- A release joins the followers of an outstanding one. -/
def fold (parent : Nat) (j : Job) (e : Entry) : Entry :=
  if e.job.id = parent then { e with followers := j :: e.followers } else e

/-- Where a job enters the queue: releases first, then the rest, then polls. -/
def enqueue (e : Entry) (queue : List Entry) : List Entry :=
  if e.job.release then e :: queue
  else if e.job.operation == .poll then queue ++ [e]
  else queue.takeWhile (fun q => q.job.operation != .poll) ++
    e :: queue.dropWhile fun q => q.job.operation != .poll

/-- What is submitted: the VFO's native index if it has one within bounds on this rig, the
operation with its value, and the completion's user. -/
structure Request where
  index : Option Nat
  operation : Operation
  on : Bool
  user : Nat
deriving DecidableEq, Repr

/-- `rr_backend_worker_submit`; true is a rejection.  `alloc` is whether memory is had. -/
def submit (maxVfos : Nat) (halted alloc : Bool) (w : Worker) (q : Request) : Bool × Worker :=
  match q.index with
  | none => (true, w)
  | some i =>
      let release := q.operation == .ptt && !q.on
      if maxVfos ≤ i then (true, w)
      else if halted && !allowedHalted q.operation q.on then (true, w)
      else if w.stopping || decide (queueLimit + maxVfos ≤ w.outstanding) ||
          (!release && decide (queueLimit ≤ w.outstanding)) then (true, w)
      else if q.operation == .poll && w.polls i then (false, w)
      else
        let w := if release then cancelKeyUps i w else w
        if !alloc then (true, w)
        else
          let j : Job := { id := w.nextId, index := i, operation := q.operation, on := q.on,
                           user := q.user, failed := false, cancelled := false, ptt := false }
          let w := { w with outstanding := w.outstanding + 1, nextId := w.nextId + 1 }
          match (if release then w.off i else none) with
          | some parent =>
              (false, { w with queue := w.queue.map (fold parent j)
                               executing := w.executing.map fun x => (x.1, fold parent j x.2) })
          | none =>
              (false, { w with
                queue := enqueue ⟨j, []⟩ w.queue
                polls := if q.operation == .poll then Function.update w.polls i true else w.polls
                off := if release then Function.update w.off i (some j.id) else w.off })

/-- `rr_backend_worker_drain` on the first done job: what its completion is told. -/
def drain (w : Worker) : Option Job × Worker :=
  match w.done with
  | [] => (none, w)
  | j :: rest =>
      let j := if w.stopping && !j.release then { j with failed := true, cancelled := true } else j
      (some j, { w with
        done := rest
        outstanding := w.outstanding - 1
        polls := if j.operation == .poll then Function.update w.polls j.index false else w.polls
        cachePtt := if j.cancelled then w.cachePtt
                    else Function.update w.cachePtt j.index j.ptt })

/-- `rr_backend_worker_stop`, up to the join: only releases stay queued. -/
def stop (w : Worker) : Worker :=
  (w.queue.filter fun e => !e.job.release).foldl
    (fun w e => finishJob w { e with job := { e.job with failed := true, cancelled := true } })
    { w with stopping := true, queue := w.queue.filter fun e => e.job.release }

/-! ### One worker, its rig and its hardware -/

/-- A worker together with the halt flag of its rig and what its hardware was last told.
`accepted` records, for every index, the last PTT submission that was accepted. -/
structure Rig where
  worker : Worker
  halted : Bool
  hardware : Nat → Option Bool
  accepted : Nat → Option Bool

/-- What can happen, on either thread. -/
inductive Event
  | submit (q : Request) (alloc : Bool)
  | dequeue
  | check
  | call (ok : Bool)
  | finish (ptt : Bool)
  | drain
  | halt (halted : Bool)
  | stop
deriving Repr

/-- The number of VFO indices, and whether the backend has a `ptt_set`. -/
structure Setup where
  maxVfos : Nat
  pttSet : Bool

namespace Rig

def start : Rig := ⟨Worker.start, false, fun _ => none, fun _ => none⟩

/-- The hardware after a `ptt_set`. -/
def told (hardware : Nat → Option Bool) : Option (Nat × Bool) → Nat → Option Bool
  | some (i, on) => Function.update hardware i (some on)
  | none => hardware

def step (p : Setup) (r : Rig) : Event → Rig
  | .submit q alloc =>
      let (rejected, worker) := submit p.maxVfos r.halted alloc r.worker q
      { r with
        worker := worker
        accepted := match q.index with
          | some i => if !rejected && q.operation == .ptt then
              Function.update r.accepted i (some q.on) else r.accepted
          | none => r.accepted }
  | .dequeue => { r with worker := dequeue r.worker }
  | .check => { r with worker := check r.halted r.worker }
  | .call ok =>
      { r with worker := call p.pttSet ok r.worker
               hardware := told r.hardware (pttCall p.pttSet r.worker) }
  | .finish ptt => { r with worker := finish ptt r.worker }
  | .drain => { r with worker := (drain r.worker).2 }
  | .halt halted => { r with halted := halted }
  | .stop => { r with worker := stop r.worker }

def run (p : Setup) (r : Rig) (es : List Event) : Rig := es.foldl (step p) r

end Rig

end Worker

end RustyRig
