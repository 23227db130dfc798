/-
The queue of the hardware worker as `rrserver/backend.worker.c` keeps it.

`Worker` has the queue as a list.  The C code has a chain from `head`, a `tail`
pointer that insertion at the end writes through, and a counter `queued`; every
function that unlinks a job repairs them by hand.  `Linked` adds the two, and its
functions are the C functions again, with the chain as the list of its jobs and a
pointer to a job as the job's number.

`Ledger` is a worker with its server thread: which jobs were accepted and with a
completion callback or without, which the worker thread took, and what the drained
ones were told.  The exit of the worker thread belongs to it: it releases every VFO
that still reads as keyed and files a result of its own for each.
-/
import RustyRig.Rrserver.BackendWorker
import RustyRig.Rrserver.RigProperties

namespace RustyRig

/-- A worker whose queue has its tail pointer and its counter. -/
structure Linked where
  worker : Worker
  tail : Option Nat
  queued : Nat

namespace Linked

open Worker

/-- `rr_backend_worker_start`. -/
def start : Linked := ⟨Worker.start, none, 0⟩

/-! ### The worker thread -/

/-- `worker_main` takes the head of the queue. -/
def dequeue (l : Linked) : Linked :=
  match l.worker.executing, l.worker.queue with
  | none, e :: rest =>
      { worker := { l.worker with queue := rest, executing := some (.taken, e) }
        tail := if rest.isEmpty then none else l.tail
        queued := l.queued - 1 }
  | _, _ => l

/-- One turn of the loop after `worker_main`'s: a result of the thread's own.  It is zeroed
memory, so its operation is the first of the enumeration. -/
def finalRelease (pttSet : Bool) (w : Worker) (i : Nat) : Worker :=
  if w.keyed i && pttSet then
    finishJob { w with outstanding := w.outstanding + 1, nextId := w.nextId + 1 }
      { job := { id := w.nextId, index := i, operation := .poll, on := false, user := 0,
                 failed := false, cancelled := false, ptt := false }
        followers := [] }
  else w

/-! ### The server thread -/

/-- The loops of `rr_backend_worker_submit` and `rr_backend_worker_stop` over the chain: a job
that goes is filed as failed and cancelled, one that stays becomes the tail. -/
def unlink (drop : Job → Bool) : List Entry → Linked → Linked
  | [], l => l
  | e :: rest, l =>
      if drop e.job then
        unlink drop rest
          { l with
            worker := finishJob l.worker
              { e with job := { e.job with failed := true, cancelled := true } }
            queued := l.queued - 1 }
      else
        unlink drop rest
          { l with
            worker := { l.worker with queue := l.worker.queue ++ [e] }
            tail := some e.job.id }

/-- The loop from the start, with the tail reset. -/
def unlinkAll (drop : Job → Bool) (l : Linked) : Linked :=
  unlink drop l.worker.queue { l with worker := { l.worker with queue := [] }, tail := none }

/-- `tail->next = job`, or `head = job` without a tail; what hung behind the tail is cut off. -/
def hang (tail : Option Nat) (queue : List Entry) (e : Entry) : List Entry :=
  match tail with
  | none => [e]
  | some id =>
      match queue.find? (·.job.id == id) with
      | some last => queue.takeWhile (·.job.id != id) ++ [last, e]
      | none => queue

/-- The three ways into the queue. -/
def insert (e : Entry) (l : Linked) : Linked :=
  if e.job.release then
    { worker := { l.worker with queue := e :: l.worker.queue }
      tail := if l.tail.isNone then some e.job.id else l.tail
      queued := l.queued + 1 }
  else if e.job.operation != .poll then
    let rest := l.worker.queue.dropWhile fun q => q.job.operation != .poll
    { worker := { l.worker with
        queue := (l.worker.queue.takeWhile fun q => q.job.operation != .poll) ++ e :: rest }
      tail := if rest.isEmpty then some e.job.id else l.tail
      queued := l.queued + 1 }
  else
    { worker := { l.worker with queue := hang l.tail l.worker.queue e }
      tail := some e.job.id
      queued := l.queued + 1 }

/-- `rr_backend_worker_submit`; true is a rejection. -/
def submit (maxVfos : Nat) (halted alloc : Bool) (l : Linked) (q : Request) : Bool × Linked :=
  match q.index with
  | none => (true, l)
  | some i =>
      let release := q.operation == .ptt && !q.on
      if maxVfos ≤ i then (true, l)
      else if halted && !allowedHalted q.operation q.on then (true, l)
      else if l.worker.stopping || decide (queueLimit + maxVfos ≤ l.worker.outstanding) ||
          (!release && decide (queueLimit ≤ l.worker.outstanding)) then (true, l)
      else if q.operation == .poll && l.worker.polls i then (false, l)
      else
        let l := if release then unlinkAll (fun j => j.keyUp && j.index == i) l else l
        if !alloc then (true, l)
        else
          let j : Job := { id := l.worker.nextId, index := i, operation := q.operation, on := q.on,
                           user := q.user, failed := false, cancelled := false, ptt := false }
          let w := { l.worker with outstanding := l.worker.outstanding + 1
                                   nextId := l.worker.nextId + 1 }
          match (if release then w.off i else none) with
          | some parent =>
              (false, { l with
                worker := { w with
                  queue := w.queue.map (fold parent j)
                  executing := w.executing.map fun x => (x.1, fold parent j x.2) } })
          | none =>
              let l := insert ⟨j, []⟩ { l with worker := w }
              (false, { l with
                worker := { l.worker with
                  polls := if q.operation == .poll then Function.update w.polls i true else w.polls
                  off := if release then Function.update w.off i (some j.id) else w.off } })

/-- `rr_backend_worker_stop`, up to the join: only releases stay queued. -/
def stop (l : Linked) : Linked :=
  unlinkAll (fun j => !j.release) { l with worker := { l.worker with stopping := true } }

end Linked

/-! ### A worker and what becomes of its jobs -/

/-- A submission: whether it brings a completion callback.  The two callers that poll,
`queue_poll` and `rr_be_poll`, bring none. -/
structure Submission where
  request : Worker.Request
  complete : Bool
  silent : request.operation = .poll → complete = false
deriving Repr

/-- A worker, the halt flag of its rig, whether its thread is gone, and the record of its
jobs: the accepted ones in the order of submission, those with a callback, every follower
with the release it joined, what the worker thread took, and what was drained and told. -/
structure Ledger where
  linked : Linked
  halted : Bool
  exited : Bool
  accepted : List Job
  complete : Nat → Bool
  follows : List (Nat × Nat)
  taken : List Job
  drained : List Job

namespace Ledger

open Worker

/-- What can happen, on either thread. -/
inductive Event
  | submit (q : Submission) (alloc : Bool)
  | dequeue
  | check
  | call (ok : Bool)
  | finish (ptt : Bool)
  | drain
  | halt (halted : Bool)
  | stop
  | exit
deriving Repr

def start : Ledger := ⟨Linked.start, false, false, [], fun _ => false, [], [], []⟩

def worker (s : Ledger) : Worker := s.linked.worker

/-- Changes the worker where its queue is not touched. -/
def onWorker (f : Worker → Worker) (s : Ledger) : Ledger :=
  { s with linked := { s.linked with worker := f s.linked.worker } }

/-- The release that a submission joins, if it joins one. -/
def joined (q : Request) (w : Worker) : Option Nat :=
  if q.operation == .ptt && !q.on then q.index.bind w.off else none

def submit (p : Setup) (s : Ledger) (q : Submission) (alloc : Bool) : Ledger :=
  let (_, linked) := Linked.submit p.maxVfos s.halted alloc s.linked q.request
  if linked.worker.nextId = s.worker.nextId then { s with linked := linked }
  else
    { s with
      linked := linked
      accepted := s.accepted ++
        [{ id := s.worker.nextId, index := q.request.index.getD 0, operation := q.request.operation,
           on := q.request.on, user := q.request.user, failed := false, cancelled := false,
           ptt := false }]
      complete := Function.update s.complete s.worker.nextId q.complete
      follows := s.follows ++ (joined q.request s.worker).toList.map fun p =>
        (s.worker.nextId, p) }

/-- The head that the worker thread takes. -/
def next (w : Worker) : Option Job :=
  match w.executing, w.queue with
  | none, e :: _ => some e.job
  | _, _ => none

def step (p : Setup) (s : Ledger) : Event → Ledger
  | .submit q alloc => submit p s q alloc
  | .dequeue =>
      { s with linked := s.linked.dequeue, taken := s.taken ++ (next s.worker).toList }
  | .check => s.onWorker (check s.halted)
  | .call ok => s.onWorker (call p.pttSet ok)
  | .finish ptt => s.onWorker (finish ptt)
  | .drain =>
      { s.onWorker fun w => (drain w).2 with
        drained := s.drained ++ (drain s.worker).1.toList }
  | .halt halted => { s with halted := halted }
  | .stop => { s with linked := s.linked.stop }
  | .exit =>
      if s.worker.stopping && s.worker.queue.isEmpty && s.worker.executing.isNone && !s.exited then
        { s.onWorker fun w => (List.range p.maxVfos).foldl (Linked.finalRelease p.pttSet) w with
          exited := true }
      else s

def run (p : Setup) (s : Ledger) (es : List Event) : Ledger := es.foldl (step p) s

/-- The completions delivered, in order: the drained jobs that have a callback. -/
def delivered (s : Ledger) : List Job := s.drained.filter fun j => s.complete j.id

end Ledger

end RustyRig

/-!
The end of the hardware worker, as the hardware sees it.

`worker_main` leaves its loop once it is told to stop and its queue is empty.  Before it
returns it goes over its `keyed` table and releases what still reads as keyed.  The table
is indexed by native index; the VFO that the release names is the one whose alias is the
letter of that index.

`Keyer` is a `Ledger` together with every `ptt_set` that was made on the backend, from
`execute` or from that last loop, and with the backend's answer.  The VFOs of the rig are
those it was configured with.
-/

namespace RustyRig

/-- A `ptt_set`: the native index of its VFO, its value, and whether it succeeded. -/
structure Keying where
  index : Nat
  on : Bool
  ok : Bool
deriving DecidableEq, Repr

/-- The value of the last `ptt_set` that succeeded on an index, the newest call first. -/
def lastSet (calls : List Keying) (i : Nat) : Option Bool :=
  (calls.find? fun c => c.index == i && c.ok).map Keying.on

/-- The backend and the rig of a worker; `lookup` is `vfo_lookup`. -/
structure Bench where
  setup : Worker.Setup
  lookup : Char → Option Nat
  rig : ServerRig

namespace Bench

/-- The native index of the VFO with this handle, if it is one of the rig's. -/
def indexOf (b : Bench) (vfo : Nat) : Option Nat :=
  (b.rig.vfos.find? (·.handle == vfo)).bind (·.nativeIndex b.lookup)

/-- `'A' + i`, as an alias. -/
def letter (i : Nat) : String := String.singleton (Char.ofNat ('A'.toNat + i))

/-- The VFO that the last loop finds for an index, by its native index. -/
def resolve (b : Bench) (i : Nat) : Option Nat :=
  (b.rig.findAlias (letter i)).bind (·.nativeIndex b.lookup)

/-- The `ptt_set` of one turn of the last loop.  A VFO without a native index is no VFO of the
hardware. -/
def finalCall (b : Bench) (answer : Nat → Bool) (w : Worker) (i : Nat) : Option Keying :=
  if w.keyed i && b.setup.pttSet then (b.resolve i).map fun j => ⟨j, false, answer i⟩ else none

/-- The `ptt_set`s of the last loop, the newest first. -/
def finalCalls (b : Bench) (answer : Nat → Bool) (w : Worker) : List Keying :=
  ((List.range b.setup.maxVfos).filterMap (b.finalCall answer w)).reverse

end Bench

/-- A worker and the `ptt_set`s its backend saw, the newest first. -/
structure Keyer where
  ledger : Ledger
  calls : List Keying

namespace Keyer

open Worker

/-- What can happen.  A submission names a VFO by its handle, and its index is that of the VFO;
`answer` is what the backend says to the releases of the last loop. -/
inductive Event
  | submit (vfo : Nat) (q : Submission) (alloc : Bool)
  | dequeue
  | check
  | call (ok : Bool)
  | finish (ptt : Bool)
  | drain
  | halt (halted : Bool)
  | stop
  | exit (answer : Nat → Bool)

def start : Keyer := ⟨Ledger.start, []⟩

def worker (s : Keyer) : Worker := s.ledger.worker

/-- The submission as the worker gets it. -/
def onVfo (b : Bench) (vfo : Nat) (q : Submission) : Submission :=
  ⟨{ q.request with index := b.indexOf vfo }, q.complete, q.silent⟩

def event (b : Bench) : Event → Ledger.Event
  | .submit vfo q alloc => .submit (onVfo b vfo q) alloc
  | .dequeue => .dequeue
  | .check => .check
  | .call ok => .call ok
  | .finish ptt => .finish ptt
  | .drain => .drain
  | .halt halted => .halt halted
  | .stop => .stop
  | .exit _ => .exit

/-- The worker thread has left its loop and not yet returned. -/
def leaving (s : Keyer) : Bool :=
  s.worker.stopping && s.worker.queue.isEmpty && s.worker.executing.isNone && !s.ledger.exited

/-- The `ptt_set`s of an event, the newest first. -/
def made (b : Bench) (s : Keyer) : Event → List Keying
  | .call ok => ((pttCall b.setup.pttSet s.worker).map fun c => ⟨c.1, c.2, ok⟩).toList
  | .exit answer => if s.leaving then b.finalCalls answer s.worker else []
  | _ => []

def step (b : Bench) (s : Keyer) (e : Event) : Keyer where
  ledger := Ledger.step b.setup s.ledger (event b e)
  calls := made b s e ++ s.calls

def run (b : Bench) (s : Keyer) (es : List Event) : Keyer := es.foldl (step b) s

end Keyer

end RustyRig
