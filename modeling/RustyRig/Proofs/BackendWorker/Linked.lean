/-
The tail pointer and the counter of the queue.

`Threaded` says what they should be: the tail is the last job, and the counter the
length.  Each function of `Linked` keeps it and does to the worker what the function
of `Worker` does, so everything proved of the list holds of the chain.
-/
import RustyRig.Rrserver.BackendQueue
import RustyRig.Proofs.BackendWorker.Dominance

namespace RustyRig

namespace Linked

open Worker

variable {l : Linked} {q : Request}

/-- The address of the last job of a queue. -/
def lastId (queue : List Entry) : Option Nat := queue.getLast?.map (·.job.id)

/-- The tail is the last job of the queue and the counter its length. -/
structure Threaded (l : Linked) : Prop where
  tail : l.tail = lastId l.worker.queue
  queued : l.queued = l.worker.queue.length

@[simp] theorem lastId_nil : lastId [] = none := rfl

theorem lastId_append (queue : List Entry) (e : Entry) :
    lastId (queue ++ [e]) = some e.job.id := by
  simp [lastId]

theorem lastId_eq_none {queue : List Entry} : lastId queue = none ↔ queue = [] := by
  simp [lastId]

/-- The end of a queue has its last job, unless it is empty. -/
theorem lastId_append_of_ne (queue : List Entry) {rest : List Entry} (h : rest ≠ []) :
    lastId (queue ++ rest) = lastId rest := by
  rw [lastId, lastId, List.getLast?_append_of_ne_nil _ h]

theorem lastId_append_cons (queue rest : List Entry) (e : Entry) :
    lastId (queue ++ e :: rest) = if rest.isEmpty then some e.job.id else lastId rest := by
  rw [lastId_append_of_ne queue (List.cons_ne_nil e rest)]
  cases rest with
  | nil => rfl
  | cons r rest => exact lastId_append_of_ne [e] (List.cons_ne_nil r rest)

/-! ### Unlinking -/

/-- How a job that is unlinked is filed. -/
def file (w : Worker) (e : Entry) : Worker :=
  finishJob w { e with job := { e.job with failed := true, cancelled := true } }

theorem foldl_file_queue (es : List Entry) (w : Worker) : (es.foldl file w).queue = w.queue := by
  induction es generalizing w with
  | nil => rfl
  | cons e es ih => exact ih (file w e)

/-- The loop files what it drops and keeps the rest in order; the tail is the last it kept. -/
theorem unlink_eq (drop : Job → Bool) (es : List Entry) (l : Linked) :
    (unlink drop es l).worker =
        (es.filter fun e => drop e.job).foldl file
          { l.worker with queue := l.worker.queue ++ es.filter fun e => !drop e.job } ∧
      (unlink drop es l).tail = (lastId (es.filter fun e => !drop e.job)).or l.tail ∧
      (unlink drop es l).queued = l.queued - es.countP fun e => drop e.job := by
  induction es generalizing l with
  | nil => simp [unlink]
  | cons e es ih =>
      rw [unlink]
      cases hd : drop e.job with
      | true =>
          obtain ⟨hw, ht, hq⟩ := ih { l with
            worker := finishJob l.worker
              { e with job := { e.job with failed := true, cancelled := true } }
            queued := l.queued - 1 }
          simp only [if_true, List.filter_cons, hd, Bool.not_true, Bool.false_eq_true, if_false,
            List.foldl_cons]
          refine ⟨hw, ht, ?_⟩
          rw [hq, List.countP_cons_of_pos (p := fun e : Entry => drop e.job) hd]
          show l.queued - 1 - _ = _
          omega
      | false =>
          obtain ⟨hw, ht, hq⟩ := ih { l with
            worker := { l.worker with queue := l.worker.queue ++ [e] }
            tail := some e.job.id }
          simp only [Bool.false_eq_true, if_false, List.filter_cons, hd, Bool.not_false, if_true]
          refine ⟨?_, ?_, ?_⟩
          · rw [hw]
            simp
          · rw [ht]
            cases hrest : es.filter fun e => !drop e.job with
            | nil => rfl
            | cons r rest =>
                obtain ⟨k, hk⟩ := Option.ne_none_iff_exists'.mp
                  (mt lastId_eq_none.mp (List.cons_ne_nil r rest))
                have hlast := lastId_append_of_ne [e] (List.cons_ne_nil r rest)
                rw [List.singleton_append] at hlast
                rw [hlast, hk]
                rfl
          · rw [hq, List.countP_cons_of_neg (p := fun e : Entry => drop e.job) (by simp [hd])]

theorem unlinkAll_worker (drop : Job → Bool) (l : Linked) :
    (unlinkAll drop l).worker =
      (l.worker.queue.filter fun e => drop e.job).foldl file
        { l.worker with queue := l.worker.queue.filter fun e => !drop e.job } :=
  (unlink_eq drop _ _).1

theorem Threaded.unlinkAll (h : Threaded l) (drop : Job → Bool) :
    Threaded (l.unlinkAll drop) := by
  obtain ⟨-, ht, hq⟩ := unlink_eq drop l.worker.queue
    { l with worker := { l.worker with queue := [] }, tail := none }
  have hqueue : (l.unlinkAll drop).worker.queue =
      l.worker.queue.filter fun e => !drop e.job := by
    rw [unlinkAll_worker, foldl_file_queue]
  refine ⟨?_, ?_⟩
  · rw [hqueue, Linked.unlinkAll, ht, Option.or_none]
  · rw [hqueue, Linked.unlinkAll, hq, ← List.countP_eq_length_filter]
    have hsum := List.length_eq_countP_add_countP (fun e => drop e.job) (l := l.worker.queue)
    have hlen := h.queued
    have hneg : (l.worker.queue.countP fun e => decide ¬ drop e.job = true) =
        l.worker.queue.countP fun e => !drop e.job := by
      refine List.countP_congr fun e _ => ?_
      simp
    rw [hneg] at hsum
    show l.queued - _ = _
    omega

/-- A release unlinks the queued key-ups of its index. -/
theorem unlinkAll_keyUps (i : Nat) (l : Linked) :
    (unlinkAll (fun j => j.keyUp && j.index == i) l).worker = cancelKeyUps i l.worker :=
  unlinkAll_worker _ l

/-- Stopping unlinks everything but releases. -/
theorem stop_worker (l : Linked) : l.stop.worker = Worker.stop l.worker := by
  rw [Linked.stop, unlinkAll_worker, Worker.stop]
  simp only [Bool.not_not]
  rfl

theorem Threaded.stop (h : Threaded l) : Threaded l.stop := by
  have hflag : Threaded { l with worker := { l.worker with stopping := true } } :=
    ⟨h.tail, h.queued⟩
  exact hflag.unlinkAll _

/-! ### Taking and inserting -/

theorem dequeue_worker (l : Linked) : l.dequeue.worker = Worker.dequeue l.worker := by
  unfold Linked.dequeue Worker.dequeue
  cases hx : l.worker.executing with
  | some x => rfl
  | none =>
      cases hq : l.worker.queue with
      | nil => rfl
      | cons e rest => rfl

theorem Threaded.dequeue (h : Threaded l) : Threaded l.dequeue := by
  rw [Linked.dequeue]
  split
  · rename_i e rest hx hq
    have htail := h.tail
    have hqueued := h.queued
    rw [hq] at htail hqueued
    refine ⟨?_, ?_⟩
    · show (if rest.isEmpty then none else l.tail) = lastId rest
      rw [htail]
      have hlast := lastId_append_cons [] rest e
      rw [List.nil_append] at hlast
      rw [hlast]
      cases rest with
      | nil => rfl
      | cons r rest => rfl
    · show l.queued - 1 = rest.length
      rw [hqueued, List.length_cons]
      omega
  · exact h

/-- Hanging a job on the tail appends it, if the tail is the last job and no other has its
number. -/
theorem hang_last {queue : List Entry} (hnd : (queue.map (·.job.id)).Nodup) (e : Entry) :
    hang (lastId queue) queue e = queue ++ [e] := by
  rcases List.eq_nil_or_concat queue with rfl | ⟨init, last, rfl⟩
  · rfl
  · rw [List.concat_eq_append] at hnd ⊢
    rw [List.map_append, List.nodup_append] at hnd
    have hne : ∀ k ∈ init, k.job.id ≠ last.job.id := by
      intro k hk
      exact hnd.2.2 _ (List.mem_map_of_mem hk) _ (by simp)
    have hfind : (init ++ [last]).find? (·.job.id == last.job.id) = some last := by
      rw [List.find?_append]
      have hnone : init.find? (·.job.id == last.job.id) = none :=
        List.find?_eq_none.mpr fun k hk => by simpa using hne k hk
      rw [hnone]
      simp
    have htake : (init ++ [last]).takeWhile (·.job.id != last.job.id) = init := by
      rw [List.takeWhile_append_of_pos fun k hk => by simpa using hne k hk]
      simp
    rw [lastId_append, hang]
    simp only [hfind, htake]
    simp

/-- A job enters the chain where it enters the list. -/
theorem insert_worker (h : Threaded l) (hnd : (l.worker.queue.map (·.job.id)).Nodup) (e : Entry) :
    (insert e l).worker = { l.worker with queue := enqueue e l.worker.queue } := by
  unfold insert enqueue
  cases hr : e.job.release with
  | true => rfl
  | false =>
      by_cases hp : e.job.operation = .poll
      · simp only [Bool.false_eq_true, if_false, hp, bne_self_eq_false, beq_self_eq_true, if_true]
        rw [h.tail, hang_last hnd]
      · simp only [Bool.false_eq_true, if_false, bne_iff_ne.mpr hp, beq_eq_false_iff_ne.mpr hp,
          if_true]

theorem Threaded.insert (h : Threaded l) (hnd : (l.worker.queue.map (·.job.id)).Nodup)
    (e : Entry) : Threaded (insert e l) := by
  have hlen : l.queued + 1 = (enqueue e l.worker.queue).length := by
    rw [h.queued, enqueue]
    split
    · rfl
    split
    · simp
    · rw [List.length_append, List.length_cons, ← Nat.add_assoc, ← List.length_append,
        List.takeWhile_append_dropWhile]
  refine ⟨?_, ?_⟩
  · rw [insert_worker h hnd]
    show (Linked.insert e l).tail = lastId (enqueue e l.worker.queue)
    unfold Linked.insert enqueue
    cases hr : e.job.release with
    | true =>
        have hlast := lastId_append_cons [] l.worker.queue e
        rw [List.nil_append] at hlast
        simp only [if_true]
        rw [hlast, h.tail]
        cases hq : l.worker.queue with
        | nil => rfl
        | cons k rest => simp [lastId]
    | false =>
        by_cases hp : e.job.operation = .poll
        · simp only [Bool.false_eq_true, if_false, hp, bne_self_eq_false, beq_self_eq_true,
            if_true]
          rw [lastId_append]
        · simp only [Bool.false_eq_true, if_false, bne_iff_ne.mpr hp, beq_eq_false_iff_ne.mpr hp,
            if_true]
          rw [lastId_append_cons, h.tail]
          split
          · rfl
          · rename_i hne
            rw [List.isEmpty_iff] at hne
            have hend := lastId_append_of_ne
              (l.worker.queue.takeWhile fun q => q.job.operation != .poll) hne
            rw [List.takeWhile_append_dropWhile] at hend
            exact hend
  · rw [insert_worker h hnd]
    show (Linked.insert e l).queued = _
    rw [← hlen]
    unfold Linked.insert
    split
    · rfl
    split
    · rfl
    · rfl

/-! ### Submitting -/

theorem keptIds (h : Kept l.worker) : (l.worker.queue.map (·.job.id)).Nodup := by
  have hnd := h.nodup
  unfold jobs waiting at hnd
  rw [List.map_append, List.nodup_append, List.map_map] at hnd
  exact hnd.2.1

/-- The loop over the key-ups keeps the books. -/
theorem kept_cancelKeyUps {w : Worker} (h : Kept w) (i : Nat) : Kept (cancelKeyUps i w) := by
  obtain ⟨hcur, hwait, hoff, hnext⟩ := cancelKeyUps_view i h.offReleases
  unfold Kept jobs
  rw [hcur, hwait, hoff, hnext]
  exact h.filter (keeps_release i) (Nat.le_refl _)

/-- **The chain does what the list does.**  A submission is answered alike, leaves the same
worker, and the tail and the counter right. -/
theorem submit_refines (h : Threaded l) (hk : Kept l.worker) (maxVfos : Nat)
    (halted alloc : Bool) (q : Request) :
    (Linked.submit maxVfos halted alloc l q).1 =
        (Worker.submit maxVfos halted alloc l.worker q).1 ∧
      (Linked.submit maxVfos halted alloc l q).2.worker =
        (Worker.submit maxVfos halted alloc l.worker q).2 ∧
      Threaded (Linked.submit maxVfos halted alloc l q).2 := by
  unfold Linked.submit Worker.submit
  cases q.index with
  | none => exact ⟨rfl, rfl, h⟩
  | some i =>
  simp only
  by_cases hindex : maxVfos ≤ i
  · rw [if_pos hindex, if_pos hindex]
    exact ⟨rfl, rfl, h⟩
  rw [if_neg hindex, if_neg hindex]
  by_cases hhalt : (halted && !allowedHalted q.operation q.on) = true
  · rw [if_pos hhalt, if_pos hhalt]
    exact ⟨rfl, rfl, h⟩
  rw [if_neg hhalt, if_neg hhalt]
  by_cases hfull : (l.worker.stopping || decide (queueLimit + maxVfos ≤ l.worker.outstanding) ||
      (!(q.operation == .ptt && !q.on) && decide (queueLimit ≤ l.worker.outstanding))) = true
  · rw [if_pos hfull, if_pos hfull]
    exact ⟨rfl, rfl, h⟩
  rw [if_neg hfull, if_neg hfull]
  by_cases hpoll : (q.operation == .poll && l.worker.polls i) = true
  · rw [if_pos hpoll, if_pos hpoll]
    exact ⟨rfl, rfl, h⟩
  rw [if_neg hpoll, if_neg hpoll]
  -- From here on both see the queue without the key-ups the release cancels.
  have hclear : ∃ m : Linked, Threaded m ∧ Kept m.worker ∧
      (if (q.operation == .ptt && !q.on) = true then
        unlinkAll (fun j => j.keyUp && j.index == i) l else l) = m ∧
      (if (q.operation == .ptt && !q.on) = true then cancelKeyUps i l.worker
        else l.worker) = m.worker := by
    by_cases hr : (q.operation == .ptt && !q.on) = true
    · refine ⟨_, h.unlinkAll fun j => j.keyUp && j.index == i, ?_, if_pos hr, ?_⟩
      · rw [unlinkAll_keyUps]
        exact kept_cancelKeyUps hk i
      · rw [if_pos hr, unlinkAll_keyUps]
    · exact ⟨l, h, hk, if_neg hr, if_neg hr⟩
  obtain ⟨m, hm, hkm, hl, hw⟩ := hclear
  rw [hl, hw]
  cases alloc with
  | false => exact ⟨rfl, rfl, hm⟩
  | true =>
  simp only [Bool.not_true, Bool.false_eq_true, if_false]
  generalize (if (q.operation == .ptt && !q.on) = true then m.worker.off i else none) = parent
  cases parent with
  | some parent =>
    refine ⟨rfl, rfl, ?_, ?_⟩
    · show m.tail = lastId (m.worker.queue.map _)
      rw [hm.tail, lastId, lastId, List.getLast?_map, Option.map_map]
      congr 1
      funext e
      simp [fold_job]
    · show m.queued = (m.worker.queue.map _).length
      rw [hm.queued, List.length_map]
  | none =>
    let w : Worker := { m.worker with outstanding := m.worker.outstanding + 1
                                      nextId := m.worker.nextId + 1 }
    have hmw : Threaded { m with worker := w } := ⟨hm.tail, hm.queued⟩
    have hnd : (w.queue.map (·.job.id)).Nodup := keptIds hkm
    have hins := insert_worker hmw hnd
    refine ⟨rfl, ?_, ?_⟩
    · simp only
      rw [hins]
    · have ht := hmw.insert hnd ⟨q.job i m.worker.nextId, []⟩
      exact ⟨ht.tail, ht.queued⟩

end Linked

end RustyRig

/-!
The jobs a worker holds.

From its acceptance until it is drained a job is held: in the queue or in hand, as a
leader or among the followers of one, or done.  A function of the worker only moves
jobs between these places, always from the first two to the last and a leader with
its followers; a submission adds one job and a drain removes one.  `Filed`, `Joined`
and `drain_held` are these three, and all that is counted about jobs follows from
them.
-/

namespace RustyRig

namespace Entry

/-- A job and its followers. -/
def all (e : Entry) : List Job := e.job :: e.followers

/-- An entry without outcomes. -/
def bare (e : Entry) : Entry := ⟨e.job.bare, e.followers.map Job.bare⟩

/-- How `finish_job_locked` files an entry. -/
def settled (e : Entry) : List Job :=
  e.job :: e.followers.map fun f =>
    { f with failed := e.job.failed, cancelled := e.job.cancelled, ptt := e.job.ptt }

theorem settled_bare (e : Entry) : e.settled.map Job.bare = e.bare.all := by
  simp [settled, bare, all, Job.bare]

end Entry

namespace Worker

variable {w w' : Worker} {q : Request}

/-- The entry in hand and those in the queue. -/
def entries (w : Worker) : List Entry := (w.executing.map Prod.snd).toList ++ w.queue

/-- The same without outcomes. -/
def shape (w : Worker) : List Entry := w.entries.map Entry.bare

/-- Every job not drained yet. -/
def held (w : Worker) : List Job := w.shape.flatMap Entry.all ++ w.done.map Job.bare

theorem shape_jobs (w : Worker) : w.shape.map (·.job) = w.jobs := by
  unfold shape entries jobs current waiting
  rw [List.map_map, List.map_append]
  cases w.executing with
  | none => rfl
  | some x => rfl

/-- Some entries are settled, and nothing else happens to the jobs. -/
def Filed (w w' : Worker) : Prop :=
  ∃ gone : List Entry, w.shape.Perm (gone.map Entry.bare ++ w'.shape) ∧
    w'.done = w.done ++ gone.flatMap Entry.settled ∧ w'.outstanding = w.outstanding ∧
    w'.polls = w.polls ∧ w'.nextId = w.nextId

theorem Filed.of_shape (hs : w'.shape = w.shape) (hd : w'.done = w.done)
    (ho : w'.outstanding = w.outstanding) (hp : w'.polls = w.polls)
    (hn : w'.nextId = w.nextId) : Filed w w' :=
  ⟨[], by rw [hs]; exact List.Perm.refl _, by simpa using hd, ho, hp, hn⟩

theorem Filed.refl (w : Worker) : Filed w w := .of_shape rfl rfl rfl rfl rfl

/-- What is filed is still held. -/
theorem Filed.held (h : Filed w w') : w'.held.Perm w.held := by
  obtain ⟨gone, hshape, hdone, -⟩ := h
  have hgone : (gone.flatMap Entry.settled).map Job.bare =
      (gone.map Entry.bare).flatMap Entry.all := by
    rw [List.map_flatMap, List.flatMap_map]
    exact List.flatMap_congr fun e _ => e.settled_bare
  unfold Worker.held
  rw [hdone, List.map_append, hgone]
  refine List.Perm.trans ?_ ((hshape.flatMap_right Entry.all).append_right _).symm
  rw [List.flatMap_append, List.append_assoc, ← List.append_assoc]
  exact List.perm_append_comm

/-! ### The worker thread -/

theorem dequeue_filed (w : Worker) : Filed w (dequeue w) := by
  rw [dequeue]
  split
  · rename_i e rest hx hq
    refine .of_shape ?_ rfl rfl rfl rfl
    simp [shape, entries, hx, hq]
  · exact .refl w

theorem check_filed (halted : Bool) (w : Worker) : Filed w (check halted w) := by
  rw [check]
  split
  · rename_i e hx
    split
    · exact .of_shape (by simp [shape, entries, hx, Entry.bare, Job.bare]) rfl rfl rfl rfl
    · exact .of_shape (by simp [shape, entries, hx]) rfl rfl rfl rfl
  · exact .refl w

theorem call_filed (pttSet ok : Bool) (w : Worker) : Filed w (call pttSet ok w) := by
  rw [call]
  split
  · rename_i e hx
    exact .of_shape (by simp [shape, entries, hx, Entry.bare, Job.bare]) rfl rfl rfl rfl
  · exact .refl w

theorem finish_filed (ptt : Bool) (w : Worker) : Filed w (finish ptt w) := by
  rw [finish]
  split
  · rename_i e hx
    refine ⟨[{ e with job := { e.job with ptt := ptt } }], ?_, ?_, rfl, rfl, rfl⟩
    · have hshape : w.shape = e.bare :: w.queue.map Entry.bare := by simp [shape, entries, hx]
      rw [hshape]
      exact List.Perm.refl _
    · show w.done ++ _ = w.done ++ _
      rw [List.flatMap_singleton]
      rfl
  · exact .refl w

/-! ### The server thread -/

/-- A job that is unlinked, with its outcome. -/
def revoked (e : Entry) : Entry :=
  { e with job := { e.job with failed := true, cancelled := true } }

theorem foldl_file_done (es : List Entry) (w : Worker) :
    (es.foldl Linked.file w).done = w.done ++ (es.map revoked).flatMap Entry.settled ∧
      (es.foldl Linked.file w).executing = w.executing ∧
      (es.foldl Linked.file w).outstanding = w.outstanding ∧
      (es.foldl Linked.file w).polls = w.polls ∧ (es.foldl Linked.file w).nextId = w.nextId ∧
      (es.foldl Linked.file w).stopping = w.stopping := by
  induction es generalizing w with
  | nil => simp
  | cons e es ih =>
      obtain ⟨hd, hx, ho, hp, hn, hs⟩ := ih (Linked.file w e)
      refine ⟨?_, hx, ho, hp, hn, hs⟩
      rw [List.foldl_cons, hd, List.map_cons, List.flatMap_cons, ← List.append_assoc]
      rfl

/-- Unlinking some jobs of the queue files them. -/
theorem unlink_filed (drop : Job → Bool) (w : Worker) :
    Filed w ((w.queue.filter fun e => drop e.job).foldl Linked.file
      { w with queue := w.queue.filter fun e => !drop e.job }) := by
  obtain ⟨hd, hx, ho, hp, hn, -⟩ := foldl_file_done (w.queue.filter fun e => drop e.job)
    { w with queue := w.queue.filter fun e => !drop e.job }
  have hq := Linked.foldl_file_queue (w.queue.filter fun e => drop e.job)
    { w with queue := w.queue.filter fun e => !drop e.job }
  refine ⟨(w.queue.filter fun e => drop e.job).map revoked, ?_, hd, ho, hp, hn⟩
  have hbare : ((w.queue.filter fun e => drop e.job).map revoked).map Entry.bare =
      (w.queue.filter fun e => drop e.job).map Entry.bare := by
    rw [List.map_map]
    rfl
  rw [hbare, shape, shape, entries, entries, hx, hq, List.map_append, List.map_append]
  refine List.Perm.trans ?_ (List.perm_append_comm_assoc _ _ _)
  refine List.Perm.append_left _ ?_
  rw [← List.map_append]
  exact ((List.filter_append_perm (fun e : Entry => drop e.job) w.queue).symm).map _

theorem cancelKeyUps_filed (i : Nat) (w : Worker) : Filed w (cancelKeyUps i w) :=
  unlink_filed (fun j => j.keyUp && j.index == i) w

theorem stop_filed (w : Worker) : Filed w (stop w) := by
  have h := unlink_filed (fun j => !j.release) { w with stopping := true }
  simp only [Bool.not_not] at h
  exact h

/-- A submission that is let in: the job joins an outstanding release or is queued. -/
def letIn (i : Nat) (q : Request) (w : Worker) : Worker :=
  match (if q.operation == .ptt && !q.on then w.off i else none) with
  | some parent =>
      { w with
        outstanding := w.outstanding + 1
        nextId := w.nextId + 1
        queue := w.queue.map (fold parent (q.job i w.nextId))
        executing := w.executing.map fun x => (x.1, fold parent (q.job i w.nextId) x.2) }
  | none =>
      { w with
        outstanding := w.outstanding + 1
        nextId := w.nextId + 1
        queue := enqueue ⟨q.job i w.nextId, []⟩ w.queue
        polls := if q.operation == .poll then Function.update w.polls i true else w.polls
        off := if q.operation == .ptt && !q.on then Function.update w.off i (some w.nextId)
          else w.off }

/-- The worker that a submission finds when it comes to the queue. -/
def cleared (i : Nat) (q : Request) (w : Worker) : Worker :=
  if q.operation == .ptt && !q.on then cancelKeyUps i w else w

/-- What the checks of a submission have found when it comes to the queue. -/
structure Passed (maxVfos : Nat) (halted : Bool) (w : Worker) (q : Request) (i : Nat) : Prop where
  index : q.index = some i
  bound : i < maxVfos
  unhalted : halted = true → allowedHalted q.operation q.on = true
  running : w.stopping = false
  room : w.outstanding < queueLimit + maxVfos
  normal : (q.operation == .ptt && !q.on) = false → w.outstanding < queueLimit
  unpolled : q.operation = .poll → w.polls i = false

/-- Once the checks are passed only memory can be missing. -/
theorem submit_passed {maxVfos : Nat} {halted : Bool} {i : Nat}
    (h : Passed maxVfos halted w q i) (alloc : Bool) :
    submit maxVfos halted alloc w q =
      if alloc then (false, letIn i q (cleared i q w)) else (true, cleared i q w) := by
  have hhalt : (halted && !allowedHalted q.operation q.on) = false := by
    cases halted with
    | false => rfl
    | true => simp [h.unhalted rfl]
  have hfull : (w.stopping || decide (queueLimit + maxVfos ≤ w.outstanding) ||
      (!(q.operation == .ptt && !q.on) && decide (queueLimit ≤ w.outstanding))) = false := by
    have hroom := h.room
    have hnormal := h.normal
    cases hr : (q.operation == .ptt && !q.on) with
    | true => simp [h.running, hroom]
    | false => simp [h.running, hroom, hnormal hr]
  have hpoll : (q.operation == .poll && w.polls i) = false := by
    by_cases hp : q.operation = .poll
    · simp [h.unpolled hp]
    · simp [hp]
  unfold submit
  rw [h.index]
  simp only [Nat.not_le.mpr h.bound, hhalt, hfull, hpoll, Bool.false_eq_true, if_false]
  cases alloc with
  | false => rfl
  | true =>
      simp only [Bool.not_true, Bool.false_eq_true, if_false, if_true]
      unfold letIn cleared
      generalize (if (q.operation == .ptt && !q.on) = true then cancelKeyUps i w else w) = m
      generalize (if (q.operation == .ptt && !q.on) = true then m.off i else none) = parent
      cases parent with
      | none => rfl
      | some parent => rfl

/-- A submission does not pass the checks and changes nothing, or it does. -/
theorem submit_spec (maxVfos : Nat) (halted alloc : Bool) (w : Worker) (q : Request) :
    ((submit maxVfos halted alloc w q).2 = w ∧
        ((submit maxVfos halted alloc w q).1 = false → q.operation = .poll)) ∨
      ∃ i, Passed maxVfos halted w q i := by
  by_cases h : ∃ i, Passed maxVfos halted w q i
  · exact Or.inr h
  refine Or.inl ?_
  unfold submit
  split
  · exact ⟨rfl, fun h => absurd h (by simp)⟩
  rename_i i hi
  simp only
  split
  · exact ⟨rfl, fun h => absurd h (by simp)⟩
  rename_i hbound
  split
  · exact ⟨rfl, fun h => absurd h (by simp)⟩
  rename_i hhalt
  split
  · exact ⟨rfl, fun h => absurd h (by simp)⟩
  rename_i hfull
  split
  · rename_i hpoll
    simp only [Bool.and_eq_true, beq_iff_eq] at hpoll
    exact ⟨rfl, fun _ => hpoll.1⟩
  · rename_i hpoll
    simp only [Bool.or_eq_true, Bool.and_eq_true, decide_eq_true_eq, not_or, not_and,
      Bool.not_eq_true', Nat.not_le, Bool.not_eq_true] at hbound hhalt hfull hpoll
    refine absurd ⟨i, hi, hbound, ?_, hfull.1.1, hfull.1.2, hfull.2, ?_⟩ h
    · intro hh
      simpa using hhalt hh
    · exact fun hp => hpoll (beq_iff_eq.mpr hp)

/-- A release that joins: one follower more for the entry it names. -/
theorem fold_all {parent : Nat} {j : Job} :
    ∀ {es : List Entry}, (es.map (·.job.id)).Nodup → (∃ e ∈ es, e.job.id = parent) →
      ((es.map (fold parent j)).flatMap Entry.all).Perm (j :: es.flatMap Entry.all) := by
  intro es
  induction es with
  | nil =>
      rintro - ⟨e, he, -⟩
      exact absurd he (by simp)
  | cons e es ih =>
      intro hnd hmem
      rw [List.map_cons, List.nodup_cons] at hnd
      by_cases he : e.job.id = parent
      · have hrest : es.map (fold parent j) = es := by
          refine (List.map_congr_left fun k hk => ?_).trans (List.map_id es)
          have hk' : k.job.id ≠ parent := fun hc =>
            hnd.1 (he ▸ hc ▸ List.mem_map_of_mem hk)
          simp [fold, hk']
        rw [List.map_cons, hrest, List.flatMap_cons, List.flatMap_cons]
        have hfold : (fold parent j e).all = e.job :: j :: e.followers := by
          simp [fold, he, Entry.all]
        rw [hfold]
        exact List.Perm.swap _ _ _
      · have hex : ∃ k ∈ es, k.job.id = parent := by
          obtain ⟨k, hk, hkid⟩ := hmem
          rcases List.mem_cons.mp hk with rfl | hk
          · exact absurd hkid he
          · exact ⟨k, hk, hkid⟩
        have hfold : fold parent j e = e := by simp [fold, he]
        rw [List.map_cons, List.flatMap_cons, List.flatMap_cons, hfold]
        exact (List.Perm.append_left _ (ih hnd.2 hex)).trans List.perm_middle

/-- What a submission that is let in leaves: one job more, in one of two places. -/
inductive LetIn (i : Nat) (q : Request) (w w' : Worker) : Prop
  | joined (parent : Nat) (hr : q.operation = .ptt ∧ q.on = false) (hoff : w.off i = some parent)
      (shape : w'.shape = w.shape.map (fold parent (q.job i w.nextId)))
      (polls : w'.polls = w.polls)
  | queued (hr : q.operation = .ptt ∧ q.on = false → w.off i = none)
      (executing : w'.executing = w.executing)
      (queue : w'.queue = enqueue ⟨q.job i w.nextId, []⟩ w.queue)
      (polls : w'.polls = if q.operation == .poll then Function.update w.polls i true else w.polls)

theorem letIn_cases (i : Nat) (q : Request) (w : Worker) :
    (letIn i q w).outstanding = w.outstanding + 1 ∧ (letIn i q w).nextId = w.nextId + 1 ∧
      (letIn i q w).done = w.done ∧ LetIn i q w (letIn i q w) := by
  unfold letIn
  by_cases hr : q.operation = .ptt ∧ q.on = false
  · have hrel : (q.operation == .ptt && !q.on) = true := by simp [hr.1, hr.2]
    simp only [hrel, if_true]
    cases hoff : w.off i with
    | none =>
        refine ⟨rfl, rfl, rfl, .queued (fun _ => hoff) rfl rfl ?_⟩
        simp [hr.1]
    | some parent =>
        refine ⟨rfl, rfl, rfl, .joined parent hr hoff ?_ rfl⟩
        have hfold : ∀ e : Entry, (fold parent (q.job i w.nextId) e).bare =
            fold parent (q.job i w.nextId) e.bare := by
          intro e
          by_cases he : e.job.id = parent
          · simp [fold, Entry.bare, he]
            rfl
          · simp [fold, Entry.bare, he]
        unfold shape entries
        simp only [List.map_append, List.map_map, Option.map_map]
        congr 1
        · cases w.executing with
          | none => rfl
          | some x => simp [hfold]
        · exact List.map_congr_left fun e _ => hfold e
  · have hrel : (q.operation == .ptt && !q.on) = false := by
      rw [Bool.eq_false_iff]
      simpa using hr
    simp only [hrel, Bool.false_eq_true, if_false]
    exact ⟨trivial, trivial, trivial, .queued (fun hc => absurd hc hr) rfl rfl rfl⟩

/-- A job that is queued is one entry more. -/
theorem enqueue_perm (e : Entry) (queue : List Entry) : (enqueue e queue).Perm (e :: queue) := by
  unfold enqueue
  split
  · exact List.Perm.refl _
  split
  · exact List.perm_append_singleton e queue
  · refine List.perm_middle.trans (List.Perm.cons e ?_)
    rw [List.takeWhile_append_dropWhile]

/-- A submission that is let in adds its job to what is held. -/
theorem letIn_held (h : Kept w) (i : Nat) (q : Request) :
    (letIn i q w).held.Perm (q.job i w.nextId :: w.held) := by
  obtain ⟨-, -, hdone, hcases⟩ := letIn_cases i q w
  have hmore : ((letIn i q w).shape.flatMap Entry.all).Perm
      (q.job i w.nextId :: w.shape.flatMap Entry.all) := by
    cases hcases with
    | joined parent hr hoff hshape hpolls =>
        rw [hshape]
        refine fold_all ?_ ?_
        · have hnd := h.nodup
          rw [← shape_jobs, List.map_map] at hnd
          exact hnd
        · obtain ⟨j, hj, -, -, hid⟩ := h.live i parent hoff
          rw [← shape_jobs] at hj
          obtain ⟨e, he, rfl⟩ := List.mem_map.mp hj
          exact ⟨e, he, hid⟩
    | queued hr hx hq hpolls =>
        have hperm : (letIn i q w).shape.Perm (⟨q.job i w.nextId, []⟩ :: w.shape) := by
          unfold shape entries
          rw [hx, hq]
          refine List.Perm.trans ?_ (List.Perm.refl
            ((⟨q.job i w.nextId, []⟩ :: ((w.executing.map Prod.snd).toList ++ w.queue)).map
              Entry.bare))
          refine List.Perm.map _ ((List.Perm.append_left _ (enqueue_perm _ _)).trans ?_)
          exact List.perm_middle
        exact hperm.flatMap_right Entry.all
  unfold held
  rw [hdone]
  exact hmore.append_right _

/-- A drain takes the first done job. -/
theorem drain_cases (w : Worker) :
    (drain w = (none, w) ∧ w.done = []) ∨
      ∃ j rest, w.done = j :: rest ∧
        (drain w).1 = some (if w.stopping && !j.release then
          { j with failed := true, cancelled := true } else j) ∧
        (drain w).2.done = rest ∧ (drain w).2.shape = w.shape ∧
        (drain w).2.outstanding = w.outstanding - 1 ∧ (drain w).2.nextId = w.nextId ∧
        (drain w).2.polls = if j.operation == .poll then Function.update w.polls j.index false
          else w.polls := by
  unfold drain
  split
  · rename_i hd
    exact Or.inl ⟨rfl, hd⟩
  · rename_i j rest hd
    refine Or.inr ⟨j, rest, hd, rfl, rfl, rfl, rfl, rfl, ?_⟩
    simp only
    split <;> rfl

end Worker

end RustyRig
