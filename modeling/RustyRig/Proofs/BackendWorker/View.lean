/-
What each worker function does to the jobs that still matter.

For ordering, a job is its index and its value, and a worker is the job in hand, the
jobs waiting behind it, and which release is outstanding for which index.  The
lemmas here say for every function what becomes of these four things; nothing after
this module looks inside a function again.

Outcomes are left out by `bare`: whether a job failed changes once it has run, and
has no influence on what runs next.
-/
import RustyRig.Rrserver.BackendWorker

namespace RustyRig

namespace Job

/-- A job without its outcome. -/
def bare (j : Job) : Job := { j with failed := false, cancelled := false, ptt := false }

@[simp] theorem bare_id (j : Job) : j.bare.id = j.id := rfl
@[simp] theorem bare_index (j : Job) : j.bare.index = j.index := rfl
@[simp] theorem bare_operation (j : Job) : j.bare.operation = j.operation := rfl
@[simp] theorem bare_on (j : Job) : j.bare.on = j.on := rfl
@[simp] theorem bare_keyUp (j : Job) : j.bare.keyUp = j.keyUp := rfl
@[simp] theorem bare_release (j : Job) : j.bare.release = j.release := rfl

/-- No job is both. -/
theorem keyUp_not_release {j : Job} (h : j.keyUp = true) : j.release = false := by
  simp only [keyUp, release, Bool.and_eq_true] at h ⊢
  simp [h.2]

theorem release_not_keyUp {j : Job} (h : j.release = true) : j.keyUp = false := by
  simp only [keyUp, release, Bool.and_eq_true, Bool.not_eq_true'] at h ⊢
  simp [h.2]

end Job

namespace Worker

variable {w : Worker} {p : Setup}

/-- The jobs in the queue. -/
def waiting (w : Worker) : List Job := w.queue.map (·.job.bare)

/-- The job in hand. -/
def current (w : Worker) : Option (Phase × Job) := w.executing.map fun x => (x.1, x.2.job.bare)

/-- The same jobs wait and run, with the same releases outstanding. -/
structure Same (w w' : Worker) : Prop where
  current : w'.current = w.current
  waiting : w'.waiting = w.waiting
  off : w'.off = w.off
  nextId : w'.nextId = w.nextId

theorem Same.refl (w : Worker) : Same w w := ⟨rfl, rfl, rfl, rfl⟩

/-! ### The worker thread -/

theorem dequeue_cases (w : Worker) :
    dequeue w = w ∨ ∃ j rest, w.current = none ∧ w.waiting = j :: rest ∧
      (dequeue w).current = some (.taken, j) ∧ (dequeue w).waiting = rest ∧
      (dequeue w).off = w.off ∧ (dequeue w).nextId = w.nextId := by
  rw [dequeue]
  split
  · rename_i e rest hx hq
    exact Or.inr ⟨e.job.bare, rest.map (·.job.bare), by simp [current, hx],
      by simp [waiting, hq], rfl, rfl, rfl, rfl⟩
  · exact Or.inl rfl

/-- The halt check lets a release through. -/
theorem check_cases (halted : Bool) (w : Worker) :
    check halted w = w ∨ ∃ j, w.current = some (.taken, j) ∧
      ((check halted w).current = some (.checked, j) ∨
        ((check halted w).current = some (.ran, j) ∧ j.release = false)) ∧
      (check halted w).waiting = w.waiting ∧ (check halted w).off = w.off ∧
      (check halted w).nextId = w.nextId := by
  rw [check]
  split
  · rename_i e hx
    refine Or.inr ⟨e.job.bare, by simp [current, hx], ?_⟩
    split
    · rename_i hh
      refine ⟨Or.inr ⟨rfl, ?_⟩, rfl, rfl, rfl⟩
      simp only [Bool.and_eq_true, Bool.not_eq_true', allowedHalted, Bool.or_eq_false_iff] at hh
      exact hh.2.2
    · exact ⟨Or.inl rfl, rfl, rfl, rfl⟩
  · exact Or.inl rfl

theorem call_cases (pttSet ok : Bool) (w : Worker) :
    (call pttSet ok w = w ∧ pttCall pttSet w = none) ∨
      ∃ j, w.current = some (.checked, j) ∧ (call pttSet ok w).current = some (.ran, j) ∧
        pttCall pttSet w =
          (if pttSet && j.operation == .ptt then some (j.index, j.on) else none) ∧
        (call pttSet ok w).waiting = w.waiting ∧ (call pttSet ok w).off = w.off ∧
        (call pttSet ok w).nextId = w.nextId := by
  rw [call, pttCall]
  split
  · rename_i e hx
    exact Or.inr ⟨e.job.bare, by simp [current, hx], rfl, by simp, rfl, rfl, rfl⟩
  · exact Or.inl ⟨rfl, rfl⟩

theorem finish_cases (ptt : Bool) (w : Worker) :
    finish ptt w = w ∨ ∃ j, w.current = some (.ran, j) ∧ (finish ptt w).current = none ∧
      (finish ptt w).waiting = w.waiting ∧ (finish ptt w).nextId = w.nextId ∧
      (finish ptt w).off =
        if w.off j.index = some j.id then Function.update w.off j.index none else w.off := by
  rw [finish]
  split
  · rename_i e hx
    exact Or.inr ⟨e.job.bare, by simp [current, hx], rfl, rfl, rfl, rfl⟩
  · exact Or.inl rfl

/-! ### The server thread -/

/-- Filing jobs that are no outstanding release leaves everything as it was. -/
theorem foldl_finishJob : ∀ (es : List Entry) (w : Worker),
    (∀ e ∈ es, w.off e.job.index ≠ some e.job.id) →
      Same w (es.foldl (fun w e =>
        finishJob w { e with job := { e.job with failed := true, cancelled := true } }) w) := by
  intro es
  induction es with
  | nil => intro w _; exact Same.refl w
  | cons e es ih =>
      intro w h
      have hoff : (finishJob w { e with job := { e.job with failed := true, cancelled := true } }).off
          = w.off := if_neg (h e List.mem_cons_self)
      have hrest := ih (finishJob w { e with job := { e.job with failed := true, cancelled := true } })
        (by rw [hoff]; exact fun e' he' => h e' (List.mem_cons_of_mem _ he'))
      exact ⟨hrest.current, hrest.waiting, hrest.off.trans hoff, hrest.nextId⟩

/-- No job but a release is recorded as outstanding release. -/
def OffReleases (w : Worker) : Prop :=
  ∀ j ∈ w.waiting, j.release = false → w.off j.index ≠ some j.id

theorem waiting_filter (w : Worker) (keep : Job → Bool) (hkeep : ∀ j, keep j.bare = keep j) :
    (w.queue.filter fun e => keep e.job).map (·.job.bare) = w.waiting.filter keep := by
  rw [waiting, List.filter_map]
  congr 1
  refine List.filter_congr fun e _ => ?_
  simp [hkeep]

theorem cancelKeyUps_view (i : Nat) (h : OffReleases w) :
    (cancelKeyUps i w).current = w.current ∧
      (cancelKeyUps i w).waiting = w.waiting.filter (fun j => !(j.keyUp && j.index == i)) ∧
      (cancelKeyUps i w).off = w.off ∧ (cancelKeyUps i w).nextId = w.nextId := by
  have hfold := foldl_finishJob (w.queue.filter fun e => e.job.keyUp && e.job.index == i)
    { w with queue := w.queue.filter fun e => !(e.job.keyUp && e.job.index == i) } ?_
  · refine ⟨hfold.current, ?_, hfold.off, hfold.nextId⟩
    rw [cancelKeyUps, hfold.waiting]
    exact waiting_filter w (fun j => !(j.keyUp && j.index == i)) fun j => rfl
  · intro e he
    obtain ⟨hmem, hk⟩ := List.mem_filter.mp he
    rw [Bool.and_eq_true] at hk
    exact h e.job.bare (List.mem_map_of_mem hmem) (Job.keyUp_not_release hk.1)

theorem stop_view (h : OffReleases w) :
    (stop w).current = w.current ∧ (stop w).waiting = w.waiting.filter Job.release ∧
      (stop w).off = w.off ∧ (stop w).nextId = w.nextId := by
  have hfold := foldl_finishJob (w.queue.filter fun e => !e.job.release)
    { w with stopping := true, queue := w.queue.filter fun e => e.job.release } ?_
  · refine ⟨hfold.current, ?_, hfold.off, hfold.nextId⟩
    rw [stop, hfold.waiting]
    exact waiting_filter w Job.release fun j => rfl
  · intro e he
    obtain ⟨hmem, hr⟩ := List.mem_filter.mp he
    exact h e.job.bare (List.mem_map_of_mem hmem) (by simpa using hr)

theorem drain_same (w : Worker) : Same w (drain w).2 := by
  rw [drain]
  split
  · exact Same.refl w
  · exact ⟨rfl, rfl, rfl, rfl⟩

theorem fold_job (parent : Nat) (j : Job) (e : Entry) : (fold parent j e).job = e.job := by
  rw [fold]
  split <;> rfl

/-- A job is inserted somewhere among the waiting ones. -/
theorem enqueue_waiting (e : Entry) (queue : List Entry) :
    ∃ before after, queue.map (·.job.bare) = before ++ after ∧
      (enqueue e queue).map (·.job.bare) = before ++ e.job.bare :: after := by
  rw [enqueue]
  split
  · exact ⟨[], queue.map (·.job.bare), rfl, rfl⟩
  split
  · exact ⟨queue.map (·.job.bare), [], by simp, by simp⟩
  · refine ⟨(queue.takeWhile fun q => q.job.operation != .poll).map (·.job.bare),
      (queue.dropWhile fun q => q.job.operation != .poll).map (·.job.bare), ?_, by simp⟩
    rw [← List.map_append, List.takeWhile_append_dropWhile]

/-- The job a request becomes. -/
def Request.job (q : Request) (i id : Nat) : Job :=
  { id := id, index := i, operation := q.operation, on := q.on, user := q.user, failed := false,
    cancelled := false, ptt := false }

/-- The ways a submission can end. -/
inductive Submitted (w : Worker) (q : Request) (rejected : Bool) (w' : Worker) : Prop
  /-- Refused, or a poll that is queued already. -/
  | unchanged (h : rejected = false → q.operation = .poll) (same : Same w w')
  /-- Out of memory once the queued key-ups are cancelled. -/
  | cancelled (i : Nat) (hi : q.index = some i) (hr : rejected = true)
      (hq : q.operation = .ptt ∧ q.on = false) (current : w'.current = w.current)
      (waiting : w'.waiting = w.waiting.filter fun j => !(j.keyUp && j.index == i))
      (off : w'.off = w.off) (nextId : w'.nextId = w.nextId)
  /-- A release that joins an outstanding one. -/
  | folded (i parent : Nat) (hi : q.index = some i) (hr : rejected = false)
      (hq : q.operation = .ptt ∧ q.on = false) (hoff : w.off i = some parent)
      (current : w'.current = w.current)
      (waiting : w'.waiting = w.waiting.filter fun j => !(j.keyUp && j.index == i))
      (off : w'.off = w.off) (nextId : w'.nextId = w.nextId + 1)
  /-- A release that goes to the head of the queue. -/
  | released (i : Nat) (hi : q.index = some i) (hr : rejected = false)
      (hq : q.operation = .ptt ∧ q.on = false) (hoff : w.off i = none)
      (current : w'.current = w.current)
      (waiting : w'.waiting = q.job i w.nextId ::
        w.waiting.filter fun j => !(j.keyUp && j.index == i))
      (off : w'.off = Function.update w.off i (some w.nextId)) (nextId : w'.nextId = w.nextId + 1)
  /-- Any other job. -/
  | queued (i : Nat) (before after : List Job) (hi : q.index = some i) (hr : rejected = false)
      (hq : ¬ (q.operation = .ptt ∧ q.on = false)) (current : w'.current = w.current)
      (split : w.waiting = before ++ after)
      (waiting : w'.waiting = before ++ q.job i w.nextId :: after)
      (off : w'.off = w.off) (nextId : w'.nextId = w.nextId + 1)

theorem submit_cases (maxVfos : Nat) (halted alloc : Bool) (h : OffReleases w) (q : Request) :
    Submitted w q (submit maxVfos halted alloc w q).1 (submit maxVfos halted alloc w q).2 := by
  rw [submit]
  split
  · exact .unchanged (by simp) (Same.refl w)
  rename_i i hi
  simp only
  split
  · exact .unchanged (by simp) (Same.refl w)
  split
  · exact .unchanged (by simp) (Same.refl w)
  split
  · exact .unchanged (by simp) (Same.refl w)
  split
  · rename_i hpoll
    simp only [Bool.and_eq_true, beq_iff_eq] at hpoll
    exact .unchanged (fun _ => hpoll.1) (Same.refl w)
  by_cases hrel : q.operation = .ptt ∧ q.on = false
  · obtain ⟨hcur, hwait, hoff, hnext⟩ := cancelKeyUps_view i h
    have hr : (q.operation == .ptt && !q.on) = true := by simp [hrel.1, hrel.2]
    simp only [hr, if_true]
    split
    · exact .cancelled i hi rfl hrel hcur hwait hoff hnext
    split
    · rename_i parent hparent
      refine .folded i parent hi rfl hrel (by rw [← hoff]; exact hparent) ?_ ?_ hoff
        (congrArg (· + 1) hnext)
      · rw [← hcur]
        simp only [current, Option.map_map]
        congr 1
        funext x
        simp [fold_job]
      · rw [← hwait]
        simp only [waiting, List.map_map]
        refine List.map_congr_left fun e _ => ?_
        simp [fold_job]
    · rename_i hnone
      refine .released i hi rfl hrel (by rw [← hoff]; exact hnone) hcur ?_
        (by rw [hoff, hnext]) (congrArg (· + 1) hnext)
      have hjob : (⟨(cancelKeyUps i w).nextId, i, q.operation, q.on, q.user, false, false, false⟩
          : Job).release = true := by simp [Job.release, hrel.1, hrel.2]
      rw [waiting, enqueue, if_pos hjob, List.map_cons, ← hwait, hnext]
      rfl
  · have hr : (q.operation == .ptt && !q.on) = false := by
      rw [Bool.eq_false_iff]
      simpa using hrel
    simp only [hr, Bool.false_eq_true, if_false]
    split
    · exact .unchanged (by simp) (Same.refl w)
    · obtain ⟨before, after, hsplit, hins⟩ := enqueue_waiting ⟨q.job i w.nextId, []⟩ w.queue
      exact .queued i before after hi rfl hrel rfl hsplit hins rfl rfl

end Worker

end RustyRig
