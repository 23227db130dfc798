/-
Every accepted job is somewhere.

`Moved` lists what an event can do to the jobs: file some of them, let one in, drain
one, or add the results of the exiting thread.  From it follows the balance: what is
held and what was drained are, in some order, the accepted jobs and those results.
-/
import RustyRig.Proofs.BackendWorker.Linked

namespace RustyRig

namespace Ledger

open Worker Linked

variable {p : Setup} {s s' : Ledger}

/-- The queue has its tail and its counter, and the releases are booked. -/
structure Wired (s : Ledger) : Prop where
  threaded : Threaded s.linked
  kept : Kept s.worker

/-! ### What an event does to the jobs -/

/-- The job a submission becomes when it is let in. -/
def newJob (s : Ledger) (q : Submission) (i : Nat) : Job := q.request.job i s.worker.nextId

/-- What an event does to the jobs of a worker. -/
inductive Moved (p : Setup) (s s' : Ledger) : Prop
  | filed (worker : Filed s.worker s'.worker) (stopping : s.worker.stopping → s'.worker.stopping)
      (accepted : s'.accepted = s.accepted) (complete : s'.complete = s.complete)
      (follows : s'.follows = s.follows) (drained : s'.drained = s.drained)
      (exited : s'.exited = s.exited)
  | letIn (q : Submission) (i : Nat) (passed : Passed p.maxVfos s.halted s.worker q.request i)
      (worker : s'.worker = letIn i q.request (cleared i q.request s.worker))
      (accepted : s'.accepted = s.accepted ++ [newJob s q i])
      (complete : s'.complete = Function.update s.complete s.worker.nextId q.complete)
      (follows : s'.follows = s.follows ++ (joined q.request s.worker).toList.map fun parent =>
        (s.worker.nextId, parent))
      (drained : s'.drained = s.drained) (exited : s'.exited = s.exited)
  | drained (j : Job) (rest : List Job) (done : s.worker.done = j :: rest)
      (told : s'.drained = s.drained ++ [if s.worker.stopping && !j.release then
        { j with failed := true, cancelled := true } else j])
      (worker : s'.worker = (Worker.drain s.worker).2)
      (accepted : s'.accepted = s.accepted) (complete : s'.complete = s.complete)
      (follows : s'.follows = s.follows) (exited : s'.exited = s.exited)
  | exit (before : s.exited = false) (after : s'.exited = true)
      (stopping : s.worker.stopping = true) (shape : s.worker.shape = [])
      (worker : s'.worker =
        (List.range p.maxVfos).foldl (finalRelease p.pttSet) s.worker)
      (accepted : s'.accepted = s.accepted) (complete : s'.complete = s.complete)
      (follows : s'.follows = s.follows) (drained : s'.drained = s.drained)

theorem cleared_filed (i : Nat) (q : Request) (w : Worker) : Filed w (cleared i q w) := by
  unfold cleared
  split
  · exact cancelKeyUps_filed i w
  · exact Filed.refl w

theorem cleared_kept {w : Worker} (h : Kept w) (i : Nat) (q : Request) : Kept (cleared i q w) := by
  unfold cleared
  split
  · exact kept_cancelKeyUps h i
  · exact h

theorem cleared_nextId (i : Nat) (q : Request) (w : Worker) :
    (cleared i q w).nextId = w.nextId := by
  obtain ⟨-, -, -, -, -, hn⟩ := cleared_filed i q w
  exact hn

theorem submit_worker (h : Wired s) (q : Submission) (alloc : Bool) :
    (submit p s q alloc).worker =
      (Worker.submit p.maxVfos s.halted alloc s.worker q.request).2 := by
  obtain ⟨-, hw, -⟩ := submit_refines h.threaded h.kept p.maxVfos s.halted alloc q.request
  refine Eq.trans ?_ hw
  unfold submit
  simp only
  split <;> rfl

/-- The record of a submission that makes no job. -/
theorem submit_unrecorded (h : Wired s) {q : Submission} {alloc : Bool}
    (hnext : (Worker.submit p.maxVfos s.halted alloc s.worker q.request).2.nextId =
      s.worker.nextId) :
    submit p s q alloc =
      { s with linked := (Linked.submit p.maxVfos s.halted alloc s.linked q.request).2 } := by
  obtain ⟨-, hw, -⟩ := submit_refines h.threaded h.kept p.maxVfos s.halted alloc q.request
  have hlinked : (Linked.submit p.maxVfos s.halted alloc s.linked q.request).2.worker.nextId =
      s.worker.nextId := by
    rw [hw]
    exact hnext
  unfold submit
  simp only [hlinked, if_true]

/-- A submission makes no job, for one of three reasons, or it passes the checks and is
recorded. -/
theorem submit_outcome (h : Wired s) (q : Submission) (alloc : Bool) :
    (submit p s q alloc =
        { s with linked := (Linked.submit p.maxVfos s.halted alloc s.linked q.request).2 } ∧
      ((Linked.submit p.maxVfos s.halted alloc s.linked q.request).1 = false →
        q.request.operation = .poll) ∧
      ((submit p s q alloc).worker = s.worker ∨
        ∃ i, Passed p.maxVfos s.halted s.worker q.request i ∧
          (submit p s q alloc).worker = cleared i q.request s.worker)) ∨
      ∃ i, Passed p.maxVfos s.halted s.worker q.request i ∧
        (submit p s q alloc).worker = Worker.letIn i q.request (cleared i q.request s.worker) ∧
        submit p s q alloc =
          { s with
            linked := (Linked.submit p.maxVfos s.halted alloc s.linked q.request).2
            accepted := s.accepted ++ [newJob s q i]
            complete := Function.update s.complete s.worker.nextId q.complete
            follows := s.follows ++ (joined q.request s.worker).toList.map fun parent =>
              (s.worker.nextId, parent) } := by
  have hworker := submit_worker (p := p) h q alloc
  obtain ⟨hanswer, -, -⟩ := submit_refines h.threaded h.kept p.maxVfos s.halted alloc q.request
  rw [hanswer]
  rcases submit_spec p.maxVfos s.halted alloc s.worker q.request with ⟨hsame, hpoll⟩ | ⟨i, hi⟩
  · refine Or.inl ⟨submit_unrecorded h (congrArg Worker.nextId hsame), hpoll, Or.inl ?_⟩
    rw [hworker, hsame]
  rw [submit_passed hi] at hworker
  cases alloc with
  | false =>
      refine Or.inl ⟨submit_unrecorded h ?_, fun hc => ?_, Or.inr ⟨i, hi, hworker⟩⟩
      · rw [submit_passed hi]
        exact cleared_nextId i q.request s.worker
      · rw [show s.linked.worker = s.worker from rfl, submit_passed hi] at hc
        exact absurd hc (by simp)
  | true =>
      refine Or.inr ⟨i, hi, hworker, ?_⟩
      have hnext : (Linked.submit p.maxVfos s.halted true s.linked q.request).2.worker.nextId ≠
          s.worker.nextId := by
        obtain ⟨-, hw, -⟩ := submit_refines h.threaded h.kept p.maxVfos s.halted true q.request
        rw [hw]
        show (Worker.submit p.maxVfos s.halted true s.worker q.request).2.nextId ≠ _
        rw [submit_passed hi]
        simp only [if_true]
        rw [(letIn_cases i q.request _).2.1, cleared_nextId]
        omega
      unfold submit
      simp only [hnext, if_false, hi.index, Option.getD_some]
      rfl

theorem moved_submit (h : Wired s) (q : Submission) (alloc : Bool) :
    Moved p s (submit p s q alloc) := by
  rcases submit_outcome (p := p) h q alloc with ⟨heq, -, hw⟩ | ⟨i, hi, hw, heq⟩
  · have hfiled : Filed s.worker (submit p s q alloc).worker ∧
        (s.worker.stopping → (submit p s q alloc).worker.stopping) := by
      rcases hw with hw | ⟨i, hi, hw⟩
      · rw [hw]
        exact ⟨Filed.refl _, id⟩
      · rw [hw]
        refine ⟨cleared_filed _ _ _, fun hstop => ?_⟩
        rw [hi.running] at hstop
        exact absurd hstop (by simp)
    refine .filed hfiled.1 hfiled.2 ?_ ?_ ?_ ?_ ?_
    all_goals rw [heq]
  · refine .letIn q i hi hw ?_ ?_ ?_ ?_ ?_
    all_goals rw [heq]

theorem moved_filed {f : Worker → Worker} (hf : Filed s.worker (f s.worker))
    (hstop : s.worker.stopping → (f s.worker).stopping) : Moved p s (s.onWorker f) :=
  .filed hf hstop rfl rfl rfl rfl rfl

theorem moved_step (h : Wired s) (e : Event) : Moved p s (step p s e) := by
  cases e with
  | submit q alloc => exact moved_submit h q alloc
  | dequeue =>
      refine .filed ?_ ?_ rfl rfl rfl rfl rfl
      · show Filed s.worker s.linked.dequeue.worker
        rw [dequeue_worker]
        exact dequeue_filed s.worker
      · show s.worker.stopping → s.linked.dequeue.worker.stopping
        rw [dequeue_worker, Worker.dequeue]
        split <;> exact id
  | check =>
      refine moved_filed (check_filed _ _) ?_
      rw [check]
      split
      · split <;> exact id
      · exact id
  | call ok =>
      refine moved_filed (call_filed _ _ _) ?_
      rw [call]
      split <;> exact id
  | finish ptt =>
      refine moved_filed (finish_filed _ _) ?_
      rw [finish]
      split <;> exact id
  | drain =>
      rcases drain_cases s.worker with ⟨heq, -⟩ | ⟨j, rest, hd, htold, -⟩
      · have hsame : step p s .drain = s := by
          show { s.onWorker fun w => (drain w).2 with
            drained := s.drained ++ (drain s.worker).1.toList } = s
          rw [heq]
          simp only [Option.toList_none, List.append_nil]
          show { s with linked := { s.linked with worker := (drain s.worker).2 } } = s
          rw [heq]
          rfl
        rw [hsame]
        exact .filed (Filed.refl _) id rfl rfl rfl rfl rfl
      · refine .drained j rest hd ?_ rfl rfl rfl rfl rfl
        show s.drained ++ (drain s.worker).1.toList = _
        rw [htold]
        rfl
  | halt halted => exact .filed (Filed.refl _) id rfl rfl rfl rfl rfl
  | stop =>
      refine .filed ?_ ?_ rfl rfl rfl rfl rfl
      · show Filed s.worker s.linked.stop.worker
        rw [stop_worker]
        exact stop_filed s.worker
      · intro _
        show s.linked.stop.worker.stopping = true
        rw [stop_worker]
        exact (foldl_file_done _ _).2.2.2.2.2
  | exit =>
      by_cases hexit : (s.worker.stopping && s.worker.queue.isEmpty &&
          s.worker.executing.isNone && !s.exited) = true
      · have hstep : step p s .exit =
            { s.onWorker fun w => (List.range p.maxVfos).foldl (finalRelease p.pttSet) w with
              exited := true } := if_pos hexit
        rw [hstep]
        simp only [Bool.and_eq_true, List.isEmpty_iff, Option.isNone_iff_eq_none,
          Bool.not_eq_true'] at hexit
        refine .exit hexit.2 rfl hexit.1.1.1 ?_ rfl rfl rfl rfl rfl
        simp [shape, entries, hexit.1.1.2, hexit.1.2]
      · have hstep : step p s .exit = s := if_neg hexit
        rw [hstep]
        exact .filed (Filed.refl _) id rfl rfl rfl rfl rfl

/-! ### Wiring -/

/-- A result of the exiting thread. -/
def result (i id : Nat) : Job :=
  { id := id, index := i, operation := .poll, on := false, user := 0, failed := false,
    cancelled := false, ptt := false }

theorem finalRelease_cases (pttSet : Bool) (i : Nat) {w : Worker} (hoff : ∀ i, w.off i = none) :
    finalRelease pttSet w i = w ∨
      finalRelease pttSet w i =
        { w with outstanding := w.outstanding + 1
                 nextId := w.nextId + 1
                 done := w.done ++ [result i w.nextId] } := by
  unfold finalRelease
  split
  · refine Or.inr ?_
    unfold finishJob
    simp only [hoff, reduceCtorEq, if_false, List.map_nil]
    rfl
  · exact Or.inl rfl

/-- The results of an exiting thread with nothing to do: jobs with fresh addresses, none of
them in anybody's books. -/
theorem finalReleases (pttSet : Bool) (is : List Nat) {w : Worker} (hoff : ∀ i, w.off i = none) :
    ∃ results : List Job,
      (is.foldl (finalRelease pttSet) w).done = w.done ++ results ∧
        (is.foldl (finalRelease pttSet) w).outstanding = w.outstanding + results.length ∧
        (is.foldl (finalRelease pttSet) w).nextId = w.nextId + results.length ∧
        results.map Job.id = List.range' w.nextId results.length ∧
        (∀ j ∈ results, j.bare = j) ∧
        (is.foldl (finalRelease pttSet) w).off = w.off ∧
        (is.foldl (finalRelease pttSet) w).queue = w.queue ∧
        (is.foldl (finalRelease pttSet) w).executing = w.executing ∧
        (is.foldl (finalRelease pttSet) w).polls = w.polls ∧
        (is.foldl (finalRelease pttSet) w).stopping = w.stopping := by
  induction is generalizing w with
  | nil => exact ⟨[], by simp⟩
  | cons i is ih =>
      rw [List.foldl_cons]
      rcases finalRelease_cases pttSet i hoff with heq | heq
      · rw [heq]
        exact ih hoff
      · rw [heq]
        obtain ⟨rs, hd, ho, hn, hids, hbare, hrest⟩ := ih (w := { w with
          outstanding := w.outstanding + 1
          nextId := w.nextId + 1
          done := w.done ++ [result i w.nextId] }) hoff
        refine ⟨result i w.nextId :: rs, ?_, ?_, ?_, ?_, ?_, hrest⟩
        · rw [hd, List.append_assoc]
          rfl
        · rw [ho, List.length_cons]
          show w.outstanding + 1 + _ = _
          omega
        · rw [hn, List.length_cons]
          show w.nextId + 1 + _ = _
          omega
        · rw [List.map_cons, hids, List.length_cons, List.range'_succ]
          rfl
        · intro k hk
          rcases List.mem_cons.mp hk with rfl | hk
          · rfl
          · exact hbare k hk

theorem off_of_idle (h : Kept s.worker) (hshape : s.worker.shape = []) (i : Nat) :
    s.worker.off i = none := by
  cases hoff : s.worker.off i with
  | none => rfl
  | some id =>
      obtain ⟨j, hj, -⟩ := h.live i id hoff
      rw [← shape_jobs, hshape] at hj
      exact absurd hj (by simp)

/-- The events as those of a worker and its rig. -/
theorem kept_event (h : Kept s.worker) (e : Worker.Event) :
    Kept (Rig.step p ⟨s.worker, s.halted, fun _ => none, fun _ => none⟩ e).worker :=
  Kept.step (r := ⟨s.worker, s.halted, fun _ => none, fun _ => none⟩) h e

/-- A function that leaves the queue alone leaves its tail and its counter right. -/
theorem threaded_onWorker (h : Threaded s.linked) {f : Worker → Worker}
    (hq : (f s.worker).queue = s.worker.queue) : Threaded (s.onWorker f).linked := by
  refine ⟨?_, ?_⟩
  · show s.linked.tail = lastId (f s.worker).queue
    rw [hq]
    exact h.tail
  · show s.linked.queued = (f s.worker).queue.length
    rw [hq]
    exact h.queued

theorem Wired.step (h : Wired s) (e : Event) : Wired (step p s e) := by
  cases e with
  | submit q alloc =>
      obtain ⟨-, hw, ht⟩ := submit_refines h.threaded h.kept p.maxVfos s.halted alloc q.request
      have hlinked : (submit p s q alloc).linked =
          (Linked.submit p.maxVfos s.halted alloc s.linked q.request).2 := by
        unfold submit
        simp only
        split <;> rfl
      refine ⟨by rw [show (Ledger.step p s (.submit q alloc)).linked = _ from hlinked]; exact ht, ?_⟩
      show Kept (submit p s q alloc).linked.worker
      rw [hlinked, hw]
      exact kept_event h.kept (.submit q.request alloc)
  | dequeue =>
      refine ⟨h.threaded.dequeue, ?_⟩
      show Kept s.linked.dequeue.worker
      rw [dequeue_worker]
      exact kept_event (p := p) h.kept .dequeue
  | check =>
      refine ⟨threaded_onWorker h.threaded ?_, kept_event (p := p) h.kept .check⟩
      rw [check]
      split
      · split <;> rfl
      · rfl
  | call ok =>
      refine ⟨threaded_onWorker h.threaded ?_, kept_event h.kept (.call ok)⟩
      rw [call]
      split <;> rfl
  | finish ptt =>
      refine ⟨threaded_onWorker h.threaded ?_, kept_event (p := p) h.kept (.finish ptt)⟩
      rw [finish]
      split <;> rfl
  | drain =>
      have ht : Threaded (s.onWorker fun w => (Worker.drain w).2).linked := by
        refine threaded_onWorker h.threaded ?_
        rw [Worker.drain]
        split <;> rfl
      exact ⟨ht, kept_event (p := p) h.kept .drain⟩
  | halt halted => exact ⟨h.threaded, h.kept⟩
  | stop =>
      refine ⟨h.threaded.stop, ?_⟩
      show Kept s.linked.stop.worker
      rw [stop_worker]
      exact kept_event (p := p) h.kept .stop
  | exit =>
      by_cases hexit : (s.worker.stopping && s.worker.queue.isEmpty &&
          s.worker.executing.isNone && !s.exited) = true
      · rw [show Ledger.step p s .exit =
            { s.onWorker fun w => (List.range p.maxVfos).foldl (finalRelease p.pttSet) w with
              exited := true } from if_pos hexit]
        simp only [Bool.and_eq_true, List.isEmpty_iff, Option.isNone_iff_eq_none,
          Bool.not_eq_true'] at hexit
        have hshape : s.worker.shape = [] := by simp [shape, entries, hexit.1.1.2, hexit.1.2]
        obtain ⟨rs, -, -, hn, -, -, hoff, hq, hx, -⟩ :=
          finalReleases p.pttSet (List.range p.maxVfos) (off_of_idle h.kept hshape)
        have ht : Threaded (s.onWorker fun w =>
            (List.range p.maxVfos).foldl (finalRelease p.pttSet) w).linked :=
          threaded_onWorker h.threaded hq
        refine ⟨ht, ?_⟩
        show Kept ((List.range p.maxVfos).foldl (finalRelease p.pttSet) s.worker)
        unfold Kept jobs current waiting
        rw [hq, hx, hoff, hn]
        exact Booked.sublist h.kept (List.Sublist.refl _) (fun j hj _ => hj) (by omega)
      · rw [show Ledger.step p s .exit = s from if_neg hexit]
        exact h

theorem wired_start : Wired start where
  threaded := ⟨rfl, rfl⟩
  kept := ⟨List.nodup_nil, by simp [jobs, current, waiting, start, worker, Linked.start, Worker.start],
    by simp [jobs, current, waiting, start, worker, Linked.start, Worker.start],
    by simp [start, worker, Linked.start, Worker.start]⟩

/-! ### The balance -/

/-- What is held and what was drained is what was accepted, and the results of the exiting
thread. -/
structure Balanced (s : Ledger) (results : List Job) : Prop where
  balance : (s.worker.held ++ s.drained.map Job.bare).Perm (s.accepted ++ results)
  ids : ((s.accepted ++ results).map Job.id).Nodup
  fresh : ∀ j ∈ s.accepted ++ results, j.id < s.worker.nextId
  outstanding : s.worker.outstanding = s.worker.held.length
  /-- Results come with the exit, when nothing is left to run and nothing comes in. -/
  early : s.exited = false → results = []
  exited : s.exited = true → s.worker.shape = [] ∧ s.worker.stopping = true
  /-- Done jobs come before results. -/
  order : ∃ old new, s.worker.done.map Job.bare = old ++ new ∧ (∀ j ∈ old, j ∈ s.accepted) ∧
    ∀ j ∈ new, j ∈ results
  /-- Only accepted jobs have a callback. -/
  called : ∀ id, s.complete id = true → ∃ j ∈ s.accepted, j.id = id

variable {results : List Job}

theorem told_bare (stopping : Bool) (j : Job) :
    (if stopping && !j.release then { j with failed := true, cancelled := true } else j).bare =
      j.bare := by
  split <;> rfl

/-- Draining a job moves it from what is held to what was drained. -/
theorem drain_held {w : Worker} {j : Job} {rest : List Job} (hd : w.done = j :: rest) :
    w.held.Perm (j.bare :: (Worker.drain w).2.held) ∧
      (Worker.drain w).2.outstanding = w.outstanding - 1 ∧
      (Worker.drain w).2.nextId = w.nextId ∧ (Worker.drain w).2.shape = w.shape ∧
      (Worker.drain w).2.done = rest := by
  rcases drain_cases w with ⟨-, hnil⟩ | ⟨j', rest', hd', -, hdone, hshape, ho, hn, -⟩
  · rw [hd] at hnil
    exact absurd hnil (by simp)
  · rw [hd] at hd'
    obtain ⟨rfl, rfl⟩ := List.cons.inj hd'
    refine ⟨?_, ho, hn, hshape, hdone⟩
    unfold held
    rw [hd, hdone, hshape, List.map_cons]
    exact List.perm_middle

theorem newJob_id (q : Submission) (i : Nat) : (newJob s q i).id = s.worker.nextId := rfl

theorem letIn_nextId (i : Nat) (q : Request) (w : Worker) :
    (letIn i q (cleared i q w)).nextId = w.nextId + 1 := by
  rw [(letIn_cases i q _).2.1, cleared_nextId]

/-- What is held once a submission is let in. -/
theorem letIn_cleared_held (hk : Kept s.worker) (q : Submission) (i : Nat) :
    (letIn i q.request (cleared i q.request s.worker)).held.Perm
      (newJob s q i :: s.worker.held) := by
  refine (letIn_held (cleared_kept hk i q.request) i q.request).trans ?_
  rw [cleared_nextId]
  exact (cleared_filed i q.request s.worker).held.cons _

/-- The balance is kept where jobs are only moved. -/
theorem Balanced.moved (h : Balanced s results) (hheld : s'.worker.held.Perm s.worker.held)
    (hnext : s'.worker.nextId = s.worker.nextId) (hout : s'.worker.outstanding = s.worker.outstanding)
    (hexited : s'.exited = true → s'.worker.shape = [] ∧ s'.worker.stopping = true)
    (horder : ∃ old new, s'.worker.done.map Job.bare = old ++ new ∧ (∀ j ∈ old, j ∈ s'.accepted) ∧
      ∀ j ∈ new, j ∈ results)
    (haccepted : s'.accepted = s.accepted) (hcomplete : s'.complete = s.complete)
    (hdrained : s'.drained = s.drained) (hexit : s'.exited = s.exited) :
    Balanced s' results where
  balance := by
    rw [hdrained, haccepted]
    exact (hheld.append_right _).trans h.balance
  ids := by rw [haccepted]; exact h.ids
  fresh := by rw [haccepted, hnext]; exact h.fresh
  outstanding := by rw [hout, hheld.length_eq]; exact h.outstanding
  early := by rw [hexit]; exact h.early
  exited := hexited
  order := horder
  called := by rw [hcomplete, haccepted]; exact h.called

/-- Before the exit everything done was accepted. -/
theorem Balanced.done_accepted (h : (s.worker.held ++ s.drained.map Job.bare).Perm s.accepted) :
    ∀ j ∈ s.worker.done.map Job.bare, j ∈ s.accepted := by
  intro j hj
  refine h.subset (List.mem_append_left _ ?_)
  exact List.mem_append_right _ hj

theorem Balanced.filed (h : Balanced s results) (hfiled : Filed s.worker s'.worker)
    (hstop : s.worker.stopping → s'.worker.stopping) (haccepted : s'.accepted = s.accepted)
    (hcomplete : s'.complete = s.complete) (hdrained : s'.drained = s.drained)
    (hexit : s'.exited = s.exited) : Balanced s' results := by
  have hheld := hfiled.held
  obtain ⟨gone, hshape, hdone, hout, -, hnext⟩ := hfiled
  have hidle : s.exited = true → gone = [] ∧ s'.worker.shape = [] := by
    intro hx
    rw [(h.exited hx).1] at hshape
    have hnil := List.nil_perm.mp hshape
    simpa using hnil
  refine h.moved hheld hnext hout ?_ ?_ haccepted hcomplete hdrained hexit
  · intro hx
    rw [hexit] at hx
    exact ⟨(hidle hx).2, hstop (h.exited hx).2⟩
  · cases hx : s.exited with
    | true =>
        rw [hdone, (hidle hx).1, haccepted]
        simpa using h.order
    | false =>
        refine ⟨_, [], (List.append_nil _).symm, ?_, by simp⟩
        refine Balanced.done_accepted ?_
        have hbal := h.balance
        rw [h.early hx, List.append_nil] at hbal
        rw [hdrained, haccepted]
        exact (hheld.append_right _).trans hbal

theorem Balanced.letIn (h : Balanced s results) (hk : Kept s.worker) {q : Submission} {i : Nat}
    (hpassed : Passed p.maxVfos s.halted s.worker q.request i)
    (hworker : s'.worker = Worker.letIn i q.request (cleared i q.request s.worker))
    (haccepted : s'.accepted = s.accepted ++ [newJob s q i])
    (hcomplete : s'.complete = Function.update s.complete s.worker.nextId q.complete)
    (hdrained : s'.drained = s.drained) (hexit : s'.exited = s.exited) : Balanced s' results := by
  have hx : s.exited = false := by
    cases hx : s.exited with
    | false => rfl
    | true =>
        have hstop := (h.exited hx).2
        rw [hpassed.running] at hstop
        exact absurd hstop (by simp)
  have hres := h.early hx
  subst hres
  have hheld : s'.worker.held.Perm (newJob s q i :: s.worker.held) := by
    rw [hworker]
    exact letIn_cleared_held hk q i
  have hnext : s'.worker.nextId = s.worker.nextId + 1 := by rw [hworker, letIn_nextId]
  have hbalance : (s'.worker.held ++ s'.drained.map Job.bare).Perm s'.accepted := by
    rw [hdrained, haccepted]
    have hold := h.balance
    rw [List.append_nil] at hold
    refine (hheld.append_right _).trans ?_
    refine List.Perm.trans ?_ (List.perm_append_singleton _ _).symm
    exact hold.cons _
  refine ⟨by rw [List.append_nil]; exact hbalance, ?_, ?_, ?_, fun _ => rfl, ?_, ?_, ?_⟩
  · have hids := h.ids
    have hfresh := h.fresh
    rw [List.append_nil] at hids hfresh ⊢
    rw [haccepted, List.map_append, List.nodup_append]
    refine ⟨hids, by simp, ?_⟩
    intro a ha b hb
    obtain ⟨j, hj, rfl⟩ := List.mem_map.mp ha
    rw [List.map_singleton, List.mem_singleton, newJob_id] at hb
    have hlt := hfresh j hj
    omega
  · rw [haccepted, hnext, List.append_nil]
    intro j hj
    rcases List.mem_append.mp hj with hj | hj
    · have hlt := h.fresh j (List.mem_append_left _ hj)
      omega
    · rw [List.mem_singleton.mp hj, newJob_id]
      omega
  · rw [hheld.length_eq, List.length_cons, ← h.outstanding, hworker, (letIn_cases i q.request _).1]
    obtain ⟨-, -, -, ho, -, -⟩ := cleared_filed i q.request s.worker
    rw [ho]
  · intro hx'
    rw [hexit, hx] at hx'
    exact absurd hx' (by simp)
  · exact ⟨_, [], (List.append_nil _).symm, Balanced.done_accepted hbalance, by simp⟩
  · intro id hid
    rw [hcomplete] at hid
    rw [haccepted]
    by_cases hnew : id = s.worker.nextId
    · exact ⟨newJob s q i, List.mem_append_right _ (List.mem_singleton_self _), hnew.symm⟩
    · rw [Function.update_of_ne hnew] at hid
      obtain ⟨j, hj, hjid⟩ := h.called id hid
      exact ⟨j, List.mem_append_left _ hj, hjid⟩

theorem Balanced.drained (h : Balanced s results) {j : Job} {rest : List Job}
    (hd : s.worker.done = j :: rest)
    (htold : s'.drained = s.drained ++ [if s.worker.stopping && !j.release then
      { j with failed := true, cancelled := true } else j])
    (hworker : s'.worker = (Worker.drain s.worker).2) (haccepted : s'.accepted = s.accepted)
    (hcomplete : s'.complete = s.complete) (hexit : s'.exited = s.exited) :
    Balanced s' results := by
  obtain ⟨hheld, hout, hnext, hshape, hdone⟩ := drain_held hd
  rw [← hworker] at hheld hout hnext hshape hdone
  refine ⟨?_, by rw [haccepted]; exact h.ids, by rw [haccepted, hnext]; exact h.fresh, ?_,
    by rw [hexit]; exact h.early, ?_, ?_, by rw [hcomplete, haccepted]; exact h.called⟩
  · rw [haccepted, htold, List.map_append, List.map_singleton, told_bare]
    refine List.Perm.trans ?_ h.balance
    rw [← List.append_assoc]
    refine (List.perm_append_singleton _ _).trans ?_
    rw [← List.cons_append]
    exact hheld.symm.append_right _
  · have hlen := hheld.length_eq
    rw [List.length_cons] at hlen
    rw [hout, h.outstanding, hlen]
    rfl
  · intro hx
    rw [hexit] at hx
    obtain ⟨hidle, hstop⟩ := h.exited hx
    refine ⟨by rw [hshape, hidle], ?_⟩
    rw [hworker, Worker.drain, hd]
    exact hstop
  · obtain ⟨old, new, horder, hold, hnew⟩ := h.order
    rw [hd, List.map_cons] at horder
    rw [hdone, haccepted]
    cases old with
    | nil =>
        rw [List.nil_append] at horder
        refine ⟨[], rest.map Job.bare, rfl, by simp, fun k hk => hnew k ?_⟩
        rw [← horder]
        exact List.mem_cons_of_mem _ hk
    | cons k old =>
        obtain ⟨-, hrest⟩ := List.cons.inj horder
        exact ⟨old, new, hrest, fun k hk => hold k (List.mem_cons_of_mem _ hk), hnew⟩

/-- The exiting thread adds its results, with fresh addresses, to what is held. -/
theorem exited_worker (hk : Kept s.worker) (hshape : s.worker.shape = [])
    (hworker : s'.worker = (List.range p.maxVfos).foldl (finalRelease p.pttSet) s.worker) :
    ∃ rs : List Job, s'.worker.held = s.worker.held ++ rs ∧
      s'.worker.done.map Job.bare = s.worker.done.map Job.bare ++ rs ∧
      s'.worker.shape = [] ∧ (rs.map Job.id).Nodup ∧
      (∀ j ∈ rs, s.worker.nextId ≤ j.id ∧ j.id < s'.worker.nextId) ∧
      s'.worker.outstanding = s.worker.outstanding + rs.length ∧
      s.worker.nextId ≤ s'.worker.nextId ∧ s'.worker.polls = s.worker.polls ∧
      s'.worker.stopping = s.worker.stopping := by
  obtain ⟨rs, hd, ho, hn, hids, hbare, -, hq, hx, hp, hstop⟩ :=
    finalReleases p.pttSet (List.range p.maxVfos) (off_of_idle hk hshape)
  rw [← hworker] at hd ho hn hq hx hp hstop
  have hshape' : s'.worker.shape = s.worker.shape := by
    unfold shape entries
    rw [hq, hx]
  have hdone : s'.worker.done.map Job.bare = s.worker.done.map Job.bare ++ rs := by
    rw [hd, List.map_append]
    congr 1
    exact (List.map_congr_left hbare).trans (List.map_id rs)
  refine ⟨rs, ?_, hdone, by rw [hshape', hshape], by rw [hids]; exact List.nodup_range', ?_, ho,
    by omega, hp, hstop⟩
  · unfold held
    rw [hshape', hdone, List.append_assoc]
  · intro j hj
    have hmem : j.id ∈ rs.map Job.id := List.mem_map_of_mem hj
    rw [hids, List.mem_range'_1] at hmem
    omega

theorem Balanced.exit (h : Balanced s results) (hk : Kept s.worker) (before : s.exited = false)
    (after : s'.exited = true) (hstop : s.worker.stopping = true) (hshape : s.worker.shape = [])
    (hworker : s'.worker = (List.range p.maxVfos).foldl (finalRelease p.pttSet) s.worker)
    (haccepted : s'.accepted = s.accepted) (hcomplete : s'.complete = s.complete)
    (hdrained : s'.drained = s.drained) : ∃ rs, Balanced s' rs := by
  have hres := h.early before
  subst hres
  obtain ⟨rs, hheld, hdone, hidle, hnd, hrs, ho, hn, -, hstop'⟩ := exited_worker hk hshape hworker
  have hbal := h.balance
  have hfresh := h.fresh
  have hnodup := h.ids
  rw [List.append_nil] at hbal hfresh hnodup
  refine ⟨rs, ?_, ?_, ?_, ?_, ?_, fun _ => ⟨hidle, by rw [hstop', hstop]⟩, ?_, ?_⟩
  · rw [hheld, hdrained, haccepted, List.append_assoc]
    refine (List.Perm.append_left _ List.perm_append_comm).trans ?_
    rw [← List.append_assoc]
    exact hbal.append_right _
  · rw [haccepted, List.map_append, List.nodup_append]
    refine ⟨hnodup, hnd, ?_⟩
    intro a ha b hb
    obtain ⟨j, hj, rfl⟩ := List.mem_map.mp ha
    obtain ⟨k, hk, rfl⟩ := List.mem_map.mp hb
    have hlt := hfresh j hj
    have hge := hrs k hk
    omega
  · intro j hj
    rw [haccepted] at hj
    rcases List.mem_append.mp hj with hj | hj
    · have hlt := hfresh j hj
      omega
    · exact (hrs j hj).2
  · rw [ho, hheld, List.length_append, h.outstanding]
  · intro hx'
    rw [after] at hx'
    exact absurd hx' (by simp)
  · refine ⟨s.worker.done.map Job.bare, rs, hdone, ?_, fun j hj => hj⟩
    rw [haccepted]
    exact Balanced.done_accepted hbal
  · rw [hcomplete, haccepted]
    exact h.called

/-- Every event keeps the balance. -/
theorem Balanced.step (h : Balanced s results) (hw : Wired s) (e : Event) :
    ∃ results', Balanced (step p s e) results' := by
  cases moved_step hw e with
  | filed worker stopping accepted complete follows drained exited =>
      exact ⟨results, h.filed worker stopping accepted complete drained exited⟩
  | letIn q i passed worker accepted complete follows drained exited =>
      exact ⟨results, h.letIn hw.kept passed worker accepted complete drained exited⟩
  | drained j rest done told worker accepted complete follows exited =>
      exact ⟨results, h.drained done told worker accepted complete exited⟩
  | exit before after stopping shape worker accepted complete follows drained =>
      exact h.exit hw.kept before after stopping shape worker accepted complete drained

theorem balanced_start : Balanced start [] := by
  refine ⟨List.Perm.refl _, List.nodup_nil, ?_, rfl, fun _ => rfl, ?_, ⟨[], [], rfl, ?_, ?_⟩, ?_⟩
  · intro j hj
    exact absurd hj (by simp [start])
  · intro h
    exact absurd h (by simp [start])
  · simp
  · simp
  · intro id hid
    exact absurd hid (by simp [start])

end Ledger

end RustyRig
