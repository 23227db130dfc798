/-
Every accepted job is completed once.

Delivery is the balance again: an accepted job is held or drained, never both and
never twice, and a stopped worker holds nothing once its thread is gone and its done
list drained.  A follower is filed together with the release it joined, under the
same outcome, and neither is changed before it is drained.
-/
import RustyRig.Proofs.BackendWorker.Queue

namespace RustyRig

namespace Ledger

open Worker Linked

variable {p : Setup} {s s' : Ledger} {results : List Job}

/-! ### Followers -/

/-- Two releases with the same outcome. -/
def Agree (jobs : List Job) (follower leader : Nat) : Prop :=
  ∃ jl ∈ jobs, ∃ jf ∈ jobs, jl.id = leader ∧ jf.id = follower ∧ jl.release = true ∧
    jf.release = true ∧ jf.failed = jl.failed

theorem Agree.mono {jobs jobs' : List Job} {f l : Nat} (h : Agree jobs f l)
    (hsub : ∀ j ∈ jobs, j.release = true → j ∈ jobs') : Agree jobs' f l := by
  obtain ⟨jl, hl, jf, hf, hlid, hfid, hlr, hfr, hfailed⟩ := h
  exact ⟨jl, hsub jl hl hlr, jf, hsub jf hf hfr, hlid, hfid, hlr, hfr, hfailed⟩

/-- The follower waits with its leader, or both are filed with one outcome. -/
def Followed (shape : List Entry) (filed : List Job) (follower leader : Nat) : Prop :=
  (∃ e ∈ shape, e.job.id = leader ∧ ∃ k ∈ e.followers, k.id = follower) ∨
    Agree filed follower leader

/-- Followers are releases and so is what they follow; every pair on record is together. -/
structure Following (shape : List Entry) (filed : List Job) (follows : List (Nat × Nat)) :
    Prop where
  releases : ∀ e ∈ shape, ∀ k ∈ e.followers, e.job.release = true ∧ k.release = true
  together : ∀ x ∈ follows, Followed shape filed x.1 x.2

/-- An entry that is settled leaves its followers with its outcome. -/
theorem Entry.settled_agree {e : Entry} {k : Job} (hk : k ∈ e.followers)
    (hl : e.job.release = true) (hf : k.release = true) :
    Agree e.settled k.id e.job.id := by
  refine ⟨e.job, List.mem_cons_self, _, List.mem_cons_of_mem _ (List.mem_map_of_mem hk), rfl, ?_⟩
  exact ⟨rfl, hl, hf, rfl⟩

theorem Following.filed {w w' : Worker} {drained : List Job} {follows : List (Nat × Nat)}
    (h : Following w.shape (drained ++ w.done) follows) (hfiled : Filed w w') :
    Following w'.shape (drained ++ w'.done) follows := by
  obtain ⟨gone, hshape, hdone, -⟩ := hfiled
  refine ⟨fun e he => h.releases e (hshape.symm.subset (List.mem_append_right _ he)), ?_⟩
  intro x hx
  rcases h.together x hx with ⟨e, he, hl, k, hk, hf⟩ | hagree
  · rcases List.mem_append.mp (hshape.subset he) with hgone | hstay
    · obtain ⟨g, hg, rfl⟩ := List.mem_map.mp hgone
      obtain ⟨m, hm, rfl⟩ := List.mem_map.mp hk
      obtain ⟨hlr, hfr⟩ := h.releases _ he m.bare hk
      have hagree : Agree g.settled m.id g.job.id := Entry.settled_agree hm hlr hfr
      rw [show g.job.id = x.2 from hl, show m.id = x.1 from hf] at hagree
      refine Or.inr (hagree.mono fun j hj _ => ?_)
      rw [hdone]
      exact List.mem_append_right _ (List.mem_append_right _
        (List.mem_flatMap.mpr ⟨g, hg, hj⟩))
    · exact Or.inl ⟨e, hstay, hl, k, hk, hf⟩
  · refine Or.inr (hagree.mono fun j hj _ => ?_)
    rw [hdone, ← List.append_assoc]
    exact List.mem_append_left _ hj

theorem fold_followers {parent : Nat} {j k : Job} {e : Entry} (hk : k ∈ e.followers) :
    k ∈ (fold parent j e).followers := by
  unfold fold
  split
  · exact List.mem_cons_of_mem _ hk
  · exact hk

/-- The entry that a release joins. -/
theorem shape_of_off {w : Worker} (h : Kept w) {i parent : Nat} (hoff : w.off i = some parent) :
    ∃ e ∈ w.shape, e.job.id = parent ∧ e.job.release = true := by
  obtain ⟨j, hj, hr, -, hid⟩ := h.live i parent hoff
  rw [← shape_jobs] at hj
  obtain ⟨e, he, rfl⟩ := List.mem_map.mp hj
  exact ⟨e, he, hid, hr⟩

theorem Following.letIn {w : Worker} {drained : List Job} {follows : List (Nat × Nat)}
    (h : Following w.shape (drained ++ w.done) follows) (hk : Kept w) (i : Nat) (q : Request)
    (hq : q.index = some i) :
    Following (letIn i q w).shape (drained ++ (Worker.letIn i q w).done)
      (follows ++ (joined q w).toList.map fun parent => (w.nextId, parent)) := by
  obtain ⟨-, -, hdone, hcases⟩ := letIn_cases i q w
  rw [hdone]
  cases hcases with
  | joined parent hr hoff hshape hpolls =>
      have hjoined : Ledger.joined q w = some parent := by
        simp [Ledger.joined, hr.1, hr.2, hq, hoff]
      have hnew : (q.job i w.nextId).release = true := Request.job_release.mpr hr
      rw [hjoined, hshape]
      refine ⟨?_, ?_⟩
      · intro e' he' k hk'
        obtain ⟨e, he, rfl⟩ := List.mem_map.mp he'
        rw [fold_job]
        unfold fold at hk'
        split at hk'
        · rename_i hid
          rcases List.mem_cons.mp hk' with rfl | hk'
          · obtain ⟨e₀, he₀, hid₀, hr₀⟩ := shape_of_off hk hoff
            have hje : e.job ∈ w.jobs := by rw [← shape_jobs]; exact List.mem_map_of_mem he
            have hje₀ : e₀.job ∈ w.jobs := by rw [← shape_jobs]; exact List.mem_map_of_mem he₀
            rw [hk.inj hje hje₀ (hid.trans hid₀.symm)]
            exact ⟨hr₀, hnew⟩
          · exact h.releases e he k hk'
        · exact h.releases e he k hk'
      · intro x hx
        rcases List.mem_append.mp hx with hx | hx
        · rcases h.together x hx with ⟨e, he, hl, k, hkf, hf⟩ | hagree
          · refine Or.inl ⟨_, List.mem_map_of_mem he, ?_, k, fold_followers hkf, hf⟩
            rw [fold_job]
            exact hl
          · exact Or.inr hagree
        · simp only [Option.toList_some, List.map_singleton, List.mem_singleton] at hx
          subst hx
          obtain ⟨e, he, hid, -⟩ := shape_of_off hk hoff
          refine Or.inl ⟨_, List.mem_map_of_mem he, ?_, q.job i w.nextId, ?_, rfl⟩
          · rw [fold_job]
            exact hid
          · rw [fold, if_pos hid]
            exact List.mem_cons_self
  | queued hr hx hqueue hpolls =>
      have hjoined : Ledger.joined q w = none := by
        unfold Ledger.joined
        split
        · rename_i hrel
          simp only [Bool.and_eq_true, beq_iff_eq, Bool.not_eq_true'] at hrel
          rw [hq, Option.bind_some, hr hrel]
        · rfl
      have hmem : ∀ e, e ∈ (Worker.letIn i q w).shape ↔
          e = ⟨q.job i w.nextId, []⟩ ∨ e ∈ w.shape := by
        intro e
        have hperm : (Worker.letIn i q w).shape.Perm (⟨q.job i w.nextId, []⟩ :: w.shape) := by
          unfold shape entries
          rw [hx, hqueue]
          refine List.Perm.trans (List.Perm.map Entry.bare ((List.Perm.append_left _
            (enqueue_perm ⟨q.job i w.nextId, []⟩ w.queue)).trans List.perm_middle)) ?_
          exact List.Perm.refl _
        rw [hperm.mem_iff, List.mem_cons]
      rw [hjoined]
      refine ⟨?_, ?_⟩
      · intro e he k hkf
        rcases (hmem e).mp he with rfl | he
        · exact absurd hkf (by simp)
        · exact h.releases e he k hkf
      · intro x hx
        simp only [Option.toList_none, List.map_nil, List.append_nil] at hx
        rcases h.together x hx with ⟨e, he, hrest⟩ | hagree
        · exact Or.inl ⟨e, (hmem e).mpr (Or.inr he), hrest⟩
        · exact Or.inr hagree

/-- The jobs that have an outcome. -/
def outcomes (s : Ledger) : List Job := s.drained ++ s.worker.done

/-- A release is told what it was filed with. -/
theorem told_release {stopping : Bool} {j : Job} (hr : j.release = true) :
    (if stopping && !j.release then { j with failed := true, cancelled := true } else j) = j := by
  rw [hr]
  simp

theorem joined_cleared (h : Kept s.worker) (i : Nat) (q : Request) :
    joined q (cleared i q s.worker) = joined q s.worker := by
  have hoff : (cleared i q s.worker).off = s.worker.off := by
    unfold cleared
    split
    · exact (cancelKeyUps_view i h.offReleases).2.2.1
    · rfl
  rw [joined, joined, hoff]

theorem Following.step (h : Following s.worker.shape s.outcomes s.follows) (hw : Wired s)
    (e : Event) :
    Following (step p s e).worker.shape (step p s e).outcomes (step p s e).follows := by
  unfold outcomes at h ⊢
  cases moved_step hw e with
  | filed worker stopping accepted complete follows drained exited =>
      rw [follows, drained]
      exact h.filed worker
  | letIn q i passed worker accepted complete follows drained exited =>
      have hcleared := h.filed (cleared_filed i q.request s.worker)
      have hin := hcleared.letIn (cleared_kept hw.kept i q.request) i q.request passed.index
      rw [joined_cleared hw.kept, cleared_nextId] at hin
      rw [follows, drained, worker]
      exact hin
  | drained j rest done told worker accepted complete follows exited =>
      obtain ⟨-, -, -, hshape, hdone⟩ := drain_held done
      rw [follows, told, worker, hshape, hdone]
      refine ⟨h.releases, fun x hx => ?_⟩
      rcases h.together x hx with hwait | hagree
      · exact Or.inl hwait
      · refine Or.inr (hagree.mono fun m hm hr => ?_)
        rw [List.append_assoc]
        rw [done] at hm
        rcases List.mem_append.mp hm with hm | hm
        · exact List.mem_append_left _ hm
        · refine List.mem_append_right _ ?_
          rcases List.mem_cons.mp hm with rfl | hm
          · rw [told_release hr]
            exact List.mem_cons_self
          · exact List.mem_cons_of_mem _ hm
  | exit before after stopping shape worker accepted complete follows drained =>
      obtain ⟨rs, -, -, hshape, -⟩ := exited_worker hw.kept shape worker
      obtain ⟨results, hd, -⟩ :=
        finalReleases p.pttSet (List.range p.maxVfos) (off_of_idle hw.kept shape)
      rw [follows, drained, hshape, worker, hd]
      refine ⟨by simp, fun x hx => ?_⟩
      rcases h.together x hx with ⟨e, he, -⟩ | hagree
      · rw [shape] at he
        exact absurd he (by simp)
      · refine Or.inr (hagree.mono fun m hm _ => ?_)
        rw [← List.append_assoc]
        exact List.mem_append_left _ hm

theorem following_run (es : List Event) : ∀ {s : Ledger}, Orderly s →
    Following s.worker.shape s.outcomes s.follows →
      Following (run p s es).worker.shape (run p s es).outcomes (run p s es).follows := by
  induction es with
  | nil => exact fun _ h => h
  | cons e es ih => exact fun ho h => ih (ho.step e) (h.step ho.wired e)

/-- No two jobs with an outcome have one address. -/
theorem Balanced.outcomes_inj (h : Balanced s results) {j k : Job} (hj : j ∈ s.outcomes)
    (hk : k ∈ s.outcomes) (hid : j.id = k.id) : j = k := by
  have hnd : (s.outcomes.map Job.id).Nodup := by
    have hall := ((h.balance.map Job.id).nodup_iff).mpr h.ids
    have hbare : ∀ js : List Job, (js.map Job.bare).map Job.id = js.map Job.id := by
      intro js
      rw [List.map_map]
      rfl
    have hperm : (s.outcomes.map Job.id).Perm ((s.worker.done.map Job.bare).map Job.id ++
        (s.drained.map Job.bare).map Job.id) := by
      rw [hbare, hbare, outcomes, List.map_append]
      exact List.perm_append_comm
    refine hperm.nodup_iff.mpr (hall.sublist ?_)
    rw [List.map_append, held, List.map_append]
    exact (List.sublist_append_right _ _).append_right _
  exact List.inj_on_of_nodup_map hnd hj hk hid

/-- What was drained is not held. -/
theorem Balanced.held_ne_drained (h : Balanced s results) {j k : Job} (hj : j ∈ s.worker.held)
    (hk : k ∈ s.drained) : j.id ≠ k.id := by
  have hids := ((h.balance.map Job.id).nodup_iff).mpr h.ids
  rw [List.map_append, List.nodup_append] at hids
  refine hids.2.2 _ (List.mem_map_of_mem hj) _ ?_
  exact List.mem_map.mpr ⟨k.bare, List.mem_map_of_mem hk, rfl⟩

/-! ### Delivery -/

/-- What was accepted with a callback is held or was told, each once. -/
theorem Balanced.delivered (h : Balanced s results) :
    (s.accepted.filter fun j => s.complete j.id).Perm
      ((s.worker.held.filter fun j => s.complete j.id) ++ s.delivered.map Job.bare) := by
  have hnone : (results.filter fun j => s.complete j.id) = [] := by
    refine List.filter_eq_nil_iff.mpr fun j hj hc => ?_
    obtain ⟨k, hk, hid⟩ := h.called j.id hc
    have hids := h.ids
    rw [List.map_append, List.nodup_append] at hids
    exact hids.2.2 _ (List.mem_map_of_mem hk) _ (List.mem_map_of_mem hj) hid
  have hperm := h.balance.filter fun j => s.complete j.id
  rw [List.filter_append, List.filter_append, hnone, List.append_nil, List.filter_map] at hperm
  exact hperm.symm

/-- The worker thread finishes what it has in hand and takes the next job. -/
def turn (answer : Bool × Bool) : List Event :=
  [.check, .call answer.1, .finish answer.2, .dequeue]

/-- `rr_backend_worker_stop`: the queue is cut down to the releases, the worker thread runs
them, under whatever the backend answers, and exits; then everything done is drained. -/
def stopAll (p : Setup) (s : Ledger) (answers : List (Bool × Bool)) : Ledger :=
  let joined := run p s (.stop :: answers.flatMap turn ++ [.exit])
  run p joined (List.replicate joined.worker.done.length .drain)

/-- A stopped worker after one turn: nothing new is in its queue, it has a job in hand unless
the queue is empty, and if that held before it has one job less. -/
structure Turned (w w' : Worker) : Prop where
  stopping : w'.stopping = w.stopping
  le : w'.entries.length ≤ w.entries.length
  busy : w'.executing = none → w'.queue = []
  less : (w.executing = none → w.queue = []) → w'.entries.length ≤ w.entries.length - 1

theorem turn_turned (halted : Bool) (answer : Bool × Bool) (w : Worker) :
    Turned w (Worker.dequeue (Worker.finish answer.2 (Worker.call p.pttSet answer.1
      (Worker.check halted w)))) := by
  -- Whatever the phase of the job in hand, the first three steps file it.
  have hfiled : ∀ m : Worker, m = Worker.finish answer.2 (Worker.call p.pttSet answer.1
      (Worker.check halted w)) →
      m.executing = none ∧ m.queue = w.queue ∧ m.stopping = w.stopping := by
    rintro m rfl
    unfold Worker.check
    rcases hx : w.executing with _ | ⟨_ | _ | _, e⟩
    · simp [Worker.call, Worker.finish, hx]
    · simp only
      split <;> simp [Worker.call, Worker.finish, finishJob]
    · simp [Worker.call, Worker.finish, finishJob, hx]
    · simp [Worker.call, Worker.finish, finishJob, hx]
  obtain ⟨hx, hq, hs⟩ := hfiled _ rfl
  have hlen : w.entries.length = w.executing.toList.length + w.queue.length := by
    unfold entries
    rw [List.length_append]
    cases w.executing with
    | none => rfl
    | some x => rfl
  generalize Worker.finish answer.2 (Worker.call p.pttSet answer.1 (Worker.check halted w)) = m
    at hx hq hs ⊢
  unfold Worker.dequeue
  rw [hx]
  cases hqueue : m.queue with
  | nil =>
      refine ⟨hs, ?_, fun _ => hqueue, fun _ => ?_⟩
      · simp [entries, hx, hqueue]
      · simp [entries, hx, hqueue]
  | cons e rest =>
      have hrest : w.queue.length = rest.length + 1 := by rw [← hq, hqueue, List.length_cons]
      refine ⟨hs, ?_, fun hc => absurd hc (by simp), fun hbusy => ?_⟩
      · rw [hlen, hrest]
        simp only [entries, Option.map_some, Option.toList_some, List.length_append,
          List.length_singleton]
        omega
      · rw [hlen, hrest]
        have hone : w.executing.toList.length = 1 := by
          cases hw : w.executing with
          | none =>
              rw [hbusy hw] at hrest
              exact absurd hrest (by simp)
          | some x => rfl
        simp only [entries, Option.map_some, Option.toList_some, List.length_append,
          List.length_singleton]
        omega

theorem run_turn (answer : Bool × Bool) (s : Ledger) :
    Turned s.worker (run p s (turn answer)).worker := by
  have hworker : (run p s (turn answer)).worker =
      Worker.dequeue (Worker.finish answer.2 (Worker.call p.pttSet answer.1
        (Worker.check s.halted s.worker))) := by
    show (Linked.dequeue _).worker = _
    rw [dequeue_worker]
    rfl
  rw [hworker]
  exact turn_turned s.halted answer s.worker

theorem run_append (s : Ledger) (es es' : List Event) :
    run p s (es ++ es') = run p (run p s es) es' := List.foldl_append

/-- Enough turns leave a stopped worker nothing to run. -/
theorem run_turns (answers : List (Bool × Bool)) : ∀ {s : Ledger},
    (s.worker.executing = none → s.worker.queue = []) →
      s.worker.entries.length ≤ answers.length →
        (run p s (answers.flatMap turn)).worker.entries = [] ∧
          (run p s (answers.flatMap turn)).worker.stopping = s.worker.stopping := by
  induction answers with
  | nil => exact fun _ hlen => ⟨List.eq_nil_of_length_eq_zero (Nat.le_zero.mp hlen), rfl⟩
  | cons answer answers ih =>
      intro s hbusy hlen
      have hturn := run_turn (p := p) answer s
      rw [List.flatMap_cons, run_append]
      have hless := hturn.less hbusy
      rw [List.length_cons] at hlen
      obtain ⟨hidle, hstop⟩ := ih hturn.busy (by omega)
      exact ⟨hidle, hstop.trans hturn.stopping⟩

/-- The done list is drained to its end. -/
theorem run_drains (n : Nat) : ∀ {s : Ledger}, s.worker.done.length = n →
    (run p s (List.replicate n .drain)).worker.done = [] ∧
      (run p s (List.replicate n .drain)).exited = s.exited := by
  induction n with
  | zero => exact fun hlen => ⟨List.eq_nil_of_length_eq_zero hlen, rfl⟩
  | succ n ih =>
      intro s hlen
      cases hd : s.worker.done with
      | nil =>
          rw [hd] at hlen
          exact absurd hlen (by simp)
      | cons j rest =>
          obtain ⟨-, -, -, -, hdone⟩ := drain_held hd
          rw [List.replicate_succ]
          have hnext : (step p s .drain).worker.done.length = n := by
            show (Worker.drain s.worker).2.done.length = n
            rw [hdone]
            rw [hd, List.length_cons] at hlen
            omega
          exact ih hnext

/-- The thread exits once it has nothing left. -/
theorem exited_exit (hstop : s.worker.stopping = true) (hidle : s.worker.entries = []) :
    (step p s .exit).exited = true := by
  unfold entries at hidle
  obtain ⟨hx, hq⟩ := List.append_eq_nil_iff.mp hidle
  have hnone : s.worker.executing = none := by
    cases hw : s.worker.executing with
    | none => rfl
    | some x =>
        rw [hw] at hx
        exact absurd hx (by simp)
  unfold step
  simp only [hstop, hq, hnone, List.isEmpty_nil, Option.isNone_none, Bool.and_self, Bool.true_and]
  cases hexit : s.exited with
  | true => exact hexit
  | false => rfl

/-- A stop comes to its end: the thread is gone and nothing is held. -/
theorem stopAll_held (h : Orderly s) {answers : List (Bool × Bool)}
    (hlen : s.worker.entries.length < answers.length) :
    (stopAll p s answers).exited = true ∧ (stopAll p s answers).worker.held = [] := by
  have hstopped : (step p s .stop).worker.stopping = true ∧
      (step p s .stop).worker.entries.length ≤ s.worker.entries.length := by
    have hw : (step p s .stop).worker = Worker.stop s.worker := stop_worker s.linked
    obtain ⟨gone, hshape, -⟩ := stop_filed s.worker
    have hlength : ∀ w : Worker, w.shape.length = w.entries.length := fun w => List.length_map _
    have hle := hshape.length_eq
    rw [List.length_append, hlength, hlength] at hle
    rw [hw]
    exact ⟨(foldl_file_done _ _).2.2.2.2.2, by omega⟩
  cases answers with
  | nil => exact absurd hlen (by simp)
  | cons answer answers =>
      have hfirst := run_turn (p := p) answer (step p s .stop)
      rw [List.length_cons] at hlen
      obtain ⟨hidle, hstop⟩ := run_turns (p := p) answers hfirst.busy
        (by have := hfirst.le; omega)
      let s₂ := run p (run p (step p s .stop) (turn answer)) (answers.flatMap turn)
      have hstop₂ : s₂.worker.stopping = true :=
        hstop.trans (hfirst.stopping.trans hstopped.1)
      have hjoined : run p s (.stop :: (answer :: answers).flatMap turn ++ [.exit]) =
          step p s₂ .exit := by
        rw [List.flatMap_cons, run_append]
        show step p (run p (step p s .stop) (turn answer ++ answers.flatMap turn)) .exit = _
        rw [run_append]
      have hexit := exited_exit (p := p) hstop₂ hidle
      have hdrain := run_drains (p := p) (step p s₂ .exit).worker.done.length rfl
      have heq : stopAll p s (answer :: answers) =
          run p (step p s₂ .exit)
            (List.replicate (step p s₂ .exit).worker.done.length .drain) := by
        unfold stopAll
        simp only
        rw [hjoined]
      have horderly : Orderly (stopAll p s (answer :: answers)) := by
        rw [heq, ← hjoined, ← run_append]
        exact h.run _
      obtain ⟨results, hb⟩ := horderly.balanced
      have hexited : (stopAll p s (answer :: answers)).exited = true := by
        rw [heq, hdrain.2, hexit]
      refine ⟨hexited, ?_⟩
      unfold held
      rw [(hb.exited hexited).1, heq, hdrain.1]
      rfl

/-- **Every accepted job is completed once.**  In every state of a worker: a submission that
is accepted with a callback puts its job on record; the jobs on record with a callback are,
each once, those still held and those whose callback was called; a follower that was told
its outcome was told that of the release it joined; and a stop, whatever the backend answers
to the releases it still runs, ends with the thread gone, nothing held, and so every callback
on record called once. -/
theorem completed_once (p : Setup) (es : List Event) :
    let s := run p start es
    (∀ (q : Submission) (alloc : Bool),
        (Linked.submit p.maxVfos s.halted alloc s.linked q.request).1 = false →
          q.complete = true → ∃ i, q.request.index = some i ∧
            (step p s (.submit q alloc)).accepted =
              s.accepted ++ [q.request.job i s.worker.nextId] ∧
            (step p s (.submit q alloc)).complete s.worker.nextId = true) ∧
      (s.accepted.map Job.id).Nodup ∧
      (s.accepted.filter fun j => s.complete j.id).Perm
        ((s.worker.held.filter fun j => s.complete j.id) ++ s.delivered.map Job.bare) ∧
      (∀ x ∈ s.follows, ∀ follower ∈ s.drained, ∀ leader ∈ s.drained, follower.id = x.1 →
        leader.id = x.2 → follower.failed = leader.failed) ∧
      ∀ answers, s.worker.entries.length < answers.length →
        let s' := stopAll p s answers
        s'.exited = true ∧ s'.worker.held = [] ∧
          (s'.accepted.filter fun j => s'.complete j.id).Perm (s'.delivered.map Job.bare) := by
  intro s
  have h : Orderly s := orderly_start.run es
  obtain ⟨results, hb⟩ := h.balanced
  have hfollow : Following s.worker.shape s.outcomes s.follows :=
    following_run es orderly_start ⟨by simp [start, worker, Linked.start, Worker.start, shape,
      entries], by simp [start]⟩
  refine ⟨fun q alloc hok hcall => ?_, ?_, hb.delivered, ?_, fun answers hlen => ?_⟩
  · rcases submit_outcome (p := p) h.wired q alloc with ⟨-, hpoll, -⟩ | ⟨i, hi, -, heq⟩
    · rw [q.silent (hpoll hok)] at hcall
      exact absurd hcall (by simp)
    · refine ⟨i, hi.index, ?_, ?_⟩
      · show (submit p s q alloc).accepted = _
        rw [heq]
        rfl
      · show (submit p s q alloc).complete _ = true
        rw [heq]
        simp [hcall]
  · have hids := hb.ids
    rw [List.map_append, List.nodup_append] at hids
    exact hids.1
  · intro x hx follower hf leader hl hfid hlid
    rcases hfollow.together x hx with ⟨e, he, -, k, hk, hkid⟩ | hagree
    · have hheld : k ∈ s.worker.held :=
        List.mem_append_left _ (List.mem_flatMap.mpr ⟨e, he, List.mem_cons_of_mem _ hk⟩)
      exact absurd (hkid.trans hfid.symm) (hb.held_ne_drained hheld hf)
    · obtain ⟨jl, hjl, jf, hjf, hjlid, hjfid, -, -, hfailed⟩ := hagree
      rw [hb.outcomes_inj (List.mem_append_left _ hf) hjf (hfid.trans hjfid.symm),
        hb.outcomes_inj (List.mem_append_left _ hl) hjl (hlid.trans hjlid.symm)]
      exact hfailed
  · obtain ⟨hexit, hheld⟩ := stopAll_held (p := p) h hlen
    refine ⟨hexit, hheld, ?_⟩
    have horderly : Orderly (stopAll p s answers) := by
      unfold stopAll
      simp only
      rw [← run_append]
      exact h.run _
    obtain ⟨results', hb'⟩ := horderly.balanced
    have hperm := hb'.delivered
    rw [hheld] at hperm
    exact hperm

end Ledger

end RustyRig
