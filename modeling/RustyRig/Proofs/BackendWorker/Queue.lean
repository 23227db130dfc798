/-
The queue and its books, whatever is asked of a worker.

Three things are kept beside the balance.  `Polled`: the poll flags name the polls
that were accepted and not drained.  `InOrder`: polls come last in the queue, and what
was taken from it and what still waits in it are, control jobs only, in the order of
submission.  The tail, the counter and the booked releases are `Wired`.
-/
import Mathlib.Algebra.GroupWithZero.Nat
import Mathlib.Data.List.Perm.Subperm
import Mathlib.Data.List.TakeWhile
import RustyRig.Proofs.BackendWorker.Ledger

namespace RustyRig

namespace Job

/-- Neither a release nor a poll. -/
def control (j : Job) : Bool := j.operation != .poll && !j.release

@[simp] theorem bare_control (j : Job) : j.bare.control = j.control := rfl

/-- A poll of a VFO. -/
def pollOf (i : Nat) (j : Job) : Bool := j.operation == .poll && j.index == i

/-- A release of a VFO. -/
def releaseOf (i : Nat) (j : Job) : Bool := j.release && j.index == i

end Job

namespace Ledger

open Worker Linked

variable {p : Setup} {s s' : Ledger} {results : List Job}

/-! ### Polls -/

/-- The accepted polls of a VFO that are not drained. -/
def pendingPolls (s : Ledger) (i : Nat) : List Job :=
  s.worker.held.filter fun j => decide (j ∈ s.accepted) && j.pollOf i

/-- A VFO has one poll pending at most, and its flag says whether. -/
def Polled (s : Ledger) : Prop :=
  ∀ i, (s.pendingPolls i).length = if s.worker.polls i then 1 else 0

/-- What is held was accepted, or is a result. -/
theorem Balanced.of_held (h : Balanced s results) {j : Job} (hj : j ∈ s.worker.held) :
    j ∈ s.accepted ++ results :=
  h.balance.subset (List.mem_append_left _ hj)

theorem Balanced.held_accepted (h : Balanced s results) (hx : s.exited = false) {j : Job}
    (hj : j ∈ s.worker.held) : j ∈ s.accepted := by
  have hmem := h.of_held hj
  rwa [h.early hx, List.append_nil] at hmem

/-- A result is not an accepted job. -/
theorem Balanced.not_result (h : Balanced s results) {j : Job} (hj : j ∈ s.accepted) :
    j ∉ results := by
  intro hr
  have hids := h.ids
  rw [List.map_append, List.nodup_append] at hids
  exact hids.2.2 _ (List.mem_map_of_mem hj) _ (List.mem_map_of_mem hr) rfl

theorem Balanced.running (h : Balanced s results) (hstop : s.worker.stopping = false) :
    s.exited = false := by
  cases hx : s.exited with
  | false => rfl
  | true =>
      rw [(h.exited hx).2] at hstop
      exact absurd hstop (by simp)

/-- The pending polls depend on what is held only. -/
theorem pendingPolls_length (hheld : s'.worker.held.Perm s.worker.held)
    (haccepted : s'.accepted = s.accepted) (i : Nat) :
    (s'.pendingPolls i).length = (s.pendingPolls i).length := by
  unfold pendingPolls
  rw [haccepted]
  exact (hheld.filter _).length_eq

theorem polled_filed (h : Polled s) (hfiled : Filed s.worker s'.worker)
    (haccepted : s'.accepted = s.accepted) : Polled s' := by
  intro i
  rw [pendingPolls_length hfiled.held haccepted, h i]
  obtain ⟨-, -, -, -, hp, -⟩ := hfiled
  rw [hp]

theorem letIn_polls (i : Nat) (q : Request) (w : Worker) :
    (letIn i q (cleared i q w)).polls =
      if q.operation == .poll then Function.update w.polls i true else w.polls := by
  obtain ⟨-, -, -, -, hp, -⟩ := cleared_filed i q w
  rw [← hp]
  obtain ⟨-, -, -, hcases⟩ := letIn_cases i q (cleared i q w)
  cases hcases with
  | joined parent hr hoff hshape hpolls => rw [hpolls]; simp [hr.1]
  | queued hr hx hq hpolls => exact hpolls

theorem polled_letIn (h : Polled s) (hb : Balanced s results) (hk : Kept s.worker)
    {q : Submission} {i : Nat} (hpassed : Passed p.maxVfos s.halted s.worker q.request i)
    (hworker : s'.worker = Worker.letIn i q.request (cleared i q.request s.worker))
    (haccepted : s'.accepted = s.accepted ++ [newJob s q i]) : Polled s' := by
  intro k
  have hheld : s'.worker.held.Perm (newJob s q i :: s.worker.held) := by
    rw [hworker]
    exact letIn_cleared_held hk q i
  have hx := hb.running hpassed.running
  have hold : (s.worker.held.filter fun j => decide (j ∈ s'.accepted) && j.pollOf k) =
      s.pendingPolls k := by
    refine List.filter_congr fun j hj => ?_
    have hacc := hb.held_accepted hx hj
    rw [haccepted, decide_eq_true (List.mem_append_left _ hacc), decide_eq_true hacc]
  have hnew : newJob s q i ∈ s'.accepted := by
    rw [haccepted]
    exact List.mem_append_right _ (List.mem_singleton_self _)
  have hlen : (s'.pendingPolls k).length =
      (s.pendingPolls k).length + if (newJob s q i).pollOf k then 1 else 0 := by
    unfold pendingPolls
    rw [(hheld.filter _).length_eq, List.filter_cons, decide_eq_true hnew, Bool.true_and, hold]
    split
    · rfl
    · rfl
  rw [hlen, h k, hworker, letIn_polls]
  have hpollOf : (newJob s q i).pollOf k = (q.request.operation == .poll && i == k) := rfl
  rw [hpollOf]
  by_cases hp : q.request.operation = .poll
  · rw [hp]
    simp only [beq_self_eq_true, Bool.true_and, if_true]
    by_cases hik : i = k
    · subst hik
      rw [hpassed.unpolled hp]
      simp
    · rw [beq_eq_false_iff_ne.mpr hik, Function.update_of_ne fun hc => hik hc.symm]
      simp
  · rw [beq_eq_false_iff_ne.mpr hp]
    simp

theorem polled_drained (h : Polled s) (hb : Balanced s results) {j : Job} {rest : List Job}
    (hd : s.worker.done = j :: rest) (hworker : s'.worker = (Worker.drain s.worker).2)
    (haccepted : s'.accepted = s.accepted) : Polled s' := by
  intro k
  obtain ⟨hheld, -, -, -, -⟩ := drain_held hd
  rw [← hworker] at hheld
  have hlen : (s.pendingPolls k).length =
      (s'.pendingPolls k).length + if decide (j.bare ∈ s.accepted) && j.bare.pollOf k then 1 else 0 := by
    unfold pendingPolls
    rw [haccepted, (hheld.filter _).length_eq, List.filter_cons]
    split
    · rfl
    · rfl
  have hpolls : s'.worker.polls =
      if j.operation == .poll then Function.update s.worker.polls j.index false
      else s.worker.polls := by
    rcases drain_cases s.worker with ⟨-, hnil⟩ | ⟨j', rest', hd', -, -, -, -, -, hp⟩
    · rw [hd] at hnil
      exact absurd hnil (by simp)
    · rw [hd] at hd'
      obtain ⟨rfl, rfl⟩ := List.cons.inj hd'
      rw [hworker, hp]
  have hk := h k
  rw [hlen] at hk
  rw [hpolls]
  by_cases hacc : j.bare ∈ s.accepted
  · rw [decide_eq_true hacc, Bool.true_and] at hk
    have hpollOf : j.bare.pollOf k = (j.operation == .poll && j.index == k) := rfl
    rw [hpollOf] at hk
    by_cases hp : j.operation = .poll
    · rw [hp] at hk ⊢
      simp only [beq_self_eq_true, Bool.true_and, if_true] at hk ⊢
      by_cases hjk : j.index = k
      · subst hjk
        rw [Function.update_self]
        simp only [beq_self_eq_true, if_true] at hk
        simp only [Bool.false_eq_true, if_false]
        split at hk
        · omega
        · omega
      · rw [Function.update_of_ne fun hc => hjk hc.symm]
        rw [beq_eq_false_iff_ne.mpr hjk] at hk
        simpa using hk
    · rw [beq_eq_false_iff_ne.mpr hp] at hk ⊢
      simpa using hk
  · -- A result is drained when nothing accepted is left.
    rw [decide_eq_false hacc] at hk
    have hnone : ∀ i, s.worker.polls i = false := by
      intro i
      have hempty : s.pendingPolls i = [] := by
        refine List.filter_eq_nil_iff.mpr fun m hm => ?_
        obtain ⟨old, new, horder, hold, hnew⟩ := hb.order
        cases old with
        | cons o old =>
            rw [hd, List.map_cons] at horder
            obtain ⟨rfl, -⟩ := List.cons.inj horder
            exact absurd (hold _ List.mem_cons_self) hacc
        | nil =>
            have hresult : j.bare ∈ results := by
              refine hnew _ ?_
              rw [List.nil_append] at horder
              rw [← horder, hd]
              exact List.mem_map_of_mem List.mem_cons_self
            have hx : s.exited = true := by
              cases hx : s.exited with
              | true => rfl
              | false =>
                  rw [hb.early hx] at hresult
                  exact absurd hresult (by simp)
            have hmem : m ∈ results := by
              refine hnew m ?_
              rw [List.nil_append] at horder
              unfold held at hm
              rw [(hb.exited hx).1, horder] at hm
              exact hm
            have hnot : m ∉ s.accepted := fun hc => hb.not_result hc hmem
            simp [hnot]
      have hi := h i
      rw [hempty] at hi
      cases hpi : s.worker.polls i with
      | false => rfl
      | true => rw [hpi] at hi; exact absurd hi (by simp)
    have hsame : (if j.operation == .poll then Function.update s.worker.polls j.index false
        else s.worker.polls) k = false := by
      split
      · by_cases hjk : k = j.index
        · rw [hjk, Function.update_self]
        · rw [Function.update_of_ne hjk, hnone]
      · exact hnone k
    rw [hsame]
    rw [hnone] at hk
    simpa using hk

theorem Polled.step (h : Polled s) (hb : Balanced s results) (hw : Wired s) (e : Event) :
    Polled (step p s e) := by
  cases moved_step hw e with
  | filed worker stopping accepted complete follows drained exited =>
      exact polled_filed h worker accepted
  | letIn q i passed worker accepted complete follows drained exited =>
      exact polled_letIn h hb hw.kept passed worker accepted
  | drained j rest done told worker accepted complete follows exited =>
      exact polled_drained h hb done worker accepted
  | exit before after stopping shape worker accepted complete follows drained =>
      intro i
      obtain ⟨rs, hheld, -, -, -, hrs, -, -, hp, -⟩ := exited_worker hw.kept shape worker
      have hnone : (rs.filter fun j => decide (j ∈ s.accepted) && j.pollOf i) = [] := by
        refine List.filter_eq_nil_iff.mpr fun j hj => ?_
        have hnot : j ∉ s.accepted := by
          intro hc
          have hlt := hb.fresh j (List.mem_append_left _ hc)
          have hge := hrs j hj
          omega
        simp [hnot]
      have hlen : ((Ledger.step p s e).pendingPolls i).length = (s.pendingPolls i).length := by
        unfold pendingPolls
        rw [accepted, hheld, List.filter_append, hnone, List.append_nil]
      rw [hlen, h i, hp]

/-! ### Order -/

/-- Nothing but polls comes after a poll. -/
def PollsLast (queue : List Entry) : Prop :=
  queue.Pairwise fun a b => a.job.operation = .poll → b.job.operation = .poll

/-- Behind the first poll there are only polls. -/
theorem PollsLast.dropWhile {queue : List Entry} (h : PollsLast queue) :
    ∀ e ∈ queue.dropWhile (fun q => q.job.operation != .poll), e.job.operation = .poll := by
  induction queue with
  | nil => simp
  | cons e queue ih =>
      by_cases he : e.job.operation = .poll
      · rw [List.dropWhile_cons_of_neg (by simp [he])]
        intro k hk
        rcases List.mem_cons.mp hk with rfl | hk
        · exact he
        · exact List.rel_of_pairwise_cons h hk he
      · rw [List.dropWhile_cons_of_pos (by simp [he])]
        exact ih h.of_cons

theorem PollsLast.enqueue {queue : List Entry} (h : PollsLast queue) (e : Entry) :
    PollsLast (enqueue e queue) := by
  unfold Worker.enqueue
  split
  · rename_i hr
    refine List.pairwise_cons.mpr ⟨fun k _ he => ?_, h⟩
    rw [Job.release, he] at hr
    exact absurd hr (by simp)
  split
  · rename_i he
    refine List.pairwise_append.mpr ⟨h, List.pairwise_singleton _ _, fun k _ m hm _ => ?_⟩
    rw [List.mem_singleton.mp hm]
    exact beq_iff_eq.mp he
  · rename_i he
    have hsplit : PollsLast ((queue.takeWhile fun q => q.job.operation != .poll) ++
        queue.dropWhile fun q => q.job.operation != .poll) := by
      rw [List.takeWhile_append_dropWhile]
      exact h
    obtain ⟨hbefore, hafter, -⟩ := List.pairwise_append.mp hsplit
    refine List.pairwise_append.mpr ⟨hbefore, List.pairwise_cons.mpr ⟨?_, hafter⟩, ?_⟩
    · intro k _ hp
      exact absurd (beq_iff_eq.mpr hp) he
    · intro k hk m _ hp
      have hk' := List.mem_takeWhile_imp hk
      simp [hp] at hk'

/-- A control job enters behind every other that waits. -/
theorem enqueue_control {queue : List Entry} (h : PollsLast queue) (e : Entry) :
    ((enqueue e queue).map (·.job.bare)).filter Job.control =
      (queue.map (·.job.bare)).filter Job.control ++ [e.job.bare].filter Job.control := by
  unfold Worker.enqueue
  split
  · rename_i hr
    have hno : e.job.bare.control = false := by simp [Job.control, hr]
    rw [List.map_cons, List.filter_cons_of_neg (by simp [hno]),
      List.filter_cons_of_neg (by simp [hno]), List.filter_nil, List.append_nil]
  split
  · rw [List.map_append, List.filter_append]
    rfl
  · have hrest : ((queue.dropWhile fun q => q.job.operation != .poll).map (·.job.bare)).filter
        Job.control = [] := by
      refine List.filter_eq_nil_iff.mpr fun j hj => ?_
      obtain ⟨k, hk, rfl⟩ := List.mem_map.mp hj
      simp [Job.control, h.dropWhile k hk]
    have hsplit : (queue.map (·.job.bare)).filter Job.control =
        ((queue.takeWhile fun q => q.job.operation != .poll).map (·.job.bare)).filter
          Job.control := by
      rw [← List.append_nil (List.filter _ (List.map _ (List.takeWhile _ _))), ← hrest,
        ← List.filter_append, ← List.map_append, List.takeWhile_append_dropWhile]
    rw [hsplit, List.map_append, List.filter_append, List.map_cons,
      ← List.singleton_append, List.filter_append, hrest, List.append_nil]

/-- Polls come last, and the control jobs taken and waiting are in the order of submission. -/
structure InOrder (queue : List Entry) (taken accepted : List Job) : Prop where
  pollsLast : PollsLast queue
  fifo : ((taken.map Job.bare ++ queue.map (·.job.bare)).filter Job.control).Sublist accepted

namespace InOrder

variable {queue : List Entry} {taken accepted : List Job}

/-- Jobs leave the queue unrun. -/
theorem filter (h : InOrder queue taken accepted) (keep : Entry → Bool) :
    InOrder (queue.filter keep) taken accepted where
  pollsLast := h.pollsLast.filter _
  fifo := (((List.filter_sublist.map _).append_left _).filter _).trans h.fifo

/-- The head of the queue is taken. -/
theorem take {e : Entry} (h : InOrder (e :: queue) taken accepted) :
    InOrder queue (taken ++ [e.job]) accepted where
  pollsLast := h.pollsLast.of_cons
  fifo := by
    rw [List.map_append, List.append_assoc]
    exact h.fifo

/-- A job enters the queue. -/
theorem enqueue (h : InOrder queue taken accepted) (e : Entry) :
    InOrder (enqueue e queue) taken (accepted ++ [e.job.bare]) where
  pollsLast := h.pollsLast.enqueue e
  fifo := by
    rw [List.filter_append, enqueue_control h.pollsLast, ← List.append_assoc, ← List.filter_append]
    exact h.fifo.append List.filter_sublist

/-- A release joins another. -/
theorem join (h : InOrder queue taken accepted) (parent : Nat) (j : Job) :
    InOrder (queue.map (fold parent j)) taken (accepted ++ [j]) where
  pollsLast := by
    refine List.pairwise_map.mpr (h.pollsLast.imp fun hab => ?_)
    rw [fold_job, fold_job]
    exact hab
  fifo := by
    have hmap : (queue.map (fold parent j)).map (·.job.bare) = queue.map (·.job.bare) := by
      rw [List.map_map]
      refine List.map_congr_left fun e _ => ?_
      simp [fold_job]
    rw [hmap]
    exact h.fifo.trans (List.sublist_append_left _ _)

theorem letIn {w : Worker} (h : InOrder w.queue taken accepted) (i : Nat) (q : Request) :
    InOrder (letIn i q w).queue taken (accepted ++ [q.job i w.nextId]) := by
  unfold Worker.letIn
  split
  · exact h.join _ _
  · exact h.enqueue ⟨q.job i w.nextId, []⟩

end InOrder

theorem cleared_queue (i : Nat) (q : Request) (w : Worker) :
    ∃ keep, (cleared i q w).queue = w.queue.filter keep := by
  unfold cleared
  split
  · exact ⟨_, foldl_file_queue _ _⟩
  · exact ⟨fun _ => true, (List.filter_true _).symm⟩

theorem finalReleases_queue (pttSet : Bool) (is : List Nat) (w : Worker) :
    (is.foldl (finalRelease pttSet) w).queue = w.queue := by
  induction is generalizing w with
  | nil => rfl
  | cons i is ih =>
      rw [List.foldl_cons, ih]
      unfold finalRelease
      split <;> rfl

theorem inOrder_step (h : InOrder s.worker.queue s.taken s.accepted) (hw : Wired s) (e : Event) :
    InOrder (step p s e).worker.queue (step p s e).taken (step p s e).accepted := by
  cases e with
  | submit q alloc =>
      show InOrder (submit p s q alloc).worker.queue (submit p s q alloc).taken
        (submit p s q alloc).accepted
      rcases submit_outcome (p := p) hw q alloc with
        ⟨heq, -, hworker⟩ | ⟨i, -, hworker, heq⟩
      · rcases hworker with hworker | ⟨i, -, hworker⟩
        · rw [hworker, heq]
          exact h
        · obtain ⟨keep, hkeep⟩ := cleared_queue i q.request s.worker
          rw [hworker, hkeep, heq]
          exact h.filter keep
      · obtain ⟨keep, hkeep⟩ := cleared_queue i q.request s.worker
        have hcleared := h.filter keep
        rw [← hkeep] at hcleared
        have hin := hcleared.letIn i q.request
        rw [cleared_nextId] at hin
        rw [hworker, heq]
        exact hin
  | dequeue =>
      show InOrder s.linked.dequeue.worker.queue (s.taken ++ (next s.worker).toList) s.accepted
      rw [dequeue_worker]
      show InOrder (Worker.dequeue s.worker).queue _ _
      have hkept : InOrder s.worker.queue (s.taken ++ []) s.accepted := by
        rw [List.append_nil]
        exact h
      unfold Worker.dequeue next
      cases hx : s.worker.executing with
      | some x => exact hkept
      | none =>
          cases hq : s.worker.queue with
          | nil =>
              rw [hq] at hkept
              show InOrder s.worker.queue (s.taken ++ []) s.accepted
              rw [hq]
              exact hkept
          | cons e rest =>
              rw [hq] at h
              exact h.take
  | check =>
      show InOrder (check s.halted s.worker).queue s.taken s.accepted
      unfold check
      split
      · split <;> exact h
      · exact h
  | call ok =>
      show InOrder (call p.pttSet ok s.worker).queue s.taken s.accepted
      unfold call
      split <;> exact h
  | finish ptt =>
      show InOrder (finish ptt s.worker).queue s.taken s.accepted
      unfold finish
      split <;> exact h
  | drain =>
      show InOrder (Worker.drain s.worker).2.queue s.taken s.accepted
      unfold Worker.drain
      split <;> exact h
  | halt halted => exact h
  | stop =>
      show InOrder s.linked.stop.worker.queue s.taken s.accepted
      rw [stop_worker]
      have hqueue : (Worker.stop s.worker).queue = s.worker.queue.filter fun e => e.job.release :=
        foldl_file_queue _ _
      show InOrder (Worker.stop s.worker).queue s.taken s.accepted
      rw [hqueue]
      exact h.filter _
  | exit =>
      show InOrder (step p s .exit).worker.queue _ _
      unfold step
      simp only
      split
      · show InOrder ((List.range p.maxVfos).foldl (finalRelease p.pttSet) s.worker).queue _ _
        rw [finalReleases_queue]
        exact h
      · exact h

/-! ### Whole runs -/

/-- What every event keeps. -/
structure Orderly (s : Ledger) : Prop where
  wired : Wired s
  balanced : ∃ results, Balanced s results
  polled : Polled s
  inOrder : InOrder s.worker.queue s.taken s.accepted

theorem Orderly.step (h : Orderly s) (e : Event) : Orderly (step p s e) := by
  obtain ⟨results, hb⟩ := h.balanced
  exact ⟨h.wired.step e, hb.step h.wired e, h.polled.step hb h.wired e,
    inOrder_step h.inOrder h.wired e⟩

theorem orderly_start : Orderly start where
  wired := wired_start
  balanced := ⟨[], balanced_start⟩
  polled := fun _ => rfl
  inOrder := ⟨List.Pairwise.nil, List.Sublist.refl _⟩

theorem Orderly.run (es : List Event) : ∀ {s : Ledger}, Orderly s → Orderly (run p s es) := by
  induction es with
  | nil => exact fun h => h
  | cons e es ih => exact fun h => ih (h.step e)

/-- The jobs held, place by place. -/
theorem held_length (w : Worker) :
    w.held.length = w.queue.length + w.executing.toList.length +
      (w.entries.map (·.followers.length)).sum + w.done.length := by
  have hflat : ∀ es : List Entry, ((es.map Entry.bare).flatMap Entry.all).length =
      es.length + (es.map (·.followers.length)).sum := by
    intro es
    induction es with
    | nil => rfl
    | cons e es ih =>
        rw [List.map_cons, List.flatMap_cons, List.length_append, ih, List.map_cons, List.sum_cons,
          List.length_cons]
        have hall : e.bare.all.length = 1 + e.followers.length := by
          simp [Entry.bare, Entry.all]
          omega
        omega
  have hentries : w.entries.length = w.queue.length + w.executing.toList.length := by
    unfold entries
    rw [List.length_append, Nat.add_comm]
    cases w.executing with
    | none => rfl
    | some x => rfl
  unfold held shape
  rw [List.length_append, List.length_map, hflat, hentries]

/-- One release of a VFO is live at most, and `off` names it. -/
theorem release_booked {w : Worker} (h : Kept w) (i : Nat) :
    (w.jobs.filter (Job.releaseOf i)).length ≤ 1 ∧
      ∀ id, w.off i = some id ↔ ∃ j ∈ w.jobs, j.releaseOf i = true ∧ j.id = id := by
  have hbooked : ∀ j ∈ w.jobs, j.releaseOf i = true → w.off i = some j.id := by
    intro j hj hr
    simp only [Job.releaseOf, Bool.and_eq_true, beq_iff_eq] at hr
    rw [← hr.2]
    exact h.booked j hj hr.1
  refine ⟨?_, fun id => ⟨fun hoff => ?_, ?_⟩⟩
  · have hnd := h.nodup.sublist ((List.filter_sublist (p := Job.releaseOf i)).map Job.id)
    match hlist : w.jobs.filter (Job.releaseOf i) with
    | [] => exact Nat.zero_le 1
    | [_] => exact Nat.le_refl 1
    | a :: b :: rest =>
        have hmem : ∀ c ∈ [a, b], w.off i = some c.id := by
          intro c hc
          have hin : c ∈ w.jobs.filter (Job.releaseOf i) := by
            rw [hlist]
            rcases List.mem_cons.mp hc with rfl | hc
            · exact List.mem_cons_self
            · rw [List.mem_singleton.mp hc]
              exact List.mem_cons_of_mem _ List.mem_cons_self
          obtain ⟨hj, hr⟩ := List.mem_filter.mp hin
          exact hbooked c hj hr
        have hsame : a.id = b.id :=
          Option.some.inj ((hmem a (by simp)).symm.trans (hmem b (by simp)))
        rw [hlist] at hnd
        simp [hsame] at hnd
  · obtain ⟨j, hj, hr, hi, hid⟩ := h.live i id hoff
    exact ⟨j, hj, by simp [Job.releaseOf, hr, hi], hid⟩
  · rintro ⟨j, hj, hr, rfl⟩
    exact hbooked j hj hr

/-- **The queue is what its pointers and books say, in every state of a worker.**  The tail
is the last queued job and the counter their number; polls come last; each VFO has one
release in the queue or in hand at most, which `off` names, and one poll undrained at most,
which `polls` tells; `outstanding` counts the queue, the job in hand, the followers and what
is done; and control jobs are taken in the order of their submission. -/
theorem queue_represented (p : Setup) (es : List Event) :
    let s := run p start es
    let w := s.worker
    (s.linked.tail = w.queue.getLast?.map (·.job.id) ∧ (s.linked.tail = none ↔ w.queue = []) ∧
        s.linked.queued = w.queue.length) ∧
      PollsLast w.queue ∧
      (∀ i, (w.jobs.filter (Job.releaseOf i)).length ≤ 1 ∧
        ∀ id, w.off i = some id ↔ ∃ j ∈ w.jobs, j.releaseOf i = true ∧ j.id = id) ∧
      (∀ i, (s.pendingPolls i).length = if w.polls i then 1 else 0) ∧
      w.outstanding = w.queue.length + w.executing.toList.length +
        (w.entries.map (·.followers.length)).sum + w.done.length ∧
      ((s.taken.filter Job.control).map Job.bare).Sublist s.accepted := by
  intro s w
  have h : Orderly s := orderly_start.run es
  obtain ⟨results, hb⟩ := h.balanced
  have htail := h.wired.threaded.tail
  refine ⟨⟨htail, ?_, h.wired.threaded.queued⟩, h.inOrder.pollsLast,
    release_booked h.wired.kept, h.polled, ?_, ?_⟩
  · rw [htail]
    exact lastId_eq_none
  · exact hb.outstanding.trans (held_length w)
  · refine List.Sublist.trans ?_ h.inOrder.fifo
    rw [List.filter_append]
    have hmap : (s.taken.filter Job.control).map Job.bare =
        (s.taken.map Job.bare).filter Job.control := by
      rw [List.filter_map]
      rfl
    rw [hmap]
    exact List.sublist_append_left _ _

end Ledger

end RustyRig

/-!
The places kept for releases.

`rr_backend_worker_submit` admits a job up to 64 outstanding ones and a release up to
one more for every VFO.  Jobs other than releases never take more than their 64, so
the places above are the releases' own; but they are one pool.  A follower takes one,
and so does a release that has run and is not drained.
-/

namespace RustyRig

namespace Ledger

open Worker Linked

variable {p : Setup} {s s' : Ledger} {results : List Job}

/-- The undrained jobs other than releases stay within the normal limit, and every accepted
job has an index. -/
structure Reserved (p : Setup) (s : Ledger) : Prop where
  normal : s.exited = false → (s.worker.held.filter fun j => !j.release).length ≤ queueLimit
  bound : ∀ j ∈ s.accepted, j.index < p.maxVfos

theorem Reserved.step (h : Reserved p s) (hb : Balanced s results) (hw : Wired s) (e : Event) :
    Reserved p (step p s e) := by
  cases moved_step hw e with
  | filed worker stopping accepted complete follows drained exited =>
      refine ⟨fun hx => ?_, by rw [accepted]; exact h.bound⟩
      rw [(worker.held.filter _).length_eq]
      exact h.normal (exited ▸ hx)
  | letIn q i passed worker accepted complete follows drained exited =>
      refine ⟨fun hx => ?_, fun j hj => ?_⟩
      · have hheld := letIn_cleared_held hw.kept q i
        rw [← worker] at hheld
        rw [(hheld.filter _).length_eq, List.filter_cons]
        split
        · rename_i hnew
          have hlt := passed.normal (by
            rw [Bool.not_eq_true'] at hnew
            exact hnew)
          have hle := List.length_filter_le (fun j => !j.release) s.worker.held
          have hout := hb.outstanding
          rw [List.length_cons]
          omega
        · exact h.normal (exited ▸ hx)
      · rw [accepted] at hj
        rcases List.mem_append.mp hj with hj | hj
        · exact h.bound j hj
        · rw [List.mem_singleton.mp hj]
          exact passed.bound
  | drained j rest done told worker accepted complete follows exited =>
      refine ⟨fun hx => ?_, by rw [accepted]; exact h.bound⟩
      obtain ⟨hheld, -⟩ := drain_held done
      rw [← worker] at hheld
      have hold := h.normal (exited ▸ hx)
      rw [(hheld.filter _).length_eq, List.filter_cons] at hold
      split at hold
      · rw [List.length_cons] at hold
        omega
      · exact hold
  | exit before after stopping shape worker accepted complete follows drained =>
      refine ⟨fun hx => ?_, by rw [accepted]; exact h.bound⟩
      rw [after] at hx
      exact absurd hx (by simp)

/-- A release of a VFO, as `rr_backend_worker_submit` is asked for it. -/
def release (i user : Nat) : Request :=
  { index := some i, operation := .ptt, on := false, user := user }

end Ledger

end RustyRig
