/-
Which transmitters the end of the worker releases.

`keyed` is what the backend read back after the last job of an index, and it is what the
last loop goes by.  As long as the radio reads back what it was set to, an index that is
on is keyed or has its job in hand; the loop then comes to it, and releases it if the VFO
with the letter of that index is the VFO with that index.

Nothing but the configuration makes it so: an alias is the slot letter, and the native
index comes from another string.
-/
import RustyRig.Lib.Along
import RustyRig.Proofs.BackendWorker.Queue
import RustyRig.Rrserver.BackendQueue

namespace RustyRig

namespace Worker

variable {w : Worker}

/-! ### What becomes of the keyed table -/

theorem foldl_file_keyed (es : List Entry) (w : Worker) :
    (es.foldl Linked.file w).keyed = w.keyed := by
  induction es generalizing w with
  | nil => rfl
  | cons e es ih => exact ih (Linked.file w e)

theorem cleared_keyed (i : Nat) (q : Request) (w : Worker) : (cleared i q w).keyed = w.keyed := by
  unfold cleared
  split
  · exact foldl_file_keyed _ _
  · rfl

theorem letIn_keyed (i : Nat) (q : Request) (w : Worker) : (letIn i q w).keyed = w.keyed := by
  unfold letIn
  split <;> rfl

theorem submit_keyed (maxVfos : Nat) (halted alloc : Bool) (w : Worker) (q : Request) :
    (submit maxVfos halted alloc w q).2.keyed = w.keyed := by
  rcases submit_spec maxVfos halted alloc w q with ⟨hsame, -⟩ | ⟨i, hi⟩
  · rw [hsame]
  · rw [submit_passed hi]
    cases alloc with
    | false => exact cleared_keyed i q w
    | true => exact (letIn_keyed i q _).trans (cleared_keyed i q w)

theorem finalReleases_keyed (pttSet : Bool) (is : List Nat) (w : Worker) :
    (is.foldl (Linked.finalRelease pttSet) w).keyed = w.keyed := by
  induction is generalizing w with
  | nil => rfl
  | cons i is ih =>
      rw [List.foldl_cons, ih]
      unfold Linked.finalRelease
      split <;> rfl

/-- An index whose job has run and is not finished yet. -/
def InHand (w : Worker) (i : Nat) : Prop := ∃ j, w.current = some (.ran, j) ∧ j.index = i

/-- The job in hand is held. -/
theorem current_held {ph : Phase} {j : Job} (h : w.current = some (ph, j)) : j ∈ w.held := by
  have hjob : j ∈ w.shape.map (·.job) := by
    rw [shape_jobs, jobs, h]
    exact List.mem_cons_self
  obtain ⟨e, he, rfl⟩ := List.mem_map.mp hjob
  exact List.mem_append_left _ (List.mem_flatMap.mpr ⟨e, he, List.mem_cons_self⟩)

end Worker

namespace Ledger

open Worker Linked

variable {p : Setup} {s : Ledger}

/-- Only the end of a job writes the keyed table, and what has run stays in hand until then. -/
theorem steady_step (h : Wired s) {e : Event} (hfinish : ∀ ptt, e ≠ .finish ptt) :
    (step p s e).worker.keyed = s.worker.keyed ∧
      ∀ i, InHand s.worker i → InHand (step p s e).worker i := by
  have hsame : ∀ {w : Worker}, w.current = s.worker.current →
      ∀ i, InHand s.worker i → InHand w i := by
    rintro w hw i ⟨j, hj, hi⟩
    exact ⟨j, hw.trans hj, hi⟩
  cases e with
  | submit q alloc =>
      rw [show step p s (.submit q alloc) = submit p s q alloc from rfl, submit_worker h]
      refine ⟨submit_keyed _ _ _ _ _, hsame ?_⟩
      cases submit_cases p.maxVfos s.halted alloc h.kept.offReleases q.request with
      | unchanged _ same => exact same.current
      | cancelled _ _ _ _ current => exact current
      | folded _ _ _ _ _ _ current => exact current
      | released _ _ _ _ _ current => exact current
      | queued _ _ _ _ _ _ current => exact current
  | dequeue =>
      rw [show (step p s .dequeue).worker = s.linked.dequeue.worker from rfl, dequeue_worker]
      refine ⟨?_, ?_⟩
      · show (Worker.dequeue s.worker).keyed = _
        rw [Worker.dequeue]
        split <;> rfl
      · rintro i ⟨j, hj, hi⟩
        rcases dequeue_cases s.worker with heq | ⟨_, _, hnone, _⟩
        · exact ⟨j, (congrArg current heq).trans hj, hi⟩
        · exact absurd (hj.symm.trans hnone) (by simp)
  | check =>
      refine ⟨?_, ?_⟩
      · show (Worker.check s.halted s.worker).keyed = _
        rw [Worker.check]
        split
        · split <;> rfl
        · rfl
      · rintro i ⟨j, hj, hi⟩
        rcases check_cases s.halted s.worker with heq | ⟨_, htaken, _⟩
        · exact ⟨j, (congrArg current heq).trans hj, hi⟩
        · exact absurd (hj.symm.trans htaken) (by simp)
  | call ok =>
      refine ⟨?_, ?_⟩
      · show (Worker.call p.pttSet ok s.worker).keyed = _
        rw [Worker.call]
        split <;> rfl
      · rintro i ⟨j, hj, hi⟩
        rcases call_cases p.pttSet ok s.worker with ⟨heq, -⟩ | ⟨_, hchecked, _⟩
        · exact ⟨j, (congrArg current heq).trans hj, hi⟩
        · exact absurd (hj.symm.trans hchecked) (by simp)
  | finish ptt => exact absurd rfl (hfinish ptt)
  | drain =>
      refine ⟨?_, hsame (drain_same s.worker).current⟩
      show (Worker.drain s.worker).2.keyed = _
      rw [Worker.drain]
      split <;> rfl
  | halt halted => exact ⟨rfl, fun _ => id⟩
  | stop =>
      rw [show (step p s .stop).worker = s.linked.stop.worker from rfl, stop_worker]
      exact ⟨foldl_file_keyed _ _, hsame (stop_view h.kept.offReleases).1⟩
  | exit =>
      by_cases hexit : (s.worker.stopping && s.worker.queue.isEmpty &&
          s.worker.executing.isNone && !s.exited) = true
      · rw [show step p s .exit = { s.onWorker fun w =>
            (List.range p.maxVfos).foldl (finalRelease p.pttSet) w with exited := true } from
          if_pos hexit]
        refine ⟨finalReleases_keyed p.pttSet _ s.worker, ?_⟩
        simp only [Bool.and_eq_true, Option.isNone_iff_eq_none] at hexit
        rintro i ⟨j, hj, -⟩
        rw [current, hexit.1.2] at hj
        exact absurd hj (by simp)
      · rw [show step p s .exit = s from if_neg hexit]
        exact ⟨rfl, fun _ => id⟩

/-- A new job passed the checks of its submission. -/
theorem accepted_step (h : Wired s) (e : Event) {j : Job} (hj : j ∈ (step p s e).accepted) :
    j ∈ s.accepted ∨ ∃ q alloc, e = .submit q alloc ∧ q.request.index = some j.index ∧
      j.index < p.maxVfos ∧ j.operation = q.request.operation ∧ j.on = q.request.on := by
  cases e with
  | submit q alloc =>
      rcases submit_outcome (p := p) h q alloc with ⟨heq, -⟩ | ⟨i, hi, -, heq⟩
      · rw [show step p s (.submit q alloc) = _ from heq] at hj
        exact Or.inl hj
      · rw [show step p s (.submit q alloc) = _ from heq] at hj
        rcases List.mem_append.mp hj with hj | hj
        · exact Or.inl hj
        · obtain rfl := List.mem_singleton.mp hj
          exact Or.inr ⟨q, alloc, rfl, hi.index, hi.bound, rfl, rfl⟩
  | exit =>
      have hsame : (step p s .exit).accepted = s.accepted := by
        show (if _ then _ else _ : Ledger).accepted = _
        split <;> rfl
      rw [hsame] at hj
      exact Or.inl hj
  | _ => exact Or.inl hj

end Ledger

/-! ### The last value set -/

theorem lastSet_append {new old : List Keying} {i : Nat} (hoff : ∀ c ∈ new, c.on = false)
    (h : lastSet (new ++ old) i = some true) : lastSet old i = some true := by
  unfold lastSet at h ⊢
  rw [List.find?_append] at h
  cases hnew : new.find? fun c => c.index == i && c.ok with
  | none => simpa [hnew] using h
  | some c =>
      have hc := hoff c (List.mem_of_find?_eq_some hnew)
      simp [hnew, hc] at h

theorem lastSet_cons {c : Keying} {old : List Keying} {i : Nat}
    (h : lastSet (c :: old) i = some true) :
    (c.index = i ∧ c.on = true) ∨ lastSet old i = some true := by
  unfold lastSet at h ⊢
  rw [List.find?_cons] at h
  split at h
  · rename_i hc
    rw [Bool.and_eq_true, beq_iff_eq] at hc
    exact Or.inl ⟨hc.1, Option.some.inj h⟩
  · exact Or.inr h

namespace Bench

variable {b : Bench} {answer : Nat → Bool} {w : Worker}

theorem finalCalls_off {c : Keying} (hc : c ∈ b.finalCalls answer w) : c.on = false := by
  obtain ⟨i, -, hi⟩ := List.mem_filterMap.mp (List.mem_reverse.mp hc)
  unfold finalCall at hi
  split at hi
  · obtain ⟨j, -, rfl⟩ := Option.map_eq_some_iff.mp hi
    rfl
  · exact absurd hi (by simp)

/-- The loop releases what is keyed, where the letter of an index leads back to it. -/
theorem finalCalls_mem {i : Nat} (hi : i < b.setup.maxVfos) (hset : b.setup.pttSet = true)
    (hkeyed : w.keyed i = true) (hletter : b.resolve i = some i) :
    ⟨i, false, answer i⟩ ∈ b.finalCalls answer w := by
  refine List.mem_reverse.mpr (List.mem_filterMap.mpr ⟨i, List.mem_range.mpr hi, ?_⟩)
  rw [finalCall, hkeyed, hset, hletter]
  rfl

end Bench

/-! ### Runs -/

namespace Keyer

open Worker

variable {b : Bench} {s : Keyer} {es : List Event}

/-- What the release at the end depends on.  A VFO that is keyed has the letter of its native
index for an alias, and an index that was last set to on reads back as on. -/
def Told (b : Bench) (s : Keyer) : Event → Prop
  | .submit vfo q _ => q.request.operation = .ptt → q.request.on = true →
      ∀ i, b.indexOf vfo = some i → b.resolve i = some i
  | .finish ptt => ∀ j, s.worker.current = some (.ran, j) → lastSet s.calls j.index = some true →
      ptt = true
  | _ => True

/-- An index that is on reads as keyed, or will once the job in hand is finished. -/
structure Watched (b : Bench) (s : Keyer) : Prop where
  orderly : Ledger.Orderly s.ledger
  jobs : ∀ j ∈ s.ledger.accepted, j.operation = .ptt → j.on = true →
    j.index < b.setup.maxVfos ∧ b.resolve j.index = some j.index
  on : ∀ i, lastSet s.calls i = some true → i < b.setup.maxVfos ∧ b.resolve i = some i ∧
    b.setup.pttSet = true ∧ (s.worker.keyed i = true ∨ InHand s.worker i)

/-- What is in hand was accepted. -/
theorem Watched.accepted (h : Watched b s) {ph : Phase} {j : Job}
    (hj : s.worker.current = some (ph, j)) : j ∈ s.ledger.accepted := by
  obtain ⟨results, hb⟩ := h.orderly.balanced
  refine hb.held_accepted ?_ (current_held hj)
  cases hx : s.ledger.exited with
  | false => rfl
  | true =>
      have hjobs : j ∈ s.ledger.worker.jobs := by
        rw [Worker.jobs, show s.ledger.worker.current = _ from hj]
        exact List.mem_cons_self
      rw [← shape_jobs, (hb.exited hx).1] at hjobs
      exact absurd hjobs (by simp)

/-- The jobs stay as they should be. -/
theorem Watched.jobs_step (h : Watched b s) (e : Event) (he : Told b s e) :
    ∀ j ∈ (step b s e).ledger.accepted, j.operation = .ptt → j.on = true →
      j.index < b.setup.maxVfos ∧ b.resolve j.index = some j.index := by
  intro j hj hop hon
  rcases Ledger.accepted_step h.orderly.wired (event b e) hj with hold | ⟨q, alloc, heq, hi, hlt, hq⟩
  · exact h.jobs j hold hop hon
  · cases e with
    | submit vfo q' alloc' =>
        obtain ⟨rfl, rfl⟩ := Ledger.Event.submit.inj heq
        exact ⟨hlt, he (hq.1.symm.trans hop) (hq.2.symm.trans hon) j.index hi⟩
    | _ => exact (Ledger.Event.noConfusion heq)

/-- An event that neither sets nor reads back leaves what is on as it was. -/
theorem Watched.on_steady (h : Watched b s) {e : Event} (hfinish : ∀ ptt, e ≠ .finish ptt)
    {i : Nat} (hi : lastSet s.calls i = some true) :
    i < b.setup.maxVfos ∧ b.resolve i = some i ∧ b.setup.pttSet = true ∧
      ((step b s e).worker.keyed i = true ∨ InHand (step b s e).worker i) := by
  have hne : ∀ ptt, event b e ≠ .finish ptt := by
    intro ptt heq
    cases e with
    | finish ptt' => exact hfinish ptt' rfl
    | _ => exact Ledger.Event.noConfusion heq
  obtain ⟨hkeyed, hhand⟩ := Ledger.steady_step (p := b.setup) h.orderly.wired hne
  obtain ⟨hlt, hletter, hset, hon⟩ := h.on i hi
  refine ⟨hlt, hletter, hset, ?_⟩
  rcases hon with hon | hon
  · exact Or.inl ((congrFun hkeyed i).trans hon)
  · exact Or.inr (hhand i hon)

theorem Watched.step (h : Watched b s) (e : Event) (he : Told b s e) : Watched b (step b s e) := by
  refine ⟨h.orderly.step _, h.jobs_step e he, ?_⟩
  intro i hi
  cases e with
  | call ok =>
      rcases call_cases b.setup.pttSet ok s.worker with ⟨-, hnone⟩ | ⟨j, hj, hran, hcall, -⟩
      · refine h.on_steady (e := .call ok) (by simp) ?_
        simpa [Keyer.step, made, hnone] using hi
      by_cases hptt : (b.setup.pttSet && j.operation == .ptt) = true
      · have hmade : (Keyer.step b s (.call ok)).calls = ⟨j.index, j.on, ok⟩ :: s.calls := by
          simp [Keyer.step, made, hcall, hptt]
        rw [hmade] at hi
        rcases lastSet_cons hi with ⟨rfl, hon⟩ | hold
        · rw [Bool.and_eq_true, beq_iff_eq] at hptt
          obtain ⟨hlt, hletter⟩ := h.jobs j (h.accepted hj) hptt.2 hon
          exact ⟨hlt, hletter, hptt.1, Or.inr ⟨j, hran, rfl⟩⟩
        · exact h.on_steady (e := .call ok) (by simp) hold
      · refine h.on_steady (e := .call ok) (by simp) ?_
        simpa [Keyer.step, made, hcall, hptt] using hi
  | finish ptt =>
      obtain ⟨hlt, hletter, hset, hon⟩ := h.on i hi
      refine ⟨hlt, hletter, hset, ?_⟩
      show (Worker.finish ptt s.worker).keyed i = true ∨ InHand (Worker.finish ptt s.worker) i
      unfold Worker.finish
      split
      · rename_i e hx
        have hcur : s.worker.current = some (.ran, e.job.bare) := by simp [current, hx]
        refine Or.inl ?_
        show Function.update s.worker.keyed e.job.index ptt i = true
        by_cases hie : i = e.job.index
        · rw [hie, Function.update_self]
          rw [hie] at hi
          exact he _ hcur hi
        · rw [Function.update_of_ne hie]
          rcases hon with hon | ⟨j, hj, hji⟩
          · exact hon
          · rw [hcur] at hj
            obtain rfl := (Prod.mk.inj (Option.some.inj hj)).2
            exact absurd hji.symm hie
      · exact hon
  | exit answer =>
      refine h.on_steady (e := .exit answer) (by simp) ?_
      refine @lastSet_append (made b s (.exit answer)) s.calls i ?_ hi
      intro c hc
      have hc : c ∈ if s.leaving then b.finalCalls answer s.worker else [] := hc
      split at hc
      · exact Bench.finalCalls_off hc
      · exact absurd hc (by simp)
  | submit vfo q alloc => exact h.on_steady (e := .submit vfo q alloc) (by simp) hi
  | dequeue => exact h.on_steady (e := .dequeue) (by simp) hi
  | check => exact h.on_steady (e := .check) (by simp) hi
  | drain => exact h.on_steady (e := .drain) (by simp) hi
  | halt halted => exact h.on_steady (e := .halt halted) (by simp) hi
  | stop => exact h.on_steady (e := .stop) (by simp) hi

theorem watched_start : Watched b start where
  orderly := Ledger.orderly_start
  jobs := by simp [start, Ledger.start]
  on := by simp [start, lastSet]

/-- **Shutdown leaves no transmitter keyed.**  In a run where every VFO that is keyed has the
letter of its native index for an alias, and where what is on reads back as on, the exiting
thread sends a release to every index that was last set to on. -/
theorem shutdown_releases (b : Bench) (es : List Event)
    (h : Lib.Along (step b) (Told b) start es) (hleave : (run b start es).leaving = true)
    (answer : Nat → Bool) (i : Nat) (hon : lastSet (run b start es).calls i = some true) :
    ∃ released, (step b (run b start es) (.exit answer)).calls =
        released ++ (run b start es).calls ∧
      ⟨i, false, answer i⟩ ∈ released := by
  have hw : Watched b (run b start es) := h.invariant watched_start fun _ e hs he => hs.step e he
  refine ⟨b.finalCalls answer (run b start es).worker, by simp [step, made, hleave], ?_⟩
  obtain ⟨hlt, hletter, hset, hkeyed | ⟨j, hj, -⟩⟩ := hw.on i hon
  · exact Bench.finalCalls_mem hlt hset hkeyed hletter
  · unfold leaving at hleave
    simp only [Bool.and_eq_true, Option.isNone_iff_eq_none] at hleave
    rw [current, hleave.1.2] at hj
    exact absurd hj (by simp)

/-! ### A transmitter that is left on -/

/-- A rig with one VFO. -/
def bench (aliasName nativeId : String) : Bench where
  setup := ⟨2, true⟩
  lookup := fun c => if c = 'A' then some 0 else if c = 'B' then some 1 else none
  rig := ⟨"r", "r", .empty, [⟨0, "v", aliasName, nativeId, .persistent, .empty⟩], 1⟩

/-- Its VFO is keyed, and the worker is stopped. -/
def keyedRun : List Event :=
  [.submit 0 ⟨⟨none, .ptt, true, 0⟩, false, fun _ => rfl⟩ true, .dequeue, .check, .call true,
    .finish true, .stop]

theorem shutdown_releases_a :
    ∃ released, (step (bench "A" "A") (run (bench "A" "A") start keyedRun)
        (.exit fun _ => true)).calls =
        released ++ (run (bench "A" "A") start keyedRun).calls ∧
      ⟨0, false, true⟩ ∈ released := by
  refine shutdown_releases (bench "A" "A") keyedRun ?_ (by decide +kernel) (fun _ => true) 0
    (by decide +kernel)
  refine ⟨fun _ _ i hi => ?_, trivial, trivial, trivial, fun _ _ _ => rfl, trivial, trivial⟩
  have hindex : (bench "A" "A").indexOf 0 = some 0 := by decide +kernel
  obtain rfl := Option.some.inj (hindex.symm.trans hi)
  decide +kernel

/-- The VFO in slot B whose native name is A stays keyed: the loop looks for a VFO A. -/
theorem shutdown_abandons :
    ¬ ∀ (b : Bench) (es : List Event), (run b start es).leaving = true → ∀ answer i,
      lastSet (run b start es).calls i = some true →
        ∃ released, (step b (run b start es) (.exit answer)).calls =
            released ++ (run b start es).calls ∧
          ⟨i, false, answer i⟩ ∈ released := by
  intro h
  obtain ⟨released, hcalls, hmem⟩ := h (bench "B" "A") keyedRun (by decide +kernel)
    (fun _ => true) 0 (by decide +kernel)
  have hnone : (step (bench "B" "A") (run (bench "B" "A") start keyedRun)
      (.exit fun _ => true)).calls = (run (bench "B" "A") start keyedRun).calls := by
    decide +kernel
  rw [hnone, List.self_eq_append_left] at hcalls
  rw [hcalls] at hmem
  exact absurd hmem (by simp)

end Keyer

end RustyRig
