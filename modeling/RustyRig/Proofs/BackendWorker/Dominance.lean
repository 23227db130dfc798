/-
A release dominates every key-up accepted before it.

The books of the worker are kept first: jobs have different addresses, and `off`
names for every index exactly the release that is live for it, waiting or in hand.
So a release that finds `off` filled does join a release that is still to run, or one
that has just run and turned the hardware off.

Over the books stands what an accepted release buys its index.  Nothing waits to key
it; a key-up that was in hand already and may still reach the hardware has a release
waiting behind it; and a release is waiting or in hand, or else the hardware is off.
-/
import RustyRig.Proofs.BackendWorker.View
import Mathlib.Data.List.Nodup

namespace RustyRig

namespace Worker

variable {p : Setup} {r : Rig} {w w' : Worker}

/-! ### The books -/

/-- The live jobs, the one in hand first. -/
def jobs (w : Worker) : List Job := (w.current.map Prod.snd).toList ++ w.waiting

/-- The addresses are fresh and different, and `off` names the live releases. -/
structure Booked (jobs : List Job) (off : Nat → Option Nat) (nextId : Nat) : Prop where
  nodup : (jobs.map Job.id).Nodup
  fresh : ∀ j ∈ jobs, j.id < nextId
  booked : ∀ j ∈ jobs, j.release = true → off j.index = some j.id
  live : ∀ i id, off i = some id → ∃ j ∈ jobs, j.release = true ∧ j.index = i ∧ j.id = id

namespace Booked

variable {jobs jobs' : List Job} {off : Nat → Option Nat} {nextId nextId' : Nat}

theorem inj (h : Booked jobs off nextId) {j j' : Job} (hj : j ∈ jobs) (hj' : j' ∈ jobs)
    (he : j.id = j'.id) : j = j' :=
  List.inj_on_of_nodup_map h.nodup hj hj' he

/-- Only a release is booked as one. -/
theorem release_of_off (h : Booked jobs off nextId) {j : Job} (hj : j ∈ jobs)
    (ho : off j.index = some j.id) : j.release = true := by
  obtain ⟨j', hj', hr, -, he⟩ := h.live _ _ ho
  rw [← h.inj hj' hj he]
  exact hr

/-- Jobs other than releases may leave. -/
theorem sublist (h : Booked jobs off nextId) (hsub : jobs'.Sublist jobs)
    (hrel : ∀ j ∈ jobs, j.release = true → j ∈ jobs') (hle : nextId ≤ nextId') :
    Booked jobs' off nextId' where
  nodup := h.nodup.sublist (hsub.map _)
  fresh := fun j hj => Nat.lt_of_lt_of_le (h.fresh j (hsub.subset hj)) hle
  booked := fun j hj => h.booked j (hsub.subset hj)
  live := fun i id ho => by
    obtain ⟨j, hj, hr, he⟩ := h.live i id ho
    exact ⟨j, hrel j hj hr, hr, he⟩

/-- A new job comes in; a release only where none is outstanding. -/
theorem insert (h : Booked jobs off nextId) {j : Job} (hperm : jobs'.Perm (j :: jobs))
    (hid : j.id = nextId) (hoff : j.release = true → off j.index = none) :
    Booked jobs' (if j.release then Function.update off j.index (some j.id) else off)
      (nextId + 1) where
  nodup := by
    refine ((hperm.map Job.id).nodup_iff).mpr (List.nodup_cons.mpr ⟨?_, h.nodup⟩)
    intro hmem
    obtain ⟨j', hj', he⟩ := List.mem_map.mp hmem
    have hlt := h.fresh j' hj'
    omega
  fresh := by
    intro j' hj'
    rcases List.mem_cons.mp (hperm.subset hj') with rfl | hmem
    · omega
    · have hlt := h.fresh j' hmem
      omega
  booked := by
    intro j' hj' hr'
    rcases List.mem_cons.mp (hperm.subset hj') with rfl | hmem
    · simp [hr']
    · have ho := h.booked j' hmem hr'
      by_cases hr : j.release = true
      · have hne : j'.index ≠ j.index := by
          intro he
          rw [he, hoff hr] at ho
          exact absurd ho (by simp)
        simp [hr, Function.update_of_ne hne, ho]
      · simp [hr, ho]
  live := by
    intro i id ho
    by_cases hr : j.release = true
    · rw [if_pos hr] at ho
      by_cases hi : i = j.index
      · subst hi
        rw [Function.update_self] at ho
        exact ⟨j, hperm.symm.subset List.mem_cons_self, hr, rfl, Option.some.inj ho⟩
      · rw [Function.update_of_ne hi] at ho
        obtain ⟨j', hj', he⟩ := h.live i id ho
        exact ⟨j', hperm.symm.subset (List.mem_cons_of_mem _ hj'), he⟩
    · rw [if_neg hr] at ho
      obtain ⟨j', hj', he⟩ := h.live i id ho
      exact ⟨j', hperm.symm.subset (List.mem_cons_of_mem _ hj'), he⟩

/-- The job in hand is filed. -/
theorem filed {j : Job} (h : Booked (j :: jobs) off nextId) :
    Booked jobs (if off j.index = some j.id then Function.update off j.index none else off)
      nextId where
  nodup := (List.nodup_cons.mp h.nodup).2
  fresh := fun j' hj' => h.fresh j' (List.mem_cons_of_mem _ hj')
  booked := by
    intro j' hj' hr'
    have ho := h.booked j' (List.mem_cons_of_mem _ hj') hr'
    have hid : j'.id ≠ j.id := by
      intro he
      exact (List.nodup_cons.mp h.nodup).1 (he ▸ List.mem_map_of_mem hj')
    split
    · rename_i hj
      have hne : j'.index ≠ j.index := by
        intro he
        rw [he, hj] at ho
        exact hid (Option.some.inj ho).symm
      rw [Function.update_of_ne hne]
      exact ho
    · exact ho
  live := by
    intro i id ho
    have hoff : off i = some id ∧ ¬ (i = j.index ∧ off j.index = some j.id) := by
      split at ho
      · rename_i hj
        by_cases hi : i = j.index
        · rw [hi, Function.update_self] at ho
          exact absurd ho (by simp)
        · rw [Function.update_of_ne hi] at ho
          exact ⟨ho, fun hc => hi hc.1⟩
      · rename_i hj
        exact ⟨ho, fun hc => hj hc.2⟩
    obtain ⟨j', hj', hr, hi, hid⟩ := h.live i id hoff.1
    rcases List.mem_cons.mp hj' with rfl | hmem
    · exact absurd ⟨hi.symm, h.booked j' hj' hr⟩ hoff.2
    · exact ⟨j', hmem, hr, hi, hid⟩

end Booked

/-- The books of a worker. -/
def Kept (w : Worker) : Prop := Booked w.jobs w.off w.nextId

theorem Kept.offReleases (h : Kept w) : OffReleases w := by
  intro j hj hr ho
  have hrel := h.release_of_off (List.mem_append_right _ hj) ho
  rw [hr] at hrel
  exact absurd hrel (by simp)

theorem Kept.same (h : Kept w) (hs : Same w w') : Kept w' := by
  unfold Kept jobs
  rw [hs.current, hs.waiting, hs.off, hs.nextId]
  exact h

/-- Jobs other than releases leave the queue. -/
theorem Kept.filter (h : Kept w) {keep : Job → Bool} (hkeep : ∀ j, j.release = true → keep j = true)
    {nextId : Nat} (hle : w.nextId ≤ nextId) :
    Booked ((w.current.map Prod.snd).toList ++ w.waiting.filter keep) w.off nextId := by
  refine Booked.sublist h (List.Sublist.append_left List.filter_sublist _) ?_ hle
  intro j hj hr
  rcases List.mem_append.mp hj with hc | hw
  · exact List.mem_append_left _ hc
  · exact List.mem_append_right _ (List.mem_filter.mpr ⟨hw, hkeep j hr⟩)

/-- A release is never cancelled. -/
theorem keeps_release (i : Nat) (j : Job) (h : j.release = true) :
    (!(j.keyUp && j.index == i)) = true := by
  rw [Job.release_not_keyUp h]
  rfl

theorem Request.job_release {q : Request} {i id : Nat} :
    (q.job i id).release = true ↔ q.operation = .ptt ∧ q.on = false := by
  simp [Request.job, Job.release]

theorem Request.job_keyUp {q : Request} {i id : Nat} :
    (q.job i id).keyUp = true ↔ q.operation = .ptt ∧ q.on = true := by
  simp [Request.job, Job.keyUp]

theorem Kept.submit {q : Request} {rejected : Bool} (h : Kept w) (hs : Submitted w q rejected w') :
    Kept w' := by
  cases hs with
  | unchanged _ same => exact h.same same
  | cancelled i hi hr hq hcur hwait hoff hnext =>
      unfold Kept jobs
      rw [hcur, hwait, hoff, hnext]
      exact h.filter (keeps_release i) (Nat.le_refl _)
  | folded i parent hi hr hq ho hcur hwait hoff hnext =>
      unfold Kept jobs
      rw [hcur, hwait, hoff, hnext]
      exact h.filter (keeps_release i) (Nat.le_succ _)
  | released i hi hr hq ho hcur hwait hoff hnext =>
      have hrel : (q.job i w.nextId).release = true := Request.job_release.mpr hq
      have hins := (h.filter (keeps_release i) (Nat.le_refl w.nextId)).insert
        (j := q.job i w.nextId) List.perm_middle rfl fun _ => ho
      rw [if_pos hrel] at hins
      unfold Kept jobs
      rw [hcur, hwait, hoff, hnext]
      exact hins
  | queued i before after hi hr hq hcur hsplit hwait hoff hnext =>
      have hrel : (q.job i w.nextId).release ≠ true := fun hc => hq (Request.job_release.mp hc)
      have hperm : ((w.current.map Prod.snd).toList ++
          (before ++ q.job i w.nextId :: after)).Perm (q.job i w.nextId :: w.jobs) := by
        unfold jobs
        rw [hsplit, ← List.append_assoc, ← List.append_assoc]
        exact List.perm_middle
      have hins := Booked.insert h hperm rfl fun hc => absurd hc hrel
      rw [if_neg hrel] at hins
      unfold Kept jobs
      rw [hcur, hwait, hoff, hnext]
      exact hins

theorem Kept.step (h : Kept r.worker) (e : Event) : Kept (Rig.step p r e).worker := by
  cases e with
  | submit q alloc => exact h.submit (submit_cases p.maxVfos r.halted alloc h.offReleases q)
  | dequeue =>
      show Kept (dequeue r.worker)
      rcases dequeue_cases r.worker with heq | ⟨j, rest, hcur, hwait, hcur', hwait', hoff, hnext⟩
      · rw [heq]
        exact h
      · unfold Kept jobs at h ⊢
        rw [hcur, hwait] at h
        rw [hcur', hwait', hoff, hnext]
        exact h
  | check =>
      show Kept (check r.halted r.worker)
      rcases check_cases r.halted r.worker with heq | ⟨j, hcur, hcur', hwait, hoff, hnext⟩
      · rw [heq]
        exact h
      · unfold Kept jobs at h ⊢
        rw [hcur] at h
        rw [hwait, hoff, hnext]
        rcases hcur' with hc | ⟨hc, -⟩
        · rw [hc]
          exact h
        · rw [hc]
          exact h
  | call ok =>
      show Kept (call p.pttSet ok r.worker)
      rcases call_cases p.pttSet ok r.worker with
        ⟨heq, -⟩ | ⟨j, hcur, hcur', -, hwait, hoff, hnext⟩
      · rw [heq]
        exact h
      · unfold Kept jobs at h ⊢
        rw [hcur] at h
        rw [hcur', hwait, hoff, hnext]
        exact h
  | finish ptt =>
      show Kept (finish ptt r.worker)
      rcases finish_cases ptt r.worker with heq | ⟨j, hcur, hcur', hwait, hnext, hoff⟩
      · rw [heq]
        exact h
      · unfold Kept jobs at h ⊢
        rw [hcur] at h
        rw [hcur', hwait, hoff, hnext]
        exact Booked.filed h
  | drain => exact h.same (drain_same r.worker)
  | halt halted => exact h
  | stop =>
      obtain ⟨hcur, hwait, hoff, hnext⟩ := stop_view h.offReleases
      show Kept (stop r.worker)
      unfold Kept jobs
      rw [hcur, hwait, hoff, hnext]
      exact h.filter (fun j hj => hj) (Nat.le_refl _)

/-! ### Dominance -/

/-- What the hardware was last told where a release has run. -/
def Setup.off (p : Setup) : Option Bool := if p.pttSet then some false else none

/-- A release of the index waits in the queue. -/
def Due (w : Worker) (i : Nat) : Prop := ∃ j ∈ w.waiting, j.release = true ∧ j.index = i

/-- What an accepted release holds of its index until the next accepted key-up. -/
structure Dominated (p : Setup) (r : Rig) (i : Nat) : Prop where
  noKeyUp : ∀ j ∈ r.worker.waiting, j.keyUp = true → j.index ≠ i
  racing : ∀ phase j, r.worker.current = some (phase, j) → phase ≠ .ran → j.keyUp = true →
    j.index = i → r.worker.Due i
  settled : r.worker.Due i ∨
    (∃ phase j, r.worker.current = some (phase, j) ∧ phase ≠ .ran ∧ j.release = true ∧
      j.index = i) ∨
    r.hardware i = p.off

/-- The invariant of a worker and its hardware. -/
structure Sound (p : Setup) (r : Rig) : Prop where
  kept : Kept r.worker
  quiet : p.pttSet = false → ∀ i, r.hardware i = none
  ran : ∀ j, r.worker.current = some (.ran, j) → j.release = true → r.hardware j.index = p.off
  dominated : ∀ i, r.accepted i = some false → Dominated p r i

/-- Where no key-up comes in and no release goes, dominance stays. -/
theorem Dominated.mono {r' : Rig} {i : Nat} (h : Dominated p r i)
    (hcur : r'.worker.current = r.worker.current) (hhw : r'.hardware = r.hardware)
    (hkey : ∀ j ∈ r'.worker.waiting, j.keyUp = true → j.index = i → j ∈ r.worker.waiting)
    (hrel : ∀ j ∈ r.worker.waiting, j.release = true → j ∈ r'.worker.waiting) :
    Dominated p r' i := by
  have hdue : r.worker.Due i → r'.worker.Due i := by
    rintro ⟨j, hj, hr, hi⟩
    exact ⟨j, hrel j hj hr, hr, hi⟩
  refine ⟨fun j hj hk hi => h.noKeyUp j (hkey j hj hk hi) hk hi, ?_, ?_⟩
  · intro phase j hc hp hk hi
    exact hdue (h.racing phase j (hcur ▸ hc) hp hk hi)
  · rw [hcur, hhw]
    exact h.settled.imp_left hdue

/-- The head of the queue is taken in hand. -/
theorem Dominated.taken {r' : Rig} {i : Nat} {j : Job} {rest : List Job} (h : Dominated p r i)
    (hcur : r.worker.current = none) (hwait : r.worker.waiting = j :: rest)
    (hcur' : r'.worker.current = some (.taken, j)) (hwait' : r'.worker.waiting = rest)
    (hhw : r'.hardware = r.hardware) : Dominated p r' i := by
  have hkey := h.noKeyUp
  rw [hwait] at hkey
  refine ⟨fun j' hj' => hkey j' (hwait' ▸ List.mem_cons_of_mem _ (hwait' ▸ hj')), ?_, ?_⟩
  · intro phase j' hc _ hk hi
    rw [hcur'] at hc
    cases hc
    exact absurd hi (hkey j List.mem_cons_self hk)
  · rcases h.settled with ⟨j', hj', hr, hi⟩ | ⟨phase, j', hc, -⟩ | hoff
    · rw [hwait] at hj'
      rcases List.mem_cons.mp hj' with rfl | hmem
      · exact Or.inr (Or.inl ⟨.taken, j', hcur', by simp, hr, hi⟩)
      · exact Or.inl ⟨j', hwait' ▸ hmem, hr, hi⟩
    · rw [hcur] at hc
      exact absurd hc (by simp)
    · exact Or.inr (Or.inr (hhw ▸ hoff))

/-- The job in hand passes the halt check, or is stopped by it. -/
theorem Dominated.checked {r' : Rig} {i : Nat} {j : Job} (h : Dominated p r i)
    (hcur : r.worker.current = some (.taken, j))
    (hcur' : r'.worker.current = some (.checked, j) ∨
      (r'.worker.current = some (.ran, j) ∧ j.release = false))
    (hwait : r'.worker.waiting = r.worker.waiting) (hhw : r'.hardware = r.hardware) :
    Dominated p r' i := by
  have hdue : r.worker.Due i → r'.worker.Due i := by
    unfold Due
    rw [hwait]
    exact fun hd => hd
  refine ⟨by rw [hwait]; exact h.noKeyUp, ?_, ?_⟩
  · intro phase j' hc hp hk hi
    rcases hcur' with hc' | ⟨hc', -⟩
    · rw [hc'] at hc
      cases hc
      exact hdue (h.racing .taken j hcur (by simp) hk hi)
    · rw [hc'] at hc
      cases hc
      exact absurd rfl hp
  · rcases h.settled with hd | ⟨phase, j', hc, hp, hr, hi⟩ | hoff
    · exact Or.inl (hdue hd)
    · rw [hcur] at hc
      cases hc
      rcases hcur' with hc' | ⟨-, hn⟩
      · exact Or.inr (Or.inl ⟨.checked, j, hc', by simp, hr, hi⟩)
      · rw [hr] at hn
        exact absurd hn (by simp)
    · exact Or.inr (Or.inr (hhw ▸ hoff))

/-- The hardware hears of the job in hand. -/
theorem told_other (hardware : Nat → Option Bool) {j : Job} {i : Nat}
    (h : ¬ (p.pttSet = true ∧ j.operation = .ptt ∧ j.index = i)) :
    Rig.told hardware (if p.pttSet && j.operation == .ptt then some (j.index, j.on) else none) i =
      hardware i := by
  by_cases hp : (p.pttSet && j.operation == .ptt) = true
  · rw [if_pos hp]
    simp only [Bool.and_eq_true, beq_iff_eq] at hp
    exact Function.update_of_ne (fun he => h ⟨hp.1, hp.2, he.symm⟩) _ _
  · rw [if_neg hp]
    rfl

/-- A release that runs turns its index off. -/
theorem told_release {hardware : Nat → Option Bool} {j : Job} (hr : j.release = true)
    (hquiet : p.pttSet = false → ∀ i, hardware i = none) :
    Rig.told hardware (if p.pttSet && j.operation == .ptt then some (j.index, j.on) else none)
      j.index = p.off := by
  simp only [Job.release, Bool.and_eq_true, beq_iff_eq, Bool.not_eq_true'] at hr
  unfold Setup.off
  cases hp : p.pttSet with
  | false => simp [Rig.told, hquiet hp]
  | true => simp [Rig.told, hr.1, hr.2]

/-- A key-up that reaches the hardware of a dominated index has its release behind it. -/
theorem Dominated.called {r' : Rig} {i : Nat} {j : Job} (h : Dominated p r i)
    (hquiet : p.pttSet = false → ∀ i, r.hardware i = none)
    (hcur : r.worker.current = some (.checked, j)) (hcur' : r'.worker.current = some (.ran, j))
    (hwait : r'.worker.waiting = r.worker.waiting)
    (hhw : r'.hardware = Rig.told r.hardware
      (if p.pttSet && j.operation == .ptt then some (j.index, j.on) else none)) :
    Dominated p r' i := by
  have hdue : r.worker.Due i → r'.worker.Due i := by
    unfold Due
    rw [hwait]
    exact fun hd => hd
  refine ⟨by rw [hwait]; exact h.noKeyUp, ?_, ?_⟩
  · intro phase j' hc hp
    rw [hcur'] at hc
    cases hc
    exact absurd rfl hp
  · rw [hhw]
    by_cases hj : j.operation = .ptt ∧ j.index = i
    · obtain ⟨hop, rfl⟩ := hj
      cases hon : j.on with
      | true =>
          exact Or.inl (hdue (h.racing .checked j hcur (by simp) (by simp [Job.keyUp, hop, hon]) rfl))
      | false =>
          have hr : j.release = true := by simp [Job.release, hop, hon]
          rw [← hon]
          exact Or.inr (Or.inr (told_release hr hquiet))
    · rcases h.settled with hd | ⟨phase, j', hc, hp, hr, hi⟩ | hoff
      · exact Or.inl (hdue hd)
      · rw [hcur] at hc
        cases hc
        simp only [Job.release, Bool.and_eq_true, beq_iff_eq] at hr
        exact absurd ⟨hr.1, hi⟩ hj
      · rw [told_other r.hardware fun hc => hj hc.2]
        exact Or.inr (Or.inr hoff)

theorem Dominated.finished {r' : Rig} {i : Nat} {j : Job} (h : Dominated p r i)
    (hcur : r.worker.current = some (.ran, j)) (hcur' : r'.worker.current = none)
    (hwait : r'.worker.waiting = r.worker.waiting) (hhw : r'.hardware = r.hardware) :
    Dominated p r' i := by
  refine ⟨by rw [hwait]; exact h.noKeyUp, ?_, ?_⟩
  · intro phase j' hc
    rw [hcur'] at hc
    exact absurd hc (by simp)
  · unfold Due
    rw [hwait, hhw]
    rcases h.settled with hd | ⟨phase, j', hc, hp, -⟩ | hoff
    · exact Or.inl hd
    · rw [hcur] at hc
      cases hc
      exact absurd rfl hp
    · exact Or.inr (Or.inr hoff)

/-- An accepted release dominates from then on, whichever way it was taken in. -/
theorem Sound.accept {r' : Rig} {q : Request} {i : Nat} (h : Sound p r)
    (hs : Submitted r.worker q false r'.worker) (hhw : r'.hardware = r.hardware)
    (hi : q.index = some i) (hq : q.operation = .ptt ∧ q.on = false) : Dominated p r' i := by
  cases hs with
  | unchanged hpoll =>
      rw [hpoll rfl] at hq
      exact absurd hq.1 (by simp)
  | cancelled _ _ hr => exact absurd hr (by simp)
  | folded i' parent hi' _ _ hoff hcur hwait =>
      cases hi.symm.trans hi'
      obtain ⟨j, hj, hrel, rfl, -⟩ := h.kept.live i parent hoff
      have hnoKey : ∀ j' ∈ r'.worker.waiting, j'.keyUp = true → j'.index ≠ j.index := by
        intro j' hj' hk he
        rw [hwait] at hj'
        simpa [hk, he] using (List.mem_filter.mp hj').2
      rcases List.mem_append.mp hj with hc | hw
      · -- the release it joins is in hand
        obtain ⟨⟨phase, j'⟩, hx, rfl⟩ := Option.map_eq_some_iff.mp (Option.mem_toList.mp hc)
        refine ⟨hnoKey, ?_, ?_⟩
        · intro phase' j'' hc' _ hk
          rw [hcur, hx] at hc'
          cases hc'
          rw [Job.keyUp_not_release hk] at hrel
          exact absurd hrel (by simp)
        · by_cases hp : phase = .ran
          · subst hp
            rw [hhw]
            exact Or.inr (Or.inr (h.ran j' hx hrel))
          · exact Or.inr (Or.inl ⟨phase, j', hcur.trans hx, hp, hrel, rfl⟩)
      · -- the release it joins still waits
        have hdue : r'.worker.Due j.index :=
          ⟨j, hwait ▸ List.mem_filter.mpr ⟨hw, keeps_release j.index j hrel⟩, hrel, rfl⟩
        exact ⟨hnoKey, fun _ _ _ _ _ _ => hdue, Or.inl hdue⟩
  | released i' hi' _ _ hoff hcur hwait =>
      cases hi.symm.trans hi'
      have hdue : r'.worker.Due i :=
        ⟨q.job i r.worker.nextId, hwait ▸ List.mem_cons_self, Request.job_release.mpr hq, rfl⟩
      refine ⟨?_, fun _ _ _ _ _ _ => hdue, Or.inl hdue⟩
      intro j hj hk he
      rw [hwait] at hj
      rcases List.mem_cons.mp hj with rfl | hmem
      · have hon := (Request.job_keyUp.mp hk).2
        rw [hq.2] at hon
        exact absurd hon (by simp)
      · simpa [hk, he] using (List.mem_filter.mp hmem).2
  | queued _ _ _ _ _ hn => exact absurd hq hn

/-- A submission that is no accepted key-up for the index leaves it dominated. -/
theorem Dominated.submitted {r' : Rig} {q : Request} {rejected : Bool} {i : Nat}
    (h : Dominated p r i) (hs : Submitted r.worker q rejected r'.worker)
    (hhw : r'.hardware = r.hardware)
    (hq : ¬ (q.index = some i ∧ rejected = false ∧ q.operation = .ptt ∧ q.on = true)) :
    Dominated p r' i := by
  cases hs with
  | unchanged _ same =>
      exact h.mono same.current hhw (fun j hj _ _ => same.waiting ▸ hj) fun j hj _ =>
        same.waiting ▸ hj
  | cancelled i' hi hr hq' hcur hwait =>
      refine h.mono hcur hhw (fun j hj _ _ => ?_) fun j hj hr => ?_
      · rw [hwait] at hj
        exact (List.mem_filter.mp hj).1
      · rw [hwait]
        exact List.mem_filter.mpr ⟨hj, keeps_release i' j hr⟩
  | folded i' parent hi hr hq' hoff hcur hwait =>
      refine h.mono hcur hhw (fun j hj _ _ => ?_) fun j hj hr => ?_
      · rw [hwait] at hj
        exact (List.mem_filter.mp hj).1
      · rw [hwait]
        exact List.mem_filter.mpr ⟨hj, keeps_release i' j hr⟩
  | released i' hi hr hq' hoff hcur hwait =>
      refine h.mono hcur hhw (fun j hj hk _ => ?_) fun j hj hr => ?_
      · rw [hwait] at hj
        rcases List.mem_cons.mp hj with rfl | hmem
        · have hon := (Request.job_keyUp.mp hk).2
          rw [hq'.2] at hon
          exact absurd hon (by simp)
        · exact (List.mem_filter.mp hmem).1
      · rw [hwait]
        exact List.mem_cons_of_mem _ (List.mem_filter.mpr ⟨hj, keeps_release i' j hr⟩)
  | queued i' before after hi hr hq' hcur hsplit hwait =>
      refine h.mono hcur hhw (fun j hj hk he => ?_) fun j hj hr => ?_
      · rw [hwait] at hj
        rw [hsplit]
        rcases List.mem_cons.mp (List.perm_middle.subset hj) with rfl | hmem
        · exact absurd ⟨hi.trans (congrArg some he), hr, Request.job_keyUp.mp hk⟩ hq
        · exact hmem
      · rw [hsplit] at hj
        rw [hwait]
        exact List.perm_middle.symm.subset (List.mem_cons_of_mem _ hj)

/-- What a submission records. -/
theorem accepted_submit (p : Setup) (r : Rig) (q : Request) (alloc : Bool) (i : Nat) :
    (Rig.step p r (.submit q alloc)).accepted i =
      if q.index = some i ∧ (submit p.maxVfos r.halted alloc r.worker q).1 = false ∧
        q.operation = .ptt then some q.on else r.accepted i := by
  obtain ⟨index, operation, on, user⟩ := q
  cases index with
  | none => rfl
  | some i' =>
      simp only [Rig.step, Option.some.injEq, Bool.and_eq_true, Bool.not_eq_true', beq_iff_eq]
      split
      · rename_i hacc
        rw [Function.update_apply]
        exact if_congr ⟨fun he => ⟨he.symm, hacc⟩, fun hc => hc.1.symm⟩ rfl rfl
      · rename_i hacc
        rw [if_neg fun hc => hacc hc.2]

theorem Sound.submit (h : Sound p r) (q : Request) (alloc : Bool) :
    Sound p (Rig.step p r (.submit q alloc)) := by
  have hs := submit_cases p.maxVfos r.halted alloc h.kept.offReleases q
  have hcur : (Rig.step p r (.submit q alloc)).worker.current = r.worker.current := by
    cases hs with
    | unchanged _ same => exact same.current
    | cancelled _ _ _ _ hcur => exact hcur
    | folded _ _ _ _ _ _ hcur => exact hcur
    | released _ _ _ _ _ hcur => exact hcur
    | queued _ _ _ _ _ _ hcur => exact hcur
  refine ⟨h.kept.submit hs, h.quiet, fun j hc => h.ran j (hcur ▸ hc), ?_⟩
  intro i ha
  rw [accepted_submit] at ha
  split at ha
  · rename_i hq
    rw [hq.2.1] at hs
    exact h.accept hs rfl hq.1 ⟨hq.2.2, Option.some.inj ha⟩
  · -- the last accepted submission of this index is an earlier one
    rename_i hq
    exact (h.dominated i ha).submitted hs rfl fun hc => hq ⟨hc.1, hc.2.1, hc.2.2.1⟩

/-- The job in hand keeps its place as long as only its phase changes. -/
theorem Sound.step (h : Sound p r) (e : Event) : Sound p (Rig.step p r e) := by
  cases e with
  | submit q alloc => exact h.submit q alloc
  | dequeue =>
      have hkept := h.kept.step (p := p) .dequeue
      rcases dequeue_cases r.worker with heq | ⟨j, rest, hcur, hwait, hcur', hwait', -, -⟩
      · show Sound p { r with worker := dequeue r.worker }
        rw [heq]
        exact h
      · refine ⟨hkept, h.quiet, fun j' hc => ?_, fun i ha => ?_⟩
        · exact absurd (hcur'.symm.trans hc) (by simp)
        · exact (h.dominated i ha).taken hcur hwait hcur' hwait' rfl
  | check =>
      have hkept := h.kept.step (p := p) .check
      rcases check_cases r.halted r.worker with heq | ⟨j, hcur, hcur', hwait, -, -⟩
      · show Sound p { r with worker := check r.halted r.worker }
        rw [heq]
        exact h
      · refine ⟨hkept, h.quiet, fun j' hc hr => ?_, fun i ha => ?_⟩
        · rcases hcur' with hc' | ⟨hc', hn⟩
          · exact absurd (hc'.symm.trans hc) (by simp)
          · cases hc'.symm.trans hc
            rw [hr] at hn
            exact absurd hn (by simp)
        · exact (h.dominated i ha).checked hcur hcur' hwait rfl
  | call ok =>
      have hkept := h.kept.step (p := p) (.call ok)
      rcases call_cases p.pttSet ok r.worker with
        ⟨heq, hnone⟩ | ⟨j, hcur, hcur', htold, hwait, -, -⟩
      · show Sound p { r with worker := call p.pttSet ok r.worker
                              hardware := Rig.told r.hardware (pttCall p.pttSet r.worker) }
        rw [heq, hnone]
        exact h
      · have hhw : (Rig.step p r (.call ok)).hardware = Rig.told r.hardware
            (if p.pttSet && j.operation == .ptt then some (j.index, j.on) else none) :=
          congrArg (Rig.told r.hardware) htold
        refine ⟨hkept, fun hp i => ?_, fun j' hc hr => ?_, fun i ha => ?_⟩
        · rw [hhw, told_other r.hardware fun hc => by rw [hp] at hc; exact absurd hc.1 (by simp)]
          exact h.quiet hp i
        · cases hcur'.symm.trans hc
          rw [hhw]
          exact told_release hr h.quiet
        · exact (h.dominated i ha).called h.quiet hcur hcur' hwait hhw
  | finish ptt =>
      have hkept := h.kept.step (p := p) (.finish ptt)
      rcases finish_cases ptt r.worker with heq | ⟨j, hcur, hcur', hwait, -, -⟩
      · show Sound p { r with worker := finish ptt r.worker }
        rw [heq]
        exact h
      · refine ⟨hkept, h.quiet, fun j' hc => ?_, fun i ha => ?_⟩
        · exact absurd (hcur'.symm.trans hc) (by simp)
        · exact (h.dominated i ha).finished hcur hcur' hwait rfl
  | drain =>
      have hsame := drain_same r.worker
      refine ⟨h.kept.same hsame, h.quiet, fun j hc => h.ran j (hsame.current ▸ hc), fun i ha => ?_⟩
      exact (h.dominated i ha).mono hsame.current rfl (fun j hj _ _ => hsame.waiting ▸ hj)
        fun j hj _ => hsame.waiting.symm ▸ hj
  | halt halted => exact ⟨h.kept, h.quiet, h.ran, fun i ha =>
      (h.dominated i ha).mono rfl rfl (fun j hj _ _ => hj) fun j hj _ => hj⟩
  | stop =>
      obtain ⟨hcur, hwait, -, -⟩ := stop_view h.kept.offReleases
      refine ⟨h.kept.step (p := p) .stop, h.quiet, fun j hc => h.ran j (hcur ▸ hc), fun i ha => ?_⟩
      refine (h.dominated i ha).mono hcur rfl (fun j hj _ _ => ?_) fun j hj hr => ?_
      · exact (List.mem_filter.mp (hwait ▸ hj)).1
      · exact hwait.symm ▸ List.mem_filter.mpr ⟨hj, hr⟩

theorem sound_start : Sound p Rig.start where
  kept := ⟨List.nodup_nil, fun _ hj => absurd hj List.not_mem_nil,
    fun _ hj => absurd hj List.not_mem_nil, fun _ _ ho => absurd ho (by simp [Rig.start, start])⟩
  quiet := fun _ _ => rfl
  ran := fun _ hc => absurd hc (by simp [Rig.start, current, start])
  dominated := fun _ ha => absurd ha (by simp [Rig.start])

/-- The invariant holds after any run. -/
theorem Sound.run (es : List Event) : ∀ {r : Rig}, Sound p r → Sound p (Rig.run p r es) := by
  induction es with
  | nil => exact fun h => h
  | cons e es ih => exact fun h => ih (h.step e)

/-- **A release dominates every key-up accepted before it.**

After any interleaving of submissions, worker steps and drains in which the last accepted
PTT submission of an index is a release: no key-up of the index is queued; if the job in
hand is about to key the index, a release of it waits in the queue; and once no job of the
index is queued or in hand, the hardware was last told to release it. -/
theorem release_dominates (p : Setup) (es : List Event) (i : Nat)
    (h : (Rig.run p Rig.start es).accepted i = some false) :
    let r := Rig.run p Rig.start es
    (∀ e ∈ r.worker.queue, e.job.index = i → e.job.keyUp = false) ∧
    (pttCall p.pttSet r.worker = some (i, true) →
      ∃ e ∈ r.worker.queue, e.job.index = i ∧ e.job.release = true) ∧
    ((∀ e ∈ r.worker.queue, e.job.index ≠ i) →
      (∀ phase e, r.worker.executing = some (phase, e) → e.job.index ≠ i) →
      r.hardware i = p.off) := by
  intro r
  have hdom : Dominated p r i := (sound_start.run es).dominated i h
  have hdue : r.worker.Due i → ∃ e ∈ r.worker.queue, e.job.index = i ∧ e.job.release = true := by
    rintro ⟨j, hj, hr, hi⟩
    obtain ⟨e, he, rfl⟩ := List.mem_map.mp hj
    exact ⟨e, he, hi, hr⟩
  refine ⟨fun e he hi => ?_, fun hcall => ?_, fun hqueue hhand => ?_⟩
  · rw [← Bool.not_eq_true]
    exact fun hk => hdom.noKeyUp e.job.bare (List.mem_map_of_mem he) hk hi
  · rcases call_cases p.pttSet true r.worker with ⟨-, hnone⟩ | ⟨j, hcur, -, htold, -⟩
    · rw [hnone] at hcall
      exact absurd hcall (by simp)
    · rw [htold] at hcall
      split at hcall
      · rename_i hp
        simp only [Bool.and_eq_true, beq_iff_eq] at hp
        simp only [Option.some.injEq, Prod.mk.injEq] at hcall
        exact hdue (hdom.racing .checked j hcur (by simp) (by simp [Job.keyUp, hp.2, hcall.2])
          hcall.1)
      · exact absurd hcall (by simp)
  · rcases hdom.settled with hd | ⟨phase, j, hc, -, -, hi⟩ | hoff
    · obtain ⟨e, he, hi, -⟩ := hdue hd
      exact absurd hi (hqueue e he)
    · obtain ⟨x, hx, heq⟩ := Option.map_eq_some_iff.mp hc
      obtain ⟨rfl, rfl⟩ := Prod.mk.inj heq
      exact absurd hi (hhand x.1 x.2 hx)
    · exact hoff

/-- A key-up races with its release, which two more releases join, the last while the first
is being executed. -/
theorem release_dominates_race :
    let key (on : Bool) (user : Nat) : Event := .submit ⟨some 0, .ptt, on, user⟩ true
    let r := Rig.run ⟨2, true⟩ Rig.start [key true 1, .dequeue, .check, key false 2, key false 3,
      .call true, .finish true, .dequeue, .check, key false 4, .call true, .finish false, .drain]
    r.worker.queue = [] ∧ r.worker.executing = none ∧ r.hardware 0 = some false := by
  intro key r
  have hqueue : r.worker.queue = [] := by decide
  have hhand : r.worker.executing = none := by decide
  refine ⟨hqueue, hhand, (release_dominates ⟨2, true⟩ [key true 1, .dequeue, .check, key false 2,
    key false 3, .call true, .finish true, .dequeue, .check, key false 4, .call true, .finish false,
    .drain] 0 (by decide)).2.2 ?_ ?_⟩
  · intro e he
    rw [hqueue] at he
    exact absurd he List.not_mem_nil
  · intro phase e he
    rw [hhand] at he
    exact absurd he (by simp)

end Worker

end RustyRig
