/-
Removing a branch keeps the tree, and removes exactly that branch.

The marking loop works on indices and stops when a sweep marks nothing.  What it
stops with is the set of servers below the withdrawn one, so the kept part is closed
under parents and every climb that starts in it stays in it.
-/
import RustyRig.Proofs.LinkTree.Table
import Mathlib.Logic.Relation

namespace RustyRig

open Lib

namespace LinkTree

variable {u : UuidFormat} {t : LinkTree} {loc : String}

/-! ### The marking loop

What it computes is the set of indices of the servers below the withdrawn one.  It
marks nothing else, because a mark only ever spreads from a parent to its child; and
it marks all of them, because it does not stop before a sweep that finds nothing.
-/

/-- Server `s` is `target` or hangs somewhere below it. -/
def Below (t : LinkTree) (target s : String) : Prop := Relation.ReflTransGen t.Edge s target

/-- No unmarked node of `todo` has a marked parent. -/
def Settled (t : LinkTree) (todo : List (LinkNode × Nat)) (removed : Nat → Bool) : Prop :=
  ∀ e ∈ todo, ∀ j, t.indexOf e.1.parent = some j → removed j = true → removed e.2 = true

/-- How many of `todo` are still unmarked. -/
def unmarked (todo : List (LinkNode × Nat)) (removed : Nat → Bool) : Nat :=
  todo.countP fun e => !removed e.2

/-- Marking a node keeps every mark. -/
theorem update_true_mono {removed : Nat → Bool} {i k : Nat} (hk : removed k = true) :
    Function.update removed i true k = true := by
  by_cases hki : k = i
  · rw [hki, Function.update_self]
  · rw [Function.update_of_ne hki, hk]

theorem sweep_cons (n : LinkNode) (i : Nat) (rest : List (LinkNode × Nat))
    (removed : Nat → Bool) (changed : Bool) :
    (sweep t ((n, i) :: rest) (removed, changed) = sweep t rest (removed, changed) ∧
        ∀ j, t.indexOf n.parent = some j → removed j = true → removed i = true) ∨
      (removed i = false ∧ (∃ j, t.indexOf n.parent = some j ∧ removed j = true) ∧
        sweep t ((n, i) :: rest) (removed, changed) =
          sweep t rest (Function.update removed i true, true)) := by
  rw [sweep]
  by_cases hi : removed i = true
  · exact Or.inl ⟨if_pos hi, fun _ _ _ => hi⟩
  rw [if_neg hi]
  cases hj : t.indexOf n.parent with
  | none => exact Or.inl ⟨rfl, fun j h => by simp at h⟩
  | some j =>
      by_cases hr : removed j = true
      · exact Or.inr ⟨by simpa using hi, ⟨j, rfl, hr⟩, by simp only [if_pos hr]⟩
      · refine Or.inl ⟨by simp only [if_neg hr], fun k hk h => ?_⟩
        rw [← Option.some.inj hk] at h
        exact absurd h hr

theorem sweep_mono : ∀ (todo : List (LinkNode × Nat)) (st : (Nat → Bool) × Bool) (k : Nat),
    st.1 k = true → (sweep t todo st).1 k = true := by
  intro todo
  induction todo with
  | nil => intro st k h; exact h
  | cons e rest ih =>
      intro ⟨removed, changed⟩ k h
      rcases sweep_cons (t := t) e.1 e.2 rest removed changed with ⟨heq, -⟩ | ⟨-, -, heq⟩
      · rw [heq]; exact ih _ k h
      · rw [heq]; exact ih _ k (update_true_mono h)

/-- A sweep that has changed something says so. -/
theorem sweep_changed : ∀ (todo : List (LinkNode × Nat)) (removed : Nat → Bool),
    (sweep t todo (removed, true)).2 = true := by
  intro todo
  induction todo with
  | nil => intro removed; rfl
  | cons e rest ih =>
      intro removed
      rcases sweep_cons (t := t) e.1 e.2 rest removed true with ⟨heq, -⟩ | ⟨-, -, heq⟩
      · rw [heq]; exact ih _
      · rw [heq]; exact ih _

/-- A sweep that reports no change found everything settled. -/
theorem sweep_settled : ∀ (todo : List (LinkNode × Nat)) (removed : Nat → Bool),
    (sweep t todo (removed, false)).2 = false →
      (sweep t todo (removed, false)).1 = removed ∧ Settled t todo removed := by
  intro todo
  induction todo with
  | nil => intro removed _; exact ⟨rfl, by simp [Settled]⟩
  | cons e rest ih =>
      intro removed h
      rcases sweep_cons (t := t) e.1 e.2 rest removed false with ⟨heq, hset⟩ | ⟨-, -, heq⟩
      · rw [heq] at h ⊢
        obtain ⟨hsame, hrest⟩ := ih removed h
        refine ⟨hsame, fun e' he' => ?_⟩
        rcases List.mem_cons.mp he' with rfl | he'
        · exact hset
        · exact hrest e' he'
      · rw [heq, sweep_changed] at h
        exact absurd h (by simp)

theorem unmarked_mono (todo : List (LinkNode × Nat)) {removed removed' : Nat → Bool}
    (h : ∀ k, removed k = true → removed' k = true) :
    unmarked todo removed' ≤ unmarked todo removed := by
  refine List.countP_mono_left fun e _ he => ?_
  by_contra hc
  simp only [Bool.not_eq_true', Bool.not_eq_false] at hc he
  rw [h e.2 hc] at he
  exact absurd he (by simp)

/-- A sweep that reports a change has marked something it was to look at. -/
theorem sweep_progress : ∀ (todo : List (LinkNode × Nat)) (removed : Nat → Bool),
    (sweep t todo (removed, false)).2 = true →
      unmarked todo (sweep t todo (removed, false)).1 < unmarked todo removed := by
  intro todo
  induction todo with
  | nil => intro removed h; simp [sweep] at h
  | cons e rest ih =>
      intro removed h
      rcases sweep_cons (t := t) e.1 e.2 rest removed false with ⟨heq, -⟩ | ⟨hi, -, heq⟩
      · rw [heq] at h ⊢
        have hrest := ih removed h
        have hhead : (!(sweep t rest (removed, false)).1 e.2) = true → (!removed e.2) = true := by
          intro hs
          by_contra hc
          simp only [Bool.not_eq_true', Bool.not_eq_false] at hc hs
          rw [sweep_mono rest (removed, false) e.2 hc] at hs
          exact absurd hs (by simp)
        simp only [unmarked, List.countP_cons] at hrest ⊢
        by_cases hr : (!(sweep t rest (removed, false)).1 e.2) = true
        · rw [if_pos hr, if_pos (hhead hr)]; omega
        · rw [if_neg hr]; omega
      · rw [heq]
        have hmono : ∀ k, removed k = true →
            (sweep t rest (Function.update removed e.2 true, true)).1 k = true :=
          fun k hk => sweep_mono rest _ k (update_true_mono hk)
        have hself : (sweep t rest (Function.update removed e.2 true, true)).1 e.2 = true :=
          sweep_mono rest _ e.2 (Function.update_self ..)
        have hle := unmarked_mono rest hmono
        simp only [unmarked, List.countP_cons] at hle ⊢
        rw [if_neg (by simp [hself]), if_pos (by simp [hi])]
        omega

/-- A mark spreads only from a parent to its child. -/
theorem sweep_sound {P : Nat → Prop} : ∀ (todo : List (LinkNode × Nat)),
    (∀ e ∈ todo, ∀ j, t.indexOf e.1.parent = some j → P j → P e.2) →
    ∀ st : (Nat → Bool) × Bool, (∀ k, st.1 k = true → P k) →
      ∀ k, (sweep t todo st).1 k = true → P k := by
  intro todo
  induction todo with
  | nil => intro _ st h; exact h
  | cons e rest ih =>
      intro hstep ⟨removed, changed⟩ h
      have hrest : ∀ e ∈ rest, ∀ j, t.indexOf e.1.parent = some j → P j → P e.2 :=
        fun e' he' => hstep e' (List.mem_cons_of_mem _ he')
      rcases sweep_cons (t := t) e.1 e.2 rest removed changed with ⟨heq, -⟩ | ⟨-, ⟨j, hj, hr⟩, heq⟩
      · rw [heq]; exact ih hrest _ h
      · rw [heq]
        refine ih hrest _ fun k hk => ?_
        by_cases hke : k = e.2
        · rw [hke]; exact hstep e List.mem_cons_self j hj (h j hr)
        · have hold : Function.update removed e.2 true k = true := hk
          rw [Function.update_of_ne hke] at hold
          exact h k hold

/-- With more fuel than unmarked nodes the loop stops at a settled marking. -/
theorem markAll_fixpoint : ∀ (fuel : Nat) (removed : Nat → Bool),
    unmarked t.nodes.zipIdx.tail removed < fuel →
      Settled t t.nodes.zipIdx.tail (markAll t fuel removed) := by
  intro fuel
  induction fuel with
  | zero => intro removed h; omega
  | succ fuel ih =>
      intro removed h
      rw [markAll]
      cases hs : (sweep t t.nodes.zipIdx.tail (removed, false)).2 with
      | true =>
          rw [if_pos rfl]
          exact ih _ (by have := sweep_progress _ removed hs; omega)
      | false =>
          rw [if_neg (by simp)]
          obtain ⟨hsame, hset⟩ := sweep_settled _ removed hs
          rw [hsame]
          exact hset

theorem markAll_mono : ∀ (fuel : Nat) (removed : Nat → Bool) (k : Nat),
    removed k = true → markAll t fuel removed k = true := by
  intro fuel
  induction fuel with
  | zero => intro removed k h; exact h
  | succ fuel ih =>
      intro removed k h
      have hk := sweep_mono (t := t) t.nodes.zipIdx.tail (removed, false) k h
      rw [markAll]
      split
      · exact ih _ k hk
      · exact hk

theorem markAll_sound {P : Nat → Prop}
    (hstep : ∀ e ∈ t.nodes.zipIdx.tail, ∀ j, t.indexOf e.1.parent = some j → P j → P e.2) :
    ∀ (fuel : Nat) (removed : Nat → Bool), (∀ k, removed k = true → P k) →
      ∀ k, markAll t fuel removed k = true → P k := by
  intro fuel
  induction fuel with
  | zero => intro removed h; exact h
  | succ fuel ih =>
      intro removed h
      have hsw := sweep_sound _ hstep (removed, false) h
      rw [markAll]
      split
      · exact ih _ hsw
      · exact hsw

/-! ### Removing a branch

With distinct ids an index is as good as a server, so what the loop computed over
indices is the set of servers below the target.  Compaction keeps the rest, in
order, and a climb that starts in the rest stays there.
-/

namespace WellFormed

theorem indexOf_iff (h : WellFormed u loc t) {s : String} {j : Nat} :
    t.indexOf s = some j ↔ ∃ n, t.nodes[j]? = some n ∧ n.server = s := by
  rw [indexOf, List.findIdx?_eq_some_iff_getElem]
  constructor
  · rintro ⟨hj, hs, -⟩
    exact ⟨t.nodes[j], List.getElem?_eq_getElem hj, beq_iff_eq.mp hs⟩
  · rintro ⟨n, hn, rfl⟩
    obtain ⟨hj, rfl⟩ := List.getElem?_eq_some_iff.mp hn
    refine ⟨hj, beq_self_eq_true _, fun i hij => ?_⟩
    have hi : i < t.nodes.length := by omega
    rw [beq_iff_eq]
    intro hs
    -- Equal servers are one node, and no node stands at two indices.
    have hsame := h.mem_inj (List.getElem_mem hi) (List.getElem_mem hj) hs
    have hij' := ((List.Nodup.of_map _ h.distinct).getElem_inj_iff).mp hsame
    omega

/-- The loop looks at every node but the local server. -/
theorem mem_todo (h : WellFormed u loc t) {n : LinkNode} {i : Nat} :
    (n, i) ∈ t.nodes.zipIdx.tail ↔ 0 < i ∧ t.nodes[i]? = some n := by
  obtain ⟨site, hroot⟩ := h.root
  rw [hroot, List.zipIdx_cons, List.tail_cons, List.mem_zipIdx_iff_le_and_getElem?_sub]
  constructor
  · rintro ⟨hi, hn⟩
    obtain ⟨k, rfl⟩ : ∃ k, i = k + 1 := ⟨i - 1, by omega⟩
    exact ⟨by omega, by simpa using hn⟩
  · rintro ⟨hi, hn⟩
    obtain ⟨k, rfl⟩ : ∃ k, i = k + 1 := ⟨i - 1, by omega⟩
    exact ⟨by omega, by simpa using hn⟩

theorem remote_getElem? (h : WellFormed u loc t) {n : LinkNode} :
    n ∈ t.remote ↔ ∃ i, 0 < i ∧ t.nodes[i]? = some n := by
  obtain ⟨site, hroot⟩ := h.root
  rw [List.mem_iff_getElem?]
  constructor
  · rintro ⟨i, hi⟩
    exact ⟨i + 1, by omega, by rw [hroot]; simpa using hi⟩
  · rintro ⟨i, hi, hn⟩
    obtain ⟨k, rfl⟩ : ∃ k, i = k + 1 := ⟨i - 1, by omega⟩
    exact ⟨k, by rw [hroot] at hn; simpa using hn⟩

/-- The loop has a sweep for every node that is not marked at its start. -/
theorem unmarked_lt (h : WellFormed u loc t) (removed : Nat → Bool) :
    unmarked t.nodes.zipIdx.tail removed < t.count := by
  have hle := List.countP_le_length (p := fun e => !removed e.2) (l := t.nodes.zipIdx.tail)
  have hpos : 0 < t.nodes.length := by
    obtain ⟨site, hroot⟩ := h.root
    rw [hroot]; simp
  simp only [List.length_tail, List.length_zipIdx] at hle
  simp only [unmarked, count]
  omega

/-- The loop marks exactly the indices of servers below the target. -/
theorem marked_iff (h : WellFormed u loc t) {target : String} {i : Nat}
    (hi : t.indexOf target = some i) {k : Nat} :
    markAll t t.count (Function.update (fun _ => false) i true) k = true ↔
      ∃ n, t.nodes[k]? = some n ∧ t.Below target n.server := by
  obtain ⟨n₀, hn₀, hs₀⟩ := h.indexOf_iff.mp hi
  constructor
  · refine markAll_sound (P := fun k => ∃ n, t.nodes[k]? = some n ∧ t.Below target n.server)
      ?_ _ _ ?_ k
    · rintro ⟨n, i'⟩ he j hj ⟨m, hm, hbelow⟩
      obtain ⟨hpos, hn⟩ := h.mem_todo.mp he
      obtain ⟨m', hm', hparent⟩ := h.indexOf_iff.mp hj
      obtain rfl : m = m' := Option.some.inj (hm.symm.trans hm')
      have hedge : t.Edge n.server n.parent := ⟨n, h.remote_getElem?.mpr ⟨i', hpos, hn⟩, rfl, rfl⟩
      exact ⟨n, hn, .head hedge (by rw [← hparent]; exact hbelow)⟩
    · intro k hk
      by_cases hki : k = i
      · exact ⟨n₀, by rw [hki]; exact hn₀, by rw [hs₀]; exact .refl⟩
      · rw [Function.update_of_ne hki] at hk
        exact absurd hk (by simp)
  · rintro ⟨n, hn, hbelow⟩
    have hset := markAll_fixpoint t.count _
      (h.unmarked_lt (Function.update (fun _ => false) i true))
    -- Follow the climb down from the target: each child of a marked server is marked.
    suffices ∀ s, t.Below target s → ∀ k n, t.nodes[k]? = some n → n.server = s →
        markAll t t.count (Function.update (fun _ => false) i true) k = true from
      this _ hbelow k n hn rfl
    intro s hs
    induction hs using Relation.ReflTransGen.head_induction_on with
    | refl =>
        intro k n hn hs
        have hk := h.indexOf_iff.mpr ⟨n, hn, hs⟩
        rw [hi] at hk
        obtain rfl := Option.some.inj hk
        exact markAll_mono _ _ _ (Function.update_self ..)
    | @head a c hac _ ih =>
        intro k n hn hs
        obtain ⟨m, hm, hma, hmc⟩ := hac
        obtain ⟨k', hpos, hk'⟩ := h.remote_getElem?.mp hm
        have hkk : t.indexOf a = some k := h.indexOf_iff.mpr ⟨n, hn, hs⟩
        rw [h.indexOf_iff.mpr ⟨m, hk', hma⟩] at hkk
        obtain rfl := Option.some.inj hkk
        obtain ⟨b, hb, hbc⟩ := h.parent_known hm
        obtain ⟨j, hj⟩ := List.mem_iff_getElem?.mp hb
        exact hset (m, k') (h.mem_todo.mpr ⟨hpos, hk'⟩) j (h.indexOf_iff.mpr ⟨b, hj, hbc⟩)
          (ih j b hj (hbc.trans hmc))

end WellFormed

/-- The table without a server and what hangs below it. -/
noncomputable def pruned (t : LinkTree) (target : String) : LinkTree :=
  open Classical in { t with nodes := t.nodes.filter fun n => ¬ t.Below target n.server }

/-- Filtering positions is filtering elements when the two tests agree. -/
theorem compact_eq {removed : Nat → Bool} {keep : LinkNode → Bool}
    (h : ∀ n i, t.nodes[i]? = some n → (removed i = true ↔ ¬ keep n = true)) :
    compact t removed = t.nodes.filter keep := by
  have hcongr : t.nodes.zipIdx.filter (fun e => !removed e.2) =
      t.nodes.zipIdx.filter (keep ∘ Prod.fst) := by
    refine List.filter_congr fun e he => ?_
    have hiff := h e.1 e.2 (List.mem_zipIdx_iff_getElem?.mp he)
    rw [Function.comp_apply, Bool.eq_iff_iff, Bool.not_eq_true', ← Bool.not_eq_true, hiff, not_not]
  rw [compact, hcongr, ← List.filter_map, List.zipIdx_map_fst]

namespace WellFormed

/-- **`remove` withdraws the whole branch below a server of the given peer, or nothing.** -/
theorem remove_cases (h : WellFormed u loc t) (peer server : Option String) :
    (∃ p s n, peer = some p ∧ server = some s ∧ t.find (some s) = some n ∧ n.peer = p ∧
        p ≠ "" ∧ remove t peer server = (true, t.pruned s)) ∨
      remove t peer server = (false, t) := by
  unfold remove
  split
  swap
  · exact Or.inr rfl
  rename_i n p i hfind hindex
  split
  · exact Or.inr rfl
  rename_i hpeer
  simp only [Bool.or_eq_true, decide_eq_true_eq, not_or, not_not] at hpeer
  obtain ⟨hn, rfl⟩ := find_mem hfind
  refine Or.inl ⟨p, n.server, n, rfl, rfl, hfind, hpeer.2, by rw [← hpeer.2]; exact hpeer.1, ?_⟩
  have hkept : compact t (markAll t t.count (Function.update (fun _ => false) i true)) =
      (t.pruned n.server).nodes := by
    refine compact_eq fun m k hk => ?_
    rw [h.marked_iff hindex]
    constructor
    · rintro ⟨m', hm', hb⟩
      rw [← Option.some.inj (hk.symm.trans hm')] at hb
      simpa using hb
    · intro hb
      exact ⟨m, hk, by simpa using hb⟩
  show (true, { t with nodes := _ }) = _
  rw [hkept]
  rfl

/-- The local server is below nothing but itself. -/
theorem not_below_loc (h : WellFormed u loc t) {target : String} (hne : target ≠ loc) :
    ¬ t.Below target loc := by
  intro hb
  rcases Relation.ReflTransGen.cases_head hb with heq | ⟨c, hc, -⟩
  · exact hne heq.symm
  · exact h.rooted.orphan hc

theorem mem_pruned {target : String} {n : LinkNode} :
    n ∈ (t.pruned target).nodes ↔ n ∈ t.nodes ∧ ¬ t.Below target n.server := by
  simp [LinkTree.pruned]

theorem mem_remote_pruned (h : WellFormed u loc t) {target : String} (hne : target ≠ loc)
    {n : LinkNode} :
    n ∈ (t.pruned target).remote ↔ n ∈ t.remote ∧ ¬ t.Below target n.server := by
  obtain ⟨site, hroot⟩ := h.root
  have hkeep := h.not_below_loc hne
  simp only [remote, LinkTree.pruned]
  rw [hroot, List.filter_cons_of_pos (by simpa using hkeep)]
  simp

theorem pruned (h : WellFormed u loc t) {target : String} (hne : target ≠ loc) :
    WellFormed u loc (t.pruned target) where
  valid := fun n hn => h.valid n (mem_pruned.mp hn).1
  distinct := h.distinct.sublist (List.filter_sublist.map _)
  count_le := le_trans (List.length_filter_le _ _) h.count_le
  limit_le := h.limit_le
  root := by
    obtain ⟨site, hroot⟩ := h.root
    have hkeep := h.not_below_loc hne
    refine ⟨site, ?_⟩
    simp only [remote, LinkTree.pruned]
    rw [hroot, List.filter_cons_of_pos (by simpa using hkeep)]
    rfl
  branch := by
    intro n hn
    obtain ⟨hmem, hkeep⟩ := (h.mem_remote_pruned hne).mp hn
    obtain ⟨q, hq⟩ := h.branch n hmem
    refine ⟨q, hq.restrict (K := fun s => ¬ t.Below target s) ?_ hkeep⟩
    rintro a b ha ⟨m, hm, rfl, rfl⟩
    exact ⟨fun hb => ha (.head ⟨m, hm, rfl, rfl⟩ hb),
      m, (h.mem_remote_pruned hne).mpr ⟨hm, ha⟩, rfl, rfl⟩

end WellFormed

end LinkTree

end RustyRig
