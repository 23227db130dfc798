/-
What the mixer's queues hold over a run.

An account follows a stream from its adding on: what was pushed to it, and of each sample that is no
longer queued, in order, what became of it.  At every time what was pushed is what is gone and,
behind it, what is queued, so that only the oldest is ever lost.
-/
import Mathlib.Algebra.BigOperators.Group.List.Basic
import Mathlib.Data.List.Nodup
import RustyRig.Lib.Folds
import RustyRig.Proofs.AudioEngine.Streams

namespace RustyRig

namespace AudioEngine

open Lib

variable {e : Engine} {s s' : Stream} {m : Mix} {id : Option Id} {name : Id} {pcm : List Int16} {i : Nat}
  {streams : List Stream} {books : Id → Account}

/-- What became of a sample that is no longer queued. -/
inductive Fate
  | played
  | dropped
  | discarded
deriving DecidableEq, Repr

structure Account where
  pushed : List Int16
  gone : List (Int16 × Fate)

def Account.new : Account := ⟨[], []⟩

/-- Samples leave the queue. -/
def Account.leave (a : Account) (l : List Int16) (fate : Fate) : Account :=
  { a with gone := a.gone ++ l.map (·, fate) }

/-- Samples arrive, and what is dropped for them leaves. -/
def Account.push (a : Account) (s : Stream) (pcm : List Int16) : Account :=
  { a with pushed := a.pushed ++ pcm }.leave ((s.queued ++ pcm).take (s.push pcm).2) .dropped

def Account.count (a : Account) (fate : Fate) : Nat := a.gone.countP fun x => x.2 == fate

/-- What an event does to the account of a name, by the stream it has before. -/
def enter (e : Engine) (books : Id → Account) (event : Event) (name : Id) : Account :=
  match e.streams.find? fun s => s.id == name, event with
  | none, .add id => if id = some name then .new else books name
  | some s, .push id pcm => if id = some name ∧ pcm ≠ [] then (books name).push s pcm else books name
  | some s, .route id r =>
      if id = some name ∧ (route e id r).1 = true then (books name).leave s.queued .discarded else books name
  | some s, .tick =>
      if s.route = muted then (books name).leave s.queued .discarded
      else (books name).leave (s.queued.take s.taken) .played
  | _, _ => books name

/-- The accounts after a run. -/
def accounts (events : List Event) : Id → Account :=
  (events.foldl (fun (e, books) event => (step e event, enter e books event)) (.new, fun _ => .new)).2

/-- What was pushed is what is gone, and behind it what is queued. -/
def Account.Balanced (a : Account) (s : Stream) : Prop := a.pushed = a.gone.map (·.1) ++ s.queued

/-- What every event keeps. -/
structure Kept (e : Engine) (books : Id → Account) : Prop where
  names : (e.streams.map (·.id)).Nodup
  sound : ∀ s ∈ e.streams, s.Sound
  balanced : ∀ s ∈ e.streams, (books s.id).Balanced s

/-! ### Accounts -/

/-- What leaves is the front of what was there. -/
theorem Account.leave_take {a : Account} {l : List Int16} (h : a.pushed = a.gone.map (·.1) ++ l) (n : Nat) (fate : Fate) :
    (a.leave (l.take n) fate).pushed = (a.leave (l.take n) fate).gone.map (·.1) ++ l.drop n := by
  change a.pushed = (a.gone ++ (l.take n).map (·, fate)).map (·.1) ++ l.drop n
  rw [h, List.map_append, List.map_map, List.append_assoc]
  change a.gone.map (·.1) ++ l = a.gone.map (·.1) ++ ((l.take n).map (fun x => x) ++ l.drop n)
  rw [List.map_id', List.take_append_drop]

theorem Account.leave_all {a : Account} {l : List Int16} (h : a.pushed = a.gone.map (·.1) ++ l) (fate : Fate) :
    (a.leave l fate).pushed = (a.leave l fate).gone.map (·.1) ++ [] := by
  have hall := Account.leave_take h l.length fate
  rw [List.take_length, List.drop_length] at hall
  exact hall

/-- Every sample that is gone was played, dropped or discarded. -/
theorem Account.length_gone (a : Account) :
    a.gone.length = a.count .played + a.count .dropped + a.count .discarded := by
  unfold Account.count
  induction a.gone with
  | nil => rfl
  | cons x gone ih =>
      obtain ⟨sample, fate⟩ := x
      simp only [List.length_cons, List.countP_cons, ih]
      cases fate <;> simp <;> omega

/-! ### Names -/

theorem find_of_mem (h : (e.streams.map (·.id)).Nodup) (hs : s ∈ e.streams) :
    (e.streams.find? fun t => t.id == s.id) = some s := by
  obtain ⟨t, ht⟩ : ∃ t, (e.streams.find? fun t => t.id == s.id) = some t := by
    refine Option.isSome_iff_exists.mp (List.find?_isSome.mpr ⟨s, hs, ?_⟩)
    exact beq_self_eq_true _
  have hbeq : (t.id == s.id) = true := List.find?_some (p := fun t : Stream => t.id == s.id) ht
  rw [ht, List.inj_on_of_nodup_map h (List.mem_of_find?_eq_some ht) hs (eq_of_beq hbeq)]

theorem findStream_some (h : findStream e id = some i) : ∃ s, e.streams[i]? = some s ∧ id = some s.id := by
  obtain ⟨name, rfl, hfind⟩ := Option.bind_eq_some_iff.mp h
  obtain ⟨hlt, hid, -⟩ := List.findIdx?_eq_some_iff_getElem.mp hfind
  exact ⟨e.streams[i], List.getElem?_eq_getElem hlt, congrArg some (eq_of_beq hid).symm⟩

theorem findStream_none (h : findStream e (some name) = none) : ∀ s ∈ e.streams, s.id ≠ name := by
  intro s hs hid
  have hdiffers := List.findIdx?_eq_none_iff.mp h s hs
  rw [hid, beq_self_eq_true] at hdiffers
  cases hdiffers

/-- After a change of one stream the others have other names. -/
theorem modified {f : Stream → Stream} (h : (e.streams.map (·.id)).Nodup) (hfind : findStream e id = some i)
    (hs : s' ∈ e.streams.modify i f) :
    (s' ∈ e.streams ∧ id ≠ some s'.id) ∨ ∃ s, e.streams[i]? = some s ∧ id = some s.id ∧ s' = f s := by
  obtain ⟨s, hget, rfl⟩ := findStream_some hfind
  obtain ⟨j, hj⟩ := List.mem_iff_getElem?.mp hs
  rcases getElem?_of_modify hj with ⟨hne, hj⟩ | ⟨rfl, t, ht, rfl⟩
  · refine Or.inl ⟨List.mem_of_getElem? hj, fun hsame => hne ?_⟩
    have hid : (e.streams.map (·.id))[i]? = (e.streams.map (·.id))[j]? := by
      rw [List.getElem?_map, List.getElem?_map, hget, hj]
      exact hsame
    have hlt : i < (e.streams.map (·.id)).length := by
      rw [List.length_map]
      exact (List.getElem?_eq_some_iff.mp hget).1
    exact ((List.getElem?_inj hlt h).mp hid).symm
  · rw [hget] at ht
    exact Or.inr ⟨s, hget, rfl, congrArg f (Option.some.inj ht).symm⟩

/-! ### The events -/

/-- A push is refused, or goes to the stream of the name. -/
theorem push_cases (e : Engine) (id : Option Id) (pcm : List Int16) :
    ((pcm = [] ∨ findStream e id = none) ∧ push e id pcm = (false, e)) ∨
      ∃ i s, pcm ≠ [] ∧ findStream e id = some i ∧ e.streams[i]? = some s ∧ (push e id pcm).1 = true ∧
        (push e id pcm).2.streams = e.streams.modify i fun _ => (s.push pcm).1 := by
  unfold push
  by_cases hpcm : pcm = []
  · exact Or.inl ⟨Or.inl hpcm, if_pos (List.isEmpty_iff.mpr hpcm)⟩
  · rw [if_neg fun h => hpcm (List.isEmpty_iff.mp h)]
    cases hfind : findStream e id with
    | none => exact Or.inl ⟨Or.inr rfl, rfl⟩
    | some i =>
        obtain ⟨s, hs, -⟩ := findStream_some hfind
        dsimp only
        rw [hs]
        exact Or.inr ⟨i, s, hpcm, rfl, hs, rfl, rfl⟩

/-- A route is refused, or set for the stream of the name. -/
theorem route_cases (e : Engine) (id : Option Id) (r : UInt8) :
    route e id r = (false, e) ∨
      ∃ i, findStream e id = some i ∧
        route e id r = (true, { e with streams := e.streams.modify i (·.setRoute r) }) := by
  unfold route
  split
  · split
    · exact Or.inl rfl
    · rename_i i hfind
      exact Or.inr ⟨i, hfind, rfl⟩
  · exact Or.inl rfl

/-- A stream is added where the name is free. -/
theorem addStream_cases (e : Engine) (id : Option Id) :
    (addStream e id).2 = e ∨
      ∃ name, id = some name ∧ findStream e (some name) = none ∧
        (addStream e id).2 = { e with streams := .new name :: e.streams } := by
  unfold addStream
  split
  · exact Or.inl rfl
  · exact Or.inl rfl
  · split
    · exact Or.inl rfl
    · rename_i name _ hfree
      exact Or.inr ⟨name, rfl, Option.not_isSome_iff_eq_none.mp hfree, rfl⟩

/-- What the streams are after a tick, and what has been added up. -/
theorem mixStreams_spec (h : ∀ s ∈ streams, s.Sound) (m : Mix) :
    (mixStreams streams m).1.map (·.id) = streams.map (·.id) ∧
    (∀ s' ∈ (mixStreams streams m).1, ∃ s ∈ streams, Mixed s s') ∧
    ∀ k (a : Int), m.accum k = a.bmod (2 ^ 32) →
      (mixStreams streams m).2.accum k = (a + (streams.map (·.part k)).sum).bmod (2 ^ 32) := by
  induction streams generalizing m with
  | nil =>
      refine ⟨rfl, fun s' hs' => absurd hs' List.not_mem_nil, fun k a ha => ?_⟩
      rw [List.map_nil, List.sum_nil, Int.add_zero]
      exact ha
  | cons s streams ih =>
      obtain ⟨hmixed, hsum⟩ := mixStream_spec (h s List.mem_cons_self) m
      obtain ⟨hids, hrest, hsums⟩ := ih (fun t ht => h t (List.mem_cons_of_mem _ ht)) (mixStream s m).2
      refine ⟨congrArg₂ List.cons hmixed.id hids, fun s' hs' => ?_, fun k a ha => ?_⟩
      · rcases List.mem_cons.mp hs' with rfl | hs'
        · exact ⟨s, List.mem_cons_self, hmixed⟩
        · obtain ⟨t, ht, hmixed⟩ := hrest s' hs'
          exact ⟨t, List.mem_cons_of_mem _ ht, hmixed⟩
      · have hstep : (mixStream s m).2.accum k = (a + s.part k).bmod (2 ^ 32) := by
          rw [hsum, ha]
          by_cases hk : k / 2 < s.taken ∧ s.heard k
          · rw [if_pos hk, Int.bmod_add_bmod]
          · rw [if_neg hk, Stream.part, if_neg hk, Int.add_zero]
        rw [List.map_cons, List.sum_cons, ← Int.add_assoc]
        exact hsums k _ hstep

/-! ### The runs -/

theorem Kept.find (h : Kept e books) (hs : s ∈ e.streams) (event : Event) :
    enter e books event s.id =
      match event with
      | .push id pcm => if id = some s.id ∧ pcm ≠ [] then (books s.id).push s pcm else books s.id
      | .route id r =>
          if id = some s.id ∧ (route e id r).1 = true then (books s.id).leave s.queued .discarded else books s.id
      | .tick =>
          if s.route = muted then (books s.id).leave s.queued .discarded
          else (books s.id).leave (s.queued.take s.taken) .played
      | _ => books s.id := by
  unfold enter
  rw [find_of_mem h.names hs]
  cases event <;> rfl

theorem Kept.add (h : Kept e books) (id : Option Id) : Kept (step e (.add id)) (enter e books (.add id)) := by
  have hsame : ∀ s ∈ e.streams, (enter e books (.add id) s.id).Balanced s := by
    intro s hs
    rw [h.find hs]
    exact h.balanced s hs
  change Kept (addStream e id).2 _
  rcases addStream_cases e id with heq | ⟨name, rfl, hfree, heq⟩
  · rw [heq]
    exact ⟨h.names, h.sound, hsame⟩
  · rw [heq]
    have hdiffers := findStream_none hfree
    refine ⟨?_, ?_, ?_⟩
    · refine List.nodup_cons.mpr ⟨fun hmem => ?_, h.names⟩
      obtain ⟨s, hs, hid⟩ := List.mem_map.mp hmem
      exact hdiffers s hs hid
    · intro s hs
      rcases List.mem_cons.mp hs with rfl | hs
      · exact sound_new name
      · exact h.sound s hs
    · intro s hs
      rcases List.mem_cons.mp hs with rfl | hs
      · have hnew : enter e books (.add (some name)) name = .new := by
          have hnone : (e.streams.find? fun s => s.id == name) = none :=
            List.find?_eq_none.mpr fun s hs hid => hdiffers s hs (eq_of_beq hid)
          unfold enter
          rw [hnone]
          exact if_pos rfl
        change (enter e books (.add (some name)) name).Balanced _
        rw [hnew]
        rfl
      · exact hsame s hs

theorem Kept.remove (h : Kept e books) (id : Option Id) :
    Kept (step e (.remove id)) (enter e books (.remove id)) := by
  have hsub : (step e (.remove id)).streams.Sublist e.streams := by
    change (removeStream e id).streams.Sublist e.streams
    unfold removeStream
    split
    · exact List.eraseIdx_sublist _ _
    · exact List.Sublist.refl _
  refine ⟨h.names.sublist (hsub.map _), fun s hs => h.sound s (hsub.subset hs), fun s hs => ?_⟩
  rw [h.find (hsub.subset hs)]
  exact h.balanced s (hsub.subset hs)

theorem Kept.push (h : Kept e books) (id : Option Id) (pcm : List Int16) :
    Kept (step e (.push id pcm)) (enter e books (.push id pcm)) := by
  change Kept (AudioEngine.push e id pcm).2 _
  rcases push_cases e id pcm with ⟨hwhy, heq⟩ | ⟨i, s, hpcm, hfind, hget, -, heq⟩
  · rw [heq]
    refine ⟨h.names, h.sound, fun s hs => ?_⟩
    have hrefused : ¬(id = some s.id ∧ pcm ≠ []) := by
      rintro ⟨rfl, hpcm⟩
      rcases hwhy with hempty | hnone
      · exact hpcm hempty
      · exact findStream_none hnone s hs rfl
    rw [h.find hs]
    dsimp only
    rw [if_neg hrefused]
    exact h.balanced s hs
  · have hmem := List.mem_of_getElem? hget
    obtain ⟨hsound, hid, -, hqueued⟩ := push_spec (h.sound s hmem) pcm
    refine ⟨?_, fun s' hs' => ?_, fun s' hs' => ?_⟩
    · rw [heq, map_modify fun t ht => ?_]
      · exact h.names
      · rw [hget] at ht
        rw [hid, Option.some.inj ht]
    · rw [heq] at hs'
      rcases mem_of_modify hs' with hs' | ⟨t, -, rfl⟩
      · exact h.sound s' hs'
      · exact hsound
    · rw [heq] at hs'
      rcases modified h.names hfind hs' with ⟨hs', hother⟩ | ⟨t, ht, rfl, rfl⟩
      · rw [h.find hs']
        dsimp only
        rw [if_neg fun hsame => hother hsame.1]
        exact h.balanced s' hs'
      · rw [hget] at ht
        obtain rfl := Option.some.inj ht
        rw [hid, h.find hmem]
        dsimp only
        rw [if_pos ⟨rfl, hpcm⟩]
        -- what is pushed arrives behind the queue, and the drop is from the front of both
        have harrived : ((books s.id).pushed ++ pcm) = (books s.id).gone.map (·.1) ++ (s.queued ++ pcm) := by
          rw [h.balanced s hmem, List.append_assoc]
        change ((books s.id).push s pcm).pushed = _ ++ (s.push pcm).1.queued
        rw [hqueued]
        exact Account.leave_take (a := { books s.id with pushed := (books s.id).pushed ++ pcm }) harrived _ _

theorem Kept.route (h : Kept e books) (id : Option Id) (r : UInt8) :
    Kept (step e (.route id r)) (enter e books (.route id r)) := by
  change Kept (AudioEngine.route e id r).2 _
  rcases route_cases e id r with heq | ⟨i, hfind, heq⟩
  · rw [heq]
    refine ⟨h.names, h.sound, fun s hs => ?_⟩
    rw [h.find hs]
    dsimp only
    rw [heq, if_neg fun hset => Bool.false_ne_true hset.2]
    exact h.balanced s hs
  · rw [heq]
    refine ⟨?_, fun s' hs' => ?_, fun s' hs' => ?_⟩
    · rw [map_modify fun t _ => ?_]
      · exact h.names
      · rfl
    · rcases mem_of_modify hs' with hs' | ⟨t, -, rfl⟩
      · exact h.sound s' hs'
      · exact Stream.Sound.setRoute r
    · rcases modified h.names hfind hs' with ⟨hs', hother⟩ | ⟨s, hget, rfl, rfl⟩
      · rw [h.find hs']
        dsimp only
        rw [if_neg fun hsame => hother hsame.1]
        exact h.balanced s' hs'
      · have hmem := List.mem_of_getElem? hget
        change (enter e books (.route (some s.id) r) s.id).Balanced _
        rw [h.find hmem, Account.Balanced, queued_of_count (s := s.setRoute r) rfl]
        dsimp only
        rw [heq, if_pos ⟨rfl, rfl⟩]
        exact Account.leave_all (h.balanced s hmem) .discarded

theorem Kept.tick (h : Kept e books) : Kept (step e .tick) (enter e books .tick) := by
  obtain ⟨hids, hmixed, -⟩ :=
    mixStreams_spec h.sound { accum := fun _ => 0, active := false, stats := e.stats }
  refine ⟨?_, fun s' hs' => ?_, fun s' hs' => ?_⟩
  · change ((mixStreams e.streams _).1.map (·.id)).Nodup
    rw [hids]
    exact h.names
  · obtain ⟨s, -, hs⟩ := hmixed s' hs'
    exact hs.sound
  · obtain ⟨s, hmem, hs⟩ := hmixed s' hs'
    change (enter e books .tick s'.id).pushed = _ ++ s'.queued
    rw [hs.id, h.find hmem, hs.queued]
    dsimp only
    by_cases hmuted : s.route = muted
    · rw [if_pos hmuted, if_pos hmuted]
      exact Account.leave_all (h.balanced s hmem) .discarded
    · rw [if_neg hmuted, if_neg hmuted]
      exact Account.leave_take (h.balanced s hmem) _ _

theorem Kept.step (h : Kept e books) (event : Event) :
    Kept (AudioEngine.step e event) (enter e books event) := by
  cases event with
  | add id => exact h.add id
  | remove id => exact h.remove id
  | push id pcm => exact h.push id pcm
  | route id r => exact h.route id r
  | gain channel percent =>
      have hsame : (AudioEngine.gain e channel percent).streams = e.streams := by
        unfold AudioEngine.gain
        dsimp only
        split <;> rfl
      change Kept (AudioEngine.gain e channel percent) _
      refine ⟨hsame ▸ h.names, hsame ▸ h.sound, fun s hs => ?_⟩
      rw [hsame] at hs
      rw [h.find hs]
      exact h.balanced s hs
  | tick => exact h.tick

theorem kept_run (events : List Event) : Kept (run events) (accounts events) := by
  unfold run accounts
  have hstart : Kept .new fun _ => Account.new :=
    ⟨List.nodup_nil, fun s hs => absurd hs List.not_mem_nil, fun s hs => absurd hs List.not_mem_nil⟩
  generalize Engine.new = e at hstart ⊢
  generalize (fun _ => Account.new : Id → Account) = books at hstart ⊢
  induction events generalizing e books with
  | nil => exact hstart
  | cons event events ih => exact ih _ _ (hstart.step event)

/-- The block of a tick is, at each place, the sum of the streams' parts, turned down and saturated. -/
theorem stereo_eq (h : ∀ s ∈ e.streams, s.Sound) (hfew : e.streams.length ≤ 65535) (k : Nat) :
    (tick e).2.stereo k =
      clamp (((e.streams.map (·.part k)).sum * if k % 2 = 1 then e.gain.2 else e.gain.1).tdiv 100) := by
  have hsum := (mixStreams_spec h { accum := fun _ => 0, active := false, stats := e.stats }).2.2 k 0 rfl
  have hbound : (e.streams.map fun t : Stream => t.part k).sum.natAbs ≤ 2 ^ 15 * e.streams.length := by
    clear hsum hfew h
    induction e.streams with
    | nil => exact Nat.le_refl _
    | cons s streams ih =>
        rw [List.map_cons, List.sum_cons, List.length_cons]
        have hpart := natAbs_part_le s k
        have htriangle := Int.natAbs_add_le (s.part k) (streams.map fun t : Stream => t.part k).sum
        omega
  change clamp (((mixStreams e.streams _).2.accum k * _).tdiv 100) = _
  rw [hsum, Int.zero_add, Int.bmod_eq_of_le (by omega) (by omega)]

/-- In every run each queue holds at most its backlog, and what was pushed to a stream is what was
played, dropped or discarded and, behind it, what is queued; a tick puts out the sum of what it
takes, shaded where a stream starts or runs short. -/
theorem audio_queues (events : List Event) :
    (∀ s ∈ (run events).streams,
      s.count ≤ AUDIO_MAX_QUEUED ∧
      (accounts events s.id).pushed = (accounts events s.id).gone.map (·.1) ++ s.queued ∧
      (accounts events s.id).pushed.length =
        (accounts events s.id).count .played + (accounts events s.id).count .dropped +
          (accounts events s.id).count .discarded + s.count) ∧
    ((run events).streams.length ≤ 65535 → ∀ k, (tick (run events)).2.stereo k =
      clamp ((((run events).streams.map (·.part k)).sum *
        if k % 2 = 1 then (run events).gain.2 else (run events).gain.1).tdiv 100)) := by
  have hkept := kept_run events
  refine ⟨fun s hs => ⟨(hkept.sound s hs).count, hkept.balanced s hs, ?_⟩,
    fun hfew k => stereo_eq hkept.sound hfew k⟩
  have hbalanced : (accounts events s.id).pushed = _ := hkept.balanced s hs
  rw [hbalanced, List.length_append, List.length_map, Account.length_gone, length_queued]

/-- What the head of an unmuted queue would add to a place of the block. -/
def Stream.front (s : Stream) (k : Nat) : Int :=
  if s.route ≠ muted ∧ s.heard k then (s.queued[k / 2]?).elim 0 Int16.toInt else 0

/-- It does not always: the first sample after the cushion has filled is faded to nothing. -/
theorem stereo_ne_front : ¬ ∀ events k,
    (tick (run events)).2.stereo k = clamp ((run events).streams.map (·.front k)).sum := by
  intro h
  have hfirst := h [.add (some [97]), .push (some [97]) (List.replicate 1280 1000)] 0
  revert hfirst
  decide +kernel

end AudioEngine

end RustyRig
