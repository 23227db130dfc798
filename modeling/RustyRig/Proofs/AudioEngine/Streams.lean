/-
What a push and a tick do to one stream.

A push drops from the front of what is queued with it and keeps the rest; a tick takes a block from
the front, or waits, or empties a muted stream, and adds what it takes to the two sides, shaded at
the ends.
-/
import Mathlib.Algebra.Order.Ring.Int
import RustyRig.Rrclient.AudioEngine

namespace RustyRig

namespace AudioEngine

open Lib

variable {s : Stream} {m : Mix} {pcm : List Int16} {accum : Nat → Int} {take fade i k n : Nat}

/-- What is queued, the oldest first. -/
def Stream.queued (s : Stream) : List Int16 := Ring.contents AUDIO_CAPACITY s.samples s.head s.count

/-- What every call keeps of a stream. -/
structure Stream.Sound (s : Stream) : Prop where
  head : s.head < AUDIO_CAPACITY
  count : s.count ≤ AUDIO_MAX_QUEUED
  fade : s.fadeIn ≤ AUDIO_FADE_IN

theorem capacity_pos : 0 < AUDIO_CAPACITY := by decide

theorem sound_new (id : Id) : (Stream.new id).Sound where
  head := capacity_pos
  count := Nat.zero_le _
  fade := Nat.zero_le _

theorem queued_of_count (h : s.count = 0) : s.queued = [] := by
  refine List.eq_nil_of_length_eq_zero ?_
  rw [Stream.queued, Ring.length_contents, h]

theorem length_queued (s : Stream) : s.queued.length = s.count := Ring.length_contents ..

theorem Stream.Sound.setRoute (r : UInt8) : (s.setRoute r).Sound where
  head := capacity_pos
  count := Nat.zero_le _
  fade := Nat.zero_le _

/-! ### Pushing -/

/-- Copying samples behind the tail queues them. -/
theorem queued_store (hhead : s.head < AUDIO_CAPACITY) (hroom : s.count + pcm.length ≤ AUDIO_MAX_QUEUED) :
    ({ s with
        samples := Ring.store AUDIO_CAPACITY s.samples ((s.head + s.count) % AUDIO_CAPACITY) pcm
        count := s.count + pcm.length } : Stream).queued = s.queued ++ pcm := by
  have hcap : AUDIO_MAX_QUEUED ≤ AUDIO_CAPACITY := by decide
  exact Ring.contents_store hhead (hroom.trans hcap)

/-- The drop takes the stream down to where the rest of the samples fits. -/
theorem push_spec (h : s.Sound) (pcm : List Int16) :
    (s.push pcm).1.Sound ∧ (s.push pcm).1.id = s.id ∧
      (s.push pcm).2 = s.count + pcm.length - AUDIO_MAX_QUEUED ∧
      (s.push pcm).1.queued = (s.queued ++ pcm).drop (s.push pcm).2 := by
  have hcount := h.count
  have hlength := length_queued s
  unfold Stream.push
  by_cases hlong : AUDIO_MAX_QUEUED ≤ pcm.length
  · -- the whole queue goes, and the front of the samples
    rw [if_pos hlong]
    have hkept : 0 + (pcm.drop (pcm.length - AUDIO_MAX_QUEUED)).length ≤ AUDIO_MAX_QUEUED := by
      rw [List.length_drop]
      omega
    have hall : s.count + pcm.length - AUDIO_MAX_QUEUED = s.queued.length + (pcm.length - AUDIO_MAX_QUEUED) := by
      omega
    refine ⟨⟨capacity_pos, hkept, h.fade⟩, rfl, rfl, ?_⟩
    refine (queued_store (s := { s with head := 0, count := 0 }) capacity_pos hkept).trans ?_
    dsimp only
    rw [hall, List.drop_length_add_append, queued_of_count rfl, List.nil_append]
  · rw [if_neg hlong]
    by_cases hover : AUDIO_MAX_QUEUED < s.count + pcm.length
    · rw [if_pos hover]
      have hdrop : s.count + pcm.length - AUDIO_MAX_QUEUED ≤ s.count := by omega
      have hmod : (s.head + (s.count + pcm.length - AUDIO_MAX_QUEUED)) % AUDIO_CAPACITY < AUDIO_CAPACITY :=
        Nat.mod_lt _ capacity_pos
      have hkept : s.count - (s.count + pcm.length - AUDIO_MAX_QUEUED) + pcm.length ≤ AUDIO_MAX_QUEUED := by omega
      refine ⟨⟨hmod, hkept, h.fade⟩, rfl, rfl, ?_⟩
      refine (queued_store (s := { s with
        head := (s.head + (s.count + pcm.length - AUDIO_MAX_QUEUED)) % AUDIO_CAPACITY
        count := s.count - (s.count + pcm.length - AUDIO_MAX_QUEUED) }) hmod hkept).trans ?_
      dsimp only
      rw [List.drop_append_of_le_length (by omega), Stream.queued, Ring.contents_drop hdrop]
      rfl
    · rw [if_neg hover]
      have hkept : s.count + pcm.length ≤ AUDIO_MAX_QUEUED := by omega
      have hnone : s.count + pcm.length - AUDIO_MAX_QUEUED = 0 := by omega
      refine ⟨⟨h.head, hkept, h.fade⟩, rfl, hnone.symm, ?_⟩
      exact queued_store h.head hkept

/-! ### The sound of a tick -/

/-- How many samples a tick takes from the front: a block, of a stream that has its cushion. -/
def Stream.taken (s : Stream) : Nat :=
  if s.route = muted then 0
  else if s.primed = true ∨ AUDIO_PREFILL ≤ s.count then min s.count AUDIO_BLOCK
  else 0

/-- Whether the stream sounds on the side. -/
def Stream.heard (s : Stream) (k : Nat) : Prop := if k % 2 = 1 then s.route ≠ left else s.route ≠ right

instance (s : Stream) (k : Nat) : Decidable (s.heard k) := by
  unfold Stream.heard
  infer_instance

/-- A sample turned down to a fraction. -/
def shade (x : Int) (a b : Nat) : Int := (x * a).tdiv b

/-- How a taken sample sounds: the first of a stream just primed fade in, and the last of a short
block fade out. -/
def delivered (x : Int) (take fade i : Nat) : Int :=
  let x := if i < fade then shade x (AUDIO_FADE_IN - (fade - i)) AUDIO_FADE_IN else x
  if take < AUDIO_BLOCK ∧ 1 < take ∧ take - min take AUDIO_FADE_IN ≤ i then
    shade x (take - i - 1) (min take AUDIO_FADE_IN)
  else x

/-- What a stream adds to a place of the block. -/
def Stream.part (s : Stream) (k : Nat) : Int :=
  if k / 2 < s.taken ∧ s.heard k then
    delivered ((s.queued[k / 2]?).elim 0 Int16.toInt) s.taken (if s.primed then s.fadeIn else AUDIO_FADE_IN) (k / 2)
  else 0

theorem taken_le (s : Stream) : s.taken ≤ s.count := by
  unfold Stream.taken
  split
  · exact Nat.zero_le _
  · split
    · exact Nat.min_le_left _ _
    · exact Nat.zero_le _

theorem natAbs_shade_le (x : Int) {a b : Nat} (h : a ≤ b) : (shade x a b).natAbs ≤ x.natAbs := by
  rw [shade, Int.natAbs_tdiv, Int.natAbs_mul, Int.natAbs_natCast, Int.natAbs_natCast]
  refine Nat.div_le_of_le_mul ?_
  rw [Nat.mul_comm b]
  exact Nat.mul_le_mul_left _ h

theorem natAbs_delivered_le (x : Int) (take fade i : Nat) : (delivered x take fade i).natAbs ≤ x.natAbs := by
  have hin : (if i < fade then shade x (AUDIO_FADE_IN - (fade - i)) AUDIO_FADE_IN else x).natAbs ≤ x.natAbs := by
    split
    · exact natAbs_shade_le x (Nat.sub_le _ _)
    · exact Nat.le_refl _
  unfold delivered
  dsimp only
  split
  · rename_i htail
    exact (natAbs_shade_le _ (by omega)).trans hin
  · exact hin

theorem natAbs_toInt_le (x : Int16) : x.toInt.natAbs ≤ 2 ^ 15 := by
  have hlow := x.le_toInt
  have hhigh := x.toInt_lt
  omega

/-- No part is louder than a sample. -/
theorem natAbs_part_le (s : Stream) (k : Nat) : (s.part k).natAbs ≤ 2 ^ 15 := by
  unfold Stream.part
  split
  · refine (natAbs_delivered_le _ _ _ _).trans ?_
    cases s.queued[k / 2]? with
    | none => decide
    | some x => exact natAbs_toInt_le x
  · decide

/-! ### Mixing one stream -/

/-- Adding at a place, or not, as seen from any place. -/
theorem accumulate_apply (accum : Nat → Int) (p : Prop) [Decidable p] (place : Nat) (x : Int) (k : Nat) :
    (if p then accumulate accum place x else accum) k =
      if k = place ∧ p then (accum k + x).bmod (2 ^ 32) else accum k := by
  by_cases hp : p
  · rw [if_pos hp, accumulate]
    by_cases hk : k = place
    · rw [if_pos ⟨hk, hp⟩, hk, Function.update_self]
    · rw [if_neg fun h => hk h.1, Function.update_of_ne hk]
  · rw [if_neg hp, if_neg fun h => hp h.2]

/-- A sample goes to the two places of its index, where the stream is heard. -/
theorem mixSample_apply (hfade : fade ≤ AUDIO_FADE_IN) (hi : i < take) (k : Nat) :
    (mixSample s take (accum, fade - i) i).1 k =
      if k / 2 = i ∧ s.heard k then
        (accum k + delivered (s.samples ((s.head + i) % AUDIO_CAPACITY)).toInt take fade i).bmod (2 ^ 32)
      else accum k := by
  generalize hx : (s.samples ((s.head + i) % AUDIO_CAPACITY)).toInt = x
  have hin : (if fade - i ≠ 0 then ((x * ((AUDIO_FADE_IN : Int) - (fade - i : Nat))).tdiv AUDIO_FADE_IN, fade - i - 1)
      else (x, fade - i)).1 = if i < fade then shade x (AUDIO_FADE_IN - (fade - i)) AUDIO_FADE_IN else x := by
    have hcast : ((AUDIO_FADE_IN : Int) - (fade - i : Nat)) = (AUDIO_FADE_IN - (fade - i) : Nat) := by omega
    rw [hcast]
    by_cases hfading : i < fade
    · rw [if_pos (by omega), if_pos hfading, shade]
    · rw [if_neg (by omega), if_neg hfading]
  have hout : ∀ y : Int, (y * ((take : Int) - i - 1)).tdiv (min take AUDIO_FADE_IN : Nat) =
      shade y (take - i - 1) (min take AUDIO_FADE_IN) := by
    intro y
    have hcast : ((take : Int) - i - 1) = ((take - i - 1 : Nat) : Int) := by omega
    rw [shade, hcast]
  unfold mixSample
  dsimp only
  rw [hx, hin, hout]
  change (if s.route ≠ left then
      accumulate (if s.route ≠ right then accumulate accum (2 * i) (delivered x take fade i) else accum) (2 * i + 1)
        (delivered x take fade i)
    else if s.route ≠ right then accumulate accum (2 * i) (delivered x take fade i) else accum) k = _
  rw [accumulate_apply, accumulate_apply]
  by_cases hside : k % 2 = 1
  · -- an odd place is the right side's
    have hheard : s.heard k ↔ s.route ≠ left := by rw [Stream.heard, if_pos hside]
    have hplace : k / 2 = i ↔ k = 2 * i + 1 := by omega
    have hother : ¬(k = 2 * i ∧ s.route ≠ right) := fun h => by omega
    simp only [if_neg hother, hheard, hplace]
  · have hheard : s.heard k ↔ s.route ≠ right := by rw [Stream.heard, if_neg hside]
    have hplace : k / 2 = i ↔ k = 2 * i := by omega
    have hother : ¬(k = 2 * i + 1 ∧ s.route ≠ left) := fun h => by omega
    simp only [if_neg hother, hheard, hplace]

theorem mixSample_fade (s : Stream) (take fade : Nat) (accum : Nat → Int) (i : Nat) :
    (mixSample s take (accum, fade) i).2 = fade - 1 := by
  unfold mixSample
  dsimp only
  split
  · rfl
  · omega

/-- The loop over the samples has added those so far. -/
theorem mixSamples_spec (hfade : fade ≤ AUDIO_FADE_IN) (hn : n ≤ take) :
    ((List.range n).foldl (mixSample s take) (accum, fade)).2 = fade - n ∧
    ∀ k, ((List.range n).foldl (mixSample s take) (accum, fade)).1 k =
      if k / 2 < n ∧ s.heard k then
        (accum k + delivered (s.samples ((s.head + k / 2) % AUDIO_CAPACITY)).toInt take fade (k / 2)).bmod (2 ^ 32)
      else accum k := by
  induction n with
  | zero =>
      refine ⟨rfl, fun k => ?_⟩
      rw [if_neg fun h => Nat.not_lt_zero _ h.1]
      rfl
  | succ n ih =>
      obtain ⟨hleft, hsum⟩ := ih (by omega)
      rw [List.range_succ, List.foldl_append, List.foldl_cons, List.foldl_nil]
      generalize hloop : (List.range n).foldl (mixSample s take) (accum, fade) = loop at hleft hsum
      obtain ⟨sofar, faded⟩ := loop
      subst hleft
      dsimp only at hsum
      refine ⟨?_, fun k => ?_⟩
      · rw [mixSample_fade]
        omega
      · rw [mixSample_apply hfade (by omega)]
        by_cases hk : k / 2 = n ∧ s.heard k
        · rw [if_pos hk, if_pos ⟨by omega, hk.2⟩, hsum, if_neg fun h => by omega, hk.1]
        · rw [if_neg hk, hsum]
          by_cases hbefore : k / 2 < n ∧ s.heard k
          · rw [if_pos hbefore, if_pos ⟨by omega, hbefore.2⟩]
          · rw [if_neg hbefore, if_neg fun h => ?_]
            rcases Nat.lt_succ_iff_lt_or_eq.mp h.1 with hlt | heq
            · exact hbefore ⟨hlt, h.2⟩
            · exact hk ⟨heq, h.2⟩

/-- What a tick leaves of a stream. -/
structure Mixed (s s' : Stream) : Prop where
  sound : s'.Sound
  id : s'.id = s.id
  queued : s'.queued = if s.route = muted then [] else s.queued.drop s.taken

/-- A tick takes from the stream what it adds to the sum. -/
theorem mixStream_spec (h : s.Sound) (m : Mix) :
    Mixed s (mixStream s m).1 ∧
    ∀ k, (mixStream s m).2.accum k =
      if k / 2 < s.taken ∧ s.heard k then (m.accum k + s.part k).bmod (2 ^ 32) else m.accum k := by
  have hcount := h.count
  unfold mixStream
  by_cases hmuted : s.route = muted
  · rw [if_pos hmuted]
    have hnone : s.taken = 0 := if_pos hmuted
    refine ⟨⟨⟨capacity_pos, Nat.zero_le _, h.fade⟩, rfl, ?_⟩, fun k => ?_⟩
    · rw [if_pos hmuted]
      exact queued_of_count rfl
    · rw [if_neg fun hk => by omega]
  · rw [if_neg hmuted]
    dsimp only
    by_cases hwaits : (!s.primed && s.count < AUDIO_PREFILL) = true
    · -- without its cushion a stream waits
      rw [if_pos hwaits]
      simp only [Bool.and_eq_true, Bool.not_eq_true', decide_eq_true_eq] at hwaits
      have hnone : s.taken = 0 := by
        rw [Stream.taken, if_neg hmuted, if_neg]
        rintro (hprimed | hcushion)
        · rw [hwaits.1] at hprimed
          cases hprimed
        · exact absurd hwaits.2 (Nat.not_lt.mpr hcushion)
      have hrest : s.queued = if s.route = muted then [] else s.queued.drop s.taken := by
        rw [if_neg hmuted, hnone, List.drop_zero]
      have hidle : ∀ k, ¬(k / 2 < s.taken ∧ s.heard k) := fun k hk => by omega
      split
      · exact ⟨⟨⟨h.head, h.count, h.fade⟩, rfl, hrest⟩, fun k => (if_neg (hidle k)).symm⟩
      · exact ⟨⟨h, rfl, hrest⟩, fun k => (if_neg (hidle k)).symm⟩
    · rw [if_neg hwaits]
      have hready : s.primed = true ∨ AUDIO_PREFILL ≤ s.count := by
        rcases hprimed : s.primed with _ | _
        · refine Or.inr (Nat.le_of_not_lt fun hlt => hwaits ?_)
          rw [hprimed, decide_eq_true hlt]
          rfl
        · exact Or.inl rfl
      have htaken : s.taken = min s.count AUDIO_BLOCK := by rw [Stream.taken, if_neg hmuted, if_pos hready]
      have hle := taken_le s
      rw [htaken] at hle
      generalize hfade : (if s.primed then s.fadeIn else AUDIO_FADE_IN) = fade
      generalize ht : (if s.primed then s
        else { s with primed := true, everPrimed := true, starved := false, fadeIn := AUDIO_FADE_IN }) = t
      have hid : t.id = s.id := by rw [← ht]; split <;> rfl
      have hroute : t.route = s.route := by rw [← ht]; split <;> rfl
      have hsamples : t.samples = s.samples := by rw [← ht]; split <;> rfl
      have hhead : t.head = s.head := by rw [← ht]; split <;> rfl
      have hcount : t.count = s.count := by rw [← ht]; split <;> rfl
      have hsame : t.fadeIn = fade := by rw [← ht, ← hfade]; split <;> rfl
      have hbound : fade ≤ AUDIO_FADE_IN := by
        rw [← hfade]
        split
        · exact h.fade
        · exact Nat.le_refl _
      rw [hcount, ← htaken, hhead, hsame]
      obtain ⟨hfaded, hsum⟩ := mixSamples_spec (s := t) hbound (Nat.le_refl s.taken)
      refine ⟨⟨⟨Nat.mod_lt _ capacity_pos, (Nat.sub_le _ _).trans h.count, ?_⟩, hid, ?_⟩, fun k => ?_⟩
      · exact hfaded.trans_le ((Nat.sub_le _ _).trans hbound)
      · rw [if_neg hmuted]
        change Ring.contents AUDIO_CAPACITY t.samples ((s.head + s.taken) % AUDIO_CAPACITY) (s.count - s.taken) = _
        rw [hsamples]
        exact Ring.contents_drop (taken_le s)
      · refine (hsum k).trans ?_
        have hheard : t.heard k ↔ s.heard k := by rw [Stream.heard, Stream.heard, hroute]
        by_cases hk : k / 2 < s.taken ∧ s.heard k
        · have hcell : s.queued[k / 2]? = some (s.samples ((s.head + k / 2) % AUDIO_CAPACITY)) :=
            Ring.getElem?_contents (Nat.lt_of_lt_of_le hk.1 (taken_le s))
          rw [if_pos ⟨hk.1, hheard.mpr hk.2⟩, if_pos hk, Stream.part, if_pos hk, hcell, hfade, hsamples, hhead]
          rfl
        · rw [if_neg fun h => hk ⟨h.1, hheard.mp h.2⟩, if_neg hk]

end AudioEngine

end RustyRig
