/-
The driver of a clock generator keeps the rule of its record.

Between two calls `Synced` holds: the record is careful, and while the driver is ready its shadow
is the chip's output-disable register and every output that is on is tuned.  Every call keeps it
whatever the bus answers (`Synced.step`); each is a row of accesses, described one by one.
-/
import RustyRig.Proofs.Si5351.Record

namespace RustyRig

namespace Si5351

open Lib Lib.Attempt

variable {bus : Bus} {found : Nat → UInt8} {log : List Access} {w : World} {c : Config} {hz : UInt32}
  {k o : Nat} {v mask : UInt8}

/-! ### Single accesses of the driver -/

/-- A predicate that more reads do not change. -/
def Readable (P : World → Prop) : Prop :=
  ∀ w reg value, P w → P { w with log := .read reg value :: w.log }

theorem poll_keeps {P : World → Prop} (h : Readable P) (mask : UInt8) :
    ∀ n w, P w → P (poll bus mask n w).2
  | 0, _, hw => hw
  | n + 1, w, hw => by
      have hread := h w 0 (bus.read w.log 0) hw
      rw [poll]
      split
      · rename_i w' heq
        obtain ⟨-, rfl⟩ := Prod.mk.inj heq
        exact hread
      · rename_i status w' heq
        obtain ⟨-, rfl⟩ := Prod.mk.inj heq
        split
        · exact hread
        · exact poll_keeps h mask n _ hread

theorem waitStatus_triple {P : World → Prop} (h : Readable P) (mask : UInt8) :
    Triple P (waitStatus bus mask) P P :=
  triple_of_keeps (poll_keeps h mask 200)

/-- A write that succeeds is complete; one that fails may have reached the chip in part. -/
theorem write_triple {P Q R : World → Prop} {reg : Nat} {bytes : List UInt8}
    (hQ : ∀ w, P w → Q { w with log := .wrote reg bytes none :: w.log })
    (hR : ∀ w n, P w → R { w with log := .wrote reg bytes (some n) :: w.log }) :
    Triple P (write bus reg bytes) Q R := by
  constructor
  · intro w hw hok
    have hnone : bus.write w.log reg bytes = none := Option.isNone_iff_eq_none.mp hok
    rw [write, hnone]
    exact hQ w hw
  · intro w hw hfailed
    obtain ⟨n, hn⟩ : ∃ n, bus.write w.log reg bytes = some n := by
      cases hwrite : bus.write w.log reg bytes with
      | none =>
          rw [write, hwrite] at hfailed
          exact absurd hfailed.symm Bool.false_ne_true
      | some n => exact ⟨n, rfl⟩
    rw [write, hn]
    exact hR w n hw

theorem spreadOff_triple {P Q R : World → Prop} (h : Readable P) (hfailed : ∀ w, P w → R w)
    (hwrite : ∀ v, Triple P (byte bus 149 v) Q R) : Triple P (spreadOff bus) Q R := by
  constructor
  · intro w hw hok
    have hread := h w 149 (bus.read w.log 149) hw
    rw [spreadOff] at hok ⊢
    split
    · rename_i w' heq
      rw [heq] at hok
      exact absurd hok Bool.false_ne_true
    · rename_i spread w' heq
      rw [heq] at hok
      obtain ⟨-, rfl⟩ := Prod.mk.inj heq
      exact (hwrite _).success _ hread hok
  · intro w hw hok
    have hread := h w 149 (bus.read w.log 149) hw
    rw [spreadOff] at hok ⊢
    split
    · rename_i w' heq
      obtain ⟨-, rfl⟩ := Prod.mk.inj heq
      exact hfailed _ hread
    · rename_i spread w' heq
      rw [heq] at hok
      obtain ⟨-, rfl⟩ := Prod.mk.inj heq
      exact (hwrite _).failure _ hread hok

/-! ### Starting -/

/-- A start with this configuration is under way. -/
structure Starting (found : Nat → UInt8) (c : Config) (w : World) : Prop where
  lawful : Lawful (Careful found) w.log
  begun : begunWith w.log = some c
  clock : w.clock = { config := c, attached := true, disabled := 0xff, ready := false }

/-- It has turned every output off. -/
structure Dark (found : Nat → UInt8) (c : Config) (w : World) : Prop extends Starting found c w where
  off : device found w.log 3 = 0xff

theorem readable_starting : Readable (Starting found c) :=
  fun _ _ _ h => ⟨h.lawful.cons (careful_of_not_aims fun _ => id), h.begun, h.clock⟩

theorem readable_dark : Readable (Dark found c) :=
  fun w reg value h => { readable_starting w reg value h.toStarting with off := h.off }

theorem careful_all_off {failed : Option Nat} : Careful found log (.wrote 3 [0xff] failed) :=
  careful_disable fun _ hk hon => absurd hon (all_off hk)

theorem disable_starting : Triple (Starting found c) (byte bus 3 0xff) (Dark found c)
    (fun w => Lawful (Careful found) w.log) := by
  refine write_triple (fun w h => ?_) (fun w n h => h.lawful.cons careful_all_off)
  exact
    { lawful := h.lawful.cons careful_all_off
      begun := h.begun
      clock := h.clock
      off := device_wrote (r := 0) rfl }

/-- With every output off any register above may be written. -/
theorem write_dark {reg : Nat} (bytes : List UInt8) (hreg : 3 < reg) :
    Triple (Dark found c) (write bus reg bytes) (Dark found c) (fun w => Lawful (Careful found) w.log) := by
  have hcareful : ∀ w failed, Dark found c w → Careful found w.log (.wrote reg bytes failed) := by
    intro w failed h
    refine careful_above hreg fun k r hk _ _ => ?_
    rw [h.off]
    exact all_off hk
  refine write_triple (fun w h => ?_) (fun w n h => h.lawful.cons (hcareful w _ h))
  have hout : ¬ (Access.wrote reg bytes none).aims 3 := fun haims => absurd haims.1 (by omega)
  exact
    { lawful := h.lawful.cons (hcareful w _ h)
      begun := h.begun
      clock := h.clock
      off := (device_cons hout).trans h.off }

theorem startup_triple (c' : Config) (p : Plan) : Triple (Starting found c) (sequence (startup bus c' p)) (Dark found c)
    (fun w => Lawful (Careful found) w.log) := by
  have hwait : Triple (Dark found c) (waitStatus bus 0xa8) (Dark found c) (fun w => Lawful (Careful found) w.log) :=
    (waitStatus_triple readable_dark 0xa8).weaken fun _ h => h.lawful
  refine triple_cons ((waitStatus_triple readable_starting 0x80).weaken fun _ h => h.lawful) ?_
  refine triple_cons disable_starting ?_
  refine triple_cons (write_dark _ (by decide)) ?_
  refine triple_cons (write_dark _ (by decide)) ?_
  refine triple_cons (write_dark _ (by decide)) ?_
  refine triple_cons (spreadOff_triple readable_dark (fun _ h => h.lawful) fun _ => write_dark _ (by decide)) ?_
  refine triple_cons (write_dark _ (by decide)) ?_
  refine triple_cons (write_dark _ (by decide)) ?_
  refine triple_cons (write_dark _ (by decide)) ?_
  refine triple_cons (write_dark _ (by decide)) ?_
  refine triple_cons (write_dark _ (by decide)) ?_
  exact triple_cons hwait triple_nil

/-- What holds of the driver between two calls. -/
structure Synced (found : Nat → UInt8) (w : World) : Prop where
  lawful : Lawful (Careful found) w.log
  shadow : w.clock.ready = true → device found w.log 3 = w.clock.disabled
  begun : w.clock.ready = true → begunWith w.log = some w.clock.config
  tuned : w.clock.ready = true → ∀ k, k < 3 → w.clock.disabled &&& bit k = 0 → Tuned w.log k

/-- A driver that is not ready promises nothing but a careful record. -/
theorem Synced.of_not_ready (h : Lawful (Careful found) w.log) (hready : w.clock.ready = false) : Synced found w := by
  have hfalse : w.clock.ready ≠ true := by
    rw [hready]
    exact Bool.false_ne_true
  exact ⟨h, fun h => absurd h hfalse, fun h => absurd h hfalse, fun h => absurd h hfalse⟩

theorem Synced.fault (h : Lawful (Careful found) w.log) : Synced found (fault bus w).2 :=
  .of_not_ready (h.cons careful_all_off) rfl

/-- What follows a part of a call: the rest of it, or giving up. -/
theorem match_fault {P Q R S : World → Prop} {f : Attempt World} {g : World → Bool × World}
    (h : Triple P f Q R) (hP : P w) (hQ : ∀ w, Q w → S (g w).2) (hR : ∀ w, R w → S (fault bus w).2) :
    S (match f w with | (true, w) => g w | (false, w) => fault bus w).2 := by
  split
  · rename_i w' heq
    have hw := h.success w hP (congrArg Prod.fst heq)
    rw [heq] at hw
    exact hQ w' hw
  · rename_i w' heq
    have hw := h.failure w hP (congrArg Prod.fst heq)
    rw [heq] at hw
    exact hR w' hw

theorem synced_match {P Q : World → Prop} {f : Attempt World} {g : World → Bool × World}
    (h : Triple P f Q (fun w => Lawful (Careful found) w.log)) (hP : P w)
    (hQ : ∀ w, Q w → Synced found (g w).2) :
    Synced found (match f w with | (true, w) => g w | (false, w) => fault bus w).2 :=
  match_fault h hP hQ fun _ => Synced.fault

theorem Synced.start (h : Synced found w) (given : Bool) (c : Config) : Synced found (start bus given c w).2 := by
  unfold Si5351.start
  split
  · rename_i p hplan
    have hstarting : Starting found c
        { clock := { config := c, attached := true, disabled := 0xff, ready := false }, log := .begun c :: w.log } :=
      ⟨h.lawful.cons (careful_of_not_aims fun _ => id), rfl, rfl⟩
    refine synced_match (startup_triple c p.value) hstarting fun w' hdark => ?_
    refine ⟨hdark.lawful, fun _ => ?_, fun _ => ?_, fun _ k hk hon => ?_⟩
    · change device found w'.log 3 = w'.clock.disabled
      rw [hdark.off, hdark.clock]
    · change begunWith w'.log = some w'.clock.config
      rw [hdark.begun, hdark.clock]
    · change w'.clock.disabled &&& bit k = 0 at hon
      rw [hdark.clock] at hon
      exact absurd hon (all_off hk)
  · exact h

theorem Synced.stop (h : Synced found w) : Synced found (stop bus w).2 := by
  unfold Si5351.stop
  split
  · exact h
  · have hdisable : Triple (fun w => Lawful (Careful found) w.log) (byte bus 3 0xff)
        (fun w => Lawful (Careful found) w.log) (fun w => Lawful (Careful found) w.log) :=
      write_triple (fun _ hw => hw.cons careful_all_off) (fun _ _ hw => hw.cons careful_all_off)
    exact synced_match hdisable h.lawful fun w' hw' => .of_not_ready hw' rfl

/-! ### Tuning -/

/-- A request for output `o` is under way; the mask leaves tuned outputs on. -/
structure Requested (clock : Clock) (o : Nat) (hz : UInt32) (mask : UInt8) (found : Nat → UInt8)
    (w : World) : Prop where
  lawful : Lawful (Careful found) w.log
  begun : begunWith w.log = some clock.config
  asked : lastAsked w.log o = some hz
  clock : w.clock = clock
  others : ∀ k, k < 3 → k ≠ o → mask &&& bit k = 0 → Tuned w.log k

/-- The mask has reached the chip. -/
structure Tuning (clock : Clock) (o : Nat) (hz : UInt32) (mask : UInt8) (found : Nat → UInt8)
    (w : World) : Prop extends Requested clock o hz mask found w where
  off : device found w.log 3 = mask

variable {clock : Clock} {p : Plan}

theorem readable_tuning : Readable (Tuning clock o hz mask found) := by
  intro w reg value h
  refine ⟨⟨h.lawful.cons (careful_of_not_aims fun _ => id), h.begun, h.asked, h.clock, ?_⟩, h.off⟩
  intro k hk hne hon
  exact (h.others k hk hne hon).cons (fun _ => Access.noConfusion) (fun _ => Access.noConfusion) fun _ _ => id

/-- A write to the output's own registers disturbs nothing else. -/
theorem Tuning.wrote {reg : Nat} {bytes : List UInt8} {failed : Option Nat} (h : Tuning clock o hz mask found w)
    (hreg : 3 < reg) (hmask : mask &&& bit o ≠ 0)
    (howns : ∀ k r, k < 3 → owns k r → reg ≤ r ∧ r < reg + bytes.length → k = o) :
    Tuning clock o hz mask found { w with log := .wrote reg bytes failed :: w.log } := by
  have hcareful : Careful found w.log (.wrote reg bytes failed) := by
    refine careful_above hreg fun k r hk hr haims => ?_
    rw [h.off, howns k r hk hr haims]
    exact hmask
  have hout : ¬ (Access.wrote reg bytes failed).aims 3 := fun haims => absurd haims.1 (by omega)
  refine ⟨⟨h.lawful.cons hcareful, h.begun, h.asked, h.clock, ?_⟩, (device_cons hout).trans h.off⟩
  intro k hk hne hon
  refine (h.others k hk hne hon).cons (fun _ => Access.noConfusion) (fun _ => Access.noConfusion) ?_
  intro r hr haims
  exact hne (howns k r hk hr haims)

/-- The multisynth's registers hold their part of the plan. -/
def Synthesized (found : Nat → UInt8) (clock : Clock) (o : Nat) (hz : UInt32) (mask : UInt8) (p : Plan)
    (w : World) : Prop :=
  Tuning clock o hz mask found w ∧ ∀ i (hi : i < 8), fresh w.log (42 + 8 * o + i) = some p.multisynth[i]

/-- And the control register holds its. -/
def Prepared (found : Nat → UInt8) (clock : Clock) (o : Nat) (hz : UInt32) (mask : UInt8) (p : Plan)
    (w : World) : Prop :=
  Synthesized found clock o hz mask p w ∧ fresh w.log (16 + o) = some p.control

theorem readable_prepared : Readable (Prepared found clock o hz mask p) :=
  fun w reg value h => ⟨⟨readable_tuning w reg value h.1.1, h.1.2⟩, h.2⟩

/-- The chip shows this value of the output-disable register, and every output it turns on is
tuned. -/
structure Shown (found : Nat → UInt8) (clock : Clock) (v : UInt8) (w : World) : Prop where
  lawful : Lawful (Careful found) w.log
  begun : begunWith w.log = some clock.config
  clock : w.clock = clock
  shown : device found w.log 3 = v
  tuned : ∀ k, k < 3 → v &&& bit k = 0 → Tuned w.log k

/-- Turning on outputs that are tuned. -/
theorem disable_shown {P : World → Prop} (hlawful : ∀ w, P w → Lawful (Careful found) w.log)
    (hbegun : ∀ w, P w → begunWith w.log = some clock.config) (hclock : ∀ w, P w → w.clock = clock)
    (htuned : ∀ w, P w → ∀ k, k < 3 → v &&& bit k = 0 → Tuned w.log k) :
    Triple P (byte bus 3 v) (Shown found clock v) (fun w => Lawful (Careful found) w.log) := by
  have hcareful : ∀ w failed, P w → Careful found w.log (.wrote 3 [v] failed) :=
    fun w _ h => careful_disable (htuned w h)
  refine write_triple (fun w h => ?_) (fun w n h => (hlawful w h).cons (hcareful w _ h))
  refine ⟨(hlawful w h).cons (hcareful w _ h), hbegun w h, hclock w h,
    device_wrote (r := 0) rfl, ?_⟩
  intro k hk hon
  refine (htuned w h k hk hon).cons (fun _ => Access.noConfusion) (fun _ => Access.noConfusion) ?_
  exact fun r hr haims => not_aims_of_owns hr haims

theorem tuneUp_triple {q : Checked Plan} (ho : o < 3) (hmask : mask &&& bit o ≠ 0)
    (hplan : plan clock.config hz = some q) :
    Triple (Tuning clock o hz mask found) (sequence (tuneUp bus o q.value mask))
      (Shown found clock (mask &&& ~~~bit o)) (fun w => Lawful (Careful found) w.log) := by
  have hsynth : Triple (Tuning clock o hz mask found) (write bus (42 + 8 * o) q.value.multisynth.toList)
      (Synthesized found clock o hz mask q.value) (fun w => Lawful (Careful found) w.log) := by
    have howns : ∀ k r, k < 3 → owns k r →
        42 + 8 * o ≤ r ∧ r < 42 + 8 * o + q.value.multisynth.toList.length → k = o := by
      intro k r hk hr haims
      rw [Vector.length_toList] at haims
      unfold owns at hr
      omega
    refine write_triple (fun w h => ⟨h.wrote (by omega) hmask howns, fun i hi => ?_⟩)
      (fun w n h => (h.wrote (by omega) hmask howns).lawful)
    refine fresh_wrote ?_
    rw [List.getElem?_eq_getElem (by rw [Vector.length_toList]; exact hi), Vector.getElem_toList]
  have hcontrol : Triple (Synthesized found clock o hz mask q.value) (byte bus (16 + o) q.value.control)
      (Prepared found clock o hz mask q.value) (fun w => Lawful (Careful found) w.log) := by
    have howns : ∀ k r, k < 3 → owns k r → 16 + o ≤ r ∧ r < 16 + o + [q.value.control].length → k = o := by
      intro k r hk hr haims
      rw [List.length_singleton] at haims
      unfold owns at hr
      omega
    refine write_triple (fun w h => ⟨⟨h.1.wrote (by omega) hmask howns, fun i hi => ?_⟩, ?_⟩)
      (fun w n h => (h.1.wrote (by omega) hmask howns).lawful)
    · have hout : ¬ (Access.wrote (16 + o) [q.value.control] none).aims (42 + 8 * o + i) := by
        intro haims
        have haims' : 16 + o ≤ 42 + 8 * o + i ∧ 42 + 8 * o + i < 16 + o + 1 := haims
        omega
      rw [fresh_cons (fun _ => Access.noConfusion) hout]
      exact h.2 i hi
    · exact fresh_wrote (r := 0) rfl
  have htuned : ∀ w, Prepared found clock o hz mask q.value w →
      ∀ k, k < 3 → (mask &&& ~~~bit o) &&& bit k = 0 → Tuned w.log k := by
    intro w h k hk hon
    by_cases hko : k = o
    · rw [hko]
      exact ⟨clock.config, hz, q, h.1.1.begun, h.1.1.asked, hplan, h.1.2, h.2⟩
    · exact h.1.1.others k hk hko (((and_not_bit_and hk ho).mp hon).resolve_left hko)
  refine triple_cons hsynth (triple_cons hcontrol ?_)
  refine triple_cons ((waitStatus_triple readable_prepared 0xa8).weaken fun _ h => h.1.1.lawful) ?_
  exact triple_cons (disable_shown (fun _ h => h.1.1.lawful) (fun _ h => h.1.1.begun)
    (fun _ h => h.1.1.clock) htuned) triple_nil

theorem Shown.synced {clock' : Clock} (h : Shown found clock v w)
    (hclock : clock' = { clock with disabled := v }) : Synced found { w with clock := clock' } := by
  rw [hclock]
  exact ⟨h.lawful, fun _ => h.shown, fun _ => h.begun, fun _ => h.tuned⟩

/-- The output is turned off for the request. -/
theorem mask_triple (hmask : mask &&& bit o ≠ 0) :
    Triple (Requested clock o hz mask found) (byte bus 3 mask) (Tuning clock o hz mask found)
      (fun w => Lawful (Careful found) w.log) := by
  have htuned : ∀ w, Requested clock o hz mask found w → ∀ k, k < 3 → mask &&& bit k = 0 → Tuned w.log k := by
    intro w h k hk hon
    refine h.others k hk ?_ hon
    intro hko
    exact hmask (hko ▸ hon)
  have hcareful : ∀ w failed, Requested clock o hz mask found w → Careful found w.log (.wrote 3 [mask] failed) :=
    fun w _ h => careful_disable (htuned w h)
  refine write_triple (fun w h => ?_) (fun w n h => h.lawful.cons (hcareful w _ h))
  refine ⟨⟨h.lawful.cons (hcareful w _ h), h.begun, h.asked, h.clock, ?_⟩,
    device_wrote (r := 0) rfl⟩
  intro k hk hne hon
  refine (htuned w h k hk hon).cons (fun _ => Access.noConfusion) (fun _ => Access.noConfusion) ?_
  exact fun r hr haims => not_aims_of_owns hr haims

/-- An output that stays off. -/
theorem off_triple (ho : o < 3) (hmask : mask &&& bit o ≠ 0) :
    Triple (Tuning clock o hz mask found) (byte bus (16 + o) v) (Shown found clock mask)
      (fun w => Lawful (Careful found) w.log) := by
  have howns : ∀ k r, k < 3 → owns k r → 16 + o ≤ r ∧ r < 16 + o + [v].length → k = o := by
    intro k r hk hr haims
    rw [List.length_singleton] at haims
    unfold owns at hr
    omega
  refine write_triple (fun w h => ?_) (fun w n h => (h.wrote (by omega) hmask howns).lawful)
  have hwrote : Tuning clock o hz mask found { w with log := .wrote (16 + o) [v] none :: w.log } :=
    h.wrote (by omega) hmask howns
  refine ⟨hwrote.lawful, hwrote.begun, hwrote.clock, hwrote.off, ?_⟩
  intro k hk hon
  refine hwrote.others k hk ?_ hon
  intro hko
  exact hmask (hko ▸ hon)

/-- A tuning that was asked for is no tuning at all, or a plan. -/
theorem tuning_some {t : Option Plan} (h : tuning c hz = some t) :
    t = none ∨ ∃ q, plan c hz = some q ∧ t = some q.value := by
  unfold tuning at h
  split at h
  · exact Or.inl (Option.some.inj h).symm
  · obtain ⟨q, hq, rfl⟩ := Option.map_eq_some_iff.mp h
    exact Or.inr ⟨q, hq, rfl⟩

theorem Synced.retune {t : Option Plan} (h : Synced found w) (hready : w.clock.ready = true) (ho : o < 3)
    (ht : tuning w.clock.config hz = some t) :
    Synced found (retune bus o t { w with log := .asked o hz :: w.log }).2 := by
  have hmask : (w.clock.disabled ||| bit o) &&& bit o ≠ 0 := by
    intro hoff
    exact ((or_bit_and ho ho).mp hoff).1 rfl
  have hrequested : Requested w.clock o hz (w.clock.disabled ||| bit o) found
      { w with log := .asked o hz :: w.log } := by
    refine ⟨h.lawful.cons (careful_of_not_aims fun _ => id), h.begun hready, if_pos rfl, rfl, ?_⟩
    intro k hk hne hon
    refine (h.tuned hready k hk ((or_bit_and hk ho).mp hon).2).cons (fun _ => Access.noConfusion) ?_ fun _ _ => id
    intro hz' heq
    exact hne (Access.asked.inj heq).1.symm
  refine synced_match (mask_triple hmask) hrequested fun w' htuning => ?_
  have hconfig : w'.clock.config = w.clock.config := congrArg Clock.config htuning.clock
  -- the shadow follows the chip
  have hshadow : Tuning { w'.clock with disabled := w.clock.disabled ||| bit o } o hz
      (w.clock.disabled ||| bit o) found
      { w' with clock := { w'.clock with disabled := w.clock.disabled ||| bit o } } := by
    refine ⟨⟨htuning.lawful, ?_, htuning.asked, rfl, htuning.others⟩, htuning.off⟩
    rw [htuning.clock]
    exact htuning.begun
  rcases tuning_some ht with rfl | ⟨q, hplan, rfl⟩
  · refine synced_match (off_triple ho hmask) hshadow fun w'' hshown => ?_
    have hclock := hshown.clock
    exact hshown.synced (by rw [hclock])
  · have hplan' : plan ({ w'.clock with disabled := w.clock.disabled ||| bit o } : Clock).config hz = some q :=
      (congrArg (plan · hz) hconfig).trans hplan
    refine synced_match (tuneUp_triple ho hmask hplan') hshadow fun w'' hshown => ?_
    have hclock := hshown.clock
    exact hshown.synced (by rw [hclock])

theorem Synced.set (h : Synced found w) (o : Nat) (hz : UInt32) : Synced found (set bus o hz w).2 := by
  unfold Si5351.set
  split
  · exact h
  · rename_i haccepted
    simp only [Bool.or_eq_true, Bool.not_eq_true', decide_eq_true_eq, not_or, Bool.not_eq_false, Nat.not_lt] at haccepted
    obtain ⟨hready, ho⟩ := haccepted
    split
    · exact h
    · rename_i t ht
      exact h.retune hready (by omega) ht

theorem Synced.step (h : Synced found w) (call : Call) : Synced found (step bus call w).2 := by
  cases call with
  | start given config => exact h.start given config
  | set output hz => exact h.set output hz
  | stop => exact h.stop

theorem Synced.run (h : Synced found w) (calls : List Call) : Synced found (run bus calls w) := by
  induction calls generalizing w with
  | nil => exact h
  | cons call rest ih => exact ih (h.step call)

theorem synced_new : Synced found .new := .of_not_ready .nil rfl

end Si5351

end RustyRig

/-!
Safety of the clock generator under faults.

What a call reports and which registers it writes are read off its accesses; with the rule of the
record they make `si5351_faults`.
-/

namespace RustyRig

namespace Si5351

open Lib Lib.Attempt

variable {bus : Bus} {found : Nat → UInt8} {base : List Access} {a : Access} {w : World} {c : Config}
  {hz : UInt32} {o : Nat} {p : Plan}

/-! ### The accesses of a call -/

/-- The record has grown by accesses of this kind. -/
def Since (kind : Access → Prop) (base : List Access) (w : World) : Prop :=
  ∃ new, w.log = new ++ base ∧ ∀ a ∈ new, kind a

theorem Since.nil {kind : Access → Prop} (h : w.log = base) : Since kind base w :=
  ⟨[], h, fun _ ha => absurd ha List.not_mem_nil⟩

theorem Since.cons {kind : Access → Prop} {w' : World} (h : Since kind base w) (hlog : w'.log = a :: w.log)
    (ha : kind a) : Since kind base w' := by
  obtain ⟨new, hnew, hkind⟩ := h
  refine ⟨a :: new, by rw [hlog, hnew, List.cons_append], fun b hb => ?_⟩
  rcases List.mem_cons.mp hb with rfl | hb
  · exact ha
  · exact hkind b hb

theorem Since.mono {kind kind' : Access → Prop} (h : Since kind base w) (himp : ∀ a, kind a → kind' a) :
    Since kind' base w := by
  obtain ⟨new, hnew, hkind⟩ := h
  exact ⟨new, hnew, fun a ha => himp a (hkind a ha)⟩

/-- No write of the call has failed so far. -/
abbrev Clean (base : List Access) (w : World) : Prop := Since (fun a => ¬ a.failed) base w

abbrev Grown (base : List Access) (w : World) : Prop := Since (fun _ => True) base w

theorem Clean.grown (h : Clean base w) : Grown base w :=
  h.mono fun _ _ => trivial

theorem readable_clean : Readable (Clean base) :=
  fun _ _ _ h => h.cons rfl id

theorem clean_write (reg : Nat) (bytes : List UInt8) : Triple (Clean base) (write bus reg bytes) (Clean base) (Grown base) :=
  write_triple (fun _ h => h.cons rfl Bool.false_ne_true) (fun _ _ h => h.grown.cons rfl trivial)

theorem clean_wait (mask : UInt8) : Triple (Clean base) (waitStatus bus mask) (Clean base) (Grown base) :=
  (waitStatus_triple readable_clean mask).weaken fun _ h => h.grown

theorem clean_startup (c : Config) (p : Plan) :
    Triple (Clean base) (sequence (startup bus c p)) (Clean base) (Grown base) := by
  refine triple_sequence fun f hf => ?_
  simp only [startup, List.mem_cons, List.not_mem_nil, or_false] at hf
  rcases hf with rfl | rfl | rfl | rfl | rfl | rfl | rfl | rfl | rfl | rfl | rfl | rfl
  · exact clean_wait _
  · exact clean_write _ _
  · exact clean_write _ _
  · exact clean_write _ _
  · exact clean_write _ _
  · exact spreadOff_triple readable_clean (fun _ h => h.grown) fun _ => clean_write _ _
  · exact clean_write _ _
  · exact clean_write _ _
  · exact clean_write _ _
  · exact clean_write _ _
  · exact clean_write _ _
  · exact clean_wait _

theorem clean_tuneUp (o : Nat) (p : Plan) (mask : UInt8) :
    Triple (Clean base) (sequence (tuneUp bus o p mask)) (Clean base) (Grown base) := by
  refine triple_sequence fun f hf => ?_
  simp only [tuneUp, List.mem_cons, List.not_mem_nil, or_false] at hf
  rcases hf with rfl | rfl | rfl | rfl
  · exact clean_write _ _
  · exact clean_write _ _
  · exact clean_wait _
  · exact clean_write _ _

/-! ### What a call reports -/

/-- After a failed write the driver is not ready, and the newest access tried to turn every output
off. -/
def Reported (base : List Access) (w : World) : Prop :=
  ∃ new, w.log = new ++ base ∧ ((∃ a ∈ new, a.failed) →
    w.clock.ready = false ∧ ∃ failed older, new = .wrote 3 [0xff] failed :: older)

theorem Clean.reported (h : Clean base w) : Reported base w := by
  obtain ⟨new, hnew, hclean⟩ := h
  refine ⟨new, hnew, fun hfailed => ?_⟩
  obtain ⟨a, ha, hfailed⟩ := hfailed
  exact absurd hfailed (hclean a ha)

theorem Reported.fault (h : Grown base w) : Reported base (fault bus w).2 := by
  obtain ⟨new, hnew, -⟩ := h
  refine ⟨.wrote 3 [0xff] (bus.write w.log 3 [0xff]) :: new, ?_, fun _ => ⟨rfl, _, _, rfl⟩⟩
  change .wrote 3 [0xff] (bus.write w.log 3 [0xff]) :: w.log = _
  rw [hnew, List.cons_append]

/-- A part of a call and what follows it. -/
theorem reported_match {f : Attempt World} {g : World → Bool × World}
    (h : Triple (Clean base) f (Clean base) (Grown base)) (hw : Clean base w)
    (hg : ∀ w, Clean base w → Reported base (g w).2) :
    Reported base (match f w with | (true, w) => g w | (false, w) => Si5351.fault bus w).2 :=
  match_fault h hw hg fun _ => Reported.fault

theorem reported_step (call : Call) (w : World) : Reported w.log (step bus call w).2 := by
  have hstay : Reported w.log w := Clean.reported (.nil rfl)
  cases call with
  | start given config =>
      change Reported w.log (start bus given config w).2
      unfold start
      split
      · have hbegun : Clean w.log
            { clock := { config := config, attached := true, disabled := 0xff, ready := false },
              log := .begun config :: w.log } :=
          Since.cons (.nil rfl) rfl id
        refine reported_match (clean_startup _ _) hbegun fun w' h => ?_
        exact Clean.reported h
      · exact hstay
  | set output hz =>
      change Reported w.log (set bus output hz w).2
      unfold set
      split
      · exact hstay
      · split
        · exact hstay
        · rename_i t ht
          have hasked : Clean w.log { w with log := .asked output hz :: w.log } := Since.cons (.nil rfl) rfl id
          refine reported_match (clean_write _ _) hasked fun w' h => ?_
          rcases tuning_some ht with rfl | ⟨q, -, rfl⟩
          · refine reported_match (w := { w' with clock := _ }) (clean_write _ _) h fun w'' h => Clean.reported h
          · refine reported_match (w := { w' with clock := _ }) (clean_tuneUp _ _ _) h fun w'' h => Clean.reported h
  | stop =>
      change Reported w.log (stop bus w).2
      unfold stop
      split
      · exact hstay
      · exact reported_match (clean_write _ _) (.nil rfl) fun w' h => Clean.reported h

/-! ### A driver that is not ready -/

theorem set_not_ready (h : w.clock.ready = false) (o : Nat) (hz : UInt32) : set bus o hz w = (false, w) := by
  have hrefused : (!w.clock.ready || decide (2 < o)) = true := by
    rw [h]
    rfl
  unfold set
  exact if_pos hrefused

/-- Only a start that succeeds makes a driver ready. -/
theorem step_not_ready {call : Call} (h : w.clock.ready = false)
    (hstart : ∀ given c, call = .start given c → (step bus call w).1 = false) :
    (step bus call w).2.clock.ready = false := by
  cases call with
  | start given c =>
      have hfailed : (start bus given c w).1 = false := hstart given c rfl
      change (start bus given c w).2.clock.ready = false
      unfold start at hfailed ⊢
      split
      · rename_i p hplan
        dsimp only at hfailed ⊢
        split
        · rename_i w' heq
          rw [hplan] at hfailed
          dsimp only at hfailed
          rw [heq] at hfailed
          exact absurd hfailed.symm Bool.false_ne_true
        · rfl
      · exact h
  | set o hz =>
      change (set bus o hz w).2.clock.ready = false
      rw [set_not_ready h]
      exact h
  | stop =>
      change (stop bus w).2.clock.ready = false
      unfold stop
      split
      · exact h
      · split
        · rfl
        · rfl

theorem run_not_ready {later : List Call} (h : w.clock.ready = false)
    (hstart : ∀ pre given c post, later = pre ++ .start given c :: post →
      (step bus (.start given c) (run bus pre w)).1 = false) :
    (run bus later w).clock.ready = false := by
  induction later generalizing w with
  | nil => exact h
  | cons call rest ih =>
      refine ih (step_not_ready h ?_) ?_
      · intro given c heq
        rw [heq]
        exact hstart [] given c rest (by rw [heq, List.nil_append])
      · intro pre given c post heq
        exact hstart (call :: pre) given c post (by rw [heq, List.cons_append])

/-! ### The registers of a retuning -/

/-- The registers of output `o`, and the output-disable register without changing another output's
bit, or turning every output off. -/
def Own (o : Nat) (disabled : UInt8) : Access → Prop
  | .wrote reg bytes _ =>
      (∃ v, reg = 3 ∧ bytes = [v] ∧
        (v = 0xff ∨ ∀ k, k < 3 → k ≠ o → (v &&& bit k = 0 ↔ disabled &&& bit k = 0))) ∨
      ∀ r, reg ≤ r → r < reg + bytes.length → owns o r
  | _ => True

variable {d : UInt8}

theorem readable_own : Readable (Since (Own o d) base) :=
  fun _ _ _ h => h.cons rfl trivial

theorem own_write {reg : Nat} {bytes : List UInt8} (h : ∀ failed, Own o d (.wrote reg bytes failed)) :
    Triple (Since (Own o d) base) (write bus reg bytes) (Since (Own o d) base) (Since (Own o d) base) :=
  write_triple (fun _ hw => hw.cons rfl (h none)) (fun _ n hw => hw.cons rfl (h (some n)))

theorem own_fault (h : Since (Own o d) base w) : Since (Own o d) base (fault bus w).2 :=
  h.cons rfl (Or.inl ⟨0xff, rfl, rfl, Or.inl rfl⟩)

theorem own_tuneUp (ho : o < 3) (p : Plan) :
    Triple (Since (Own o d) base) (sequence (tuneUp bus o p (d ||| bit o))) (Since (Own o d) base)
      (Since (Own o d) base) := by
  refine triple_sequence fun f hf => ?_
  simp only [tuneUp, List.mem_cons, List.not_mem_nil, or_false] at hf
  rcases hf with rfl | rfl | rfl | rfl
  · refine own_write fun failed => Or.inr fun r hle hlt => Or.inr ⟨hle, ?_⟩
    rw [Vector.length_toList] at hlt
    omega
  · refine own_write fun failed => Or.inr fun r hle hlt => Or.inl ?_
    rw [List.length_singleton] at hlt
    omega
  · exact waitStatus_triple readable_own _
  · refine own_write fun failed => Or.inl ⟨_, rfl, rfl, Or.inr fun k hk hne => ?_⟩
    rw [and_not_bit_and hk ho, or_bit_and hk ho]
    exact ⟨fun h => (h.resolve_left hne).2, fun h => Or.inr ⟨hne, h⟩⟩

theorem own_set (o : Nat) (hz : UInt32) (w : World) :
    Since (Own o w.clock.disabled) w.log (set bus o hz w).2 := by
  unfold set
  split
  · exact .nil rfl
  · rename_i haccepted
    simp only [Bool.or_eq_true, Bool.not_eq_true', decide_eq_true_eq, not_or, Bool.not_eq_false, Nat.not_lt] at haccepted
    have ho : o < 3 := by omega
    split
    · exact .nil rfl
    · rename_i t ht
      have hasked : Since (Own o w.clock.disabled) w.log { w with log := .asked o hz :: w.log } :=
        Since.cons (.nil rfl) rfl trivial
      have hmask : ∀ failed, Own o w.clock.disabled (.wrote 3 [w.clock.disabled ||| bit o] failed) := by
        intro failed
        refine Or.inl ⟨_, rfl, rfl, Or.inr fun k hk hne => ?_⟩
        rw [or_bit_and hk ho]
        exact ⟨fun h => h.2, fun h => ⟨hne, h⟩⟩
      refine match_fault (own_write hmask) hasked (fun w' h => ?_) fun _ => own_fault
      rcases tuning_some ht with rfl | ⟨q, -, rfl⟩
      · have hcontrol : ∀ failed, Own o w.clock.disabled (.wrote (16 + o) [0x80] failed) := by
          intro failed
          refine Or.inr fun r hle hlt => Or.inl ?_
          rw [List.length_singleton] at hlt
          omega
        refine match_fault (own_write hcontrol) ?_ (fun w'' h => h) fun _ => own_fault
        exact h
      · refine match_fault (own_tuneUp ho q.value) ?_ (fun w'' h => ?_) fun _ => own_fault
        · exact h
        · exact h

/-- **Output enabling under faults**, over every run of calls and every answer of the bus: while
the driver is ready its shadow is the chip's output-disable register; a write that turns outputs on
finds each of them tuned since the last start, and at every moment an output that is on has the
registers of a plan that was asked for; a call with a failed write ends not ready, with an attempt
to turn every output off, and until a start succeeds every request is refused untouched; and a
request writes no register of another output. -/
theorem si5351_faults (bus : Bus) (found : Nat → UInt8) (calls : List Call) :
    let w := run bus calls .new
    (w.clock.ready = true → device found w.log 3 = w.clock.disabled) ∧
    (∀ newer a older, w.log = newer ++ a :: older → a.aims 3 →
      ∃ v failed, a = .wrote 3 [v] failed ∧ ∀ k, k < 3 → v &&& bit k = 0 → Tuned older k) ∧
    (∀ newer log, w.log = newer ++ log → ∀ k, k < 3 → device found log 3 &&& bit k = 0 →
      (∀ a ∈ log, ¬ a.reaches 3) ∨ Programmed found log k) ∧
    (∀ call, Reported w.log (step bus call w).2) ∧
    (w.clock.ready = false → ∀ later, (∀ pre given c post, later = pre ++ .start given c :: post →
        (step bus (.start given c) (run bus pre w)).1 = false) →
      ∀ o hz, set bus o hz (run bus later w) = (false, run bus later w)) ∧
    ∀ o hz, Since (Own o w.clock.disabled) w.log (set bus o hz w).2 := by
  intro w
  have h : Synced found w := synced_new.run calls
  refine ⟨h.shadow, ?_, ?_, fun call => reported_step call w, ?_, fun o hz => own_set o hz w⟩
  · intro newer a older hsplit haims
    exact (h.lawful newer a older hsplit).1 haims
  · intro newer log hsplit k hk hon
    have hlawful : Lawful (Careful found) log := by
      intro newer' a older hsplit'
      exact h.lawful (newer ++ newer') a older (by rw [hsplit, hsplit', List.append_assoc])
    exact programmed_of_lawful hlawful hk hon
  · intro hready later hstart o hz
    exact set_not_ready (run_not_ready hready hstart) o hz

end Si5351

end RustyRig
