/-
Frames come out whole.

The fragments of a frame start at the multiples of the chunk below its length, and each
carries the bytes up to the next one.  Of a frame in progress the stream holds a prefix,
which only the fragment at the prefix's end extends; so what is complete is the whole frame,
whatever was lost, repeated or mixed up on the way, and fragments that come in order and in
time do complete it.
-/
import RustyRig.Rrserver.RelayMedia
import RustyRig.Proofs.Base64.Codec

namespace RustyRig

namespace RelayMedia

open Base64 (decode decode_encode encode_length encode_all)

/-- A frame as it was sent. -/
structure Sent where
  setup : Bool
  sequence : UInt32
  frame : List UInt8
deriving DecidableEq, Repr

def Sent.packet (f : Sent) : List Fragment := mediaPacket f.setup f.sequence f.frame

variable {m : Media} {f : Sent} {x : Fragment} {t : Tick} {offset : Nat} {sent : List Sent}

/-- The sender cuts a frame at `offset`. -/
structure Sent.CutAt (f : Sent) (offset : Nat) : Prop where
  small : f.frame.length ≤ 65535
  aligned : offset % chunk = 0
  inside : offset < f.frame.length

/-! ### One fragment -/

theorem Sent.packet_eq (h : 0 < f.frame.length) (hsmall : f.frame.length ≤ 65535) :
    f.packet = (List.range ((f.frame.length + chunk - 1) / chunk)).map fun k =>
      fragment f.setup f.sequence f.frame (k * chunk) := by
  have hcheck : (decide (f.frame.length = 0) || decide (65535 < f.frame.length)) = false := by
    simp only [Bool.or_eq_false_iff, decide_eq_false_iff_not]
    omega
  rw [Sent.packet, mediaPacket, hcheck]
  rfl

theorem Sent.exists_cut (h : x ∈ f.packet) :
    ∃ offset, f.CutAt offset ∧ x = fragment f.setup f.sequence f.frame offset := by
  by_cases hlen : 0 < f.frame.length ∧ f.frame.length ≤ 65535
  · rw [Sent.packet_eq hlen.1 hlen.2] at h
    obtain ⟨k, hk, rfl⟩ := List.mem_map.mp h
    have hk := List.mem_range.mp hk
    refine ⟨k * chunk, ⟨hlen.2, Nat.mul_mod_left k chunk, ?_⟩, rfl⟩
    unfold chunk at *
    omega
  · have hcheck : (decide (f.frame.length = 0) || decide (65535 < f.frame.length)) = true := by
      simp only [Bool.or_eq_true, decide_eq_true_eq]
      omega
    rw [Sent.packet, mediaPacket, hcheck] at h
    exact absurd h List.not_mem_nil

theorem decode_fragment (offset : Nat) :
    decode (fragment f.setup f.sequence f.frame offset).data =
      (f.frame.drop offset).take chunk := decode_encode _

theorem fragment_expected (offset : Nat) :
    ((f.frame.drop offset).take chunk).length =
      (fragment f.setup f.sequence f.frame offset).expected := by
  simp [fragment, Fragment.expected, Nat.min_comm]

theorem fragment_sound (h : f.CutAt offset) :
    (fragment f.setup f.sequence f.frame offset).sound = true := by
  obtain ⟨hsmall, haligned, hinside⟩ := h
  have hlength := encode_length ((f.frame.drop offset).take chunk)
  have hshort : ((f.frame.drop offset).take chunk).length ≤ chunk := List.length_take_le _ _
  have hall := encode_all ((f.frame.drop offset).take chunk)
  simp only [Fragment.sound, fragment, hlength, hall, Bool.not_true, Bool.or_false,
    Nat.mul_mod_left, haligned, bne_self_eq_false, Bool.not_eq_true', Bool.or_eq_false_iff,
    beq_eq_false_iff_ne, decide_eq_false_iff_not, ne_eq]
  refine ⟨⟨⟨by omega, decide_eq_false (by omega)⟩, decide_eq_false (by omega)⟩, ?_⟩
  unfold chunk at *
  omega

/-- The second check of a fragment, against the frame in progress. -/
def Media.Matches (m : Media) (x : Fragment) (t : Tick) : Prop :=
  m.size = x.total ∧ m.sequence = x.sequence ∧ x.offset = m.received ∧ m.setup = x.setup ∧
    t.checked - m.started ≤ patience m.setup

instance (m : Media) (x : Fragment) (t : Tick) : Decidable (m.Matches x t) :=
  inferInstanceAs (Decidable (_ ∧ _))

/-- What `receive` makes of a fragment as the sender cuts it. -/
theorem receive_fragment (h : f.CutAt offset) (hx : x = fragment f.setup f.sequence f.frame offset)
    (m : Media) (t : Tick) :
    receive m x t =
      match (restart m x t).frame with
      | none => (none, restart m x t)
      | some frame =>
          if (restart m x t).Matches x t then
            if (restart m x t).received + x.expected = (restart m x t).size then
              (some ((blit frame offset ((f.frame.drop offset).take chunk)).take
                (restart m x t).size),
                { restart m x t with frame := none
                                     received := (restart m x t).received + x.expected })
            else
              (none,
                { restart m x t with
                  frame := some (blit frame offset ((f.frame.drop offset).take chunk))
                  received := (restart m x t).received + x.expected })
          else (none, restart m x t) := by
  have hsound : x.sound = true := hx ▸ fragment_sound h
  have hdecode : decode x.data = (f.frame.drop offset).take chunk := hx ▸ decode_fragment offset
  have hexpected : ((f.frame.drop offset).take chunk).length = x.expected :=
    hx ▸ fragment_expected offset
  have hoffset : x.offset = offset := by rw [hx]; rfl
  have hmatch : ((decide ((restart m x t).size ≠ x.total) ||
      decide ((restart m x t).sequence ≠ x.sequence) ||
      decide (x.offset ≠ (restart m x t).received) || decide ((restart m x t).setup ≠ x.setup) ||
      decide (patience (restart m x t).setup < t.checked - (restart m x t).started)) = true) ↔
      ¬ (restart m x t).Matches x t := by
    simp only [Media.Matches, Bool.or_eq_true, decide_eq_true_eq, not_and_or, ← UInt64.not_le,
      or_assoc, ne_eq]
  unfold receive reassemble
  simp only [hsound, hdecode, hexpected, hoffset, Bool.not_true, Bool.false_eq_true, if_false,
    ne_eq, not_true_eq_false]
  cases hframe : (restart m x t).frame with
  | none => rfl
  | some frame =>
      simp only
      by_cases hm : (restart m x t).Matches x t
      · rw [if_neg (fun hbad => hmatch.mp (by simpa [hoffset] using hbad) hm), if_pos hm]
        by_cases hfull : (restart m x t).received + x.expected = (restart m x t).size
        · rw [if_pos hfull]
          simp [hfull]
        · rw [if_neg hfull, beq_eq_false_iff_ne.mpr hfull]
      · rw [if_pos (by simpa [hoffset] using hmatch.mpr hm), if_neg hm]

/-! ### The frame in progress -/

/-- The stream holds the first bytes of a frame. -/
structure Media.Holds (m : Media) (f : Sent) : Prop where
  size : m.size = f.frame.length
  sequence : m.sequence = f.sequence
  frame : m.frame = some (f.frame.take m.received)
  bounded : m.received ≤ f.frame.length

theorem blit_prefix (frame : List UInt8) (h : offset ≤ frame.length) (size : Nat) :
    blit (frame.take offset) offset ((frame.drop offset).take size) =
      frame.take (offset + size) := by
  have hempty : (frame.take offset).drop (offset + ((frame.drop offset).take size).length) = [] :=
    List.drop_eq_nil_of_le (by rw [List.length_take]; omega)
  rw [blit, hempty, List.append_nil, List.take_take, Nat.min_self, ← List.take_add]

/-- A first fragment puts the start of its frame in place. -/
theorem restart_holds (hx : x = fragment f.setup f.sequence f.frame 0) (m : Media)
    (halloc : t.alloc = true) : (restart m x t).Holds f := by
  subst hx
  exact ⟨rfl, rfl, by simp [restart, fragment, halloc], Nat.zero_le _⟩

/-- A matching fragment extends the frame, to its end or on. -/
theorem receive_extends (h : f.CutAt offset) (hx : x = fragment f.setup f.sequence f.frame offset)
    (hm : (restart m x t).Holds f) (hmatch : (restart m x t).Matches x t) :
    (f.frame.length ≤ offset + chunk ∧ (receive m x t).1 = some f.frame ∧
        (receive m x t).2.frame = none) ∨
      (offset + chunk < f.frame.length ∧ (receive m x t).1 = none ∧ (receive m x t).2.Holds f ∧
        (receive m x t).2.received = offset + chunk ∧
        (receive m x t).2.setup = (restart m x t).setup ∧
        (receive m x t).2.started = (restart m x t).started) := by
  have hoffset : offset = (restart m x t).received := by
    rw [← hmatch.2.2.1, hx]
    rfl
  have hexpected : x.expected = min (f.frame.length - offset) chunk := by rw [hx]; rfl
  have hinside := h.inside
  have hblit := blit_prefix f.frame (Nat.le_of_lt h.inside) chunk
  have hreceive := receive_fragment h hx m t
  rw [hm.frame, ← hoffset] at hreceive
  dsimp only at hreceive
  rw [if_pos hmatch, hm.size, hblit] at hreceive
  by_cases hend : f.frame.length ≤ offset + chunk
  · rw [if_pos (by omega), List.take_take, List.take_of_length_le (by omega)] at hreceive
    rw [hreceive]
    exact .inl ⟨hend, rfl, rfl⟩
  · have hnext : offset + x.expected = offset + chunk := by omega
    rw [if_neg (by omega), hnext] at hreceive
    rw [hreceive]
    exact .inr ⟨by omega, rfl, ⟨rfl, hm.sequence, rfl, by dsimp only; omega⟩, rfl, rfl, rfl⟩

/-! ### In order and in time -/

/-- `n` fragments of a frame from the `k`-th on. -/
def Sent.rest (f : Sent) (k n : Nat) : List Fragment :=
  (List.range' k n).map fun k => fragment f.setup f.sequence f.frame (k * chunk)

/-- Once the fragment at its turn extends the frame, the last ones complete it. -/
theorem receiveAll_rest (hsmall : f.frame.length ≤ 65535) (n : Nat) :
    ∀ (k : Nat) (m : Media) (t : Tick) (ticks : List Tick),
      (k + n) * chunk < f.frame.length → f.frame.length ≤ (k + n + 1) * chunk →
      (restart m (fragment f.setup f.sequence f.frame (k * chunk)) t).Holds f →
      (restart m (fragment f.setup f.sequence f.frame (k * chunk)) t).Matches
        (fragment f.setup f.sequence f.frame (k * chunk)) t →
      ticks.length = n →
      (∀ t' ∈ ticks, t'.checked - (restart m (fragment f.setup f.sequence f.frame (k * chunk)) t).started
        ≤ patience f.setup) →
      receiveAll m ((f.rest k (n + 1)).zip (t :: ticks)) =
        List.replicate n none ++ [some f.frame] := by
  induction n with
  | zero =>
      intro k m t ticks hlast hend hholds hmatch hticks htime
      have hcut : f.CutAt (k * chunk) := ⟨hsmall, Nat.mul_mod_left k chunk, hlast⟩
      rcases receive_extends hcut rfl hholds hmatch with ⟨-, hout, -⟩ | ⟨hmore, -⟩
      · simp [Sent.rest, receiveAll, hout]
      · simp only [chunk] at hmore hend
        omega
  | succ n ih =>
      intro k m t ticks hlast hend hholds hmatch hticks htime
      obtain ⟨t', ticks, rfl⟩ : ∃ t' rest, ticks = t' :: rest :=
        List.exists_cons_of_length_eq_add_one hticks
      have hcut : f.CutAt (k * chunk) := by
        refine ⟨hsmall, Nat.mul_mod_left k chunk, ?_⟩
        exact Nat.lt_of_le_of_lt (Nat.mul_le_mul_right chunk (Nat.le_add_right k (n + 1))) hlast
      rcases receive_extends hcut rfl hholds hmatch with
        ⟨hdone, -⟩ | ⟨hmore, hout, hholds', hreceived, hsetup, hstarted⟩
      · simp only [chunk] at hdone hlast
        omega
      · -- the next fragment does not start the buffer anew
        have hkeep : ∀ m' t', restart m' (fragment f.setup f.sequence f.frame ((k + 1) * chunk)) t'
            = m' := by
          have hpos : (k + 1) * chunk ≠ 0 := Nat.mul_ne_zero (Nat.succ_ne_zero k) (by simp [chunk])
          intro m' t'
          rw [restart, if_neg (by exact hpos)]
        have hrest : f.rest k (n + 1 + 1) =
            fragment f.setup f.sequence f.frame (k * chunk) :: f.rest (k + 1) (n + 1) := by
          simp [Sent.rest, List.range'_succ]
        have hsame : (restart m (fragment f.setup f.sequence f.frame (k * chunk)) t).setup =
            f.setup := hmatch.2.2.2.1
        have hmatch' : (receive m (fragment f.setup f.sequence f.frame (k * chunk)) t).2.Matches
            (fragment f.setup f.sequence f.frame ((k + 1) * chunk)) t' := by
          refine ⟨hholds'.size, hholds'.sequence, ?_, hsetup.trans hsame, ?_⟩
          · rw [hreceived]
            exact Nat.succ_mul k chunk
          · rw [hsetup, hstarted, hsame]
            exact htime t' List.mem_cons_self
        have hassoc : k + 1 + n = k + (n + 1) := by omega
        rw [hrest, List.zip_cons_cons, receiveAll, hout]
        rw [ih (k + 1) _ t' ticks (hassoc ▸ hlast) (hassoc ▸ hend) (by rw [hkeep]; exact hholds')
          (by rw [hkeep]; exact hmatch') (by simpa using hticks) ?_]
        · rfl
        · intro u hu
          rw [hkeep, hstarted]
          exact htime u (List.mem_cons_of_mem _ hu)

/-! ### Whatever arrives -/

/-- The frame in progress, if there is one, is the start of a frame that was sent. -/
def Media.Sound (sent : List Sent) (m : Media) : Prop := m.frame ≠ none → ∃ f ∈ sent, m.Holds f

/-- A fragment of a sent frame keeps the stream sound and completes a sent frame at most. -/
theorem receive_sound (hdistinct : (sent.map (·.sequence)).Nodup) (hm : m.Sound sent)
    (hf : f ∈ sent) (hx : x ∈ f.packet) (t : Tick) :
    (receive m x t).2.Sound sent ∧ ∀ bytes ∈ (receive m x t).1, bytes = f.frame := by
  obtain ⟨offset, hcut, hcutx⟩ := Sent.exists_cut hx
  have hrestart : (restart m x t).Sound sent := by
    intro hframe
    by_cases hzero : x.offset = 0
    · have hoffset : offset = 0 := by rw [← hzero, hcutx]; rfl
      subst hoffset
      cases halloc : t.alloc with
      | false => simp [restart, hzero, halloc] at hframe
      | true => exact ⟨f, hf, restart_holds hcutx m halloc⟩
    · rw [restart, if_neg hzero] at hframe ⊢
      exact hm hframe
  have hreceive := receive_fragment hcut hcutx m t
  cases hframe : (restart m x t).frame with
  | none =>
      rw [hframe] at hreceive
      rw [hreceive]
      exact ⟨hrestart, fun bytes hbytes => nomatch hbytes⟩
  | some frame =>
      by_cases hmatch : (restart m x t).Matches x t
      · -- the sequence number tells whose bytes are there
        obtain ⟨g, hg, hholds⟩ := hrestart (by simp [hframe])
        have hsequence : g.sequence = f.sequence := by
          rw [← hholds.sequence, hmatch.2.1, hcutx]
          rfl
        obtain rfl : g = f := List.inj_on_of_nodup_map hdistinct hg hf hsequence
        rcases receive_extends hcut hcutx hholds hmatch with ⟨-, hout, hnone⟩ | ⟨-, hout, hnext, -⟩
        · rw [hout]
          exact ⟨fun habs => absurd hnone habs, fun bytes hbytes => (Option.mem_some.mp hbytes).symm⟩
        · rw [hout]
          exact ⟨fun _ => ⟨g, hf, hnext⟩, fun bytes hbytes => nomatch hbytes⟩
      · rw [hframe] at hreceive
        dsimp only at hreceive
        rw [if_neg hmatch] at hreceive
        rw [hreceive]
        exact ⟨hrestart, fun bytes hbytes => nomatch hbytes⟩

theorem receiveAll_sound (hdistinct : (sent.map (·.sequence)).Nodup) {bytes : List UInt8}
    (arrivals : List (Fragment × Tick)) (h : ∀ x ∈ arrivals, ∃ f ∈ sent, x.1 ∈ f.packet)
    (hm : m.Sound sent) (hbytes : some bytes ∈ receiveAll m arrivals) :
    ∃ f ∈ sent, bytes = f.frame := by
  induction arrivals generalizing m with
  | nil => exact absurd hbytes List.not_mem_nil
  | cons x arrivals ih =>
      obtain ⟨f, hf, hx⟩ := h x List.mem_cons_self
      obtain ⟨hm', hout⟩ := receive_sound hdistinct hm hf hx x.2
      rcases List.mem_cons.mp hbytes with hhead | hrest
      · exact ⟨f, hf, hout bytes hhead.symm⟩
      · exact ih (fun y hy => h y (List.mem_cons_of_mem x hy)) hm' hrest

/-- **Media frames are put together again, and nothing else is.**  The fragments of a frame that
arrive in order and in time give the frame with the last of them and nothing before; and of the
fragments of frames with different sequence numbers, in whatever order and however often they
arrive, nothing comes out but these frames. -/
theorem media_reassembly :
    (∀ (f : Sent) (m : Media) (first : Tick) (ticks : List Tick),
      0 < f.frame.length → f.frame.length ≤ 65535 → (first :: ticks).length = f.packet.length →
      first.alloc = true →
      (∀ t ∈ first :: ticks, t.checked - first.started ≤ patience f.setup) →
      receiveAll m (f.packet.zip (first :: ticks)) =
        List.replicate (f.packet.length - 1) none ++ [some f.frame]) ∧
    (∀ (sent : List Sent) (m : Media) (arrivals : List (Fragment × Tick)),
      (sent.map (·.sequence)).Nodup → m.frame = none →
      (∀ x ∈ arrivals, ∃ f ∈ sent, x.1 ∈ f.packet) →
      ∀ bytes, some bytes ∈ receiveAll m arrivals → ∃ f ∈ sent, bytes = f.frame) := by
  constructor
  · intro f m first ticks hpos hsmall hticks halloc htime
    obtain ⟨n, hn⟩ : ∃ n, (f.frame.length + chunk - 1) / chunk = n + 1 :=
      Nat.exists_eq_add_one.mpr (Nat.div_pos (by omega) (by decide))
    have hpacket : f.packet = f.rest 0 (n + 1) := by
      rw [Sent.packet_eq hpos hsmall, hn, Sent.rest, List.range_eq_range']
    have hlength : f.packet.length = n + 1 := by simp [hpacket, Sent.rest]
    have hholds : (restart m (fragment f.setup f.sequence f.frame (0 * chunk)) first).Holds f :=
      restart_holds (by rw [Nat.zero_mul]) m halloc
    rw [hlength, hpacket]
    refine receiveAll_rest hsmall n 0 m first ticks ?_ ?_ hholds ?_ ?_ ?_
    · simp only [chunk] at hn ⊢
      omega
    · simp only [chunk] at hn ⊢
      omega
    · have hstart : restart m (fragment f.setup f.sequence f.frame (0 * chunk)) first =
          { frame := if first.alloc then some [] else none, size := f.frame.length, received := 0
            sequence := f.sequence, setup := f.setup, started := first.started } := by
        rw [restart, if_pos (by rw [Nat.zero_mul]; rfl)]
        rfl
      rw [hstart]
      exact ⟨rfl, rfl, Nat.zero_mul chunk, rfl, htime first List.mem_cons_self⟩
    · rw [hlength] at hticks
      simpa using hticks
    · intro t ht
      rw [restart, if_pos (by rw [Nat.zero_mul]; rfl)]
      exact htime t (List.mem_cons_of_mem first ht)
  · intro sent m arrivals hdistinct hfresh harrivals bytes hbytes
    exact receiveAll_sound hdistinct arrivals harrivals (fun habs => absurd hfresh habs) hbytes

/-- A frame of two fragments. -/
def exampleFrame : Sent := ⟨false, 7, List.replicate 4001 1⟩

/-- And a short one. -/
def exampleSetup : Sent := ⟨true, 8, [1, 2, 3]⟩

def exampleTick : Tick := ⟨true, 10, 20⟩

/-- The two fragments give the frame; with those of the short frame between them and again after
them, at most the two frames come out. -/
theorem media_reassembly_two (m : Media) (hm : m.frame = none) :
    receiveAll m (exampleFrame.packet.zip [exampleTick, exampleTick]) =
        [none, some exampleFrame.frame] ∧
      ∀ bytes, some bytes ∈ receiveAll m
        ((exampleFrame.packet ++ exampleSetup.packet ++ exampleFrame.packet).map
          fun x => (x, exampleTick)) →
        ∃ f ∈ [exampleFrame, exampleSetup], bytes = f.frame := by
  have hframe : exampleFrame.frame.length = 4001 := List.length_replicate
  have hlength : exampleFrame.packet.length = 2 := by
    rw [Sent.packet_eq (by omega) (by omega), List.length_map, List.length_range, hframe]
    decide
  constructor
  · have h := media_reassembly.1 exampleFrame m exampleTick [exampleTick]
      (by omega) (by omega) hlength.symm rfl
      (fun t ht => by
        rcases List.mem_pair.mp ht with rfl | rfl <;> decide)
    rw [hlength] at h
    exact h
  · refine media_reassembly.2 [exampleFrame, exampleSetup] m _ (by decide) hm ?_
    intro x hx
    obtain ⟨y, hy, rfl⟩ := List.mem_map.mp hx
    simp only [List.mem_append] at hy
    rcases hy with (hy | hy) | hy
    · exact ⟨exampleFrame, List.mem_cons_self, hy⟩
    · exact ⟨exampleSetup, List.mem_cons_of_mem _ List.mem_cons_self, hy⟩
    · exact ⟨exampleFrame, List.mem_cons_self, hy⟩

end RelayMedia

end RustyRig
