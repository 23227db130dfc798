/-
What one run of the reader delivers.

A buffer is complete frames with an incomplete one behind them.  The look-ahead over the frames that
follow counts their decoded sound, as far as the backlog takes it (`newerPcmBytes_eq`), so what is kept
of a frame is what the newest of the whole stream needs of it.  One step takes one frame
(`parseRead_cons`), and both results follow along the frames.
-/
import RustyRig.Lib.Newest
import RustyRig.Libfwdspmgr.ParseRead

namespace RustyRig

namespace Fwdsp

open Lib
open PcmBacklog (Bytes FWDSP_PCM_BACKLOG_BYTES)

/-- A frame as a child writes it. -/
structure Frame where
  isHeader : Bool
  isTap : Bool
  isDiscont : Bool
  payload : Bytes
  nonempty : payload ≠ []
  bounded : payload.length ≤ FWDSP_MAX_FRAME_SIZE
deriving DecidableEq

namespace Frame

def word (f : Frame) : Nat :=
  (if f.isHeader then FWDSP_FRAME_STREAM_HEADER else 0) + (if f.isTap then FWDSP_FRAME_PCM_TAP else 0) +
    (if f.isDiscont then FWDSP_FRAME_DISCONT else 0) + f.payload.length

def bytes (f : Frame) : Bytes := frameLengthEncode f.word ++ f.payload

/-- A tap of whole samples. -/
def sound (f : Frame) : Bool := f.isTap && !f.isHeader && decide (f.payload.length % 2 = 0)

end Frame

/-- The frames in the buffer. -/
def buffer (frames : List Frame) : Bytes := frames.flatMap Frame.bytes

/-- The decoded sound in the buffer. -/
def tapped (frames : List Frame) : Bytes := (frames.filter Frame.sound).flatMap Frame.payload

/-- The start of a frame. -/
def Incomplete (data : Bytes) : Prop :=
  data.length < FWDSP_FRAME_HEADER_SIZE ∨
    (0 < frameLength (frameLengthDecode data) ∧ frameLength (frameLengthDecode data) ≤ FWDSP_MAX_FRAME_SIZE ∧
      data.length < FWDSP_FRAME_HEADER_SIZE + frameLength (frameLengthDecode data))

variable {f : Frame} {frames : List Frame} {tail rest : Bytes} {w : World} {sp : Child}

/-! ### Frames -/

theorem frameLengthDecode_encode {n : Nat} (h : n < 2 ^ 32) (rest : Bytes) :
    frameLengthDecode (frameLengthEncode n ++ rest) = n := by
  have hbyte : ∀ m : Nat, (UInt8.ofNat m).toNat = m % 256 := fun m => rfl
  unfold frameLengthDecode frameLengthEncode FWDSP_FRAME_HEADER_SIZE
  simp only [List.cons_append, List.nil_append, List.take_succ_cons, List.take_zero, List.foldl_cons, List.foldl_nil, hbyte]
  omega

theorem word_lt (f : Frame) : f.word < 2 ^ 32 := by
  have hbounded := f.bounded
  unfold Frame.word
  simp only [FWDSP_FRAME_STREAM_HEADER, FWDSP_FRAME_PCM_TAP, FWDSP_FRAME_DISCONT, FWDSP_MAX_FRAME_SIZE] at *
  split <;> split <;> split <;> omega

theorem frameLength_word (f : Frame) : frameLength f.word = f.payload.length := by
  have hbounded := f.bounded
  unfold frameLength Frame.word
  simp only [FWDSP_FRAME_STREAM_HEADER, FWDSP_FRAME_PCM_TAP, FWDSP_FRAME_DISCONT, FWDSP_MAX_FRAME_SIZE] at *
  split <;> split <;> split <;> omega

theorem flag_header (f : Frame) : flag f.word FWDSP_FRAME_STREAM_HEADER = f.isHeader := by
  have hbounded := f.bounded
  unfold flag Frame.word
  simp only [FWDSP_FRAME_STREAM_HEADER, FWDSP_FRAME_PCM_TAP, FWDSP_FRAME_DISCONT, FWDSP_MAX_FRAME_SIZE] at *
  cases f.isHeader with
  | false => exact decide_eq_false (by simp only [Bool.false_eq_true, if_false]; split <;> split <;> omega)
  | true => exact decide_eq_true (by simp only [if_true]; split <;> split <;> omega)

theorem flag_tap (f : Frame) : flag f.word FWDSP_FRAME_PCM_TAP = f.isTap := by
  have hbounded := f.bounded
  unfold flag Frame.word
  simp only [FWDSP_FRAME_STREAM_HEADER, FWDSP_FRAME_PCM_TAP, FWDSP_FRAME_DISCONT, FWDSP_MAX_FRAME_SIZE] at *
  cases f.isTap with
  | false => exact decide_eq_false (by simp only [Bool.false_eq_true, if_false]; split <;> split <;> omega)
  | true => exact decide_eq_true (by simp only [if_true]; split <;> split <;> omega)

theorem length_bytes (f : Frame) : f.bytes.length = FWDSP_FRAME_HEADER_SIZE + f.payload.length :=
  List.length_append

/-- What a reader finds at the start of a frame. -/
theorem decode_bytes (f : Frame) (rest : Bytes) : frameLengthDecode (f.bytes ++ rest) = f.word := by
  unfold Frame.bytes
  rw [List.append_assoc]
  exact frameLengthDecode_encode (word_lt f) _

theorem drop_bytes (f : Frame) (rest : Bytes) :
    (f.bytes ++ rest).drop (FWDSP_FRAME_HEADER_SIZE + f.payload.length) = rest :=
  List.drop_left' (length_bytes f)

theorem take_bytes (f : Frame) (rest : Bytes) :
    ((f.bytes ++ rest).drop FWDSP_FRAME_HEADER_SIZE).take f.payload.length = f.payload := by
  have hdrop : (f.bytes ++ rest).drop FWDSP_FRAME_HEADER_SIZE = f.payload ++ rest := rfl
  rw [hdrop, List.take_left' rfl]

theorem payload_pos (f : Frame) : 0 < f.payload.length := List.length_pos_iff.mpr f.nonempty

theorem buffer_cons (f : Frame) (frames : List Frame) (tail : Bytes) :
    buffer (f :: frames) ++ tail = f.bytes ++ (buffer frames ++ tail) := by
  unfold buffer
  rw [List.flatMap_cons, List.append_assoc]

theorem tapped_cons (f : Frame) (frames : List Frame) :
    tapped (f :: frames) = (if f.sound then f.payload else []) ++ tapped frames := by
  unfold tapped
  cases hsound : f.sound with
  | false => rw [List.filter_cons_of_neg (by rw [hsound]; exact Bool.false_ne_true)]; rfl
  | true => rw [List.filter_cons_of_pos hsound, List.flatMap_cons]; rfl

theorem sound_iff : f.sound = true ↔ f.isTap = true ∧ f.isHeader = false ∧ f.payload.length % 2 = 0 := by
  unfold Frame.sound
  rw [Bool.and_eq_true, Bool.and_eq_true, Bool.not_eq_true', decide_eq_true_eq, and_assoc]

theorem dvd_tapped (frames : List Frame) : 2 ∣ (tapped frames).length := by
  induction frames with
  | nil => exact Nat.dvd_zero 2
  | cons f frames ih =>
      rw [tapped_cons, List.length_append]
      split
      · rename_i hsound
        exact Nat.dvd_add (Nat.dvd_of_mod_eq_zero (sound_iff.mp hsound).2.2) ih
      · exact Nat.dvd_add (Nat.dvd_zero 2) ih

/-! ### The look-ahead -/

theorem newerPcmBytes_incomplete (h : Incomplete tail) (bytes : Nat) : newerPcmBytes tail bytes = bytes := by
  rw [newerPcmBytes]
  rcases h with hshort | ⟨-, -, hshort⟩
  · exact if_pos hshort
  split
  · rfl
  dsimp only
  exact if_pos (Or.inr (by omega))

/-- The sound in the frames ahead, as far as the backlog takes it. -/
theorem newerPcmBytes_eq (hinc : Incomplete tail) (frames : List Frame) : ∀ bytes, bytes < FWDSP_PCM_BACKLOG_BYTES →
    newerPcmBytes (buffer frames ++ tail) bytes = min FWDSP_PCM_BACKLOG_BYTES (bytes + (tapped frames).length) := by
  induction frames with
  | nil =>
      intro bytes hbytes
      have hnil : (tapped []).length = 0 := rfl
      rw [hnil]
      refine (newerPcmBytes_incomplete hinc bytes).trans ?_
      omega
  | cons f frames ih =>
      intro bytes hbytes
      have hlen := length_bytes f
      have hpos := payload_pos f
      have hlong : ¬(f.bytes ++ (buffer frames ++ tail)).length < FWDSP_FRAME_HEADER_SIZE := by
        rw [List.length_append]
        omega
      have hwhole : ¬(f.payload.length = 0 ∨
          (f.bytes ++ (buffer frames ++ tail)).length - FWDSP_FRAME_HEADER_SIZE < f.payload.length) := by
        rw [List.length_append]
        omega
      rw [buffer_cons, newerPcmBytes, if_neg hlong]
      dsimp only
      rw [decode_bytes, frameLength_word, if_neg hwhole, flag_tap, flag_header, drop_bytes, tapped_cons]
      by_cases hsound : f.sound = true
      · rw [if_pos (sound_iff.mp hsound), if_pos hsound, List.length_append]
        split
        · omega
        · rw [ih _ (by omega)]
          omega
      · rw [if_neg fun h => hsound (sound_iff.mpr h), if_neg hsound, ih bytes hbytes]
        rfl

/-! ### The run -/

/-- The reader of decoded sound: a codec that decodes for a callback. -/
structure Tapped (sp : Child) : Prop where
  codec : sp.role = .codec
  decodes : sp.isTx = false
  callback : sp.processorOutput = true

/-- The callbacks leave the slot as it is. -/
def Untouched (w : World) : Prop := ∀ o sp, w.after o sp = some sp

/-- The sound of an output. -/
def soundOf : Output → Bytes
  | .pcm _ samples => samples
  | _ => []

/-- The payload that an output of any other frame hands on. -/
def handedOn : Output → Option Bytes
  | .pcm _ _ => none
  | .processed _ data => some data
  | .video _ data => some data
  | .event _ data => some data
  | .setup _ data _ => some data
  | .media _ data _ => some data

theorem parseRead_incomplete (h : Incomplete tail) : parseRead w (some sp) tail = (some sp, tail, []) := by
  rw [parseRead]
  rcases h with hshort | ⟨hpos, hmax, hshort⟩
  · exact if_pos hshort
  split
  · rfl
  dsimp only
  rw [if_neg (by omega), if_pos hshort]

/-- One frame is taken off the front. -/
theorem parseRead_cons (f : Frame) (rest : Bytes) : parseRead w (some sp) (f.bytes ++ rest) =
    ((parseRead w (handle w sp f.word f.payload rest).1 rest).1, (parseRead w (handle w sp f.word f.payload rest).1 rest).2.1,
      (handle w sp f.word f.payload rest).2 ++ (parseRead w (handle w sp f.word f.payload rest).1 rest).2.2) := by
  have hlen := length_bytes f
  have hpos := payload_pos f
  have hbounded := f.bounded
  have hlong : ¬(f.bytes ++ rest).length < FWDSP_FRAME_HEADER_SIZE := by
    rw [List.length_append]
    omega
  have hwhole : ¬(f.bytes ++ rest).length < FWDSP_FRAME_HEADER_SIZE + f.payload.length := by
    rw [List.length_append]
    omega
  rw [parseRead, if_neg hlong]
  dsimp only
  rw [decode_bytes, frameLength_word, if_neg (by omega), if_neg hwhole, drop_bytes, take_bytes]

/-- What the callback is given of a tap: what the newest sound needs of it. -/
theorem handle_sound (frames : List Frame) (hw : Untouched w) (ht : Tapped sp) (hinc : Incomplete tail) (hsound : f.sound = true) :
    (handle w sp f.word f.payload (buffer frames ++ tail)).1 = some sp ∧
      (handle w sp f.word f.payload (buffer frames ++ tail)).2.filterMap handedOn = [] ∧
      (∀ o ∈ (handle w sp f.word f.payload (buffer frames ++ tail)).2, 2 ∣ (soundOf o).length) ∧
      (handle w sp f.word f.payload (buffer frames ++ tail)).2.flatMap soundOf ++
        newest FWDSP_PCM_BACKLOG_BYTES (tapped frames) = newest FWDSP_PCM_BACKLOG_BYTES (f.payload ++ tapped frames) := by
  obtain ⟨htap, hheader, heven⟩ := sound_iff.mp hsound
  have hnewer := newerPcmBytes_eq hinc frames 0 (by decide)
  rw [Nat.zero_add] at hnewer
  have hdvd := dvd_tapped frames
  unfold handle
  dsimp only
  rw [flag_tap, flag_header, if_pos htap, if_neg (by rw [hheader]; rintro (h | h); exacts [Bool.false_ne_true h, by omega]),
    if_pos ⟨ht.codec, ht.decodes, ht.callback⟩, hnewer]
  have hlimit : 2 ∣ FWDSP_PCM_BACKLOG_BYTES := Nat.dvd_of_mod_eq_zero rfl
  have hpos := payload_pos f
  generalize FWDSP_PCM_BACKLOG_BYTES = limit at hlimit ⊢
  by_cases hroom : limit ≤ (tapped frames).length
  · -- the sound behind it fills the backlog
    rw [Nat.min_eq_left hroom, Nat.sub_self, Nat.zero_min, if_pos rfl, Newest.newest_append_of_le hroom]
    exact ⟨rfl, rfl, fun o ho => absurd ho List.not_mem_nil, rfl⟩
  · have hle : (tapped frames).length ≤ limit := by omega
    rw [Nat.min_eq_right hle, if_neg (by omega), Newest.newest_append hle, Newest.newest_of_le hle]
    refine ⟨hw _ sp, rfl, ?_, ?_⟩
    · intro o ho
      rw [List.mem_singleton.mp ho]
      change 2 ∣ (f.payload.drop _).length
      rw [List.length_drop]
      omega
    · change (f.payload.drop _ ++ []) ++ _ = _
      rw [List.append_nil]
      unfold newest
      congr 2
      omega

/-- Somebody is there for what is not decoded sound. -/
def Served (w : World) (sp : Child) : Prop :=
  0 < sp.refcount ∧
    (sp.isVideo = false → ∃ channel, channelOf w sp = some channel ∧ channel.codec.take 4 = sp.plId.take 4)

/-- The retained setup data that goes out before a frame. -/
def due (sp : Child) (f : Frame) : List Bytes :=
  if sp.isVideo = false ∧ sp.replayHeaders = true then replayStreamHeaders (retain sp f.isHeader f.payload) else []

/-- What a frame leaves of the slot. -/
structure Follows (w : World) (sp sp' : Child) : Prop where
  tapped : Tapped sp → Tapped sp'
  served : Served w sp' ↔ Served w sp
  video : sp'.isVideo = sp.isVideo

theorem handedOn_replayed (channel : Channel) (codec : Text) (replayed : List Bytes) (o : Output) :
    (replayed.map (fun data => Output.setup channel data codec) ++ [o]).filterMap handedOn =
      replayed ++ (handedOn o).toList := by
  rw [List.filterMap_append, List.filterMap_map]
  have hall : replayed.filterMap (handedOn ∘ fun data => Output.setup channel data codec) = replayed :=
    List.filterMap_some
  rw [hall]
  cases hout : handedOn o with
  | none => rw [List.filterMap_cons_none hout]; rfl
  | some data => rw [List.filterMap_cons_some hout]; rfl

/-- A frame that is no tap is handed on, if somebody is there for it. -/
theorem handle_relayed (hw : Untouched w) (ht : Tapped sp) (htap : f.isTap = false) (rest : Bytes) :
    ∃ sp', (handle w sp f.word f.payload rest).1 = some sp' ∧ Follows w sp sp' ∧
      (handle w sp f.word f.payload rest).2.flatMap soundOf = [] ∧
      (Served w sp → (handle w sp f.word f.payload rest).2.filterMap handedOn = due sp f ++ [f.payload] ∧
        (sp'.isVideo = false → sp'.replayHeaders = false)) ∧
      (¬Served w sp → (handle w sp f.word f.payload rest).2 = []) := by
  have hcodec : ¬sp.role = .processor := by
    rw [ht.codec]
    exact fun h => nomatch h
  have hsame : Follows w sp sp := ⟨id, Iff.rfl, rfl⟩
  unfold handle
  dsimp only
  rw [flag_tap, flag_header, htap, if_neg Bool.false_ne_true, if_neg hcodec]
  by_cases hvideo : sp.isVideo = true
  · rw [if_pos hvideo]
    have hnotdue : due sp f = [] := if_neg fun h => Bool.false_ne_true (h.1.symm.trans hvideo)
    have hserved : Served w sp ↔ 0 < sp.refcount :=
      ⟨fun h => h.1, fun h => ⟨h, fun hfalse => absurd (hfalse.symm.trans hvideo) Bool.false_ne_true⟩⟩
    by_cases hidle : sp.refcount = 0
    · rw [if_pos hidle]
      exact ⟨sp, rfl, hsame, rfl, fun h => absurd (hserved.mp h) (by omega), fun _ => rfl⟩
    · rw [if_neg hidle, if_pos ht.callback]
      refine ⟨sp, hw _ sp, hsame, rfl, fun _ => ⟨?_, fun hfalse => ?_⟩, fun h => absurd (hserved.mpr (by omega)) h⟩
      · rw [hnotdue]
        rfl
      · exact absurd (hfalse.symm.trans hvideo) Bool.false_ne_true
  · have hframe : sp.isVideo = false := eq_false_of_ne_true hvideo
    rw [if_neg hvideo]
    unfold relay
    generalize hkept : { sp with streamHeaders := retain sp f.isHeader f.payload } = kept
    have hchannel : channelOf w kept = channelOf w sp := by
      subst hkept
      rfl
    have hfollows : Follows w sp kept := by
      subst hkept
      exact ⟨fun h => ⟨h.codec, h.decodes, h.callback⟩, Iff.rfl, rfl⟩
    have hrefcount : kept.refcount = sp.refcount := by
      subst hkept
      rfl
    have hcodecOf : kept.plId = sp.plId := by
      subst hkept
      rfl
    have hreplay : (if kept.replayHeaders then replayStreamHeaders kept.streamHeaders else []) = due sp f := by
      subst hkept
      unfold due
      by_cases hpending : sp.replayHeaders = true
      · rw [if_pos hpending, if_pos ⟨hframe, hpending⟩]
      · rw [if_neg hpending, if_neg fun h => hpending h.2]
    dsimp only
    rw [hchannel, hreplay, hrefcount, hcodecOf]
    cases hfound : channelOf w sp with
    | none =>
        refine ⟨kept, rfl, hfollows, rfl, fun h => ?_, fun _ => rfl⟩
        obtain ⟨channel, hsome, -⟩ := h.2 hframe
        exact absurd (hfound.symm.trans hsome) (Option.some_ne_none channel).symm
    | some channel =>
        dsimp only
        by_cases hready : 0 < sp.refcount ∧ channel.codec.take 4 = sp.plId.take 4
        · have hsent : handedOn (if f.isHeader = true then Output.setup channel f.payload sp.plId
              else Output.media channel f.payload sp.plId) = some f.payload := by
            split <;> rfl
          have hquiet : soundOf (if f.isHeader = true then Output.setup channel f.payload sp.plId
              else Output.media channel f.payload sp.plId) = [] := by
            split <;> rfl
          rw [if_pos hready]
          refine ⟨_, rfl, ?_, ?_, fun _ => ⟨?_, fun _ => rfl⟩, fun h => absurd ⟨hready.1, fun _ => ⟨channel, hfound, hready.2⟩⟩ h⟩
          · subst hkept
            exact ⟨fun h => ⟨h.codec, h.decodes, h.callback⟩, Iff.rfl, rfl⟩
          · rw [List.flatMap_append, List.flatMap_map, List.flatMap_singleton, hquiet, List.append_nil]
            exact List.flatMap_eq_nil_iff.mpr fun _ _ => rfl
          · rw [handedOn_replayed, hsent]
            rfl
        · rw [if_neg hready]
          refine ⟨kept, rfl, hfollows, rfl, fun h => ?_, fun _ => rfl⟩
          obtain ⟨channel', hsome, hmatch⟩ := h.2 hframe
          obtain rfl : channel = channel' := Option.some.inj (hfound.symm.trans hsome)
          exact absurd ⟨h.1, hmatch⟩ hready

/-- A malformed tap is dropped. -/
theorem handle_malformed (htap : f.isTap = true) (hsound : ¬f.sound = true) (rest : Bytes) :
    handle w sp f.word f.payload rest = (some sp, []) := by
  have hbad : f.isHeader = true ∨ f.payload.length % 2 = 1 := by
    by_contra hgood
    refine hsound (sound_iff.mpr ⟨htap, ?_, ?_⟩)
    · exact eq_false_of_ne_true fun h => hgood (Or.inl h)
    · have hodd : ¬f.payload.length % 2 = 1 := fun h => hgood (Or.inr h)
      omega
  unfold handle
  dsimp only
  rw [flag_tap, flag_header, if_pos htap, if_pos hbad]

/-! ### Along the frames -/

/-- The frames that are no taps. -/
def others (frames : List Frame) : List Frame := frames.filter fun f => !f.isTap

/-- The retained setup data that goes out in a run. -/
def dueIn (sp : Child) (frames : List Frame) : List Bytes :=
  match others frames with
  | [] => []
  | f :: _ => due sp f

theorem dueIn_nil (h : sp.isVideo = false → sp.replayHeaders = false) (frames : List Frame) : dueIn sp frames = [] := by
  unfold dueIn
  split
  · rfl
  · refine if_neg fun hdue => ?_
    exact absurd (hdue.2.symm.trans (h hdue.1)) (fun h => Bool.false_ne_true h.symm)

theorem others_tap (h : f.isTap = true) (frames : List Frame) : others (f :: frames) = others frames := by
  unfold others
  exact List.filter_cons_of_neg (by rw [h]; exact Bool.false_ne_true)

theorem others_cons (h : f.isTap = false) (frames : List Frame) : others (f :: frames) = f :: others frames := by
  unfold others
  exact List.filter_cons_of_pos (by rw [h]; rfl)

/-- What a run comes to. -/
structure Delivered (w : World) (sp : Child) (frames : List Frame) (tail : Bytes)
    (run : Option Child × Bytes × List Output) : Prop where
  attached : ∃ sp', run.1 = some sp'
  left : run.2.1 = tail
  newest : run.2.2.flatMap soundOf = newest FWDSP_PCM_BACKLOG_BYTES (tapped frames)
  samples : ∀ o ∈ run.2.2, 2 ∣ (soundOf o).length
  served : Served w sp → run.2.2.filterMap handedOn = dueIn sp frames ++ (others frames).map Frame.payload
  unserved : ¬Served w sp → run.2.2.filterMap handedOn = []

theorem soundOf_even {out : List Output} (h : out.flatMap soundOf = []) : ∀ o ∈ out, 2 ∣ (soundOf o).length := by
  intro o ho
  rw [List.flatMap_eq_nil_iff.mp h o ho]
  exact Nat.dvd_zero 2

theorem parseRead_delivers (hw : Untouched w) (hinc : Incomplete tail) (frames : List Frame) : ∀ sp, Tapped sp →
    Delivered w sp frames tail (parseRead w (some sp) (buffer frames ++ tail)) := by
  induction frames with
  | nil =>
      intro sp ht
      have hrun : parseRead w (some sp) (buffer [] ++ tail) = (some sp, tail, []) := parseRead_incomplete hinc
      rw [hrun]
      exact ⟨⟨sp, rfl⟩, rfl, rfl, fun o ho => absurd ho List.not_mem_nil, fun _ => rfl, fun _ => rfl⟩
  | cons f frames ih =>
      intro sp ht
      rw [buffer_cons, parseRead_cons]
      by_cases htap : f.isTap = true
      · have hdue : dueIn sp (f :: frames) = dueIn sp frames := by
          unfold dueIn
          rw [others_tap htap]
        by_cases hsound : f.sound = true
        · -- the callback gets what the newest sound needs
          obtain ⟨hslot, hother, heven, hnewest⟩ := handle_sound frames hw ht hinc hsound
          have hrest := ih sp ht
          rw [hslot]
          refine ⟨hrest.attached, hrest.left, ?_, ?_, fun h => ?_, fun h => ?_⟩
          · dsimp only
            rw [List.flatMap_append, hrest.newest, hnewest, tapped_cons, if_pos hsound]
          · intro o ho
            rcases List.mem_append.mp ho with ho | ho
            · exact heven o ho
            · exact hrest.samples o ho
          · dsimp only
            rw [List.filterMap_append, hother, List.nil_append, hrest.served h, hdue, others_tap htap]
          · dsimp only
            rw [List.filterMap_append, hother, List.nil_append, hrest.unserved h]
        · have hrest := ih sp ht
          rw [handle_malformed htap hsound]
          refine ⟨hrest.attached, hrest.left, ?_, hrest.samples, fun h => ?_, hrest.unserved⟩
          · rw [tapped_cons, if_neg hsound]
            exact hrest.newest
          · rw [hdue, others_tap htap]
            exact hrest.served h
      · have htap : f.isTap = false := eq_false_of_ne_true htap
        have hsound : ¬f.sound = true := fun h => absurd ((sound_iff.mp h).1.symm.trans htap) (fun h => Bool.false_ne_true h.symm)
        obtain ⟨sp', hslot, hfollows, hquiet, hserved, hunserved⟩ := handle_relayed hw ht htap (buffer frames ++ tail)
        have hrest := ih sp' (hfollows.tapped ht)
        rw [hslot]
        refine ⟨hrest.attached, hrest.left, ?_, ?_, fun h => ?_, fun h => ?_⟩
        · dsimp only
          rw [List.flatMap_append, hquiet, hrest.newest, tapped_cons, if_neg hsound, List.nil_append, List.nil_append]
        · intro o ho
          rcases List.mem_append.mp ho with ho | ho
          · exact soundOf_even hquiet o ho
          · exact hrest.samples o ho
        · obtain ⟨hhanded, hpending⟩ := hserved h
          have hdue : dueIn sp (f :: frames) = due sp f := by
            unfold dueIn
            rw [others_cons htap]
          dsimp only
          rw [List.filterMap_append, hhanded, hrest.served (hfollows.served.mpr h), dueIn_nil hpending, hdue,
            others_cons htap, List.map_cons, List.append_assoc]
          rfl
        · dsimp only
          rw [List.filterMap_append, hunserved h, hrest.unserved fun hs => h (hfollows.served.mp hs)]
          rfl

/-- A run on complete frames and the start of another leaves that start.  The callback is given the newest of the
decoded sound, from a sample boundary on and in whole samples; malformed taps are dropped; and every frame that is
no tap is handed on whole, once and in order, behind what was due before, if somebody is there for it. -/
theorem taps_trimmed (w : World) (hw : Untouched w) (sp : Child) (ht : Tapped sp) (frames : List Frame) (tail : Bytes)
    (hinc : Incomplete tail) :
    let run := parseRead w (some sp) (buffer frames ++ tail)
    run.2.1 = tail ∧
      run.2.2.flatMap soundOf = newest FWDSP_PCM_BACKLOG_BYTES (tapped frames) ∧
      (∀ o ∈ run.2.2, 2 ∣ (soundOf o).length) ∧
      2 ∣ (tapped frames).length - FWDSP_PCM_BACKLOG_BYTES ∧
      (Served w sp → run.2.2.filterMap handedOn = dueIn sp frames ++ (others frames).map Frame.payload) ∧
      (¬Served w sp → run.2.2.filterMap handedOn = []) := by
  have hrun := parseRead_delivers hw hinc frames sp ht
  have hlimit : 2 ∣ FWDSP_PCM_BACKLOG_BYTES := Nat.dvd_of_mod_eq_zero rfl
  exact ⟨hrun.left, hrun.newest, hrun.samples, Newest.dvd_lost hlimit (dvd_tapped frames), hrun.served, hrun.unserved⟩

/-- Callbacks that do nothing, and a channel for every decoder. -/
def idleWorld : World where
  findUuid _ := none
  find _ := some { uuid := [], codec := [] }
  maxPayload := 0
  after _ sp := some sp

/-- A decoder with a callback and a listener. -/
def decoder : Child where
  role := .codec
  plId := []
  processorName := []
  channelUuid := []
  isTx := false
  isVideo := false
  streamHeaders := []
  replayHeaders := false
  refcount := 1
  processorIo := .bidirectional
  processorOutput := true

/-- One sample of decoded sound, and a tap that is not made of samples. -/
def sample : Frame := ⟨false, true, false, [1, 2], by simp, by decide⟩
def oddTap : Frame := ⟨false, true, false, [1], by simp, by decide⟩

theorem decoder_tapped : Tapped decoder := ⟨rfl, rfl, rfl⟩

theorem taps_trimmed_sample :
    (parseRead idleWorld (some decoder) (buffer [sample, oddTap] ++ [0])).2.2.flatMap soundOf =
      newest FWDSP_PCM_BACKLOG_BYTES (tapped [sample, oddTap]) :=
  (taps_trimmed idleWorld (fun _ _ => rfl) decoder decoder_tapped [sample, oddTap] [0] (Or.inl (by decide))).2.1

/-- A complete frame that is not decoded sound need not be handed on: a malformed tap is not. -/
theorem oddTap_dropped :
    ¬ ∀ (w : World) (sp : Child) (frames : List Frame) (tail : Bytes), Untouched w → Tapped sp → Served w sp →
      sp.replayHeaders = false → Incomplete tail →
      (parseRead w (some sp) (buffer frames ++ tail)).2.2.filterMap handedOn =
        (frames.filter fun f => !f.sound).map Frame.payload := by
  intro hall
  have hserved : Served idleWorld decoder := ⟨by decide, fun _ => ⟨_, rfl, rfl⟩⟩
  have hone := hall idleWorld decoder [oddTap] [] (fun _ _ => rfl) decoder_tapped hserved rfl (Or.inl (by decide))
  rw [buffer_cons, parseRead_cons, handle_malformed rfl (by decide)] at hone
  have hrest : parseRead idleWorld (some decoder) (buffer [] ++ []) = (some decoder, [], []) :=
    parseRead_incomplete (Or.inl (by decide))
  rw [hrest] at hone
  exact absurd hone (by decide)

end Fwdsp

end RustyRig
