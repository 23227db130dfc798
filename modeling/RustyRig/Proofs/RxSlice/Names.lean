/-
Names of slices and their specifications.

What is printed for a valid specification is short, and `sscanf` takes it apart again: no source
contains the slash that closes it, and no number is followed by a digit.  In the other direction
the parser compares with what it would print.
-/
import RustyRig.Rrserver.RxSlice

namespace RustyRig

namespace RxSlice

open Lib.Scanf

variable {s : Spec} {size : Nat} {name : List Char}

/-! ### Valid specifications -/

/-- What `valid` has checked. -/
structure Spec.Valid (s : Spec) : Prop where
  source : s.source ≠ []
  short : s.source.length < sourceMax
  rate : s.rate.toNat ≤ 192000
  channels : s.channels = 1 ∨ s.channels = 2
  format : s.format = s16le ∨ s.format = f32le
  chars : ∀ c ∈ s.source, sourceChar c = true

theorem Spec.valid_spec (h : s.valid = true) : s.Valid := by
  unfold Spec.valid at h
  simp only [Bool.and_eq_true, Bool.not_eq_true', Bool.or_eq_false_iff, decide_eq_false_iff_not,
    List.isEmpty_eq_false_iff, List.all_eq_true, Bool.and_eq_false_iff, bne_eq_false_iff_eq] at h
  obtain ⟨⟨⟨⟨⟨⟨⟨⟨⟨hsource, hshort⟩, -⟩, -⟩, -⟩, -⟩, hrate⟩, hchannels⟩, hformat⟩, hchars⟩ := h
  have hrate' : ¬ (192000 : UInt32).toNat < s.rate.toNat := hrate
  exact ⟨hsource, Nat.lt_of_not_le hshort, Nat.le_of_not_lt hrate', hchannels, hformat, hchars⟩

theorem sliceName_eq_some : sliceName s size = some name ↔
    s.valid = true ∧ s.text.length < size ∧ name = s.text := by
  unfold sliceName
  split
  · rename_i hzero
    simp [hzero]
  · split
    · rename_i hinvalid
      simp only [Bool.not_eq_true'] at hinvalid
      simp [hinvalid]
    · rename_i hvalid
      simp only [Bool.not_eq_true', Bool.not_eq_false] at hvalid
      split
      · rename_i hlength
        simp [hvalid, hlength, eq_comm]
      · rename_i hlength
        simp [hlength]

/-- A valid name fits the buffer that the parser prints to. -/
theorem Spec.Valid.length_text (h : s.Valid) : s.text.length < nameMax := by
  have hcenter : (Nat.toDigits 10 s.centerHz.toNat).length ≤ 20 :=
    Nat.toDigits_length 10 _ 20 (by decide) (Nat.lt_of_lt_of_le s.centerHz.toNat_lt (by decide))
  have hbandwidth : (Nat.toDigits 10 s.bandwidthHz.toNat).length ≤ 10 :=
    Nat.toDigits_length 10 _ 10 (by decide) (Nat.lt_of_lt_of_le s.bandwidthHz.toNat_lt (by decide))
  have hrate : (Nat.toDigits 10 s.rate.toNat).length ≤ 10 :=
    Nat.toDigits_length 10 _ 10 (by decide) (Nat.lt_of_lt_of_le s.rate.toNat_lt (by decide))
  have hformat : (if s.format = s16le then "s16le".toList else "f32le".toList).length = 5 := by
    split
    · rfl
    · rfl
  have hlayout : (if s.channels = 1 then "mono".toList else "stereo".toList).length ≤ 6 := by
    split
    · decide
    · decide
  have hshort : s.source.length < 64 := h.short
  have hrx : "rx://".toList.length = 5 := rfl
  have hslice : "/slice/".toList.length = 7 := rfl
  have hbw : "Hz/bw".toList.length = 5 := rfl
  have hhz : "Hz/rate".toList.length = 7 := rfl
  have hslash : "/".toList.length = 1 := rfl
  unfold Spec.text nameMax
  simp only [List.length_append, hrx, hslice, hbw, hhz, hslash, hformat]
  omega

theorem slash_not_sourceChar : sourceChar '/' = false := by decide

/-- No digit follows a number, but this text. -/
theorem head_append (text : List Char) {c d : Char} {rest : List Char} (htext : text.head? = some c)
    (hc : c.isDigit = false) (h : (text ++ rest).head? = some d) : d.isDigit = false := by
  rw [List.head?_append, htext, Option.some_or] at h
  rw [← Option.some.inj h]
  exact hc

/-- `sscanf` takes a printed name apart. -/
theorem Spec.Valid.scan_text (h : s.Valid) : scan s.text = some (s.source, s.centerHz.toNat,
    s.bandwidthHz.toNat, s.rate.toNat, if s.format = s16le then "s16le".toList else "f32le".toList,
    if s.channels = 1 then "mono".toList else "stereo".toList, []) := by
  have hslash : '/' ∉ s.source := by
    intro hmem
    have hchar := h.chars '/' hmem
    rw [slash_not_sourceChar] at hchar
    exact Bool.false_ne_true hchar
  have hformat : ∀ rest, upTo 15 '/' ((if s.format = s16le then "s16le".toList else "f32le".toList) ++
      ("/".toList ++ rest)) =
        some (if s.format = s16le then "s16le".toList else "f32le".toList, "/".toList ++ rest) := by
    intro rest
    split
    · exact upTo_append (by decide) (by decide) (by decide) (Or.inr rfl)
    · exact upTo_append (by decide) (by decide) (by decide) (Or.inr rfl)
  have hlayout : upTo 15 '/' (if s.channels = 1 then "mono".toList else "stereo".toList) =
      some (if s.channels = 1 then "mono".toList else "stereo".toList, []) := by
    split
    · rfl
    · rfl
  unfold scan Spec.text
  rw [literal_append, Option.bind_eq_bind, Option.bind_some,
    upTo_append h.source (Nat.le_of_lt_succ h.short) hslash (Or.inr rfl)]
  dsimp only [Option.bind_eq_bind, Option.bind_some]
  rw [literal_append, Option.bind_some,
    unsigned_toDigits (by decide) s.centerHz.toNat_lt fun c hc => head_append "Hz/bw".toList rfl (by decide) hc]
  dsimp only [Option.bind_some]
  rw [literal_append, Option.bind_some,
    unsigned_toDigits (by decide) s.bandwidthHz.toNat_lt fun c hc => head_append "Hz/rate".toList rfl (by decide) hc]
  dsimp only [Option.bind_some]
  rw [literal_append, Option.bind_some,
    unsigned_toDigits (by decide) s.rate.toNat_lt fun c hc => head_append "/".toList rfl (by decide) hc]
  dsimp only [Option.bind_some]
  rw [literal_append, Option.bind_some, hformat]
  dsimp only [Option.bind_some]
  rw [literal_append, Option.bind_some, hlayout]
  rfl

/-! ### Both ways -/

/-- What is printed is read back. -/
theorem Spec.Valid.parse_text (h : s.Valid) (hname : sliceName s nameMax = some s.text) :
    parseName s.text = some s := by
  have hstarts : "rx://".toList.isPrefixOf s.text = true := by
    unfold Spec.text
    rw [List.isPrefixOf_iff_prefix]
    exact List.prefix_append _ _
  have hformat : formatNamed (if s.format = s16le then "s16le".toList else "f32le".toList) =
      some s.format := by
    rcases h.format with hf | hf
    · rw [hf]
      decide
    · rw [hf]
      decide
  have hchannels : channelsNamed (if s.channels = 1 then "mono".toList else "stereo".toList) =
      some s.channels := by
    rcases h.channels with hc | hc
    · rw [hc]
      decide
    · rw [hc]
      decide
  unfold parseName
  rw [hstarts, if_neg (by simpa using h.length_text), h.scan_text]
  dsimp only
  rw [hformat, hchannels]
  dsimp only
  rw [UInt64.ofNat_toNat, UInt32.ofNat_toNat, UInt32.ofNat_toNat, if_pos hname]

/-- The parser prints what it read. -/
theorem sliceName_of_parse (h : parseName name = some s) : sliceName s nameMax = some name := by
  unfold parseName at h
  split at h
  · exact absurd h (Option.some_ne_none s).symm
  split at h
  · split at h
    · dsimp only at h
      split at h
      · rename_i hprinted
        rw [← Option.some.inj h]
        exact hprinted
      · exact absurd h (Option.some_ne_none s).symm
    · exact absurd h (Option.some_ne_none s).symm
  · exact absurd h (Option.some_ne_none s).symm

/-- **Slice names.**  A printed name is read back as what it was printed for, and the parser
accepts the printed names and no others. -/
theorem slice_names (s : Spec) (name : List Char) :
    (∀ size, sliceName s size = some name → parseName name = some s) ∧
    (parseName name = some s ↔ sliceName s nameMax = some name) ∧
    (s.valid = true → sliceName s nameMax = some s.text) := by
  have hread : ∀ size, sliceName s size = some name → parseName name = some s := by
    intro size h
    obtain ⟨hvalid, -, rfl⟩ := sliceName_eq_some.mp h
    have hv := Spec.valid_spec hvalid
    exact hv.parse_text (sliceName_eq_some.mpr ⟨hvalid, hv.length_text, rfl⟩)
  refine ⟨hread, ⟨sliceName_of_parse, hread nameMax⟩, fun hvalid => ?_⟩
  exact sliceName_eq_some.mpr ⟨hvalid, (Spec.valid_spec hvalid).length_text, rfl⟩

example : parseName "rx://rig0/slice/7074000Hz/bw2800Hz/rate8000/s16le/mono".toList =
    some ⟨"rig0".toList, 7074000, 2800, 8000, s16le, 1⟩ := by decide +kernel

example : parseName "rx://rig0/slice/07074000Hz/bw2800Hz/rate8000/s16le/mono".toList = none := by
  decide +kernel

end RxSlice

end RustyRig
