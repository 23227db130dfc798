/-
A grant of direct audio is read back as it was sent.

`Granted` is what the decoder wants of the fields.  It holds of the fields that the encoder finds in a
decoded grant (`grant_get`, `scanEndpoint_endpoint`), and a text with such fields decodes to their grant
(`audioDecode_audioText`).
-/
import RustyRig.Librustyirc.DccAudio
import RustyRig.Proofs.DccOffer.Decoder

namespace RustyRig

namespace DccAudio

open Lib
open DccOffer (Text IRC_MSGLEN mark sameName printed)

variable {s w p payload ip key parent channel security : Text} {ws : List Text} {T : Table} {grant : T.Dict} {voice : Bool}
  {n k maximum addr port ssrc stream owner direction : Nat}

/-! ### Numbers and atoms -/

theorem numberStep_bounded (h : maximum < 2 ^ 32) : Numeral.Bounded maximum (numberStep maximum) := by
  intro v d hv hd
  unfold numberStep
  dsimp only
  by_cases hfits : d ≤ maximum
  · have hroom : (maximum + 2 ^ 32 - d) % 2 ^ 32 = maximum - d := by omega
    rw [hroom]
    by_cases hle : v * 10 + d ≤ maximum
    · have hwrap : (v * 10 % 2 ^ 32 + d) % 2 ^ 32 = v * 10 + d := by omega
      rw [if_neg (by omega), hwrap, if_neg (by omega), if_pos hle]
    · rw [if_pos (by omega), if_neg hle]
  · -- the difference wraps, and the second comparison refuses the digit
    have hwrap : (v * 10 % 2 ^ 32 + d) % 2 ^ 32 = v * 10 + d := by omega
    rw [if_neg (by omega), hwrap, if_pos (by omega), if_neg (by omega)]

/-- The reader of numbers takes exactly the numerals up to its maximum. -/
theorem number_iff (h : maximum < 2 ^ 32) : number s maximum = some n ↔ Numeral.Spells s n ∧ n ≤ maximum :=
  Numeral.read_iff (numberStep_bounded h)

theorem number_printed (h : maximum < 2 ^ 32) (hn : n ≤ maximum) : number (printed n) maximum = some n :=
  (number_iff h).mpr ⟨Numeral.spells_toDigits n, hn⟩

/-- A visible character that is no colon. -/
def Visible (c : Char) : Prop := ' '.toNat < c.toNat ∧ c.toNat < 127 ∧ c ≠ ':'

theorem atom_iff : atom w k = true ↔ w ≠ [] ∧ w.length ≤ k ∧ ∀ c ∈ w, Visible c := by
  have hchar : ∀ c : Char, (!(decide (c.toNat ≤ ' '.toNat) || decide (127 ≤ c.toNat) || c == ':')) = true ↔ Visible c := by
    intro c
    unfold Visible
    simp only [Bool.not_eq_true', Bool.or_eq_false_iff, decide_eq_false_iff_not, beq_eq_false_iff_ne, Nat.not_le, and_assoc]
  unfold atom
  by_cases hrefused : w = [] ∨ k < w.length
  · rw [if_pos hrefused]
    refine iff_of_false Bool.false_ne_true fun h => ?_
    rcases hrefused with hnil | hlong
    · exact h.1 hnil
    · exact absurd h.2.1 (Nat.not_le.mpr hlong)
  · obtain ⟨hne, hlen⟩ := not_or.mp hrefused
    rw [if_neg hrefused, List.all_eq_true]
    simp only [hchar]
    exact ⟨fun h => ⟨hne, Nat.not_lt.mp hlen, h⟩, fun h => h.2.2⟩

theorem visible_of_digit {c : Char} (h : c.isDigit = true) : Visible c := by
  unfold Char.isDigit at h
  rw [Bool.and_eq_true, decide_eq_true_eq, decide_eq_true_eq] at h
  have hlow : 48 ≤ c.toNat := h.1
  have hhigh : c.toNat ≤ 57 := h.2
  have hblank : ' '.toNat = 32 := rfl
  refine ⟨by omega, by omega, ?_⟩
  rintro rfl
  exact absurd hhigh (by decide)

theorem visible_of_keyDigit {c : Char} (h : keyDigit c = true) : Visible c := by
  unfold keyDigit at h
  rw [Bool.or_eq_true, Bool.and_eq_true, decide_eq_true_eq, decide_eq_true_eq] at h
  rcases h with hdigit | ⟨hlow, hhigh⟩
  · exact visible_of_digit hdigit
  · have ha : 'a'.toNat = 97 := rfl
    have hf : 'f'.toNat = 102 := rfl
    have hblank : ' '.toNat = 32 := rfl
    refine ⟨by omega, by omega, ?_⟩
    rintro rfl
    exact absurd hlow (by decide)

theorem length_printed (h : n < 2 ^ 32) : (printed n).length ≤ 10 :=
  (Nat.length_toDigits_le_iff (by decide) (by decide)).mpr (by omega)

theorem atom_printed (h : n < 2 ^ 32) : atom (printed n) 127 = true := by
  have hlength := length_printed h
  exact atom_iff.mpr ⟨Nat.toDigits_ne_nil, by omega, fun c hc => visible_of_digit ((Numeral.spells_toDigits n).digits c hc)⟩

theorem quad_visible (h : Ipv4.pton ip = some addr) : ip ≠ [] ∧ ip.length ≤ 15 ∧ ∀ c ∈ ip, Visible c := by
  obtain ⟨hsmall, rfl⟩ := Ipv4.pton_iff.mp h
  refine ⟨List.ne_nil_of_mem (Ipv4.dot_mem_ntop addr), Ipv4.length_ntop_le hsmall, fun c hc => ?_⟩
  rcases Ipv4.mem_ntop hc with hdigit | rfl
  · exact visible_of_digit hdigit
  · exact ⟨by decide, by decide, by decide⟩

/-! ### The fields -/

theorem blank_not_mem (h : atom w k = true) : ' ' ∉ w := fun hmem =>
  absurd ((atom_iff.mp h).2.2 ' ' hmem).1 (Nat.lt_irrefl _)

/-- The fields of a joined text. -/
theorem split_joined (hne : ws ≠ []) (hws : ∀ w ∈ ws, atom w 127 = true) :
    ∀ room, ws.length ≤ room → split room ([' '].intercalate ws) = some ws := by
  induction ws with
  | nil => exact absurd rfl hne
  | cons w ws ih =>
      intro room hroom
      have hw := hws w List.mem_cons_self
      cases room with
      | zero => exact absurd hroom (Nat.not_succ_le_zero _)
      | succ room =>
          cases ws with
          | nil =>
              rw [List.intercalate_singleton, split, Words.cut_word (blank_not_mem hw)]
              dsimp only
              rw [if_neg (by rw [hw]; exact Bool.noConfusion), if_pos (blank_not_mem hw)]
          | cons w' ws =>
              have hmem : ¬ ' ' ∉ w ++ ' ' :: [' '].intercalate (w' :: ws) := fun hnot =>
                hnot (List.mem_append_right w List.mem_cons_self)
              rw [List.intercalate_cons_cons, List.append_assoc, List.singleton_append, split, Words.cut_append (blank_not_mem hw)]
              dsimp only
              rw [if_neg (by rw [hw]; exact Bool.noConfusion), if_neg hmem,
                ih (List.cons_ne_nil _ _) (fun x hx => hws x (List.mem_cons_of_mem w hx)) room (Nat.le_of_succ_le_succ hroom)]
              rfl

theorem atoms_of_split : ∀ room p ws, split room p = some ws → ∀ w ∈ ws, atom w 127 = true := by
  intro room
  induction room with
  | zero => exact fun p ws h => absurd h (Option.some_ne_none ws).symm
  | succ room ih =>
      intro p ws h
      rw [split] at h
      split at h
      · exact absurd h (Option.some_ne_none ws).symm
      rename_i hfirst
      have hfirst : atom (Words.cut ' ' p).1 127 = true := eq_true_of_ne_false hfirst
      split at h
      · rw [← Option.some.inj h]
        intro w hw
        rw [List.mem_singleton.mp hw]
        exact hfirst
      · obtain ⟨ws', hws', rfl⟩ := Option.map_eq_some_iff.mp h
        exact List.forall_mem_cons.mpr ⟨hfirst, ih _ ws' hws'⟩

/-- What the decoder wants of the fields. -/
structure Granted (ip key parent channel security : Text) (port ssrc stream owner direction : Nat) : Prop where
  quad : ∃ addr, Ipv4.pton ip = some addr
  port : 0 < port ∧ port ≤ 65535
  ssrc : 0 < ssrc ∧ ssrc ≤ 0x7fffffff
  stream : 0 < stream ∧ stream ≤ 255
  owner : 0 < owner ∧ owner ≤ 255
  direction : direction ≤ 1
  key : key.length = IRC_AUDIO_KEY_BYTES * 2 ∧ key.all keyDigit = true
  parent : atom parent 63 = true
  channel : atom channel 63 = true
  security : security = NULL_SHA1_80 ∨ security = AES128CM_SHA1_80

theorem atom_shorter (h : atom w 127 = true) (hlen : w.length < 64) : atom w 63 = true := by
  obtain ⟨hne, -, hvisible⟩ := atom_iff.mp h
  exact atom_iff.mpr ⟨hne, Nat.le_of_lt_succ hlen, hvisible⟩

theorem atom_longer (h : atom w 63 = true) : atom w 127 = true := by
  obtain ⟨hne, hlen, hvisible⟩ := atom_iff.mp h
  exact atom_iff.mpr ⟨hne, by omega, hvisible⟩

/-- A grant that was read has such fields. -/
theorem granted_of_decode (h : audioDecode T payload = some grant) :
    ∃ voice ip port key parent channel ssrc stream owner direction security,
      Granted ip key parent channel security port ssrc stream owner direction ∧
        grant = grantOf T voice ip port key parent channel ssrc stream owner direction security := by
  unfold audioDecode at h
  split at h
  · exact absurd h (Option.some_ne_none grant).symm
  split at h
  · rename_i dcc audio version ip port key parent channel ssrc stream owner direction security more hsplit
    have hatoms := atoms_of_split 15 _ _ hsplit
    dsimp only at h
    split at h
    · exact absurd h (Option.some_ne_none grant).symm
    split at h
    · rename_i addr port' ssrc' stream' owner' direction' hquad hport hssrc hstream howner hdirection
      split at h
      · exact absurd h (Option.some_ne_none grant).symm
      rename_i hbounds
      simp only [not_or, not_and, not_not, Nat.not_le] at hbounds
      obtain ⟨hport0, hssrc0, hstream0, howner0, hkey, hparent, hchannel, hsecurity⟩ := hbounds
      split at h
      · exact absurd h (Option.some_ne_none grant).symm
      rename_i hkeyDigits
      refine ⟨_, ip, port', key, parent, channel, ssrc', stream', owner', direction', security, ?_, (Option.some.inj h).symm⟩
      exact
        { quad := ⟨addr, hquad⟩
          port := ⟨Nat.pos_of_ne_zero hport0, ((number_iff (by decide)).mp hport).2⟩
          ssrc := ⟨Nat.pos_of_ne_zero hssrc0, ((number_iff (by decide)).mp hssrc).2⟩
          stream := ⟨Nat.pos_of_ne_zero hstream0, ((number_iff (by decide)).mp hstream).2⟩
          owner := ⟨Nat.pos_of_ne_zero howner0, ((number_iff (by decide)).mp howner).2⟩
          direction := ((number_iff (by decide)).mp hdirection).2
          key := ⟨hkey, eq_true_of_ne_false hkeyDigits⟩
          parent := atom_shorter (hatoms parent (by simp)) hparent
          channel := atom_shorter (hatoms channel (by simp)) hchannel
          security := or_iff_not_imp_left.mpr hsecurity }
    · exact absurd h (Option.some_ne_none grant).symm
  · exact absurd h (Option.some_ne_none grant).symm

/-! ### The printed text -/

/-- The fields of the text. -/
def audioFields (voice : Bool) (ip : Text) (port : Nat) (key parent channel : Text) (ssrc stream owner direction : Nat)
    (security : Text) : List Text :=
  ['D', 'C', 'C'] :: ['A', 'U', 'D', 'I', 'O'] :: (if voice then ['2'] else ['1']) :: ip :: printed port :: key :: parent ::
    channel :: printed ssrc :: printed stream :: printed owner :: printed direction :: security ::
      if voice then [VOICE, S16L] else []

theorem audioText_eq : audioText voice ip port key parent channel ssrc stream owner direction security =
    mark :: ([' '].intercalate (audioFields voice ip port key parent channel ssrc stream owner direction security) ++ [mark]) := by
  unfold audioText audioFields
  cases voice with
  | false => simp [List.intercalate_cons_cons, List.intercalate_singleton]
  | true => simp [List.intercalate_cons_cons, List.intercalate_singleton]

theorem Granted.atoms (h : Granted ip key parent channel security port ssrc stream owner direction) :
    ∀ w ∈ audioFields voice ip port key parent channel ssrc stream owner direction security, atom w 127 = true := by
  obtain ⟨addr, hquad⟩ := h.quad
  obtain ⟨hne, hlen, hvisible⟩ := quad_visible hquad
  have hport := h.port
  have hssrc := h.ssrc
  have hstream := h.stream
  have howner := h.owner
  have hdirection := h.direction
  have hkey : atom key 127 = true := by
    have hlength : key.length = 60 := h.key.1
    refine atom_iff.mpr ⟨List.ne_nil_of_length_pos (by omega), by omega, fun c hc => ?_⟩
    exact visible_of_keyDigit (List.all_eq_true.mp h.key.2 c hc)
  have hsecurity : atom security 127 = true := by
    rcases h.security with rfl | rfl
    · decide
    · decide
  unfold audioFields
  simp only [List.forall_mem_cons]
  refine ⟨by decide, by decide, ?_, atom_iff.mpr ⟨hne, by omega, hvisible⟩, atom_printed (by omega), hkey, atom_longer h.parent,
    atom_longer h.channel, atom_printed (by omega), atom_printed (by omega), atom_printed (by omega), atom_printed (by omega),
    hsecurity, ?_⟩
  · cases voice with
    | false => decide
    | true => decide
  · cases voice with
    | false => exact fun w hw => absurd hw List.not_mem_nil
    | true => decide

/-- The text is well within a message. -/
theorem Granted.length_audioText (h : Granted ip key parent channel security port ssrc stream owner direction) (voice : Bool) :
    (audioText voice ip port key parent channel ssrc stream owner direction security).length < IRC_MSGLEN := by
  obtain ⟨addr, hquad⟩ := h.quad
  have hip := (quad_visible hquad).2.1
  have hport := length_printed (n := port) (by have := h.port; omega)
  have hssrc := length_printed (n := ssrc) (by have := h.ssrc; omega)
  have hstream := length_printed (n := stream) (by have := h.stream; omega)
  have howner := length_printed (n := owner) (by have := h.owner; omega)
  have hdirection := length_printed (n := direction) (by have := h.direction; omega)
  have hkey : key.length = 60 := h.key.1
  have hparent := (atom_iff.mp h.parent).2.1
  have hchannel := (atom_iff.mp h.channel).2.1
  have hsecurity : security.length ≤ 16 := by
    rcases h.security with rfl | rfl
    · decide
    · decide
  have hlimit : IRC_MSGLEN = 1024 := rfl
  rw [hlimit]
  unfold audioText
  cases voice with
  | false =>
      simp [List.intercalate_cons_cons, List.intercalate_singleton]
      omega
  | true =>
      simp [List.intercalate_cons_cons, List.intercalate_singleton, VOICE, S16L]
      omega

/-- A printed grant is read. -/
theorem audioDecode_audioText (h : Granted ip key parent channel security port ssrc stream owner direction) :
    audioDecode T (audioText voice ip port key parent channel ssrc stream owner direction security) =
      some (grantOf T voice ip port key parent channel ssrc stream owner direction security) := by
  have hshort := h.length_audioText voice
  have hframe := DccOffer.framed_iff.mpr ⟨_, audioText_eq, hshort⟩
  have hne : audioFields voice ip port key parent channel ssrc stream owner direction security ≠ [] := List.cons_ne_nil _ _
  have hroom : (audioFields voice ip port key parent channel ssrc stream owner direction security).length ≤ 15 := by
    unfold audioFields
    cases voice with
    | false => exact Nat.le_of_ble_eq_true rfl
    | true => exact Nat.le_refl 15
  have hsplit := split_joined hne h.atoms 15 hroom
  obtain ⟨addr, hquad⟩ := h.quad
  have hkey : ¬ key.all keyDigit = false := by
    rw [h.key.2]
    exact Bool.noConfusion
  have hport := h.port
  have hssrc := h.ssrc
  have hstream := h.stream
  have howner := h.owner
  have hnotParent := (atom_iff.mp h.parent).2.1
  have hnotChannel := (atom_iff.mp h.channel).2.1
  have hbounds : ¬ (port = 0 ∨ ssrc = 0 ∨ stream = 0 ∨ owner = 0 ∨ key.length ≠ IRC_AUDIO_KEY_BYTES * 2 ∨
      64 ≤ parent.length ∨ 64 ≤ channel.length ∨ (security ≠ NULL_SHA1_80 ∧ security ≠ AES128CM_SHA1_80)) := by
    rintro (hzero | hzero | hzero | hzero | hlen | hlen | hlen | hsecurity)
    · omega
    · omega
    · omega
    · omega
    · exact hlen h.key.1
    · omega
    · omega
    · exact h.security.elim hsecurity.1 hsecurity.2
  unfold audioDecode
  rw [if_neg hframe, audioText_eq, List.tail_cons, List.dropLast_concat, hsplit]
  unfold audioFields
  dsimp only
  rw [hquad, number_printed (by decide) h.port.2, number_printed (by decide) h.ssrc.2, number_printed (by decide) h.stream.2,
    number_printed (by decide) h.owner.2, number_printed (by decide) h.direction]
  dsimp only
  rw [if_neg hbounds, if_neg hkey]
  cases voice with
  | false => rfl
  | true => rfl

/-! ### The grant -/

theorem scanEndpoint_endpoint (hquad : Ipv4.pton ip = some addr) (hport : port ≤ 65535) :
    scanEndpoint (endpoint ip port) = some (ip, port) := by
  obtain ⟨hne, hlen, hvisible⟩ := quad_visible hquad
  have hprinted := length_printed (n := port) (by omega)
  have hfits : (scheme ++ (ip ++ ':' :: printed port)).length ≤ 95 := by
    have hscheme : scheme.length = 6 := rfl
    rw [List.length_append, List.length_append, List.length_cons]
    omega
  have hcolon : ':' ∉ ip := fun h => (hvisible ':' h).2.2 rfl
  have hnumber : Scanf.unsigned 32 (Nat.toDigits 10 port ++ []) = some (port, []) :=
    Scanf.unsigned_toDigits (by decide) (by omega) fun c hc => absurd hc (Option.some_ne_none c).symm
  rw [List.append_nil] at hnumber
  unfold scanEndpoint endpoint
  rw [List.take_of_length_le hfits, Scanf.literal_append, Option.bind_eq_bind, Option.bind_some,
    Scanf.upTo_append hne (by omega) hcolon (Or.inr rfl), Option.bind_eq_bind, Option.bind_some]
  dsimp only
  rw [show Scanf.literal [':'] (':' :: printed port) = some (printed port) from rfl, Option.bind_eq_bind, Option.bind_some,
    printed, hnumber, Option.bind_some]
  exact if_pos rfl

/-- What the encoder finds in a grant. -/
structure Found (T : Table) (grant : T.Dict) (voice : Bool) (ip : Text) (port : Nat) (key parent channel : Text)
    (ssrc stream owner direction : Nat) (security : Text) : Prop where
  kind : T.get grant "media.kind" [] = if voice then VOICE else []
  codec : T.get grant "media.codec" [] = if voice then S16L else []
  direct : T.get grant "media.direct" [] = endpoint ip port
  key : T.get grant "media.direct-key" [] = key
  parent : T.get grant "media.parent-session" [] = parent
  channel : T.get grant "media.chan-uuid" [] = channel
  ssrc : T.getUlong grant "media.direct-ssrc" 0 = ssrc
  stream : T.getUlong grant "media.stream" 0 = stream
  owner : ∀ dflt, T.getUlong grant "media.owner-stream" dflt = owner
  direction : T.getUlong grant "media.dir" 2 = direction
  security : T.get grant "media.direct-security" [] = security

theorem found (h : Granted ip key parent channel security port ssrc stream owner direction) :
    Found T (grantOf T voice ip port key parent channel ssrc stream owner direction security) voice ip port key parent channel
      ssrc stream owner direction security := by
  have hsmall : ssrc < 2 ^ 32 ∧ stream < 2 ^ 32 ∧ owner < 2 ^ 32 ∧ direction < 2 ^ 32 := by
    have hssrc := h.ssrc
    have hstream := h.stream
    have howner := h.owner
    have hdirection := h.direction
    omega
  have hssrc := fun d key dflt => T.getUlong_addUlong d key ssrc dflt hsmall.1
  have hstream := fun d key dflt => T.getUlong_addUlong d key stream dflt hsmall.2.1
  have howner := fun d key dflt => T.getUlong_addUlong d key owner dflt hsmall.2.2.1
  have hdirection := fun d key dflt => T.getUlong_addUlong d key direction dflt hsmall.2.2.2
  unfold grantOf
  cases voice with
  | false =>
      constructor <;>
        simp [T.get_new, T.get_add, T.get_add_ne, T.get_addUlong_ne, T.getUlong_add_ne,
          T.getUlong_addUlong_ne, hssrc, hstream, howner, hdirection]
  | true =>
      constructor <;>
        simp [T.get_add, T.get_add_ne, T.get_addUlong_ne, T.getUlong_add_ne,
          T.getUlong_addUlong_ne, hssrc, hstream, howner, hdirection]

theorem audioEncode_found (h : Granted ip key parent channel security port ssrc stream owner direction)
    (hfound : Found T grant voice ip port key parent channel ssrc stream owner direction security) :
    audioEncode T parent grant =
      some (audioText voice ip port key parent channel ssrc stream owner direction security) := by
  obtain ⟨addr, hquad⟩ := h.quad
  have hshort := h.length_audioText voice
  have hvoice : decide (T.get grant "media.kind" [] = VOICE) = voice := by
    rw [hfound.kind]
    cases voice with
    | false => rfl
    | true => rfl
  have hcodec : ¬ (voice = true ∧ T.get grant "media.codec" [] ≠ S16L) := by
    rintro ⟨rfl, hne⟩
    exact hne hfound.codec
  unfold audioEncode
  rw [if_neg (by rw [h.parent]; exact Bool.noConfusion)]
  dsimp only
  rw [hvoice, if_neg hcodec, hfound.direct, scanEndpoint_endpoint hquad h.port.2]
  dsimp only
  rw [hfound.key, hfound.channel, hfound.ssrc, hfound.stream, hfound.owner, hfound.direction, hfound.security,
    if_neg (Nat.not_le.mpr hshort), audioDecode_audioText h]

/-- The codecs of DCC offers and of grants agree, and their readers of numbers are exact. -/
theorem codecs :
    (∀ o, (∃ text, DccOffer.encode o = some text) ↔ ∃ addr, DccOffer.Sendable o addr) ∧
    (∀ o text, DccOffer.encode o = some text → ∃ r, DccOffer.decode text = some r ∧ DccOffer.Same o r) ∧
    (∀ payload o, DccOffer.decode payload = some o ↔ DccOffer.Reads payload o) ∧
    (∀ (T : Table) payload grant, audioDecode T payload = some grant →
      ∃ text, audioEncode T (T.get grant "media.parent-session" []) grant = some text ∧ audioDecode T text = some grant) ∧
    (∀ text maximum n, maximum < 2 ^ 64 →
      (DccOffer.decimal text maximum = some n ↔ Numeral.Spells text n ∧ n ≤ maximum)) ∧
    (∀ text maximum n, maximum < 2 ^ 32 → (number text maximum = some n ↔ Numeral.Spells text n ∧ n ≤ maximum)) := by
  refine ⟨fun o => ?_, fun o text h => ?_, fun payload o => DccOffer.decode_iff, fun T payload grant h => ?_,
    fun text maximum n h => DccOffer.decimal_iff h, fun text maximum n h => number_iff h⟩
  · constructor
    · rintro ⟨text, h⟩
      obtain ⟨addr, hsend, -⟩ := DccOffer.encode_iff.mp h
      exact ⟨addr, hsend⟩
    · rintro ⟨addr, hsend⟩
      exact ⟨_, DccOffer.encode_iff.mpr ⟨addr, hsend, rfl⟩⟩
  · obtain ⟨addr, hsend, rfl⟩ := DccOffer.encode_iff.mp h
    exact DccOffer.decode_offerText hsend
  · obtain ⟨voice, ip, port, key, parent, channel, ssrc, stream, owner, direction, security, hgranted, rfl⟩ :=
      granted_of_decode h
    have hfound : Found T _ voice _ _ _ _ _ _ _ _ _ _ := found hgranted
    rw [hfound.parent]
    exact ⟨_, audioEncode_found hgranted hfound, audioDecode_audioText hgranted⟩

/-- A chat at a port that there is none of. -/
def farOffer : DccOffer.Offer where
  type := .chat
  sizeKnown := false
  filename := []
  ip := ['1', '.', '2', '.', '3', '.', '4']
  port := 65536
  size := 0

/-- Its address is a plain one and its port is not zero. -/
theorem farOffer_not_sent : Ipv4.pton farOffer.ip = some 16909060 ∧ farOffer.port ≠ 0 ∧ DccOffer.encode farOffer = none := by
  refine ⟨by decide, by decide, ?_⟩
  rw [Option.eq_none_iff_forall_not_mem]
  intro text h
  obtain ⟨addr, hsend, -⟩ := DccOffer.encode_iff.mp h
  exact absurd hsend.bounded (by decide)

end DccAudio

end RustyRig
