/-
What the SASL response sends.

The two buffers hold what is written to them (`fillPlain_spec`, `encodeLoop_spec`), so the text is the
Base64 of the credentials.  It is cut into lines of 400 characters (`dataLines`), and a line without any
closes it where the last one was full.
-/
import RustyRig.Librustyirc.Sasl
import RustyRig.Proofs.Base64.Codec

namespace RustyRig

namespace Sasl

open Lib.Buffer

variable {c : Connection} {user pass plain rest : Bytes} {encoded text line : Text} {bytes length i n : Nat}

/-- What the client says of itself: NUL, the user, NUL, the password. -/
def plainText (user pass : Bytes) : Bytes := 0 :: (user ++ 0 :: pass)

/-! ### The buffers -/

theorem fillPlain_spec (huser : user.length ≤ LOGINLEN) (hpass : pass.length ≤ PASSLEN) :
    ∃ plain, fillPlain user pass = some plain ∧ user.length + pass.length + 2 ≤ plain.length ∧
      plain.take (user.length + pass.length + 2) = plainText user pass := by
  have hstart : (List.replicate (LOGINLEN + PASSLEN + 3) (0 : UInt8)).length = LOGINLEN + PASSLEN + 3 := List.length_replicate
  obtain ⟨p₁, h₁, hlen₁, htake₁⟩ := put_spec (List.replicate (LOGINLEN + PASSLEN + 3) (0 : UInt8)) 0 0 (by omega)
  obtain ⟨p₂, h₂, hlen₂, htake₂⟩ := copy_all p₁ user 1 (by omega)
  obtain ⟨p₃, h₃, hlen₃, htake₃⟩ := put_spec p₂ (user.length + 1) 0 (by omega)
  obtain ⟨p₄, h₄, hlen₄, htake₄⟩ := copy_all p₃ pass (user.length + 2) (by omega)
  rw [Nat.zero_add, List.take_zero, List.nil_append] at htake₁
  rw [htake₁, Nat.add_comm 1] at htake₂
  rw [htake₂] at htake₃
  rw [htake₃] at htake₄
  refine ⟨p₄, ?_, by omega, ?_⟩
  · simp only [fillPlain, Option.bind_eq_bind, h₁, h₂, h₃, h₄, Option.bind_some]
  · have hsum : user.length + pass.length + 2 = user.length + 2 + pass.length := by omega
    rw [hsum, htake₄]
    unfold plainText
    rw [List.append_assoc, List.append_assoc]
    rfl

/-- Bytes side by side. -/
theorem or_eq_add {a b : Nat} (k : Nat) (h : b < 2 ^ k) : a <<< k ||| b = a * 2 ^ k + b := by
  rw [← Nat.shiftLeft_add_eq_or_of_lt h, Nat.shiftLeft_eq]

theorem getElem?_of_drop (hrest : (plain.take bytes).drop i = rest) {k : Nat} (hk : i + k < bytes) : plain[i + k]? = rest[k]? := by
  rw [← hrest, List.getElem?_drop, List.getElem?_take_of_lt hk]

/-- The value of a group whose bytes are there. -/
theorem groupValue_spec (hrest : (plain.take bytes).drop i = rest) (hbytes : bytes = i + rest.length) :
    (∀ a, rest = [a] → groupValue plain bytes i = some (a.toNat * 65536)) ∧
      (∀ a b, rest = [a, b] → groupValue plain bytes i = some (a.toNat * 65536 + b.toNat * 256)) ∧
      ∀ a b d rest', rest = a :: b :: d :: rest' →
        groupValue plain bytes i = some (a.toNat * 65536 + b.toNat * 256 + d.toNat) := by
  have hread : ∀ {k : Nat}, i + k < bytes → plain[i + k]? = rest[k]? := getElem?_of_drop hrest
  have htwo : ∀ a b : UInt8, a.toNat <<< 16 ||| b.toNat <<< 8 = a.toNat * 65536 + b.toNat * 256 := by
    intro a b
    have hb := b.toNat_lt
    have hshift : b.toNat <<< 8 = b.toNat * 256 := Nat.shiftLeft_eq b.toNat 8
    rw [or_eq_add 16 (by omega), hshift]
    rfl
  refine ⟨?_, ?_, ?_⟩
  · rintro a rfl
    have hbytes : bytes = i + 1 := hbytes
    have ha : plain[i]? = some a := hread (by omega : i + 0 < bytes)
    have hone : ¬i + 1 < bytes := by omega
    have htwo : ¬i + 2 < bytes := by omega
    simp only [groupValue, Option.bind_eq_bind, ha, Option.bind_some, if_neg hone, if_neg htwo]
    exact congrArg some (Nat.shiftLeft_eq a.toNat 16)
  · rintro a b rfl
    have hbytes : bytes = i + 2 := hbytes
    have hone : i + 1 < bytes := by omega
    have hnone : ¬i + 2 < bytes := by omega
    have ha : plain[i]? = some a := hread (by omega : i + 0 < bytes)
    have hb : plain[i + 1]? = some b := hread hone
    simp only [groupValue, Option.bind_eq_bind, ha, Option.bind_some, if_pos hone, hb, Option.map_some, if_neg hnone, htwo]
  · rintro a b d rest' rfl
    have hbytes : bytes = i + (rest'.length + 3) := hbytes
    have hone : i + 1 < bytes := by omega
    have hnext : i + 2 < bytes := by omega
    have ha : plain[i]? = some a := hread (by omega : i + 0 < bytes)
    have hb : plain[i + 1]? = some b := hread hone
    have hd : plain[i + 2]? = some d := hread hnext
    have hall : a.toNat * 65536 + b.toNat * 256 ||| d.toNat = a.toNat * 65536 + b.toNat * 256 + d.toNat := by
      have hbound := d.toNat_lt
      have hshift : a.toNat * 65536 + b.toNat * 256 = (a.toNat * 256 + b.toNat) <<< 8 := by
        rw [Nat.shiftLeft_eq]
        omega
      rw [hshift, or_eq_add 8 (by omega), Nat.shiftLeft_eq]
    simp only [groupValue, Option.bind_eq_bind, ha, Option.bind_some, if_pos hone, hb, Option.map_some, if_pos hnext, hd,
      htwo, hall]

/-- Four characters behind those there are. -/
theorem puts_spec (encoded : Text) (length : Nat) (w x y z : Char) (h : length + 4 ≤ encoded.length) :
    ∃ e₁ e₂ e₃ e₄, put encoded length w = some e₁ ∧ put e₁ (length + 1) x = some e₂ ∧ put e₂ (length + 2) y = some e₃ ∧
      put e₃ (length + 3) z = some e₄ ∧ e₄.length = encoded.length ∧
      e₄.take (length + 4) = encoded.take length ++ [w, x, y, z] := by
  obtain ⟨e₁, h₁, hlen₁, htake₁⟩ := put_spec encoded length w (by omega)
  obtain ⟨e₂, h₂, hlen₂, htake₂⟩ := put_spec e₁ (length + 1) x (by omega)
  obtain ⟨e₃, h₃, hlen₃, htake₃⟩ := put_spec e₂ (length + 2) y (by omega)
  obtain ⟨e₄, h₄, hlen₄, htake₄⟩ := put_spec e₃ (length + 3) z (by omega)
  refine ⟨e₁, e₂, e₃, e₄, h₁, h₂, h₃, h₄, by omega, ?_⟩
  rw [htake₄, htake₃, htake₂, htake₁, List.append_assoc, List.append_assoc, List.append_assoc]
  rfl

/-- A digit of the alphabet. -/
theorem digit_eq {m k : Nat} (h : m = k) : alphabet.getD m 'A' = Invitation.base64Digit k := by
  rw [h]
  rfl

theorem and_63 (m : Nat) : m &&& 63 = m % 64 := Nat.and_two_pow_sub_one_eq_mod m 6

theorem shiftRight_12 (m : Nat) : m >>> 12 = m / 4096 := Nat.shiftRight_eq_div_pow m 12
theorem shiftRight_18 (m : Nat) : m >>> 18 = m / 262144 := Nat.shiftRight_eq_div_pow m 18
theorem shiftRight_6 (m : Nat) : m >>> 6 = m / 64 := Nat.shiftRight_eq_div_pow m 6

/-- One round of the loop. -/
theorem encodeLoop_round {value : Nat} (hi : i < bytes) (hvalue : groupValue plain bytes i = some value)
    (hroom : length + 4 ≤ encoded.length) :
    ∃ encoded', encodeLoop plain bytes i encoded length = encodeLoop plain bytes (i + 3) encoded' (length + 4) ∧
      encoded'.length = encoded.length ∧
      encoded'.take (length + 4) = encoded.take length ++
        [Invitation.base64Digit (value / 262144), Invitation.base64Digit (value / 4096 % 64),
          if i + 1 < bytes then Invitation.base64Digit (value / 64 % 64) else '=',
          if i + 2 < bytes then Invitation.base64Digit (value % 64) else '='] := by
  have hdigit : ∀ m, alphabet.getD m 'A' = Invitation.base64Digit m := fun _ => rfl
  have h18 : value >>> 18 = value / 262144 := Nat.shiftRight_eq_div_pow value 18
  have h12 : value >>> 12 &&& 63 = value / 4096 % 64 := by
    rw [Nat.shiftRight_eq_div_pow value 12]
    exact Nat.and_two_pow_sub_one_eq_mod _ 6
  have h6 : value >>> 6 &&& 63 = value / 64 % 64 := by
    rw [Nat.shiftRight_eq_div_pow value 6]
    exact Nat.and_two_pow_sub_one_eq_mod _ 6
  have h0 : value &&& 63 = value % 64 := Nat.and_two_pow_sub_one_eq_mod value 6
  obtain ⟨e₁, e₂, e₃, e₄, h₁, h₂, h₃, h₄, hlen, htake⟩ := puts_spec encoded length (Invitation.base64Digit (value / 262144))
    (Invitation.base64Digit (value / 4096 % 64)) (if i + 1 < bytes then Invitation.base64Digit (value / 64 % 64) else '=')
    (if i + 2 < bytes then Invitation.base64Digit (value % 64) else '=') hroom
  refine ⟨e₄, ?_, hlen, htake⟩
  rw [encodeLoop, if_pos hi]
  simp only [Option.bind_eq_bind, hvalue, Option.bind_some, hdigit, h18, h12, h6, h0, h₁, h₂, h₃, h₄]

/-- Nothing is left to encode. -/
theorem encodeLoop_done (h : bytes ≤ i) : encodeLoop plain bytes i encoded length = some (encoded, length) := by
  rw [encodeLoop, if_neg (Nat.not_lt.mpr h)]

/-- The loop appends the Base64 text of the bytes that are left. -/
theorem encodeLoop_spec : ∀ (rest : Bytes) (i : Nat) (encoded : Text) (length : Nat),
    (plain.take bytes).drop i = rest → bytes = i + rest.length → length + (rest.length + 2) / 3 * 4 ≤ encoded.length →
    ∃ encoded', encodeLoop plain bytes i encoded length = some (encoded', length + (Base64.encode rest).length) ∧
      encoded'.length = encoded.length ∧
      encoded'.take (length + (Base64.encode rest).length) = encoded.take length ++ Base64.encode rest
  | [], i, encoded, length, _, hbytes, _ => by
      refine ⟨encoded, encodeLoop_done (Nat.le_of_eq hbytes), rfl, ?_⟩
      exact (List.append_nil _).symm
  | [a], i, encoded, length, hrest, hbytes, hroom => by
      have hbytes' : bytes = i + 1 := hbytes
      have ha := a.toNat_lt
      have hone : [a].length = 1 := rfl
      have hroom' : length + 4 ≤ encoded.length := by omega
      have hvalue := (groupValue_spec hrest hbytes).1 a rfl
      obtain ⟨encoded', hround, hlen, htake⟩ := encodeLoop_round (by omega) hvalue hroom'
      have hfirst : a.toNat * 65536 / 262144 = a.toNat / 4 := by omega
      have hsecond : a.toNat * 65536 / 4096 % 64 = a.toNat % 4 * 16 := by omega
      rw [if_neg (by omega), if_neg (by omega), hfirst, hsecond] at htake
      exact ⟨encoded', hround.trans (encodeLoop_done (by omega)), hlen, htake⟩
  | [a, b], i, encoded, length, hrest, hbytes, hroom => by
      have hbytes' : bytes = i + 2 := hbytes
      have ha := a.toNat_lt
      have hb := b.toNat_lt
      have htwo : [a, b].length = 2 := rfl
      have hroom' : length + 4 ≤ encoded.length := by omega
      have hvalue := (groupValue_spec hrest hbytes).2.1 a b rfl
      obtain ⟨encoded', hround, hlen, htake⟩ := encodeLoop_round (by omega) hvalue hroom'
      have hfirst : (a.toNat * 65536 + b.toNat * 256) / 262144 = a.toNat / 4 := by omega
      have hsecond : (a.toNat * 65536 + b.toNat * 256) / 4096 % 64 = a.toNat % 4 * 16 + b.toNat / 16 := by omega
      have hthird : (a.toNat * 65536 + b.toNat * 256) / 64 % 64 = b.toNat % 16 * 4 := by omega
      rw [if_pos (by omega), if_neg (by omega), hfirst, hsecond, hthird] at htake
      exact ⟨encoded', hround.trans (encodeLoop_done (by omega)), hlen, htake⟩
  | a :: b :: d :: rest, i, encoded, length, hrest, hbytes, hroom => by
      have hbytes' : bytes = i + (rest.length + 3) := hbytes
      have hroom' : length + (rest.length + 3 + 2) / 3 * 4 ≤ encoded.length := hroom
      have hroom'' : length + 4 ≤ encoded.length := by omega
      have ha := a.toNat_lt
      have hb := b.toNat_lt
      have hd := d.toNat_lt
      have hvalue := (groupValue_spec hrest hbytes).2.2 a b d rest rfl
      obtain ⟨encoded', hround, hlen, htake⟩ := encodeLoop_round (by omega) hvalue hroom''
      have hfirst : (a.toNat * 65536 + b.toNat * 256 + d.toNat) / 262144 = a.toNat / 4 := by omega
      have hsecond : (a.toNat * 65536 + b.toNat * 256 + d.toNat) / 4096 % 64 = a.toNat % 4 * 16 + b.toNat / 16 := by omega
      have hthird : (a.toNat * 65536 + b.toNat * 256 + d.toNat) / 64 % 64 = b.toNat % 16 * 4 + d.toNat / 64 := by omega
      have hfourth : (a.toNat * 65536 + b.toNat * 256 + d.toNat) % 64 = d.toNat % 64 := by omega
      rw [if_pos (by omega), if_pos (by omega), hfirst, hsecond, hthird, hfourth] at htake
      have hrest' : (plain.take bytes).drop (i + 3) = rest := by
        rw [← List.drop_drop, hrest]
        rfl
      obtain ⟨encoded₂, hmore, hlen₂, htake₂⟩ := encodeLoop_spec rest (i + 3) encoded' (length + 4) hrest' (by omega) (by omega)
      have htext : Base64.encode (a :: b :: d :: rest) = [Invitation.base64Digit (a.toNat / 4),
          Invitation.base64Digit (a.toNat % 4 * 16 + b.toNat / 16), Invitation.base64Digit (b.toNat % 16 * 4 + d.toNat / 64),
          Invitation.base64Digit (d.toNat % 64)] ++ Base64.encode rest := rfl
      have hsum : length + 4 + (Base64.encode rest).length = length + (Base64.encode (a :: b :: d :: rest)).length := by
        rw [htext, List.length_append]
        change length + 4 + _ = length + (4 + _)
        omega
      rw [hsum] at hmore htake₂
      refine ⟨encoded₂, hround.trans hmore, hlen₂.trans hlen, ?_⟩
      rw [htake₂, htake, htext, List.append_assoc]

/-- The text of the credentials is their Base64, and both buffers hold it. -/
theorem encodedText_spec (huser : user.length ≤ LOGINLEN) (hpass : pass.length ≤ PASSLEN) :
    ∃ encoded, encodedText user pass = some (encoded, (Base64.encode (plainText user pass)).length) ∧
      encoded.take (Base64.encode (plainText user pass)).length = Base64.encode (plainText user pass) := by
  obtain ⟨plain, hfill, hlong, htake⟩ := fillPlain_spec huser hpass
  have hlength : (plainText user pass).length = user.length + pass.length + 2 := by
    unfold plainText
    rw [List.length_cons, List.length_append, List.length_cons]
    omega
  have hsize : (Base64.encode (plainText user pass)).length = (user.length + pass.length + 2 + 2) / 3 * 4 := by
    rw [Base64.encode_length, hlength]
  have hlogin : LOGINLEN = 240 := rfl
  have hpasslen : PASSLEN = 128 := rfl
  obtain ⟨encoded, hloop, hlen, htext⟩ := encodeLoop_spec (plainText user pass) 0 (List.replicate (4 * ((LOGINLEN + PASSLEN + 3 + 2) / 3) + 1) '\x00') 0
    (by rw [List.drop_zero, htake]) (by omega) (by rw [List.length_replicate]; omega)
  rw [List.length_replicate] at hlen
  rw [Nat.zero_add, List.take_zero, List.nil_append] at htext
  rw [Nat.zero_add] at hloop
  obtain ⟨closed, hput, -, hclosed⟩ := put_spec encoded (Base64.encode (plainText user pass)).length '\x00' (by omega)
  refine ⟨closed, ?_, ?_⟩
  · simp only [encodedText, Option.bind_eq_bind, hfill, Option.bind_some, hloop, hput]
  · have hfront := congrArg (List.take (Base64.encode (plainText user pass)).length) hclosed
    rw [List.take_take, Nat.min_eq_left (Nat.le_succ _), List.take_left' (by rw [List.length_take]; omega)] at hfront
    rw [hfront, htext]

/-! ### The lines -/

/-- The lines of a text. -/
def dataLines (text : Text) : List Text :=
  if text = [] then [] else (command ++ text.take 400) :: dataLines (text.drop 400)
termination_by text.length
decreasing_by
  rename_i hne
  have hpos : 0 < text.length := List.length_pos_iff.mpr hne
  rw [List.length_drop]
  omega

/-- The lines of a text, closed if the last one is full. -/
def closedLines (text : Text) : List Text :=
  dataLines text ++ if text.length % 400 = 0 then [command ++ ['+']] else []

/-- What a line carries; a plus sign on its own stands for nothing. -/
def carried (line : Text) : Text := if line.drop command.length = ['+'] then [] else line.drop command.length

theorem dataLines_nil : dataLines [] = [] := by
  rw [dataLines, if_pos rfl]

theorem dataLines_cons (h : text ≠ []) : dataLines text = (command ++ text.take 400) :: dataLines (text.drop 400) := by
  rw [dataLines, if_neg h]

/-- A line goes out or the sending ends. -/
theorem rustyircSend_cases (c : Connection) (line : Text) (sent : List Text) :
    rustyircSend c line sent = (true, sent ++ [line]) ∨ rustyircSend c line sent = (false, sent) := by
  unfold rustyircSend
  split
  · exact Or.inl rfl
  · exact Or.inr rfl

theorem sendLoop_stopped (c : Connection) (encoded : Text) (length i : Nat) (sent : List Text) :
    sendLoop c encoded length i false sent = (false, sent) := by
  rw [sendLoop, if_neg fun h => Bool.false_ne_true h.1]

/-- A round of the loop takes the next 400 characters. -/
theorem chunk_eq (htext : encoded.take length = text) :
    (encoded.drop i).take (if 400 < length - i then 400 else length - i) = (text.drop i).take 400 := by
  have hcount : (if 400 < length - i then 400 else length - i) = min 400 (length - i) := by
    split <;> omega
  rw [← htext, List.drop_take, List.take_take, hcount]

/-- The loop sends the lines of what is left of the text, in order, as far as the transport takes them. -/
theorem sendLoop_spec (c : Connection) (htext : encoded.take length = text) (hlen : text.length = length) :
    ∀ (i : Nat) (sent : List Text), ∃ more, (sendLoop c encoded length i true sent).2 = sent ++ more ∧
      more <+: dataLines (text.drop i) ∧
      ((sendLoop c encoded length i true sent).1 = true → more = dataLines (text.drop i)) := by
  intro i
  induction hn : length - i using Nat.strongRecOn generalizing i with
  | ind n ih =>
      intro sent
      by_cases hi : i < length
      · have hne : text.drop i ≠ [] := by
          intro hnil
          have hshort := List.drop_eq_nil_iff.mp hnil
          omega
        rw [sendLoop, if_pos ⟨rfl, hi⟩]
        dsimp only
        rw [chunk_eq htext, dataLines_cons hne, List.drop_drop]
        rcases rustyircSend_cases c (command ++ (text.drop i).take 400) sent with hsend | hsend
        · rw [hsend]
          obtain ⟨more, hmore, hfront, hall⟩ := ih (length - (i + 400)) (by omega) (i + 400) rfl
            (sent ++ [command ++ (text.drop i).take 400])
          refine ⟨(command ++ (text.drop i).take 400) :: more, ?_, ?_, fun hok => ?_⟩
          · rw [hmore, List.append_assoc]
            rfl
          · exact List.prefix_cons_inj _ |>.mpr hfront
          · rw [hall hok]
        · rw [hsend]
          dsimp only
          rw [sendLoop_stopped]
          exact ⟨[], (List.append_nil _).symm, List.nil_prefix, fun hok => absurd hok Bool.false_ne_true⟩
      · have hnil : text.drop i = [] := List.drop_eq_nil_iff.mpr (by omega)
        rw [sendLoop, if_neg fun h => hi h.2, hnil, dataLines_nil]
        exact ⟨[], (List.append_nil _).symm, List.prefix_rfl, fun _ => rfl⟩

/-- Every line goes out on a transport that takes it. -/
theorem sendLoop_ok (c : Connection) (encoded : Text) (length : Nat) (htakes : ∀ sent line, c.takes sent line = true) (hlimit : 415 ≤ c.lineLimit) :
    ∀ (i : Nat) (sent : List Text), (sendLoop c encoded length i true sent).1 = true := by
  intro i
  induction hn : length - i using Nat.strongRecOn generalizing i with
  | ind n ih =>
      intro sent
      rw [sendLoop]
      split
      · rename_i hi
        have hsend : ∀ chunk : Text, chunk.length ≤ 400 →
            rustyircSend c (command ++ chunk) sent = (true, sent ++ [command ++ chunk]) := by
          intro chunk hchunk
          have hcommand : command.length = 13 := rfl
          exact if_pos ⟨by rw [List.length_append]; omega, htakes _ _⟩
        dsimp only
        rw [hsend _ (by rw [List.length_take]; split <;> omega)]
        exact ih (length - (i + 400)) (by have := hi.2; omega) (i + 400) rfl _
      · rfl

/-! ### What the lines carry -/

theorem drop_command (chunk : Text) : (command ++ chunk).drop command.length = chunk := List.drop_left

theorem carried_plus : carried (command ++ ['+']) = [] := by
  unfold carried
  rw [drop_command, if_pos rfl]

theorem carried_chunk {chunk : Text} (h : chunk.length ≠ 1) : carried (command ++ chunk) = chunk := by
  unfold carried
  rw [drop_command, if_neg]
  rintro rfl
  exact h rfl

/-- The first line of a text carries a chunk of it, never a single character. -/
theorem length_take_ne_one (hfour : 4 ∣ text.length) : (text.take 400).length ≠ 1 := by
  rw [List.length_take]
  omega

theorem dvd_drop (hfour : 4 ∣ text.length) : 4 ∣ (text.drop 400).length := by
  rw [List.length_drop]
  omega

/-- Together the lines carry the text. -/
theorem carried_dataLines (text : Text) (hfour : 4 ∣ text.length) : (dataLines text).flatMap carried = text := by
  induction hn : text.length using Nat.strongRecOn generalizing text with
  | ind n ih =>
      by_cases hne : text = []
      · rw [hne, dataLines_nil]
        rfl
      · have hpos : 0 < text.length := List.length_pos_iff.mpr hne
        rw [dataLines_cons hne, List.flatMap_cons, carried_chunk (length_take_ne_one hfour),
          ih _ (by rw [List.length_drop]; omega) (text.drop 400) (dvd_drop hfour) rfl, List.take_append_drop]

/-- Every line but the last carries 400 characters, and so does the last if the text is a multiple of that. -/
theorem full_dataLines (text : Text) (hfour : 4 ∣ text.length) :
    (∀ line ∈ (dataLines text).dropLast, (carried line).length = 400) ∧
      (text.length % 400 = 0 → ∀ line ∈ dataLines text, (carried line).length = 400) := by
  induction hn : text.length using Nat.strongRecOn generalizing text with
  | ind n ih =>
      by_cases hne : text = []
      · rw [hne, dataLines_nil]
        exact ⟨fun _ h => absurd h List.not_mem_nil, fun _ _ h => absurd h List.not_mem_nil⟩
      · have hpos : 0 < text.length := List.length_pos_iff.mpr hne
        have hdrop : (text.drop 400).length = text.length - 400 := List.length_drop
        obtain ⟨hbut, hall⟩ := ih _ (by omega) (text.drop 400) (dvd_drop hfour) rfl
        have hchunk : carried (command ++ text.take 400) = text.take 400 := carried_chunk (length_take_ne_one hfour)
        rw [dataLines_cons hne]
        constructor
        · intro line hline
          by_cases hlast : text.drop 400 = []
          · rw [hlast, dataLines_nil] at hline
            exact absurd hline List.not_mem_nil
          · have hlong : 0 < (text.drop 400).length := List.length_pos_iff.mpr hlast
            rw [List.dropLast_cons_of_ne_nil (by rw [dataLines_cons hlast]; exact List.cons_ne_nil _ _)] at hline
            rcases List.mem_cons.mp hline with rfl | hmem
            · rw [hchunk, List.length_take]
              omega
            · exact hbut line hmem
        · intro hmod line hline
          rcases List.mem_cons.mp hline with rfl | hmem
          · rw [hchunk, List.length_take]
            omega
          · exact hall (by omega) line hmem

/-- The lines of a text that is closed where it has to be. -/
theorem closedLines_spec (hfour : 4 ∣ text.length) :
    (closedLines text).flatMap carried = text ∧
      (∀ line ∈ (closedLines text).dropLast, (carried line).length = 400) ∧
      ((closedLines text).getLast? = some (command ++ ['+']) ↔ text.length % 400 = 0) := by
  obtain ⟨hbut, hall⟩ := full_dataLines text hfour
  have hcarried := carried_dataLines text hfour
  unfold closedLines
  by_cases hmod : text.length % 400 = 0
  · rw [if_pos hmod]
    refine ⟨?_, ?_, iff_of_true List.getLast?_concat hmod⟩
    · rw [List.flatMap_append, hcarried, List.flatMap_singleton, carried_plus, List.append_nil]
    · rw [List.dropLast_concat]
      exact hall hmod
  · rw [if_neg hmod, List.append_nil]
    refine ⟨hcarried, hbut, iff_of_false (fun hlast => ?_) hmod⟩
    -- the last line would carry nothing, so the lines before it would carry the whole text
    obtain ⟨front, hfront⟩ := List.getLast?_eq_some_iff.mp hlast
    rw [hfront, List.dropLast_concat] at hbut
    rw [hfront, List.flatMap_append, List.flatMap_singleton, carried_plus, List.append_nil] at hcarried
    refine hmod ?_
    rw [← hcarried, List.length_flatMap, List.map_congr_left hbut, List.map_const', List.sum_replicate_nat]
    exact Nat.mul_mod_left _ _

/-- Every line is a command. -/
theorem command_dataLines (text : Text) : ∀ line ∈ dataLines text, command <+: line := by
  induction hn : text.length using Nat.strongRecOn generalizing text with
  | ind n ih =>
      intro line hline
      by_cases hne : text = []
      · rw [hne, dataLines_nil] at hline
        exact absurd hline List.not_mem_nil
      · have hpos : 0 < text.length := List.length_pos_iff.mpr hne
        rw [dataLines_cons hne] at hline
        rcases List.mem_cons.mp hline with rfl | hmem
        · exact List.prefix_append _ _
        · exact ih _ (by rw [List.length_drop]; omega) (text.drop 400) rfl line hmem

theorem command_closedLines (text : Text) : ∀ line ∈ closedLines text, command <+: line := by
  intro line hline
  unfold closedLines at hline
  rcases List.mem_append.mp hline with hmem | hmem
  · exact command_dataLines text line hmem
  · split at hmem
    · rw [List.mem_singleton.mp hmem]
      exact List.prefix_append _ _
    · exact absurd hmem List.not_mem_nil

/-- The response to a PLAIN challenge stays within its buffers.  Its lines go out in order, as far as the transport
takes them, all of them if it takes lines of this length; together they carry the Base64 of the credentials, every
one but the last 400 characters, and a plus sign closes them exactly if that text is a multiple of 400 long. -/
theorem response_lines (c : Connection) :
    ∃ ok lines, saslResponse c = some (ok, lines) ∧
      (sameName c.credentials.mechanism EXTERNAL = false →
        let text := Base64.encode (plainText c.credentials.user c.credentials.pass)
        lines <+: closedLines text ∧
          (ok = true → lines = closedLines text) ∧
          ((∀ sent line, c.takes sent line = true) → 415 ≤ c.lineLimit → ok = true) ∧
          Base64.decode ((closedLines text).flatMap carried) = plainText c.credentials.user c.credentials.pass ∧
          (∀ line ∈ closedLines text, command <+: line) ∧
          (∀ line ∈ (closedLines text).dropLast, (carried line).length = 400) ∧
          ((closedLines text).getLast? = some (command ++ ['+']) ↔ text.length % 400 = 0)) := by
  by_cases hmech : sameName c.credentials.mechanism EXTERNAL = true
  · refine ⟨_, _, if_pos hmech, fun hother => absurd (hmech.symm.trans hother) (fun h => Bool.false_ne_true h.symm)⟩
  obtain ⟨encoded, hencoded, htext⟩ := encodedText_spec c.credentials.userFits c.credentials.passFits
  generalize htextOf : Base64.encode (plainText c.credentials.user c.credentials.pass) = text at hencoded htext
  have hfour : 4 ∣ text.length := by
    rw [← htextOf, Base64.encode_length]
    exact Nat.dvd_mul_left 4 _
  obtain ⟨hcarried, hfull, hclosing⟩ := closedLines_spec hfour
  have hdecoded : Base64.decode ((closedLines text).flatMap carried) =
      plainText c.credentials.user c.credentials.pass := by
    rw [hcarried, ← htextOf, Base64.decode_encode]
  obtain ⟨more, hmore, hfront, hall⟩ := sendLoop_spec c htext rfl 0 []
  have hok := fun htakes hlimit => sendLoop_ok c encoded text.length htakes hlimit 0 []
  rw [List.drop_zero] at hfront hall
  rw [List.nil_append] at hmore
  have hresponse : saslResponse c =
      if (sendLoop c encoded text.length 0 true []).1 = true ∧ text.length % 400 = 0 then
        some (rustyircSend c (command ++ ['+']) (sendLoop c encoded text.length 0 true []).2)
      else some (sendLoop c encoded text.length 0 true []) := by
    unfold saslResponse
    rw [if_neg hmech, hencoded]
  generalize sendLoop c encoded text.length 0 true [] = loop at hmore hall hok hresponse
  obtain ⟨ok, lines⟩ := loop
  dsimp only at hmore hall hok hresponse
  subst hmore
  by_cases hclose : ok = true ∧ text.length % 400 = 0
  · rw [if_pos hclose] at hresponse
    have hdata : lines = dataLines text := hall hclose.1
    have hlines : closedLines text = lines ++ [command ++ ['+']] := by
      unfold closedLines
      rw [if_pos hclose.2, hdata]
    have hcases := rustyircSend_cases c (command ++ ['+']) lines
    have htaken : (∀ sent line, c.takes sent line = true) → 415 ≤ c.lineLimit →
        (rustyircSend c (command ++ ['+']) lines).1 = true := by
      intro htakes hlimit
      have hshort : (command ++ ['+']).length ≤ c.lineLimit - 2 := by
        change 14 ≤ _
        omega
      unfold rustyircSend
      rw [if_pos ⟨hshort, htakes _ _⟩]
    generalize rustyircSend c (command ++ ['+']) lines = closing at hresponse hcases htaken
    obtain ⟨sent, closed⟩ := closing
    refine ⟨sent, closed, hresponse, fun _ => ⟨?_, ?_, htaken, hdecoded, command_closedLines text, hfull, hclosing⟩⟩
    · rw [hlines]
      rcases hcases with h | h
      · obtain rfl : closed = lines ++ [command ++ ['+']] := (Prod.mk.inj h).2
        exact List.prefix_rfl
      · obtain rfl : closed = lines := (Prod.mk.inj h).2
        exact List.prefix_append _ _
    · intro hsent
      rw [hlines]
      rcases hcases with h | h
      · exact (Prod.mk.inj h).2
      · exact absurd (hsent.symm.trans (Prod.mk.inj h).1) (fun h => Bool.false_ne_true h.symm)
  · rw [if_neg hclose] at hresponse
    refine ⟨_, _, hresponse, fun _ => ⟨?_, ?_, hok, hdecoded, command_closedLines text, hfull, hclosing⟩⟩
    · exact hfront.trans (List.prefix_append _ _)
    · intro hsent
      have hopen : ¬text.length % 400 = 0 := fun h => hclose ⟨hsent, h⟩
      unfold closedLines
      rw [if_neg hopen, List.append_nil]
      exact hall hsent

end Sasl

end RustyRig
