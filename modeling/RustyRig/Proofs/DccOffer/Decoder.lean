/-
Which texts are DCC offers.

`Fields` is the grammar of the fields and `Forms` what they may hold; the decoder accepts exactly what
both describe (`decode_iff`).  The scanner is sound and complete for the grammar, each by induction, on
the room that is left and on the derivation.
-/
import RustyRig.Librustyirc.DccOffer

namespace RustyRig

namespace DccOffer

open Lib

variable {s p w rest ip port : Text} {ws : List Text} {room n addr maximum : Nat} {o : Offer}

/-! ### Numbers and addresses -/

theorem decimalStep_bounded (h : maximum < 2 ^ 64) : Numeral.Bounded maximum (decimalStep maximum) := by
  intro v d hv hd
  unfold decimalStep
  by_cases hle : v * 10 + d ≤ maximum
  · have hwrap : (v * 10 % 2 ^ 64 + d) % 2 ^ 64 = v * 10 + d := by omega
    rw [if_neg (by omega), if_pos hle, hwrap]
  · rw [if_pos (by omega), if_neg hle]

/-- The reader of numbers takes exactly the numerals up to its maximum. -/
theorem decimal_iff (h : maximum < 2 ^ 64) : decimal s maximum = some n ↔ Numeral.Spells s n ∧ n ≤ maximum :=
  Numeral.read_iff (decimalStep_bounded h)

theorem decimal_printed (h : maximum < 2 ^ 64) (hn : n ≤ maximum) : decimal (printed n) maximum = some n :=
  (decimal_iff h).mpr ⟨Numeral.spells_toDigits n, hn⟩

theorem spells_unique {m : Nat} (hn : Numeral.Spells s n) (hm : Numeral.Spells s m) : n = m := hn.value.symm.trans hm.value

theorem address_iff : address s = some addr ↔
    (Numeral.Spells s addr ∧ addr ≤ UINT32_MAX) ∨ Ipv4.pton s = some addr := by
  have hmax : UINT32_MAX < 2 ^ 64 := by decide
  unfold address
  constructor
  · intro h
    split at h
    · rename_i number hnumber
      rw [← Option.some.inj h]
      exact Or.inl ((decimal_iff hmax).mp hnumber)
    · exact Or.inr h
  · rintro (hspells | hquad)
    · rw [(decimal_iff hmax).mpr hspells]
    · have hdot : '.' ∈ s := by
        rw [(Ipv4.pton_iff.mp hquad).2]
        exact Ipv4.dot_mem_ntop addr
      have hnone : decimal s UINT32_MAX = none := by
        cases hs : decimal s UINT32_MAX with
        | none => rfl
        | some number =>
            have hdigit := ((decimal_iff hmax).mp hs).1.digits '.' hdot
            exact absurd hdigit (by decide)
      rw [hnone]
      exact hquad

/-! ### The fields -/

/-- A field that needs no quotes. -/
structure Bare (w : Text) : Prop where
  nonempty : w ≠ []
  unbroken : ' ' ∉ w
  unquoted : w.head? ≠ some '"'

/-- Fields behind single blanks, each bare or in quotes. -/
inductive Fields : Text → List Text → Prop
  | bare {w : Text} (hw : Bare w) : Fields w [w]
  | quoted {w : Text} (hw : '"' ∉ w) : Fields ('"' :: (w ++ ['"'])) [w]
  | bareMore {w rest : Text} {ws : List Text} (hw : Bare w) (h : Fields rest ws) : Fields (w ++ ' ' :: rest) (w :: ws)
  | quotedMore {w rest : Text} {ws : List Text} (hw : '"' ∉ w) (h : Fields rest ws) :
      Fields ('"' :: (w ++ '"' :: ' ' :: rest)) (w :: ws)

theorem Fields.nonempty (h : Fields p ws) : p ≠ [] := by
  cases h with
  | bare hw => exact hw.nonempty
  | quoted => exact List.cons_ne_nil _ _
  | bareMore => simp
  | quotedMore => exact List.cons_ne_nil _ _

theorem Bare.cons (h : Bare w) : ∃ c tail, w = c :: tail ∧ c ≠ ' ' ∧ c ≠ '"' ∧ ' ' ∉ c :: tail := by
  cases w with
  | nil => exact absurd rfl h.nonempty
  | cons c tail =>
      refine ⟨c, tail, rfl, ?_, ?_, h.unbroken⟩
      · rintro rfl
        exact h.unbroken List.mem_cons_self
      · rintro rfl
        exact h.unquoted rfl

theorem scan_nil (room : Nat) : scan room [] = some ([], []) := by
  cases room with
  | zero => rfl
  | succ room => rfl

/-- The scanner finds the fields there are. -/
theorem scan_complete (h : Fields p ws) : ∀ room, ws.length ≤ room → scan room p = some (ws, []) := by
  induction h with
  | bare hw =>
      intro room hroom
      obtain ⟨c, tail, rfl, hblank, hquote, hunbroken⟩ := hw.cons
      cases room with
      | zero => exact absurd hroom (Nat.not_succ_le_zero _)
      | succ room => rw [scan, if_neg hblank, if_neg hquote, if_pos hunbroken]
  | @quoted w hw =>
      intro room hroom
      cases room with
      | zero => exact absurd hroom (Nat.not_succ_le_zero _)
      | succ room =>
          have hmem : ¬ '"' ∉ w ++ ['"'] := fun hnot => hnot (List.mem_append_right w List.mem_cons_self)
          rw [scan, if_neg (by decide), if_pos rfl, if_neg hmem, Words.cut_append hw]
          dsimp only
          rw [scan_nil]
          rfl
  | @bareMore w rest ws hw h ih =>
      intro room hroom
      obtain ⟨c, tail, rfl, hblank, hquote, hunbroken⟩ := hw.cons
      cases room with
      | zero => exact absurd hroom (Nat.not_succ_le_zero _)
      | succ room =>
          have hmem : ¬ ' ' ∉ c :: (tail ++ ' ' :: rest) := fun hnot =>
            hnot (List.mem_cons_of_mem c (List.mem_append_right tail List.mem_cons_self))
          have hcut : Words.cut ' ' (c :: (tail ++ ' ' :: rest)) = (c :: tail, rest) := Words.cut_append hunbroken
          rw [List.cons_append, scan, if_neg hblank, if_neg hquote, if_neg hmem, hcut]
          dsimp only
          rw [if_neg h.nonempty, ih room (Nat.le_of_succ_le_succ hroom)]
          rfl
  | @quotedMore w rest ws hw h ih =>
      intro room hroom
      cases room with
      | zero => exact absurd hroom (Nat.not_succ_le_zero _)
      | succ room =>
          have hmem : ¬ '"' ∉ w ++ '"' :: ' ' :: rest := fun hnot =>
            hnot (List.mem_append_right w List.mem_cons_self)
          rw [scan, if_neg (by decide), if_pos rfl, if_neg hmem, Words.cut_append hw]
          dsimp only
          rw [if_neg (fun hne => hne rfl), if_neg h.nonempty, ih room (Nat.le_of_succ_le_succ hroom)]
          rfl

/-- What the scanner finds is fields, as far as there is room for them. -/
theorem scan_sound : ∀ room p ws, scan room p = some (ws, []) → (p = [] ∧ ws = []) ∨ (Fields p ws ∧ ws.length ≤ room) := by
  intro room
  induction room with
  | zero =>
      intro p ws h
      rw [scan] at h
      cases h
      exact Or.inl ⟨rfl, rfl⟩
  | succ room ih =>
      -- the fields behind one that was cut off
      have hmore : ∀ {rest w : Text} {ws : List Text}, rest ≠ [] →
          ((scan room rest).map fun r => (w :: r.1, r.2)) = some (ws, []) →
          ∃ ws', ws = w :: ws' ∧ Fields rest ws' ∧ ws'.length ≤ room := by
        intro rest w ws hrest h
        obtain ⟨⟨ws', left⟩, hscan, heq⟩ := Option.map_eq_some_iff.mp h
        obtain ⟨rfl, rfl⟩ := Prod.mk.inj heq
        rcases ih rest ws' hscan with ⟨hnil, -⟩ | hfields
        · exact absurd hnil hrest
        · exact ⟨ws', rfl, hfields⟩
      intro p ws h
      cases p with
      | nil =>
          rw [scan] at h
          cases h
          exact Or.inl ⟨rfl, rfl⟩
      | cons c p =>
          right
          rw [scan] at h
          by_cases hblank : c = ' '
          · rw [if_pos hblank] at h
            exact absurd h (Option.some_ne_none _).symm
          rw [if_neg hblank] at h
          by_cases hquote : c = '"'
          · subst hquote
            rw [if_pos rfl] at h
            by_cases hend : '"' ∉ p
            · rw [if_pos hend] at h
              exact absurd h (Option.some_ne_none _).symm
            rw [if_neg hend] at h
            obtain ⟨hword, hp⟩ := Words.cut_of_mem (not_not.mp hend)
            generalize Words.cut '"' p = cut at h hword hp
            obtain ⟨w, behind⟩ := cut
            subst hp
            cases behind with
            | nil =>
                dsimp only at h
                rw [scan_nil] at h
                cases h
                exact ⟨Fields.quoted hword, Nat.succ_le_succ (Nat.zero_le _)⟩
            | cons d rest =>
                dsimp only at h
                by_cases hd : d ≠ ' '
                · rw [if_pos hd] at h
                  exact absurd h (Option.some_ne_none _).symm
                rw [if_neg hd] at h
                by_cases hrest : rest = []
                · rw [if_pos hrest] at h
                  exact absurd h (Option.some_ne_none _).symm
                rw [if_neg hrest] at h
                obtain ⟨ws', rfl, hfields, hlen⟩ := hmore hrest h
                rw [not_not.mp hd]
                exact ⟨Fields.quotedMore hword hfields, Nat.succ_le_succ hlen⟩
          rw [if_neg hquote] at h
          have hbare : ∀ {w behind : Text}, c :: p = w ++ behind → (behind = [] ∨ behind.head? = some ' ') → ' ' ∉ w → Bare w := by
            intro w behind heq hbehind hw
            cases w with
            | nil =>
                rcases hbehind with hnil | hhead
                · rw [hnil] at heq
                  exact absurd heq (List.cons_ne_nil c p)
                · rw [← List.nil_append behind, ← heq] at hhead
                  exact absurd (Option.some.inj hhead) hblank
            | cons x w =>
                obtain ⟨rfl, -⟩ := List.cons.inj heq
                exact ⟨List.cons_ne_nil _ _, hw, fun hx => hquote (Option.some.inj hx)⟩
          by_cases hend : ' ' ∉ c :: p
          · rw [if_pos hend] at h
            cases h
            exact ⟨Fields.bare (hbare (List.append_nil _).symm (Or.inl rfl) hend), Nat.succ_le_succ (Nat.zero_le _)⟩
          rw [if_neg hend] at h
          obtain ⟨hword, hp⟩ := Words.cut_of_mem (not_not.mp hend)
          have hw := hbare hp (Or.inr rfl) hword
          generalize Words.cut ' ' (c :: p) = cut at h hp hw
          by_cases hrest : cut.2 = []
          · rw [if_pos hrest] at h
            exact absurd h (Option.some_ne_none _).symm
          rw [if_neg hrest] at h
          obtain ⟨ws', rfl, hfields, hlen⟩ := hmore hrest h
          rw [hp]
          exact ⟨Fields.bareMore hw hfields, Nat.succ_le_succ hlen⟩

/-! ### What the fields may hold -/

/-- An address in host order that something can be sent to. -/
structure Address (ip : Text) (addr : Nat) : Prop where
  form : (Numeral.Spells ip addr ∧ addr ≤ UINT32_MAX) ∨ Ipv4.pton ip = some addr
  specified : addr ≠ INADDR_ANY
  single : addr ≠ INADDR_BROADCAST

structure Port (port : Text) (n : Nat) : Prop where
  form : Numeral.Spells port n
  positive : 0 < n
  bounded : n ≤ 65535

/-- The fields of the offers, with the offer they stand for. -/
inductive Forms : List Text → Offer → Prop
  | chat {dcc kind name ip port : Text} {addr n : Nat} (hdcc : sameName dcc ['D', 'C', 'C'] = true)
      (hkind : sameName kind ['C', 'H', 'A', 'T'] = true) (hname : sameName name ['c', 'h', 'a', 't'] = true)
      (hip : Address ip addr) (hport : Port port n) :
      Forms [dcc, kind, name, ip, port]
        { type := .chat, sizeKnown := false, filename := [], ip := Ipv4.ntop addr, port := n, size := 0 }
  | send {dcc kind name ip port : Text} {addr n : Nat} (hdcc : sameName dcc ['D', 'C', 'C'] = true)
      (hkind : sameName kind ['S', 'E', 'N', 'D'] = true) (hname : filenameValid name = true)
      (hip : Address ip addr) (hport : Port port n) :
      Forms [dcc, kind, name, ip, port]
        { type := .send, sizeKnown := false, filename := name, ip := Ipv4.ntop addr, port := n, size := 0 }
  | sized {dcc kind name ip port size : Text} {addr n bytes : Nat} (hdcc : sameName dcc ['D', 'C', 'C'] = true)
      (hkind : sameName kind ['S', 'E', 'N', 'D'] = true) (hname : filenameValid name = true)
      (hip : Address ip addr) (hport : Port port n) (hsize : Numeral.Spells size bytes ∧ bytes ≤ INT64_MAX) :
      Forms [dcc, kind, name, ip, port, size]
        { type := .send, sizeKnown := true, filename := name, ip := Ipv4.ntop addr, port := n, size := bytes }

/-- The text of an offer. -/
def Reads (payload : Text) (o : Offer) : Prop :=
  ∃ body ws, payload = mark :: (body ++ [mark]) ∧ payload.length < IRC_MSGLEN ∧ Fields body ws ∧ Forms ws o

theorem chat_ne_send {kind : Text} (h : sameName kind ['C', 'H', 'A', 'T'] = true) :
    sameName kind ['S', 'E', 'N', 'D'] = false := by
  unfold sameName at h ⊢
  rw [of_decide_eq_true h]
  decide

theorem send_ne_chat {kind : Text} (h : sameName kind ['S', 'E', 'N', 'D'] = true) :
    sameName kind ['C', 'H', 'A', 'T'] = false := by
  unfold sameName at h ⊢
  rw [of_decide_eq_true h]
  decide

/-- The rest of the decision, once the kind and the name have been accepted. -/
theorem target_iff {α : Type} {size : Option Text} {f : Nat → Nat → Nat → α} {r : α} :
    (match address ip with
    | none => none
    | some addr =>
        if addr = INADDR_ANY ∨ addr = INADDR_BROADCAST then none
        else
          match decimal port 65535 with
          | none => none
          | some port => if port = 0 then none else match sizeOf size with
            | none => none
            | some bytes => some (f addr port bytes)) = some r ↔
    ∃ addr n bytes, Address ip addr ∧ Port port n ∧ sizeOf size = some bytes ∧ f addr n bytes = r := by
  constructor
  · intro h
    split at h
    · exact absurd h (Option.some_ne_none r).symm
    rename_i addr haddr
    split at h
    · exact absurd h (Option.some_ne_none r).symm
    rename_i hplain
    split at h
    · exact absurd h (Option.some_ne_none r).symm
    rename_i n hn
    split at h
    · exact absurd h (Option.some_ne_none r).symm
    rename_i hzero
    split at h
    · exact absurd h (Option.some_ne_none r).symm
    rename_i bytes hbytes
    obtain ⟨hspells, hbound⟩ := (decimal_iff (by decide)).mp hn
    exact ⟨addr, n, bytes, ⟨address_iff.mp haddr, fun he => hplain (Or.inl he), fun he => hplain (Or.inr he)⟩,
      ⟨hspells, Nat.pos_of_ne_zero hzero, hbound⟩, hbytes, Option.some.inj h⟩
  · rintro ⟨addr, n, bytes, hip, hport, hbytes, rfl⟩
    have hplain : ¬ (addr = INADDR_ANY ∨ addr = INADDR_BROADCAST) := fun h => h.elim hip.specified hip.single
    have hn : decimal port 65535 = some n := (decimal_iff (by decide)).mpr ⟨hport.form, hport.bounded⟩
    rw [address_iff.mpr hip.form]
    dsimp only
    rw [if_neg hplain, hn]
    dsimp only
    rw [if_neg (Nat.ne_of_gt hport.positive), hbytes]

/-- The decision on the fields. -/
theorem interpret_iff {dcc kind name : Text} {size : Option Text} :
    interpret dcc kind name ip port size = some o ↔ Forms ([dcc, kind, name, ip, port] ++ size.toList) o := by
  constructor
  · intro h
    unfold interpret at h
    dsimp only at h
    split at h
    · exact absurd h (Option.some_ne_none o).symm
    rename_i hdcc
    have hdcc : sameName dcc ['D', 'C', 'C'] = true := eq_true_of_ne_false hdcc
    split at h
    · exact absurd h (Option.some_ne_none o).symm
    rename_i hshape
    obtain ⟨addr, n, bytes, hip, hport, hbytes, rfl⟩ := target_iff.mp h
    by_cases hchat : sameName kind ['C', 'H', 'A', 'T'] = true
    · rw [hchat, chat_ne_send hchat] at hshape ⊢
      cases size with
      | some size => exact absurd rfl hshape
      | none =>
          have hname : sameName name ['c', 'h', 'a', 't'] = true := by
            cases hname : sameName name ['c', 'h', 'a', 't'] with
            | true => rfl
            | false =>
                rw [hname] at hshape
                exact absurd rfl hshape
          cases hbytes
          exact Forms.chat hdcc hchat hname hip hport
    · rw [eq_false_of_ne_true hchat] at hshape ⊢
      cases hkind : sameName kind ['S', 'E', 'N', 'D'] with
      | false =>
          rw [hkind] at hshape
          exact absurd rfl hshape
      | true =>
          have hname : filenameValid name = true := by
            cases hname : filenameValid name with
            | true => rfl
            | false =>
                rw [hkind, hname] at hshape
                exact absurd rfl hshape
          cases size with
          | none =>
              cases hbytes
              exact Forms.send hdcc hkind hname hip hport
          | some size => exact Forms.sized hdcc hkind hname hip hport ((decimal_iff (by decide)).mp hbytes)
  · intro h
    unfold interpret
    dsimp only
    cases size with
    | none =>
        cases h with
        | chat hdcc hkind hname hip hport =>
            rw [hdcc, hkind, chat_ne_send hkind, hname]
            exact target_iff.mpr ⟨_, _, _, hip, hport, (rfl : sizeOf none = some 0), rfl⟩
        | send hdcc hkind hname hip hport =>
            rw [hdcc, hkind, send_ne_chat hkind, hname]
            exact target_iff.mpr ⟨_, _, _, hip, hport, (rfl : sizeOf none = some 0), rfl⟩
    | some size =>
        cases h with
        | sized hdcc hkind hname hip hport hsize =>
            rw [hdcc, hkind, send_ne_chat hkind, hname]
            exact target_iff.mpr ⟨_, _, _, hip, hport, (decimal_iff (by decide)).mpr hsize, rfl⟩

/-- A payload is what is between two marks. -/
theorem framed_iff {payload : Text} : ¬ (payload.length < 2 ∨ IRC_MSGLEN ≤ payload.length ∨
    payload.head? ≠ some mark ∨ payload.getLast? ≠ some mark) ↔
    ∃ body, payload = mark :: (body ++ [mark]) ∧ payload.length < IRC_MSGLEN := by
  constructor
  · intro h
    have hlong : 2 ≤ payload.length := Nat.not_lt.mp fun hl => h (Or.inl hl)
    have hshort : payload.length < IRC_MSGLEN := Nat.not_le.mp fun hl => h (Or.inr (Or.inl hl))
    have hhead : payload.head? = some mark := by_contra fun hn => h (Or.inr (Or.inr (Or.inl hn)))
    have hlast : payload.getLast? = some mark := by_contra fun hn => h (Or.inr (Or.inr (Or.inr hn)))
    obtain ⟨tail, rfl⟩ := List.head?_eq_some_iff.mp hhead
    have htail : tail ≠ [] := by
      rintro rfl
      exact absurd hlong (by decide)
    have hend : tail.getLast? = some mark := by rwa [List.getLast?_cons_of_ne_nil htail] at hlast
    obtain ⟨body, rfl⟩ := List.getLast?_eq_some_iff.mp hend
    exact ⟨body, rfl, hshort⟩
  · rintro ⟨body, rfl, hshort⟩ (hlen | hlen | hhead | hlast)
    · simp only [List.length_cons, List.length_append, List.length_nil] at hlen
      omega
    · exact absurd hshort (Nat.not_lt.mpr hlen)
    · exact hhead rfl
    · refine hlast ?_
      rw [← List.cons_append, List.getLast?_append]
      rfl

/-- The decoder accepts exactly the texts of offers. -/
theorem decode_iff {payload : Text} : decode payload = some o ↔ Reads payload o := by
  unfold decode
  constructor
  · intro h
    split at h
    · exact absurd h (Option.some_ne_none o).symm
    rename_i hframe
    obtain ⟨body, rfl, hshort⟩ := framed_iff.mp hframe
    rw [List.tail_cons, List.dropLast_concat] at h
    split at h
    · rename_i dcc kind name ip port hscan
      rcases scan_sound 6 body _ hscan with ⟨-, hnil⟩ | ⟨hfields, -⟩
      · exact absurd hnil (List.cons_ne_nil _ _)
      · exact ⟨body, _, rfl, hshort, hfields, interpret_iff.mp h⟩
    · rename_i dcc kind name ip port size hscan
      rcases scan_sound 6 body _ hscan with ⟨-, hnil⟩ | ⟨hfields, -⟩
      · exact absurd hnil (List.cons_ne_nil _ _)
      · exact ⟨body, _, rfl, hshort, hfields, interpret_iff.mp h⟩
    · exact absurd h (Option.some_ne_none o).symm
  · rintro ⟨body, ws, rfl, hshort, hfields, hforms⟩
    rw [if_neg (framed_iff.mpr ⟨body, rfl, hshort⟩), List.tail_cons, List.dropLast_concat]
    cases hforms with
    | chat hdcc hkind hname hip hport =>
        rw [scan_complete hfields 6 (Nat.le_succ 5)]
        exact interpret_iff.mpr (Forms.chat hdcc hkind hname hip hport)
    | send hdcc hkind hname hip hport =>
        rw [scan_complete hfields 6 (Nat.le_succ 5)]
        exact interpret_iff.mpr (Forms.send hdcc hkind hname hip hport)
    | sized hdcc hkind hname hip hport hsize =>
        rw [scan_complete hfields 6 (Nat.le_refl 6)]
        exact interpret_iff.mpr (Forms.sized hdcc hkind hname hip hport hsize)

end DccOffer

end RustyRig

/-!
Which offers are sent, and that they are read back.

What the encoder prints has fields of the decoder's grammar, and no others (`decode_body`), so its own
check on the printed text says what it sends.
-/

namespace RustyRig

namespace DccOffer

open Lib

variable {body : Text} {ws : List Text} {n addr : Nat} {o r : Offer}

/-- An offer that there is a text for. -/
structure Sendable (o : Offer) (addr : Nat) : Prop where
  quad : Ipv4.pton o.ip = some addr
  specified : addr ≠ INADDR_ANY
  single : addr ≠ INADDR_BROADCAST
  positive : 0 < o.port
  bounded : o.port ≤ 65535
  named : o.type = .send → filenameValid o.filename = true
  sized : o.type = .send → o.sizeKnown = true → o.size ≤ INT64_MAX
  fits : (offerText o addr).length < IRC_MSGLEN

/-- What arrives of an offer: a chat has neither a name nor a size. -/
structure Same (o r : Offer) : Prop where
  type : r.type = o.type
  ip : r.ip = o.ip
  port : r.port = o.port
  filename : o.type = .send → r.filename = o.filename
  sizeKnown : o.type = .send → r.sizeKnown = o.sizeKnown
  size : o.type = .send → o.sizeKnown = true → r.size = o.size

/-- The fields of a body decide. -/
theorem decode_body (hfields : Fields body ws) (hroom : ws.length ≤ 6) (hshort : (mark :: (body ++ [mark])).length < IRC_MSGLEN) :
    decode (mark :: (body ++ [mark])) = some r ↔ Forms ws r := by
  rw [decode_iff]
  constructor
  · rintro ⟨body', ws', heq, -, hfields', hforms⟩
    have hbody : body = body' := List.append_cancel_right (List.cons.inj heq).2
    have hlength : ws'.length ≤ 6 := by
      cases hforms with
      | chat => exact Nat.le_succ 5
      | send => exact Nat.le_succ 5
      | sized => exact Nat.le_refl 6
    subst hbody
    have hscan := scan_complete hfields 6 hroom
    rw [scan_complete hfields' 6 hlength] at hscan
    rw [← (Prod.mk.inj (Option.some.inj hscan)).1]
    exact hforms
  · exact fun hforms => ⟨body, ws, rfl, hshort, hfields, hforms⟩

theorem bare_printed (n : Nat) : Bare (printed n) where
  nonempty := Nat.toDigits_ne_nil
  unbroken h := absurd ((Numeral.spells_toDigits n).digits ' ' h) (by decide)
  unquoted h := absurd ((Numeral.spells_toDigits n).digits '"' (List.mem_of_head? h)) (by decide)

theorem unquoted_of_valid {name : Text} (h : filenameValid name = true) : '"' ∉ name := by
  intro hmem
  unfold filenameValid at h
  split at h
  · exact absurd h Bool.false_ne_true
  · exact absurd (List.all_eq_true.mp h _ hmem) (by decide)

/-- Address, port and size. -/
def targetText (o : Offer) (addr : Nat) : Text :=
  printed addr ++ ' ' :: (printed o.port ++ if o.type = .send ∧ o.sizeKnown = true then ' ' :: printed o.size else [])

def targetFields (o : Offer) (addr : Nat) : List Text :=
  printed addr :: printed o.port :: if o.type = .send ∧ o.sizeKnown = true then [printed o.size] else []

/-- What is between the marks. -/
def offerBody (o : Offer) (addr : Nat) : Text :=
  match o.type with
  | .chat => ['D', 'C', 'C'] ++ ' ' :: (['C', 'H', 'A', 'T'] ++ ' ' :: (['c', 'h', 'a', 't'] ++ ' ' :: targetText o addr))
  | .send => ['D', 'C', 'C'] ++ ' ' :: (['S', 'E', 'N', 'D'] ++ ' ' :: ('"' :: (o.filename ++ '"' :: ' ' :: targetText o addr)))

def offerFields (o : Offer) (addr : Nat) : List Text :=
  match o.type with
  | .chat => ['D', 'C', 'C'] :: ['C', 'H', 'A', 'T'] :: ['c', 'h', 'a', 't'] :: targetFields o addr
  | .send => ['D', 'C', 'C'] :: ['S', 'E', 'N', 'D'] :: o.filename :: targetFields o addr

theorem offerText_eq (o : Offer) (addr : Nat) : offerText o addr = mark :: (offerBody o addr ++ [mark]) := by
  unfold offerText offerBody targetText
  cases o.type with
  | chat => simp
  | send => simp

theorem fields_target (o : Offer) (addr : Nat) : Fields (targetText o addr) (targetFields o addr) := by
  unfold targetText targetFields
  refine Fields.bareMore (bare_printed addr) ?_
  split
  · exact Fields.bareMore (bare_printed _) (Fields.bare (bare_printed _))
  · rw [List.append_nil]
    exact Fields.bare (bare_printed _)

theorem fields_offerBody (h : o.type = .send → filenameValid o.filename = true) (addr : Nat) :
    Fields (offerBody o addr) (offerFields o addr) := by
  have hword : ∀ w : Text, w ∈ [['D', 'C', 'C'], ['C', 'H', 'A', 'T'], ['S', 'E', 'N', 'D'], ['c', 'h', 'a', 't']] → Bare w := by
    intro w hw
    simp only [List.mem_cons, List.not_mem_nil, or_false] at hw
    rcases hw with rfl | rfl | rfl | rfl
    · exact ⟨by decide, by decide, by decide⟩
    · exact ⟨by decide, by decide, by decide⟩
    · exact ⟨by decide, by decide, by decide⟩
    · exact ⟨by decide, by decide, by decide⟩
  have htarget := fields_target o addr
  unfold offerBody offerFields
  generalize htype : o.type = type at h
  cases type with
  | chat =>
      exact Fields.bareMore (hword _ (by decide)) (Fields.bareMore (hword _ (by decide))
        (Fields.bareMore (hword _ (by decide)) htarget))
  | send =>
      exact Fields.bareMore (hword _ (by decide)) (Fields.bareMore (hword _ (by decide))
        (Fields.quotedMore (unquoted_of_valid (h rfl)) htarget))

theorem length_offerFields (o : Offer) (addr : Nat) : (offerFields o addr).length ≤ 6 := by
  unfold offerFields targetFields
  cases o.type with
  | chat => simp
  | send =>
      cases o.sizeKnown with
      | false => simp
      | true => simp

/-! ### The check on the printed text -/

theorem address_printed {a : Nat} (h : Address (printed addr) a) : a = addr := by
  rcases h.form with ⟨hspells, -⟩ | hquad
  · exact spells_unique hspells (Numeral.spells_toDigits addr)
  · have hdot : '.' ∈ printed addr := by
      rw [(Ipv4.pton_iff.mp hquad).2]
      exact Ipv4.dot_mem_ntop a
    exact absurd ((Numeral.spells_toDigits addr).digits '.' hdot) (by decide)

theorem port_printed {a : Nat} (h : Port (printed n) a) : a = n := spells_unique h.form (Numeral.spells_toDigits n)

/-- What the fields of an offer stand for. -/
theorem same_of_forms (hquad : Ipv4.pton o.ip = some addr) (h : Forms (offerFields o addr) r) :
    Address (printed addr) addr ∧ Port (printed o.port) o.port ∧
      (o.type = .send → o.sizeKnown = true → o.size ≤ INT64_MAX) ∧ Same o r := by
  obtain ⟨type, sizeKnown, filename, ip, port, size⟩ := o
  have hip : ip = Ipv4.ntop addr := (Ipv4.pton_iff.mp hquad).2
  unfold offerFields targetFields at h
  cases type with
  | chat =>
      simp only [reduceCtorEq, false_and, if_false] at h
      cases h with
      | chat hdcc hkind hname haddress hport =>
          obtain rfl := address_printed haddress
          obtain rfl := port_printed hport
          exact ⟨haddress, hport, nofun, ⟨rfl, hip.symm, rfl, nofun, nofun, nofun⟩⟩
      | send hdcc hkind => exact absurd hkind (by decide)
  | send =>
      cases sizeKnown with
      | false =>
          simp only [Bool.false_eq_true, and_false, if_false] at h
          cases h with
          | chat hdcc hkind => exact absurd hkind (by decide)
          | send hdcc hkind hname haddress hport =>
              obtain rfl := address_printed haddress
              obtain rfl := port_printed hport
              exact ⟨haddress, hport, nofun, ⟨rfl, hip.symm, rfl, fun _ => rfl, fun _ => rfl, nofun⟩⟩
      | true =>
          simp only [and_self, if_true] at h
          cases h with
          | sized hdcc hkind hname haddress hport hsize =>
              obtain rfl := address_printed haddress
              obtain rfl := port_printed hport
              obtain rfl := spells_unique hsize.1 (Numeral.spells_toDigits size)
              exact ⟨haddress, hport, fun _ _ => hsize.2, ⟨rfl, hip.symm, rfl, fun _ => rfl, fun _ => rfl, fun _ _ => rfl⟩⟩

theorem forms_of_sendable (h : Sendable o addr) : ∃ r, Forms (offerFields o addr) r := by
  obtain ⟨hquad, hspecified, hsingle, hpositive, hbounded, hnamed, hsized, -⟩ := h
  obtain ⟨type, sizeKnown, filename, ip, port, size⟩ := o
  have haddr : Address (printed addr) addr :=
    ⟨Or.inl ⟨Numeral.spells_toDigits addr, Nat.le_pred_of_lt (Ipv4.pton_iff.mp hquad).1⟩, hspecified, hsingle⟩
  have hport : Port (printed port) port := ⟨Numeral.spells_toDigits port, hpositive, hbounded⟩
  unfold offerFields targetFields
  cases type with
  | chat => exact ⟨_, Forms.chat (by decide) (by decide) (by decide) haddr hport⟩
  | send =>
      have hname : filenameValid filename = true := hnamed rfl
      cases sizeKnown with
      | false => exact ⟨_, Forms.send (by decide) (by decide) hname haddr hport⟩
      | true =>
          exact ⟨_, Forms.sized (by decide) (by decide) hname haddr hport ⟨Numeral.spells_toDigits size, hsized rfl rfl⟩⟩

/-- An offer is sent exactly if it can be, and then its text is read as that offer. -/
theorem encode_iff {text : Text} : encode o = some text ↔ ∃ addr, Sendable o addr ∧ text = offerText o addr := by
  unfold encode
  constructor
  · intro h
    split at h
    · exact absurd h (Option.some_ne_none text).symm
    rename_i hname
    split at h
    · exact absurd h (Option.some_ne_none text).symm
    rename_i addr hquad
    split at h
    · exact absurd h (Option.some_ne_none text).symm
    rename_i hfits
    split at h
    · exact absurd h (Option.some_ne_none text).symm
    rename_i r hdecode
    have hnamed : o.type = .send → filenameValid o.filename = true := fun hsend =>
      eq_true_of_ne_false fun hinvalid => hname ⟨hsend, hinvalid⟩
    have hshort := Nat.not_le.mp hfits
    have hbody := hshort
    rw [offerText_eq] at hdecode hbody
    have hforms := (decode_body (fields_offerBody hnamed addr) (length_offerFields o addr) hbody).mp hdecode
    obtain ⟨haddress, hport, hsized, -⟩ := same_of_forms hquad hforms
    exact ⟨addr, ⟨hquad, haddress.specified, haddress.single, hport.positive, hport.bounded, hnamed, hsized, hshort⟩,
      (Option.some.inj h).symm⟩
  · rintro ⟨addr, hsend, rfl⟩
    have hname : ¬ (o.type = .send ∧ filenameValid o.filename = false) := fun ⟨htype, hinvalid⟩ =>
      Bool.false_ne_true (hinvalid.symm.trans (hsend.named htype))
    have hbody := hsend.fits
    rw [offerText_eq] at hbody
    obtain ⟨r, hforms⟩ := forms_of_sendable hsend
    have hdecode := (decode_body (fields_offerBody hsend.named addr) (length_offerFields o addr) hbody).mpr hforms
    rw [← offerText_eq] at hdecode
    rw [if_neg hname, hsend.quad]
    dsimp only
    rw [if_neg (Nat.not_le.mpr hsend.fits), hdecode]

theorem decode_offerText (h : Sendable o addr) : ∃ r, decode (offerText o addr) = some r ∧ Same o r := by
  have hbody := h.fits
  rw [offerText_eq] at hbody
  obtain ⟨r, hforms⟩ := forms_of_sendable h
  refine ⟨r, ?_, (same_of_forms h.quad hforms).2.2.2⟩
  rw [offerText_eq]
  exact (decode_body (fields_offerBody h.named addr) (length_offerFields o addr) hbody).mpr hforms

end DccOffer

end RustyRig
