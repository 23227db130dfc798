/-
A printed revision is read back as the revision it was.

`rr_identity_local_revision` writes `%lld`, `rr_identity_accept_revision` reads with
`g_ascii_strtoll` and refuses a leading zero.  For a positive revision within 64 bits
the text is its decimal digits, the first of them not zero, and the reader takes all
of it.
-/
import Mathlib.Data.List.TakeWhile
import RustyRig.Rrserver.Identity
import RustyRig.Lib.SelfDelimiting

namespace RustyRig

namespace Identity

/-- A decimal numeral is digits only. -/
theorem isDigit_of_mem {n : Nat} {c : Char} (h : c ∈ Nat.toDigits 10 n) : c.isDigit = true :=
  Nat.isDigit_of_mem_toDigits (by decide) (by decide) h

theorem digitChar_ne_zero : ∀ n < 10, 0 < n → n.digitChar ≠ '0' := by decide

/-- The numeral of a positive number does not begin with a zero. -/
theorem head_toDigits_ne_zero (n : Nat) (h : 0 < n) : (Nat.toDigits 10 n).head? ≠ some '0' := by
  induction n using Nat.strong_induction_on with
  | _ n ih =>
      by_cases hlt : n < 10
      · rw [Nat.toDigits_of_lt_base hlt]
        simpa using digitChar_ne_zero n hlt h
      · rw [Nat.toDigits_of_base_le (by decide) (by omega)]
        rw [List.head?_append_of_ne_nil _ (Nat.toDigits_ne_nil)]
        exact ih (n / 10) (by omega) (by omega)

/-- The first digit is taken neither for a blank nor for a sign. -/
theorem digit_not_skipped {c : Char} (h : c.isDigit = true) :
    isSpace c = false ∧ c ≠ '-' ∧ c ≠ '+' := by
  refine ⟨?_, ?_, ?_⟩
  · rw [isSpace, decide_eq_false_iff_not]
    intro hmem
    simp only [List.mem_cons, List.not_mem_nil, or_false] at hmem
    rcases hmem with rfl | rfl | rfl | rfl | rfl | rfl <;> exact absurd h (by decide)
  · rintro rfl; exact absurd h (by decide)
  · rintro rfl; exact absurd h (by decide)

theorem asciiStrtoll_toString {n : Nat} (h : n ≤ int64Max) :
    asciiStrtoll (toString n) = ((n : Int), []) := by
  have hlist : (toString n).toList = Nat.toDigits 10 n := by simp
  have hall : ∀ c ∈ Nat.toDigits 10 n, c.isDigit = true := fun c => isDigit_of_mem
  obtain ⟨c, cs, hcs⟩ := List.exists_cons_of_ne_nil (Nat.toDigits_ne_nil (n := n) (b := 10))
  have hc := digit_not_skipped (hall c (by rw [hcs]; exact List.mem_cons_self))
  have hskip : (Nat.toDigits 10 n).dropWhile isSpace = Nat.toDigits 10 n := by
    rw [hcs, List.dropWhile_cons_of_neg (by simp [hc.1])]
  have hminus : ((Nat.toDigits 10 n).head? == some '-') = false := by
    rw [hcs]; simpa using hc.2.1
  have hplus : ((Nat.toDigits 10 n).head? == some '+') = false := by
    rw [hcs]; simpa using hc.2.2
  have htake : (Nat.toDigits 10 n).takeWhile Char.isDigit = Nat.toDigits 10 n :=
    List.takeWhile_eq_self_iff.mpr hall
  have hdrop : (Nat.toDigits 10 n).dropWhile Char.isDigit = [] :=
    List.dropWhile_eq_nil_iff.mpr hall
  have hne : Nat.toDigits 10 n ≠ [] := Nat.toDigits_ne_nil
  rw [asciiStrtoll, hlist, hskip]
  simp only [hminus, hplus, Bool.or_self, Bool.false_eq_true, if_false, htake, hdrop, if_neg hne,
    Nat.ofDigitChars_ten_toDigits, Nat.min_eq_left h]

/-- **What the owner prints the receiver reads**, for any positive 64-bit revision. -/
theorem proposed_toString {d : Dict} {n : Nat} (hd : d.get? "identity.revision" = some (toString n))
    (h0 : 0 < n) (hmax : n ≤ int64Max) : proposed d = some (n : Int) := by
  have hlist : (toString n).toList = Nat.toDigits 10 n := by simp
  have hempty : toString n ≠ "" := by
    intro hc
    rw [hc] at hlist
    exact Nat.toDigits_ne_nil hlist.symm
  have hzero : ((toString n).toList.head? == some '0') = false := by
    rw [hlist]
    simpa using head_toDigits_ne_zero n h0
  rw [proposed, hd]
  simp only [hempty, hzero, asciiStrtoll_toString hmax]
  simp [h0.ne']

/-- What is read is positive. -/
theorem proposed_pos {d : Dict} {n : Int} (h : proposed d = some n) : 0 < n := by
  rw [proposed] at h
  split at h
  · exact absurd h (by simp)
  · split at h
    · exact absurd h (by simp)
    · split at h
      · exact absurd h (by simp)
      · rename_i hc
        simp only [Bool.or_eq_true, decide_eq_true_eq, not_or, not_le] at hc
        rw [← Option.some.inj h]
        exact hc.2

end Identity

end RustyRig

/-!
The canonical text of a descriptor says exactly what is in it.

Each key and each value stands behind its size in bytes and a colon, so an entry is
self-delimiting whatever bytes it holds; a list of entries can then be read back in
only one way.  Sorting removes the enumeration order.  So two descriptors have the
same canonical text exactly when they agree on every key but the signature.
-/

namespace RustyRig

open Lib

namespace Identity

/-! ### One entry -/

/-- A number and the colon behind it. -/
def sizeText (n : Nat) : List Char := Nat.toDigits 10 n ++ [':']

theorem sizeText_delimited : Delimited sizeText := by
  refine Delimited.terminated ?_ ?_
  · intro a b h
    rw [← Nat.ofDigitChars_ten_toDigits (n := a), h, Nat.ofDigitChars_ten_toDigits]
  · intro n hmem
    have := Nat.isDigit_of_mem_toDigits (by decide) (by decide) hmem
    exact absurd this (by decide)

/-- A string behind its size in bytes. -/
def framed (s : String) : List Char := sizeText s.utf8ByteSize ++ s.toList

theorem framed_delimited : Delimited framed := by
  have hcode : Delimited fun l : List Char => sizeText (String.ofList l).utf8ByteSize ++ l := by
    refine Delimited.framed sizeText_delimited ?_ ?_
    · intro s t
      rw [String.ofList_append, String.utf8ByteSize_append]
    · intro s hs
      rw [String.utf8ByteSize_eq_zero_iff] at hs
      simpa using congrArg String.toList hs
  have hlists := hcode.comp (e := String.toList) fun s t h => String.toList_inj.mp h
  simp only [String.ofList_toList] at hlists
  exact hlists

theorem canonicalEntry_toList (k v : String) :
    (canonicalEntry k v).toList = framed k ++ ([':'] ++ framed v) := by
  simp [canonicalEntry, framed, sizeText, String.toList_append]

/-- An entry is self-delimiting: what follows it cannot be taken for part of it. -/
theorem canonicalEntry_delimited :
    Delimited fun e : String × String => (canonicalEntry e.1 e.2).toList := by
  have := framed_delimited.pair (framed_delimited.const_append [':'])
  simpa only [canonicalEntry_toList] using this

theorem canonicalEntry_ne_nil (k v : String) : (canonicalEntry k v).toList ≠ [] := by
  simp [canonicalEntry_toList]

/-! ### The whole text -/

theorem canonical_toList (d : Dict) :
    (canonical d).toList = canonicalPrefix.toList ++
      (canonicalKeys d).flatMap fun k => (canonicalEntry k (d.get k "")).toList := by
  rw [canonical, String.toList_append, String.toList_join]
  simp [List.flatMap_map]

/-- **The canonical text determines the descriptor**, but for its signature. -/
theorem canonical_inj {d e : Dict} :
    canonical d = canonical e ↔ ∀ k, k ≠ signatureKey → d.get? k = e.get? k := by
  have hlisted := Delimited.listing_eq_iff canonicalEntry_delimited (fun e => canonicalEntry_ne_nil e.1 e.2)
    (· ≤ · : String → String → Prop) (d.nodup.filter (· ≠ signatureKey))
    (e.nodup.filter (· ≠ signatureKey)) (fun k => d.get k "") fun k => e.get k ""
  have hmem : ∀ (x : Dict) (k : String), k ∈ x.entries.map Prod.fst ↔ ∃ v, x.get? k = some v :=
    fun x k => Dict.mem_keys
  rw [← String.toList_inj, canonical_toList, canonical_toList, List.append_cancel_left_eq]
  refine hlisted.trans ?_
  simp only [List.mem_filter, decide_eq_true_eq, hmem]
  constructor
  · rintro ⟨hkeys, hvalues⟩ k hk
    have hsome : ∀ x y : Dict, (∀ v, x.get? k = some v → (∃ w, y.get? k = some w) ∧ x.get k "" = y.get k "") →
        ∀ v, x.get? k = some v → y.get? k = some v := by
      intro x y hxy v hv
      obtain ⟨⟨w, hw⟩, hget⟩ := hxy v hv
      rw [Dict.get, Dict.get, hv, hw] at hget
      rw [hw]
      exact congrArg some hget.symm
    refine Option.ext fun v => ⟨hsome d e (fun v hv => ?_) v, hsome e d (fun v hv => ?_) v⟩
    · exact ⟨((hkeys k).mp ⟨⟨v, hv⟩, hk⟩).1, hvalues k ⟨⟨v, hv⟩, hk⟩⟩
    · have hback := (hkeys k).mpr ⟨⟨v, hv⟩, hk⟩
      exact ⟨hback.1, (hvalues k hback).symm⟩
  · intro h
    refine ⟨fun k => and_congr_left fun hk => by rw [h k hk], fun k hk => ?_⟩
    rw [Dict.get, Dict.get, h k hk.2]

/-! ### What is digested -/

theorem get?_foldl_del (d : Dict) (l : List String) (k : String) :
    (l.foldl Dict.del d).get? k = if k ∈ l then none else d.get? k := by
  induction l generalizing d with
  | nil => simp
  | cons a l ih =>
      rw [List.foldl_cons, ih, Dict.get?_del]
      by_cases hk : k = a
      · simp [hk]
      · simp [hk]

/-- What a descriptor says outside the identity metadata. -/
def content (d : Dict) (k : String) : Option String := if k ∈ metaKeys then none else d.get? k

/-- **The digested text is the content, no more and no less.** -/
theorem canonical_stripped_inj {d e : Dict} :
    canonical (stripped d) = canonical (stripped e) ↔ content d = content e := by
  rw [canonical_inj, funext_iff]
  refine forall_congr' fun k => ?_
  rw [stripped, stripped, get?_foldl_del, get?_foldl_del]
  constructor
  · intro h
    by_cases hk : k = signatureKey
    · simp [content, hk, metaKeys]
    · exact h hk
  · intro h _
    exact h

/-- Writing metadata does not change the content. -/
theorem content_add (d : Dict) {k : String} (v : String) (hk : k ∈ metaKeys) :
    content (d.add k v) = content d := by
  funext x
  by_cases hx : x ∈ metaKeys
  · simp [content, hx]
  · have hne : x ≠ k := fun hc => hx (hc ▸ hk)
    simp [content, hx, hne]

theorem content_del (d : Dict) {k : String} (hk : k ∈ metaKeys) :
    content (d.del k) = content d := by
  funext x
  by_cases hx : x ∈ metaKeys
  · simp [content, hx]
  · have hne : x ≠ k := fun hc => hx (hc ▸ hk)
    simp [content, hx, hne]

theorem digest_congr {sha : String → String} {d e : Dict} (h : content d = content e) :
    catalogContentDigest sha d = catalogContentDigest sha e :=
  congrArg sha (canonical_stripped_inj.mpr h)

end Identity

end RustyRig

/-!
What is signed of a dictionary of any bytes.

An entry is self-delimiting whatever it holds, and `strcmp` is a linear order, so two
dictionaries have the same canonical bytes exactly when they hold the same pairs but for the
signature.  The canonical texts of two dictionaries are therefore told apart just as their
bytes are.
-/

namespace RustyRig

open Lib

namespace ByteDict

variable {d : ByteDict} {k v : List UInt8}

theorem get_of_mem (h : (k, v) ∈ d.entries) (dflt : List UInt8) : d.get k dflt = v := by
  unfold get
  cases hfind : d.entries.find? (·.1 == k) with
  | none => exact absurd (List.find?_eq_none.mp hfind _ h) (by simp)
  | some e =>
      have hkey : e.1 = k := by simpa using List.find?_some hfind
      have hsame : e = (k, v) :=
        List.inj_on_of_nodup_map d.nodup (List.mem_of_find?_eq_some hfind) h hkey
      rw [hsame]
      rfl

theorem mem_entries : (k, v) ∈ d.entries ↔ k ∈ d.keys ∧ d.get k [] = v := by
  constructor
  · intro h
    exact ⟨List.mem_map_of_mem h, get_of_mem h []⟩
  · rintro ⟨hk, rfl⟩
    obtain ⟨⟨k', v⟩, he, rfl⟩ := List.mem_map.mp hk
    rw [get_of_mem he []]
    exact he

end ByteDict

namespace Identity

/-! ### The order of the keys -/

theorem strcmpLe_cons {a b : UInt8} {s t : List UInt8} :
    strcmpLe (a :: s) (b :: t) = true ↔ a < b ∨ a = b ∧ strcmpLe s t = true := by
  simp only [strcmpLe, Bool.or_eq_true, Bool.and_eq_true, decide_eq_true_eq, beq_iff_eq]

instance : Std.Total compareStrings where
  total s t := by
    induction s generalizing t with
    | nil => exact Or.inl (by cases t <;> rfl)
    | cons a s ih =>
        cases t with
        | nil => exact Or.inr rfl
        | cons b t =>
            unfold compareStrings
            rw [strcmpLe_cons, strcmpLe_cons]
            rcases Nat.lt_trichotomy a.toNat b.toNat with hlt | heq | hgt
            · exact Or.inl (Or.inl (UInt8.lt_iff_toNat_lt.mpr hlt))
            · have heq : a = b := UInt8.toNat_inj.mp heq
              exact (ih t).imp (fun h => Or.inr ⟨heq, h⟩) fun h => Or.inr ⟨heq.symm, h⟩
            · exact Or.inr (Or.inl (UInt8.lt_iff_toNat_lt.mpr hgt))

instance : IsTrans (List UInt8) compareStrings where
  trans s t x hst htx := by
    induction s generalizing t x with
    | nil => cases x <;> rfl
    | cons a s ih =>
        cases t with
        | nil => exact absurd hst (by simp [compareStrings, strcmpLe])
        | cons b t =>
            cases x with
            | nil => exact absurd htx (by simp [compareStrings, strcmpLe])
            | cons c x =>
                rcases strcmpLe_cons.mp hst with hab | ⟨rfl, hrest⟩
                · rcases strcmpLe_cons.mp htx with hbc | ⟨rfl, -⟩
                  · exact strcmpLe_cons.mpr (Or.inl (UInt8.lt_trans hab hbc))
                  · exact strcmpLe_cons.mpr (Or.inl hab)
                · rcases strcmpLe_cons.mp htx with hac | ⟨rfl, hrest'⟩
                  · exact strcmpLe_cons.mpr (Or.inl hac)
                  · exact strcmpLe_cons.mpr (Or.inr ⟨rfl, ih t x hrest hrest'⟩)

instance : Std.Antisymm compareStrings where
  antisymm s t hst hts := by
    induction s generalizing t with
    | nil =>
        cases t with
        | nil => rfl
        | cons b t => exact absurd hts (by simp [compareStrings, strcmpLe])
    | cons a s ih =>
        cases t with
        | nil => exact absurd hst (by simp [compareStrings, strcmpLe])
        | cons b t =>
            rcases strcmpLe_cons.mp hst with hab | ⟨rfl, hrest⟩
            · rcases strcmpLe_cons.mp hts with hba | ⟨rfl, -⟩
              · exact absurd (UInt8.lt_trans hab hba) (UInt8.lt_irrefl a)
              · exact absurd hab (UInt8.lt_irrefl b)
            · rcases strcmpLe_cons.mp hts with haa | ⟨-, hrest'⟩
              · exact absurd haa (UInt8.lt_irrefl a)
              · rw [ih t hrest hrest']

/-! ### One entry -/

/-- A digit is the character of its byte. -/
theorem digit_of_byte {c : Char} (hc : c.isDigit = true) :
    Char.ofNat (UInt8.ofNat c.toNat).toNat = c ∧ UInt8.ofNat c.toNat ≠ 58 := by
  have hrange : 48 ≤ c.toNat ∧ c.toNat ≤ 57 := by
    simpa [Char.isDigit, UInt32.le_iff_toNat_le] using hc
  have hsmall : (UInt8.ofNat c.toNat).toNat = c.toNat := by
    rw [UInt8.toNat_ofNat']
    omega
  refine ⟨by rw [hsmall, Char.ofNat_toNat], fun h => ?_⟩
  rw [h] at hsmall
  have hcolon : (58 : UInt8).toNat = 58 := rfl
  omega

theorem digits_of_sizeBytes (n : Nat) :
    (sizeBytes n).map (fun b => Char.ofNat b.toNat) = Nat.toDigits 10 n := by
  unfold sizeBytes
  rw [List.map_map]
  refine (List.map_congr_left fun c hc => ?_).trans (List.map_id _)
  exact (digit_of_byte (Nat.isDigit_of_mem_toDigits (by decide) (by decide) hc)).1

theorem sizeBytes_delimited : Delimited fun n => sizeBytes n ++ literal ":" := by
  refine Delimited.terminated ?_ ?_
  · intro n m h
    rw [← Nat.ofDigitChars_ten_toDigits (n := n), ← digits_of_sizeBytes, h, digits_of_sizeBytes,
      Nat.ofDigitChars_ten_toDigits]
  · intro n hmem
    obtain ⟨c, hc, hcolon⟩ := List.mem_map.mp hmem
    exact (digit_of_byte (Nat.isDigit_of_mem_toDigits (by decide) (by decide) hc)).2 hcolon

/-- A text behind its size. -/
theorem framedBytes_delimited : Delimited fun s : List UInt8 => (sizeBytes s.length ++ literal ":") ++ s :=
  Delimited.framed sizeBytes_delimited (fun _ _ => List.length_append) fun _ h =>
    List.eq_nil_of_length_eq_zero h

theorem entryBytes_delimited : Delimited fun e : List UInt8 × List UInt8 => headerBytes e.1 e.2 ++ e.2 := by
  have hpair := framedBytes_delimited.pair (framedBytes_delimited.const_append (literal ":"))
  have hsame : (fun e : List UInt8 × List UInt8 => headerBytes e.1 e.2 ++ e.2) =
      fun p => ((sizeBytes p.1.length ++ literal ":") ++ p.1) ++
        (literal ":" ++ ((sizeBytes p.2.length ++ literal ":") ++ p.2)) := by
    funext e
    simp [headerBytes]
  rw [hsame]
  exact hpair

theorem entryBytes_ne_nil (e : List UInt8 × List UInt8) : headerBytes e.1 e.2 ++ e.2 ≠ [] := by
  simp [headerBytes, literal]

/-! ### The whole -/

/-- **What is signed is what is there.**  The canonical bytes of two dictionaries are equal exactly
when they hold the same pairs but for the signature, in any order. -/
theorem canonicalBytes_inj (d e : ByteDict) :
    canonicalBytes d = canonicalBytes e ↔
      ∀ k v, k ≠ literal signatureKey → ((k, v) ∈ d.entries ↔ (k, v) ∈ e.entries) := by
  have hlisted := Delimited.listing_eq_iff entryBytes_delimited entryBytes_ne_nil compareStrings
    (d.nodup.filter (· ≠ literal signatureKey)) (e.nodup.filter (· ≠ literal signatureKey))
    (fun k => d.get k []) fun k => e.get k []
  unfold canonicalBytes
  rw [List.append_cancel_left_eq]
  refine hlisted.trans ?_
  simp only [List.mem_filter, decide_eq_true_eq]
  constructor
  · rintro ⟨hkeys, hvalues⟩ k v hk
    have hmem : k ∈ d.keys ↔ k ∈ e.keys := by
      have hiff := hkeys k
      exact ⟨fun h => (hiff.mp ⟨h, hk⟩).1, fun h => (hiff.mpr ⟨h, hk⟩).1⟩
    rw [ByteDict.mem_entries, ByteDict.mem_entries, ← hmem]
    exact and_congr_right fun h => by rw [hvalues k ⟨h, hk⟩]
  · intro h
    have hkey : ∀ x y : ByteDict, (∀ k v, k ≠ literal signatureKey → ((k, v) ∈ x.entries ↔ (k, v) ∈ y.entries)) →
        ∀ k, k ≠ literal signatureKey → k ∈ x.keys → k ∈ y.keys ∧ x.get k [] = y.get k [] := by
      intro x y hxy k hk hmem
      obtain ⟨hmem', hget⟩ := ByteDict.mem_entries.mp ((hxy k _ hk).mp (ByteDict.mem_entries.mpr ⟨hmem, rfl⟩))
      exact ⟨hmem', hget.symm⟩
    refine ⟨fun k => ?_, fun k hk => (hkey d e h k hk.2 hk.1).2⟩
    constructor
    · rintro ⟨hmem, hk⟩
      exact ⟨(hkey d e h k hk hmem).1, hk⟩
    · rintro ⟨hmem, hk⟩
      exact ⟨(hkey e d (fun k v hk => (h k v hk).symm) k hk hmem).1, hk⟩

/-! ### Texts -/

/-- The bytes that encode a text. -/
def utf8 (s : String) : List UInt8 := s.toByteArray.data.toList

theorem utf8_injective : Function.Injective utf8 := by
  intro s t h
  exact String.toByteArray_inj.mp (ByteArray.ext (Array.toList_inj.mp h))

/-- A dictionary of texts, as it is held. -/
def bytesOf (d : Dict) : ByteDict where
  entries := d.entries.map fun e => (utf8 e.1, utf8 e.2)
  nodup := by
    rw [List.map_map]
    have hkeys : Prod.fst ∘ (fun e : String × String => (utf8 e.1, utf8 e.2)) = utf8 ∘ Prod.fst := rfl
    rw [hkeys, ← List.map_map]
    exact d.nodup.map utf8_injective

theorem mem_bytesOf {d : Dict} {k v : String} : (utf8 k, utf8 v) ∈ (bytesOf d).entries ↔ d.get? k = some v := by
  rw [Dict.get?_eq_some]
  constructor
  · intro h
    obtain ⟨⟨k', v'⟩, he, hsame⟩ := List.mem_map.mp h
    obtain ⟨hk, hv⟩ := Prod.mk.inj hsame
    rw [← utf8_injective hk, ← utf8_injective hv]
    exact he
  · intro h
    exact List.mem_map_of_mem h

/-- **Texts are told apart as their bytes are.** -/
theorem canonical_eq_iff_bytes (d e : Dict) :
    canonical d = canonical e ↔ canonicalBytes (bytesOf d) = canonicalBytes (bytesOf e) := by
  have hsignature : utf8 signatureKey = literal signatureKey := by decide
  rw [canonical_inj, canonicalBytes_inj]
  constructor
  · intro h k v hk
    have hpairs : ∀ x y : Dict, (∀ k, k ≠ signatureKey → x.get? k = y.get? k) →
        (k, v) ∈ (bytesOf x).entries → (k, v) ∈ (bytesOf y).entries := by
      intro x y hxy hmem
      obtain ⟨⟨k', v'⟩, he, hsame⟩ := List.mem_map.mp hmem
      obtain ⟨rfl, rfl⟩ := Prod.mk.inj hsame
      have hk' : k' ≠ signatureKey := fun heq => hk (heq ▸ hsignature)
      exact mem_bytesOf.mpr ((hxy k' hk').symm.trans (Dict.get?_eq_some.mpr he))
    exact ⟨hpairs d e h, hpairs e d fun k hk => (h k hk).symm⟩
  · intro h k hk
    have hk' : utf8 k ≠ literal signatureKey := fun heq => hk (utf8_injective (heq.trans hsignature.symm))
    refine Option.ext fun v => ?_
    rw [← mem_bytesOf, ← mem_bytesOf]
    exact h _ _ hk'

end Identity

end RustyRig
