/-
Sites in hexadecimal.

Two digits are one byte, and a byte has one pair of digits.  So what `decode_site` accepts is
what `encode_site` writes, as far as the site has a byte, none of its bytes is zero and it fits.
-/
import Mathlib.Data.List.Basic
import RustyRig.Rrserver.Link
import RustyRig.Proofs.LinkTree.Run
import RustyRig.Proofs.LinkTree.Atomic

namespace RustyRig

namespace LinkSnapshot

variable {site hex : List UInt8} {a : UInt8} {n : Nat}

theorem hexDigit_toNat (h : n < 16) : (hexDigit n).toNat = if n < 10 then 48 + n else 87 + n := by
  unfold hexDigit
  rw [UInt8.toNat_ofNat']
  split <;> omega

theorem hexValue_hexDigit (h : n < 16) : hexValue (hexDigit n) = some n := by
  unfold hexValue
  rw [hexDigit_toNat h]
  by_cases hn : n < 10
  · simp [hn]
    omega
  · rw [if_neg hn, if_neg (by omega), if_pos (by omega)]
    congr 1
    omega

/-- A digit is the one of its value. -/
theorem hexDigit_of_value (h : hexValue a = some n) : n < 16 ∧ hexDigit n = a := by
  unfold hexValue at h
  have hdigit : n < 16 ∧ (if n < 10 then 48 + n else 87 + n) = a.toNat := by
    split at h
    · obtain rfl := Option.some.inj h
      exact ⟨by omega, by rw [if_pos (by omega)]; omega⟩
    split at h
    · obtain rfl := Option.some.inj h
      exact ⟨by omega, by rw [if_neg (by omega)]; omega⟩
    · exact absurd h (by simp)
  exact ⟨hdigit.1, UInt8.toNat_inj.mp ((hexDigit_toNat hdigit.1).trans hdigit.2)⟩

theorem encodeSite_cons (c : UInt8) (site : List UInt8) : encodeSite (c :: site) =
    hexDigit (c.toNat / 16) :: hexDigit (c.toNat % 16) :: encodeSite site := rfl

theorem encodeSite_length (site : List UInt8) : (encodeSite site).length = 2 * site.length := by
  induction site with
  | nil => rfl
  | cons c site ih =>
      rw [encodeSite_cons, List.length_cons, List.length_cons, List.length_cons, ih]
      omega

theorem decodePairs_encode (h : 0 ∉ site) : decodePairs (encodeSite site) = some site := by
  induction site with
  | nil => rfl
  | cons c site ih =>
      rw [List.mem_cons, not_or] at h
      have hc := c.toNat_lt
      have hbyte : c.toNat / 16 * 16 + c.toNat % 16 = c.toNat := by omega
      have hne : c.toNat ≠ 0 := fun hzero => h.1 (UInt8.toNat_inj.mp hzero.symm)
      rw [encodeSite_cons, decodePairs, hexValue_hexDigit (by omega), hexValue_hexDigit (by omega)]
      simp only [hbyte, if_neg hne, ih h.2, Option.map_some, UInt8.ofNat_toNat]

/-- What is decoded was encoded. -/
theorem encode_decodePairs : ∀ {hex site : List UInt8}, hex.length % 2 = 0 →
    decodePairs hex = some site → encodeSite site = hex ∧ 0 ∉ site
  | [], site, _, h => by
      obtain rfl := Option.some.inj h
      exact ⟨rfl, List.not_mem_nil⟩
  | [_], _, heven, _ => absurd heven (by simp)
  | a :: b :: rest, site, heven, h => by
      rw [decodePairs] at h
      split at h
      swap
      · exact absurd h (by simp)
      rename_i hi lo ha hb
      split at h
      · exact absurd h (by simp)
      rename_i hzero
      obtain ⟨tail, htail, rfl⟩ := Option.map_eq_some_iff.mp h
      obtain ⟨hhi, rfl⟩ := hexDigit_of_value ha
      obtain ⟨hlo, rfl⟩ := hexDigit_of_value hb
      obtain ⟨henc, hno⟩ := encode_decodePairs (by simp only [List.length_cons] at heven; omega) htail
      have hbyte : (UInt8.ofNat (hi * 16 + lo)).toNat = hi * 16 + lo := by
        rw [UInt8.toNat_ofNat']
        omega
      rw [encodeSite_cons, henc, hbyte]
      refine ⟨by congr 2 <;> congr 1 <;> omega, fun hmem => ?_⟩
      rcases List.mem_cons.mp hmem with heq | hmem
      · rw [← heq] at hbyte
        exact hzero hbyte.symm
      · exact hno hmem

/-- `decode_site` accepts what `encode_site` writes for a site that fits, and nothing else. -/
theorem decodeSite_eq_some {capacity : Nat} : decodeSite hex capacity = some site ↔
    site ≠ [] ∧ 0 ∉ site ∧ site.length < capacity ∧ hex = encodeSite site := by
  unfold decodeSite
  constructor
  · intro h
    split at h
    · exact absurd h (by simp)
    rename_i hlen
    obtain ⟨rfl, hno⟩ := encode_decodePairs (by omega) h
    rw [encodeSite_length] at hlen
    refine ⟨fun hnil => ?_, hno, by omega, rfl⟩
    rw [hnil, List.length_nil] at hlen
    omega
  · rintro ⟨hne, hno, hlen, rfl⟩
    have hpos := List.length_pos_of_ne_nil hne
    rw [encodeSite_length, if_neg (by omega)]
    exact decodePairs_encode hno

/-- The digits are none of the separators. -/
theorem sep_notMem_encodeSite {sep : UInt8} (h : sep.toNat < 48) : sep ∉ encodeSite site := by
  intro hmem
  obtain ⟨c, -, hc⟩ := List.mem_flatMap.mp hmem
  have hlt := c.toNat_lt
  have hdigit : ∀ n < 16, sep ≠ hexDigit n := by
    rintro n hn rfl
    rw [hexDigit_toNat hn] at h
    split at h <;> omega
  simp only [List.mem_cons, List.not_mem_nil, or_false] at hc
  rcases hc with hc | hc
  · exact hdigit _ (by omega) hc
  · exact hdigit _ (by omega) hc

end LinkSnapshot

end RustyRig

/-!
What a snapshot says is what is read of it.

No field of an entry holds a separator, so the first two commas end the server and the parent,
and spaces separate the entries.  An entry of a tree takes at most 328 bytes, which with its
space leaves the bound of 332 some room.
-/

namespace RustyRig

namespace LinkSnapshot

variable {n : Node} {ns : List Node}

/-- An entry that can be read again: identities of 36 bytes, and a site that fits. -/
structure Clean (n : Node) : Prop where
  server : n.server.length = 36 ∧ space ∉ n.server ∧ comma ∉ n.server
  parent : ∀ p, n.parent = some p → p.length = 36 ∧ space ∉ p ∧ comma ∉ p
  site : n.site ≠ [] ∧ 0 ∉ n.site ∧ n.site.length < 128

/-! ### Entries -/

theorem cut_append {c : UInt8} {x : List UInt8} (h : c ∉ x) (y : List UInt8) :
    cut c (x ++ c :: y) = some (x, y) := by
  induction x with
  | nil => simp [cut]
  | cons a x ih =>
      rw [List.mem_cons, not_or] at h
      rw [List.cons_append, cut, if_neg (Ne.symm h.1), ih h.2]
      rfl

namespace Clean

/-- The parent's field, with the dash for none. -/
theorem field (h : Clean n) : (n.parent.getD dash).length ≤ 36 ∧ space ∉ n.parent.getD dash ∧
    comma ∉ n.parent.getD dash := by
  cases hp : n.parent with
  | none => decide
  | some p =>
      obtain ⟨hlen, hsep⟩ := h.parent p hp
      exact ⟨Nat.le_of_eq hlen, hsep⟩

theorem entry_length (h : Clean n) : (entry n).length ≤ 328 := by
  have hserver := h.server.1
  have hparent := h.field.1
  have hsite := h.site.2.2
  unfold entry
  simp only [List.length_append, List.length_cons, encodeSite_length]
  omega

theorem entry_ne_nil (n : Node) : entry n ≠ [] := by
  unfold entry
  simp

theorem space_notMem_entry (h : Clean n) : space ∉ entry n := by
  have hsite : space ∉ encodeSite n.site := sep_notMem_encodeSite (by decide)
  have hcomma : space ≠ comma := by decide
  unfold entry
  simp only [List.mem_append, List.mem_cons, not_or]
  exact ⟨⟨h.server.2.1, hcomma, h.field.2.1⟩, hcomma, hsite⟩

theorem readEntry (h : Clean n) : readEntry (entry n) = some n := by
  have hdecode : decodeSite (encodeSite n.site) 128 = some n.site :=
    decodeSite_eq_some.mpr ⟨h.site.1, h.site.2.1, h.site.2.2, rfl⟩
  have hparent : (if n.parent.getD dash = dash then none else some (n.parent.getD dash)) = n.parent := by
    cases hp : n.parent with
    | none => rfl
    | some p =>
        have hlen := (h.parent p hp).1
        have hne : p ≠ dash := by
          rintro rfl
          exact absurd hlen (by decide)
        exact if_neg hne
  have hentry : entry n = n.server ++ comma :: (n.parent.getD dash ++ comma :: encodeSite n.site) := by
    unfold entry
    rw [List.append_assoc, List.cons_append]
  unfold LinkSnapshot.readEntry
  rw [hentry, cut_append h.server.2.2]
  simp only
  rw [cut_append h.field.2.2]
  simp only [hdecode, Option.map_some, hparent]

end Clean

/-! ### The text -/

/-- The entries with a space between them. -/
def text (ns : List Node) : List UInt8 := [space].intercalate (ns.map entry)

theorem writeRest_eq {capacity : Nat} : ∀ (ns : List Node) (written : List UInt8),
    (∀ n ∈ ns, Clean n) → written.length + 329 * ns.length < capacity →
      writeRest capacity written ns = some (written ++ ns.flatMap fun n => space :: entry n) := by
  intro ns
  induction ns with
  | nil => intro written _ _; simp [writeRest]
  | cons n ns ih =>
      intro written hns hroom
      have hlen := (hns n List.mem_cons_self).entry_length
      rw [List.length_cons] at hroom
      unfold writeRest
      simp only
      rw [if_neg (by rw [List.length_cons]; omega)]
      rw [ih _ (fun m hm => hns m (List.mem_cons_of_mem _ hm))
        (by rw [List.length_append, List.length_cons]; omega)]
      simp

theorem text_cons (n : Node) (ns : List Node) :
    text (n :: ns) = entry n ++ ns.flatMap fun n => space :: entry n := by
  unfold text
  induction ns generalizing n with
  | nil => simp
  | cons m ns ih =>
      rw [List.map_cons, List.map_cons, List.intercalate_cons_cons, ← List.map_cons, ih m]
      simp

/-- The buffer has room for every entry. -/
theorem write_eq {capacity : Nat} (h : ∀ n ∈ ns, Clean n) (hroom : 329 * ns.length < capacity) :
    write capacity ns = some (text ns) := by
  cases ns with
  | nil => rfl
  | cons n ns =>
      have hlen := (h n List.mem_cons_self).entry_length
      rw [List.length_cons] at hroom
      unfold write
      simp only
      rw [if_neg (by omega), writeRest_eq ns _ (fun m hm => h m (List.mem_cons_of_mem _ hm)) (by omega),
        text_cons]

theorem tokens_text (h : ∀ n ∈ ns, Clean n) : tokens (text ns) = ns.map entry := by
  unfold tokens text
  by_cases hns : ns = []
  · subst hns
    rfl
  have hsep : ∀ l ∈ ns.map entry, space ∉ l := by
    intro l hl
    obtain ⟨n, hn, rfl⟩ := List.mem_map.mp hl
    exact (h n hn).space_notMem_entry
  rw [List.splitOn_intercalate space hsep (by simpa using hns), List.filter_eq_self]
  intro l hl
  obtain ⟨n, -, rfl⟩ := List.mem_map.mp hl
  simpa using Clean.entry_ne_nil n

theorem readRest_entries : ∀ (ns nodes : List Node), (∀ n ∈ ns, Clean n) →
    nodes.length + ns.length ≤ 256 → readRest nodes (ns.map entry) = nodes ++ ns := by
  intro ns
  induction ns with
  | nil => intro nodes _ _; simp [readRest]
  | cons n ns ih =>
      intro nodes hns hlen
      rw [List.length_cons] at hlen
      rw [List.map_cons, readRest, if_neg (by omega), (hns n List.mem_cons_self).readEntry]
      simp only
      rw [ih _ (fun m hm => hns m (List.mem_cons_of_mem _ hm))
        (by rw [List.length_append, List.length_singleton]; omega)]
      simp

theorem handleSnapshot_text (h : ∀ n ∈ ns, Clean n) (hlen : ns.length ≤ 256) :
    handleSnapshot (text ns) = ns := by
  unfold handleSnapshot
  rw [tokens_text h, readRest_entries ns [] h (by simpa using hlen), List.nil_append]

end LinkSnapshot

end RustyRig
