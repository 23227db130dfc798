/-
The revision protocol between the owner of a descriptor and its receivers.

Both ends keep one row a slot, a revision and a digest.  The owner's row `Follows`
the one before it: the same row for the same content, the next revision for any
other.  A receiver's row only goes up in `Row.le`, where a higher revision may carry
anything and an equal one carries the same.  Delivery order, loss and repetition
never enter: whatever is accepted is above the row, and in the order of emission
everything is.
-/
import Mathlib.Data.List.Chain
import Mathlib.Order.Fin.Basic
import RustyRig.Proofs.Identity.Numeral
import RustyRig.Rrserver.Identity

namespace RustyRig

namespace Identity

variable {sha sign : String → String} {self : Publisher} {j j' : Journal} {a : Attempt}
  {p q : Publication} {domain : String} {r r' : Receiver} {x : Delivery}

/-! ### Rows -/

/-- A later row: a higher revision, or the same row. -/
def Row.le (o n : Row) : Prop := o.revision < n.revision ∨ o = n

theorem Row.le_refl (o : Row) : o.le o := Or.inr rfl

theorem Row.le_trans {o n k : Row} (h : o.le n) (h' : n.le k) : o.le k := by
  rcases h with h | rfl
  · rcases h' with h' | rfl
    · exact Or.inl (h.trans h')
    · exact Or.inl h
  · exact h'

/-- The row the owner writes after `old` is the same for the same content, else the next. -/
def Follows (old : Option Row) (n : Row) : Prop :=
  match old with
  | none => n.revision = 1
  | some o => (o.digest = n.digest ∧ o = n) ∨ (o.digest ≠ n.digest ∧ n.revision = o.revision + 1)

theorem Follows.le {o n : Row} (h : Follows (some o) n) : o.le n := by
  rcases h with ⟨-, rfl⟩ | ⟨-, h⟩
  · exact Row.le_refl o
  · exact Or.inl (by omega)

/-- The row a publication stands for. -/
structure Carries (sha : String → String) (p : Publication) (n : Row) : Prop where
  revision : proposed p.descriptor = some (n.revision : Int)
  digest : n.digest = catalogContentDigest sha p.descriptor

theorem Carries.unique {m n : Row} (hm : Carries sha p m) (hn : Carries sha p n) : m = n := by
  have hrev := Option.some.inj (hm.revision.symm.trans hn.revision)
  have hdig := hm.digest.trans hn.digest.symm
  obtain ⟨m, dm⟩ := m
  obtain ⟨n, dn⟩ := n
  simp only at hrev hdig
  rw [Row.mk.injEq]
  exact ⟨by omega, hdig⟩

theorem Carries.pos {n : Row} (h : Carries sha p n) : 0 < n.revision := by
  have := proposed_pos h.revision
  omega

/-- The table's `CHECK(revision>0)` and the width of its column. -/
def Sound (j : Journal) : Prop := ∀ slot o, j slot = some o → 0 < o.revision ∧ o.revision ≤ int64Max

theorem sound_empty : Sound fun _ => none := by
  intro slot o ho
  exact absurd ho (by simp)

theorem sound_update {slot : Slot} {n : Row} (h : Sound j) (h0 : 0 < n.revision)
    (hmax : n.revision ≤ int64Max) : Sound (Function.update j slot (some n)) := by
  intro s o ho
  by_cases hs : s = slot
  · subst hs
    rw [Function.update_self] at ho
    obtain rfl := Option.some.inj ho
    exact ⟨h0, hmax⟩
  · rw [Function.update_of_ne hs] at ho
    exact h s o ho

/-! ### The owner -/

theorem content_sealLocal (d : Dict) : content (sealLocal self d) = content d := by
  rw [sealLocal, content_add _ _ (by decide), content_add _ _ (by decide),
    content_add _ _ (by decide), content_add _ _ (by decide), content_add _ _ (by decide),
    content_del _ (by decide)]

/-- What numbering does: nothing on failure, else a row that follows the one before. -/
theorem localRevision_cases (sha : String → String) (fault : Option DbCall) {slot : Slot}
    (h : Sound j) (d : Dict) :
    (∃ n, localRevision sha fault j slot d =
        (true, Function.update j slot (some n), d.add "identity.revision" (toString n.revision)) ∧
        n.digest = catalogContentDigest sha d ∧ Follows (j slot) n ∧ 0 < n.revision ∧
        n.revision ≤ int64Max) ∨
      localRevision sha fault j slot d = (false, j, d) := by
  rw [localRevision]
  split
  · exact Or.inr rfl
  cases hrow : j slot with
  | none =>
      simp only [Option.map_none, Option.getD_none, reduceCtorEq, if_false]
      rw [if_neg (by decide)]
      split
      · exact Or.inr rfl
      · exact Or.inl ⟨⟨1, catalogContentDigest sha d⟩, rfl, rfl, rfl, Nat.one_pos,
          (by decide : 1 ≤ int64Max)⟩
  | some o =>
      obtain ⟨hpos, hmax⟩ := h slot o hrow
      simp only [Option.map_some, Option.getD_some, Option.some.injEq]
      by_cases hsame : o.digest = catalogContentDigest sha d
      · rw [if_pos hsame, decide_eq_true hpos]
        refine Or.inl ⟨o, ?_, hsame, Or.inl ⟨rfl, rfl⟩, hpos, hmax⟩
        rw [← hrow, Function.update_eq_self]
      rw [if_neg hsame]
      by_cases hlast : o.revision = int64Max
      · exact Or.inr (if_pos hlast)
      rw [if_neg hlast]
      split
      · exact Or.inr rfl
      · exact Or.inl ⟨⟨o.revision + 1, catalogContentDigest sha d⟩, rfl, rfl,
          Or.inr ⟨hsame, rfl⟩, Nat.succ_pos _, by show o.revision + 1 ≤ int64Max; omega⟩

/-- What the owner's fields of an emitted descriptor say. -/
structure SignedBy (s : Publisher) (p : Publication) : Prop where
  owner : p.descriptor.get "identity.owner" "" = s.owner
  domain : p.descriptor.get "identity.domain" "" = s.domain
  publicKey : p.descriptor.get "identity.public-key" "" = s.publicKey

/-- **An attempt is blocked without a trace, or emits the row that follows.** -/
theorem publish_cases (sha sign : String → String) (self : Publisher) (h : Sound j) (a : Attempt) :
    (∃ p n, publish sha sign self j a =
        (some p, Function.update j ⟨self.domain, self.owner, a.key⟩ (some n)) ∧
        p.key = a.key ∧ content p.descriptor = content a.descriptor ∧ SignedBy self p ∧
        Carries sha p n ∧ Follows (j ⟨self.domain, self.owner, a.key⟩) n ∧
        Sound (Function.update j ⟨self.domain, self.owner, a.key⟩ (some n))) ∨
      publish sha sign self j a = (none, j) := by
  rw [publish]
  rcases localRevision_cases sha a.fault h (sealLocal self a.descriptor) with
    ⟨n, heq, hdig, hfol, hpos, hmax⟩ | heq
  · rw [heq]
    have hcontent : content (signCatalog sign ((sealLocal self a.descriptor).add
        "identity.revision" (toString n.revision))) = content (sealLocal self a.descriptor) := by
      rw [signCatalog, content_add _ _ (by decide), content_add _ _ (by decide)]
    refine Or.inl ⟨_, n, rfl, rfl, hcontent.trans (content_sealLocal _), ⟨?_, ?_, ?_⟩, ⟨?_, ?_⟩,
      hfol, sound_update h hpos hmax⟩
    · simp [signCatalog, sealLocal, Dict.get, signatureKey]
    · simp [signCatalog, sealLocal, Dict.get, signatureKey]
    · simp [signCatalog, sealLocal, Dict.get, signatureKey]
    · exact proposed_toString (by simp [signCatalog, signatureKey]) hpos hmax
    · rw [hdig]
      exact digest_congr hcontent.symm
  · rw [heq]
    exact Or.inr rfl

end Identity

end RustyRig

/-!
The first key seen of an owner.
-/

namespace RustyRig

namespace Identity

variable {pins : Pins} {scope : String × String} {pinned : String}

/-- A pin stays. -/
theorem checkPin_keeps (fault : Option DbCall) (domain owner publicKey : String)
    (h : pins scope = some pinned) :
    (checkPin fault pins domain owner publicKey).2 scope = some pinned := by
  unfold checkPin
  split
  · exact h
  split
  · exact h
  have hkept : (if (pins (asciiStrdown domain, owner)).isSome then pins
      else Function.update pins (asciiStrdown domain, owner) (some publicKey)) scope =
        some pinned := by
    split
    · exact h
    · rename_i hnone
      have hne : scope ≠ (asciiStrdown domain, owner) := by
        rintro rfl
        simp [h] at hnone
      rw [Function.update_of_ne hne, h]
  split <;> exact hkept

end Identity

end RustyRig
