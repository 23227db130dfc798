/-
Self-delimiting codes.

A code is self-delimiting when the end of a code word can be told from the word:
whatever follows two words, equal texts begin with equal words.  That is more than
being injective, and it is what survives concatenation.  A word closed by a
separator it does not contain is self-delimiting, so is a text behind its size, and
so are pairs; a list of such words is then injective.  A table that is written out in the order
of its keys is therefore told from any other, and not from itself in another order.
-/
import Mathlib.Data.List.Basic
import Mathlib.Data.List.Sort

namespace RustyRig.Lib

/-- What follows a code word does not matter for telling which word it is. -/
def Delimited {α β : Type} (f : α → List β) : Prop :=
  ∀ ⦃a b : α⦄ ⦃r r' : List β⦄, f a ++ r = f b ++ r' → a = b ∧ r = r'

namespace Delimited

variable {α β γ : Type} {f : α → List β} {g : γ → List β}

/-- Texts that do not contain the separator end where it stands. -/
theorem append_sep_inj {x y r r' : List β} {sep : β} (hx : sep ∉ x) (hy : sep ∉ y)
    (h : x ++ sep :: r = y ++ sep :: r') : x = y ∧ r = r' := by
  rcases List.append_eq_append_iff.mp h with ⟨d, rfl, hd⟩ | ⟨d, rfl, hd⟩
  · cases d with
    | nil => exact ⟨(List.append_nil x).symm, (List.cons.inj hd).2⟩
    | cons c d =>
        obtain rfl := (List.cons.inj hd).1
        exact absurd (List.mem_append_right x List.mem_cons_self) hy
  · cases d with
    | nil => exact ⟨List.append_nil y, (List.cons.inj hd).2.symm⟩
    | cons c d =>
        obtain rfl := (List.cons.inj hd).1
        exact absurd (List.mem_append_right y List.mem_cons_self) hx

/-- A word closed by a separator it never contains. -/
theorem terminated (hf : Function.Injective f) {sep : β} (hsep : ∀ a, sep ∉ f a) :
    Delimited fun a => f a ++ [sep] := by
  intro a b r r' h
  rw [List.append_assoc, List.append_assoc, List.singleton_append, List.singleton_append] at h
  obtain ⟨hw, hr⟩ := append_sep_inj (hsep a) (hsep b) h
  exact ⟨hf hw, hr⟩

/-- A text behind its size, for a size that only the empty text has none of. -/
theorem framed {size : List β → Nat} {head : Nat → List β} (hhead : Delimited head)
    (hadd : ∀ s t, size (s ++ t) = size s + size t) (hzero : ∀ s, size s = 0 → s = []) :
    Delimited fun s => head (size s) ++ s := by
  intro s t r r' h
  rw [List.append_assoc, List.append_assoc] at h
  obtain ⟨hsize, h⟩ := hhead h
  rcases List.append_eq_append_iff.mp h with ⟨d, rfl, rfl⟩ | ⟨d, rfl, rfl⟩
  · rw [hadd] at hsize
    obtain rfl := hzero d (by omega)
    exact ⟨(List.append_nil s).symm, rfl⟩
  · rw [hadd] at hsize
    obtain rfl := hzero d (by omega)
    exact ⟨List.append_nil t, rfl⟩

theorem comp (hf : Delimited f) {e : γ → α} (he : Function.Injective e) :
    Delimited fun c => f (e c) := by
  intro a b r r' h
  obtain ⟨hw, hr⟩ := hf h
  exact ⟨he hw, hr⟩

/-- A fixed text in front changes nothing. -/
theorem const_append (hf : Delimited f) (c : List β) : Delimited fun a => c ++ f a := by
  intro a b r r' h
  rw [List.append_assoc, List.append_assoc] at h
  exact hf (List.append_cancel_left h)

theorem pair (hf : Delimited f) (hg : Delimited g) :
    Delimited fun p : α × γ => f p.1 ++ g p.2 := by
  intro p q r r' h
  rw [List.append_assoc, List.append_assoc] at h
  obtain ⟨h₁, h⟩ := hf h
  obtain ⟨h₂, hr⟩ := hg h
  exact ⟨Prod.ext h₁ h₂, hr⟩

/-- A list of self-delimiting words is injective, provided no word is empty. -/
theorem flatMap_injective (hf : Delimited f) (hne : ∀ a, f a ≠ []) :
    Function.Injective fun l : List α => l.flatMap f := by
  intro l
  induction l with
  | nil =>
      intro l' h
      cases l' with
      | nil => rfl
      | cons b l' =>
          simp only [List.flatMap_nil, List.flatMap_cons] at h
          exact absurd (List.append_eq_nil_iff.mp h.symm).1 (hne b)
  | cons a l ih =>
      intro l' h
      cases l' with
      | nil =>
          simp only [List.flatMap_nil, List.flatMap_cons] at h
          exact absurd (List.append_eq_nil_iff.mp h).1 (hne a)
      | cons b l' =>
          simp only [List.flatMap_cons] at h
          obtain ⟨rfl, hrest⟩ := hf h
          rw [ih hrest]

/-- Tables that are written out in the order of their keys. -/
theorem listing_eq_iff {κ ν : Type} {code : κ × ν → List β} (hcode : Delimited code)
    (hne : ∀ e, code e ≠ []) (r : κ → κ → Prop) [DecidableRel r] [Std.Total r] [IsTrans κ r]
    [Std.Antisymm r] {ks ks' : List κ} (hks : ks.Nodup) (hks' : ks'.Nodup) (value value' : κ → ν) :
    ((ks.insertionSort r).flatMap fun k => code (k, value k)) =
        ((ks'.insertionSort r).flatMap fun k => code (k, value' k)) ↔
      (∀ k, k ∈ ks ↔ k ∈ ks') ∧ ∀ k ∈ ks, value k = value' k := by
  have hlisted : ∀ (l : List κ) (f : κ → ν),
      (l.flatMap fun k => code (k, f k)) = (l.map fun k => (k, f k)).flatMap code :=
    fun l f => (List.flatMap_map ..).symm
  rw [hlisted, hlisted]
  constructor
  · intro h
    have hentries := hcode.flatMap_injective hne h
    have hkeys : ks.insertionSort r = ks'.insertionSort r := by
      have hfst := congrArg (List.map Prod.fst) hentries
      simpa [List.map_map, Function.comp_def] using hfst
    have hmem : ∀ k, k ∈ ks ↔ k ∈ ks' := by
      intro k
      rw [← (List.perm_insertionSort r ks).mem_iff, hkeys, (List.perm_insertionSort r ks').mem_iff]
    refine ⟨hmem, fun k hk => ?_⟩
    rw [hkeys] at hentries
    have hk' : k ∈ ks'.insertionSort r := (List.perm_insertionSort r ks').mem_iff.mpr ((hmem k).mp hk)
    exact (Prod.mk.inj (List.map_inj_left.mp hentries k hk')).2
  · rintro ⟨hmem, hvalue⟩
    have hperm : ks.Perm ks' := (List.perm_ext_iff_of_nodup hks hks').mpr hmem
    have hkeys : ks.insertionSort r = ks'.insertionSort r := by
      refine List.Perm.eq_of_pairwise' (List.pairwise_insertionSort r _) (List.pairwise_insertionSort r _) ?_
      exact ((List.perm_insertionSort r _).trans hperm).trans (List.perm_insertionSort r _).symm
    rw [← hkeys]
    congr 1
    refine List.map_congr_left fun k hk => ?_
    rw [hvalue k ((List.perm_insertionSort r ks).mem_iff.mp hk)]

end Delimited

end RustyRig.Lib
