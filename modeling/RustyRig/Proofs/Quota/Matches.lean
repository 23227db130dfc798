/-
What a quota pattern matches.

The pattern's characters are read as symbols of a glob (`symbol`).  At each round of the loop `Meaning`
says what is still to be decided, and `Linked` that behind the last star the pattern has matched the name
up to here; the rounds keep both, so the loop decides what it was started with.
-/
import RustyRig.Lib.Glob
import RustyRig.Rrserver.Quota

namespace RustyRig

namespace Quota

open Lib

variable {s : Scan} {p c : Char} {pattern name rest : Text}

/-- The glob's symbol for a character of a pattern, without regard to case. -/
def symbol (p : Char) : Option (Char → Bool) :=
  if p = '*' then none else some fun c => p == '?' || p.toLower == c.toLower

/-- A name matches a pattern. -/
def Matches (pattern name : Text) : Prop := Glob (pattern.map symbol) name

/-- What the loop has to decide. -/
def Meaning (s : Scan) : Prop :=
  match s.back with
  | none => Matches s.pattern s.name
  | some b => Matches ('*' :: b.star.tail) b.retry

/-- Behind the star, the pattern has matched the name up to here. -/
def Linked (s : Scan) : Prop :=
  ∀ b ∈ s.back, ∃ v u, b.star.tail.map symbol = v.map some ++ s.pattern.map symbol ∧ b.retry = u ++ s.name ∧ Glob.Fits v u

/-- No star is left of the name, nor of what may be tried again. -/
def Starless (s : Scan) : Prop := '*' ∉ s.name ∧ ∀ b ∈ s.back, '*' ∉ b.retry

/-! ### Characters -/

theorem symbol_star : symbol '*' = none := rfl

theorem toLower_star (h : c.toLower = '*') : c = '*' := by
  unfold Char.toLower at h
  split at h
  · rename_i hupper
    have hval : c.val + ('a'.val - 'A'.val) = '*'.val := congrArg Char.val h
    have hnat := congrArg UInt32.toNat hval
    have hlow : 'A'.val.toNat ≤ c.val.toNat := hupper.1
    have hhigh : c.val.toNat ≤ 'Z'.val.toNat := hupper.2
    rw [UInt32.toNat_add] at hnat
    have ha : ('a'.val - 'A'.val).toNat = 32 := rfl
    have hz : 'Z'.val.toNat = 90 := rfl
    have hA : 'A'.val.toNat = 65 := rfl
    have hstar : '*'.val.toNat = 42 := rfl
    omega
  · exact h

/-- Of a name without stars, the next character goes on with a test that it passes. -/
theorem sameNext_iff (hc : c ≠ '*') : sameNext pattern c = true ↔
    ∃ p f, pattern.head? = some p ∧ symbol p = some f ∧ f c = true := by
  cases pattern with
  | nil => exact iff_of_false Bool.false_ne_true fun ⟨_, _, h, _⟩ => nomatch h
  | cons p pattern =>
      have hsame : sameNext (p :: pattern) c = (p == '?' || p.toLower == c.toLower) := rfl
      rw [hsame]
      constructor
      · intro h
        have hp : p ≠ '*' := by
          rintro rfl
          rcases (Bool.or_eq_true _ _).mp h with h | h
          · exact absurd h (by decide)
          · exact hc (toLower_star (beq_iff_eq.mp h).symm)
        exact ⟨p, _, rfl, if_neg hp, h⟩
      · rintro ⟨q, f, hq, hf, hfc⟩
        obtain rfl := Option.some.inj hq
        unfold symbol at hf
        split at hf
        · exact nomatch hf
        · rwa [← Option.some.inj hf] at hfc

/-- A pattern that does not go on with the character has no match from there. -/
theorem not_matches (hnext : ¬sameNext pattern c = true) (hstar : ¬pattern.head? = some '*') :
    ¬Matches pattern (c :: name) := by
  unfold Matches
  cases pattern with
  | nil =>
      intro h
      cases h
  | cons p pattern =>
      intro h
      have hp : p ≠ '*' := fun he => hstar (congrArg some he)
      have hsymbol : symbol p = some fun d => p == '?' || p.toLower == d.toLower := if_neg hp
      rw [List.map_cons, hsymbol] at h
      exact hnext (Glob.one_iff.mp h).1

theorem all_stars_iff : pattern.all (· == '*') = true ↔ ∀ x ∈ pattern.map symbol, x = none := by
  rw [List.all_eq_true, List.forall_mem_map]
  refine forall₂_congr fun p _ => ?_
  unfold symbol
  constructor
  · intro h
    exact if_pos (beq_iff_eq.mp h)
  · intro h
    by_contra hp
    rw [if_neg fun he => hp (beq_iff_eq.mpr he)] at h
    exact nomatch h

/-! ### The rounds -/

theorem star_matches (pattern name : Text) : Matches ('*' :: pattern) name = Glob (none :: pattern.map symbol) name := rfl

theorem head_tail {q : Char} (h : pattern.head? = some q) : pattern = q :: pattern.tail := by
  obtain ⟨rest, rfl⟩ := List.head?_eq_some_iff.mp h
  rfl

/-- What the loop decides. -/
theorem scan_iff (s : Scan) : Starless s → Linked s → (scan s = true ↔ Meaning s) := by
  induction s using scan.induct with
  | case1 s hname =>
      -- the name is at its end
      intro _ hlinked
      rw [scan]
      split
      · rw [all_stars_iff]
        unfold Meaning
        cases hback : s.back with
        | none =>
            dsimp only
            unfold Matches
            rw [hname]
            exact Glob.nil_iff.symm
        | some b =>
            obtain ⟨v, u, hpattern, hretry, hfits⟩ := hlinked b hback
            dsimp only
            rw [hname, List.append_nil] at hretry
            rw [star_matches, hpattern, hretry]
            exact (Glob.star_fits_iff hfits).symm
      · rename_i hcons
        exact absurd (hname.symm.trans hcons) (List.cons_ne_nil _ _).symm
  | case2 s c name hname hnext ih =>
      -- both go on by one character
      intro hstarless hlinked
      have hc : c ≠ '*' := fun he => hstarless.1 (by rw [hname, he]; exact List.mem_cons_self)
      obtain ⟨p, f, hhead, hsymbol, hpass⟩ := (sameNext_iff hc).mp hnext
      have hpattern : s.pattern.map symbol = some f :: s.pattern.tail.map symbol := by
        conv_lhs => rw [head_tail hhead]
        rw [List.map_cons, hsymbol]
      have hmeaning := ih ⟨fun h => hstarless.1 (by rw [hname]; exact List.mem_cons_of_mem c h), hstarless.2⟩ ?_
      · rw [scan]
        split
        · rename_i hnil
          exact absurd (hname.symm.trans hnil) (List.cons_ne_nil _ _)
        rename_i c' name' hcons
        obtain ⟨rfl, rfl⟩ := List.cons.inj (hname.symm.trans hcons)
        rw [if_pos hnext, hmeaning]
        unfold Meaning
        dsimp only
        cases s.back with
        | none =>
            dsimp only
            unfold Matches
            rw [hpattern, hname, Glob.one_iff]
            exact (and_iff_right hpass).symm
        | some b => exact Iff.rfl
      · intro b hb
        obtain ⟨v, u, hbehind, hretry, hfits⟩ := hlinked b hb
        refine ⟨v ++ [f], u ++ [c], ?_, ?_, ?_⟩
        · rw [hbehind, hpattern, List.map_append, List.append_assoc]
          rfl
        · rw [hretry, hname, List.append_assoc]
          rfl
        · exact List.rel_append hfits (List.Forall₂.cons hpass List.Forall₂.nil)
  | case3 s c name hname hnext hstar ih =>
      -- the last star is the only one that has to be tried again
      intro hstarless hlinked
      have hpattern : s.pattern.map symbol = none :: s.pattern.tail.map symbol := by
        conv_lhs => rw [head_tail hstar]
        rfl
      have hname' : '*' ∉ c :: name := by
        rw [← hname]
        exact hstarless.1
      have hmeaning := ih ⟨hname', fun b hb => by cases hb; exact hname'⟩ ?_
      · rw [scan]
        split
        · rename_i hnil
          exact absurd (hname.symm.trans hnil) (List.cons_ne_nil _ _)
        rename_i c' name' hcons
        obtain ⟨rfl, rfl⟩ := List.cons.inj (hname.symm.trans hcons)
        rw [if_neg hnext, dif_pos hstar, hmeaning]
        unfold Meaning
        dsimp only
        rw [star_matches]
        cases hback : s.back with
        | none =>
            dsimp only
            unfold Matches
            rw [hpattern, hname]
        | some b =>
            obtain ⟨v, u, hbehind, hretry, hfits⟩ := hlinked b hback
            dsimp only
            rw [star_matches, hbehind, hretry, hpattern, hname]
            exact (Glob.last_star hfits).symm
      · intro b hb
        cases hb
        exact ⟨[], [], rfl, rfl, List.Forall₂.nil⟩
  | case4 s c name hname hnext hstar hback =>
      intro hstarless hlinked
      rw [scan]
      split
      · rename_i hnil
        exact absurd (hname.symm.trans hnil) (List.cons_ne_nil _ _)
      rename_i c' name' hcons
      obtain ⟨rfl, rfl⟩ := List.cons.inj (hname.symm.trans hcons)
      rw [if_neg hnext, dif_neg hstar]
      split
      · unfold Meaning
        rw [hback, hname]
        exact iff_of_false Bool.false_ne_true (not_matches hnext hstar)
      · rename_i b hsome
        exact absurd (hback.symm.trans hsome) (Option.some_ne_none b).symm
  | case5 s c name hname hnext hstar b hback ih =>
      -- the star takes one character more
      intro hstarless hlinked
      obtain ⟨v, u, hbehind, hretry, hfits⟩ := hlinked b hback
      have hlost : ¬Glob (b.star.tail.map symbol) b.retry := by
        rw [hbehind, hretry, hname, Glob.fits_iff hfits]
        exact not_matches hnext hstar
      have hnonempty : b.retry ≠ [] := by
        rw [hretry, hname]
        exact fun h => List.cons_ne_nil c name (List.append_eq_nil_iff.mp h).2
      have hretry' : '*' ∉ b.retry.tail := fun h => hstarless.2 b hback (List.mem_of_mem_tail h)
      have hmeaning := ih ⟨hretry', fun b' hb' => by cases hb'; exact hretry'⟩ ?_
      · rw [scan]
        split
        · rename_i hnil
          exact absurd (hname.symm.trans hnil) (List.cons_ne_nil _ _)
        rename_i c' name' hcons
        obtain ⟨rfl, rfl⟩ := List.cons.inj (hname.symm.trans hcons)
        rw [if_neg hnext, dif_neg hstar]
        split
        · rename_i hnone
          exact absurd (hback.symm.trans hnone) (Option.some_ne_none b)
        rename_i b' hsome
        obtain rfl : b = b' := Option.some.inj (hback.symm.trans hsome)
        rw [hmeaning]
        unfold Meaning
        dsimp only
        rw [hback]
        dsimp only
        rw [star_matches, star_matches]
        generalize b.retry = retry at hlost hnonempty
        cases retry with
        | nil => exact absurd rfl hnonempty
        | cons d retry =>
            rw [List.tail_cons, Glob.star_cons]
            exact (or_iff_right hlost).symm
      · intro b' hb'
        cases hb'
        exact ⟨[], [], rfl, rfl, List.Forall₂.nil⟩

/-! ### Names and patterns -/

/-- The characters of a user name. -/
def nameChar (c : Char) : Bool := c.isAlphanum || c == '_' || c == '-'

/-- A user name. -/
structure UserName where
  text : Text
  valid : text.all nameChar = true

theorem star_notMem (name : UserName) : '*' ∉ name.text := fun h =>
  absurd (List.all_eq_true.mp name.valid '*' h) (by decide)

/-- A pattern matches a user name exactly if it is a pattern, not an empty one, and the name matches its glob; what
is no pattern matches nothing. -/
theorem quota_glob (userLen : Nat) (pattern : Text) (name : UserName) (text : Text) :
    (quotaMatches userLen pattern name.text = true ↔
      pattern ≠ [] ∧ pattern.length ≤ userLen ∧ (∀ p ∈ pattern, patternChar p = true) ∧ Matches pattern name.text) ∧
      (pattern = [] ∨ userLen < pattern.length ∨ (∃ p ∈ pattern, patternChar p = false) →
        quotaMatches userLen pattern text = false) := by
  constructor
  · unfold quotaMatches
    by_cases hshape : pattern = [] ∨ userLen < pattern.length
    · rw [if_pos hshape]
      refine iff_of_false Bool.false_ne_true fun ⟨hne, hle, _⟩ => ?_
      exact hshape.elim hne (Nat.not_lt.mpr hle)
    rw [if_neg hshape]
    have hne : pattern ≠ [] := fun h => hshape (Or.inl h)
    have hle : pattern.length ≤ userLen := Nat.not_lt.mp fun h => hshape (Or.inr h)
    by_cases hall : pattern.all patternChar = false
    · rw [if_pos hall]
      refine iff_of_false Bool.false_ne_true fun ⟨_, _, hvalid, _⟩ => ?_
      exact Bool.false_ne_true (hall.symm.trans (List.all_eq_true.mpr hvalid))
    have hfresh : ∀ b : Back, b ∉ (none : Option Back) := fun b => Option.not_mem_none b
    rw [if_neg hall, scan_iff _ ⟨star_notMem name, fun b hb => absurd hb (hfresh b)⟩ fun b hb => absurd hb (hfresh b)]
    have hvalid : ∀ p ∈ pattern, patternChar p = true := List.all_eq_true.mp (eq_true_of_ne_false hall)
    exact ⟨fun h => ⟨hne, hle, hvalid, h⟩, fun h => h.2.2.2⟩
  · unfold quotaMatches
    rintro (h | h | ⟨p, hp, hbad⟩)
    · exact if_pos (Or.inl h)
    · exact if_pos (Or.inr h)
    · have hall : pattern.all patternChar = false := List.all_eq_false.mpr ⟨p, hp, by rw [hbad]; exact Bool.false_ne_true⟩
      exact (if_congr Iff.rfl rfl (if_pos hall)).trans (ite_self false)

/-- The empty pattern does not match the empty name. -/
theorem empty_pattern : ¬ ∀ (userLen : Nat) (pattern : Text) (name : UserName), pattern.length ≤ userLen →
    (∀ p ∈ pattern, patternChar p = true) → (quotaMatches userLen pattern name.text = true ↔ Matches pattern name.text) := by
  intro hall
  have hempty := (hall 16 [] ⟨[], rfl⟩ (Nat.zero_le _) fun _ h => absurd h List.not_mem_nil).mpr Glob.nil
  exact absurd hempty Bool.false_ne_true

end Quota

end RustyRig
