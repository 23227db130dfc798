/-
A listing read page by page, by a key.

The rows stand in descending order of a key.  A page is the first so many rows whose key is below
the one that ended the page before it; a full page names the key of its last row, any other names
zero, and so does a full page whose last key is zero.  Asking for the named page until it is zero
lists the rows, each once, exactly when no full page ends inside a run of equal keys or too low.
-/
import Mathlib.Data.List.Basic

namespace RustyRig.Lib

namespace Keyset

variable {α : Type*} {page : Int → Option (List α × Int)} {key : α → Int} {rows l s : List α} {before next : Int}
  {limit full n : Nat} {r : α}

/-- Asking for a page, and then for the page each answer names until it is zero. -/
inductive Walk (page : Int → Option (List α × Int)) : Int → List α → Prop where
  | last (before : Int) (l : List α) (h : page before = some (l, 0)) : Walk page before l
  | more (before next : Int) (l rest : List α) (h : page before = some (l, next)) (hnext : next ≠ 0)
      (hrest : Walk page next rest) : Walk page before (l ++ rest)

/-- The rows below a key, or for zero all of them. -/
def below (key : α → Int) (rows : List α) (before : Int) : List α :=
  rows.filter fun r => before == 0 || decide (key r < before)

/-- A page and what it names: the last key of so many rows, or zero. -/
def pageOf (limit full : Nat) (key : α → Int) (rows : List α) (before : Int) : Option (List α × Int) :=
  if before < 0 then none
  else
    let l := (below key rows before).take limit
    some (l, if l.length = full then l.getLast?.elim 0 key else 0)

/-- No page ends inside a run of equal keys, and none but the last at a key of zero. -/
def Boundaries (n : Nat) (key : α → Int) (rows : List α) : Prop :=
  ∀ k r, rows[n * (k + 1) - 1]? = some r →
    (0 < key r ∧ ∀ s, rows[n * (k + 1)]? = some s → key s ≠ key r) ∨ (key r = 0 ∧ rows.length = n * (k + 1))

/-- A walk begins with the page it asks for. -/
theorem Walk.starts (h : Walk page before l) : ∃ first next rest, page before = some (first, next) ∧ l = first ++ rest ∧
    (next = 0 → rest = []) ∧ (next ≠ 0 → Walk page next rest) := by
  cases h with
  | last _ _ hpage => exact ⟨l, 0, [], hpage, (List.append_nil l).symm, fun _ => rfl, fun h => absurd rfl h⟩
  | more _ next first rest hpage hne hrest => exact ⟨first, next, rest, hpage, rfl, fun h => absurd h hne, fun _ => hrest⟩

/-- Pages that are the same wherever a walk may lead have the same walks. -/
theorem Walk.congr {page' : Int → Option (List α × Int)} {R : Int → Prop} (h : Walk page before l) (hR : R before)
    (heq : ∀ b, R b → page b = page' b) (hnext : ∀ b l n, R b → page b = some (l, n) → R n) :
    Walk page' before l := by
  induction h with
  | last before l hpage => exact .last before l (heq before hR ▸ hpage)
  | more before next l rest hpage hne hrest ih =>
      exact .more before next l rest (heq before hR ▸ hpage) hne (ih (hnext before l next hR hpage))

/-! ### Boundaries -/

theorem boundaries_of_short (hn : 0 < n) (h : rows.length < n) : Boundaries n key rows := by
  intro k r hr
  have hle : n * 1 ≤ n * (k + 1) := Nat.mul_le_mul_left n (Nat.succ_pos k)
  rw [List.getElem?_eq_none (by omega)] at hr
  exact absurd hr.symm (Option.some_ne_none r)

/-- The first boundary, and the others in what follows it. -/
theorem boundaries_iff (hn : 0 < n) (h : n ≤ rows.length) :
    Boundaries n key rows ↔
      (∀ r, rows[n - 1]? = some r →
        (0 < key r ∧ ∀ s, rows[n]? = some s → key s ≠ key r) ∨ (key r = 0 ∧ rows.length = n)) ∧
      Boundaries n key (rows.drop n) := by
  have hshift : ∀ k, n * (k + 1 + 1) = n + n * (k + 1) := fun k => by rw [Nat.mul_succ, Nat.add_comm]
  have hpos : ∀ k, 0 < n * (k + 1) := fun k => Nat.mul_pos hn (Nat.succ_pos k)
  constructor
  · intro hall
    constructor
    · intro r hr
      have hfirst := hall 0 r
      rw [Nat.zero_add, Nat.mul_one] at hfirst
      exact hfirst hr
    · intro k r hr
      rw [List.getElem?_drop] at hr
      have hnext := hall (k + 1) r
      rw [hshift, Nat.add_sub_assoc (hpos k)] at hnext
      rw [List.getElem?_drop, List.length_drop]
      refine (hnext hr).imp_right fun hlast => ⟨hlast.1, ?_⟩
      omega
  · rintro ⟨hfirst, hrest⟩ k r hr
    cases k with
    | zero =>
        rw [Nat.zero_add, Nat.mul_one] at hr ⊢
        exact hfirst r hr
    | succ k =>
        have hnext := hrest k r
        rw [List.getElem?_drop, List.getElem?_drop, List.length_drop] at hnext
        rw [hshift, Nat.add_sub_assoc (hpos k)] at hr
        rw [hshift]
        refine (hnext hr).imp_right fun hlast => ⟨hlast.1, ?_⟩
        omega

/-- Distinct keys above zero are enough. -/
theorem boundaries_of_distinct (hn : 0 < n) (hpos : ∀ r ∈ rows, 0 < key r) (hdistinct : rows.Pairwise fun a b => key a ≠ key b) :
    Boundaries n key rows := by
  intro k r hr
  refine Or.inl ⟨hpos r (List.mem_of_getElem? hr), fun s hs hsame => ?_⟩
  obtain ⟨hrlt, hrget⟩ := List.getElem?_eq_some_iff.mp hr
  obtain ⟨hslt, hsget⟩ := List.getElem?_eq_some_iff.mp hs
  have hsome : 0 < n * (k + 1) := Nat.mul_pos hn (Nat.succ_pos k)
  have hne := List.pairwise_iff_getElem.mp hdistinct _ _ hrlt hslt (by omega)
  rw [hrget, hsget] at hne
  exact hne hsame.symm

/-! ### Pages -/

/-- Below a key of the rows that are left, the rows are among those behind it. -/
theorem below_below (hs : below key rows before = s) (hlt : before = 0 ∨ next ≤ before) (hnext : next ≠ 0) :
    below key rows next = s.filter fun r => decide (key r < next) := by
  subst hs
  unfold below
  rw [List.filter_filter]
  refine List.filter_congr fun r _ => ?_
  rw [beq_eq_false_iff_ne.mpr hnext, Bool.false_or]
  by_cases hkey : key r < next
  · have hpast : (before == 0 || decide (key r < before)) = true := by
      rcases hlt with rfl | hle
      · rfl
      · rw [decide_eq_true (by omega), Bool.or_true]
    rw [hpast, Bool.and_true]
  · rw [decide_eq_false hkey, Bool.false_and]

/-- Of sorted rows those below the key of one stand behind it. -/
theorem filter_below (hsorted : s.Pairwise fun a b => key b ≤ key a) (hn : 0 < n) (hr : s[n - 1]? = some r) :
    (s.filter fun x => decide (key x < key r)) = (s.drop n).filter fun x => decide (key x < key r) := by
  obtain ⟨hlt, hget⟩ := List.getElem?_eq_some_iff.mp hr
  have hnone : ((s.take n).filter fun x => decide (key x < key r)) = [] := by
    refine List.filter_eq_nil_iff.mpr fun x hx hbelow => ?_
    obtain ⟨i, hi⟩ := List.mem_iff_getElem?.mp hx
    obtain ⟨hilt, higet⟩ := List.getElem?_eq_some_iff.mp hi
    rw [List.length_take] at hilt
    rw [List.getElem_take] at higet
    have hle : key s[n - 1] ≤ key s[i] := by
      rcases Nat.lt_or_eq_of_le (by omega : i ≤ n - 1) with hbefore | hsame
      · exact List.pairwise_iff_getElem.mp hsorted i (n - 1) (by omega) hlt hbefore
      · subst hsame
        exact Int.le_refl _
    rw [hget, higet] at hle
    exact absurd (of_decide_eq_true hbelow) (by omega)
  conv_lhs => rw [← List.take_append_drop n s]
  rw [List.filter_append, hnone, List.nil_append]

/-- A page that is not full ends the listing. -/
theorem pageOf_of_short (limit full : Nat) (hbefore : 0 ≤ before) (h : ((below key rows before).take limit).length ≠ full) :
    pageOf limit full key rows before = some ((below key rows before).take limit, 0) := by
  unfold pageOf
  rw [if_neg (by omega)]
  dsimp only
  rw [if_neg h]

theorem pageOf_of_full (limit full : Nat) (hbefore : 0 ≤ before) (h : ((below key rows before).take limit).length = full)
    (hr : ((below key rows before).take limit).getLast? = some r) :
    pageOf limit full key rows before = some ((below key rows before).take limit, key r) := by
  unfold pageOf
  rw [if_neg (by omega)]
  dsimp only
  rw [if_pos h, hr]
  rfl

theorem getLast?_take (hn : 0 < n) (hr : s[n - 1]? = some r) : (s.take n).getLast? = some r := by
  obtain ⟨hlt, -⟩ := List.getElem?_eq_some_iff.mp hr
  rw [List.getLast?_eq_getElem?, List.length_take, Nat.min_eq_left (by omega),
    List.getElem?_take_of_lt (by omega)]
  exact hr

/-- Where the boundaries are as they should be, the walk lists what is left. -/
theorem walk_of_boundaries (hn : 0 < n) (hbefore : 0 ≤ before) (hs : below key rows before = s)
    (hsorted : s.Pairwise fun a b => key b ≤ key a) (h : Boundaries n key s) :
    Walk (pageOf n n key rows) before s := by
  -- the rows that are left grow fewer by a page
  induction hm : s.length using Nat.strongRecOn generalizing before s with
  | ind m ih =>
      by_cases hshort : s.length < n
      · have hall : s.take n = s := List.take_of_length_le (by omega)
        refine .last before s ?_
        rw [pageOf_of_short n n hbefore (by rw [hs, hall]; omega), hs, hall]
      · have hlt : n - 1 < s.length := by omega
        obtain ⟨r, hr⟩ : ∃ r, s[n - 1]? = some r := ⟨_, List.getElem?_eq_getElem hlt⟩
        have hfull : (s.take n).length = n := by rw [List.length_take, Nat.min_eq_left (by omega)]
        have hpage : pageOf n n key rows before = some (s.take n, key r) := by
          have hlast := getLast?_take hn hr
          rw [← hs] at hfull hlast ⊢
          exact pageOf_of_full n n hbefore hfull hlast
        obtain ⟨hfirst, hrest⟩ := (boundaries_iff hn (by omega)).mp h
        rcases hfirst r hr with ⟨hpos, hnew⟩ | ⟨hzero, hlength⟩
        · have hle : before = 0 ∨ key r ≤ before := by
            have hmem : r ∈ below key rows before := hs ▸ List.mem_of_getElem? hr
            have hbelow := (List.mem_filter.mp hmem).2
            rw [Bool.or_eq_true, beq_iff_eq, decide_eq_true_eq] at hbelow
            omega
          have hbehind : below key rows (key r) = s.drop n := by
            rw [below_below hs hle (by omega), filter_below hsorted hn hr, List.filter_eq_self]
            intro x hx
            refine decide_eq_true ?_
            obtain ⟨i, hi⟩ := List.mem_iff_getElem?.mp hx
            rw [List.getElem?_drop] at hi
            obtain ⟨hilt, higet⟩ := List.getElem?_eq_some_iff.mp hi
            -- the row behind the page has another key, and the rest have no larger
            have hnlt : n < s.length := by omega
            have hne := hnew s[n] (List.getElem?_eq_getElem hnlt)
            have hlast : key s[n] ≤ key r := by
              have hpair := List.pairwise_iff_getElem.mp hsorted (n - 1) n hlt hnlt (by omega)
              rw [(List.getElem?_eq_some_iff.mp hr).2] at hpair
              exact hpair
            have hfar : key x ≤ key s[n] := by
              rcases Nat.eq_or_lt_of_le (Nat.le_add_right n i) with hsame | hafter
              · have hhere : s[n] = x := by
                  rw [← higet]
                  congr 1
                exact Int.le_of_eq (congrArg key hhere.symm)
              · have hpair := List.pairwise_iff_getElem.mp hsorted n (n + i) hnlt hilt hafter
                rw [higet] at hpair
                exact hpair
            omega
          have hwalk := ih (s.drop n).length (by rw [List.length_drop]; omega) (by omega) hbehind
            (hsorted.sublist (List.drop_sublist n s)) hrest rfl
          rw [← List.take_append_drop n s]
          exact .more before (key r) _ _ hpage (by omega) hwalk
        · have hall : s.take n = s := List.take_of_length_le (by omega)
          rw [hzero, hall] at hpage
          exact .last before s hpage

/-- What a page is that was given: from a key not below zero, and naming its last key if it is full. -/
theorem pageOf_cases (h : pageOf limit full key rows before = some (l, next)) :
    0 ≤ before ∧ l = (below key rows before).take limit ∧
      ((l.length ≠ full ∧ next = 0) ∨ (l.length = full ∧ next = l.getLast?.elim 0 key)) := by
  unfold pageOf at h
  split at h
  · exact absurd h.symm (Option.some_ne_none _)
  · rename_i hbefore
    obtain ⟨rfl, hnext⟩ := Prod.mk.inj (Option.some.inj h)
    refine ⟨Int.not_lt.mp hbefore, rfl, ?_⟩
    split at hnext
    · rename_i hfull
      exact Or.inr ⟨hfull, hnext.symm⟩
    · rename_i hshort
      exact Or.inl ⟨hshort, hnext.symm⟩

/-- A walk lists no more than what is left, and all of it only where the boundaries are right. -/
theorem boundaries_of_walk (hn : 0 < n) (hw : Walk (pageOf n n key rows) before l) :
    ∀ s, below key rows before = s → s.Pairwise (fun a b => key b ≤ key a) →
      l.length ≤ s.length ∧ (l.length = s.length → Boundaries n key s) := by
  induction hw with
  | last before l hpage =>
      intro s hs hsorted
      obtain ⟨hbefore, hl, hnext⟩ := pageOf_cases hpage
      rw [hs] at hl
      have hlength : l.length = min n s.length := by rw [hl, List.length_take]
      refine ⟨by omega, fun hall => ?_⟩
      rcases Nat.lt_or_ge s.length n with hshort | hlong
      · exact boundaries_of_short hn hshort
      · have hexact : s.length = n := by omega
        refine (boundaries_iff hn hlong).mpr ⟨fun r hr => ?_, boundaries_of_short hn ?_⟩
        · rcases hnext with ⟨hshort, -⟩ | ⟨-, hzero⟩
          · omega
          · rw [hl, getLast?_take hn hr] at hzero
            exact Or.inr ⟨hzero.symm, hexact⟩
        · rw [List.length_drop]
          omega
  | more before next l rest hpage hne hrest ih =>
      intro s hs hsorted
      obtain ⟨hbefore, hl, hnext⟩ := pageOf_cases hpage
      rw [hs] at hl
      have hlength : l.length = min n s.length := by rw [hl, List.length_take]
      rcases hnext with ⟨-, hzero⟩ | ⟨hfull, hkey⟩
      · exact absurd hzero hne
      have hlt : n - 1 < s.length := by omega
      obtain ⟨r, hr⟩ : ∃ r, s[n - 1]? = some r := ⟨_, List.getElem?_eq_getElem hlt⟩
      rw [hl, getLast?_take hn hr] at hkey
      change next = key r at hkey
      subst hkey
      have hpositive : 0 ≤ key r := by
        cases hrest with
        | last _ _ h => exact (pageOf_cases h).1
        | more _ _ _ _ h _ _ => exact (pageOf_cases h).1
      have hle : before = 0 ∨ key r ≤ before := by
        have hmem : r ∈ below key rows before := hs ▸ List.mem_of_getElem? hr
        have hbelow := (List.mem_filter.mp hmem).2
        rw [Bool.or_eq_true, beq_iff_eq, decide_eq_true_eq] at hbelow
        omega
      have hbehind : below key rows (key r) = (s.drop n).filter fun x => decide (key x < key r) := by
        rw [below_below hs hle hne, filter_below hsorted hn hr]
      have hsub : ((s.drop n).filter fun x => decide (key x < key r)).length ≤ (s.drop n).length :=
        List.length_filter_le _ _
      obtain ⟨hcount, hgood⟩ := ih _ hbehind ((hsorted.sublist (List.drop_sublist n s)).filter _)
      have hdrop : (s.drop n).length = s.length - n := List.length_drop
      rw [List.length_append]
      refine ⟨by omega, fun hall => (boundaries_iff hn (by omega)).mpr ?_⟩
      -- nothing is lost, so that all rows behind the page have another key
      have hkept : ((s.drop n).filter fun x => decide (key x < key r)) = s.drop n :=
        List.filter_sublist.eq_of_length (by omega)
      rw [hkept] at hgood hcount
      refine ⟨fun r' hr' => ?_, hgood (by omega)⟩
      rw [hr] at hr'
      obtain rfl := Option.some.inj hr'
      refine Or.inl ⟨by omega, fun x hx hsame => ?_⟩
      have hmem : x ∈ s.drop n := List.mem_iff_getElem?.mpr ⟨0, by rw [List.getElem?_drop, Nat.add_zero]; exact hx⟩
      have hbelow := List.filter_eq_self.mp hkept x hmem
      rw [decide_eq_true_eq] at hbelow
      omega

theorem below_zero (key : α → Int) (rows : List α) : below key rows 0 = rows :=
  List.filter_eq_self.mpr fun _ _ => rfl

/-- **The walk lists the rows, each once, exactly if the boundaries are right**, and then in order. -/
theorem walk_iff (hn : 0 < n) (hsorted : rows.Pairwise fun a b => key b ≤ key a) :
    ((∃ l, Walk (pageOf n n key rows) 0 l ∧ l.Perm rows) ↔ Boundaries n key rows) ∧
      (Boundaries n key rows → Walk (pageOf n n key rows) 0 rows) := by
  have hwalk : Boundaries n key rows → Walk (pageOf n n key rows) 0 rows :=
    walk_of_boundaries hn (Int.le_refl 0) (below_zero key rows) hsorted
  refine ⟨⟨fun ⟨l, hl, hperm⟩ => ?_, fun h => ⟨rows, hwalk h, List.Perm.refl rows⟩⟩, hwalk⟩
  exact (boundaries_of_walk hn hl rows (below_zero key rows) hsorted).2 hperm.length_eq

end Keyset

end RustyRig.Lib
