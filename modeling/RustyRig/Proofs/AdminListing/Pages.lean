/-
Which listings page exactly.

A request for a page is read back, so that its answer is a page by the cursor.  Whether asking on
until the answer is zero lists every row once is then a matter of where the pages end (`Keyset`);
the listing of groups is not paged and is taken for a full page when it has a page's rows.
-/
import RustyRig.Rrserver.AdminListing

namespace RustyRig

namespace AdminListing

open Lib Keyset

variable {db : Db} {t : Table} {before : Int} {l : List Listed}

/-- A row's cursor, as a number. -/
def key (r : Listed) : Int := r.cursor.toInt

/-- The answer to the request for a page: its rows and the next page. -/
def answer (db : Db) (t : Table) (before : Int) : Option (List Listed × Int) :=
  (listing db (request t before)).map fun a => (a.rows, a.next)

/-! ### The request -/

theorem digit_toDigits (n : Nat) : ∀ c ∈ Nat.toDigits 10 n, c.isDigit = true := fun _ hc =>
  Nat.isDigit_of_mem_toDigits (by decide) (by decide) hc

theorem decimal_ne_nil (n : Int) : decimal n ≠ [] := by
  unfold decimal
  split
  · exact List.cons_ne_nil _ _
  · exact Nat.toDigits_ne_nil

theorem blank_decimal (n : Int) : ∀ c ∈ decimal n, Scanf.blank c = false := by
  have hdigits : ∀ c ∈ Nat.toDigits 10 n.natAbs, Scanf.blank c = false := fun c hc =>
    (Scanf.not_blank_of_digit (digit_toDigits _ c hc)).1
  unfold decimal
  intro c hc
  split at hc
  · rcases List.mem_cons.mp hc with rfl | hc
    · rfl
    · exact hdigits c hc
  · exact hdigits c hc

/-- A number in decimal is read back. -/
theorem strtoll_decimal {n : Int} (hlow : -2 ^ 63 ≤ n) (hhigh : n < 2 ^ 63) : strtoll (decimal n) = some n := by
  have hnone : (Nat.toDigits 10 n.natAbs).any (fun c => !c.isDigit) = false := by
    refine List.any_eq_false.mpr fun c hc => ?_
    rw [digit_toDigits _ c hc]
    exact Bool.false_ne_true
  have hread : ((Nat.ofDigitChars 10 (Nat.toDigits 10 n.natAbs) 0 : Nat) : Int) = n.natAbs := by
    rw [Nat.ofDigitChars_ten_toDigits]
  have hnot : ¬(Nat.toDigits 10 n.natAbs = [] ∨ (Nat.toDigits 10 n.natAbs).any (fun c => !c.isDigit) = true) := by
    rintro (hnil | hany)
    · exact Nat.toDigits_ne_nil hnil
    · rw [hnone] at hany
      exact Bool.false_ne_true hany
  unfold strtoll decimal
  by_cases hneg : n < 0
  · have habs : -(n.natAbs : Int) = n := by omega
    rw [if_pos hneg]
    simp only [List.head?_cons, beq_self_eq_true, Bool.true_or, if_true, List.tail_cons]
    rw [if_neg hnot, hread, habs, if_pos ⟨hlow, hhigh⟩]
  · have habs : (n.natAbs : Int) = n := by omega
    rw [if_neg hneg]
    obtain ⟨d, ds, hds⟩ := List.exists_cons_of_ne_nil (Nat.toDigits_ne_nil (n := n.natAbs) (b := 10))
    obtain ⟨-, hminus, hplus⟩ :=
      Scanf.not_blank_of_digit (digit_toDigits n.natAbs d (by rw [hds]; exact List.mem_cons_self))
    have hhead : ∀ c, d ≠ c → ((Nat.toDigits 10 n.natAbs).head? == some c) = false := by
      intro c hc
      rw [hds, List.head?_cons]
      exact beq_eq_false_iff_ne.mpr fun h => hc (Option.some.inj h)
    simp only [hhead '-' hminus, hhead '+' hplus, Bool.or_self, Bool.false_eq_true, if_false]
    rw [if_neg hnot, hread, habs, if_pos ⟨hlow, hhigh⟩]

/-- The name of a table is a word, and its own. -/
theorem table_name (t : Table) :
    t.name ≠ [] ∧ t.name.length ≤ 11 ∧ (∀ c ∈ t.name, Scanf.blank c = false) ∧ Table.ofName? t.name = some t := by
  have hshape : t.name ≠ [] ∧ t.name.length ≤ 11 ∧ t.name.all (fun c => !Scanf.blank c) = true ∧
      Table.ofName? t.name = some t := by
    cases t <;> exact ⟨by decide, by decide, by decide, rfl⟩
  obtain ⟨hne, hshort, hword, hname⟩ := hshape
  refine ⟨hne, hshort, fun c hc => ?_, hname⟩
  exact (Bool.not_eq_true' _).mp (List.all_eq_true.mp hword c hc)

theorem length_decimal_le {n : Int} (hlow : -2 ^ 63 ≤ n) (hhigh : n < 2 ^ 63) : (decimal n).length ≤ 20 := by
  have hdigits : (Nat.toDigits 10 n.natAbs).length ≤ 19 := by
    rw [Nat.length_toDigits_le_iff (by decide) (by decide)]
    omega
  unfold decimal
  split
  · rw [List.length_cons]
    omega
  · omega

/-- A request is read back, but one from below zero refused. -/
theorem parse_request (t : Table) (hlow : -2 ^ 63 ≤ before) (hhigh : before < 2 ^ 63) :
    parse (request t before) = if before < 0 then none else some (t, before) := by
  obtain ⟨hne, hshort, hword, hname⟩ := table_name t
  by_cases hzero : before = 0
  · subst hzero
    have hfield : Scanf.field 15 t.name = some (t.name, []) := by
      have h := Scanf.field_append 15 hne (by omega) hword (Or.inl rfl)
      rw [List.append_nil] at h
      exact h
    unfold parse request
    rw [if_pos rfl, List.take_of_length_le (by omega)]
    simp only [hfield, Scanf.field_nil, if_true, hname]
    rfl
  · have hlength := length_decimal_le hlow hhigh
    have hfirst : Scanf.field 15 (t.name ++ ' ' :: decimal before) = some (t.name, ' ' :: decimal before) :=
      Scanf.field_append 15 hne (by omega) hword (Or.inr ⟨' ', decimal before, rfl, rfl⟩)
    have hsecond : Scanf.field 31 (' ' :: decimal before) = some (decimal before, []) := by
      rw [Scanf.field_blank rfl]
      have h := Scanf.field_append 31 (decimal_ne_nil before) (by omega) (blank_decimal before) (Or.inl rfl)
      rw [List.append_nil] at h
      exact h
    have hall : (t.name ++ ' ' :: decimal before).length ≤ 255 := by
      rw [List.length_append, List.length_cons]
      omega
    unfold parse request
    rw [if_neg hzero, List.take_of_length_le hall]
    simp only [hfirst, hsecond, decimal_ne_nil, if_false, strtoll_decimal hlow hhigh, hname, Scanf.field_nil]
    by_cases hneg : before < 0
    · rw [if_pos hneg]
      exact if_pos (Or.inr hneg)
    · rw [if_neg hneg]
      exact if_neg fun h => h.elim (by decide) hneg

/-- The answer is a page by the cursor. -/
theorem answer_eq (hlow : -2 ^ 63 ≤ before) (hhigh : before < 2 ^ 63) :
    answer db t before = pageOf t.limit 100 key (t.rows db) before := by
  unfold answer listing pageOf
  rw [parse_request t hlow hhigh]
  by_cases hneg : before < 0
  · rw [if_pos hneg, if_pos hneg]
    rfl
  · rw [if_neg hneg, if_neg hneg]
    rfl

/-! ### The ordered listings -/

instance : Std.Total fun a b : Listed => b.cursor.toInt ≤ a.cursor.toInt := ⟨fun _ _ => Int.le_total _ _⟩

instance : IsTrans Listed fun a b => b.cursor.toInt ≤ a.cursor.toInt := ⟨fun _ _ _ hab hbc => Int.le_trans hbc hab⟩

theorem sorted_descending (l : List Listed) : (descending l).Pairwise fun a b => key b ≤ key a :=
  List.pairwise_insertionSort (fun a b : Listed => b.cursor.toInt ≤ a.cursor.toInt) l

theorem rows_sorted (db : Db) (h : t ≠ .groups) : (t.rows db).Pairwise fun a b => key b ≤ key a := by
  cases t with
  | groups => exact absurd rfl h
  | _ => exact sorted_descending _

theorem limit_of_ne (h : t ≠ .groups) : t.limit = 100 := by
  cases t with
  | groups => exact absurd rfl h
  | _ => rfl

/-- A cursor is a word of 64 bits, and so is the next page of an answer. -/
theorem next_fits {limit full : Nat} {rows : List Listed} {next : Int}
    (h : pageOf limit full key rows before = some (l, next)) : -2 ^ 63 ≤ next ∧ next < 2 ^ 63 := by
  obtain ⟨-, -, hshort | hfull⟩ := pageOf_cases h
  · rw [hshort.2]
    exact ⟨by decide, by decide⟩
  · rw [hfull.2]
    cases l.getLast? with
    | none => exact ⟨by decide, by decide⟩
    | some r => exact ⟨r.cursor.le_toInt, r.cursor.toInt_lt⟩

/-- The walks through the answers are those through the pages. -/
theorem walk_answer_iff : Walk (answer db t) 0 l ↔ Walk (pageOf t.limit 100 key (t.rows db)) 0 l := by
  have hzero : -2 ^ 63 ≤ (0 : Int) ∧ (0 : Int) < 2 ^ 63 := ⟨by decide, by decide⟩
  constructor
  · intro h
    refine h.congr (R := fun b => -2 ^ 63 ≤ b ∧ b < 2 ^ 63) hzero (fun b hb => answer_eq hb.1 hb.2) ?_
    intro b l n hb hpage
    rw [answer_eq hb.1 hb.2] at hpage
    exact next_fits hpage
  · intro h
    exact h.congr (R := fun b => -2 ^ 63 ≤ b ∧ b < 2 ^ 63) hzero (fun b hb => (answer_eq hb.1 hb.2).symm)
      fun b l n _ hpage => next_fits hpage

/-! ### Groups -/

/-- The listing that is not paged: at most so many rows, and if they are a page, none below the last. -/
def Whole (rows : List Listed) : Prop :=
  rows.length ≤ 10000 ∧ (rows.length = 100 → ∀ last, rows.getLast? = some last → ∀ r ∈ rows, key last ≤ key r)

theorem groups_key_pos (db : Db) : ∀ r ∈ groups db, 0 < key r := by
  intro r hr
  obtain ⟨row, hrow, rfl⟩ := List.mem_map.mp hr
  rw [List.mem_insertionSort] at hrow
  change 0 < row.cursor.toInt
  rcases List.mem_append.mp hrow with hrow | hrow
  · rcases List.mem_append.mp hrow with hrow | hrow
    · obtain ⟨g, -, rfl⟩ := List.mem_map.mp hrow
      exact (by decide : 0 < (1 : Int64).toInt)
    · obtain ⟨p, -, rfl⟩ := List.mem_map.mp hrow
      exact (by decide : 0 < (2 : Int64).toInt)
  · obtain ⟨m, -, rfl⟩ := List.mem_map.mp hrow
    exact (by decide : 0 < (3 : Int64).toInt)

/-- An unpaged listing that is asked for like a paged one. -/
theorem whole_iff {rows : List Listed} (hpos : ∀ r ∈ rows, 0 < key r) :
    ((∃ l, Walk (pageOf 10000 100 key rows) 0 l ∧ l.Perm rows) ↔ Whole rows) ∧
      (Whole rows → Walk (pageOf 10000 100 key rows) 0 rows) := by
  have hstart : below key rows 0 = rows := below_zero key rows
  have hwalk : Whole rows → Walk (pageOf 10000 100 key rows) 0 rows := by
    rintro ⟨hfew, hlast⟩
    have hall : rows.take 10000 = rows := List.take_of_length_le hfew
    by_cases hfull : rows.length = 100
    · obtain ⟨last, hget⟩ : ∃ last, rows.getLast? = some last :=
        ⟨_, List.getLast?_eq_some_getLast (List.ne_nil_of_length_pos (by omega))⟩
      have hfirst : pageOf 10000 100 key rows 0 = some (rows, key last) := by
        have hpage := pageOf_of_full 10000 100 (Int.le_refl 0)
          (by rw [hstart, hall]; exact hfull) (by rw [hstart, hall]; exact hget)
        rw [hstart, hall] at hpage
        exact hpage
      have hlastpos := hpos last (List.mem_of_getLast? hget)
      have hnone : below key rows (key last) = [] := by
        refine List.filter_eq_nil_iff.mpr fun r hr => ?_
        have hle := hlast hfull last hget r hr
        rw [Bool.or_eq_true, beq_iff_eq, decide_eq_true_eq]
        omega
      have hsecond : pageOf 10000 100 key rows (key last) = some ([], 0) := by
        have hpage := pageOf_of_short 10000 100 (Int.le_of_lt hlastpos)
          (by rw [hnone, List.take_nil]; decide)
        rw [hnone, List.take_nil] at hpage
        exact hpage
      have hmore := Walk.more 0 (key last) rows [] hfirst (by omega) (.last (key last) [] hsecond)
      rw [List.append_nil] at hmore
      exact hmore
    · have hpage := pageOf_of_short 10000 100 (Int.le_refl 0) (by rw [hstart, hall]; exact hfull)
      rw [hstart, hall] at hpage
      exact .last 0 rows hpage
  refine ⟨⟨fun ⟨l, hl, hperm⟩ => ?_, fun h => ⟨rows, hwalk h, List.Perm.refl rows⟩⟩, hwalk⟩
  have hlength := hperm.length_eq
  obtain ⟨first, next, rest, hpage, rfl, hends, hgoes⟩ := hl.starts
  obtain ⟨-, hfirst, hnext⟩ := pageOf_cases hpage
  rw [hstart] at hfirst
  have htaken : first.length = min 10000 rows.length := by rw [hfirst, List.length_take]
  rw [List.length_append] at hlength
  have hfew : rows.length ≤ 10000 := by
    by_contra hmany
    rcases hnext with ⟨-, hzero⟩ | ⟨hfull, -⟩
    · rw [hends hzero, List.length_nil] at hlength
      omega
    · omega
  refine ⟨hfew, fun hfull last hlast r hr => ?_⟩
  have hall : first = rows := by rw [hfirst, List.take_of_length_le hfew]
  subst hall
  rcases hnext with ⟨hshort, -⟩ | ⟨-, hkey⟩
  · exact absurd hfull hshort
  rw [hlast] at hkey
  change next = key last at hkey
  subst hkey
  have hlastpos := hpos last (List.mem_of_getLast? hlast)
  -- the second page has nothing to list
  have hnil : rest = [] := List.eq_nil_of_length_eq_zero (by omega)
  obtain ⟨second, after, rest', hsecond, happ, -, -⟩ := (hgoes (by omega)).starts
  rw [hnil] at happ
  have hempty : second = [] := (List.append_eq_nil_iff.mp happ.symm).1
  obtain ⟨-, hbelow, -⟩ := pageOf_cases hsecond
  rw [hempty] at hbelow
  by_contra hless
  have hmem : r ∈ below key first (key last) := by
    refine List.mem_filter.mpr ⟨hr, ?_⟩
    rw [decide_eq_true (by omega), Bool.or_true]
  have hcount : (below key first (key last)).length ≤ 10000 :=
    Nat.le_trans (List.length_filter_le _ _) hfew
  rw [List.take_of_length_le hcount] at hbelow
  rw [← hbelow] at hmem
  exact List.not_mem_nil hmem

/-! ### Every table -/

/-- When the listing of a table pages exactly. -/
def Pageable (db : Db) (t : Table) : Prop :=
  if t = .groups then Whole (t.rows db) else Boundaries 100 key (t.rows db)

/-- A table whose cursors are distinct and above zero, as rowids that SQLite gives out are. -/
theorem pageable_of_distinct (h : t ≠ .groups) (hpos : ∀ r ∈ t.rows db, 0 < key r)
    (hdistinct : ((t.rows db).map (·.cursor)).Nodup) : Pageable db t := by
  unfold Pageable
  rw [if_neg h]
  refine boundaries_of_distinct (by decide) hpos ((List.pairwise_map.mp hdistinct).imp ?_)
  intro a b hne hsame
  exact hne (Int64.toInt_inj.mp hsame)

/-- **Asking for the first page and then for the page each answer names until it is zero lists every
row of the table once exactly if the table is pageable**, and then in the table's order. -/
theorem listing_exact_iff (db : Db) (t : Table) :
    ((∃ l, Walk (answer db t) 0 l ∧ l.Perm (t.rows db)) ↔ Pageable db t) ∧
      (Pageable db t → Walk (answer db t) 0 (t.rows db)) := by
  simp only [walk_answer_iff]
  unfold Pageable
  by_cases hgroups : t = .groups
  · rw [if_pos hgroups]
    subst hgroups
    exact whole_iff (groups_key_pos db)
  · rw [if_neg hgroups, limit_of_ne hgroups]
    exact walk_iff (by decide) (rows_sorted db hgroups)

/-- One group with 99 members. -/
def crowded : Db where
  users := []
  txCredits := []
  userUsage := []
  rooms := []
  privilegeSets := []
  privilegeSetEntries := []
  privilegeSetAssignments := []
  resourcePrivileges := []
  userGroups := [⟨['o', 'p', 's'], []⟩]
  userGroupPrivileges := []
  userGroupMembers := (List.range 99).map fun i => ⟨['o', 'p', 's'], Nat.toDigits 10 i, []⟩
  auditLog := []
  pttLog := []

/-- A hundred entries of groups are taken for a full page, and the group is listed again. -/
theorem crowded_not_exact :
    ¬ ∀ db t, ∃ l, Walk (answer db t) 0 l ∧ l.Perm (t.rows db) := by
  intro h
  obtain ⟨l, hl, hperm⟩ := h crowded .groups
  have hwhole : Whole (groups crowded) :=
    (whole_iff (groups_key_pos crowded)).1.mp ⟨l, walk_answer_iff.mp hl, hperm⟩
  have hshape : (groups crowded).length = 100 ∧ (groups crowded).getLast?.map key = some 3 ∧
      (groups crowded).head?.map key = some 1 := by decide +kernel
  obtain ⟨hlength, hlast, hhead⟩ := hshape
  obtain ⟨last, hget, hthree⟩ := Option.map_eq_some_iff.mp hlast
  obtain ⟨first, hfirst, hone⟩ := Option.map_eq_some_iff.mp hhead
  have hle := hwhole.2 hlength last hget first (List.mem_of_head? hfirst)
  omega

end AdminListing

end RustyRig
