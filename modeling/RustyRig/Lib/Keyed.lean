/-
Tables with a unique key.

A table is a list of rows no two of which have one key.  It is written to the way SQL writes
to one: a row is inserted where its key is free, updated in place where it is taken (`upsert`
does whichever it has to), and deleted by a test.  What a write leaves in the table is said
row by row, so that a table may be read without regard to the order of its rows.
-/
import Mathlib.Data.List.Nodup

namespace RustyRig.Lib

/-- The number after the largest. -/
def next (ids : List Nat) : Nat := ids.foldr max 0 + 1

theorem next_notMem (ids : List Nat) : next ids ∉ ids := by
  have hle : ∀ n ∈ ids, n ≤ ids.foldr max 0 := by
    induction ids with
    | nil => exact fun n hn => absurd hn List.not_mem_nil
    | cons m ids ih =>
        intro n hn
        rcases List.mem_cons.mp hn with rfl | hn
        · exact Nat.le_max_left _ _
        · exact Nat.le_trans (ih n hn) (Nat.le_max_right _ _)
  intro h
  exact absurd (hle _ h) (Nat.not_succ_le_self _)

/-- Rows no two of which have one key. -/
structure Keyed {ρ κ : Type*} (key : ρ → κ) where
  rows : List ρ
  distinct : (rows.map key).Nodup

namespace Keyed

variable {ρ κ : Type*} {key : ρ → κ} {t : Keyed key} {new r s : ρ} {update : ρ → ρ} {p : ρ → Bool}

instance [DecidableEq ρ] : DecidableEq (Keyed key) := fun s t =>
  decidable_of_iff (s.rows = t.rows) ⟨fun h => by cases s; cases t; cases h; rfl, fun h => h ▸ rfl⟩

@[ext] theorem ext {s t : Keyed key} (h : s.rows = t.rows) : s = t := by
  cases s
  cases t
  cases h
  rfl

def empty : Keyed key := ⟨[], List.nodup_nil⟩

@[simp] theorem rows_empty : (empty : Keyed key).rows = [] := rfl

theorem eq_of_key (hr : r ∈ t.rows) (hs : s ∈ t.rows) (h : key r = key s) : r = s :=
  List.inj_on_of_nodup_map t.distinct hr hs h

/-! ### Deleting -/

/-- The table without the rows that pass the test. -/
def delete (t : Keyed key) (p : ρ → Bool) : Keyed key where
  rows := t.rows.filter fun r => !p r
  distinct := t.distinct.sublist (List.filter_sublist.map key)

/-- How many rows a deletion removes. -/
def count (t : Keyed key) (p : ρ → Bool) : Nat := t.rows.countP p

@[simp] theorem mem_delete : r ∈ (t.delete p).rows ↔ r ∈ t.rows ∧ ¬ p r = true := by
  unfold delete
  rw [List.mem_filter, Bool.not_eq_true', Bool.not_eq_true]

theorem count_pos : 0 < t.count p ↔ ∃ r ∈ t.rows, p r = true := List.countP_pos_iff

/-- A new row under a key that is free. -/
def insert (t : Keyed key) (new : ρ) (h : key new ∉ t.rows.map key) : Keyed key where
  rows := t.rows ++ [new]
  distinct := by
    rw [List.map_append, List.map_singleton]
    exact t.distinct.append (List.nodup_singleton _) (List.disjoint_singleton.mpr h)

@[simp] theorem mem_insert {h : key new ∉ t.rows.map key} :
    r ∈ (t.insert new h).rows ↔ r ∈ t.rows ∨ r = new := by
  unfold insert
  rw [List.mem_append, List.mem_singleton]

variable [DecidableEq κ]

/-- The row under a key, changed in place. -/
def modify (t : Keyed key) (k : κ) (update : ρ → ρ) (hkey : ∀ r, key (update r) = key r) : Keyed key where
  rows := t.rows.map fun r => if key r = k then update r else r
  distinct := by
    have hsame : ∀ r, key (if key r = k then update r else r) = key r := by
      intro r
      split
      · exact hkey r
      · rfl
    have hkeys : (t.rows.map fun r => if key r = k then update r else r).map key = t.rows.map key := by
      rw [List.map_map]
      exact List.map_congr_left fun r _ => hsame r
    rw [hkeys]
    exact t.distinct

theorem mem_modify {k : κ} {h : ∀ r, key (update r) = key r} :
    r ∈ (t.modify k update h).rows ↔
      (r ∈ t.rows ∧ key r ≠ k) ∨ ∃ old ∈ t.rows, key old = k ∧ r = update old := by
  unfold modify
  rw [List.mem_map]
  constructor
  · rintro ⟨old, hold, rfl⟩
    by_cases h : key old = k
    · rw [if_pos h]
      exact Or.inr ⟨old, hold, h, rfl⟩
    · rw [if_neg h]
      exact Or.inl ⟨hold, h⟩
  · rintro (⟨hr, hne⟩ | ⟨old, hold, rfl, rfl⟩)
    · exact ⟨r, hr, if_neg hne⟩
    · exact ⟨old, hold, if_pos rfl⟩

theorem modify_of_fixed {k : κ} {hkey : ∀ r, key (update r) = key r}
    (h : ∀ r ∈ t.rows, key r = k → update r = r) : t.modify k update hkey = t := by
  ext1
  unfold modify
  refine (List.map_congr_left fun r hr => ?_).trans (List.map_id t.rows)
  by_cases hk : key r = k
  · rw [if_pos hk, h r hr hk]
    rfl
  · rw [if_neg hk]
    rfl

/-- The new row, or under a key that is taken the row there, changed in place. -/
def upsert (t : Keyed key) (new : ρ) (update : ρ → ρ) (hkey : ∀ r, key (update r) = key r) : Keyed key :=
  if h : key new ∈ t.rows.map key then t.modify (key new) update hkey else t.insert new h

variable {hkey : ∀ r, key (update r) = key r}

theorem upsert_of_taken (h : key new ∈ t.rows.map key) :
    t.upsert new update hkey = t.modify (key new) update hkey := dif_pos h

theorem mem_upsert : r ∈ (t.upsert new update hkey).rows ↔
    (r ∈ t.rows ∧ key r ≠ key new) ∨ (∃ old ∈ t.rows, key old = key new ∧ r = update old) ∨
      (key new ∉ t.rows.map key ∧ r = new) := by
  unfold upsert
  split
  · rename_i htaken
    rw [mem_modify]
    simp [htaken]
  · rename_i hfree
    have hne : ∀ r ∈ t.rows, key r ≠ key new := fun r hr h => hfree (h ▸ List.mem_map_of_mem hr)
    rw [mem_insert]
    constructor
    · rintro (hr | rfl)
      · exact Or.inl ⟨hr, hne r hr⟩
      · exact Or.inr (Or.inr ⟨hfree, rfl⟩)
    · rintro (⟨hr, -⟩ | ⟨old, hold, hsame, -⟩ | ⟨-, rfl⟩)
      · exact Or.inl hr
      · exact absurd hsame (hne old hold)
      · exact Or.inr rfl

/-- Rows under other keys are neither changed nor added. -/
theorem mem_upsert_of_ne (hne : key r ≠ key new) : r ∈ (t.upsert new update hkey).rows ↔ r ∈ t.rows := by
  rw [mem_upsert]
  constructor
  · rintro (⟨hr, -⟩ | ⟨old, -, hsame, rfl⟩ | ⟨-, rfl⟩)
    · exact hr
    · exact absurd ((hkey old).trans hsame) hne
    · exact absurd rfl hne
  · intro hr
    exact Or.inl ⟨hr, hne⟩

/-- There is a row under the key, and it has what every update and the new row have. -/
theorem exists_upsert {q : ρ → Prop} (hnew : q new) (hupdate : ∀ r ∈ t.rows, key r = key new → q (update r)) :
    ∃ r ∈ (t.upsert new update hkey).rows, key r = key new ∧ q r := by
  by_cases h : key new ∈ t.rows.map key
  · obtain ⟨old, hold, hsame⟩ := List.mem_map.mp h
    exact ⟨update old, mem_upsert.mpr (Or.inr (Or.inl ⟨old, hold, hsame, rfl⟩)), (hkey old).trans hsame,
      hupdate old hold hsame⟩
  · exact ⟨new, mem_upsert.mpr (Or.inr (Or.inr ⟨h, rfl⟩)), rfl, hnew⟩

/-- What a row under some key has, and every update keeps, is not lost. -/
theorem exists_upsert_of_exists {k : κ} {q : ρ → Prop} (h : ∃ r ∈ t.rows, key r = k ∧ q r)
    (hupdate : ∀ r, q r → q (update r)) : ∃ r ∈ (t.upsert new update hkey).rows, key r = k ∧ q r := by
  obtain ⟨r, hr, rfl, hq⟩ := h
  by_cases hsame : key r = key new
  · exact ⟨update r, mem_upsert.mpr (Or.inr (Or.inl ⟨r, hr, hsame, rfl⟩)), hkey r, hupdate r hq⟩
  · exact ⟨r, (mem_upsert_of_ne hsame).mpr hr, rfl, hq⟩

/-- What every row under some key has, the new row too, and every update keeps, they all have. -/
theorem forall_upsert {k : κ} {q : ρ → Prop} (h : ∀ r ∈ t.rows, key r = k → q r) (hnew : q new)
    (hupdate : ∀ r, q r → q (update r)) : ∀ r ∈ (t.upsert new update hkey).rows, key r = k → q r := by
  intro r hr hk
  obtain ⟨hr, -⟩ | ⟨old, hold, -, rfl⟩ | ⟨-, rfl⟩ := mem_upsert.mp hr
  · exact h r hr hk
  · exact hupdate old (h old hold ((hkey old).symm.trans hk))
  · exact hnew

end Keyed

end RustyRig.Lib
