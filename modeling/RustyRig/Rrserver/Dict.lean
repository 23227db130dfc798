/-
Property dictionaries.

`dict` is a string-to-string table of a library that is not part of this tree.  The
server uses it through `dict_get`, `dict_add`, `dict_del`, `dict_clone` and
`dict_enumerate`, so that is all it is here: entries in enumeration order, no key
twice.  A Lean value needs no clone.
-/
import Mathlib.Data.List.Nodup

namespace RustyRig

/-- `dict`. -/
structure Dict where
  entries : List (String × String)
  nodup : (entries.map Prod.fst).Nodup

namespace Dict

/-- `dict_new`. -/
def empty : Dict := ⟨[], List.nodup_nil⟩

def keys (d : Dict) : List String := d.entries.map Prod.fst

/-- `dict_get` with NULL as its default. -/
def get? (d : Dict) (key : String) : Option String :=
  (d.entries.find? (·.1 == key)).map Prod.snd

/-- `dict_get`. -/
def get (d : Dict) (key dflt : String) : String := (d.get? key).getD dflt

/-- `dict_del`. -/
def del (d : Dict) (key : String) : Dict where
  entries := d.entries.filter (·.1 ≠ key)
  nodup := d.nodup.sublist (List.filter_sublist.map _)

/-- `dict_add`: replaces the value of a key that is there. -/
def add (d : Dict) (key value : String) : Dict where
  entries := (d.del key).entries ++ [(key, value)]
  nodup := by
    rw [List.map_append, List.nodup_append]
    refine ⟨(d.del key).nodup, by simp, ?_⟩
    intro a ha b hb
    obtain ⟨e, he, rfl⟩ := List.mem_map.mp ha
    have hne : e.1 ≠ key := by simpa using (List.mem_filter.mp he).2
    simpa [List.mem_singleton.mp hb] using hne

theorem get?_eq_some {d : Dict} {k v : String} : d.get? k = some v ↔ (k, v) ∈ d.entries := by
  rw [get?, Option.map_eq_some_iff]
  constructor
  · rintro ⟨⟨k', v'⟩, hf, rfl⟩
    have hk : k' = k := by simpa using List.find?_some hf
    rw [← hk]
    exact List.mem_of_find?_eq_some hf
  · intro hmem
    cases hf : d.entries.find? (·.1 == k) with
    | none =>
        rw [List.find?_eq_none] at hf
        exact absurd (beq_self_eq_true k) (by simpa using hf (k, v) hmem)
    | some e =>
        have hk : e.1 = k := by simpa using List.find?_some hf
        exact ⟨e, rfl, congrArg Prod.snd
          (List.inj_on_of_nodup_map d.nodup (List.mem_of_find?_eq_some hf) hmem hk)⟩

theorem mem_keys {d : Dict} {k : String} : k ∈ d.keys ↔ ∃ v, d.get? k = some v := by
  simp only [keys, List.mem_map, get?_eq_some]
  constructor
  · rintro ⟨⟨_, v⟩, hmem, rfl⟩
    exact ⟨v, hmem⟩
  · rintro ⟨v, hmem⟩
    exact ⟨(k, v), hmem, rfl⟩

@[simp]
theorem get?_del (d : Dict) (key k : String) :
    (d.del key).get? k = if k = key then none else d.get? k := by
  refine Option.ext fun v => ?_
  rw [get?_eq_some]
  by_cases hk : k = key
  · simp [del, hk]
  · simp [del, hk, get?_eq_some]

@[simp]
theorem get?_add (d : Dict) (key value k : String) :
    (d.add key value).get? k = if k = key then some value else d.get? k := by
  refine Option.ext fun v => ?_
  have hdel := get?_eq_some (d := d.del key) (k := k) (v := v)
  rw [get?_eq_some]
  simp only [add, List.mem_append, List.mem_singleton, Prod.mk.injEq, ← hdel, get?_del]
  by_cases hk : k = key
  · simp [hk, eq_comm]
  · simp [hk]

end Dict

end RustyRig
