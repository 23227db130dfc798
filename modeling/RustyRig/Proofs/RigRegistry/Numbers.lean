/-
The numbers that a new default rig brings.

The first loop leaves the default at zero and gives each other rig a number of its own or none.
The second gives numbers to those without: the first that are free, and zero where there is none,
which takes as many rigs as there are numbers.
-/
import RustyRig.Rrserver.RigRegistry
import RustyRig.Lib.Keyed
import RustyRig.Lib.Register

namespace RustyRig

namespace RigRegistry

open Lib (firstFree firstFree_cases sub_le_length)

variable {radio : Option Nat} {used done : List Nat} {l : List RigEntry} {e : RigEntry} {index i : Nat}

/-- The same rig with another number. -/
structure Renumbered (a b : RigEntry) : Prop where
  radio : b.radio = a.radio
  uuid : b.uuid = a.uuid
  alias_ : b.alias_ = a.alias_

theorem Renumbered.trans {a b c : RigEntry} (h : Renumbered a b) (h' : Renumbered b c) : Renumbered a c :=
  ⟨h'.radio.trans h.radio, h'.uuid.trans h.uuid, h'.alias_.trans h.alias_⟩

/-! ### Numbers of the configuration -/

/-- What the first loop gives to a rig. -/
def Kept (radio : Option Nat) (used : List Nat) (e : RigEntry) : Prop :=
  (some e.radio = radio ∧ e.mediaIndex = 0) ∨
    (some e.radio ≠ radio ∧
      (e.mediaIndex = noIndex ∨ (0 < e.mediaIndex ∧ e.mediaIndex < maxRigs ∧ e.mediaIndex ∉ used)))

theorem ownNumber_spec {alias_ : String} {number : Nat} (h : ownNumber used alias_ = some number) :
    0 < number ∧ number < maxRigs ∧ number ∉ used := by
  unfold ownNumber at h
  have hcheck := (Option.filter_eq_some_iff.mp h).2
  simp only [Bool.and_eq_true, decide_eq_true_eq, Bool.not_eq_true', List.contains_eq_mem,
    decide_eq_false_iff_not] at hcheck
  exact ⟨hcheck.1.1.1, hcheck.1.1.2, hcheck.1.2⟩

theorem Kept.mono {used' : List Nat} (h : Kept radio used' e) (hsub : ∀ i ∈ used, i ∈ used') :
    Kept radio used e := by
  rcases h with hself | ⟨hother, hnone | ⟨hpos, hlt, hfree⟩⟩
  · exact Or.inl hself
  · exact Or.inr ⟨hother, Or.inl hnone⟩
  · exact Or.inr ⟨hother, Or.inr ⟨hpos, hlt, fun hmem => hfree (hsub _ hmem)⟩⟩

theorem keepNumbers_spec (radio : Option Nat) (used : List Nat) (l : List RigEntry) :
    List.Forall₂ Renumbered l (keepNumbers radio used l).2 ∧
    (∀ e ∈ (keepNumbers radio used l).2, Kept radio used e) ∧
    (∀ i, i ∈ (keepNumbers radio used l).1 ↔ i ∈ used ∨
      ∃ e ∈ (keepNumbers radio used l).2, some e.radio ≠ radio ∧ e.mediaIndex = i ∧ i ≠ noIndex) ∧
    (keepNumbers radio used l).2.Pairwise fun a b =>
      a.mediaIndex = b.mediaIndex → a.mediaIndex = noIndex ∨ a.mediaIndex = 0 := by
  induction l generalizing used with
  | nil =>
      refine ⟨.nil, fun e h => absurd h List.not_mem_nil, fun i => ?_, List.Pairwise.nil⟩
      simp [keepNumbers]
  | cons e rest ih =>
      unfold keepNumbers
      by_cases hself : some e.radio = radio
      · rw [if_pos hself]
        obtain ⟨hsame, hkept, hused, hpair⟩ := ih used
        refine ⟨.cons ⟨rfl, rfl, rfl⟩ hsame, fun x hx => ?_, fun i => ?_, ?_⟩
        · rcases List.mem_cons.mp hx with rfl | hx
          · exact Or.inl ⟨hself, rfl⟩
          · exact hkept x hx
        · rw [hused]
          refine or_congr_right ⟨fun ⟨x, hx, h⟩ => ⟨x, List.mem_cons_of_mem _ hx, h⟩, fun ⟨x, hx, h⟩ => ?_⟩
          rcases List.mem_cons.mp hx with rfl | hx
          · exact absurd hself h.1
          · exact ⟨x, hx, h⟩
        · exact List.pairwise_cons.mpr ⟨fun x _ _ => Or.inr rfl, hpair⟩
      · rw [if_neg hself]
        cases hown : ownNumber used e.alias_ with
        | some number =>
            obtain ⟨hpos, hlt, hfree⟩ := ownNumber_spec hown
            obtain ⟨hsame, hkept, hused, hpair⟩ := ih (number :: used)
            refine ⟨.cons ⟨rfl, rfl, rfl⟩ hsame, fun x hx => ?_, fun i => ?_, ?_⟩
            · rcases List.mem_cons.mp hx with rfl | hx
              · exact Or.inr ⟨hself, Or.inr ⟨hpos, hlt, hfree⟩⟩
              · exact (hkept x hx).mono fun j hj => List.mem_cons_of_mem _ hj
            · dsimp only
              rw [hused, List.mem_cons]
              constructor
              · rintro ((rfl | hi) | ⟨x, hx, h⟩)
                · exact Or.inr ⟨_, List.mem_cons_self, hself, rfl, Nat.ne_of_lt hlt⟩
                · exact Or.inl hi
                · exact Or.inr ⟨x, List.mem_cons_of_mem _ hx, h⟩
              · rintro (hi | ⟨x, hx, h⟩)
                · exact Or.inl (Or.inr hi)
                · rcases List.mem_cons.mp hx with rfl | hx
                  · exact Or.inl (Or.inl h.2.1.symm)
                  · exact Or.inr ⟨x, hx, h⟩
            · refine List.pairwise_cons.mpr ⟨fun x hx heq => ?_, hpair⟩
              rcases hkept x hx with ⟨-, hzero⟩ | ⟨-, hnone | ⟨-, -, hother⟩⟩
              · exact Or.inr (heq.trans hzero)
              · exact Or.inl (heq.trans hnone)
              · exact absurd (heq ▸ List.mem_cons_self) hother
        | none =>
            obtain ⟨hsame, hkept, hused, hpair⟩ := ih used
            refine ⟨.cons ⟨rfl, rfl, rfl⟩ hsame, fun x hx => ?_, fun i => ?_, ?_⟩
            · rcases List.mem_cons.mp hx with rfl | hx
              · exact Or.inr ⟨hself, Or.inl rfl⟩
              · exact hkept x hx
            · dsimp only
              rw [hused]
              refine or_congr_right ⟨fun ⟨x, hx, h⟩ => ⟨x, List.mem_cons_of_mem _ hx, h⟩, fun ⟨x, hx, h⟩ => ?_⟩
              rcases List.mem_cons.mp hx with rfl | hx
              · exact absurd h.2.1.symm h.2.2
              · exact ⟨x, hx, h⟩
            · exact List.pairwise_cons.mpr ⟨fun x _ _ => Or.inl rfl, hpair⟩

/-! ### Numbers for the rest -/

/-- The numbers that are given already. -/
def given (l : List RigEntry) : List Nat := (l.map (·.mediaIndex)).filter (· != noIndex)

theorem given_cons_of_none (h : e.mediaIndex = noIndex) : given (e :: l) = given l := by
  unfold given
  rw [List.map_cons, List.filter_cons_of_neg (by rw [h]; decide)]

theorem given_cons (h : e.mediaIndex ≠ noIndex) : given (e :: l) = e.mediaIndex :: given l := by
  unfold given
  rw [List.map_cons]
  exact List.filter_cons_of_pos (p := fun x => x != noIndex) (bne_iff_ne.mpr h)

theorem length_given_le (l : List RigEntry) : (given l).length ≤ l.length := by
  unfold given
  exact (List.length_filter_le _ _).trans (List.length_map _).le

/-- The rigs stay, a number that is given stays, and the alias is the one of the number. -/
theorem same_fillNumbers (index : Nat) (used : List Nat) (l : List RigEntry) :
    List.Forall₂ (fun a b => Renumbered a b ∧ (a.mediaIndex ≠ noIndex → b.mediaIndex = a.mediaIndex) ∧
      b.publicAlias = publicAliasOf b.mediaIndex) l (fillNumbers index used l) := by
  induction l generalizing index used with
  | nil => exact .nil
  | cons e rest ih =>
      unfold fillNumbers
      split
      · rename_i hnone
        exact .cons ⟨⟨rfl, rfl, rfl⟩, fun habs => absurd hnone habs, rfl⟩ (ih _ _)
      · exact .cons ⟨⟨rfl, rfl, rfl⟩, fun _ => rfl, rfl⟩ (ih _ _)

theorem fillNumbers_spec (hnodup : (done ++ given l).Nodup) (hlt : ∀ i ∈ done ++ given l, i < maxRigs)
    (hused : ∀ i, i ∈ used ↔ i = 0 ∨ i ∈ done ++ given l) (hbelow : ∀ j, 1 ≤ j → j < index → j ∈ used)
    (hlength : done.length + l.length ≤ maxRigs) :
    (done ++ (fillNumbers index used l).map (·.mediaIndex)).Nodup ∧
    (∀ i ∈ (fillNumbers index used l).map (·.mediaIndex), i < maxRigs) ∧
    (0 ∈ (fillNumbers index used l).map (·.mediaIndex) →
      0 ∈ given l ∨ done.length + l.length = maxRigs) := by
  induction l generalizing index used done with
  | nil =>
      refine ⟨?_, fun i h => absurd h List.not_mem_nil, fun h => absurd h List.not_mem_nil⟩
      have hnil : given [] = [] := rfl
      rw [hnil] at hnodup
      exact hnodup
  | cons e rest ih =>
      rw [List.length_cons] at hlength
      by_cases hnone : e.mediaIndex = noIndex
      · rw [given_cons_of_none hnone] at hnodup hlt hused ⊢
        unfold fillNumbers
        rw [if_pos hnone]
        dsimp only
        generalize hi : (if firstFree maxRigs index used = maxRigs then 0 else firstFree maxRigs index used) = i
        have hgiven := length_given_le rest
        -- the number is new, and zero only where every slot but that is taken
        have hnew : i ∉ done ++ given rest ∧ i < maxRigs ∧ (∀ j, 1 ≤ j → j < i → j ∈ used) ∧
            (i = 0 → done.length + (rest.length + 1) = maxRigs) := by
          rcases firstFree_cases maxRigs index used with ⟨hfree, hnot, hbetween⟩ | ⟨hfull, hall⟩
          · rw [if_neg (Nat.ne_of_lt hfree)] at hi
            rw [hi] at hfree hnot hbetween
            refine ⟨fun hmem => hnot ((hused i).mpr (Or.inr hmem)), hfree, fun j hj hji => ?_, fun hzero => ?_⟩
            · by_cases hindex : j < index
              · exact hbelow j hj hindex
              · exact hbetween j (Nat.le_of_not_lt hindex) hji
            · exact absurd ((hused i).mpr (Or.inl hzero)) hnot
          · rw [if_pos hfull] at hi
            have hevery : ∀ j, 1 ≤ j → j < maxRigs → j ∈ done ++ given rest := by
              intro j hj hjmax
              have hmem : j ∈ used := by
                by_cases hindex : j < index
                · exact hbelow j hj hindex
                · exact hall j (Nat.le_of_not_lt hindex) hjmax
              exact ((hused j).mp hmem).resolve_left (Nat.ne_of_gt hj)
            have hle := sub_le_length hevery
            rw [List.length_append] at hle
            have hmax : maxRigs = 255 := rfl
            refine ⟨fun hmem => ?_, hi ▸ by decide, fun j _ hji => ?_, fun _ => by omega⟩
            · rw [← hi] at hmem
              have hwhole : ∀ j, 0 ≤ j → j < maxRigs → j ∈ done ++ given rest := by
                intro j _ hjmax
                by_cases hj : j = 0
                · exact hj ▸ hmem
                · exact hevery j (Nat.one_le_iff_ne_zero.mpr hj) hjmax
              have hle' := sub_le_length hwhole
              rw [List.length_append] at hle'
              omega
            · rw [← hi] at hji
              exact absurd hji (Nat.not_lt_zero j)
        obtain ⟨hfresh, hbound, hbelow', hfull⟩ := hnew
        have hmem : ∀ j, j ∈ (done ++ [i]) ++ given rest ↔ j = i ∨ j ∈ done ++ given rest := by
          intro j
          simp only [List.mem_append, List.mem_singleton]
          tauto
        have hcons : ((done ++ [i]) ++ given rest).Nodup := by
          rw [List.append_assoc, List.singleton_append, List.nodup_middle]
          exact List.nodup_cons.mpr ⟨hfresh, hnodup⟩
        have hlt' : ∀ j ∈ (done ++ [i]) ++ given rest, j < maxRigs := by
          intro j hj
          rcases (hmem j).mp hj with rfl | hj
          · exact hbound
          · exact hlt j hj
        have hused' : ∀ j, j ∈ i :: used ↔ j = 0 ∨ j ∈ (done ++ [i]) ++ given rest := by
          intro j
          rw [List.mem_cons, hmem, hused]
          tauto
        have hbelow'' : ∀ j, 1 ≤ j → j < i → j ∈ i :: used := fun j hj hji =>
          List.mem_cons_of_mem _ (hbelow' j hj hji)
        have hlength' : (done ++ [i]).length + rest.length ≤ maxRigs := by
          rw [List.length_append, List.length_singleton]
          omega
        obtain ⟨hnodup', hlt', hzero'⟩ := ih hcons hlt' hused' hbelow'' hlength'
        rw [List.length_append, List.length_singleton] at hzero'
        refine ⟨?_, fun j hj => ?_, fun hzero => ?_⟩
        · rw [List.append_assoc, List.singleton_append] at hnodup'
          exact hnodup'
        · rcases List.mem_cons.mp hj with rfl | hj
          · exact hbound
          · exact hlt' j hj
        · rw [List.length_cons]
          rcases List.mem_cons.mp hzero with hzero | hzero
          · exact Or.inr (hfull hzero.symm)
          · rcases hzero' hzero with hold | hall
            · exact Or.inl hold
            · exact Or.inr (by omega)
      · rw [given_cons hnone] at hnodup hlt hused ⊢
        unfold fillNumbers
        rw [if_neg hnone]
        have hassoc : (done ++ [e.mediaIndex]) ++ given rest = done ++ e.mediaIndex :: given rest := by
          rw [List.append_assoc, List.singleton_append]
        have hlength' : (done ++ [e.mediaIndex]).length + rest.length ≤ maxRigs := by
          rw [List.length_append, List.length_singleton]
          omega
        rw [← hassoc] at hnodup hlt hused
        obtain ⟨hnodup', hlt', hzero'⟩ := ih hnodup hlt hused hbelow hlength'
        rw [List.length_append, List.length_singleton] at hzero'
        refine ⟨?_, fun j hj => ?_, fun hzero => ?_⟩
        · rw [List.append_assoc, List.singleton_append] at hnodup'
          exact hnodup'
        · rcases List.mem_cons.mp hj with rfl | hj
          · exact hlt _ (List.mem_append_left _ (List.mem_append_right _ (List.mem_singleton_self _)))
          · exact hlt' j hj
        · rw [List.length_cons]
          rcases List.mem_cons.mp hzero with hzero | hzero
          · exact Or.inl (hzero ▸ List.mem_cons_self)
          · rcases hzero' hzero with hold | hall
            · exact Or.inl (List.mem_cons_of_mem _ hold)
            · exact Or.inr (by omega)

end RigRegistry

end RustyRig

/-!
No two rigs share a name or a number.

`Orderly` is kept by every call.  There are never more rigs than numbers, because the numbers are
distinct: a rig that is added finds one that is free, and where the default is cleared the last
one of 255 rigs is left with zero.
-/

namespace RustyRig

namespace RigRegistry

open Lib (firstFree firstFree_lt firstFree_cases)

variable {r : Registry} {radio : Option Nat} {e : RigEntry} {l : List RigEntry}

/-! ### The invariant -/

/-- The registry in order. -/
structure Orderly (r : Registry) : Prop where
  uuids : (r.entries.map (·.uuid)).Nodup
  aliases : (r.entries.map (·.alias_)).Nodup
  radios : (r.entries.map (·.radio)).Nodup
  indices : (r.entries.map (·.mediaIndex)).Nodup
  below : ∀ e ∈ r.entries, e.mediaIndex < maxRigs
  named : ∀ e ∈ r.entries, e.publicAlias = publicAliasOf e.mediaIndex
  counted : r.count = r.entries.length

theorem publicAliasOf_injective : Function.Injective publicAliasOf := by
  intro i j h
  have hlist := congrArg String.toList h
  unfold publicAliasOf at hlist
  rw [String.toList_append, String.toList_append] at hlist
  have hdigits : Nat.toDigits 10 i = Nat.toDigits 10 j := by
    simpa using List.append_cancel_left hlist
  rw [← Nat.ofDigitChars_ten_toDigits (n := i), hdigits, Nat.ofDigitChars_ten_toDigits]

theorem Orderly.publicAliases (h : Orderly r) : (r.entries.map (·.publicAlias)).Nodup := by
  have hnames := h.indices.map publicAliasOf_injective
  rw [List.map_map] at hnames
  rw [List.map_congr_left h.named]
  exact hnames

/-- There are not more rigs than numbers. -/
theorem Orderly.length_le (h : Orderly r) : r.entries.length ≤ maxRigs := by
  have hsubset : (r.entries.map (·.mediaIndex)).toFinset ⊆ Finset.range maxRigs := by
    intro i hi
    obtain ⟨e, he, rfl⟩ := List.mem_map.mp (List.mem_toFinset.mp hi)
    exact Finset.mem_range.mpr (h.below e he)
  have hcard := Finset.card_le_card hsubset
  rw [List.toFinset_card_of_nodup h.indices, List.length_map, Finset.card_range] at hcard
  exact hcard

theorem orderly_new : Orderly .new where
  uuids := List.nodup_nil
  aliases := List.nodup_nil
  radios := List.nodup_nil
  indices := List.nodup_nil
  below _ h := absurd h List.not_mem_nil
  named _ h := absurd h List.not_mem_nil
  counted := rfl

/-! ### Adding and removing -/

/-- A rig is added, or nothing happens. -/
theorem add_cases (r : Registry) (uuid alias_ : Option String) (typed : Bool) (calloc : Calloc) (created : Bool) :
    add r uuid alias_ typed calloc created = (none, r) ∨
    ∃ u a x index, r.count < maxRigs ∧ r.findUuid u = none ∧ r.findAlias a = none ∧
      x ∉ r.entries.map (·.radio) ∧
      index = (if firstFree maxRigs 0 (r.entries.map (·.mediaIndex)) = maxRigs then 0
        else firstFree maxRigs 0 (r.entries.map (·.mediaIndex))) ∧
      add r uuid alias_ typed calloc created = (some x, { r with
        entries := ⟨a, publicAliasOf index, index, x, u⟩ :: r.entries, count := r.count + 1 }) := by
  unfold add
  split
  · rename_i u a
    split
    · exact Or.inl rfl
    · rename_i hargs
      simp only [Bool.or_eq_true, decide_eq_true_eq, not_or, Bool.not_eq_true, Option.isSome_eq_false_iff,
        Option.isNone_iff_eq_none] at hargs
      split
      · exact Or.inl rfl
      · rename_i x hx
        split
        · exact Or.inl rfl
        · exact Or.inr ⟨u, a, x.val, _, Nat.lt_of_not_le hargs.1.1.1.1.1, hargs.1.2, hargs.2, x.property, rfl,
            rfl⟩
  · exact Or.inl rfl

theorem notMem_of_find {β : Type} [BEq β] [LawfulBEq β] {f : RigEntry → β} {b : β}
    (h : l.find? (fun e => f e == b) = none) : b ∉ l.map f := by
  intro hmem
  obtain ⟨e, he, rfl⟩ := List.mem_map.mp hmem
  exact List.find?_eq_none.mp h e he (beq_self_eq_true _)

theorem Orderly.added (h : Orderly r) (uuid alias_ : Option String) (typed : Bool) (calloc : Calloc)
    (created : Bool) : Orderly (add r uuid alias_ typed calloc created).2 := by
  rcases add_cases r uuid alias_ typed calloc created with
    heq | ⟨u, a, x, index, hcount, huuid, halias, hradio, hindex, heq⟩
  · rw [heq]
    exact h
  rw [heq]
  have hlength : (r.entries.map (·.mediaIndex)).length < maxRigs := by
    rw [List.length_map, ← h.counted]
    exact hcount
  have hlt := firstFree_lt hlength
  rw [if_neg (Nat.ne_of_lt hlt)] at hindex
  have hfree : index ∉ r.entries.map (·.mediaIndex) := by
    rcases firstFree_cases maxRigs 0 (r.entries.map (·.mediaIndex)) with ⟨-, hnot, -⟩ | ⟨hfull, -⟩
    · rw [hindex]
      exact hnot
    · exact absurd hfull (Nat.ne_of_lt hlt)
  refine ⟨List.nodup_cons.mpr ⟨notMem_of_find huuid, h.uuids⟩,
    List.nodup_cons.mpr ⟨notMem_of_find halias, h.aliases⟩, List.nodup_cons.mpr ⟨hradio, h.radios⟩,
    List.nodup_cons.mpr ⟨hfree, h.indices⟩, fun e he => ?_, fun e he => ?_, ?_⟩
  · rcases List.mem_cons.mp he with rfl | he
    · exact hindex ▸ hlt
    · exact h.below e he
  · rcases List.mem_cons.mp he with rfl | he
    · rfl
    · exact h.named e he
  · show r.count + 1 = (_ :: r.entries).length
    rw [List.length_cons, h.counted]

theorem remove_cases (r : Registry) (uuid : Option String) :
    remove r uuid = (true, r) ∨ ∃ u, (∃ e ∈ r.entries, e.uuid = u) ∧
      remove r uuid = (false, { r with
        entries := r.entries.eraseP (·.uuid == u), count := r.count - 1 }) := by
  unfold remove
  split
  · exact Or.inl rfl
  · rename_i u
    split
    · exact Or.inl rfl
    · split
      · exact Or.inl rfl
      · rename_i e hfind
        split
        · exact Or.inl rfl
        · have huuid := List.find?_some hfind
          exact Or.inr ⟨u, ⟨e, List.mem_of_find?_eq_some hfind, beq_iff_eq.mp huuid⟩, rfl⟩

theorem Orderly.removed (h : Orderly r) (uuid : Option String) : Orderly (remove r uuid).2 := by
  rcases remove_cases r uuid with heq | ⟨u, ⟨e, he, hu⟩, heq⟩
  · rw [heq]
    exact h
  rw [heq]
  have hsub : (r.entries.eraseP (·.uuid == u)).Sublist r.entries := List.eraseP_sublist
  refine ⟨h.uuids.sublist (hsub.map _), h.aliases.sublist (hsub.map _), h.radios.sublist (hsub.map _),
    h.indices.sublist (hsub.map _), fun x hx => h.below x (hsub.subset hx), fun x hx => h.named x (hsub.subset hx),
    ?_⟩
  have hlength := List.length_eraseP_of_mem he (p := fun x => x.uuid == u) (beq_iff_eq.mpr hu)
  show r.count - 1 = _
  rw [hlength, h.counted]

/-! ### A new default -/

theorem setDefault_cases (r : Registry) (radio : Option Nat) :
    setDefault r radio = (true, r) ∨
      (∀ x, radio = some x → x ∈ r.entries.map (·.radio)) ∧
      setDefault r radio = (false, { r with
        entries := fillNumbers 1 (keepNumbers radio [0] r.entries).1 (keepNumbers radio [0] r.entries).2
        defaultRig := radio }) := by
  unfold setDefault
  split
  · exact Or.inl rfl
  · rename_i hregistered
    refine Or.inr ⟨fun x hx => ?_, rfl⟩
    rw [hx] at hregistered
    simp only [Option.any_some, Bool.not_eq_true', Bool.not_eq_false, List.any_eq_true, beq_iff_eq] at hregistered
    obtain ⟨e, he, rfl⟩ := hregistered
    exact List.mem_map_of_mem he

theorem radio_of_kept {used : List Nat} (h : Kept radio used e) (hzero : e.mediaIndex = 0) :
    some e.radio = radio := by
  rcases h with ⟨hself, -⟩ | ⟨-, hnone | ⟨hpos, -⟩⟩
  · exact hself
  · exact absurd (hzero.symm.trans hnone) (by decide)
  · exact absurd hzero (Nat.ne_of_gt hpos)

/-- The numbers that the first loop gives are distinct. -/
theorem nodup_given (hradios : (l.map (·.radio)).Nodup) :
    (given (keepNumbers radio [0] l).2).Nodup := by
  obtain ⟨hsame, hkept, -, hpair⟩ := keepNumbers_spec radio [0] l
  have hradios' : ((keepNumbers radio [0] l).2.map (·.radio)).Nodup := by
    rw [Lib.map_eq_of_forall₂ hsame fun _ _ h => h.radio]
    exact hradios
  have hapart : (keepNumbers radio [0] l).2.Pairwise fun a b =>
      a.mediaIndex = b.mediaIndex → a.mediaIndex = noIndex := by
    refine (hpair.and (List.pairwise_map.mp hradios')).imp_of_mem fun {a b} ha hb hab heq => ?_
    rcases hab.1 heq with hnone | hzero
    · exact hnone
    · -- only the default has zero
      have hra := radio_of_kept (hkept a ha) hzero
      have hrb := radio_of_kept (hkept b hb) (heq.symm.trans hzero)
      exact absurd (Option.some.inj (hra.trans hrb.symm)) hab.2
  unfold given
  rw [List.filter_map]
  refine List.pairwise_map.mpr (List.Pairwise.imp_of_mem (fun {a b} ha _ hab heq => ?_)
    (hapart.filter _))
  have hnone := (List.mem_filter.mp ha).2
  exact bne_iff_ne.mp hnone (hab heq)

theorem mem_given {i : Nat} : i ∈ given l ↔ (∃ e ∈ l, e.mediaIndex = i) ∧ i ≠ noIndex := by
  unfold given
  rw [List.mem_filter, List.mem_map, bne_iff_ne]

/-- What the second loop starts with. -/
theorem default_numbers (h : Orderly r) (radio : Option Nat) :
    (((fillNumbers 1 (keepNumbers radio [0] r.entries).1 (keepNumbers radio [0] r.entries).2).map
      (·.mediaIndex)).Nodup ∧
    (∀ i ∈ (fillNumbers 1 (keepNumbers radio [0] r.entries).1 (keepNumbers radio [0] r.entries).2).map
      (·.mediaIndex), i < maxRigs) ∧
    (0 ∈ (fillNumbers 1 (keepNumbers radio [0] r.entries).1 (keepNumbers radio [0] r.entries).2).map
      (·.mediaIndex) → 0 ∈ given (keepNumbers radio [0] r.entries).2 ∨ r.entries.length = maxRigs)) := by
  obtain ⟨hsame, hkept, hused, -⟩ := keepNumbers_spec radio [0] r.entries
  have hnodup : ([] ++ given (keepNumbers radio [0] r.entries).2).Nodup := nodup_given h.radios
  have hlt : ∀ i ∈ [] ++ given (keepNumbers radio [0] r.entries).2, i < maxRigs := by
    intro i hi
    obtain ⟨⟨e, he, rfl⟩, hsome⟩ := mem_given.mp hi
    rcases hkept e he with ⟨-, hzero⟩ | ⟨-, hnone | ⟨-, hlt, -⟩⟩
    · rw [hzero]
      decide
    · exact absurd hnone hsome
    · exact hlt
  have hused' : ∀ i, i ∈ (keepNumbers radio [0] r.entries).1 ↔
      i = 0 ∨ i ∈ [] ++ given (keepNumbers radio [0] r.entries).2 := by
    intro i
    rw [hused, List.mem_singleton, List.nil_append, mem_given]
    constructor
    · rintro (hzero | ⟨e, he, -, hi, hsome⟩)
      · exact Or.inl hzero
      · exact Or.inr ⟨⟨e, he, hi⟩, hsome⟩
    · rintro (hzero | ⟨⟨e, he, hi⟩, hsome⟩)
      · exact Or.inl hzero
      · rcases hkept e he with ⟨-, hzero⟩ | ⟨hother, -⟩
        · exact Or.inl (hi.symm.trans hzero)
        · exact Or.inr ⟨e, he, hother, hi, hsome⟩
  have hbelow : ∀ j, 1 ≤ j → j < 1 → j ∈ (keepNumbers radio [0] r.entries).1 := fun j hj hlt =>
    absurd hj (Nat.not_le_of_lt hlt)
  have hlength : ([] : List Nat).length + (keepNumbers radio [0] r.entries).2.length ≤ maxRigs := by
    rw [← hsame.length_eq, List.length_nil, Nat.zero_add]
    exact h.length_le
  have hspec := fillNumbers_spec hnodup hlt hused' hbelow hlength
  rw [List.nil_append, List.length_nil, Nat.zero_add, ← hsame.length_eq] at hspec
  exact hspec

theorem Orderly.defaulted (h : Orderly r) (radio : Option Nat) : Orderly (setDefault r radio).2 := by
  rcases setDefault_cases r radio with heq | ⟨-, heq⟩
  · rw [heq]
    exact h
  rw [heq]
  obtain ⟨hindices, hbelow, -⟩ := default_numbers h radio
  have hkeep := (keepNumbers_spec radio [0] r.entries).1
  have hfill := same_fillNumbers 1 (keepNumbers radio [0] r.entries).1 (keepNumbers radio [0] r.entries).2
  refine ⟨?_, ?_, ?_, hindices, fun e he => hbelow _ (List.mem_map_of_mem he), fun e he => ?_, ?_⟩
  · show ((fillNumbers _ _ _).map (·.uuid)).Nodup
    rw [Lib.map_eq_of_forall₂ hfill fun _ _ h => h.1.uuid, Lib.map_eq_of_forall₂ hkeep fun _ _ h => h.uuid]
    exact h.uuids
  · show ((fillNumbers _ _ _).map (·.alias_)).Nodup
    rw [Lib.map_eq_of_forall₂ hfill fun _ _ h => h.1.alias_, Lib.map_eq_of_forall₂ hkeep fun _ _ h => h.alias_]
    exact h.aliases
  · show ((fillNumbers _ _ _).map (·.radio)).Nodup
    rw [Lib.map_eq_of_forall₂ hfill fun _ _ h => h.1.radio, Lib.map_eq_of_forall₂ hkeep fun _ _ h => h.radio]
    exact h.radios
  · obtain ⟨x, -, -, -, hname⟩ := Lib.exists_of_mem_forall₂ hfill he
    exact hname
  · show r.count = (fillNumbers _ _ _).length
    rw [← hfill.length_eq, ← hkeep.length_eq]
    exact h.counted

/-! ### Runs -/

theorem Orderly.step (h : Orderly r) (event : Event) : Orderly (step r event).2 := by
  cases event with
  | add uuid alias_ typed calloc created => exact h.added uuid alias_ typed calloc created
  | remove uuid => exact h.removed uuid
  | setDefault radio => exact h.defaulted radio

theorem Orderly.run (h : Orderly r) (events : List Event) : Orderly (run r events) := by
  unfold RigRegistry.run
  induction events generalizing r with
  | nil => exact h
  | cons event events ih => exact ih (h.step event)

theorem step_failed (r : Registry) (event : Event) (hfailed : (step r event).1 = true) :
    (RigRegistry.step r event).2 = r := by
  cases event with
  | add uuid alias_ typed calloc created =>
      rcases add_cases r uuid alias_ typed calloc created with heq | ⟨u, a, x, index, -, -, -, -, -, heq⟩
      · show (add r uuid alias_ typed calloc created).2 = r
        rw [heq]
      · have hsome : (add r uuid alias_ typed calloc created).1.isNone = true := hfailed
        rw [heq] at hsome
        exact absurd hsome Bool.false_ne_true
  | remove uuid =>
      rcases remove_cases r uuid with heq | ⟨u, -, heq⟩
      · show (remove r uuid).2 = r
        rw [heq]
      · have hfalse : (remove r uuid).1 = true := hfailed
        rw [heq] at hfalse
        exact absurd hfalse Bool.false_ne_true
  | setDefault radio =>
      rcases setDefault_cases r radio with heq | ⟨-, heq⟩
      · show (setDefault r radio).2 = r
        rw [heq]
      · have hfalse : (setDefault r radio).1 = true := hfailed
        rw [heq] at hfalse
        exact absurd hfalse Bool.false_ne_true

/-! ### Number zero -/

/-- The default has zero, and nobody else. -/
theorem zero_of_default {x : Nat} (hx : x ∈ r.entries.map (·.radio)) :
    ∃ e ∈ fillNumbers 1 (keepNumbers (some x) [0] r.entries).1 (keepNumbers (some x) [0] r.entries).2,
      e.radio = x ∧ e.mediaIndex = 0 := by
  obtain ⟨hkeep, hkept, -, -⟩ := keepNumbers_spec (some x) [0] r.entries
  have hfill := same_fillNumbers 1 (keepNumbers (some x) [0] r.entries).1
    (keepNumbers (some x) [0] r.entries).2
  obtain ⟨e, he, hradio⟩ := List.mem_map.mp hx
  obtain ⟨e₁, he₁, hsame₁⟩ := Lib.exists_of_mem_forall₂ hkeep.flip he
  obtain ⟨e₂, he₂, hsame₂, hstays, -⟩ := Lib.exists_of_mem_forall₂ hfill.flip he₁
  have hx₁ : e₁.radio = x := hsame₁.radio.trans hradio
  have hzero : e₁.mediaIndex = 0 := by
    rcases hkept e₁ he₁ with ⟨-, hzero⟩ | ⟨hother, -⟩
    · exact hzero
    · exact absurd (congrArg some hx₁) hother
  refine ⟨e₂, he₂, hsame₂.radio.trans hx₁, ?_⟩
  rw [hstays (by rw [hzero]; decide), hzero]

theorem default_zero (h : Orderly r) (hok : (setDefault r radio).1 = false) :
    (setDefault r radio).2.defaultRig = radio ∧
    (∀ x, radio = some x → (∃ e ∈ (setDefault r radio).2.entries, e.radio = x) ∧
      ∀ e ∈ (setDefault r radio).2.entries, e.mediaIndex = 0 ↔ e.radio = x) ∧
    (radio = none → ((∃ e ∈ (setDefault r radio).2.entries, e.mediaIndex = 0) ↔
      r.entries.length = maxRigs)) := by
  have h' := h.defaulted radio
  rcases setDefault_cases r radio with heq | ⟨hregistered, heq⟩
  · rw [heq] at hok
    exact absurd hok.symm Bool.false_ne_true
  rw [heq] at h' ⊢
  refine ⟨rfl, fun x hx => ?_, fun hnone => ⟨fun ⟨e, he, hzero⟩ => ?_, fun hlength => ?_⟩⟩
  · subst hx
    obtain ⟨e₀, he₀, hradio, hzero⟩ := zero_of_default (hregistered x rfl)
    refine ⟨⟨e₀, he₀, hradio⟩, fun e he => ⟨fun hz => ?_, fun hr => ?_⟩⟩
    · rw [List.inj_on_of_nodup_map h'.indices he he₀ (hz.trans hzero.symm)]
      exact hradio
    · rw [List.inj_on_of_nodup_map h'.radios he he₀ (hr.trans hradio.symm)]
      exact hzero
  · obtain ⟨-, hkept, -, -⟩ := keepNumbers_spec radio [0] r.entries
    rcases (default_numbers h radio).2.2 (List.mem_map.mpr ⟨e, he, hzero⟩) with hgiven | hfull
    · obtain ⟨⟨x, hx, hxzero⟩, -⟩ := mem_given.mp hgiven
      have hdefault := radio_of_kept (hkept x hx) hxzero
      exact absurd (hdefault.trans hnone) (Option.some_ne_none _)
    · exact hfull
  · have hall : ((fillNumbers 1 (keepNumbers radio [0] r.entries).1
        (keepNumbers radio [0] r.entries).2).map (·.mediaIndex)).length = maxRigs := by
      have hcounted : r.count = _ := h'.counted
      rw [List.length_map, ← hcounted, h.counted]
      exact hlength
    have hmem := Lib.mem_of_length h'.indices (default_numbers h radio).2.1 hall (by decide : 0 < maxRigs)
    obtain ⟨e, he, hzero⟩ := List.mem_map.mp hmem
    exact ⟨e, he, hzero⟩

/-- **The registry of rigs.**  After any calls no two rigs share a UUID, an alias, a media index or
a public alias, the indices are below 255 and the counter is right.  A call that fails changes
nothing; one that makes a rig the default leaves index zero to it alone, and where the default is
cleared nobody has it, unless all 255 indices are taken. -/
theorem rig_registry (events : List Event) :
    let r := run .new events
    ((r.entries.map (·.uuid)).Nodup ∧ (r.entries.map (·.alias_)).Nodup) ∧
    ((r.entries.map (·.mediaIndex)).Nodup ∧ ∀ e ∈ r.entries, e.mediaIndex < maxRigs) ∧
    (r.entries.map (·.publicAlias)).Nodup ∧
    r.count = r.entries.length ∧
    (∀ event, (step r event).1 = true → (step r event).2 = r) ∧
    ∀ radio, (setDefault r radio).1 = false →
      (setDefault r radio).2.defaultRig = radio ∧
      (∀ x, radio = some x → (∃ e ∈ (setDefault r radio).2.entries, e.radio = x) ∧
        ∀ e ∈ (setDefault r radio).2.entries, e.mediaIndex = 0 ↔ e.radio = x) ∧
      (radio = none → ((∃ e ∈ (setDefault r radio).2.entries, e.mediaIndex = 0) ↔
        r.entries.length = maxRigs)) := by
  intro r
  have h : Orderly r := orderly_new.run events
  exact ⟨⟨h.uuids, h.aliases⟩, ⟨h.indices, h.below⟩, h.publicAliases, h.counted,
    fun event => step_failed r event, fun radio hok => default_zero h hok⟩

/-! ### A full registry without a default -/

/-- So many rigs, each with its number for a name. -/
def adds (n : Nat) : List Event :=
  (List.range n).map fun i =>
    .add (some (toString i)) (some (toString i)) true (fun inUse => some ⟨Lib.next inUse, Lib.next_notMem inUse⟩) true

theorem toString_injective : Function.Injective (toString : Nat → String) := by
  intro i j h
  have hdigits : Nat.toDigits 10 i = Nat.toDigits 10 j := by
    simpa using congrArg String.toList h
  rw [← Nat.ofDigitChars_ten_toDigits (n := i), hdigits, Nat.ofDigitChars_ten_toDigits]

theorem toString_ne_empty (i : Nat) : toString i ≠ "" := by
  intro h
  have hdigits : Nat.toDigits 10 i = [] := by
    simpa using congrArg String.toList h
  exact Nat.toDigits_ne_nil hdigits

/-- All of them are added. -/
theorem run_adds {n : Nat} (hn : n ≤ maxRigs) :
    (run .new (adds n)).count = n ∧ (run .new (adds n)).defaultRig = none ∧
      ∀ e ∈ (run .new (adds n)).entries, ∃ i < n, e.uuid = toString i ∧ e.alias_ = toString i := by
  induction n with
  | zero => exact ⟨rfl, rfl, fun e he => absurd he List.not_mem_nil⟩
  | succ n ih =>
      obtain ⟨hcount, hdefault, hnames⟩ := ih (Nat.le_of_succ_le hn)
      have hrun : run .new (adds (n + 1)) = (step (run .new (adds n))
          (.add (some (toString n)) (some (toString n)) true
            (fun inUse => some ⟨Lib.next inUse, Lib.next_notMem inUse⟩) true)).2 := by
        unfold run adds
        rw [List.range_succ, List.map_append, List.foldl_append]
        rfl
      rw [hrun]
      generalize run .new (adds n) = r at hcount hdefault hnames
      have hnew : ∀ e ∈ r.entries, e.uuid ≠ toString n ∧ e.alias_ ≠ toString n := by
        intro e he
        obtain ⟨i, hi, huuid, halias⟩ := hnames e he
        rw [huuid, halias]
        have hne : toString i ≠ toString n := fun habs => Nat.ne_of_lt hi (toString_injective habs)
        exact ⟨hne, hne⟩
      have huuid : r.findUuid (toString n) = none :=
        List.find?_eq_none.mpr fun e he habs => (hnew e he).1 (beq_iff_eq.mp habs)
      have halias : r.findAlias (toString n) = none :=
        List.find?_eq_none.mpr fun e he habs => (hnew e he).2 (beq_iff_eq.mp habs)
      have hempty : (toString n == "") = false := beq_eq_false_iff_ne.mpr (toString_ne_empty n)
      have hroom : decide (maxRigs ≤ r.count) = false := by
        rw [decide_eq_false_iff_not, hcount]
        exact Nat.not_le_of_lt hn
      simp only [step, add, huuid, halias, hempty, hroom, Option.isSome_none, Bool.or_self, Bool.not_true,
        Bool.false_eq_true, if_false]
      refine ⟨congrArg (· + 1) hcount, hdefault, fun e he => ?_⟩
      rcases List.mem_cons.mp he with rfl | he
      · exact ⟨n, Nat.lt_succ_self n, rfl, rfl⟩
      · obtain ⟨i, hi, hnames⟩ := hnames e he
        exact ⟨i, Nat.lt_succ_of_lt hi, hnames⟩

/-- In a full registry without a default zero is an index. -/
theorem exists_zero_of_full (h : Orderly r) (hcount : r.count = maxRigs) :
    (setDefault r none).1 = false ∧ ∃ e ∈ (setDefault r none).2.entries, e.mediaIndex = 0 := by
  have hok : (setDefault r none).1 = false := by
    rcases setDefault_cases r none with heq | ⟨-, heq⟩
    · unfold setDefault at heq ⊢
      rw [Option.any_none, if_neg Bool.false_ne_true]
    · rw [heq]
  exact ⟨hok, ((default_zero h hok).2.2 rfl).mpr (h.counted.symm.trans hcount)⟩

/-- Where 255 rigs are registered and the default is cleared, zero is the index of a rig that is
not the default. -/
theorem zero_without_default :
    ¬ ∀ (events : List Event) (radio : Option Nat), (setDefault (run .new events) radio).1 = false →
      ∀ e ∈ (setDefault (run .new events) radio).2.entries, e.mediaIndex = 0 ↔ some e.radio = radio := by
  intro hclaim
  obtain ⟨hcount, -, -⟩ := run_adds (Nat.le_refl maxRigs)
  obtain ⟨hok, e, he, hzero⟩ := exists_zero_of_full (orderly_new.run (adds maxRigs)) hcount
  exact absurd ((hclaim (adds maxRigs) none hok e he).mp hzero) (Option.some_ne_none _)

end RigRegistry

end RustyRig
