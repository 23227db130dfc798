/-
The registry of slices over whole runs.

`Sound` says that no two slices have one address or one name, that each has a subscriber, and that
the counter is right: it cannot wrap, since there are no more slices than addresses.  Every call
is one of those of `step_cases`, so that a slice has as many subscribers as calls that were given
it and have not given it back.
-/
import RustyRig.Lib.Along
import RustyRig.Proofs.RxSlice.Names
import Mathlib.Data.Finset.Card
import Mathlib.Order.Interval.Finset.Nat

namespace RustyRig

namespace RxSlice

variable {r r' : Slices} {spec : Spec} {a b : UInt64} {id : List Char} {s : Slice} {e : Event}
  {outcome : Outcome} {l : List Slice}

/-! ### The list -/

/-- The slice at an address. -/
def at? (l : List Slice) (a : UInt64) : Option Slice := l.find? (·.address == a)

/-- How many have the slice at an address. -/
def held (l : List Slice) (a : UInt64) : Nat := ((at? l a).map (·.subscribers.toNat)).getD 0

theorem address_of_at (h : at? l a = some s) : s ∈ l ∧ s.address = a := by
  unfold at? at h
  have haddress := List.find?_some h
  exact ⟨List.mem_of_find?_eq_some h, beq_iff_eq.mp haddress⟩

theorem at_of_mem (hnodup : (l.map (·.address)).Nodup) (hs : s ∈ l) : at? l s.address = some s := by
  cases hfind : at? l s.address with
  | none =>
      have hnone := List.find?_eq_none.mp hfind s hs
      rw [beq_self_eq_true] at hnone
      exact absurd rfl hnone
  | some s' =>
      obtain ⟨hs', haddress⟩ := address_of_at hfind
      rw [List.inj_on_of_nodup_map hnodup hs' hs haddress]

theorem at_eq_none : at? l a = none ↔ a ∉ l.map (·.address) := by
  unfold at?
  rw [List.find?_eq_none]
  constructor
  · intro h hmem
    obtain ⟨s, hs, rfl⟩ := List.mem_map.mp hmem
    exact h s hs (beq_self_eq_true _)
  · intro h s hs haddress
    exact h (List.mem_map.mpr ⟨s, hs, beq_iff_eq.mp haddress⟩)

/-- A change that leaves the address alone. -/
theorem at_atAddress {f : Slice → Slice} (hf : ∀ s, (f s).address = s.address) :
    at? (atAddress a f l) b = (at? l b).map fun s => if s.address = a then f s else s := by
  unfold at? atAddress
  rw [List.find?_map]
  refine congrArg (Option.map _) (congrArg (fun p => l.find? p) (funext fun s => ?_))
  rw [Function.comp_apply]
  split
  · rw [hf]
  · rfl

theorem id_atAddress {f : Slice → Slice} (hf : ∀ s, (f s).address = s.address) (hid : ∀ s, (f s).id = s.id)
    (hat : at? l b = some s) : ∃ s', at? (atAddress a f l) b = some s' ∧ s'.id = s.id := by
  rw [at_atAddress hf, hat]
  refine ⟨_, rfl, ?_⟩
  dsimp only
  split
  · exact hid s
  · rfl

theorem map_atAddress {β : Type} {g : Slice → β} {f : Slice → Slice} (hf : ∀ s, g (f s) = g s) :
    (atAddress a f l).map g = l.map g := by
  unfold atAddress
  rw [List.map_map]
  refine List.map_congr_left fun s _ => ?_
  rw [Function.comp_apply]
  split
  · exact hf s
  · rfl

theorem at_eraseP (hnodup : (l.map (·.address)).Nodup) :
    at? (l.eraseP (·.address == a)) b = if b = a then none else at? l b := by
  induction l with
  | nil =>
      split
      · rfl
      · rfl
  | cons s l ih =>
      rw [List.map_cons, List.nodup_cons] at hnodup
      by_cases hs : s.address = a
      · rw [List.eraseP_cons_of_pos (by rw [hs]; exact beq_self_eq_true a)]
        split
        · rename_i hb
          rw [at_eq_none, hb, ← hs]
          exact hnodup.1
        · rename_i hb
          unfold at?
          rw [List.find?_cons_of_neg]
          rw [beq_iff_eq, hs]
          exact fun habs => hb habs.symm
      · rw [List.eraseP_cons_of_neg (by rw [beq_iff_eq]; exact hs)]
        by_cases hb : s.address = b
        · have hne : b ≠ a := fun habs => hs (hb.trans habs)
          unfold at?
          rw [if_neg hne, List.find?_cons_of_pos (by rw [hb]; exact beq_self_eq_true b),
            List.find?_cons_of_pos (by rw [hb]; exact beq_self_eq_true b)]
        · have htail := ih hnodup.2
          unfold at? at htail ⊢
          rw [List.find?_cons_of_neg (by rw [beq_iff_eq]; exact hb), htail,
            List.find?_cons_of_neg (by rw [beq_iff_eq]; exact hb)]

/-! ### The invariant -/

/-- The registry in order. -/
structure Sound (r : Slices) : Prop where
  addresses : (r.entries.map (·.address)).Nodup
  nonzero : ∀ s ∈ r.entries, s.address ≠ 0
  ids : (r.entries.map (·.id)).Nodup
  subscribed : ∀ s ∈ r.entries, s.subscribers ≠ 0
  counted : r.count.toNat = r.entries.length

/-- There are not as many slices as numbers that a pointer or the counter can hold. -/
theorem length_lt (hnodup : (l.map (·.address)).Nodup) (hnonzero : ∀ s ∈ l, s.address ≠ 0) :
    l.length < 2 ^ 64 := by
  have hnumbers : (l.map (·.address.toNat)).Nodup := by
    have hinj := hnodup.map (f := UInt64.toNat) fun _ _ h => UInt64.toNat_inj.mp h
    rwa [List.map_map] at hinj
  have hsubset : (l.map (·.address.toNat)).toFinset ⊆ Finset.Ioo 0 (2 ^ 64) := by
    intro n hn
    obtain ⟨s, hs, rfl⟩ := List.mem_map.mp (List.mem_toFinset.mp hn)
    rw [Finset.mem_Ioo]
    refine ⟨Nat.pos_of_ne_zero fun hzero => hnonzero s hs ?_, s.address.toNat_lt⟩
    exact UInt64.toNat_inj.mp hzero
  have hcard := Finset.card_le_card hsubset
  rw [List.toFinset_card_of_nodup hnumbers, List.length_map, Nat.card_Ioo] at hcard
  omega

/-! ### One call -/

/-- What a call does to the registry, and what it says about it. -/
inductive Change (r : Slices) : Event → Outcome → Slices → Prop
  | refused (spec : Spec) (calloc : Calloc)
      (hfull : ∀ s ∈ r.entries, sliceName spec nameMax = some s.id → s.subscribers = 4294967295) :
      Change r (.acquire spec calloc) .refused r
  | unknown (slice : UInt64) (hs : slice = 0 ∨ at? r.entries slice = none) :
      Change r (.release slice) .refused r
  | shared (spec : Spec) (calloc : Calloc) (s : Slice) (hs : s ∈ r.entries)
      (hname : sliceName spec nameMax = some s.id) (hmax : s.subscribers ≠ 4294967295) :
      Change r (.acquire spec calloc) (.acquired s.address) { r with
        entries := atAddress s.address (fun s => { s with subscribers := s.subscribers + 1 }) r.entries }
  | opened (spec : Spec) (calloc : Calloc) (a : UInt64) (id : List Char) (hzero : a ≠ 0)
      (hfresh : a ∉ r.entries.map (·.address)) (hname : sliceName spec nameMax = some id)
      (hid : id ∉ r.entries.map (·.id)) :
      Change r (.acquire spec calloc) (.acquired a) ⟨⟨a, id, 1⟩ :: r.entries, r.count + 1⟩
  | dropped (s : Slice) (hs : at? r.entries s.address = some s) (hone : s.subscribers - 1 ≠ 0) :
      Change r (.release s.address) (.released s.address) { r with
        entries := atAddress s.address (fun x => { x with subscribers := s.subscribers - 1 }) r.entries }
  | closed (s : Slice) (hs : at? r.entries s.address = some s) (hone : s.subscribers - 1 = 0) :
      Change r (.release s.address) (.released s.address)
        ⟨r.entries.eraseP (·.address == s.address), r.count - 1⟩

theorem step_cases (h : Sound r) (e : Event) : Change r e (step r e).1 (step r e).2 := by
  cases e with
  | acquire spec calloc =>
      cases hname : sliceName spec nameMax with
      | none =>
          have hstep : step r (.acquire spec calloc) = (.refused, r) := by
            simp only [step, acquire, hname]
          rw [hstep]
          exact .refused spec calloc fun s _ habs => absurd (hname.symm.trans habs) (Option.some_ne_none _).symm
      | some id =>
          cases hfind : r.entries.find? (·.id == id) with
          | some s =>
              have hs := List.mem_of_find?_eq_some hfind
              have hfound := List.find?_some hfind
              have hid : s.id = id := beq_iff_eq.mp hfound
              by_cases hmax : s.subscribers = 4294967295
              · have hstep : step r (.acquire spec calloc) = (.refused, r) := by
                  simp only [step, acquire, hname, hfind]
                  rw [if_pos hmax]
                rw [hstep]
                refine .refused spec calloc fun x hx hxname => ?_
                have hxid : x.id = s.id := (Option.some.inj (hxname.symm.trans hname)).trans hid.symm
                rw [List.inj_on_of_nodup_map h.ids hx hs hxid]
                exact hmax
              · have hstep : step r (.acquire spec calloc) = (.acquired s.address, { r with
                    entries := atAddress s.address (fun s => { s with subscribers := s.subscribers + 1 })
                      r.entries }) := by
                  simp only [step, acquire, hname, hfind]
                  rw [if_neg hmax]
                rw [hstep]
                exact .shared spec calloc s hs (by rw [hname, hid]) hmax
          | none =>
              have hfree : id ∉ r.entries.map (·.id) := by
                intro hmem
                obtain ⟨s, hs, heq⟩ := List.mem_map.mp hmem
                exact List.find?_eq_none.mp hfind s hs (beq_iff_eq.mpr heq)
              cases halloc : calloc (r.entries.map (·.address)) with
              | none =>
                  have hstep : step r (.acquire spec calloc) = (.refused, r) := by
                    simp only [step, acquire, hname, hfind, halloc]
                  rw [hstep]
                  refine .refused spec calloc fun s hs hsname => absurd (List.mem_map_of_mem (f := (·.id)) hs) ?_
                  rw [Option.some.inj (hsname.symm.trans hname)]
                  exact hfree
              | some a =>
                  have hstep : step r (.acquire spec calloc) =
                      (.acquired a.val, ⟨⟨a.val, id, 1⟩ :: r.entries, r.count + 1⟩) := by
                    simp only [step, acquire, hname, hfind, halloc]
                  rw [hstep]
                  exact .opened spec calloc a.val id a.property.1 a.property.2 hname hfree
  | release slice =>
      by_cases hzero : slice = 0
      · have hstep : step r (.release slice) = (.refused, r) := by
          simp only [step, release, hzero, if_true]
        rw [hstep]
        exact .unknown slice (Or.inl hzero)
      cases hfind : at? r.entries slice with
      | none =>
          have hstep : step r (.release slice) = (.refused, r) := by
            have hnone := hfind
            unfold at? at hnone
            simp only [step, release, hzero, if_false, hnone]
          rw [hstep]
          exact .unknown slice (Or.inr hfind)
      | some s =>
          obtain ⟨-, rfl⟩ := address_of_at hfind
          have hat := hfind
          unfold at? at hfind
          by_cases hone : s.subscribers - 1 = 0
          · have hstep : step r (.release s.address) = (.released s.address,
                ⟨r.entries.eraseP (·.address == s.address), r.count - 1⟩) := by
              simp only [step, release, hzero, if_false, hfind, hone, ne_eq, not_true]
            rw [hstep]
            exact .closed s hat hone
          · have hstep : step r (.release s.address) = (.released s.address, { r with
                entries := atAddress s.address (fun x => { x with subscribers := s.subscribers - 1 })
                  r.entries }) := by
              simp only [step, release, hzero, if_false, hfind, hone, ne_eq, not_false_iff, if_true]
            rw [hstep]
            exact .dropped s hat hone

theorem mem_atAddress {f : Slice → Slice} (h : s ∈ atAddress a f l) :
    s ∈ l ∨ ∃ s₀ ∈ l, s₀.address = a ∧ s = f s₀ := by
  obtain ⟨s₀, hs₀, rfl⟩ := List.mem_map.mp h
  split
  · rename_i haddress
    exact Or.inr ⟨s₀, hs₀, haddress, rfl⟩
  · exact Or.inl hs₀

/-- Another number of subscribers. -/
theorem Sound.recount (h : Sound r) {f : Slice → Slice} (haddress : ∀ s, (f s).address = s.address)
    (hid : ∀ s, (f s).id = s.id) (hsub : ∀ s ∈ r.entries, s.address = a → (f s).subscribers ≠ 0) :
    Sound { r with entries := atAddress a f r.entries } where
  addresses := by
    rw [map_atAddress haddress]
    exact h.addresses
  nonzero := by
    intro s hs
    rcases mem_atAddress hs with hs | ⟨s₀, hs₀, -, rfl⟩
    · exact h.nonzero s hs
    · rw [haddress]
      exact h.nonzero s₀ hs₀
  ids := by
    rw [map_atAddress hid]
    exact h.ids
  subscribed := by
    intro s hs
    rcases mem_atAddress hs with hs | ⟨s₀, hs₀, ha, rfl⟩
    · exact h.subscribed s hs
    · exact hsub s₀ hs₀ ha
  counted := by
    rw [atAddress, List.length_map]
    exact h.counted

theorem Sound.change (h : Sound r) (hc : Change r e outcome r') : Sound r' := by
  cases hc with
  | refused => exact h
  | unknown => exact h
  | shared spec calloc s hs hname hmax =>
      refine h.recount (fun _ => rfl) (fun _ => rfl) fun x hx hxa => ?_
      rw [List.inj_on_of_nodup_map h.addresses hx hs hxa]
      intro hzero
      refine hmax ?_
      have hval := congrArg UInt32.toNat hzero
      have hlt := s.subscribers.toNat_lt
      rw [UInt32.toNat_add] at hval
      have hone : (1 : UInt32).toNat = 1 := rfl
      have hnone : (0 : UInt32).toNat = 0 := rfl
      have hlast : (4294967295 : UInt32).toNat = 4294967295 := rfl
      rw [hone, hnone] at hval
      refine UInt32.toNat_inj.mp ?_
      rw [hlast]
      omega
  | opened spec calloc a id hzero hfresh hname hid =>
      have haddresses : ((⟨a, id, 1⟩ :: r.entries : List Slice).map (·.address)).Nodup :=
        List.nodup_cons.mpr ⟨hfresh, h.addresses⟩
      have hnonzero : ∀ s ∈ (⟨a, id, 1⟩ :: r.entries : List Slice), s.address ≠ 0 := by
        intro s hs
        rcases List.mem_cons.mp hs with rfl | hs
        · exact hzero
        · exact h.nonzero s hs
      refine ⟨haddresses, hnonzero, List.nodup_cons.mpr ⟨hid, h.ids⟩, fun s hs => ?_, ?_⟩
      · rcases List.mem_cons.mp hs with rfl | hs
        · exact (by decide : (1 : UInt32) ≠ 0)
        · exact h.subscribed s hs
      · have hlength := length_lt haddresses hnonzero
        have hcounted := h.counted
        have hone : (1 : UInt64).toNat = 1 := rfl
        rw [List.length_cons] at hlength ⊢
        show (r.count + 1).toNat = _
        rw [UInt64.toNat_add, hone, hcounted, Nat.mod_eq_of_lt hlength]
  | dropped s hs hone =>
      exact h.recount (fun _ => rfl) (fun _ => rfl) fun _ _ _ => hone
  | closed s hs hone =>
      obtain ⟨hmem, -⟩ := address_of_at hs
      have hsub : (r.entries.eraseP (·.address == s.address)).Sublist r.entries := List.eraseP_sublist
      refine ⟨h.addresses.sublist (hsub.map _), fun x hx => h.nonzero x (hsub.subset hx),
        h.ids.sublist (hsub.map _), fun x hx => h.subscribed x (hsub.subset hx), ?_⟩
      have hlength := List.length_eraseP_of_mem hmem
        (p := fun x => x.address == s.address) (beq_self_eq_true s.address)
      have hpos := List.length_pos_of_mem hmem
      have hcounted := h.counted
      have hone : (1 : UInt64).toNat = 1 := rfl
      have hle : (1 : UInt64) ≤ r.count := by
        show (1 : UInt64).toNat ≤ r.count.toNat
        omega
      show (r.count - 1).toNat = (r.entries.eraseP (·.address == s.address)).length
      rw [UInt64.toNat_sub_of_le _ _ hle, hone, hcounted, hlength]

/-! ### Subscribers -/

theorem held_atAddress {f : Slice → Slice} (hf : ∀ s, (f s).address = s.address) :
    held (atAddress a f l) b = if b = a then ((at? l b).map fun s => (f s).subscribers.toNat).getD 0
      else held l b := by
  unfold held
  rw [at_atAddress hf, Option.map_map]
  cases hat : at? l b with
  | none =>
      split
      · rfl
      · rfl
  | some s =>
      obtain ⟨-, rfl⟩ := address_of_at hat
      split
      · rename_i heq
        simp only [Option.map_some, Function.comp_apply, if_pos heq]
      · rename_i hne
        simp only [Option.map_some, Function.comp_apply, if_neg hne]

theorem held_of_at (h : at? l a = some s) : held l a = s.subscribers.toNat := by
  unfold held
  rw [h]
  rfl

/-- Who is given a slice holds it once more, who gives it back once less. -/
theorem held_change (h : Sound r) (hc : Change r e outcome r') (a : UInt64) :
    held r.entries a + (if outcome = .acquired a then 1 else 0) =
      held r'.entries a + (if outcome = .released a then 1 else 0) := by
  cases hc with
  | refused => simp
  | unknown => simp
  | shared spec calloc s hs hname hmax =>
      have hat := at_of_mem h.addresses hs
      have hheld := held_atAddress (a := s.address) (b := a) (l := r.entries)
        (f := fun s => { s with subscribers := s.subscribers + 1 }) fun _ => rfl
      rw [hheld, if_neg (Outcome.noConfusion : Outcome.acquired _ ≠ .released a)]
      by_cases ha : a = s.address
      · rw [ha, if_pos rfl, if_pos rfl, hat, held_of_at hat]
        have hlast : s.subscribers.toNat ≠ 4294967295 := fun hval => hmax (UInt32.toNat_inj.mp hval)
        have hlt := s.subscribers.toNat_lt
        have hone : (1 : UInt32).toNat = 1 := rfl
        show s.subscribers.toNat + 1 = (s.subscribers + 1).toNat + 0
        rw [UInt32.toNat_add, hone]
        omega
      · have hne : Outcome.acquired s.address ≠ .acquired a := fun heq => ha (Outcome.acquired.inj heq).symm
        rw [if_neg ha, if_neg hne]
  | opened spec calloc x id hzero hfresh hname hid =>
      rw [if_neg (Outcome.noConfusion : Outcome.acquired x ≠ .released a)]
      by_cases ha : x = a
      · have hnone := at_eq_none.mpr (ha ▸ hfresh)
        have hnew : at? ((⟨x, id, 1⟩ : Slice) :: r.entries) a = some ⟨x, id, 1⟩ :=
          List.find?_cons_of_pos (beq_iff_eq.mpr ha)
        rw [if_pos (congrArg Outcome.acquired ha), held_of_at hnew]
        unfold held
        rw [hnone]
        rfl
      · have hne : Outcome.acquired x ≠ .acquired a := fun heq => ha (Outcome.acquired.inj heq)
        have hold : at? ((⟨x, id, 1⟩ : Slice) :: r.entries) a = at? r.entries a :=
          List.find?_cons_of_neg (fun heq => ha (beq_iff_eq.mp heq))
        rw [if_neg hne]
        unfold held
        rw [hold]
  | dropped s hs hone =>
      have hheld := held_atAddress (a := s.address) (b := a) (l := r.entries)
        (f := fun x => { x with subscribers := s.subscribers - 1 }) fun _ => rfl
      rw [hheld, if_neg (Outcome.noConfusion : Outcome.released _ ≠ .acquired a)]
      by_cases ha : a = s.address
      · rw [ha, if_pos rfl, if_pos rfl, hs, held_of_at hs]
        have hpos := h.subscribed s (address_of_at hs).1
        have hle : (1 : UInt32) ≤ s.subscribers := by
          have hne : s.subscribers.toNat ≠ 0 := fun hval => hpos (UInt32.toNat_inj.mp hval)
          exact Nat.one_le_iff_ne_zero.mpr hne
        have hle' : 1 ≤ s.subscribers.toNat := hle
        have hunit : (1 : UInt32).toNat = 1 := rfl
        show s.subscribers.toNat + 0 = (s.subscribers - 1).toNat + 1
        rw [UInt32.toNat_sub_of_le _ _ hle, hunit]
        omega
      · have hne : Outcome.released s.address ≠ .released a := fun heq => ha (Outcome.released.inj heq).symm
        rw [if_neg ha, if_neg hne]
  | closed s hs hone =>
      rw [if_neg (Outcome.noConfusion : Outcome.released _ ≠ .acquired a)]
      by_cases ha : a = s.address
      · have hgone : at? (r.entries.eraseP (·.address == s.address)) a = none := by
          rw [at_eraseP h.addresses, if_pos ha]
        have hunit : s.subscribers = 1 := by
          have hsum := UInt32.sub_add_cancel s.subscribers 1
          rw [hone] at hsum
          exact hsum.symm
        rw [ha] at hgone
        rw [ha, if_pos rfl, held_of_at hs, hunit]
        unfold held
        rw [hgone]
        rfl
      · have hne : Outcome.released s.address ≠ .released a := fun heq => ha (Outcome.released.inj heq).symm
        have hstays : at? (r.entries.eraseP (·.address == s.address)) a = at? r.entries a := by
          rw [at_eraseP h.addresses, if_neg ha]
        rw [if_neg hne]
        unfold held
        rw [hstays]

/-- A slice is gone after its last release, and keeps its name until then. -/
theorem at_change (h : Sound r) (hc : Change r e outcome r') (hat : at? r.entries a = some s) :
    (at? r'.entries a = none ∧ e = .release a ∧ s.subscribers = 1) ∨
      (∃ s', at? r'.entries a = some s' ∧ s'.id = s.id) ∧ ¬ (e = .release a ∧ s.subscribers = 1) := by
  cases hc with
  | refused spec calloc =>
      exact Or.inr ⟨⟨s, hat, rfl⟩, fun habs => Event.noConfusion habs.1⟩
  | unknown slice hs =>
      refine Or.inr ⟨⟨s, hat, rfl⟩, fun habs => ?_⟩
      obtain rfl := Event.release.inj habs.1
      obtain ⟨hmem, haddress⟩ := address_of_at hat
      rcases hs with hzero | hnone
      · exact h.nonzero s hmem (haddress.trans hzero)
      · exact absurd (hnone.symm.trans hat) (Option.some_ne_none s).symm
  | shared spec calloc x hx hname hmax =>
      refine Or.inr ⟨?_, fun habs => Event.noConfusion habs.1⟩
      exact id_atAddress (fun _ => rfl) (fun _ => rfl) hat
  | opened spec calloc x id hzero hfresh hname hid =>
      refine Or.inr ⟨⟨s, ?_, rfl⟩, fun habs => Event.noConfusion habs.1⟩
      refine (List.find?_cons_of_neg fun heq => ?_).trans hat
      obtain ⟨hmem, haddress⟩ := address_of_at hat
      exact hfresh (List.mem_map.mpr ⟨s, hmem, haddress.trans (beq_iff_eq.mp heq).symm⟩)
  | dropped x hx hone =>
      refine Or.inr ⟨?_, fun habs => ?_⟩
      · exact id_atAddress (fun _ => rfl) (fun _ => rfl) hat
      · have haddress := Event.release.inj habs.1
        rw [haddress, hat] at hx
        rw [← Option.some.inj hx, habs.2] at hone
        exact hone rfl
  | closed x hx hone =>
      by_cases ha : a = x.address
      · refine Or.inl ⟨by rw [at_eraseP h.addresses, if_pos ha], by rw [ha], ?_⟩
        rw [ha, hx] at hat
        have hsum := UInt32.sub_add_cancel x.subscribers 1
        rw [hone] at hsum
        rw [← Option.some.inj hat]
        exact hsum.symm
      · refine Or.inr ⟨⟨s, by rw [at_eraseP h.addresses, if_neg ha]; exact hat, rfl⟩, fun habs => ?_⟩
        exact ha (Event.release.inj habs.1).symm

/-! ### Runs -/

theorem sound_new : Sound .new where
  addresses := List.nodup_nil
  nonzero _ h := absurd h List.not_mem_nil
  ids := List.nodup_nil
  subscribed _ h := absurd h List.not_mem_nil
  counted := rfl

theorem run_snd (r : Slices) (events : List Event) :
    (run r events).2 = events.foldl (fun r e => (step r e).2) r := by
  induction events generalizing r with
  | nil => rfl
  | cons e events ih =>
      unfold run
      rw [List.foldl_cons]
      exact ih _

theorem Sound.run (h : Sound r) (events : List Event) : Sound (run r events).2 := by
  induction events generalizing r with
  | nil => exact h
  | cons e events ih => exact ih (h.change (step_cases h e))

/-- What was given out and not given back is held. -/
theorem held_run (h : Sound r) (events : List Event) (a : UInt64) :
    held r.entries a + (run r events).1.count (.acquired a) =
      held (run r events).2.entries a + (run r events).1.count (.released a) := by
  induction events generalizing r with
  | nil => rfl
  | cons e events ih =>
      have hchange := step_cases h e
      have hstep := held_change h hchange a
      have hrest := ih (h.change hchange)
      unfold RxSlice.run
      dsimp only
      rw [List.count_cons, List.count_cons]
      simp only [beq_iff_eq]
      omega

/-- The slice at the address stays throughout. -/
def Stays (a : UInt64) (r : Slices) (events : List Event) : Prop :=
  Lib.Along (fun r e => (step r e).2) (fun r e => a ∈ (step r e).2.entries.map (·.address)) r events

/-- A slice that stays keeps its name. -/
theorem id_of_stays {events : List Event} (hstays : Stays a r events) (h : Sound r)
    (hat : at? r.entries a = some s) : ∃ s', at? (RxSlice.run r events).2.entries a = some s' ∧ s'.id = s.id := by
  rw [run_snd]
  refine (Lib.Along.invariant (P := fun r => Sound r ∧ ∃ s', at? r.entries a = some s' ∧ s'.id = s.id) hstays
    ⟨h, s, hat, rfl⟩ ?_).2
  intro r e hr hmem
  obtain ⟨h, s₁, hat, hid⟩ := hr
  have hchange := step_cases h e
  refine ⟨h.change hchange, ?_⟩
  rcases at_change h hchange hat with ⟨hgone, -⟩ | ⟨⟨s₂, hat', hid'⟩, -⟩
  · exact absurd hmem (at_eq_none.mp hgone)
  · exact ⟨s₂, hat', hid'.trans hid⟩

/-- Who is given a slice is given the one of the name. -/
theorem acquired_name (h : Sound r) {calloc : Calloc} (ha : (step r (.acquire spec calloc)).1 = .acquired a) :
    ∃ s, at? (step r (.acquire spec calloc)).2.entries a = some s ∧ sliceName spec nameMax = some s.id := by
  have hchange := step_cases h (.acquire spec calloc)
  generalize step r (.acquire spec calloc) = out at ha hchange
  obtain ⟨outcome, r'⟩ := out
  subst ha
  cases hchange with
  | shared _ _ s hs hname hmax =>
      obtain ⟨s', hat, hid⟩ := id_atAddress (a := s.address)
        (f := fun s => { s with subscribers := s.subscribers + 1 }) (fun _ => rfl) (fun _ => rfl)
        (at_of_mem h.addresses hs)
      exact ⟨s', hat, hname.trans (congrArg some hid.symm)⟩
  | opened _ _ _ id hzero hfresh hname hid =>
      exact ⟨⟨a, id, 1⟩, List.find?_cons_of_pos (beq_self_eq_true a), hname⟩

/-- Where the name is taken, its slice is the only one to be given. -/
theorem acquired_of_name (h : Sound r) (hs : s ∈ r.entries) (hname : sliceName spec nameMax = some s.id)
    (calloc : Calloc) : (step r (.acquire spec calloc)).1 =
      if s.subscribers = 4294967295 then .refused else .acquired s.address := by
  have hchange := step_cases h (.acquire spec calloc)
  generalize step r (.acquire spec calloc) = out at hchange
  obtain ⟨outcome, r'⟩ := out
  cases hchange with
  | refused _ _ hfull => rw [if_pos (hfull s hs hname)]
  | shared _ _ x hx hxname hmax =>
      have hsame : x = s := List.inj_on_of_nodup_map h.ids hx hs (Option.some.inj (hxname.symm.trans hname))
      rw [hsame] at hmax ⊢
      rw [if_neg hmax]
  | opened _ _ x id hzero hfresh hxname hid =>
      refine absurd (List.mem_map_of_mem (f := (·.id)) hs) ?_
      rw [← Option.some.inj (hxname.symm.trans hname)]
      exact hid

/-- **The registry of slices.**  After any calls the names and the addresses are distinct and the
counter is the length of the list; a slice has as many subscribers as were given it and have not
given it back, and one at least; equal specifications are given one slice for as long as it stays;
and it is removed by its last release. -/
theorem slice_registry (events : List Event) :
    let outcomes := (run .new events).1
    let r := (run .new events).2
    ((r.entries.map (·.id)).Nodup ∧ (r.entries.map (·.address)).Nodup) ∧
    (r.count.toNat = r.entries.length ∧ r.entries.length < 2 ^ 64) ∧
    (∀ s ∈ r.entries, 0 < s.subscribers.toNat ∧
      outcomes.count (.acquired s.address) = s.subscribers.toNat + outcomes.count (.released s.address)) ∧
    (∀ a, a ∉ r.entries.map (·.address) → outcomes.count (.acquired a) = outcomes.count (.released a)) ∧
    (∀ spec calloc a, (step r (.acquire spec calloc)).1 = .acquired a → ∀ later,
      Stays a (step r (.acquire spec calloc)).2 later → ∀ calloc' b,
        (step (run (step r (.acquire spec calloc)).2 later).2 (.acquire spec calloc')).1 = .acquired b →
          b = a) ∧
    (∀ spec s, s ∈ r.entries → sliceName spec nameMax = some s.id → ∀ calloc,
      (step r (.acquire spec calloc)).1 =
        if s.subscribers = 4294967295 then .refused else .acquired s.address) ∧
    ∀ e, ∀ s ∈ r.entries, s.address ∉ (step r e).2.entries.map (·.address) ↔
      e = .release s.address ∧ s.subscribers = 1 := by
  intro outcomes r
  have h : Sound r := sound_new.run events
  have hheld : ∀ a, outcomes.count (.acquired a) = held r.entries a + outcomes.count (.released a) := by
    intro a
    have hrun := held_run sound_new events a
    have hnew : held Slices.new.entries a = 0 := rfl
    rw [hnew, Nat.zero_add] at hrun
    exact hrun
  refine ⟨⟨h.ids, h.addresses⟩, ⟨h.counted, length_lt h.addresses h.nonzero⟩, fun s hs => ⟨?_, ?_⟩,
    fun a ha => ?_, fun spec calloc a ha later hstays calloc' b hb => ?_, fun spec s hs hname calloc =>
      acquired_of_name h hs hname calloc, fun e s hs => ?_⟩
  · exact Nat.pos_of_ne_zero fun hzero => h.subscribed s hs (UInt32.toNat_inj.mp hzero)
  · rw [hheld, held_of_at (at_of_mem h.addresses hs)]
  · rw [hheld]
    unfold held
    rw [at_eq_none.mpr ha]
    exact Nat.zero_add _
  · obtain ⟨s, hat, hname⟩ := acquired_name h ha
    have h₁ : Sound (step r (.acquire spec calloc)).2 := h.change (step_cases h _)
    obtain ⟨s', hat', hid⟩ := id_of_stays hstays h₁ hat
    obtain ⟨hs', rfl⟩ := address_of_at hat'
    rw [acquired_of_name (h₁.run later) hs' (hid ▸ hname)] at hb
    split at hb
    · exact Outcome.noConfusion hb
    · exact (Outcome.acquired.inj hb).symm
  · have hat := at_of_mem h.addresses hs
    rcases at_change h (step_cases h e) hat with ⟨hgone, hlast⟩ | ⟨⟨s', hat', -⟩, hnot⟩
    · exact ⟨fun _ => hlast, fun _ => at_eq_none.mp hgone⟩
    · refine ⟨fun habs => ?_, fun habs => absurd habs hnot⟩
      rw [← at_eq_none, hat'] at habs
      exact absurd habs (Option.some_ne_none s')

end RxSlice

end RustyRig
