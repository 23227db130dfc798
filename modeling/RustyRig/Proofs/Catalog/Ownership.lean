/-
Whose the entries are.

`Orderly` is what every event keeps: no two entries under one name, keys of the three kinds,
owners that are servers, and a count that is the number of entries.  Beside it goes what an
event does to an entry that stays: its owner stays, unless a room's claim displaces another.
Everything but a put either changes entries in their places, keeping key and owner
(`Recast`), or deletes some.
-/
import RustyRig.Proofs.Catalog.Keys

namespace RustyRig

namespace Catalog

open Lib (Apart)

variable {api : Api} {s : Store} {key k : String} {l l' : List CatalogEntry}

/-- The catalog in order. -/
structure Orderly (api : Api) (s : Store) : Prop where
  /-- No two entries answer to one name. -/
  apart : Apart CatalogEntry.answers s.entries
  /-- Every key is of one of the three kinds. -/
  keyed : ∀ c ∈ s.entries, c.Keyed api
  /-- Every owner is a server. -/
  owned : ∀ c ∈ s.entries, api.uuid.valid c.owner = true
  /-- The count is the number of entries. -/
  counted : s.count = s.entries.length
  /-- And within the limit. -/
  bounded : s.count ≤ maxCatalog

theorem Orderly.start (api : Api) (ids : Identity.Receiver) : Orderly api (Store.start ids) where
  apart := Apart.nil
  keyed _ h := absurd h List.not_mem_nil
  owned _ h := absurd h List.not_mem_nil
  counted := rfl
  bounded := Nat.zero_le _

/-! ### Entries that keep key and owner -/

/-- The same entry with another descriptor or mark. -/
def Recast (a b : CatalogEntry) : Prop := b.key = a.key ∧ b.owner = a.owner

theorem Recast.refl (a : CatalogEntry) : Recast a a := ⟨rfl, rfl⟩

theorem Recast.answers {a b : CatalogEntry} (h : Recast a b) (k : String) :
    b.answers k = a.answers k := by
  unfold CatalogEntry.answers
  rw [h.1]

/-- Every entry that is found is found again, with its owner. -/
def Kept (l l' : List CatalogEntry) : Prop :=
  ∀ k e, findCatalog l k = some e → ∃ e', findCatalog l' k = some e' ∧ e'.owner = e.owner

theorem Kept.refl (l : List CatalogEntry) : Kept l l := fun _ e h => ⟨e, h, rfl⟩

theorem Kept.trans {l'' : List CatalogEntry} (h : Kept l l') (h' : Kept l' l'') : Kept l l'' := by
  intro k e he
  obtain ⟨e', he', howner⟩ := h k e he
  obtain ⟨e'', he'', howner'⟩ := h' k e' he'
  exact ⟨e'', he'', howner'.trans howner⟩

theorem Kept.recast (hf : List.Forall₂ Recast l l') : Kept l l' := by
  intro k e he
  obtain ⟨e', he', hr⟩ := Lib.find_forall₂ (fun _ _ hr => hr.answers) hf he
  exact ⟨e', he', hr.2⟩

theorem Orderly.recast (ids : Identity.Receiver) (h : Orderly api s)
    (hf : List.Forall₂ Recast s.entries l) : Orderly api ⟨l, s.count, ids⟩ where
  apart := h.apart.forall₂ (fun _ _ hr => hr.answers) hf
  keyed := by
    intro c hc
    obtain ⟨a, ha, hkey, howner⟩ := Lib.exists_of_mem_forall₂ hf hc
    have hkeyed := h.keyed a ha
    unfold CatalogEntry.Keyed at hkeyed ⊢
    rw [hkey, howner]
    exact hkeyed
  owned := by
    intro c hc
    obtain ⟨a, ha, -, howner⟩ := Lib.exists_of_mem_forall₂ hf hc
    rw [howner]
    exact h.owned a ha
  counted := h.counted.trans hf.length_eq
  bounded := h.bounded

/-- A deletion. -/
theorem Orderly.purge {n : Nat} {ids : Identity.Receiver} (h : Orderly api s)
    (hs : l.Sublist s.entries) (hn : n = l.length) : Orderly api ⟨l, n, ids⟩ where
  apart := h.apart.sublist hs
  keyed c hc := h.keyed c (hs.subset hc)
  owned c hc := h.owned c (hs.subset hc)
  counted := hn
  bounded := by
    have hle := hs.length_le
    have hcounted := h.counted
    have hbounded := h.bounded
    show n ≤ maxCatalog
    omega

/-- What is found after a deletion was found before it, and nothing else. -/
theorem owner_of_purge (h : Orderly api s) (hs : l.Sublist s.entries) {e e' : CatalogEntry}
    (he : findCatalog s.entries k = some e) (he' : findCatalog l k = some e') :
    e'.owner = e.owner := by
  have hsame := h.apart.find_of_sublist hs he'
  rw [Option.some.inj (hsame.symm.trans he)]

/-- The count after the entries that pass were counted off. -/
theorem count_purge (h : Orderly api s) (p : CatalogEntry → Bool) :
    s.count - s.entries.countP p = (s.entries.filter fun c => !p c).length := by
  have hsum := List.length_eq_countP_add_countP p (l := s.entries)
  have hfilter : (s.entries.filter fun c => !p c).length =
      s.entries.countP fun c => !p c := (List.countP_eq_length_filter).symm
  have hcounted := h.counted
  simp only [Bool.not_eq_true, Bool.decide_eq_false] at hsum
  omega

/-! ### Puts -/

/-- A claim that displaces the entry `e` of another server. -/
structure Displaces (api : Api) (s : Store) (site : Site) (a : Answers) (owner : String) (d : Dict)
    (e : CatalogEntry) : Prop where
  room : ∃ room, d.get? "catalog.room" = some room ∧ isRoomKey e.key = true ∧
    e.answers (roomKey room) = true ∧ ownsStationRoom s.entries owner room = true ∧
    ownsStationRoom s.entries e.owner room = false ∧ sameName room site.siteRoom = false ∧
    site.roomConfigured room = false
  remote : owner ≠ api.self.id
  withdrawn : e.owner = api.self.id → withdrawn a = true

/-- What an allowed claim is on: a room's entry.  Neither a UUID nor a service key can be
another server's. -/
theorem displaces_of_mayReplace {site : Site} {a : Answers} {owner : Origin api.uuid} {d : Dict}
    {c : CatalogEntry} (h : Orderly api s) (hkey : KeyOf api owner.id d key)
    (hfind : findCatalog s.entries key = some c) (hne : c.owner ≠ owner.id)
    (hmay : mayReplace api site s.entries c.owner owner.id d = true)
    (hlocal : c.owner = api.self.id → withdrawn a = true) :
    Displaces api s site a owner.id d c := by
  have hc := findCatalog_mem hfind
  have hanswers := findCatalog_answers hfind
  obtain ⟨room, hroom, huuid, hself, howns, hholder, hsite, hconfigured⟩ := mayReplace_spec hmay
  cases hkey with
  | service _ hprefix =>
      exact absurd
        (owner_of_service (h.keyed c hc) (h.owned c hc) owner.valid hprefix hanswers) hne
  | uuid hget _ =>
      rw [huuid] at hget
      exact absurd hget (by simp)
  | room hget =>
      obtain rfl := Option.some.inj (hroom.symm.trans hget)
      have hroomKey : isRoomKey c.key = true := by
        rcases answers_iff.mp hanswers with heq | ⟨hk, hs⟩
        · rw [heq]
          exact isRoomKey_roomKey room
        · exact (h.keyed c hc).isRoomKey hk hs
      exact ⟨⟨room, hroom, hroomKey, hanswers, howns, hholder, hsite, hconfigured⟩, hself, hlocal⟩

/-- A put keeps the order, and every entry stays its owner's or is displaced. -/
theorem put_spec (h : Orderly api s) (site : Site) (a : Answers) (collecting : Bool)
    (owner : Origin api.uuid) (d : Dict) :
    Orderly api (catalogPut api site a collecting s owner d).2 ∧
    ∀ k e, findCatalog s.entries k = some e →
      ∃ e', findCatalog (catalogPut api site a collecting s owner d).2.entries k = some e' ∧
        (e'.owner = e.owner ∨ e'.owner = owner.id ∧ Displaces api s site a owner.id d e) := by
  rcases catalogPut_cases api site a collecting s owner d with
    ⟨-, hentries, hcount⟩ | ⟨key, copy, ids, hkey, hnew | ⟨c, hfind, howner, hyes⟩ |
      ⟨c, hfind, hne, hmay, hlocal, hyes⟩⟩
  · refine ⟨⟨?_, ?_, ?_, ?_, ?_⟩, fun k e he => ⟨e, by rw [hentries]; exact he, .inl rfl⟩⟩
    · rw [hentries]
      exact h.apart
    · rw [hentries]
      exact h.keyed
    · rw [hentries]
      exact h.owned
    · rw [hentries, hcount]
      exact h.counted
    · rw [hcount]
      exact h.bounded
  · -- a new entry: what answers to one of its names would have been found under its key
    obtain ⟨hfree, hcount, hyes⟩ := hnew
    have hnone : ∀ k, (⟨owner.id, key, copy, true⟩ : CatalogEntry).answers k = true →
        s.entries.find? (·.answers k) = none := by
      intro k hk
      refine List.find?_eq_none.mpr fun b hb hbk => ?_
      have hbkey := answers_common (hkey.keyed copy true) hk hbk
      exact List.find?_eq_none.mp hfree b hb hbkey
    have hapart := h.apart.cons hnone
    rw [hyes]
    refine ⟨⟨hapart, ?_, ?_, ?_, ?_⟩, fun k e he => ⟨e, ?_, .inl rfl⟩⟩
    · intro c hc
      rcases List.mem_cons.mp hc with rfl | hc
      · exact hkey.keyed copy true
      · exact h.keyed c hc
    · intro c hc
      rcases List.mem_cons.mp hc with rfl | hc
      · exact owner.valid
      · exact h.owned c hc
    · exact congrArg (· + 1) h.counted
    · have hbounded := h.bounded
      show s.count + 1 ≤ maxCatalog
      omega
    · exact hapart.find_eq (List.mem_cons_of_mem _ (findCatalog_mem he)) (findCatalog_answers he)
  · -- the owner's own entry: key and owner stay
    have hf : List.Forall₂ Recast s.entries (Lib.changeFirst (·.answers key)
        (fun c => { c with descriptor := copy, seen := true }) s.entries) :=
      Lib.forall₂_changeFirst (fun x _ => Recast.refl x) fun _ _ _ => ⟨rfl, rfl⟩
    rw [hyes]
    refine ⟨h.recast ids hf, fun k e he => ?_⟩
    obtain ⟨e', he', heq⟩ := Kept.recast hf k e he
    exact ⟨e', he', .inl heq⟩
  · -- a displaced room: the names stay, the owner is the claimant
    have hdisplaces := displaces_of_mayReplace h hkey hfind hne hmay hlocal
    have hf : List.Forall₂
        (fun x y : CatalogEntry => Recast x y ∨
          x.Keyed api ∧ x.answers key = true ∧ y = ⟨owner.id, key, copy, true⟩) s.entries
        (Lib.changeFirst (·.answers key) (fun _ => ⟨owner.id, key, copy, true⟩) s.entries) :=
      Lib.forall₂_changeFirst (fun x _ => .inl (Recast.refl x))
        fun x hx hp => .inr ⟨h.keyed x hx, hp, rfl⟩
    have hm : ∀ x y : CatalogEntry, (Recast x y ∨
        x.Keyed api ∧ x.answers key = true ∧ y = ⟨owner.id, key, copy, true⟩) →
        ∀ k, y.answers k = x.answers k := by
      intro x y hxy k
      rcases hxy with hr | ⟨hkeyed, hanswers, rfl⟩
      · exact hr.answers k
      · exact answers_eq (b := ⟨owner.id, key, copy, true⟩) hkeyed hanswers k
    rw [hyes]
    refine ⟨⟨h.apart.forall₂ hm hf, ?_, ?_, h.counted.trans hf.length_eq, h.bounded⟩,
      fun k e he => ?_⟩
    · intro y hy
      obtain ⟨x, hx, ⟨hk, ho⟩ | ⟨-, -, rfl⟩⟩ := Lib.exists_of_mem_forall₂ hf hy
      · have hkeyed := h.keyed x hx
        unfold CatalogEntry.Keyed at hkeyed ⊢
        rw [hk, ho]
        exact hkeyed
      · exact hkey.keyed copy true
    · intro y hy
      obtain ⟨x, hx, ⟨-, ho⟩ | ⟨-, -, rfl⟩⟩ := Lib.exists_of_mem_forall₂ hf hy
      · rw [ho]
        exact h.owned x hx
      · exact owner.valid
    · obtain ⟨e', he', hr | ⟨-, hanswers, rfl⟩⟩ := Lib.find_forall₂ hm hf he
      · exact ⟨e', he', .inl hr.2⟩
      · -- the entry under the key is the one that was displaced
        have hsame := h.apart.find_eq (findCatalog_mem he) hanswers
        obtain rfl : e = c := Option.some.inj (hsame.symm.trans hfind)
        exact ⟨_, he', .inr ⟨rfl, hdisplaces⟩⟩

/-! ### Collecting -/

theorem sealEntry_recast (site : Site) (a : Answers) (journal : Identity.Journal)
    (c : CatalogEntry) : Recast c (sealEntry api site a journal c).1 := by
  unfold sealEntry
  dsimp only
  split <;> exact ⟨rfl, rfl⟩

theorem finalize_recast (api : Api) (site : Site) (answers : String → Answers)
    (l : List CatalogEntry) (journal : Identity.Journal) :
    List.Forall₂ Recast l (finalize api site answers l journal).1 := by
  induction l generalizing journal with
  | nil => exact List.Forall₂.nil
  | cons c l ih =>
      unfold finalize
      split
      · exact .cons (sealEntry_recast site (answers c.key) journal c) (ih _)
      · exact .cons (Recast.refl c) (ih _)

theorem collect_spec (h : Orderly api s) (site : Site) (x : Collected) :
    Orderly api (collect api site s x) ∧ Kept s.entries (collect api site s x).entries := by
  cases x with
  | put a d =>
      obtain ⟨horder, howner⟩ := put_spec h site a true api.self d
      refine ⟨horder, fun k e he => ?_⟩
      obtain ⟨e', he', hsame | ⟨-, hdisplaces⟩⟩ := howner k e he
      · exact ⟨e', he', hsame⟩
      · exact absurd rfl hdisplaces.remote
  | rig id backend name location model =>
      have hf : List.Forall₂ Recast s.entries (Lib.changeFirst (·.answers id) (fun c =>
          { c with descriptor := describeRig backend name location model c.descriptor })
          s.entries) :=
        Lib.forall₂_changeFirst (fun x _ => Recast.refl x) fun _ _ _ => ⟨rfl, rfl⟩
      exact ⟨h.recast s.ids hf, Kept.recast hf⟩

theorem collectLocal_spec (h : Orderly api s) (site : Site) (answers : String → Answers)
    (steps : Option (List Collected)) :
    Orderly api (collectLocal api site answers s steps) ∧
      Kept s.entries (collectLocal api site answers s steps).entries := by
  cases steps with
  | none => exact ⟨h, Kept.refl _⟩
  | some steps =>
      have hfold : Orderly api (steps.foldl (collect api site) s) ∧
          Kept s.entries (steps.foldl (collect api site) s).entries := by
        induction steps generalizing s with
        | nil => exact ⟨h, Kept.refl _⟩
        | cons x steps ih =>
            obtain ⟨horder, hkept⟩ := collect_spec h site x
            obtain ⟨horder', hkept'⟩ := ih horder
            exact ⟨horder', hkept.trans hkept'⟩
      have hf := finalize_recast api site answers (steps.foldl (collect api site) s).entries
        (steps.foldl (collect api site) s).ids.journal
      exact ⟨hfold.1.recast _ hf, hfold.2.trans (Kept.recast hf)⟩

/-! ### Events -/

theorem refresh_spec (h : Orderly api s) (site : Site) (answers : String → Answers)
    (steps : Option (List Collected)) :
    Orderly api (refreshCatalog api site answers s steps) ∧
    ∀ k e e', findCatalog s.entries k = some e →
      findCatalog (refreshCatalog api site answers s steps).entries k = some e' →
      e'.owner = e.owner := by
  have hunseen : List.Forall₂ Recast s.entries (s.entries.map fun c =>
      if c.owner = api.self.id then { c with seen := false } else c) := by
    refine List.forall₂_map_right_iff.mpr (List.forall₂_same.mpr fun c _ => ?_)
    split <;> exact ⟨rfl, rfl⟩
  obtain ⟨horder, hkept⟩ := collectLocal_spec (h.recast s.ids hunseen) site answers steps
  refine ⟨horder.purge List.filter_sublist (count_purge horder _), fun k e e' he he' => ?_⟩
  obtain ⟨e'', he'', howner⟩ := (Kept.recast hunseen).trans hkept k e he
  rw [← howner]
  exact owner_of_purge horder List.filter_sublist he'' he'

theorem remove_spec (h : Orderly api s) (site : Site) (pin : Option Identity.DbCall) (fresh : Bool)
    (origin : Origin api.uuid) (d : Dict) :
    Orderly api (catalogRemove api site pin fresh s origin d) ∧
      (catalogRemove api site pin fresh s origin d).entries.Sublist s.entries := by
  unfold catalogRemove
  split
  · exact ⟨h, List.Sublist.refl _⟩
  split
  · exact ⟨h, List.Sublist.refl _⟩
  split
  · exact ⟨h.purge (List.Sublist.refl _) h.counted, List.Sublist.refl _⟩
  · simp only
    split
    · exact ⟨h.purge (List.Sublist.refl _) h.counted, List.Sublist.refl _⟩
    split
    · next hany =>
        obtain ⟨c, hc, hnamed⟩ := List.any_eq_true.mp hany
        have hlength := List.length_eraseP_of_mem hc hnamed
        have hcounted := h.counted
        exact ⟨h.purge List.eraseP_sublist (by rw [hlength, hcounted]), List.eraseP_sublist⟩
    · exact ⟨h.purge (List.Sublist.refl _) h.counted, List.Sublist.refl _⟩

/-- **One event.**  It keeps the order, and an entry found before and after it has its owner
still, unless a put displaced it. -/
theorem step_spec (h : Orderly api s) (event : CatalogEvent api) :
    Orderly api (s.step api event) ∧
    ∀ k e e', findCatalog s.entries k = some e →
      findCatalog (s.step api event).entries k = some e' →
      e'.owner = e.owner ∨ ∃ site a owner d, event = .put site a owner d ∧ e'.owner = owner.id ∧
        Displaces api s site a owner.id d e := by
  cases event with
  | put site a owner d =>
      obtain ⟨horder, howner⟩ := put_spec h site a false owner d
      refine ⟨horder, fun k e e' he he' => ?_⟩
      obtain ⟨e'', he'', hrest⟩ := howner k e he
      obtain rfl : e' = e'' := Option.some.inj (he'.symm.trans he'')
      rcases hrest with hsame | ⟨hclaimant, hdisplaces⟩
      · exact .inl hsame
      · exact .inr ⟨site, a, owner, d, rfl, hclaimant, hdisplaces⟩
  | collect site answers steps =>
      obtain ⟨horder, hkept⟩ := collectLocal_spec h site answers steps
      refine ⟨horder, fun k e e' he he' => .inl ?_⟩
      obtain ⟨e'', he'', hsame⟩ := hkept k e he
      obtain rfl : e' = e'' := Option.some.inj (he'.symm.trans he'')
      exact hsame
  | refresh site answers steps =>
      obtain ⟨horder, howner⟩ := refresh_spec h site answers steps
      exact ⟨horder, fun k e e' he he' => .inl (howner k e e' he he')⟩
  | snapshot route forceSigned dest =>
      refine ⟨h, fun k e e' he he' => .inl ?_⟩
      rw [Option.some.inj (he'.symm.trans he)]
  | remove site pin fresh origin d =>
      obtain ⟨horder, hsub⟩ := remove_spec h site pin fresh origin d
      exact ⟨horder, fun k e e' he he' => .inl (owner_of_purge h hsub he he')⟩
  | lost route =>
      refine ⟨h.purge List.filter_sublist (count_purge h _), fun k e e' he he' => .inl ?_⟩
      exact owner_of_purge h List.filter_sublist he he'
  | fini =>
      refine ⟨h.purge (List.nil_sublist _) rfl, fun k e e' _ he' => ?_⟩
      exact absurd he' (by simp [Store.step, findCatalog])

theorem run_orderly (h : Orderly api s) (events : List (CatalogEvent api)) :
    Orderly api (s.run api events) := by
  unfold Store.run
  induction events generalizing s with
  | nil => exact h
  | cons event events ih => exact ih (step_spec h event).1

/-- A snapshot queues entries of the catalog, none of them back to the peer they came through. -/
theorem mem_snapshot {route : String → Option String} {forceSigned : Bool} {dest : String}
    {c : CatalogEntry} (h : c ∈ snapshot route forceSigned dest l) :
    c ∈ l ∧ route c.owner ≠ some dest := by
  have hpass : ∀ type nested, c ∈ snapshotPass route forceSigned dest type nested l →
      c ∈ l ∧ route c.owner ≠ some dest := by
    intro type nested hmem
    obtain ⟨hc, hkept⟩ := List.mem_filter.mp hmem
    exact ⟨hc, bne_iff_ne.mp (Bool.and_eq_true_iff.mp hkept).2⟩
  unfold snapshot at h
  rcases List.mem_append.mp h with h | h
  · rcases List.mem_append.mp h with h | h
    · obtain ⟨type, -, hmem⟩ := List.mem_flatMap.mp h
      exact hpass type none hmem
    · exact hpass _ _ h
  · exact hpass _ _ h

/-! ### Runs -/

/-- What answers to a name that is no room's is what has it for its key. -/
theorem key_eq_of_not_room {c : CatalogEntry} (hk : isRoomKey k = false)
    (h : c.answers k = true) : c.key = k := by
  rcases answers_iff.mp h with heq | ⟨hroom, -⟩
  · exact heq
  · rw [hk] at hroom
    exact absurd hroom Bool.false_ne_true

/-- Under a name that is no room's, the owner is the same as long as there is one. -/
theorem owner_stays (h : Orderly api s) (hk : isRoomKey k = false)
    (events : List (CatalogEvent api)) {e e' : CatalogEntry}
    (he : findCatalog s.entries k = some e)
    (hthere : ∀ pre, pre <+: events → (findCatalog (s.run api pre).entries k).isSome = true)
    (he' : findCatalog (s.run api events).entries k = some e') : e'.owner = e.owner := by
  induction events generalizing s e with
  | nil => rw [Option.some.inj (he'.symm.trans he)]
  | cons event events ih =>
      obtain ⟨horder, howner⟩ := step_spec h event
      obtain ⟨e₁, he₁⟩ := Option.isSome_iff_exists.mp
        (hthere [event] ⟨events, rfl⟩ : (findCatalog (s.step api event).entries k).isSome = true)
      have hsame : e₁.owner = e.owner := by
        rcases howner k e e₁ he he₁ with hsame | ⟨_, _, _, _, -, -, hdisplaces⟩
        · exact hsame
        · obtain ⟨_, -, hroom, -⟩ := hdisplaces.room
          rw [key_eq_of_not_room hk (findCatalog_answers he), hk] at hroom
          exact absurd hroom Bool.false_ne_true
      rw [← hsame]
      refine ih horder he₁ (fun pre hpre => ?_) he'
      obtain ⟨rest, hrest⟩ := hpre
      exact hthere (event :: pre) ⟨rest, by rw [List.cons_append, hrest]⟩

/-- **Keys and owners of the catalog.**  After any events no two entries answer to one name,
the count is the number of entries and within the limit.  Whatever the next event is, an entry
that is found before and after it has changed its owner only if it is a room's, and the event
is a claim by another server than this one, which has a node or a rig in that room while the
former owner has none, on a room that is neither the site's nor configured for a rig; a local
room is removed from the database first.  Any other entry keeps its owner as long as it is
there.  A put that is rejected leaves entries and count as they were. -/
theorem catalog_ownership (api : Api) (ids : Identity.Receiver) (events : List (CatalogEvent api)) :
    (∀ k, ((Store.start ids).run api events).entries.Pairwise fun a b =>
      ¬ (a.answers k = true ∧ b.answers k = true)) ∧
    ((Store.start ids).run api events).count =
      ((Store.start ids).run api events).entries.length ∧
    ((Store.start ids).run api events).count ≤ maxCatalog ∧
    (∀ event k e e', findCatalog ((Store.start ids).run api events).entries k = some e →
      findCatalog (((Store.start ids).run api events).step api event).entries k = some e' →
      e'.owner ≠ e.owner →
      ∃ site a owner d room, event = .put site a owner d ∧ e'.owner = owner.id ∧
        d.get? "catalog.room" = some room ∧ isRoomKey e.key = true ∧
        e.answers (roomKey room) = true ∧
        ownsStationRoom ((Store.start ids).run api events).entries owner.id room = true ∧
        ownsStationRoom ((Store.start ids).run api events).entries e.owner room = false ∧
        owner.id ≠ api.self.id ∧ sameName room site.siteRoom = false ∧
        site.roomConfigured room = false ∧ (e.owner = api.self.id → withdrawn a = true)) ∧
    (∀ more k e e', isRoomKey e.key = false →
      findCatalog ((Store.start ids).run api events).entries k = some e →
      (∀ pre, pre <+: more →
        (findCatalog (((Store.start ids).run api events).run api pre).entries k).isSome = true) →
      findCatalog (((Store.start ids).run api events).run api more).entries k = some e' →
      e'.owner = e.owner) ∧
    ∀ site a collecting owner d,
      (catalogPut api site a collecting ((Store.start ids).run api events) owner d).1 ≠ .ok →
      (catalogPut api site a collecting ((Store.start ids).run api events) owner d).2.entries =
        ((Store.start ids).run api events).entries ∧
      (catalogPut api site a collecting ((Store.start ids).run api events) owner d).2.count =
        ((Store.start ids).run api events).count := by
  have horder := run_orderly (Orderly.start api ids) events
  refine ⟨fun k => ?_, horder.counted, horder.bounded, ?_, ?_, ?_⟩
  · refine horder.apart.imp fun hab hboth => ?_
    have hno := hab k hboth.1
    rw [hboth.2] at hno
    exact absurd hno.symm Bool.false_ne_true
  · intro event k e e' he he' hne
    rcases (step_spec horder event).2 k e e' he he' with
      hsame | ⟨site, a, owner, d, hevent, hclaimant, hdisplaces⟩
    · exact absurd hsame hne
    · obtain ⟨room, hroom, hkey, hanswers, howns, hholder, hsite, hconfigured⟩ := hdisplaces.room
      exact ⟨site, a, owner, d, room, hevent, hclaimant, hroom, hkey, hanswers, howns, hholder,
        hdisplaces.remote, hsite, hconfigured, hdisplaces.withdrawn⟩
  · intro more k e e' hkey he hthere he'
    have hk : isRoomKey k = false := by
      rcases answers_iff.mp (findCatalog_answers he) with heq | ⟨hroom, hs⟩
      · rw [← heq]
        exact hkey
      · rw [(horder.keyed e (findCatalog_mem he)).isRoomKey hroom hs] at hkey
        exact absurd hkey.symm Bool.false_ne_true
    exact owner_stays horder hk more he hthere he'
  · intro site a collecting owner d hrejected
    rcases catalogPut_cases api site a collecting ((Store.start ids).run api events) owner d with
      ⟨-, hentries, hcount⟩ | ⟨key, copy, ids', -, ⟨-, -, hyes⟩ | ⟨c, -, -, hyes⟩ |
        ⟨c, -, -, -, -, hyes⟩⟩
    · exact ⟨hentries, hcount⟩
    · exact absurd (by rw [hyes]) hrejected
    · exact absurd (by rw [hyes]) hrejected
    · exact absurd (by rw [hyes]) hrejected

/-! ### A displaced local room -/

/-- A UUID in hexadecimal has no colon. -/
theorem hex_no_colon (id : String) (h : UuidFormat.hex.valid id = true) : ':' ∉ id.toList := by
  intro hmem
  obtain ⟨i, hi⟩ := List.mem_iff_getElem?.mp hmem
  have hall := (Bool.and_eq_true_iff.mp h).2
  have hchar := List.all_eq_true.mp hall (':', i) (List.mem_zipIdx_iff_getElem?.mpr hi)
  simp only at hchar
  split at hchar
  · exact absurd hchar (by decide)
  · exact Bool.false_ne_true hchar

/-- A server whose signatures, hashes and names always pass. -/
def exampleApi : Api where
  uuid := UuidFormat.hex
  no_colon := hex_no_colon
  self := ⟨"11111111-1111-1111-1111-111111111111", by decide +kernel⟩
  roomNameValid _ := true
  sha _ := ""
  sign _ := "signature"
  verify _ := true

/-- The other server. -/
def exampleOrigin : Origin UuidFormat.hex :=
  ⟨"22222222-2222-2222-2222-222222222222", by decide +kernel⟩

def exampleSite : Site := ⟨"mesh", some "key", "#site", fun _ => false⟩

/-- Nothing fails, and a displaced room has no metadata. -/
def exampleAnswers : Answers := ⟨true, true, true, none, none, some false, true⟩

/-- Fields signed by the other server. -/
def exampleSigned (d : Dict) : Dict :=
  (stamp exampleSite exampleOrigin.id "key" (d.add "identity.signature" "signature")).add
    "identity.revision" "1"

/-- This server announces a room, and the other one is a station with a room of that name. -/
def exampleEvents : List (CatalogEvent exampleApi) :=
  [.collect exampleSite (fun _ => exampleAnswers)
      (some [.put exampleAnswers (Dict.empty.add "catalog.room" "#x")]),
    .put exampleSite exampleAnswers exampleOrigin
      (exampleSigned (((Dict.empty.add "object.type" "node").add "object.uuid"
        exampleOrigin.id).add "object.room" "#x"))]

/-- The other server's claim on that room. -/
def exampleClaim : CatalogEvent exampleApi :=
  .put exampleSite exampleAnswers exampleOrigin
    (exampleSigned (Dict.empty.add "catalog.room" "#X"))

/-- The local server's room is not exempt: the station that the room belongs to displaces the
local claim. -/
theorem local_room_displaced :
    ¬ ∀ (api : Api) ids (events : List (CatalogEvent api)) event k e e',
      findCatalog ((Store.start ids).run api events).entries k = some e →
      findCatalog (((Store.start ids).run api events).step api event).entries k = some e' →
      e'.owner ≠ e.owner → e.owner ≠ api.self.id := by
  intro h
  have hrun : ((findCatalog ((Store.start ⟨fun _ => none, fun _ => none⟩).run exampleApi
      exampleEvents).entries "room:#x").map (·.owner)) = some exampleApi.self.id := by
    decide +kernel
  have hstep : ((findCatalog (((Store.start ⟨fun _ => none, fun _ => none⟩).run exampleApi
      exampleEvents).step exampleApi exampleClaim).entries "room:#x").map (·.owner)) =
        some exampleOrigin.id := by
    decide +kernel
  obtain ⟨e, he, howner⟩ := Option.map_eq_some_iff.mp hrun
  obtain ⟨e', he', howner'⟩ := Option.map_eq_some_iff.mp hstep
  refine h exampleApi _ exampleEvents exampleClaim "room:#x" e e' he he' ?_ howner
  rw [howner, howner']
  decide +kernel

end Catalog

end RustyRig
