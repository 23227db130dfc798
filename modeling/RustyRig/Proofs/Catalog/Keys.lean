/-
The keys of a catalog.

A key is a room's, a service's, which names its owner, or a UUID.  The three kinds do not
meet, whatever the case of a room's name: so what answers to one name answers to the same
names, and two owners never share a service key.
-/
import RustyRig.Lib.SelfDelimiting
import RustyRig.Proofs.Relay.Wants
import RustyRig.Rrserver.Catalog

namespace RustyRig

namespace Catalog

open Relay

variable {api : Api} {key k owner : String} {a b c : CatalogEntry}

/-- The three kinds of key. -/
def CatalogEntry.Keyed (api : Api) (c : CatalogEntry) : Prop :=
  isRoomKey c.key = true ∨ (servicePrefix c.owner).toList <+: c.key.toList ∨
    api.uuid.valid c.key = true

/-! ### Letters -/

/-- Only a colon is a colon in lower case. -/
theorem eq_of_toLower_colon {x : Char} (h : x.toLower = ':') : x = ':' := by
  unfold Char.toLower at h
  split at h
  · next hupper =>
      have hval := congrArg (fun y : Char => y.val.toNat) h
      simp only [ge_iff_le, UInt32.le_iff_toNat_le] at hupper hval
      have hcolon : (':' : Char).val.toNat = 58 := rfl
      have hA : ('A' : Char).val.toNat = 65 := rfl
      have hZ : ('Z' : Char).val.toNat = 90 := rfl
      have hdiff : ('a'.val - 'A'.val).toNat = 32 := rfl
      rw [UInt32.toNat_add, hdiff, hcolon] at hval
      rw [hA, hZ] at hupper
      omega
  · exact h

theorem isRoomKey_iff : isRoomKey key = true ↔ "room:".toList <+: key.toList :=
  List.isPrefixOf_iff_prefix

theorem isRoomKey_roomKey (room : String) : isRoomKey (roomKey room) = true := by
  rw [isRoomKey_iff, roomKey, String.toList_append]
  exact List.prefix_append _ _

/-- In lower case a room key starts as it does. -/
theorem lower_of_isRoomKey (h : isRoomKey key = true) :
    "room:".toList <+: key.toList.map Char.toLower := by
  obtain ⟨rest, hrest⟩ := isRoomKey_iff.mp h
  exact ⟨rest.map Char.toLower, by rw [← hrest, List.map_append]; rfl⟩

/-- A service key is no room key, in any case. -/
theorem service_not_room (h : (servicePrefix owner).toList <+: key.toList) :
    ¬ "room:".toList <+: key.toList.map Char.toLower := by
  intro hroom
  obtain ⟨rest, hrest⟩ := h
  have hhead : (key.toList.map Char.toLower).head? = some 's' := by
    rw [← hrest, servicePrefix, String.toList_append, String.toList_append]
    rfl
  obtain ⟨tail, htail⟩ := hroom
  rw [← htail] at hhead
  exact absurd (Option.some.inj hhead) (by decide)

/-- Nor is a UUID. -/
theorem uuid_not_room (h : api.uuid.valid key = true) :
    ¬ "room:".toList <+: key.toList.map Char.toLower := by
  rintro ⟨tail, htail⟩
  have hmem : ':' ∈ key.toList.map Char.toLower := by
    rw [← htail]
    exact List.mem_append_left _ (by decide)
  obtain ⟨x, hx, hlower⟩ := List.mem_map.mp hmem
  rw [eq_of_toLower_colon hlower] at hx
  exact api.no_colon key h hx

/-- A key that is a room key but for its case is one. -/
theorem CatalogEntry.Keyed.isRoomKey (hc : c.Keyed api) (hk : Catalog.isRoomKey k = true)
    (h : sameName c.key k = true) : Catalog.isRoomKey c.key = true := by
  have hlower : "room:".toList <+: c.key.toList.map Char.toLower := by
    rw [show c.key.toList.map Char.toLower = k.toList.map Char.toLower from eq_of_beq h]
    exact lower_of_isRoomKey hk
  rcases hc with hroom | hservice | huuid
  · exact hroom
  · exact absurd hlower (service_not_room hservice)
  · exact absurd hlower (uuid_not_room huuid)

/-! ### Answering -/

theorem answers_iff :
    c.answers k = true ↔ c.key = k ∨ isRoomKey k = true ∧ sameName c.key k = true := by
  rw [CatalogEntry.answers, Bool.or_eq_true, Bool.and_eq_true, beq_iff_eq]

theorem findCatalog_mem {l : List CatalogEntry} (h : findCatalog l k = some c) : c ∈ l :=
  List.mem_of_find?_eq_some h

theorem findCatalog_answers {l : List CatalogEntry} (h : findCatalog l k = some c) :
    c.answers k = true := by
  unfold findCatalog at h
  have hk := List.find?_some h
  exact hk

/-- Who answers to an entry's key answers to whatever the entry answers to. -/
theorem answers_trans (hab : a.answers b.key = true) (hb : b.answers k = true) :
    a.answers k = true := by
  rw [answers_iff] at hab hb ⊢
  rcases hb with rfl | ⟨hroom, hs⟩
  · exact hab
  · rcases hab with heq | ⟨-, hs'⟩
    · exact .inr ⟨hroom, by rw [heq]; exact hs⟩
    · exact .inr ⟨hroom, sameName_trans hs' hs⟩

theorem answers_symm (ha : a.Keyed api) (hab : a.answers b.key = true) :
    b.answers a.key = true := by
  rw [answers_iff] at hab ⊢
  rcases hab with heq | ⟨hroom, hs⟩
  · exact .inl heq.symm
  · exact .inr ⟨ha.isRoomKey hroom hs, by rw [sameName_comm]; exact hs⟩

/-- Two that answer to one name answer to each other's keys. -/
theorem answers_common (ha : a.Keyed api) (hak : a.answers k = true) (hbk : b.answers k = true) :
    b.answers a.key = true := by
  rw [answers_iff] at hak
  rcases hak with rfl | ⟨hroom, hs⟩
  · exact hbk
  · rw [answers_iff] at hbk ⊢
    have hroom' := ha.isRoomKey hroom hs
    rw [sameName_comm] at hs
    rcases hbk with heq | ⟨-, hs'⟩
    · exact .inr ⟨hroom', by rw [heq]; exact hs⟩
    · exact .inr ⟨hroom', sameName_trans hs' hs⟩

/-- An entry under the key of another one has its names. -/
theorem answers_eq (ha : a.Keyed api) (hab : a.answers b.key = true) (k : String) :
    b.answers k = a.answers k := by
  rw [Bool.eq_iff_iff]
  exact ⟨answers_trans hab, answers_trans (answers_symm ha hab)⟩

/-- Whoever answers to an owner's service key is that owner's. -/
theorem owner_of_service (hc : c.Keyed api) (hvalid : api.uuid.valid c.owner = true)
    (howner : api.uuid.valid owner = true) (hkey : (servicePrefix owner).toList <+: key.toList)
    (h : c.answers key = true) : c.owner = owner := by
  have heq : c.key = key := by
    rcases answers_iff.mp h with heq | ⟨hroom, -⟩
    · exact heq
    · exact absurd (lower_of_isRoomKey hroom) (service_not_room hkey)
  subst heq
  rcases hc with hroom | hservice | huuid
  · exact absurd (lower_of_isRoomKey hroom) (service_not_room hkey)
  · obtain ⟨x, hx⟩ := hservice
    obtain ⟨y, hy⟩ := hkey
    have hsame : c.owner.toList ++ ':' :: x = owner.toList ++ ':' :: y := by
      have h8 := hx.trans hy.symm
      simp only [servicePrefix, String.toList_append, List.append_assoc] at h8
      exact List.append_cancel_left h8
    have hlists := Lib.Delimited.append_sep_inj (api.no_colon _ hvalid) (api.no_colon _ howner) hsame
    exact String.toList_inj.mp hlists.1
  · obtain ⟨y, hy⟩ := hkey
    refine absurd ?_ (api.no_colon c.key huuid)
    rw [← hy, servicePrefix, String.toList_append]
    exact List.mem_append_left _ (List.mem_append_right _ (by decide))

end Catalog

end RustyRig

/-!
What a put does.

`catalogPut_cases` lists the four outcomes: a rejection, which touches no entry; a new entry
under a free key; the owner's own entry renewed; and a claim on another server's entry that
was found to be allowed.  What is allowed is a room's claim alone: a UUID forbids it, and a
service key names its owner.
-/

namespace RustyRig

namespace Catalog

open Relay

variable {api : Api} {key k : String} {d : Dict}

/-- What a key is taken from. -/
inductive KeyOf (api : Api) (owner : String) (d : Dict) : String → Prop
  | service {key : String} (h : d.get? "catalog.service" = some key)
      (hkey : (servicePrefix owner).toList <+: key.toList) : KeyOf api owner d key
  | uuid {key : String} (h : d.get? "object.uuid" = some key) (hkey : api.uuid.valid key = true) :
      KeyOf api owner d key
  | room {room : String} (h : d.get? "catalog.room" = some room) : KeyOf api owner d (roomKey room)

theorem prefix_of_checkService {entries : List CatalogEntry} {owner service : String}
    (h : checkService entries owner service d = .ok) :
    (servicePrefix owner).toList <+: service.toList := by
  unfold checkService at h
  cases hfind : findCatalog entries (d.get "catalog.parent" "") with
  | none =>
      rw [hfind] at h
      exact absurd h (fun habs => nomatch habs)
  | some authority =>
      simp only [hfind] at h
      split at h
      · exact absurd h (fun habs => nomatch habs)
      split at h
      · exact absurd h (fun habs => nomatch habs)
      · next hno =>
          simp only [Bool.or_eq_true, not_or, Bool.not_eq_true', Bool.not_eq_false] at hno
          exact List.isPrefixOf_iff_prefix.mp hno.2

theorem catalogKey_spec {entries : List CatalogEntry} {owner : String}
    (h : catalogKey api entries owner d = .ok key) : KeyOf api owner d key := by
  unfold catalogKey at h
  by_cases hremote : checkRemote api entries owner d ≠ .ok
  · rw [if_pos hremote] at h
    exact absurd h (fun habs => nomatch habs)
  rw [if_neg hremote] at h
  cases hservice : d.get? "catalog.service" with
  | some service =>
      simp only [hservice] at h
      by_cases hok : checkService entries owner service d ≠ .ok
      · rw [if_pos hok] at h
        exact absurd h (fun habs => nomatch habs)
      · rw [if_neg hok] at h
        obtain rfl := Except.ok.inj h
        exact .service hservice (prefix_of_checkService (not_not.mp hok))
  | none =>
      simp only [hservice] at h
      cases huuid : (d.get? "object.uuid").filter api.uuid.valid with
      | some uuid =>
          simp only [huuid] at h
          obtain rfl := Except.ok.inj h
          obtain ⟨hget, hvalid⟩ := Option.filter_eq_some_iff.mp huuid
          exact .uuid hget hvalid
      | none =>
          simp only [huuid] at h
          cases hroom : (d.get? "catalog.room").filter api.roomNameValid with
          | none =>
              simp only [hroom] at h
              exact absurd h (fun habs => nomatch habs)
          | some room =>
              simp only [hroom] at h
              obtain rfl := Except.ok.inj h
              exact .room (Option.filter_eq_some_iff.mp hroom).1

/-- A key that is refused is refused for a reason. -/
theorem catalogKey_error {entries : List CatalogEntry} {owner : String} {why : CatalogReject}
    (h : catalogKey api entries owner d = .error why) : why ≠ .ok := by
  unfold catalogKey at h
  by_cases hremote : checkRemote api entries owner d ≠ .ok
  · rw [if_pos hremote] at h
    rw [← Except.error.inj h]
    exact hremote
  rw [if_neg hremote] at h
  cases hservice : d.get? "catalog.service" with
  | some service =>
      simp only [hservice] at h
      by_cases hok : checkService entries owner service d ≠ .ok
      · rw [if_pos hok] at h
        rw [← Except.error.inj h]
        exact hok
      · rw [if_neg hok] at h
        exact absurd h (fun habs => nomatch habs)
  | none =>
      simp only [hservice] at h
      cases huuid : (d.get? "object.uuid").filter api.uuid.valid with
      | some uuid =>
          simp only [huuid] at h
          exact absurd h (fun habs => nomatch habs)
      | none =>
          simp only [huuid] at h
          cases hroom : (d.get? "catalog.room").filter api.roomNameValid with
          | none =>
              simp only [hroom] at h
              rw [← Except.error.inj h]
              exact fun habs => nomatch habs
          | some room =>
              simp only [hroom] at h
              exact absurd h (fun habs => nomatch habs)

/-- What keeps a descriptor from being copied is memory or its identity. -/
theorem admitCopy_error {site : Site} {a : Answers} {collecting : Bool}
    {ids ids' : Identity.Receiver} {owner : String} {why : CatalogReject}
    (h : admitCopy api site a collecting ids owner key d = (.error why, ids')) :
    why = .memory ∨ why = .identity := by
  unfold admitCopy at h
  split at h
  · exact .inl (Except.error.inj (Prod.mk.inj h).1).symm
  cases hseal : sealCopy api site a collecting ids owner key d with
  | mk sealed ids₁ =>
      cases sealed with
      | error why' =>
          simp only [hseal] at h
          rw [← Except.error.inj (Prod.mk.inj h).1]
          unfold sealCopy at hseal
          split at hseal
          · split at hseal
            · exact .inr (Except.error.inj (Prod.mk.inj hseal).1).symm
            · split at hseal
              · exact absurd (Prod.mk.inj hseal).1 (fun habs => nomatch habs)
              · exact .inr (Except.error.inj (Prod.mk.inj hseal).1).symm
          · split at hseal
            · exact .inr (Except.error.inj (Prod.mk.inj hseal).1).symm
            · exact absurd (Prod.mk.inj hseal).1 (fun habs => nomatch habs)
      | ok copy =>
          simp only [hseal] at h
          cases hstores : checkStores api site a ids₁ owner key copy with
          | mk reason ids₂ =>
              rw [hstores] at h
              have hreason : reason = .ok ∨ reason = .identity := by
                unfold checkStores at hstores
                split at hstores
                · exact .inl (Prod.mk.inj hstores).1.symm
                split at hstores
                · exact .inr (Prod.mk.inj hstores).1.symm
                split at hstores
                · exact .inl (Prod.mk.inj hstores).1.symm
                split at hstores
                · exact .inr (Prod.mk.inj hstores).1.symm
                split at hstores
                · exact .inr (Prod.mk.inj hstores).1.symm
                · exact .inl (Prod.mk.inj hstores).1.symm
              rcases hreason with rfl | rfl
              · exact absurd (Prod.mk.inj h).1 (fun habs => nomatch habs)
              · exact .inr (Except.error.inj (Prod.mk.inj h).1).symm

theorem admitCopy_error_ne_ok {site : Site} {a : Answers} {collecting : Bool}
    {ids ids' : Identity.Receiver} {owner : String} {why : CatalogReject}
    (h : admitCopy api site a collecting ids owner key d = (.error why, ids')) : why ≠ .ok := by
  rcases admitCopy_error h with rfl | rfl
  · exact fun habs => nomatch habs
  · exact fun habs => nomatch habs

/-- Each kind of key makes its kind of entry. -/
theorem KeyOf.keyed {owner : String} (h : KeyOf api owner d key) (copy : Dict) (seen : Bool) :
    (⟨owner, key, copy, seen⟩ : CatalogEntry).Keyed api := by
  cases h with
  | service _ hkey => exact .inr (.inl hkey)
  | uuid _ hkey => exact .inr (.inr hkey)
  | room _ => exact .inl (isRoomKey_roomKey _)

theorem mayReplace_spec {site : Site} {entries : List CatalogEntry} {holder owner : String}
    (h : mayReplace api site entries holder owner d = true) :
    ∃ room, d.get? "catalog.room" = some room ∧ d.get? "object.uuid" = none ∧
      owner ≠ api.self.id ∧ ownsStationRoom entries owner room = true ∧
      ownsStationRoom entries holder room = false ∧ sameName room site.siteRoom = false ∧
      site.roomConfigured room = false := by
  unfold mayReplace at h
  cases hroom : d.get? "catalog.room" with
  | none =>
      rw [hroom] at h
      exact absurd h Bool.false_ne_true
  | some room =>
      simp only [hroom, Bool.not_eq_true', Bool.or_eq_false_iff, Bool.not_eq_false',
        beq_eq_false_iff_ne, Option.isSome_eq_false_iff, Option.isNone_iff_eq_none] at h
      obtain ⟨⟨⟨⟨⟨huuid, hself⟩, howns⟩, hholder⟩, hsite⟩, hconfigured⟩ := h
      exact ⟨room, rfl, huuid, hself, howns, hholder, hsite, hconfigured⟩

/-- What becomes of the entries, once the key is known. -/
theorem putUnder_cases (api : Api) (site : Site) (a : Answers) (collecting : Bool) (s : Store)
    (owner key : String) (d : Dict) :
    ((putUnder api site a collecting s owner key d).1 ≠ .ok ∧
      (putUnder api site a collecting s owner key d).2.entries = s.entries ∧
      (putUnder api site a collecting s owner key d).2.count = s.count) ∨
    ∃ copy ids,
      (findCatalog s.entries key = none ∧ s.count ≠ maxCatalog ∧
        putUnder api site a collecting s owner key d =
          (.ok, ⟨⟨owner, key, copy, true⟩ :: s.entries, s.count + 1, ids⟩)) ∨
      (∃ c, findCatalog s.entries key = some c ∧ c.owner = owner ∧
        putUnder api site a collecting s owner key d =
          (.ok, ⟨Lib.changeFirst (·.answers key)
            (fun c => { c with descriptor := copy, seen := true }) s.entries, s.count, ids⟩)) ∨
      ∃ c, findCatalog s.entries key = some c ∧ c.owner ≠ owner ∧
        mayReplace api site s.entries c.owner owner d = true ∧
        (c.owner = api.self.id → withdrawn a = true) ∧
        putUnder api site a collecting s owner key d =
          (.ok, ⟨Lib.changeFirst (·.answers key) (fun _ => ⟨owner, key, copy, true⟩) s.entries,
            s.count, ids⟩) := by
  unfold putUnder
  cases hfind : findCatalog s.entries key with
  | none =>
      simp only [Option.map_none, Option.any_none, Bool.false_and, Bool.false_eq_true, if_false,
        Option.isNone_none, if_true]
      cases hadmit : admitCopy api site a collecting s.ids owner key d with
      | mk sealed ids =>
          cases sealed with
          | error why => exact .inl ⟨admitCopy_error_ne_ok hadmit, rfl, rfl⟩
          | ok copy =>
              simp only
              by_cases hcount : s.count = maxCatalog
              · rw [if_pos hcount]
                exact .inl ⟨(fun habs => nomatch habs), rfl, rfl⟩
              · rw [if_neg hcount]
                by_cases halloc : (!a.alloc) = true
                · rw [if_pos halloc]
                  exact .inl ⟨(fun habs => nomatch habs), rfl, rfl⟩
                · rw [if_neg halloc]
                  exact .inr ⟨copy, ids, .inl ⟨trivial, hcount, rfl⟩⟩
  | some c =>
      simp only [Option.map_some, Option.any_some, Option.getD_some, Option.isNone_some,
        Bool.false_eq_true, if_false]
      by_cases hguard : (c.owner != owner && !mayReplace api site s.entries c.owner owner d) = true
      · rw [if_pos hguard]
        exact .inl ⟨(fun habs => nomatch habs), rfl, rfl⟩
      rw [if_neg hguard]
      cases hadmit : admitCopy api site a collecting s.ids owner key d with
      | mk sealed ids =>
          cases sealed with
          | error why => exact .inl ⟨admitCopy_error_ne_ok hadmit, rfl, rfl⟩
          | ok copy =>
              simp only
              by_cases hlocal : (c.owner != owner && some c.owner == some api.self.id &&
                  !withdrawn a) = true
              · rw [if_pos hlocal]
                exact .inl ⟨(fun habs => nomatch habs), rfl, rfl⟩
              rw [if_neg hlocal]
              by_cases howner : c.owner = owner
              · rw [if_neg (by rw [howner, bne_self_eq_false]; exact Bool.false_ne_true)]
                exact .inr ⟨copy, ids, .inr (.inl ⟨c, rfl, howner, rfl⟩)⟩
              · have hne : (c.owner != owner) = true := bne_iff_ne.mpr howner
                rw [if_pos hne]
                rw [hne, Bool.true_and, Bool.not_eq_true', Bool.not_eq_false] at hguard
                refine .inr ⟨copy, ids, .inr (.inr ⟨c, rfl, howner, hguard, fun hself => ?_, rfl⟩)⟩
                rw [hne, hself, beq_self_eq_true, Bool.true_and, Bool.true_and, Bool.not_eq_true',
                  Bool.not_eq_false] at hlocal
                exact hlocal

/-- **The outcomes of a put.**  A rejection touches no entry; what is accepted is a new entry
under a free key, the owner's own entry renewed, or a room claim that may displace another. -/
theorem catalogPut_cases (api : Api) (site : Site) (a : Answers) (collecting : Bool) (s : Store)
    (owner : Origin api.uuid) (d : Dict) :
    ((catalogPut api site a collecting s owner d).1 ≠ .ok ∧
      (catalogPut api site a collecting s owner d).2.entries = s.entries ∧
      (catalogPut api site a collecting s owner d).2.count = s.count) ∨
    ∃ key copy ids, KeyOf api owner.id d key ∧
      ((findCatalog s.entries key = none ∧ s.count ≠ maxCatalog ∧
        catalogPut api site a collecting s owner d =
          (.ok, ⟨⟨owner.id, key, copy, true⟩ :: s.entries, s.count + 1, ids⟩)) ∨
      (∃ c, findCatalog s.entries key = some c ∧ c.owner = owner.id ∧
        catalogPut api site a collecting s owner d =
          (.ok, ⟨Lib.changeFirst (·.answers key)
            (fun c => { c with descriptor := copy, seen := true }) s.entries, s.count, ids⟩)) ∨
      ∃ c, findCatalog s.entries key = some c ∧ c.owner ≠ owner.id ∧
        mayReplace api site s.entries c.owner owner.id d = true ∧
        (c.owner = api.self.id → withdrawn a = true) ∧
        catalogPut api site a collecting s owner d =
          (.ok, ⟨Lib.changeFirst (·.answers key) (fun _ => ⟨owner.id, key, copy, true⟩) s.entries,
            s.count, ids⟩)) := by
  unfold catalogPut
  by_cases hrefused : refusedAtOnce api site owner.id d = true
  · rw [if_pos hrefused]
    exact .inl ⟨(fun habs => nomatch habs), rfl, rfl⟩
  rw [if_neg hrefused]
  cases hkey : catalogKey api s.entries owner.id d with
  | error why => exact .inl ⟨catalogKey_error hkey, rfl, rfl⟩
  | ok key =>
      rcases putUnder_cases api site a collecting s owner.id key d with
        hno | ⟨copy, ids, hyes⟩
      · exact .inl hno
      · exact .inr ⟨key, copy, ids, catalogKey_spec hkey, hyes⟩

end Catalog

end RustyRig
