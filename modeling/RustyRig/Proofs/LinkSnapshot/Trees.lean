/-
The snapshot of a tree, and the tree that it is to its receiver.

`snapshotNodes` is the table with the local server as its root.  Its identities are hexadecimal
digits and dashes and its sites are valid, so its entries can be read again; and parents lead
from every node to the local server, so it is a tree that `attach` admits.
-/
import RustyRig.Proofs.LinkSnapshot.Sites

namespace RustyRig

open Lib

/-- Identities are written in hexadecimal digits and dashes. -/
def UuidFormat.Plain (u : UuidFormat) : Prop :=
  ∀ id, u.valid id = true → ∀ c ∈ id.toList,
    c = '-' ∨ c.isDigit = true ∨ c.toLower ∈ ['a', 'b', 'c', 'd', 'e', 'f']

namespace LinkSnapshot

variable {u : UuidFormat} {t : LinkTree} {loc : String}

/-! ### Texts in bytes -/

theorem utf8EncodeChar_ascii {c : Char} (h : c.toNat < 128) :
    String.utf8EncodeChar c = [UInt8.ofNat c.toNat] := by
  have hle : c.val.toNat ≤ 127 := Nat.le_of_lt_succ h
  unfold String.utf8EncodeChar
  simp only [hle, if_true]
  rfl

/-- Only the zero character has a zero byte. -/
theorem zero_notMem_utf8 {c : Char} (h : c.toNat ≠ 0) : 0 ∉ String.utf8EncodeChar c := by
  have hv : c.val.toNat ≠ 0 := h
  unfold String.utf8EncodeChar
  simp only
  intro hmem
  split at hmem
  · rename_i hle
    have heq := congrArg UInt8.toNat (List.mem_singleton.mp hmem)
    rw [UInt8.toNat_ofNat', Nat.mod_eq_of_lt (by omega)] at heq
    exact hv heq.symm
  · split at hmem
    · simp [← UInt8.toNat_inj] at hmem
      omega
    · split at hmem
      · simp [← UInt8.toNat_inj] at hmem
        omega
      · simp [← UInt8.toNat_inj] at hmem
        omega

theorem toByteArray_bytes (s : String) : (bytes s).toByteArray = s.toByteArray := by
  have hlist := String.toByteArray_ofList (l := s.toList)
  rw [String.ofList_toList] at hlist
  exact hlist.symm

theorem bytes_length (s : String) : (bytes s).length = s.utf8ByteSize := by
  rw [← List.size_toByteArray, toByteArray_bytes, String.size_toByteArray]

theorem bytes_injective : Function.Injective bytes := by
  intro s s' h
  rw [← String.toByteArray_inj, ← toByteArray_bytes, h, toByteArray_bytes]

theorem bytes_eq_nil {s : String} (h : bytes s = []) : s = "" := bytes_injective h

/-- A character of an identity. -/
theorem plain_char {c : Char} (h : c = '-' ∨ c.isDigit = true ∨ c.toLower ∈ ['a', 'b', 'c', 'd', 'e', 'f']) :
    c.toNat < 128 ∧ c.toNat ≠ 32 ∧ c.toNat ≠ 44 := by
  rcases h with rfl | h | h
  · decide
  · simp only [Char.isDigit, Bool.and_eq_true, decide_eq_true_eq, ge_iff_le, UInt32.le_iff_toNat_le] at h
    have hlow : 48 ≤ c.toNat := h.1
    have hhigh : c.toNat ≤ 57 := h.2
    omega
  · unfold Char.toLower at h
    split at h
    · rename_i hupper
      simp only [ge_iff_le, UInt32.le_iff_toNat_le] at hupper
      have hlow : 65 ≤ c.toNat := hupper.1
      have hhigh : c.toNat ≤ 90 := hupper.2
      omega
    · simp only [List.mem_cons, List.not_mem_nil, or_false] at h
      rcases h with rfl | rfl | rfl | rfl | rfl | rfl <;> decide

/-- An identity has a byte for each of its characters. -/
theorem bytes_identity (hplain : u.Plain) {id : String} (h : validId u (some id) = true) :
    (bytes id).length = 36 ∧ space ∉ bytes id ∧ comma ∉ bytes id := by
  simp only [validId, Bool.and_eq_true] at h
  have hchars : ∀ c ∈ id.toList, c.toNat < 128 ∧ c.toNat ≠ 32 ∧ c.toNat ≠ 44 :=
    fun c hc => plain_char (hplain id h.1 c hc)
  have hbytes : bytes id = id.toList.map fun c => UInt8.ofNat c.toNat := by
    unfold bytes
    rw [List.flatMap_def, List.map_congr_left fun c hc => utf8EncodeChar_ascii (hchars c hc).1]
    induction id.toList with
    | nil => rfl
    | cons c cs ih => simp_all
  have hnot : ∀ sep : Nat, sep < 128 → (∀ c ∈ id.toList, c.toNat ≠ sep) → UInt8.ofNat sep ∉ bytes id := by
    intro sep hsep hne hmem
    rw [hbytes] at hmem
    obtain ⟨c, hc, heq⟩ := List.mem_map.mp hmem
    have heq := congrArg UInt8.toNat heq
    have hlt := (hchars c hc).1
    rw [UInt8.toNat_ofNat', UInt8.toNat_ofNat', Nat.mod_eq_of_lt (by omega), Nat.mod_eq_of_lt (by omega)]
      at heq
    exact hne c hc heq
  refine ⟨?_, hnot 32 (by decide) fun c hc => (hchars c hc).2.1,
    hnot 44 (by decide) fun c hc => (hchars c hc).2.2⟩
  rw [hbytes, List.length_map, String.length_toList]
  exact u.length_of_valid id h.1

/-- A valid site has bytes, none of them zero, and fits its buffer. -/
theorem bytes_site {s : String} (h : LinkTree.validSite (some s) = true) :
    bytes s ≠ [] ∧ 0 ∉ bytes s ∧ (bytes s).length < 128 := by
  simp only [LinkTree.validSite, Bool.and_eq_true, decide_eq_true_eq, List.all_eq_true] at h
  refine ⟨fun hnil => h.1.1 (bytes_eq_nil hnil), fun hmem => ?_, bytes_length s ▸ h.1.2⟩
  obtain ⟨c, hc, hzero⟩ := List.mem_flatMap.mp hmem
  have hprint := h.2 c hc
  simp only [Bool.not_eq_true', Bool.or_eq_false_iff, decide_eq_false_iff_not] at hprint
  exact zero_notMem_utf8 (by omega) hzero

/-! ### Trees -/

/-- Every site is one that the peers accept. -/
def Sited (t : LinkTree) : Prop := ∀ n ∈ t.nodes, LinkTree.validSite (some n.site) = true

theorem Sited.apply (h : Sited t) (op : LinkTree.Op) : Sited (LinkTree.apply u t op) := by
  cases op with
  | attach peer nodes =>
      rcases LinkTree.attach_cases (u := u) (t := t) peer nodes with ⟨p, -, -, hc, heq⟩ | ⟨-, heq⟩
      · rw [LinkTree.apply, heq]
        intro n hn
        rcases List.mem_append.mp hn with hn | hn
        · exact h n hn
        · obtain ⟨k, hk, rfl⟩ := List.mem_map.mp hn
          have hsite := (hc.offered k hk).site
          cases hs : k.site with
          | none =>
              rw [hs] at hsite
              exact absurd hsite (by simp [LinkTree.validSite])
          | some s =>
              rw [hs] at hsite
              simpa [LinkTree.admitted, hs] using hsite
      · rw [LinkTree.apply, heq]
        exact h
  | add peer server parent site =>
      rw [LinkTree.apply]
      unfold LinkTree.add
      split
      swap
      · exact h
      split
      · exact h
      rename_i hargs
      split
      swap
      · exact h
      split
      · exact h
      split
      · exact h
      split
      · exact h
      intro n hn
      simp only [Bool.or_eq_true, Bool.not_eq_true', not_or, Bool.not_eq_false] at hargs
      rcases List.mem_append.mp hn with hn | hn
      · exact h n hn
      · rw [List.mem_singleton.mp hn]
        exact hargs.2
  | remove peer server =>
      rw [LinkTree.apply]
      unfold LinkTree.remove
      split
      swap
      · exact h
      split
      · exact h
      intro n hn
      obtain ⟨e, he, rfl⟩ := List.mem_map.mp hn
      exact h _ (List.mem_of_getElem? (List.mem_zipIdx_iff_getElem?.mp (List.mem_filter.mp he).1))

theorem Sited.run (h : Sited t) (ops : List LinkTree.Op) : Sited (LinkTree.run u t ops) := by
  induction ops generalizing t with
  | nil => exact h
  | cons op ops ih => exact ih (h.apply op)

/-- The tree that a server starts with. -/
theorem init_tree {limit : Nat} {site : String} {s : Links}
    (hinit : Links.init u loc limit site = some s) :
    LinkTree.WellFormed u loc s.tree ∧ Sited s.tree := by
  unfold Links.init at hinit
  split at hinit
  · exact absurd hinit (by simp)
  rename_i t hnew
  split at hinit
  swap
  · exact absurd hinit (by simp)
  rename_i hsite
  obtain rfl := Option.some.inj hinit
  have hset : (t.setLocalSite (some site)).2 = { t with nodes := t.nodes.map fun n => { n with site := site } } := by
    have hone : t.nodes.length = 1 := by
      unfold LinkTree.new at hnew
      split at hnew
      · exact absurd hnew (by simp)
      · rw [← Option.some.inj hnew]
        rfl
    obtain ⟨n, hn⟩ := List.length_eq_one_iff.mp hone
    unfold LinkTree.setLocalSite
    simp only [hsite, if_true, hn, List.modifyHead_cons, List.map_cons, List.map_nil]
  refine ⟨?_, fun n hn => ?_⟩
  · have hw := (LinkTree.WellFormed.new hnew).1.setLocalSite (some site)
    rw [hset] at hw
    exact hw
  · obtain ⟨m, -, rfl⟩ := List.mem_map.mp hn
    exact hsite

/-- The table, with the local server as the root. -/
theorem snapshotNodes_eq (h : LinkTree.WellFormed u loc t) : ∃ site,
    t.nodes = ⟨loc, "", "", site⟩ :: t.remote ∧
    Links.snapshotNodes t = ⟨some loc, none, some site⟩ ::
      t.remote.map fun n => ⟨some n.server, some n.parent, some n.site⟩ := by
  obtain ⟨site, hroot⟩ := h.root
  refine ⟨site, hroot, ?_⟩
  have hcount : t.count = t.remote.length + 1 := by
    unfold LinkTree.count
    rw [hroot, List.length_cons]
  have hrest : ∀ i, t.node (i + 1) = t.remote[i]?.map
      fun n => ⟨some n.server, some n.parent, some n.site⟩ := by
    intro i
    unfold LinkTree.node
    rw [hroot]
    simp
  have hfirst : t.node 0 = some ⟨some loc, none, some site⟩ := by
    unfold LinkTree.node
    rw [hroot]
    rfl
  have hall : ∀ l : List LinkNode, (List.range l.length).filterMap (fun i => l[i]?.map
      fun n => (⟨some n.server, some n.parent, some n.site⟩ : LinkNodeT)) =
        l.map fun n => ⟨some n.server, some n.parent, some n.site⟩ := by
    intro l
    induction l with
    | nil => rfl
    | cons n l ih =>
        rw [List.length_cons, List.range_succ_eq_map, List.filterMap_cons]
        simp only [List.getElem?_cons_zero, Option.map_some, List.filterMap_map, List.map_cons]
        congr 1
  unfold Links.snapshotNodes
  rw [hcount, List.range_succ_eq_map, List.filterMap_cons, hfirst]
  simp only [List.filterMap_map]
  congr 1
  rw [← hall t.remote]
  exact List.filterMap_congr fun i _ => hrest i

end LinkSnapshot

end RustyRig

/-!
The snapshot frame says what the tree is.

The frame of every tree that the server's calls build has room in its buffer, the receiver reads
the nodes that the sender has, and it can attach them where none of the servers is known.  A
site comes back from hexadecimal if it has a byte at all: the empty text has no code.
-/

namespace RustyRig

open Lib

namespace LinkSnapshot

variable {u : UuidFormat} {t : LinkTree} {loc : String}

/-- The empty site is written as an empty text, which `decode_site` refuses. -/
theorem encodeSite_empty : ¬ ∀ site : List UInt8, 0 ∉ site → site.length < 128 →
    decodeSite (encodeSite site) 128 = some site := by
  intro h
  exact absurd (h [] List.not_mem_nil (by decide)) (by decide)

/-- Every entry of a tree can be read again. -/
theorem clean_snapshot (hplain : u.Plain) (h : LinkTree.WellFormed u loc t) (hsited : Sited t) :
    ∀ n ∈ (Links.snapshotNodes t).map nodeBytes, Clean n := by
  obtain ⟨site, hroot, heq⟩ := snapshotNodes_eq h
  have hlocal : (⟨loc, "", "", site⟩ : LinkNode) ∈ t.nodes := by
    rw [hroot]
    exact List.mem_cons_self
  have hloc := h.valid _ hlocal
  intro n hn
  rw [heq, List.map_cons, List.map_map] at hn
  rcases List.mem_cons.mp hn with rfl | hn
  · exact ⟨bytes_identity hplain hloc, fun _ hp => absurd hp (by simp [nodeBytes]),
      bytes_site (hsited _ hlocal)⟩
  · obtain ⟨m, hm, rfl⟩ := List.mem_map.mp hn
    have hmem := LinkTree.WellFormed.remote_mem hm
    obtain ⟨k, hk, hparent⟩ := h.parent_known hm
    refine ⟨bytes_identity hplain (h.valid m hmem), fun p hp => ?_, bytes_site (hsited m hmem)⟩
    obtain rfl := Option.some.inj hp
    rw [← hparent]
    exact bytes_identity hplain (h.valid k hk)

theorem snapshot_length (h : LinkTree.WellFormed u loc t) :
    (Links.snapshotNodes t).length = t.count := by
  obtain ⟨site, hroot, heq⟩ := snapshotNodes_eq h
  unfold LinkTree.count
  rw [heq, hroot]
  simp

theorem text_length_le : ∀ ns : List Node, (∀ n ∈ ns, Clean n) → (text ns).length ≤ 329 * ns.length
  | [], _ => Nat.le_refl _
  | n :: ns, h => by
      have hrest : ∀ ns : List Node, (∀ n ∈ ns, Clean n) →
          (ns.flatMap fun n => space :: entry n).length ≤ 329 * ns.length := by
        intro ns
        induction ns with
        | nil => exact fun _ => Nat.le_refl _
        | cons n ns ih =>
            intro hns
            have hlen := (hns n List.mem_cons_self).entry_length
            have htail := ih fun m hm => hns m (List.mem_cons_of_mem _ hm)
            rw [List.flatMap_cons, List.length_append, List.length_cons, List.length_cons]
            omega
      have hlen := (h n List.mem_cons_self).entry_length
      have htail := hrest ns fun m hm => h m (List.mem_cons_of_mem _ hm)
      rw [text_cons, List.length_append, List.length_cons]
      omega

/-- Bytes tell the nodes of a table apart. -/
theorem nodeBytes_inj {a b : LinkNodeT} (ha : a.server ≠ none ∧ a.site ≠ none)
    (hb : b.server ≠ none ∧ b.site ≠ none) (h : nodeBytes a = nodeBytes b) : a = b := by
  obtain ⟨server, parent, site⟩ := a
  obtain ⟨server', parent', site'⟩ := b
  obtain ⟨s, rfl⟩ := Option.ne_none_iff_exists'.mp ha.1
  obtain ⟨w, rfl⟩ := Option.ne_none_iff_exists'.mp ha.2
  obtain ⟨s', rfl⟩ := Option.ne_none_iff_exists'.mp hb.1
  obtain ⟨w', rfl⟩ := Option.ne_none_iff_exists'.mp hb.2
  simp only [nodeBytes, Option.getD_some, Node.mk.injEq] at h
  rw [bytes_injective h.1, bytes_injective h.2.2, Option.map_injective bytes_injective h.2.1]

theorem map_nodeBytes_inj : ∀ {ns ms : List LinkNodeT},
    (∀ n ∈ ns, n.server ≠ none ∧ n.site ≠ none) → (∀ n ∈ ms, n.server ≠ none ∧ n.site ≠ none) →
      ns.map nodeBytes = ms.map nodeBytes → ns = ms
  | [], ms, _, _, h => (List.map_eq_nil_iff.mp h.symm).symm
  | n :: ns, [], _, _, h => absurd h (by simp)
  | n :: ns, m :: ms, hn, hm, h => by
      rw [List.map_cons, List.map_cons, List.cons.injEq] at h
      rw [nodeBytes_inj (hn n List.mem_cons_self) (hm m List.mem_cons_self) h.1,
        map_nodeBytes_inj (fun k hk => hn k (List.mem_cons_of_mem _ hk))
          (fun k hk => hm k (List.mem_cons_of_mem _ hk)) h.2]

/-- To a receiver that knows none of its servers the table is a tree with the sender as its root. -/
theorem offeredTree_snapshot (h : LinkTree.WellFormed u loc t) {r : LinkTree}
    (hnew : ∀ n ∈ t.nodes, ∀ m ∈ r.nodes, m.server ≠ n.server) (hroom : r.count + t.count ≤ r.limit) :
    LinkTree.OfferedTree u r loc (Links.snapshotNodes t) := by
  obtain ⟨site, hroot, heq⟩ := snapshotNodes_eq h
  have hlocal : (⟨loc, "", "", site⟩ : LinkNode) ∈ t.nodes := by
    rw [hroot]
    exact List.mem_cons_self
  -- Every offered node is one of the table's, with its server.
  have hmem : ∀ k ∈ Links.snapshotNodes t, ∃ n ∈ t.nodes, k.server = some n.server := by
    intro k hk
    rw [heq] at hk
    rcases List.mem_cons.mp hk with rfl | hk
    · exact ⟨_, hlocal, rfl⟩
    · obtain ⟨n, hn, rfl⟩ := List.mem_map.mp hk
      exact ⟨n, LinkTree.WellFormed.remote_mem hn, rfl⟩
  have hoffered : ∀ n ∈ t.nodes, ∃ k ∈ Links.snapshotNodes t, k.server = some n.server := by
    intro n hn
    rw [heq]
    rw [hroot] at hn
    rcases List.mem_cons.mp hn with rfl | hn
    · exact ⟨_, List.mem_cons_self, rfl⟩
    · exact ⟨_, List.mem_cons_of_mem _ (List.mem_map_of_mem hn), rfl⟩
  have hedge : ∀ {a b : String}, t.Edge a b → LinkTree.OfferedEdge (Links.snapshotNodes t) a b := by
    rintro a b ⟨n, hn, rfl, rfl⟩
    rw [heq]
    exact ⟨_, List.mem_cons_of_mem _ (List.mem_map_of_mem hn), rfl, rfl⟩
  refine ⟨by rw [heq]; simp, fun k hk => ?_, ?_, fun k hk => ?_, ?_, fun k hk => ?_, fun k hk q hq => ?_,
    fun k hk => ?_, snapshot_length h ▸ hroom⟩
  · obtain ⟨n, hn, hs⟩ := hmem k hk
    rw [hs]
    exact h.valid n hn
  · have hservers : (Links.snapshotNodes t).map (·.server) = (t.nodes.map (·.server)).map some := by
      rw [heq, hroot]
      simp
    rw [hservers]
    exact h.distinct.map fun _ _ => Option.some.inj
  · obtain ⟨n, hn, hs⟩ := hmem k hk
    rw [hs]
    exact LinkTree.find_none.mpr (hnew n hn)
  · exact hoffered _ hlocal
  · rw [heq] at hk
    rcases List.mem_cons.mp hk with rfl | hk
    · simp
    · obtain ⟨n, hn, rfl⟩ := List.mem_map.mp hk
      have hne := h.remote_ne hn
      simp [hne]
  · rw [heq] at hk
    rcases List.mem_cons.mp hk with rfl | hk
    · exact absurd hq (by simp)
    · obtain ⟨n, hn, rfl⟩ := List.mem_map.mp hk
      obtain ⟨m, hm, hparent⟩ := h.parent_known hn
      obtain ⟨k, hk, hs⟩ := hoffered m hm
      exact ⟨k, hk, by rw [hs, hparent]; exact hq⟩
  · obtain ⟨n, hn, hs⟩ := hmem k hk
    obtain ⟨p, hp, -⟩ := h.climbs hn
    exact ⟨n.server, p, hs, hp.mono hedge⟩

/-- **A snapshot is read as it is written**, for every tree of a server that has its station name,
and sites come back from hexadecimal. -/
theorem snapshot_round_trip (hplain : u.Plain) {limit : Nat} {site : String} {s : Links}
    (hinit : Links.init u loc limit site = some s) (ops : List LinkTree.Op) :
    let t := LinkTree.run u s.tree ops
    (∃ text, sendSnapshot t = some text ∧ text.length < t.count * 332 + 1 ∧
        handleSnapshot text = (Links.snapshotNodes t).map nodeBytes) ∧
      (∀ ns : List LinkNodeT, (∀ n ∈ ns, n.server ≠ none ∧ n.site ≠ none) →
        ns.map nodeBytes = (Links.snapshotNodes t).map nodeBytes → ns = Links.snapshotNodes t) ∧
      (∃ site, t.nodes = ⟨loc, "", "", site⟩ :: t.remote ∧
        Links.snapshotNodes t = ⟨some loc, none, some site⟩ ::
          t.remote.map fun n => ⟨some n.server, some n.parent, some n.site⟩) ∧
      (∀ r : LinkTree, (∀ n ∈ t.nodes, ∀ m ∈ r.nodes, m.server ≠ n.server) →
        r.count + t.count ≤ r.limit →
        (LinkTree.attach u r (some loc) (Links.snapshotNodes t)).1 = .ok) ∧
      ∀ hex site, decodeSite hex 128 = some site ↔
        site ≠ [] ∧ 0 ∉ site ∧ site.length < 128 ∧ hex = encodeSite site := by
  intro t
  have h : LinkTree.WellFormed u loc t := (init_tree hinit).1.run ops
  have hsited : Sited t := (init_tree hinit).2.run ops
  have hclean := clean_snapshot hplain h hsited
  have hlen : ((Links.snapshotNodes t).map nodeBytes).length = t.count :=
    (List.length_map _).trans (snapshot_length h)
  have hsmall : t.count ≤ 256 := Nat.le_trans h.count_le h.limit_le
  obtain ⟨site, hroot, heq⟩ := snapshotNodes_eq h
  have hfull : ∀ n ∈ Links.snapshotNodes t, n.server ≠ none ∧ n.site ≠ none := by
    intro k hk
    rw [heq] at hk
    rcases List.mem_cons.mp hk with rfl | hk
    · exact ⟨by simp, by simp⟩
    · obtain ⟨n, -, rfl⟩ := List.mem_map.mp hk
      exact ⟨by simp, by simp⟩
  refine ⟨⟨_, write_eq hclean (by rw [hlen]; omega), ?_, handleSnapshot_text hclean (hlen ▸ hsmall)⟩,
    fun ns hns heq => map_nodeBytes_inj hns hfull heq, ⟨site, hroot, heq⟩, fun r hnew hroom => ?_,
    fun _ _ => decodeSite_eq_some⟩
  · have hbound := text_length_le _ hclean
    rw [hlen] at hbound
    omega
  · refine LinkTree.attach_ok_iff.mpr ⟨loc, rfl, offeredTree_snapshot h hnew hroom, fun k hk => ?_⟩
    rw [heq] at hk
    rcases List.mem_cons.mp hk with rfl | hk
    · exact hsited ⟨loc, "", "", site⟩ (hroot ▸ List.mem_cons_self)
    · obtain ⟨n, hn, rfl⟩ := List.mem_map.mp hk
      exact hsited n (LinkTree.WellFormed.remote_mem hn)

theorem hex_plain : UuidFormat.hex.Plain := by
  intro id h c hc
  simp only [UuidFormat.hex, Bool.and_eq_true, List.all_eq_true] at h
  obtain ⟨i, hi⟩ := List.mem_iff_getElem?.mp hc
  have hdigit := h.2 (c, i) (List.mem_zipIdx_iff_getElem?.mpr hi)
  simp only at hdigit
  split at hdigit
  · exact Or.inl (beq_iff_eq.mp hdigit)
  · simp only [Bool.or_eq_true, decide_eq_true_eq] at hdigit
    exact Or.inr hdigit

/-- A server with one peer. -/
theorem snapshot_round_trip_pair :
    let a := "aaaaaaaa-0000-4000-8000-000000000001"
    let b := "bbbbbbbb-0000-4000-8000-000000000002"
    let t := LinkTree.run .hex ⟨[⟨a, "", "", "Home, on air"⟩], 3⟩
      [.attach (some b) [⟨some b, none, some "B"⟩]]
    t.count = 2 ∧ ∃ text, sendSnapshot t = some text ∧ text.length < t.count * 332 + 1 ∧
      handleSnapshot text = (Links.snapshotNodes t).map nodeBytes := by
  intro a b t
  have hinit : Links.init .hex a 3 "Home, on air" =
      some ⟨a, ⟨[⟨a, "", "", "Home, on air"⟩], 3⟩, 0, [], 0, []⟩ := by decide +kernel
  have hround := snapshot_round_trip hex_plain hinit [.attach (some b) [⟨some b, none, some "B"⟩]]
  exact ⟨by decide +kernel, hround.1⟩

end LinkSnapshot

end RustyRig
