/-
The audio graph stays acyclic.

`Sound` is what every call keeps, and what makes the search behind a link answer: there are no more
nodes than its queue holds.  A link is then refused for a cycle exactly when it would close one.
-/
import RustyRig.Lib.Acyclic
import RustyRig.Rrclient.AudioGraph

namespace RustyRig

namespace AudioGraph

open Lib Relation

variable {g g' : Graph} {id : Option Id} {a b i : Nat} {e : Edge} {events : List Event}

/-- A link leads from one node to another. -/
def Leads (g : Graph) (x y : Nat) : Prop := ∃ e ∈ g.edges, e.src = x ∧ e.dst = y

/-- What every call keeps. -/
structure Sound (g : Graph) : Prop where
  small : g.nodes.length ≤ 256
  names : (g.nodes.map (·.id)).Nodup
  ends : ∀ e ∈ g.edges, e.src < g.nodes.length ∧ e.dst < g.nodes.length
  acyclic : Acyclic (Leads g)
  /-- No link leaves a sink or enters a source. -/
  outward : ∀ e ∈ g.edges, ∀ n, g.nodes[e.src]? = some n → n.type ≠ .sink
  inward : ∀ e ∈ g.edges, ∀ n, g.nodes[e.dst]? = some n → n.type ≠ .source
  /-- A node that does not mix has one input of each type. -/
  single : ∀ v n type, g.nodes[v]? = some n → n.type ≠ .mixer →
    (g.edges.filter fun e => e.dst == v && e.type == type).length ≤ 1

theorem sound_new : Sound .new where
  small := Nat.zero_le _
  names := List.nodup_nil
  ends e he := absurd he List.not_mem_nil
  acyclic v h := by
    obtain ⟨w, ⟨e, he, -⟩, -⟩ := TransGen.head'_iff.mp h
    exact List.not_mem_nil he
  outward e he := absurd he List.not_mem_nil
  inward e he := absurd he List.not_mem_nil
  single _ _ _ _ _ := Nat.zero_le _

theorem lookup_some (h : lookup g id = some i) : ∃ n, g.nodes[i]? = some n ∧ id = some n.id := by
  obtain ⟨name, rfl, hfind⟩ := Option.bind_eq_some_iff.mp h
  obtain ⟨hlt, hid, -⟩ := List.findIdx?_eq_some_iff_getElem.mp hfind
  exact ⟨g.nodes[i], List.getElem?_eq_getElem hlt, congrArg some (eq_of_beq hid).symm⟩

theorem lookup_lt (h : lookup g id = some i) : i < g.nodes.length := by
  obtain ⟨n, hn, -⟩ := lookup_some h
  exact (List.getElem?_eq_some_iff.mp hn).1

/-- The search answers whether a path leads there. -/
theorem Sound.reaches (h : Sound g) (hb : b < g.nodes.length) :
    ∃ r, graphReaches g b a = some r ∧ (r = true ↔ ReflTransGen (Leads g) b a) := by
  have hedges : ∀ p ∈ g.edges.map fun e => (e.src, e.dst), p.2 < g.nodes.length := by
    intro p hp
    obtain ⟨e, he, rfl⟩ := List.mem_map.mp hp
    exact (h.ends e he).2
  obtain ⟨r, hsearch, hiff⟩ :
      ∃ r, graphReaches g b a = some r ∧ (r = true ↔ ReflTransGen (Frontier.Steps _) b a) :=
    Frontier.search_spec h.small hedges hb
  refine ⟨r, hsearch, hiff.trans ?_⟩
  have hsteps : Frontier.Steps (g.edges.map fun e => (e.src, e.dst)) = Leads g := by
    funext x y
    apply propext
    constructor
    · intro hmem
      obtain ⟨e, he, heq⟩ := List.mem_map.mp hmem
      obtain ⟨hx, hy⟩ := Prod.mk.inj heq
      exact ⟨e, he, hx, hy⟩
    · intro hleads
      obtain ⟨e, he, rfl, rfl⟩ := hleads
      exact List.mem_map.mpr ⟨e, he, rfl⟩
  rw [hsteps]

/-! ### What a call does -/

/-- A node is added under a name of its own, stopped; or nothing happens. -/
theorem addNode_cases (g : Graph) (id : Option Id) (type : Nat) :
    addNode g id type = (false, g) ∨
      ∃ n, addNode g id type = (true, { g with nodes := g.nodes ++ [n] }) ∧ g.nodes.length < 256 ∧
        n.id ∉ g.nodes.map (·.id) := by
  unfold addNode
  split
  · rename_i name type' _
    split
    · exact Or.inl rfl
    · rename_i hok
      simp only [Bool.or_eq_true, decide_eq_true_eq, not_or, Bool.not_eq_true, Option.isSome_eq_false_iff] at hok
      obtain ⟨⟨-, hunknown⟩, hroom⟩ := hok
      refine Or.inr ⟨_, rfl, by omega, ?_⟩
      intro hmem
      obtain ⟨n, hn, hname⟩ := List.mem_map.mp hmem
      have hnone : (g.nodes.findIdx? fun n => n.id == name) = none := Option.isNone_iff_eq_none.mp hunknown
      have hdiffers := List.findIdx?_eq_none_iff.mp hnone n hn
      rw [hname] at hdiffers
      simp at hdiffers
  · exact Or.inl rfl

/-- What a link is checked for before the search. -/
structure Linkable (g : Graph) (src dst : Option Id) (a b : Nat) (channels : UInt32) (source into : Node) : Prop where
  src_found : lookup g src = some a
  src_node : g.nodes[a]? = some source
  dst_found : lookup g dst = some b
  dst_node : g.nodes[b]? = some into
  distinct : a ≠ b
  channels : channels ≠ 0 ∧ channels &&& ~~~3 = 0
  room : g.edges.length < 512
  outward : source.type ≠ .sink
  inward : into.type ≠ .source

/-- Where the checks pass, the search decides with the inputs that are taken. -/
theorem addChannelLink_eq {src dst : Option Id} {type : Nat} {channels : UInt32} {kind : LinkType}
    {source into : Node} (h : Sound g) (hkind : LinkType.ofNat? type = some kind)
    (hlink : Linkable g src dst a b channels source into) :
    ∃ r, (r = true ↔ ReflTransGen (Leads g) b a) ∧
      addChannelLink g src dst type channels = some (if r || taken g a b into kind then (false, g)
        else (true, { g with edges := g.edges ++ [{ src := a, dst := b, type := kind, channels := channels }] })) := by
  obtain ⟨r, hreaches, hiff⟩ := h.reaches (lookup_lt hlink.dst_found)
  refine ⟨r, hiff, ?_⟩
  have hchecks : (a == b || channels == 0 || channels &&& ~~~3 != 0 || decide (512 ≤ g.edges.length)) = false := by
    rw [beq_eq_false_iff_ne.mpr hlink.distinct, beq_eq_false_iff_ne.mpr hlink.channels.1, hlink.channels.2,
      decide_eq_false (Nat.not_le.mpr hlink.room)]
    rfl
  have htypes : ¬ (source.type = .sink ∨ into.type = .source) := not_or.mpr ⟨hlink.outward, hlink.inward⟩
  unfold addChannelLink
  rw [hlink.src_found, hlink.dst_found, hkind]
  dsimp only
  rw [hchecks, if_neg Bool.false_ne_true, hlink.src_node, hlink.dst_node]
  dsimp only
  rw [if_neg htypes, hreaches]
  rfl

/-- A link is refused by its checks, or they pass. -/
theorem addChannelLink_cases (g : Graph) (src dst : Option Id) (type : Nat) (channels : UInt32) :
    addChannelLink g src dst type channels = some (false, g) ∨
      ∃ a b kind source into, LinkType.ofNat? type = some kind ∧ Linkable g src dst a b channels source into := by
  generalize hout : addChannelLink g src dst type channels = out
  unfold addChannelLink at hout
  split at hout
  · rename_i a b kind ha hb hkind
    split at hout
    · exact Or.inl hout.symm
    · rename_i hok
      simp only [Bool.or_eq_true, beq_iff_eq, bne_iff_ne, decide_eq_true_eq, not_or, ne_eq, Decidable.not_not] at hok
      obtain ⟨⟨⟨hne, hzero⟩, hmask⟩, hroom⟩ := hok
      obtain ⟨source, hsource, -⟩ := lookup_some ha
      obtain ⟨into, hinto, -⟩ := lookup_some hb
      rw [hsource, hinto] at hout
      dsimp only at hout
      split at hout
      · exact Or.inl hout.symm
      · rename_i htypes
        exact Or.inr ⟨a, b, kind, source, into, hkind, ha, hsource, hb, hinto, hne, ⟨hzero, hmask⟩, by omega,
          fun hsink => htypes (Or.inl hsink), fun hsrc => htypes (Or.inr hsrc)⟩
  · exact Or.inl hout.symm

/-! ### Every call keeps it -/

theorem Sound.addNode (h : Sound g) (id : Option Id) (type : Nat) : Sound (addNode g id type).2 := by
  rcases addNode_cases g id type with heq | ⟨n, heq, hroom, hfresh⟩
  · rw [heq]
    exact h
  · rw [heq]
    -- the links still lead to the same nodes
    have hnode : ∀ (i : Nat) (m : Node), i < g.nodes.length → (g.nodes ++ [n])[i]? = some m → g.nodes[i]? = some m := by
      intro i m hi hm
      rwa [List.getElem?_append_left hi] at hm
    refine ⟨?_, ?_, fun e he => ?_, h.acyclic, fun e he m hm => ?_, fun e he m hm => ?_, ?_⟩
    · rw [List.length_append, List.length_singleton]
      omega
    · rw [List.map_append]
      exact List.Nodup.append h.names (List.nodup_singleton n.id) (List.disjoint_singleton.mpr hfresh)
    · obtain ⟨hsrc, hdst⟩ := h.ends e he
      rw [List.length_append]
      exact ⟨by omega, by omega⟩
    · exact h.outward e he m (hnode _ _ (h.ends e he).1 hm)
    · exact h.inward e he m (hnode _ _ (h.ends e he).2 hm)
    · intro v m kind hm hmix
      by_cases hv : v < g.nodes.length
      · exact h.single v m kind (hnode v m hv hm) hmix
      · -- nothing leads to a new node
        have hnone : g.edges.filter (fun e => e.dst == v && e.type == kind) = [] := by
          refine List.filter_eq_nil_iff.mpr fun e he hdst => hv ?_
          have heq : e.dst = v := eq_of_beq (Bool.and_eq_true_iff.mp hdst).1
          exact heq ▸ (h.ends e he).2
        rw [hnone]
        exact Nat.zero_le _

/-- Changing a node in place changes nothing that is kept, if its name and type stay. -/
theorem Sound.modify (h : Sound g) (i : Nat) {f : Node → Node} (hid : ∀ n, (f n).id = n.id)
    (htype : ∀ n, (f n).type = n.type) : Sound { g with nodes := g.nodes.modify i f } := by
  have hnode : ∀ (j : Nat) (m : Node), (g.nodes.modify i f)[j]? = some m → ∃ n, g.nodes[j]? = some n ∧ m.type = n.type := by
    intro j m hm
    rw [List.getElem?_modify] at hm
    obtain ⟨n, hn, hm⟩ := Option.map_eq_some_iff.mp hm
    refine ⟨n, hn, ?_⟩
    rw [← hm]
    split
    · exact htype n
    · rfl
  have hnames : (g.nodes.modify i f).map (·.id) = g.nodes.map (·.id) := by
    refine List.ext_getElem? fun j => ?_
    rw [List.getElem?_map, List.getElem?_map, List.getElem?_modify]
    cases g.nodes[j]? with
    | none => rfl
    | some n =>
        change some (if i = j then f n else n).id = some n.id
        split
        · rw [hid]
        · rfl
  refine ⟨?_, ?_, fun e he => ?_, h.acyclic, fun e he m hm => ?_, fun e he m hm => ?_, ?_⟩
  · rw [List.length_modify]
    exact h.small
  · rw [hnames]
    exact h.names
  · rw [List.length_modify]
    exact h.ends e he
  · obtain ⟨n, hn, heq⟩ := hnode _ _ hm
    rw [heq]
    exact h.outward e he n hn
  · obtain ⟨n, hn, heq⟩ := hnode _ _ hm
    rw [heq]
    exact h.inward e he n hn
  · intro v m kind hm hmix
    obtain ⟨n, hn, heq⟩ := hnode _ _ hm
    exact h.single v n kind hn (heq ▸ hmix)

/-- The relation of the links with one more. -/
theorem leads_append (x y : Nat) :
    Leads { g with edges := g.edges ++ [e] } x y ↔ withStep (Leads g) e.src e.dst x y := by
  constructor
  · rintro ⟨e', he', hsrc, hdst⟩
    rcases List.mem_append.mp he' with he' | he'
    · exact Or.inl ⟨e', he', hsrc, hdst⟩
    · rw [List.mem_singleton.mp he'] at hsrc hdst
      exact Or.inr ⟨hsrc.symm, hdst.symm⟩
  · rintro (⟨e', he', hsrc, hdst⟩ | ⟨rfl, rfl⟩)
    · exact ⟨e', List.mem_append_left _ he', hsrc, hdst⟩
    · exact ⟨e, List.mem_append_right _ (List.mem_singleton_self e), rfl, rfl⟩

theorem Sound.addLink {src dst : Option Id} {channels : UInt32} {source into : Node} {kind : LinkType} (h : Sound g)
    (hlink : Linkable g src dst a b channels source into) (hback : ¬ ReflTransGen (Leads g) b a)
    (hfree : taken g a b into kind = false) :
    Sound { g with edges := g.edges ++ [{ src := a, dst := b, type := kind, channels := channels }] } := by
  have hmem : ∀ {e : Edge}, e ∈ g.edges ++ [{ src := a, dst := b, type := kind, channels := channels }] →
      e ∈ g.edges ∨ e = { src := a, dst := b, type := kind, channels := channels } := by
    intro e he
    exact (List.mem_append.mp he).imp id List.mem_singleton.mp
  refine ⟨h.small, h.names, fun e he => ?_, ?_, fun e he n hn => ?_, fun e he n hn => ?_, ?_⟩
  · rcases hmem he with he | rfl
    · exact h.ends e he
    · exact ⟨lookup_lt hlink.src_found, lookup_lt hlink.dst_found⟩
  · exact (acyclic_congr leads_append).mpr ((acyclic_withStep_iff h.acyclic).mpr hback)
  · rcases hmem he with he | rfl
    · exact h.outward e he n hn
    · rw [← Option.some.inj (hlink.src_node.symm.trans hn)]
      exact hlink.outward
  · rcases hmem he with he | rfl
    · exact h.inward e he n hn
    · rw [← Option.some.inj (hlink.dst_node.symm.trans hn)]
      exact hlink.inward
  · intro v n type hn hmix
    rw [List.filter_append, List.length_append]
    by_cases hnew : b = v ∧ kind = type
    · obtain ⟨rfl, rfl⟩ := hnew
      -- the input was free
      have hnone : g.edges.filter (fun e => e.dst == b && e.type == kind) = [] := by
        refine List.filter_eq_nil_iff.mpr fun e he hinput => ?_
        have hinto : into.type ≠ .mixer := by
          rw [Option.some.inj (hlink.dst_node.symm.trans hn)]
          exact hmix
        have htaken := List.any_eq_false.mp hfree e he
        rw [Bool.or_eq_true, not_or] at htaken
        refine htaken.2 ?_
        obtain ⟨hdst, htype⟩ := Bool.and_eq_true_iff.mp hinput
        rw [bne_iff_ne.mpr hinto, hdst, htype]
        rfl
      rw [hnone, List.length_nil, Nat.zero_add]
      exact List.length_filter_le _ _
    · have hother : ((b == v) && (kind == type)) = false := by
        rw [Bool.eq_false_iff]
        intro hboth
        obtain ⟨hdst, htype⟩ := Bool.and_eq_true_iff.mp hboth
        exact hnew ⟨eq_of_beq hdst, eq_of_beq htype⟩
      have hnone : [Edge.mk a b kind channels].filter (fun e => e.dst == v && e.type == type) = [] := by
        rw [List.filter_cons, hother]
        rfl
      rw [hnone]
      exact h.single v n type hn hmix

/-- Every call has an outcome, and keeps what is kept. -/
theorem Sound.step (h : Sound g) (event : Event) : ∃ out, step g event = some out ∧ Sound out.2 := by
  cases event with
  | addNode id type => exact ⟨_, rfl, h.addNode id type⟩
  | addLink src dst type channels =>
      rcases addChannelLink_cases g src dst type channels with heq | ⟨a, b, kind, source, into, hkind, hlink⟩
      · exact ⟨_, heq, h⟩
      · obtain ⟨r, hiff, heq⟩ := addChannelLink_eq h hkind hlink
        refine ⟨_, heq, ?_⟩
        split
        · exact h
        · rename_i hok
          obtain ⟨hacyclic, hfree⟩ := Bool.or_eq_false_iff.mp (Bool.eq_false_iff.mpr hok)
          refine h.addLink hlink (fun hback => ?_) hfree
          rw [hiff.mpr hback] at hacyclic
          exact Bool.false_ne_true hacyclic.symm
  | setHealth id health =>
      refine ⟨_, rfl, ?_⟩
      unfold setHealth
      split
      · exact h.modify _ (fun _ => rfl) fun _ => rfl
      · exact h
  | setRoute id route =>
      refine ⟨_, rfl, ?_⟩
      unfold setRoute
      split
      · split
        · exact h.modify _ (fun _ => rfl) fun _ => rfl
        · exact h
      · exact h

theorem Sound.run (h : Sound g) (events : List Event) : ∃ g', run g events = some g' ∧ Sound g' := by
  induction events generalizing g with
  | nil => exact ⟨g, rfl, h⟩
  | cons event rest ih =>
      obtain ⟨out, hstep, hout⟩ := h.step event
      obtain ⟨g', hrun, hg'⟩ := ih hout
      refine ⟨g', ?_, hg'⟩
      rw [AudioGraph.run, List.foldlM_cons, hstep]
      exact hrun

/-! ### Arbitration -/

/-- The node is a source of links of this type into the index. -/
def Feeds (g : Graph) (i : Nat) (type : LinkType) (m : Node) : Prop :=
  ∃ e ∈ g.edges, e.dst = i ∧ e.type = type ∧ g.nodes[e.src]? = some m

theorem feeding_eq_some_iff {n m : Node} {type : LinkType} (h : Sound g) (hn : g.nodes[i]? = some n)
    (hmix : n.type ≠ .mixer) : feeding g i type = some m ↔ Feeds g i type m := by
  have hone := h.single i n type hn hmix
  have hmem : ∀ e, e ∈ g.edges.filter (fun e => e.dst == i && e.type == type) ↔
      e ∈ g.edges ∧ e.dst = i ∧ e.type = type := by
    intro e
    rw [List.mem_filter, Bool.and_eq_true_iff, beq_iff_eq, beq_iff_eq]
  unfold feeding
  generalize g.edges.filter (fun e => e.dst == i && e.type == type) = inputs at hone hmem
  match inputs, hone with
  | [], _ =>
      refine ⟨fun hnone => absurd hnone.symm (Option.some_ne_none m), fun hfeeds => ?_⟩
      obtain ⟨e, he, hdst, htype, -⟩ := hfeeds
      exact absurd ((hmem e).mpr ⟨he, hdst, htype⟩) List.not_mem_nil
  | [e], _ =>
      constructor
      · intro hsource
        obtain ⟨he, hdst, htype⟩ := (hmem e).mp List.mem_cons_self
        exact ⟨e, he, hdst, htype, hsource⟩
      · rintro ⟨e', he', hdst, htype, hsource⟩
        have heq := List.mem_singleton.mp ((hmem e').mpr ⟨he', hdst, htype⟩)
        rw [heq] at hsource
        exact hsource

theorem Sound.lookup_id {n : Node} (h : Sound g) (hn : g.nodes[i]? = some n) : lookup g (some n.id) = some i := by
  obtain ⟨hlt, hget⟩ := List.getElem?_eq_some_iff.mp hn
  refine List.findIdx?_eq_some_iff_getElem.mpr ⟨hlt, by rw [hget]; exact beq_self_eq_true n.id, fun j hj => ?_⟩
  intro hsame
  have hids : (g.nodes.map (·.id))[j]? = (g.nodes.map (·.id))[i]? := by
    rw [List.getElem?_map, List.getElem?_map, hn, List.getElem?_eq_getElem (by omega)]
    exact congrArg some (eq_of_beq hsame)
  have hji : j = i := (List.getElem?_inj (by rw [List.length_map]; omega) h.names).mp hids
  omega

/-- The input of a node that does not mix is its normal one unless that has failed, and then the
bypass if it is healthy. -/
theorem Sound.input {n : Node} {name : Id} (h : Sound g) (hn : g.nodes[i]? = some n) (hmix : n.type ≠ .mixer) :
    input g (some n.id) = some name ↔
      (∃ m, Feeds g i .normal m ∧ m.health ≠ .failed ∧ m.id = name) ∨
        ∃ m f, Feeds g i .normal m ∧ m.health = .failed ∧ Feeds g i .bypass f ∧ f.health = .healthy ∧
          f.id = name := by
  have hany : (g.nodes[i]?.any fun n => n.type == .mixer) = false := by
    rw [hn, Option.any_some]
    exact beq_eq_false_iff_ne.mpr hmix
  have hnormal : ∀ m, feeding g i .normal = some m ↔ Feeds g i .normal m :=
    fun _ => feeding_eq_some_iff h hn hmix
  have hbypass : ∀ m, feeding g i .bypass = some m ↔ Feeds g i .bypass m :=
    fun _ => feeding_eq_some_iff h hn hmix
  unfold AudioGraph.input
  rw [h.lookup_id hn]
  dsimp only
  rw [hany, if_neg Bool.false_ne_true]
  simp only [← hnormal, ← hbypass]
  cases hfirst : feeding g i .normal with
  | none =>
      refine ⟨fun hnone => absurd hnone.symm (Option.some_ne_none name), ?_⟩
      rintro (⟨m, hm, -⟩ | ⟨m, f, hm, -⟩)
      · exact absurd hm.symm (Option.some_ne_none m)
      · exact absurd hm.symm (Option.some_ne_none m)
  | some m =>
      dsimp only
      by_cases hfailed : m.health = .failed
      · rw [if_neg (not_not_intro hfailed)]
        cases hsecond : feeding g i .bypass with
        | none =>
            refine ⟨fun hnone => absurd hnone.symm (Option.some_ne_none name), ?_⟩
            rintro (⟨m', hm, hok, -⟩ | ⟨m', f, -, -, hf, -⟩)
            · exact absurd ((Option.some.inj hm) ▸ hfailed) hok
            · exact absurd hf.symm (Option.some_ne_none f)
        | some f =>
            dsimp only
            by_cases hhealthy : f.health = .healthy
            · rw [if_pos hhealthy]
              constructor
              · intro heq
                exact Or.inr ⟨m, f, rfl, hfailed, rfl, hhealthy, Option.some.inj heq⟩
              · rintro (⟨m', hm, hok, -⟩ | ⟨m', f', -, -, hf, -, hname⟩)
                · exact absurd ((Option.some.inj hm) ▸ hfailed) hok
                · rw [Option.some.inj hf, hname]
            · rw [if_neg hhealthy]
              refine ⟨fun hnone => absurd hnone.symm (Option.some_ne_none name), ?_⟩
              rintro (⟨m', hm, hok, -⟩ | ⟨m', f', -, -, hf, hok, -⟩)
              · exact absurd ((Option.some.inj hm) ▸ hfailed) hok
              · exact absurd ((Option.some.inj hf) ▸ hok) hhealthy
      · rw [if_pos hfailed]
        constructor
        · intro heq
          exact Or.inl ⟨m, rfl, hfailed, Option.some.inj heq⟩
        · rintro (⟨m', hm, -, hname⟩ | ⟨m', f, hm, hbad, -⟩)
          · rw [Option.some.inj hm, hname]
          · exact absurd ((Option.some.inj hm) ▸ hbad) hfailed

/-- A call that is refused changes nothing. -/
theorem step_refused (h : Sound g) {event : Event} (hstep : step g event = some (false, g')) : g' = g := by
  cases event with
  | addNode id type =>
      have hout : addNode g id type = (false, g') := Option.some.inj hstep
      rcases addNode_cases g id type with heq | ⟨n, heq, -⟩
      · rw [heq] at hout
        exact (Prod.mk.inj hout).2.symm
      · rw [heq] at hout
        exact absurd (Prod.mk.inj hout).1.symm Bool.false_ne_true
  | addLink src dst type channels =>
      have hout : addChannelLink g src dst type channels = some (false, g') := hstep
      rcases addChannelLink_cases g src dst type channels with heq | ⟨a, b, kind, source, into, hkind, hlink⟩
      · rw [heq] at hout
        exact (Prod.mk.inj (Option.some.inj hout)).2.symm
      · obtain ⟨r, -, heq⟩ := addChannelLink_eq h hkind hlink
        rw [heq] at hout
        have hout := Option.some.inj hout
        split at hout
        · exact (Prod.mk.inj hout).2.symm
        · exact absurd (Prod.mk.inj hout).1.symm Bool.false_ne_true
  | setHealth id health =>
      have hout : setHealth g id health = (false, g') := Option.some.inj hstep
      unfold setHealth at hout
      split at hout
      · exact absurd (Prod.mk.inj hout).1.symm Bool.false_ne_true
      · exact (Prod.mk.inj hout).2.symm
  | setRoute id route =>
      have hout : setRoute g id route = (false, g') := Option.some.inj hstep
      unfold setRoute at hout
      split at hout
      · split at hout
        · exact absurd (Prod.mk.inj hout).1.symm Bool.false_ne_true
        · exact (Prod.mk.inj hout).2.symm
      · exact (Prod.mk.inj hout).2.symm

/-- **The audio graph**, after any calls: every call has an outcome, so the search never overruns
its queue; links lead from node to node without a cycle, out of no sink and into no source; a node
that does not mix has one input of each type at most, and takes the normal one unless it has
failed, then the bypass if it is healthy; a refused call changes nothing; and a link that passes the
other checks and whose input is free is refused exactly when it would close a cycle. -/
theorem audio_graph (events : List Event) :
    ∃ g, run .new events = some g ∧
      (∀ e ∈ g.edges, e.src < g.nodes.length ∧ e.dst < g.nodes.length) ∧
      Acyclic (Leads g) ∧
      (∀ e ∈ g.edges, ∀ n, (g.nodes[e.src]? = some n → n.type ≠ .sink) ∧
        (g.nodes[e.dst]? = some n → n.type ≠ .source)) ∧
      (∀ i n, g.nodes[i]? = some n → n.type ≠ .mixer →
        (∀ type, (g.edges.filter fun e => e.dst == i && e.type == type).length ≤ 1) ∧
          ∀ name, input g (some n.id) = some name ↔
            (∃ m, Feeds g i .normal m ∧ m.health ≠ .failed ∧ m.id = name) ∨
              ∃ m f, Feeds g i .normal m ∧ m.health = .failed ∧ Feeds g i .bypass f ∧ f.health = .healthy ∧
                f.id = name) ∧
      (∀ event, ∃ out, step g event = some out ∧ (out.1 = false → out.2 = g)) ∧
      ∀ src dst type channels a b kind source into, LinkType.ofNat? type = some kind →
        Linkable g src dst a b channels source into → taken g a b into kind = false →
          (addChannelLink g src dst type channels = some (false, g) ↔ ¬ Acyclic (withStep (Leads g) a b)) := by
  obtain ⟨g, hrun, h⟩ := sound_new.run events
  refine ⟨g, hrun, h.ends, h.acyclic, fun e he n => ⟨h.outward e he n, h.inward e he n⟩, ?_, ?_, ?_⟩
  · intro i n hn hmix
    exact ⟨fun type => h.single i n type hn hmix, fun name => h.input hn hmix⟩
  · intro event
    obtain ⟨⟨ok, g'⟩, hstep, -⟩ := h.step event
    refine ⟨(ok, g'), hstep, fun hrefused => ?_⟩
    have hok : ok = false := hrefused
    rw [hok] at hstep
    exact step_refused h hstep
  · intro src dst type channels a b kind source into hkind hlink hfree
    obtain ⟨r, hiff, heq⟩ := addChannelLink_eq h hkind hlink
    rw [heq, hfree, Bool.or_false, acyclic_withStep_iff h.acyclic, not_not, ← hiff]
    cases r with
    | false =>
        refine ⟨fun hout => ?_, fun hfalse => absurd hfalse Bool.false_ne_true⟩
        exact absurd (Prod.mk.inj (Option.some.inj hout)).1.symm Bool.false_ne_true
    | true => exact ⟨fun _ => rfl, fun _ => rfl⟩

end AudioGraph

end RustyRig
