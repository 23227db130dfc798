/-
The import of enrolled issuers after a run.

A run that leaves the table of issuers alone may still add trust and endpoints.  The import
looks for the URL of a peer in both, and more endpoints never take a URL away.
-/
import RustyRig.Rrserver.MeshEnroll

namespace RustyRig

namespace MeshEnroll

open Invitation (trustVerify)

variable {i : Import} {uri : String → Option Uri} {fails : DbStep → Bool} {db x : Db}
  {domain node enrollment : String}

/-! ### URLs -/

theorem bootstrapStoreEndpoint_cases (uri : String → Option Uri) (fails : DbStep → Bool) (db : Db)
    (domain node enrollment : String) (port : Nat) :
    bootstrapStoreEndpoint uri fails db domain node enrollment port = (false, db) ∨
      ∃ url, endpoint uri enrollment port = some url ∧
        bootstrapStoreEndpoint uri fails db domain node enrollment port =
          (true, { db with endpoints := Function.update db.endpoints (domain, node) (some url) }) := by
  unfold bootstrapStoreEndpoint
  cases endpoint uri enrollment port with
  | none => exact Or.inl rfl
  | some url =>
      dsimp only
      by_cases hfails : (fails .endpointSchema || fails .endpointPrepare || fails .endpointStep) = true
      · exact Or.inl (if_pos hfails)
      · exact Or.inr ⟨url, rfl, if_neg hfails⟩

/-- A URL comes from the stored endpoint or from the enrollment, and the migration of a stored
endpoint stores one again. -/
theorem bootstrapUrl_spec (uri : String → Option Uri) (fails : DbStep → Bool) (db : Db)
    (domain node enrollment : String) :
    ((bootstrapUrl uri fails db domain node enrollment).1.isSome =
        ((db.endpoints (domain, node)).isSome || (endpoint uri enrollment 4420).isSome)) ∧
      (bootstrapUrl uri fails db domain node enrollment).2.base = db.base ∧
      ∀ k, ((bootstrapUrl uri fails db domain node enrollment).2.endpoints k).isSome =
        (db.endpoints k).isSome := by
  unfold bootstrapUrl
  dsimp only
  split
  · rename_i migrated hlegacy hmigrated
    simp only [Bool.and_eq_true] at hlegacy
    have hstored := hlegacy.1.2
    rw [hmigrated]
    rcases bootstrapStoreEndpoint_cases uri fails db domain node enrollment 4420 with h | ⟨url, -, h⟩
    · rw [h]
      exact ⟨by rw [hstored]; rfl, rfl, fun k => rfl⟩
    · rw [h]
      refine ⟨by rw [hstored]; rfl, rfl, fun k => ?_⟩
      dsimp only
      by_cases hk : k = (domain, node)
      · rw [hk, Function.update_self, hstored]
        rfl
      · rw [Function.update_of_ne hk]
  · refine ⟨?_, rfl, fun k => rfl⟩
    cases db.endpoints (domain, node) <;> rfl

/-! ### The loop -/

/-- What the import reads of the trust is the same, and no endpoint is missing. -/
structure Richer (i : Import) (db x : Db) : Prop where
  trust : ∀ node, x.base.trust (i.domain, node) = db.base.trust (i.domain, node)
  endpoints : ∀ k, (db.endpoints k).isSome = true → (x.endpoints k).isSome = true

theorem acceptable_of_richer (h : Richer i db x) (r : BootstrapPeer) :
    acceptable i x r = acceptable i db r := by
  unfold acceptable trustVerify
  rw [h.trust]

/-- The same peers are imported. -/
theorem importRows_richer : ∀ (rows : List BootstrapPeer) {db x : Db} {peers peers' out : List ImportedPeer},
    Richer i db x → peers'.map ImportedPeer.node = peers.map ImportedPeer.node →
      importRows i rows db peers = some out → ∃ out', importRows i rows x peers' = some out' ∧
        out'.map ImportedPeer.node = out.map ImportedPeer.node := by
  intro rows
  induction rows with
  | nil =>
      intro db x peers peers' out _ hpeers hout
      refine ⟨peers', rfl, ?_⟩
      rw [hpeers, Option.some.inj hout]
  | cons r rows ih =>
      intro db x peers peers' out hricher hpeers hout
      have hknown : peers'.any (·.node == r.node) = peers.any (·.node == r.node) := by
        have hmap := congrArg (fun l => l.any (· == r.node)) hpeers
        simpa only [List.any_map, Function.comp_def] using hmap
      have hlength : peers'.length = peers.length := by
        have hmap := congrArg List.length hpeers
        rwa [List.length_map, List.length_map] at hmap
      unfold importRows at hout ⊢
      rw [acceptable_of_richer hricher, hknown, hlength]
      by_cases haccept : (!acceptable i db r) = true
      · rw [if_pos haccept] at hout ⊢
        exact ih hricher hpeers hout
      rw [if_neg haccept] at hout ⊢
      by_cases hk : peers.any (·.node == r.node) = true
      · rw [if_pos hk] at hout ⊢
        exact ih hricher hpeers hout
      rw [if_neg hk] at hout ⊢
      by_cases hfull : peers.length = maxPeers
      · rw [if_pos hfull] at hout ⊢
        exact ⟨peers', rfl, by rw [hpeers, Option.some.inj hout]⟩
      rw [if_neg hfull] at hout ⊢
      obtain ⟨hsome, hbase, hends⟩ := bootstrapUrl_spec i.uri i.fails db i.domain r.node r.url
      obtain ⟨hsome', hbase', hends'⟩ := bootstrapUrl_spec i.uri i.fails x i.domain r.node r.url
      generalize bootstrapUrl i.uri i.fails db i.domain r.node r.url = a at hout hsome hbase hends
      generalize bootstrapUrl i.uri i.fails x i.domain r.node r.url = b at hsome' hbase' hends' ⊢
      obtain ⟨url, db₁⟩ := a
      obtain ⟨url', x₁⟩ := b
      cases url with
      | none => exact absurd hout (Option.some_ne_none out).symm
      | some url =>
          have hurl : url'.isSome = true := by
            rw [hsome']
            rcases Bool.or_eq_true_iff.mp hsome.symm with h | h
            · rw [hricher.endpoints _ h, Bool.true_or]
            · rw [h, Bool.or_true]
          obtain ⟨u, hu⟩ := Option.isSome_iff_exists.mp hurl
          subst hu
          refine ih ⟨fun n => ?_, fun k hk => ?_⟩ ?_ hout
          · rw [show x₁.base = x.base from hbase', show db₁.base = db.base from hbase]
            exact hricher.trust n
          · rw [hends']
            exact hricher.endpoints k (by rw [← hends]; exact hk)
          · rw [List.map_append, List.map_append, hpeers]
            rfl

/-- A peer that is imported is trusted. -/
theorem trust_of_imported : ∀ (rows : List BootstrapPeer) {db : Db} {peers out : List ImportedPeer},
    importRows i rows db peers = some out → node ∉ peers.map ImportedPeer.node →
      node ∈ out.map ImportedPeer.node → (db.base.trust (i.domain, node)).isSome = true := by
  intro rows
  induction rows with
  | nil =>
      intro db peers out hout hnew hnode
      rw [← Option.some.inj hout] at hnode
      exact absurd hnode hnew
  | cons r rows ih =>
      intro db peers out hout hnew hnode
      unfold importRows at hout
      by_cases haccept : (!acceptable i db r) = true
      · rw [if_pos haccept] at hout
        exact ih hout hnew hnode
      rw [if_neg haccept] at hout
      by_cases hk : peers.any (·.node == r.node) = true
      · rw [if_pos hk] at hout
        exact ih hout hnew hnode
      rw [if_neg hk] at hout
      by_cases hfull : peers.length = maxPeers
      · rw [if_pos hfull] at hout
        rw [← Option.some.inj hout] at hnode
        exact absurd hnode hnew
      rw [if_neg hfull] at hout
      obtain ⟨-, hbase, -⟩ := bootstrapUrl_spec i.uri i.fails db i.domain r.node r.url
      generalize bootstrapUrl i.uri i.fails db i.domain r.node r.url = a at hout hbase
      obtain ⟨url, db₁⟩ := a
      cases url with
      | none => exact absurd hout (Option.some_ne_none out).symm
      | some url =>
          by_cases hr : node = r.node
          · rw [Bool.not_eq_true', Bool.not_eq_false] at haccept
            unfold acceptable at haccept
            have hverify := (Bool.and_eq_true_iff.mp haccept).2
            unfold trustVerify at hverify
            split at hverify
            · exact absurd hverify Bool.false_ne_true
            · rw [hr]
              cases htrust : db.base.trust (i.domain, r.node) with
              | none =>
                  rw [htrust] at hverify
                  exact absurd hverify Bool.false_ne_true
              | some t => rfl
          · rw [← show db₁.base = db.base from hbase]
            refine ih hout ?_ hnode
            rw [List.map_append, List.mem_append]
            rintro (h | h)
            · exact hnew h
            · exact hr (List.mem_singleton.mp h)

end MeshEnroll

end RustyRig
