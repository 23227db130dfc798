/-
Enrolling again with an issuer that is enrolled already.

Up to the pending write a run leaves the table of issuers as it is: what is stored as enrolled
is there.  `Downgrades` says when that write reaches the row, and `enroll_keeps` that this is
the one way to lose it.
-/
import RustyRig.Proofs.MeshEnroll.Import

namespace RustyRig

namespace MeshEnroll

open Invitation (trustEnroll trustVerify)
open Lib (Keyed)

variable {e : Surroundings} {f : Fields} {c : Exchange} {db x : Db} {r : BootstrapPeer} {t : Trail}
  {state : BootstrapState}

/-- The run is for the issuer of this row: no answer that proves itself names another node. -/
structure ForPeer (e : Surroundings) (f : Fields) (r : BootstrapPeer) : Prop where
  domain : f.domain = r.domain
  first : ∀ node port, e.first.reply.bind (statusIssuer e.verify f) = some (node, port) → node = r.node
  challenge : ∀ node challenge,
    e.challenge.reply.bind (challengeIssuer e.verify f) = some (node, challenge) → node = r.node
  second : ∀ node port, e.second.reply.bind (statusIssuer e.verify f) = some (node, port) → node = r.node

/-- The invitation's coordinates are stored and trusted, and the write of the row does not fail. -/
structure Recorded (c : Exchange) (f : Fields) (db : Db) (r : BootstrapPeer) : Prop where
  trust : (trustEnroll c.call db.base f.domain r.node f.catalog f.spki).1 = true
  fails : (c.fails .schema || c.fails .prepare || c.fails .step) = false
  coordinates : r.url = f.url ∧ r.catalogKey = f.catalog ∧ r.tlsSpki = f.spki

/-- The first answer confirms the redemption, and all of it is recorded. -/
def Confirmed (e : Surroundings) (f : Fields) (db : Db) (r : BootstrapPeer) : Prop :=
  ∃ text port, e.first.reply.bind (statusIssuer e.verify f) = some (r.node, text) ∧
    Recorded e.first f db r ∧ announcedPort text = some port ∧
    (endpoint e.uri f.url port).isSome = true ∧
    (e.first.fails .endpointSchema || e.first.fails .endpointPrepare ||
      e.first.fails .endpointStep) = false

/-- The pending write reaches the row. -/
def Downgrades (e : Surroundings) (f : Fields) (db : Db) (r : BootstrapPeer) : Prop :=
  ∃ p, prepare e f = some p ∧ ¬ Confirmed e f db r ∧ signedIssuer e f p = some r.node ∧
    Recorded e.challenge f db r

/-- The issuer is stored as enrolled. -/
def Enrolled (db : Db) (k : String × String) : Prop :=
  ∃ r ∈ db.peers.rows, r.key = k ∧ r.state = .enrolled

/-- The import brings in the node. -/
def Imported (i : Import) (db : Db) (peers : List ImportedPeer) (node : String) : Prop :=
  ∃ out, importEnrolled i db peers = some out ∧ node ∈ out.map ImportedPeer.node

/-! ### What a run keeps -/

/-- The issuers are as they were, and at most the trust in this one and endpoints came. -/
structure Untouched (f : Fields) (r : BootstrapPeer) (db x : Db) : Prop where
  peers : x.peers = db.peers
  other : ∀ k, k ≠ r.key → x.base.trust k = db.base.trust k
  own : x.base.trust r.key = db.base.trust r.key ∨
    db.base.trust r.key = none ∧ x.base.trust r.key = some ⟨f.catalog, f.spki⟩
  endpoints : ∀ k, (db.endpoints k).isSome = true → (x.endpoints k).isSome = true

theorem Untouched.refl (f : Fields) (r : BootstrapPeer) (db : Db) : Untouched f r db db :=
  ⟨rfl, fun _ _ => rfl, Or.inl rfl, fun _ h => h⟩

/-- Trust is verified or not, whatever else a call does. -/
theorem trustEnroll_cases (call : Invitation.Call) (db : Invitation.Db) (domain node catalog spki : String) :
    trustEnroll call db domain node catalog spki = (false, db) ∨
      trustEnroll call db domain node catalog spki =
        (trustVerify call (trustEnroll call db domain node catalog spki).2 domain node catalog spki,
          (trustEnroll call db domain node catalog spki).2) ∧
        ((db.trust (domain, node)).isSome = true ∧
            (trustEnroll call db domain node catalog spki).2 = db ∨
          db.trust (domain, node) = none ∧ (trustEnroll call db domain node catalog spki).2 =
            { db with trust := Function.update db.trust (domain, node) (some ⟨catalog, spki⟩) }) := by
  unfold trustEnroll
  split
  · exact Or.inl rfl
  · refine Or.inr ⟨rfl, ?_⟩
    dsimp only
    cases htrust : db.trust (domain, node) with
    | none => exact Or.inr ⟨rfl, rfl⟩
    | some row => exact Or.inl ⟨rfl, rfl⟩

theorem Untouched.enrollTrust (h : Untouched f r db x) (hdomain : f.domain = r.domain)
    (call : Invitation.Call) : Untouched f r db (enrollTrust call f r.node x).2 := by
  have hkey : (f.domain, r.node) = r.key := by rw [hdomain]; rfl
  refine ⟨h.peers, ?_, ?_, h.endpoints⟩
  · intro k hk
    show (trustEnroll call x.base f.domain r.node f.catalog f.spki).2.trust k = _
    rcases trustEnroll_cases call x.base f.domain r.node f.catalog f.spki with heq | ⟨-, heq | heq⟩
    · rw [heq]
      exact h.other k hk
    · rw [heq.2]
      exact h.other k hk
    · rw [heq.2]
      show Function.update x.base.trust (f.domain, r.node) _ k = _
      rw [hkey, Function.update_of_ne hk]
      exact h.other k hk
  · show (trustEnroll call x.base f.domain r.node f.catalog f.spki).2.trust r.key = _ ∨
      _ ∧ (trustEnroll call x.base f.domain r.node f.catalog f.spki).2.trust r.key = _
    rcases trustEnroll_cases call x.base f.domain r.node f.catalog f.spki with heq | ⟨-, heq | heq⟩
    · rw [heq]
      exact h.own
    · rw [heq.2]
      exact h.own
    · have hnone : x.base.trust r.key = none := by rw [← hkey]; exact heq.1
      rw [heq.2]
      show Function.update x.base.trust (f.domain, r.node) _ r.key = _ ∨
        _ ∧ Function.update x.base.trust (f.domain, r.node) _ r.key = _
      rw [hkey, Function.update_self]
      refine Or.inr ⟨?_, rfl⟩
      rcases h.own with hown | ⟨hnew, -⟩
      · rw [← hown, hnone]
      · exact hnew

/-- The trust of an untouched database answers the same. -/
theorem Untouched.trustEnroll_eq (h : Untouched f r db x) (hdomain : f.domain = r.domain)
    (call : Invitation.Call) :
    (trustEnroll call x.base f.domain r.node f.catalog f.spki).1 =
      (trustEnroll call db.base f.domain r.node f.catalog f.spki).1 := by
  have hkey : (f.domain, r.node) = r.key := by rw [hdomain]; rfl
  unfold trustEnroll
  split
  · rfl
  · show trustVerify call _ f.domain r.node f.catalog f.spki =
      trustVerify call _ f.domain r.node f.catalog f.spki
    unfold trustVerify
    split
    · rfl
    · rw [hkey]
      rcases h.own with hown | ⟨hnone, hsome⟩
      · rw [hown]
        cases hrow : db.base.trust r.key with
        | none => simp
        | some row => simp [hown, hrow]
      · rw [hnone, hsome]
        simp [hsome]

/-! ### The row -/

theorem conflict_enrolled (hstate : r.state = .enrolled) :
    (row f r.node .enrolled).conflict r = r := by
  unfold BootstrapPeer.conflict
  split
  · rw [row, ← hstate]
  · rfl

theorem key_row (hdomain : f.domain = r.domain) (state : BootstrapState) :
    (row f r.node state).key = r.key := by
  show (f.domain, r.node) = (r.domain, r.node)
  rw [hdomain]

/-- The upsert changes one row at most. -/
theorem upsert_row (hr : r ∈ db.peers.rows) (hdomain : f.domain = r.domain) :
    db.peers.upsert (row f r.node state) (row f r.node state).conflict
        (row f r.node state).conflict_key =
      db.peers.modify r.key (row f r.node state).conflict (row f r.node state).conflict_key := by
  have hkey := key_row hdomain state
  rw [Keyed.upsert_of_taken]
  · congr 1
  · rw [hkey]
    exact List.mem_map_of_mem hr

theorem upsert_fixed (hr : r ∈ db.peers.rows) (hdomain : f.domain = r.domain)
    (hfixed : (row f r.node state).conflict r = r) :
    db.peers.upsert (row f r.node state) (row f r.node state).conflict
      (row f r.node state).conflict_key = db.peers := by
  rw [upsert_row hr hdomain]
  refine Keyed.modify_of_fixed fun s hs hkey => ?_
  rw [Keyed.eq_of_key hs hr hkey]
  exact hfixed

/-- One row changes exactly when its coordinates are those of the invitation. -/
theorem changes_eq_one (hr : r ∈ db.peers.rows) (hdomain : f.domain = r.domain) :
    changes db.peers (row f r.node state) = 1 ↔
      r.url = f.url ∧ r.catalogKey = f.catalog ∧ r.tlsSpki = f.spki := by
  have hkey := key_row hdomain state
  unfold changes
  rw [if_pos (by rw [hkey]; exact List.mem_map_of_mem hr)]
  have hle : db.peers.count (fun s => decide (s.key = (row f r.node state).key) &&
      decide (s.url = f.url) && decide (s.catalogKey = f.catalog) && decide (s.tlsSpki = f.spki)) ≤ 1 := by
    have hcount := List.nodup_iff_count_le_one.mp db.peers.distinct r.key
    rw [List.count, List.countP_map] at hcount
    refine Nat.le_trans (List.countP_mono_left fun s _ hs => ?_) hcount
    simp only [Bool.and_eq_true, decide_eq_true_eq] at hs
    rw [Function.comp_apply, beq_iff_eq, hs.1.1.1, hkey]
  constructor
  · intro hone
    obtain ⟨s, hs, hmatch⟩ := Keyed.count_pos.mp (Nat.lt_of_lt_of_eq Nat.zero_lt_one hone.symm)
    simp only [Bool.and_eq_true, decide_eq_true_eq] at hmatch
    obtain ⟨⟨⟨hsame, hurl⟩, hcatalog⟩, hspki⟩ := hmatch
    rw [Keyed.eq_of_key hs hr (hsame.trans hkey)] at hurl hcatalog hspki
    exact ⟨hurl, hcatalog, hspki⟩
  · intro hmatch
    refine Nat.le_antisymm hle (Keyed.count_pos.mpr ⟨r, hr, ?_⟩)
    simp only [Bool.and_eq_true, decide_eq_true_eq]
    exact ⟨⟨⟨hkey.symm, hmatch.1⟩, hmatch.2.1⟩, hmatch.2.2⟩

theorem bootstrapStore_true (hr : r ∈ db.peers.rows) (hdomain : f.domain = r.domain) :
    (bootstrapStore c.fails db (row f r.node state)).1 = true ↔
      (c.fails .schema || c.fails .prepare || c.fails .step) = false ∧
        r.url = f.url ∧ r.catalogKey = f.catalog ∧ r.tlsSpki = f.spki := by
  unfold bootstrapStore
  by_cases hfails : (c.fails .schema || c.fails .prepare || c.fails .step) = true
  · rw [if_pos hfails, hfails]
    simp
  · have hone : changes db.peers (row f r.node state) = 1 ↔ _ := changes_eq_one hr hdomain
    rw [if_neg hfails, ← hone, Bool.eq_false_iff.mpr hfails, beq_iff_eq]
    simp

/-- A write that keeps the row keeps the table. -/
theorem Untouched.bootstrapStore (h : Untouched f r db x) (hr : r ∈ db.peers.rows)
    (hdomain : f.domain = r.domain) (fails : DbStep → Bool)
    (hfixed : (row f r.node state).conflict r = r ∨
      (fails .schema || fails .prepare || fails .step) = true) :
    Untouched f r db (bootstrapStore fails x (row f r.node state)).2 := by
  unfold MeshEnroll.bootstrapStore
  by_cases hfails : (fails .schema || fails .prepare || fails .step) = true
  · rw [if_pos hfails]
    exact h
  · rw [if_neg hfails]
    refine ⟨?_, h.other, h.own, h.endpoints⟩
    rw [← h.peers] at hr
    exact (upsert_fixed hr hdomain (hfixed.resolve_right hfails)).trans h.peers

/-! ### The steps of a run -/

/-- Every database of the trail is untouched. -/
def Clean (f : Fields) (r : BootstrapPeer) (db : Db) (t : Trail) : Prop :=
  ∀ x ∈ t.states, Untouched f r db x

theorem Clean.start (f : Fields) (r : BootstrapPeer) (db : Db) : Clean f r db ⟨db, []⟩ := by
  intro x hx
  rw [List.mem_singleton.mp hx]
  exact .refl f r db

theorem Clean.now (h : Clean f r db t) : Untouched f r db t.now := h t.now List.mem_cons_self

theorem Clean.write (h : Clean f r db t) {g : Db → Bool × Db} (hg : Untouched f r db (g t.now).2) :
    Clean f r db (t.write g).2 := by
  intro x hx
  rcases List.mem_cons.mp hx with rfl | hx
  · exact hg
  · exact h x hx

/-- What was on the trail stays there. -/
theorem mem_write {g : Db → Bool × Db} (h : x ∈ t.states) : x ∈ (t.write g).2.states :=
  List.mem_cons_of_mem _ h

/-- Recording the issuer, step by step. -/
theorem record_eq (c : Exchange) (f : Fields) (node : String) (state : BootstrapState) (t : Trail) :
    record c f node state t =
      if (t.write (enrollTrust c.call f node)).1 then
        (t.write (enrollTrust c.call f node)).2.write (bootstrapStore c.fails · (row f node state))
      else (false, (t.write (enrollTrust c.call f node)).2) := by
  unfold record
  generalize t.write (enrollTrust c.call f node) = a
  obtain ⟨ok, t⟩ := a
  cases ok <;> rfl

theorem mem_record {node : String} (h : x ∈ t.states) : x ∈ (record c f node state t).2.states := by
  rw [record_eq]
  split
  · exact mem_write (mem_write h)
  · exact mem_write h

theorem record_true (h : Clean f r db t) (hr : r ∈ db.peers.rows) (hdomain : f.domain = r.domain) :
    (record c f r.node state t).1 = true ↔ Recorded c f db r := by
  have htrust : (t.write (enrollTrust c.call f r.node)).1 =
      (trustEnroll c.call db.base f.domain r.node f.catalog f.spki).1 :=
    h.now.trustEnroll_eq hdomain c.call
  have hnow := h.now.enrollTrust hdomain c.call
  rw [record_eq, htrust]
  by_cases hok : (trustEnroll c.call db.base f.domain r.node f.catalog f.spki).1 = true
  · rw [if_pos hok]
    show (bootstrapStore c.fails (enrollTrust c.call f r.node t.now).2 _).1 = true ↔ _
    rw [bootstrapStore_true (hnow.peers ▸ hr) hdomain]
    exact ⟨fun h => ⟨hok, h.1, h.2⟩, fun h => ⟨h.fails, h.coordinates⟩⟩
  · rw [if_neg hok]
    exact ⟨fun h => absurd h Bool.false_ne_true, fun h => absurd h.trust hok⟩

theorem Clean.record (h : Clean f r db t) (hr : r ∈ db.peers.rows) (hdomain : f.domain = r.domain)
    (hfixed : (row f r.node state).conflict r = r ∨
      (c.fails .schema || c.fails .prepare || c.fails .step) = true ∨
      (trustEnroll c.call db.base f.domain r.node f.catalog f.spki).1 ≠ true) :
    Clean f r db (record c f r.node state t).2 := by
  have htrust : (t.write (enrollTrust c.call f r.node)).1 =
      (trustEnroll c.call db.base f.domain r.node f.catalog f.spki).1 :=
    h.now.trustEnroll_eq hdomain c.call
  have hclean : Clean f r db (t.write (enrollTrust c.call f r.node)).2 :=
    h.write (h.now.enrollTrust hdomain c.call)
  rw [record_eq]
  split
  · rename_i hok
    refine hclean.write (hclean.now.bootstrapStore hr hdomain c.fails ?_)
    rcases hfixed with hfixed | hfails | hno
    · exact Or.inl hfixed
    · exact Or.inr hfails
    · exact absurd (htrust ▸ hok) hno
  · exact hclean

/-- The rest of a status answer: the endpoint. -/
theorem committedStatus_eq (c : Exchange) (t : Trail) : committedStatus e f c t =
    match c.reply.bind (statusIssuer e.verify f) with
    | none => (false, t)
    | some (node, text) =>
        if (record c f node .enrolled t).1 then
          match announcedPort text with
          | none => (false, (record c f node .enrolled t).2)
          | some port => (record c f node .enrolled t).2.write
              (bootstrapStoreEndpoint e.uri c.fails · f.domain node f.url port)
        else (false, (record c f node .enrolled t).2) := by
  unfold committedStatus
  cases c.reply.bind (statusIssuer e.verify f) with
  | none => rfl
  | some named =>
      obtain ⟨node, text⟩ := named
      dsimp only
      generalize record c f node .enrolled t = a
      obtain ⟨ok, t⟩ := a
      cases ok <;> rfl

theorem mem_committedStatus (h : x ∈ t.states) : x ∈ (committedStatus e f c t).2.states := by
  rw [committedStatus_eq]
  split
  · exact h
  · split
    · split
      · exact mem_record h
      · exact mem_write (mem_record h)
    · exact mem_record h

theorem Untouched.storeEndpoint (h : Untouched f r db x) (fails : DbStep → Bool) (node : String)
    (port : Nat) : Untouched f r db (bootstrapStoreEndpoint e.uri fails x f.domain node f.url port).2 := by
  rcases bootstrapStoreEndpoint_cases e.uri fails x f.domain node f.url port with heq | ⟨url, -, heq⟩
  · rw [heq]
    exact h
  · rw [heq]
    refine ⟨h.peers, h.other, h.own, fun k hk => ?_⟩
    show (Function.update x.endpoints (f.domain, node) (some url) k).isSome = true
    by_cases hsame : k = (f.domain, node)
    · rw [hsame, Function.update_self]
      rfl
    · rw [Function.update_of_ne hsame]
      exact h.endpoints k hk

/-- An answer about an enrolled issuer leaves it enrolled. -/
theorem Clean.committedStatus (h : Clean f r db t) (hr : r ∈ db.peers.rows)
    (hstate : r.state = .enrolled) (hdomain : f.domain = r.domain)
    (hnamed : ∀ node port, c.reply.bind (statusIssuer e.verify f) = some (node, port) → node = r.node) :
    Clean f r db (committedStatus e f c t).2 := by
  rw [committedStatus_eq]
  split
  · exact h
  · rename_i node text hreply
    obtain rfl := hnamed node text hreply
    have hrecord := h.record (c := c) hr hdomain (Or.inl (conflict_enrolled hstate))
    split
    · split
      · exact hrecord
      · exact hrecord.write (hrecord.now.storeEndpoint c.fails r.node _)
    · exact hrecord

/-- The first answer settles the run exactly when it confirms. -/
theorem committedStatus_true (hr : r ∈ db.peers.rows) (hpeer : ForPeer e f r) :
    (committedStatus e f e.first ⟨db, []⟩).1 = true ↔ Confirmed e f db r := by
  have hclean := Clean.start f r db
  rw [committedStatus_eq]
  unfold Confirmed
  cases hreply : e.first.reply.bind (statusIssuer e.verify f) with
  | none =>
      refine ⟨fun h => absurd h Bool.false_ne_true, fun h => ?_⟩
      obtain ⟨text, port, hnone, -⟩ := h
      exact absurd hnone (Option.some_ne_none _).symm
  | some named =>
      obtain ⟨node, text⟩ := named
      obtain rfl := hpeer.first node text hreply
      dsimp only
      have hrecord : (record e.first f r.node .enrolled ⟨db, []⟩).1 = true ↔ _ :=
        record_true hclean hr hpeer.domain
      by_cases hok : Recorded e.first f db r
      · rw [if_pos (hrecord.mpr hok)]
        cases hport : announcedPort text with
        | none =>
            refine ⟨fun h => absurd h Bool.false_ne_true, fun h => ?_⟩
            obtain ⟨text', port, hsame, -, hsome, -⟩ := h
            rw [← (Prod.mk.inj (Option.some.inj hsame)).2, hport] at hsome
            exact absurd hsome (Option.some_ne_none _).symm
        | some port =>
            show (bootstrapStoreEndpoint e.uri e.first.fails _ f.domain r.node f.url port).1 = true ↔ _
            have hend : ∀ y, (bootstrapStoreEndpoint e.uri e.first.fails y f.domain r.node f.url port).1 =
                true ↔ (endpoint e.uri f.url port).isSome = true ∧ (e.first.fails .endpointSchema ||
                  e.first.fails .endpointPrepare || e.first.fails .endpointStep) = false := by
              intro y
              unfold bootstrapStoreEndpoint
              cases endpoint e.uri f.url port with
              | none => simp
              | some url =>
                  dsimp only
                  split
                  · rename_i hfails
                    simp [hfails]
                  · rename_i hfails
                    simp [Bool.eq_false_iff.mpr hfails]
            rw [hend]
            constructor
            · intro h
              exact ⟨text, port, rfl, hok, hport, h⟩
            · intro h
              obtain ⟨text', port', hsame, -, hsome, h⟩ := h
              rw [← (Prod.mk.inj (Option.some.inj hsame)).2, hport] at hsome
              rw [Option.some.inj hsome]
              exact h
      · rw [if_neg fun h => hok (hrecord.mp h)]
        refine ⟨fun h => absurd h Bool.false_ne_true, fun h => ?_⟩
        obtain ⟨-, -, -, hyes, -⟩ := h
        exact absurd hyes hok

/-! ### Runs -/

theorem run_eq (e : Surroundings) (f : Fields) (db : Db) : run e f db =
    match prepare e f with
    | none => (false, ⟨db, []⟩)
    | some p =>
        if (committedStatus e f e.first ⟨db, []⟩).1 then
          (true, (committedStatus e f e.first ⟨db, []⟩).2)
        else
          match signedIssuer e f p with
          | none => (false, (committedStatus e f e.first ⟨db, []⟩).2)
          | some node =>
              let recorded := record e.challenge f node .pending (committedStatus e f e.first ⟨db, []⟩).2
              if recorded.1 then committedStatus e f e.second recorded.2 else (false, recorded.2) := by
  unfold run
  cases prepare e f with
  | none => rfl
  | some p =>
      dsimp only
      generalize committedStatus e f e.first ⟨db, []⟩ = a
      obtain ⟨ok, t⟩ := a
      cases ok with
      | true => rfl
      | false =>
          dsimp only
          cases signedIssuer e f p with
          | none => rfl
          | some node =>
              dsimp only
              generalize record e.challenge f node .pending t = b
              obtain ⟨ok, t⟩ := b
              cases ok <;> rfl

/-- The issuer of a signed challenge is the one that the answer names. -/
theorem signedIssuer_forPeer (hpeer : ForPeer e f r) {p : Prepared} {node : String}
    (h : signedIssuer e f p = some node) : node = r.node := by
  unfold signedIssuer at h
  split at h
  · exact absurd h (Option.some_ne_none _).symm
  · rename_i named challenge hreply
    obtain ⟨-, -, rfl⟩ := Option.map_eq_some_iff.mp h
    exact hpeer.challenge named challenge hreply

/-- A run that does not get to the pending write leaves the issuers alone. -/
theorem clean_run (hr : r ∈ db.peers.rows) (hstate : r.state = .enrolled) (hpeer : ForPeer e f r)
    (hno : ¬ Downgrades e f db r) : Clean f r db (run e f db).2 := by
  have hstart := Clean.start f r db
  have hfirst := hstart.committedStatus hr hstate hpeer.domain hpeer.first
  rw [run_eq]
  cases hp : prepare e f with
  | none => exact hstart
  | some p =>
      dsimp only
      by_cases hconfirmed : (committedStatus e f e.first ⟨db, []⟩).1 = true
      · rw [if_pos hconfirmed]
        exact hfirst
      rw [if_neg hconfirmed]
      cases hsigned : signedIssuer e f p with
      | none => exact hfirst
      | some node =>
          obtain rfl := signedIssuer_forPeer hpeer hsigned
          have hunrecorded : ¬ Recorded e.challenge f db r := fun h =>
            hno ⟨p, hp, fun hc => hconfirmed ((committedStatus_true hr hpeer).mpr hc), hsigned, h⟩
          have hrecord : (record e.challenge f r.node .pending
              (committedStatus e f e.first ⟨db, []⟩).2).1 ≠ true :=
            fun h => hunrecorded ((record_true hfirst hr hpeer.domain).mp h)
          dsimp only
          rw [if_neg hrecord]
          refine hfirst.record hr hpeer.domain ?_
          by_cases htrust : (trustEnroll e.challenge.call db.base f.domain r.node f.catalog f.spki).1 = true
          · by_cases hfails : (e.challenge.fails .schema || e.challenge.fails .prepare ||
                e.challenge.fails .step) = true
            · exact Or.inr (Or.inl hfails)
            · refine Or.inl (if_neg fun h => ?_)
              exact hunrecorded ⟨htrust, Bool.eq_false_iff.mpr hfails, h⟩
          · exact Or.inr (Or.inr htrust)

/-- The pending write turns the row. -/
theorem pending_of_recorded (hclean : Clean f r db t) (hr : r ∈ db.peers.rows)
    (hdomain : f.domain = r.domain) (hrecorded : Recorded c f db r) :
    ¬ Enrolled (record c f r.node .pending t).2.now r.key := by
  have hnow := hclean.now.enrollTrust hdomain c.call
  have htrust : (t.write (enrollTrust c.call f r.node)).1 = true :=
    (hclean.now.trustEnroll_eq hdomain c.call).trans hrecorded.trust
  rw [record_eq, if_pos htrust]
  show ¬ Enrolled (bootstrapStore c.fails (enrollTrust c.call f r.node t.now).2 _).2 r.key
  unfold bootstrapStore
  rw [if_neg (Bool.eq_false_iff.mp hrecorded.fails)]
  rintro ⟨s, hs, hkey, hstate⟩
  have hr' : r ∈ (enrollTrust c.call f r.node t.now).2.peers.rows := hnow.peers ▸ hr
  dsimp only at hs
  rw [upsert_row hr' hdomain, Keyed.mem_modify] at hs
  rcases hs with ⟨-, hne⟩ | ⟨old, hold, hsame, rfl⟩
  · exact hne hkey
  · rw [Keyed.eq_of_key hold hr' hsame] at hstate
    have hturned : (row f r.node .pending).conflict r = { r with state := .pending } :=
      if_pos hrecorded.coordinates
    rw [hturned] at hstate
    exact BootstrapState.noConfusion hstate

theorem imported_of_untouched (h : Untouched f r db x) {i : Import} {peers : List ImportedPeer}
    (hdomain : i.domain = r.domain) (hnew : r.node ∉ peers.map ImportedPeer.node)
    (himported : Imported i db peers r.node) : Imported i x peers r.node := by
  obtain ⟨out, hout, hnode⟩ := himported
  have hkey : (i.domain, r.node) = r.key := by rw [hdomain]; rfl
  have htrust := trust_of_imported _ hout hnew hnode
  have hricher : Richer i db x := by
    refine ⟨fun node => ?_, h.endpoints⟩
    by_cases hsame : (i.domain, node) = r.key
    · rw [hsame]
      refine h.own.resolve_right fun hnone => ?_
      rw [hkey, hnone.1] at htrust
      exact absurd htrust Bool.false_ne_true
    · exact h.other _ hsame
  obtain ⟨out', hout', hnodes⟩ := importRows_richer _ hricher rfl hout
  refine ⟨out', ?_, hnodes ▸ hnode⟩
  unfold importEnrolled
  rw [h.peers]
  exact hout'

/-- **Enrolling again keeps the enrollment exactly when the pending write does not reach it.**
For an issuer that is stored as enrolled, every database that a run for it leaves behind, be it
cut off anywhere, has the issuer enrolled and imports it as before, unless the run gets as far as
recording the issuer of the challenge: then the row is pending until an answer confirms. -/
theorem enroll_keeps (e : Surroundings) (f : Fields) (db : Db) (r : BootstrapPeer)
    (hr : r ∈ db.peers.rows) (hstate : r.state = .enrolled) (hpeer : ForPeer e f r) :
    (∀ x ∈ (run e f db).2.states, Enrolled x r.key ∧ ∀ (i : Import) (peers : List ImportedPeer),
        i.domain = r.domain → r.node ∉ peers.map ImportedPeer.node →
          Imported i db peers r.node → Imported i x peers r.node) ↔
      ¬ Downgrades e f db r := by
  constructor
  · intro hkeeps hdowngrades
    obtain ⟨p, hp, hunconfirmed, hsigned, hrecorded⟩ := hdowngrades
    have hfirst := (Clean.start f r db).committedStatus hr hstate hpeer.domain hpeer.first
    have hpending := pending_of_recorded hfirst hr hpeer.domain hrecorded
    refine hpending (hkeeps _ ?_).1
    rw [run_eq, hp]
    dsimp only
    rw [if_neg fun h => hunconfirmed ((committedStatus_true hr hpeer).mp h), hsigned]
    dsimp only
    rw [if_pos ((record_true hfirst hr hpeer.domain).mpr hrecorded)]
    exact mem_committedStatus List.mem_cons_self
  · intro hno x hx
    have huntouched := clean_run hr hstate hpeer hno x hx
    refine ⟨⟨r, huntouched.peers ▸ hr, rfl, hstate⟩, fun i peers hdomain hnew himported => ?_⟩
    exact imported_of_untouched huntouched hdomain hnew himported

/-! ### A lost redemption -/

/-- An issuer as it is stored after its enrollment. -/
def storedIssuer : BootstrapPeer where
  domain := "mesh"
  node := "11111111-1111-4111-8111-111111111111"
  url := "wss://issuer.example:4420/link"
  catalogKey := "AAAAAAAAAAAAAAAAAAAAAAAAAAAAAAAAAAAAAAAAAAA="
  tlsSpki := "AAAAAAAAAAAAAAAAAAAAAAAAAAAAAAAAAAAAAAAAAAA="
  state := .enrolled

/-- The database with this issuer and the trust in it. -/
def enrolledDb : Db where
  base := { Invitation.Db.empty with
    trust := fun k => if k = storedIssuer.key then some ⟨storedIssuer.catalogKey, storedIssuer.tlsSpki⟩
      else none }
  peers := ⟨[storedIssuer], List.nodup_singleton _⟩
  endpoints := fun _ => none

/-- A new invitation of the same issuer. -/
def newInvitation : Fields where
  ticket := "22222222-2222-4222-8222-222222222222"
  domain := "mesh"
  node := "33333333-3333-4333-8333-333333333333"
  url := storedIssuer.url
  spki := storedIssuer.tlsSpki
  catalog := storedIssuer.catalogKey
  pem := "AAAAAAAAAAAAAAAAAAAAAAAAAAAAAAAAAAAAAAAAAAA="

/-- Nothing fails, and this is the answer. -/
def quietExchange (reply : Option String) : Exchange := ⟨reply, ⟨0, fun _ => false⟩, fun _ => false⟩

/-- The first status query finds nothing, and this is the answer to the second question. -/
def issuerAnswers (challenge : Option String) : Surroundings where
  domain := some "mesh"
  cert := some "cert.pem"
  key := some "key.pem"
  dbPath := some "master.db"
  site := some "site"
  identityReady := true
  tlsReady := true
  certSpki := some "AAAAAAAAAAAAAAAAAAAAAAAAAAAAAAAAAAAAAAAAAAA="
  publicKey := some "AAAAAAAAAAAAAAAAAAAAAAAAAAAAAAAAAAAAAAAAAAA="
  binding := some ""
  dbOpen := true
  node := some "33333333-3333-4333-8333-333333333333"
  readPem := fun _ => some []
  sign := fun _ _ => some []
  verify := fun _ _ _ _ _ => true
  uri := fun _ => some ⟨"wss", some "issuer.example", 4420⟩
  curlReady := true
  first := quietExchange none
  challenge := quietExchange challenge
  second := quietExchange none

/-- The issuer does not answer at all. -/
theorem enroll_keeps_unreachable :
    Enrolled (run (issuerAnswers none) newInvitation enrolledDb).2.now storedIssuer.key :=
  ((enroll_keeps (issuerAnswers none) newInvitation enrolledDb storedIssuer List.mem_cons_self rfl
    ⟨rfl, fun _ _ h => absurd h (Option.some_ne_none _).symm, fun _ _ h => absurd h (Option.some_ne_none _).symm,
      fun _ _ h => absurd h (Option.some_ne_none _).symm⟩).mpr
    (fun h => absurd h.choose_spec.2.2.1 (Option.some_ne_none _).symm) _ List.mem_cons_self).1

/-- The challenge is answered, the redemption and the second status query are not: the run fails,
the row is pending, and the issuer is imported no more. -/
theorem enroll_lost :
    let e := issuerAnswers (some ("AAAAAAAAAAAAAAAAAAAAAAAAAAAAAAAAAAAAAAAAAAA=\n" ++
      "11111111-1111-4111-8111-111111111111\n" ++
      "AAAAAAAAAAAAAAAAAAAAAAAAAAAAAAAAAAAAAAAAAAAAAAAAAAAAAAAAAAAAAAAAAAAAAAAAAAAAAAAAAAAAAA==\n"))
    let i : Import := ⟨fun _ => true, e.uri, ⟨0, fun _ => false⟩, fun _ => false, "mesh", newInvitation.node⟩
    let after := (run e newInvitation enrolledDb).2.now
    Enrolled enrolledDb storedIssuer.key ∧ ForPeer e newInvitation storedIssuer ∧
      (run e newInvitation enrolledDb).1 = false ∧
      ¬ Enrolled after storedIssuer.key ∧
      (importEnrolled i enrolledDb []).map (·.map ImportedPeer.node) = some [storedIssuer.node] ∧
      importEnrolled i after [] = some [] := by
  intro e i after
  have hrows : after.peers.rows = [{ storedIssuer with state := .pending }] := by decide +kernel
  have hnamed : e.challenge.reply.bind (challengeIssuer e.verify newInvitation) =
      some (storedIssuer.node, storedIssuer.catalogKey) := by decide +kernel
  have hpeer : ForPeer e newInvitation storedIssuer := by
    refine ⟨rfl, fun _ _ h => absurd h (Option.some_ne_none _).symm, fun node challenge h => ?_,
      fun _ _ h => absurd h (Option.some_ne_none _).symm⟩
    exact (Prod.mk.inj (Option.some.inj (hnamed.symm.trans h))).1.symm
  refine ⟨⟨storedIssuer, List.mem_cons_self, rfl, rfl⟩, hpeer, by decide +kernel, ?_, by decide +kernel,
    by decide +kernel⟩
  rintro ⟨r, hr, -, hstate⟩
  rw [hrows] at hr
  rw [List.mem_singleton.mp hr] at hstate
  exact BootstrapState.noConfusion hstate

end MeshEnroll

end RustyRig
