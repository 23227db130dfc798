/-
What one call does to the tables.

Each function gets one lemma that lists its outcomes: the tables as they were, or its one
change under the guards that allowed it.  From these follows `Later`, which every call
keeps: an invitation that has left `pending` is never written again, and a target, a trust
row or a pin, once there, stays.
-/
import RustyRig.Proofs.Identity.Revision
import RustyRig.Rrserver.Invitation

namespace RustyRig

namespace Invitation

variable {db db' : Db} {c : Call} {id domain node : String} {now : Int}

/-! ### The shared condition -/

theorem admits_spec (h : db.admits id domain node now = true) :
    ∃ t, db.invitations id = some t ∧ t.domain = domain ∧ t.status = .pending ∧
      now < t.expiresAt ∧ db.targets id = some node := by
  unfold Db.admits at h
  cases ht : db.invitations id with
  | none =>
      rw [ht] at h
      exact absurd h Bool.false_ne_true
  | some t =>
      cases hj : db.targets id with
      | none =>
          rw [ht, hj] at h
          exact absurd h Bool.false_ne_true
      | some joiningUuid =>
          rw [ht, hj] at h
          simp only [Bool.and_eq_true, beq_iff_eq, decide_eq_true_eq] at h
          exact ⟨t, rfl, h.1.1.1, h.1.2, h.2, congrArg some h.1.1.2⟩

theorem challengeStands_spec {challenge : String} (h : db.challengeStands id challenge now = true) :
    ∃ row, db.challenges id = some row ∧ row.challenge = challenge ∧ now < row.expiresAt := by
  unfold Db.challengeStands at h
  cases hr : db.challenges id with
  | none =>
      rw [hr] at h
      exact absurd h Bool.false_ne_true
  | some row =>
      rw [hr] at h
      simp only [Bool.and_eq_true, beq_iff_eq, decide_eq_true_eq] at h
      exact ⟨row, rfl, h.1, h.2⟩

/-! ### The outcomes of each function -/

/-- A created invitation is new and pending. -/
theorem inviteCreate_cases (c : Call) (db : Db) (id domain : String) (configured : Option String)
    (pub : String) (expires : Int) :
    inviteCreate c configured db id domain pub expires = (false, db) ∨
    ∃ e, inviteExpiry c.now configured expires = some e ∧ c.now < e ∧ db.invitations id = none ∧
      inviteCreate c configured db id domain pub expires =
        (true, { db with
          invitations := Function.update db.invitations id
            (some ⟨domain, pub, e, .pending, none⟩) }) := by
  unfold inviteCreate
  cases he : inviteExpiry c.now configured expires with
  | none => exact .inl rfl
  | some e =>
      by_cases hargs : (!uuidStringIsValid id || decide (domain = "") || !trustKeyValid pub 32 ||
          decide (e ≤ c.now) || c.fails .schema || c.fails .prepare) = true
      · exact .inl (if_pos hargs)
      · by_cases hrow : (c.fails .step || (db.invitations id).isSome) = true
        · exact .inl ((if_neg hargs).trans (if_pos hrow))
        · refine .inr ⟨e, rfl, ?_, ?_, (if_neg hargs).trans (if_neg hrow)⟩
          · simp only [Bool.or_eq_true, decide_eq_true_eq, not_or] at hargs
            omega
          · simp only [Bool.or_eq_true, not_or, Option.not_isSome_iff_eq_none] at hrow
            exact hrow.2

/-- Only a pending invitation is revoked. -/
theorem inviteRevoke_cases (c : Call) (db : Db) (id : String) :
    inviteRevoke c db id = (false, db) ∨
    ∃ t, db.invitations id = some t ∧ t.status = .pending ∧
      inviteRevoke c db id =
        (true, { db with
          invitations := Function.update db.invitations id
            (some { t with status := .revoked }) }) := by
  unfold inviteRevoke
  by_cases hargs : (c.fails .schema || c.fails .prepare || c.fails .step) = true
  · exact .inl (if_pos hargs)
  · rw [if_neg hargs]
    cases ht : db.invitations id with
    | none => exact .inl rfl
    | some t =>
        by_cases hs : t.status = .pending
        · exact .inr ⟨t, rfl, hs, if_pos hs⟩
        · exact .inl (if_neg hs)

/-- An issued invitation is new, pending, and has its target; one that got no token has at
most left a ticket without a target behind. -/
theorem inviteIssue_cases (db : Db) (domain node : String) (i : Issuing) (url spki : String)
    (expires : Int) :
    inviteIssue i db domain url spki node expires = (none, db) ∨
    (∃ t, db.invitations i.id = none ∧
      inviteIssue i db domain url spki node expires =
        (none, { db with invitations := Function.update db.invitations i.id (some t) })) ∨
    ∃ token t, inviteExpiry i.create.now i.configured expires = some t.expiresAt ∧
      db.invitations i.id = none ∧ db.targets i.id = none ∧
      inviteIssue i db domain url spki node expires =
        (some token, { db with
          invitations := Function.update db.invitations i.id (some t),
          targets := Function.update db.targets i.id (some node) }) := by
  unfold inviteIssue
  by_cases hargs : (decide (domain = "") || !uuidStringIsValid node ||
      i.target.fails .targetSchema || !"wss://".isPrefixOf url || url.toList.contains '\n' ||
      url.toList.contains '\r' || !trustKeyValid spki 32) = true
  · exact .inl (if_pos hargs)
  rw [if_neg hargs]
  cases hkey : i.key with
  | none => exact .inl rfl
  | some key =>
      cases hpub : i.issuerPublic with
      | none => exact .inl rfl
      | some issuerPub =>
          rcases inviteCreate_cases i.create db i.id domain
            i.configured key.1 expires with hno | ⟨e, he, -, hfresh, hyes⟩
          · refine .inl ?_
            simp only [hno]
          · simp only [hyes]
            refine .inr ?_
            by_cases htarget : (i.target.fails .prepare || i.target.fails .step ||
                (db.targets i.id).isSome) = true
            · rw [if_pos htarget]
              refine .inl ?_
              rcases inviteRevoke_cases i.revoke { db with
                  invitations := Function.update db.invitations i.id
                    (some ⟨domain, key.1, e, .pending, none⟩) } i.id with hno | ⟨t, -, -, hyes⟩
              · exact ⟨_, hfresh, by rw [hno]⟩
              · refine ⟨{ t with status := .revoked }, hfresh, ?_⟩
                rw [hyes, Function.update_idem]
            · rw [if_neg htarget]
              simp only [Bool.or_eq_true, not_or, Option.not_isSome_iff_eq_none] at htarget
              exact .inr ⟨_, _, he, hfresh, htarget.2, rfl⟩

/-- A challenge replaces whatever the invitation had. -/
theorem inviteChallenge_cases (c : Call) (db : Db) (id domain node : String)
    (nonce : Option String) :
    inviteChallenge c db id domain node nonce = (none, db) ∨
    ∃ encoded, db.admits id domain node c.now = true ∧
      inviteChallenge c db id domain node nonce =
        (some encoded, { db with
          challenges := Function.update db.challenges id (some ⟨encoded, c.now + 120⟩) }) := by
  unfold inviteChallenge
  by_cases hargs : (!uuidStringIsValid id || decide (domain = "") || !uuidStringIsValid node ||
      c.fails .schema || c.fails .targetSchema || c.fails .challengeSchema) = true
  · exact .inl (if_pos hargs)
  rw [if_neg hargs]
  cases nonce with
  | none => exact .inl rfl
  | some encoded =>
      by_cases hrow : (c.fails .prepare || c.fails .step || !db.admits id domain node c.now) = true
      · exact .inl (if_pos hrow)
      · refine .inr ⟨encoded, ?_, if_neg hrow⟩
        simp only [Bool.or_eq_true, not_or, Bool.not_eq_true', Bool.not_eq_false] at hrow
        exact hrow.2

/-- A claim takes the challenge that stands. -/
theorem inviteChallengeClaim_cases (c : Call) (db : Db) (id domain node challenge : String) :
    inviteChallengeClaim c db id domain node challenge = (false, db) ∨
    (db.challengeStands id challenge c.now = true ∧ db.admits id domain node c.now = true ∧
      inviteChallengeClaim c db id domain node challenge =
        (true, { db with challenges := Function.update db.challenges id none })) := by
  unfold inviteChallengeClaim
  by_cases hargs : (!uuidStringIsValid id || !uuidStringIsValid node ||
      !trustKeyValid challenge 32 || c.fails .challengeSchema || c.fails .prepare ||
      c.fails .step) = true
  · exact .inl (if_pos hargs)
  rw [if_neg hargs]
  by_cases hrow : (db.challengeStands id challenge c.now && db.admits id domain node c.now) = true
  · obtain ⟨hstands, hadmits⟩ := Bool.and_eq_true_iff.mp hrow
    exact .inr ⟨hstands, hadmits, if_pos hrow⟩
  · exact .inl (if_neg hrow)

/-- Trust is only ever added, and the call succeeds only when the row it asked for stands. -/
theorem trustEnroll_cases (c : Call) (db : Db) (domain node catalogKey tlsSpki : String) :
    trustEnroll c db domain node catalogKey tlsSpki = (false, db) ∨
    ((db.trust (domain, node) = none ∨ db.trust (domain, node) = some ⟨catalogKey, tlsSpki⟩) ∧
      (trustEnroll c db domain node catalogKey tlsSpki).2 = { db with
        trust := Function.update db.trust (domain, node) (some ⟨catalogKey, tlsSpki⟩) }) := by
  unfold trustEnroll
  by_cases hargs : (decide (domain = "") || !uuidStringIsValid node ||
      !trustKeyValid catalogKey 32 || !trustKeyValid tlsSpki 32 || c.fails .enrollSchema ||
      c.fails .enrollPrepare || c.fails .enrollStep) = true
  · exact .inl (if_pos hargs)
  rw [if_neg hargs]
  cases hrow : db.trust (domain, node) with
  | none => exact .inr ⟨.inl rfl, rfl⟩
  | some row =>
      by_cases heq : row = ⟨catalogKey, tlsSpki⟩
      · subst heq
        refine .inr ⟨.inr rfl, ?_⟩
        rw [← hrow, Function.update_eq_self, hrow]
        rfl
      · -- a conflicting row is what `INSERT OR IGNORE` leaves, and the comparison fails on it
        refine .inl (Prod.ext ?_ rfl)
        simp only [Option.isSome_some, if_true]
        unfold trustVerify
        rw [hrow]
        split
        · rfl
        · refine Bool.eq_false_iff.mpr fun hboth => heq ?_
          simp only [Bool.and_eq_true, beq_iff_eq] at hboth
          exact congrArg₂ Trust.mk hboth.1 hboth.2

/-- A redemption uses up a pending, unexpired invitation of this very node, and its keys are
the trusted ones afterwards; anything short of that leaves every table as it was. -/
theorem inviteRedeem_cases (c : Call) (db : Db) (id domain node catalog spki : String) :
    inviteRedeem c db id domain node catalog spki = (false, db) ∨
    ∃ t, db.invitations id = some t ∧ db.admits id domain node c.now = true ∧
      (db.trust (domain, node) = none ∨ db.trust (domain, node) = some ⟨catalog, spki⟩) ∧
      inviteRedeem c db id domain node catalog spki =
        (true, { db with
          invitations := Function.update db.invitations id
            (some (t.redeem c.now node catalog spki)),
          trust := Function.update db.trust (domain, node) (some ⟨catalog, spki⟩) }) := by
  unfold inviteRedeem
  by_cases hargs : (decide (domain = "") || !uuidStringIsValid node || !trustKeyValid catalog 32 ||
      !trustKeyValid spki 32 || c.fails .schema || c.fails .targetSchema) = true
  · exact .inl (if_pos hargs)
  rw [if_neg hargs]
  by_cases hrow : (c.fails .trustSchema || c.fails .beginImmediate || c.fails .prepare ||
      c.fails .step || !db.admits id domain node c.now) = true
  · exact .inl (if_pos hrow)
  rw [if_neg hrow]
  simp only [Bool.or_eq_true, not_or, Bool.not_eq_true', Bool.not_eq_false] at hrow
  obtain ⟨t, ht, -⟩ := admits_spec hrow.2
  dsimp only
  have henroll := trustEnroll_cases c { db with
      invitations := Function.update db.invitations id
        ((db.invitations id).map (Ticket.redeem · c.now node catalog spki)) }
    domain node catalog spki
  rcases henroll with hno | ⟨htrust, hyes⟩
  · exact .inl (by rw [hno])
  · cases hres : trustEnroll c { db with
        invitations := Function.update db.invitations id
          ((db.invitations id).map (Ticket.redeem · c.now node catalog spki)) }
        domain node catalog spki with
    | mk ok enrolled =>
        rw [hres] at hyes
        cases ok with
        | false => exact .inl rfl
        | true =>
            by_cases hcommit : c.fails .commit = true
            · exact .inl (if_pos hcommit)
            · refine .inr ⟨t, ht, hrow.2, htrust, (if_neg hcommit).trans ?_⟩
              rw [show enrolled = _ from hyes, ht]
              rfl

/-- Whoever redeemed an invitation finds it redeemed, under the keys it gave. -/
theorem inviteRedeemed_of_redeem {c' : Call} {catalog spki : String}
    (h : inviteRedeem c db id domain node catalog spki = (true, db'))
    (hid : uuidStringIsValid id = true) (hargs : uuidStringIsValid node = true ∧
      trustKeyValid catalog 32 = true ∧ trustKeyValid spki 32 = true)
    (hc : ∀ x, c'.fails x = false) : inviteRedeemed c' db' id domain node catalog spki = true := by
  rcases inviteRedeem_cases c db id domain node catalog spki with hno | ⟨t, ht, hadmits, -, hyes⟩
  · rw [hno] at h
    exact absurd (Prod.mk.inj h).1 Bool.false_ne_true
  · rw [hyes] at h
    obtain rfl := (Prod.mk.inj h).2
    obtain ⟨t', ht', hdomain, -, -, -⟩ := admits_spec hadmits
    obtain rfl : t = t' := Option.some.inj (ht.symm.trans ht')
    unfold inviteRedeemed trustVerify
    simp [hid, hargs, hc, Ticket.redeem, hdomain]

/-- The enrollment request changes nothing, or claims the challenge, or claims it and
redeems. -/
theorem nativeEnrollment_cases (db : Db) (k : Crypto) (linksDomain : String) (cs : EnrollCalls)
    (f : EnrollForm) :
    (∃ status, status ≠ 200 ∧ nativeEnrollment k linksDomain cs db f = (status, false, db)) ∨
    ∃ claimed, inviteChallengeClaim cs.claim db f.ticket f.domain f.node f.challenge =
        (true, claimed) ∧
      (nativeEnrollment k linksDomain cs db f = (403, true, claimed) ∨
      ∃ redeemed, inviteRedeem cs.redeem claimed f.ticket f.domain f.node f.catalog f.spki =
          (true, redeemed) ∧
        nativeEnrollment k linksDomain cs db f = (200, true, redeemed)) := by
  unfold nativeEnrollment
  by_cases hargs : (decide (f.domain ≠ linksDomain) || !uuidStringIsValid f.ticket ||
      !uuidStringIsValid f.node) = true
  · exact .inl ⟨400, by decide, if_pos hargs⟩
  rw [if_neg hargs]
  by_cases hkeys : (!fixedB64 f.catalog 32 || !fixedB64 f.spki 32 || !fixedB64 f.challenge 32 ||
      !fixedB64 f.binding 64 || !fixedB64 f.proof 64 ||
      !k.bindingVerify f.catalog f.domain f.node f.spki f.binding) = true
  · exact .inl ⟨403, by decide, if_pos hkeys⟩
  rw [if_neg hkeys]
  by_cases hproof : (!inviteVerifyProof k.verifies cs.verify db f.ticket f.domain f.transcript
      f.proof) = true
  · exact .inl ⟨403, by decide, if_pos hproof⟩
  rw [if_neg hproof]
  rcases inviteChallengeClaim_cases cs.claim db f.ticket f.domain f.node f.challenge with
    hno | ⟨-, -, hyes⟩
  · exact .inl ⟨403, by decide, by rw [hno]⟩
  · refine .inr ⟨_, hyes, ?_⟩
    rw [hyes]
    rcases inviteRedeem_cases cs.redeem
      { db with challenges := Function.update db.challenges f.ticket none } f.ticket f.domain f.node
      f.catalog f.spki with hno | ⟨t, -, -, -, hyes⟩
    · refine .inl ?_
      simp only [hno]
    · refine .inr ⟨_, hyes, ?_⟩
      simp only [hyes]

/-! ### What every call keeps -/

/-- The tables of a later moment. -/
structure Later (db db' : Db) : Prop where
  /-- An invitation is never deleted, its expiry never moves, and nothing of it changes once
  it has left `pending`. -/
  invitations : ∀ id t, db.invitations id = some t →
    ∃ t', db'.invitations id = some t' ∧ t'.expiresAt = t.expiresAt ∧
      (t.status ≠ .pending → t' = t)
  /-- An invitation's target stays. -/
  targets : ∀ id node, db.targets id = some node → db'.targets id = some node
  /-- A trust row stays. -/
  trust : ∀ key row, db.trust key = some row → db'.trust key = some row
  /-- A pin stays. -/
  pins : ∀ key pin, db.pins key = some pin → db'.pins key = some pin

namespace Later

theorem refl (db : Db) : Later db db where
  invitations _ t h := ⟨t, h, rfl, fun _ => rfl⟩
  targets _ _ h := h
  trust _ _ h := h
  pins _ _ h := h

theorem trans {db'' : Db} (h : Later db db') (h' : Later db' db'') : Later db db'' where
  invitations := by
    intro id t ht
    obtain ⟨t', ht', he, hkept⟩ := h.invitations id t ht
    obtain ⟨t'', ht'', he', hkept'⟩ := h'.invitations id t' ht'
    refine ⟨t'', ht'', he'.trans he, fun hs => ?_⟩
    have heq := hkept hs
    rw [heq] at hkept'
    exact hkept' hs
  targets _ _ hn := h'.targets _ _ (h.targets _ _ hn)
  trust _ _ hr := h'.trust _ _ (h.trust _ _ hr)
  pins _ _ hp := h'.pins _ _ (h.pins _ _ hp)

/-- An entry written over nothing, or over itself, disturbs no other. -/
theorem update_keeps {κ α : Type} [DecidableEq κ] {m : κ → Option α} {key : κ} {a : α}
    (h : m key = none ∨ m key = some a) (key' : κ) (b : α) (hb : m key' = some b) :
    Function.update m key (some a) key' = some b := by
  by_cases heq : key' = key
  · subst heq
    rw [Function.update_self]
    rcases h with hnone | hsome
    · rw [hnone] at hb
      exact absurd hb (by simp)
    · rw [← hsome]
      exact hb
  · rw [Function.update_of_ne heq]
    exact hb

/-- An entry read after one was written. -/
theorem update_reads {κ α : Type} [DecidableEq κ] {m : κ → Option α} {key key' : κ}
    {o : Option α} {b : α} (h : Function.update m key o key' = some b) :
    key' = key ∧ o = some b ∨ key' ≠ key ∧ m key' = some b := by
  by_cases heq : key' = key
  · subst heq
    rw [Function.update_self] at h
    exact .inl ⟨rfl, h⟩
  · rw [Function.update_of_ne heq] at h
    exact .inr ⟨heq, h⟩

/-- A new ticket. -/
theorem fresh {t : Ticket} (h : db.invitations id = none) :
    Later db { db with invitations := Function.update db.invitations id (some t) } where
  invitations id' t' ht' := ⟨t', update_keeps (.inl h) id' t' ht', rfl, fun _ => rfl⟩
  targets _ _ h := h
  trust _ _ h := h
  pins _ _ h := h

/-- A pending ticket that changes its status. -/
theorem leave {t t' : Ticket} (h : db.invitations id = some t) (hs : t.status = .pending)
    (he : t'.expiresAt = t.expiresAt) :
    Later db { db with invitations := Function.update db.invitations id (some t') } where
  invitations := by
    intro id' s hs'
    by_cases heq : id' = id
    · subst heq
      obtain rfl : t = s := Option.some.inj (h.symm.trans hs')
      exact ⟨t', Function.update_self .., he, fun hne => absurd hs hne⟩
    · exact ⟨s, (Function.update_of_ne heq _ _).trans hs', rfl, fun _ => rfl⟩
  targets _ _ h := h
  trust _ _ h := h
  pins _ _ h := h

/-- A trust row is added, or stood already. -/
theorem trusted {key : String × String} {row : Trust}
    (h : db.trust key = none ∨ db.trust key = some row) :
    Later db { db with trust := Function.update db.trust key (some row) } where
  invitations _ t h := ⟨t, h, rfl, fun _ => rfl⟩
  targets _ _ h := h
  trust := update_keeps h
  pins _ _ h := h

/-- A new target. -/
theorem targeted (h : db.targets id = none) :
    Later db { db with targets := Function.update db.targets id (some node) } where
  invitations _ t h := ⟨t, h, rfl, fun _ => rfl⟩
  targets := update_keeps (.inl h)
  trust _ _ h := h
  pins _ _ h := h

/-- Challenges are nobody's record. -/
theorem challenged {m : String → Option Challenge} : Later db { db with challenges := m } where
  invitations _ t h := ⟨t, h, rfl, fun _ => rfl⟩
  targets _ _ h := h
  trust _ _ h := h
  pins _ _ h := h

end Later

theorem create_later (configured : Option String) (pub : String) (expires : Int) :
    Later db (inviteCreate c configured db id domain pub expires).2 := by
  rcases inviteCreate_cases c db id domain configured pub expires
    with h | ⟨e, -, -, hfresh, h⟩
  · rw [h]
    exact Later.refl db
  · rw [h]
    exact Later.fresh hfresh

theorem revoke_later : Later db (inviteRevoke c db id).2 := by
  rcases inviteRevoke_cases c db id with h | ⟨t, ht, hs, h⟩
  · rw [h]
    exact Later.refl db
  · rw [h]
    exact Later.leave ht hs rfl

theorem issue_later (db : Db) (domain node : String) (i : Issuing) (url spki : String)
    (expires : Int) :
    Later db (inviteIssue i db domain url spki node expires).2 := by
  rcases inviteIssue_cases db domain node i url spki expires
    with h | ⟨t, hfresh, h⟩ | ⟨token, t, -, hfresh, htarget, h⟩
  · rw [h]
    exact Later.refl db
  · rw [h]
    exact Later.fresh hfresh
  · rw [h]
    exact (Later.fresh hfresh).trans (Later.targeted htarget)

theorem challenge_later (c : Call) (db : Db) (id domain node : String) (nonce : Option String) :
    Later db (inviteChallenge c db id domain node nonce).2 := by
  rcases inviteChallenge_cases c db id domain node
    nonce with h | ⟨encoded, -, h⟩
  · rw [h]
    exact Later.refl db
  · rw [h]
    exact Later.challenged

theorem claim_later (c : Call) (db : Db) (id domain node challenge : String) :
    Later db (inviteChallengeClaim c db id domain node challenge).2 := by
  rcases inviteChallengeClaim_cases c db id domain node challenge with h | ⟨-, -, h⟩
  · rw [h]
    exact Later.refl db
  · rw [h]
    exact Later.challenged

theorem trustEnroll_later (catalogKey tlsSpki : String) :
    Later db (trustEnroll c db domain node catalogKey tlsSpki).2 := by
  rcases trustEnroll_cases c db domain node catalogKey tlsSpki
    with h | ⟨htrust, h⟩
  · rw [h]
    exact Later.refl db
  · rw [h]
    exact Later.trusted htrust

theorem redeem_later (c : Call) (db : Db) (id domain node catalog spki : String) :
    Later db (inviteRedeem c db id domain node catalog spki).2 := by
  rcases inviteRedeem_cases c db id domain node
    catalog spki with h | ⟨t, ht, hadmits, htrust, h⟩
  · rw [h]
    exact Later.refl db
  · rw [h]
    obtain ⟨t', ht', -, hs, -⟩ := admits_spec hadmits
    obtain rfl : t = t' := Option.some.inj (ht.symm.trans ht')
    have hused : Later db { db with
        invitations := Function.update db.invitations id
          (some (t.redeem c.now node catalog spki)) } := Later.leave ht hs rfl
    exact hused.trans (Later.trusted htrust)

theorem checkPin_later (fault : Option Identity.DbCall) (owner publicKey : String) :
    Later db { db with pins := (Identity.checkPin fault db.pins domain owner publicKey).2 } where
  invitations _ t h := ⟨t, h, rfl, fun _ => rfl⟩
  targets _ _ h := h
  trust _ _ h := h
  pins _ _ hpin := Identity.checkPin_keeps fault domain owner publicKey hpin

end Invitation

end RustyRig
