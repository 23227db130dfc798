/-
The life of an invitation.

`allowed` says what may happen after what: one target per invitation, one redemption, each
claim of the challenge that was given last, each enrollment of the challenge just claimed.
`Sound` ties the tables to such a log, and every call keeps it: the five calls that achieve
something each extend the log by what they are allowed, and the others leave it.

A redemption that is not made by the enrollment request says nothing about challenges:
`rr_identity_invite_redeem` takes none and leaves that to its caller.
-/
import RustyRig.Lib.Chronicle
import RustyRig.Proofs.Invitation.Tables

namespace RustyRig

namespace Invitation

open Lib (Lawful)

variable {k : Crypto} {w : World} {db' : Db} {id domain node challenge : String} {now : Int}

/-! ### The rules of the log -/

/-- The event gives out or takes a challenge of this invitation. -/
def aboutChallenge (id : String) : Event → Bool
  | .challenged id' _ => id' == id
  | .claimed id' _ => id' == id
  | _ => false

/-- The event redeems this invitation. -/
def redeems (id : String) : Event → Bool
  | .redeemed id' _ _ _ => id' == id
  | _ => false

/-- What the latest challenge event of an invitation was. -/
def latestChallenge (id : String) (log : List Event) : Option Event := log.find? (aboutChallenge id)

/-- What may follow what. -/
def allowed (older : List Event) : Event → Prop
  | .issued id _ _ => ∀ node expiresAt, .issued id node expiresAt ∉ older
  | .challenged id _ => ∃ node expiresAt, .issued id node expiresAt ∈ older
  | .claimed id challenge => latestChallenge id older = some (.challenged id challenge)
  | .redeemed id node now presented =>
      (∀ e ∈ older, redeems id e = false) ∧
      (∃ expiresAt, .issued id node expiresAt ∈ older ∧ now < expiresAt) ∧
      ∀ challenge, presented = some challenge → older.head? = some (.claimed id challenge)

/-! ### Tables and log -/

/-- The tables show what the log says, and the log keeps the rules. -/
structure Sound (w : World) : Prop where
  /-- A target was issued. -/
  issued_of_target : ∀ id node, w.db.targets id = some node →
    ∃ expiresAt, .issued id node expiresAt ∈ w.log
  /-- What was issued has its target and its expiry. -/
  target_of_issued : ∀ id node expiresAt, .issued id node expiresAt ∈ w.log →
    w.db.targets id = some node ∧ ∃ t, w.db.invitations id = some t ∧ t.expiresAt = expiresAt
  /-- What was redeemed is used. -/
  used_of_redeemed : ∀ e ∈ w.log, ∀ id, redeems id e = true →
    ∃ t, w.db.invitations id = some t ∧ t.status = .used
  /-- A challenge that stands was given last. -/
  challenge_latest : ∀ id row, w.db.challenges id = some row →
    latestChallenge id w.log = some (.challenged id row.challenge)
  /-- Every event was allowed. -/
  lawful : Lawful allowed w.log

namespace Sound

theorem start : Sound World.start where
  issued_of_target id node h := absurd h (by simp [World.start, Db.empty])
  target_of_issued id node expiresAt h := absurd h List.not_mem_nil
  used_of_redeemed e h := absurd h List.not_mem_nil
  challenge_latest id row h := absurd h (by simp [World.start, Db.empty])
  lawful := Lawful.nil

/-- A call that gives out nothing and takes nothing. -/
theorem quiet (h : Sound w) (hl : Later w.db db') (ht : db'.targets = w.db.targets)
    (hc : db'.challenges = w.db.challenges) : Sound { w with db := db' } where
  issued_of_target id node hn := h.issued_of_target id node (by rw [← ht]; exact hn)
  target_of_issued := by
    intro id node expiresAt hmem
    obtain ⟨htarget, t, hrow, he⟩ := h.target_of_issued id node expiresAt hmem
    obtain ⟨t', hrow', he', -⟩ := hl.invitations id t hrow
    exact ⟨hl.targets id node htarget, t', hrow', he'.trans he⟩
  used_of_redeemed := by
    intro e he id hid
    obtain ⟨t, hrow, hs⟩ := h.used_of_redeemed e he id hid
    obtain ⟨t', hrow', -, hkept⟩ := hl.invitations id t hrow
    have heq : t' = t := hkept (by rw [hs]; exact fun habs => nomatch habs)
    exact ⟨t', hrow', by rw [heq]; exact hs⟩
  challenge_latest id row hrow := h.challenge_latest id row (by rw [← hc]; exact hrow)
  lawful := h.lawful

/-- An invitation given to a node. -/
theorem issued {t : Ticket} (h : Sound w) (hfresh : w.db.invitations id = none)
    (htarget : w.db.targets id = none) :
    Sound
      ⟨{ w.db with
          invitations := Function.update w.db.invitations id (some t),
          targets := Function.update w.db.targets id (some node) },
        .issued id node t.expiresAt :: w.log⟩ where
  issued_of_target := by
    intro id' node' hn
    rcases Later.update_reads hn with ⟨rfl, heq⟩ | ⟨-, hn⟩
    · obtain rfl := Option.some.inj heq
      exact ⟨t.expiresAt, List.mem_cons_self⟩
    · obtain ⟨e, hmem⟩ := h.issued_of_target id' node' hn
      exact ⟨e, List.mem_cons_of_mem _ hmem⟩
  target_of_issued := by
    intro id' node' e hmem
    rcases List.mem_cons.mp hmem with heq | hmem
    · obtain ⟨rfl, rfl, rfl⟩ := Event.issued.inj heq
      exact ⟨Function.update_self .., t, Function.update_self .., rfl⟩
    · obtain ⟨hn, t', hrow, he⟩ := h.target_of_issued id' node' e hmem
      exact ⟨Later.update_keeps (.inl htarget) id' node' hn, t',
        Later.update_keeps (.inl hfresh) id' t' hrow, he⟩
  used_of_redeemed := by
    intro e hmem id' hid
    rcases List.mem_cons.mp hmem with rfl | hmem
    · exact absurd hid Bool.false_ne_true
    · obtain ⟨t', hrow, hs⟩ := h.used_of_redeemed e hmem id' hid
      exact ⟨t', Later.update_keeps (.inl hfresh) id' t' hrow, hs⟩
  challenge_latest := h.challenge_latest
  lawful := by
    refine h.lawful.cons fun node' e hmem => ?_
    obtain ⟨hn, -⟩ := h.target_of_issued id node' e hmem
    rw [htarget] at hn
    exact absurd hn (by simp)

/-- A challenge given for an invitation. -/
theorem challenged {e : Int} (h : Sound w) (hadmits : w.db.admits id domain node now = true) :
    Sound
      ⟨{ w.db with challenges := Function.update w.db.challenges id (some ⟨challenge, e⟩) },
        .challenged id challenge :: w.log⟩ where
  issued_of_target := by
    intro id' node' hn
    obtain ⟨e, hmem⟩ := h.issued_of_target id' node' hn
    exact ⟨e, List.mem_cons_of_mem _ hmem⟩
  target_of_issued := by
    intro id' node' e hmem
    rcases List.mem_cons.mp hmem with heq | hmem
    · exact absurd heq (fun habs => nomatch habs)
    · exact h.target_of_issued id' node' e hmem
  used_of_redeemed := by
    intro e hmem id' hid
    rcases List.mem_cons.mp hmem with rfl | hmem
    · exact absurd hid Bool.false_ne_true
    · exact h.used_of_redeemed e hmem id' hid
  challenge_latest := by
    intro id' row hrow
    unfold latestChallenge
    rcases Later.update_reads hrow with ⟨rfl, heq⟩ | ⟨hne, hrow⟩
    · obtain rfl := Option.some.inj heq
      rw [List.find?_cons, aboutChallenge, beq_self_eq_true]
    · rw [List.find?_cons, aboutChallenge, beq_false_of_ne hne.symm]
      exact h.challenge_latest id' row hrow
  lawful := by
    obtain ⟨t, -, -, -, -, hn⟩ := admits_spec hadmits
    exact h.lawful.cons ⟨node, h.issued_of_target id node hn⟩

/-- A challenge taken. -/
theorem claimed (h : Sound w) (hstands : w.db.challengeStands id challenge now = true) :
    Sound
      ⟨{ w.db with challenges := Function.update w.db.challenges id none },
        .claimed id challenge :: w.log⟩ where
  issued_of_target := by
    intro id' node' hn
    obtain ⟨e, hmem⟩ := h.issued_of_target id' node' hn
    exact ⟨e, List.mem_cons_of_mem _ hmem⟩
  target_of_issued := by
    intro id' node' e hmem
    rcases List.mem_cons.mp hmem with heq | hmem
    · exact absurd heq (fun habs => nomatch habs)
    · exact h.target_of_issued id' node' e hmem
  used_of_redeemed := by
    intro e hmem id' hid
    rcases List.mem_cons.mp hmem with rfl | hmem
    · exact absurd hid Bool.false_ne_true
    · exact h.used_of_redeemed e hmem id' hid
  challenge_latest := by
    intro id' row hrow
    rcases Later.update_reads hrow with ⟨-, heq⟩ | ⟨hne, hrow⟩
    · exact absurd heq (by simp)
    · unfold latestChallenge
      rw [List.find?_cons, aboutChallenge, beq_false_of_ne hne.symm]
      exact h.challenge_latest id' row hrow
  lawful := by
    obtain ⟨row, hrow, rfl, -⟩ := challengeStands_spec hstands
    exact h.lawful.cons (h.challenge_latest id row hrow)

/-- An invitation redeemed.  One that was redeemed before is no longer pending. -/
theorem redeemed {c : Call} {catalog spki : String} {presented : Option String} (h : Sound w)
    (hyes : inviteRedeem c w.db id domain node catalog spki = (true, db'))
    (hpresented : ∀ challenge, presented = some challenge →
      w.log.head? = some (.claimed id challenge)) :
    Sound ⟨db', .redeemed id node c.now presented :: w.log⟩ := by
  have hlater := redeem_later c w.db id domain node
    catalog spki
  rcases inviteRedeem_cases c w.db id domain node
    catalog spki with hno | ⟨t, ht, hadmits, -, hres⟩
  · rw [hno] at hyes
    exact absurd (Prod.mk.inj hyes).1 Bool.false_ne_true
  rw [hres] at hyes hlater
  obtain rfl := (Prod.mk.inj hyes).2
  have hbase := h.quiet hlater rfl rfl
  obtain ⟨t', ht', -, hs, hnow, hn⟩ := admits_spec hadmits
  refine ⟨?_, ?_, ?_, hbase.challenge_latest, h.lawful.cons ⟨?_, ?_, hpresented⟩⟩
  · intro id' node' hn'
    obtain ⟨e, hmem⟩ := hbase.issued_of_target id' node' hn'
    exact ⟨e, List.mem_cons_of_mem _ hmem⟩
  · intro id' node' e hmem
    rcases List.mem_cons.mp hmem with heq | hmem
    · exact absurd heq (fun habs => nomatch habs)
    · exact hbase.target_of_issued id' node' e hmem
  · intro e hmem id' hid
    rcases List.mem_cons.mp hmem with rfl | hmem
    · obtain rfl : id = id' := eq_of_beq hid
      exact ⟨_, Function.update_self .., rfl⟩
    · exact hbase.used_of_redeemed e hmem id' hid
  · intro e hmem
    refine Bool.eq_false_iff.mpr fun hid => ?_
    obtain ⟨s, hrow, hused⟩ := h.used_of_redeemed e hmem id hid
    obtain rfl : t' = s := Option.some.inj (ht'.symm.trans hrow)
    rw [hs] at hused
    exact absurd hused (fun habs => nomatch habs)
  · obtain ⟨e, hmem⟩ := h.issued_of_target id node hn
    obtain ⟨-, s, hrow, rfl⟩ := h.target_of_issued id node e hmem
    obtain rfl : t' = s := Option.some.inj (ht'.symm.trans hrow)
    exact ⟨t'.expiresAt, hmem, hnow⟩

/-! ### One call, any calls -/

theorem step (h : Sound w) (op : Op) : Sound (w.step k op) := by
  cases op with
  | create c configured id domain pub expires =>
      refine h.quiet (create_later configured pub expires) ?_ ?_ <;>
      · rcases inviteCreate_cases c w.db id domain configured pub
          expires with hno | ⟨e, -, -, -, hyes⟩
        · rw [hno]
        · rw [hyes]
  | issue i domain url spki node expires =>
      unfold World.step
      rcases inviteIssue_cases w.db domain node i url spki expires
        with hno | ⟨t, hfresh, hno⟩ | ⟨token, t, he, hfresh, htarget, hyes⟩
      · simp only [hno]
        exact h
      · simp only [hno]
        exact h.quiet (Later.fresh hfresh) rfl rfl
      · simp only [hyes, he, Option.getD_some]
        exact h.issued hfresh htarget
  | revoke c id =>
      refine h.quiet revoke_later ?_ ?_ <;>
      · rcases inviteRevoke_cases c w.db id with hno | ⟨t, -, -, hyes⟩
        · rw [hno]
        · rw [hyes]
  | challenge c id domain node nonce =>
      unfold World.step
      rcases inviteChallenge_cases c w.db id domain node nonce with hno | ⟨encoded, hadmits, hyes⟩
      · simp only [hno]
        exact h
      · simp only [hyes]
        exact h.challenged hadmits
  | claim c id domain node challenge =>
      unfold World.step
      rcases inviteChallengeClaim_cases c w.db id domain node challenge with
        hno | ⟨hstands, -, hyes⟩
      · simp only [hno]
        exact h
      · simp only [hyes]
        exact h.claimed hstands
  | redeem c id domain node catalog spki =>
      unfold World.step
      cases hres : inviteRedeem c w.db id domain node catalog spki with
      | mk ok db =>
          cases ok with
          | true =>
              simp only [hres]
              exact h.redeemed hres fun _ habs => nomatch habs
          | false =>
              simp only [hres]
              rcases inviteRedeem_cases c w.db id domain node catalog spki with
                hno | ⟨t, -, -, -, hyes⟩
              · obtain rfl := (Prod.mk.inj (hres.symm.trans hno)).2
                exact h
              · exact absurd (Prod.mk.inj (hres.symm.trans hyes)).1 Bool.false_ne_true
  | enroll linksDomain cs f =>
      unfold World.step
      rcases nativeEnrollment_cases w.db k linksDomain cs f with
        ⟨status, hstatus, hno⟩ | ⟨db, hclaim, hrest⟩
      · simp only [hno, if_neg hstatus, Bool.false_eq_true, if_false]
        exact h
      · have hclaimed : Sound ⟨db, .claimed f.ticket f.challenge :: w.log⟩ := by
          rcases inviteChallengeClaim_cases cs.claim w.db f.ticket f.domain f.node f.challenge with
            hno | ⟨hstands, -, hyes⟩
          · exact absurd (Prod.mk.inj (hclaim.symm.trans hno)).1.symm Bool.false_ne_true
          · obtain rfl := (Prod.mk.inj (hclaim.symm.trans hyes)).2
            exact h.claimed hstands
        rcases hrest with hno | ⟨db', hredeem, hyes⟩
        · simp only [hno]
          exact hclaimed
        · simp only [hyes]
          refine hclaimed.redeemed hredeem fun challenge hpresented => ?_
          obtain rfl := Option.some.inj hpresented
          rfl
  | trustEnroll c domain owner catalogKey tlsSpki =>
      refine h.quiet (trustEnroll_later catalogKey tlsSpki) ?_ ?_ <;>
      · rcases trustEnroll_cases c w.db domain owner catalogKey
          tlsSpki with hno | ⟨-, hyes⟩
        · rw [hno]
        · rw [hyes]
  | checkPin fault domain owner publicKey =>
      exact h.quiet (checkPin_later fault owner publicKey) rfl rfl

theorem run (h : Sound w) (ops : List Op) : Sound (w.run k ops) := by
  unfold World.run
  induction ops generalizing w with
  | nil => exact h
  | cons op ops ih => exact ih (h.step op)

end Sound

/-! ### The tables over a run -/

theorem enroll_later {db : Db} {f : EnrollForm} (linksDomain : String) (cs : EnrollCalls) :
    Later db (nativeEnrollment k linksDomain cs db f).2.2 := by
  rcases nativeEnrollment_cases db k linksDomain cs f with
    ⟨status, -, hno⟩ | ⟨claimed, hclaim, hrest⟩
  · rw [hno]
    exact Later.refl db
  · have hclaimed := claim_later cs.claim db f.ticket f.domain f.node f.challenge
    rw [hclaim] at hclaimed
    rcases hrest with hno | ⟨redeemed, hredeem, hyes⟩
    · rw [hno]
      exact hclaimed
    · have hredeemed := redeem_later cs.redeem claimed f.ticket f.domain f.node f.catalog f.spki
      rw [hredeem] at hredeemed
      rw [hyes]
      exact hclaimed.trans hredeemed

theorem step_later (w : World) (op : Op) : Later w.db (w.step k op).db := by
  cases op with
  | create c configured id domain pub expires => exact create_later configured pub expires
  | issue i domain url spki node expires =>
      have h := issue_later w.db domain node i url spki expires
      unfold World.step
      cases hres : inviteIssue i w.db domain url spki node expires with
      | mk token db =>
          rw [hres] at h
          cases token <;> simp only [hres] <;> exact h
  | revoke c id => exact revoke_later
  | challenge c id domain node nonce =>
      have h := challenge_later c w.db id domain node
        nonce
      unfold World.step
      cases hres : inviteChallenge c w.db id domain node nonce with
      | mk encoded db =>
          rw [hres] at h
          cases encoded <;> simp only [hres] <;> exact h
  | claim c id domain node challenge =>
      have h := claim_later c w.db id domain node
        challenge
      unfold World.step
      cases hres : inviteChallengeClaim c w.db id domain node challenge with
      | mk ok db =>
          rw [hres] at h
          cases ok <;> simp only [hres] <;> exact h
  | redeem c id domain node catalog spki =>
      have h := redeem_later c w.db id domain node
        catalog spki
      unfold World.step
      cases hres : inviteRedeem c w.db id domain node catalog spki with
      | mk ok db =>
          rw [hres] at h
          cases ok <;> simp only [hres] <;> exact h
  | enroll linksDomain cs f => exact enroll_later linksDomain cs
  | trustEnroll c domain owner catalogKey tlsSpki => exact trustEnroll_later catalogKey tlsSpki
  | checkPin fault domain owner publicKey => exact checkPin_later fault owner publicKey

theorem run_later (w : World) (ops : List Op) : Later w.db (w.run k ops).db := by
  unfold World.run
  induction ops generalizing w with
  | nil => exact Later.refl w.db
  | cons op ops ih => exact (step_later w op).trans (ih (w.step k op))

/-- A trust row with other keys stops a redemption, and the transaction leaves every table as
it was. -/
theorem inviteRedeem_conflict {db : Db} {catalog spki : String} {row : Trust} (c : Call)
    (id : String)
    (hrow : db.trust (domain, node) = some row) (hne : row ≠ ⟨catalog, spki⟩) :
    inviteRedeem c db id domain node catalog spki = (false, db) := by
  rcases inviteRedeem_cases c db id domain node
    catalog spki with hno | ⟨t, -, -, htrust | htrust, -⟩
  · exact hno
  · rw [hrow] at htrust
    exact absurd htrust (by simp)
  · rw [hrow] at htrust
    exact absurd (Option.some.inj htrust) hne

/-- In an enrollment request the conflict costs the challenge and nothing else. -/
theorem nativeEnrollment_conflict {db : Db} {row : Trust} (linksDomain : String) (cs : EnrollCalls)
    (f : EnrollForm) (hrow : db.trust (f.domain, f.node) = some row)
    (hne : row ≠ ⟨f.catalog, f.spki⟩) :
    (nativeEnrollment k linksDomain cs db f).1 ≠ 200 ∧
    (nativeEnrollment k linksDomain cs db f).2.2.invitations = db.invitations ∧
    (nativeEnrollment k linksDomain cs db f).2.2.trust = db.trust := by
  rcases nativeEnrollment_cases db k linksDomain cs f with
    ⟨status, hstatus, hno⟩ | ⟨claimed, hclaim, hrest⟩
  · rw [hno]
    exact ⟨hstatus, rfl, rfl⟩
  · have hsame : claimed.invitations = db.invitations ∧ claimed.trust = db.trust := by
      rcases inviteChallengeClaim_cases cs.claim db f.ticket f.domain f.node f.challenge with
        hno | ⟨-, -, hyes⟩
      · obtain rfl := (Prod.mk.inj (hclaim.symm.trans hno)).2
        exact ⟨rfl, rfl⟩
      · obtain rfl := (Prod.mk.inj (hclaim.symm.trans hyes)).2
        exact ⟨rfl, rfl⟩
    rcases hrest with hno | ⟨redeemed, hredeem, -⟩
    · rw [hno]
      exact ⟨Nat.ne_of_gt (by decide : 200 < 403), hsame⟩
    · have hconflict := inviteRedeem_conflict cs.redeem f.ticket
        (by rw [hsame.2]; exact hrow) hne
      rw [hredeem] at hconflict
      exact absurd (Prod.mk.inj hconflict).1.symm Bool.false_ne_true

/-! ### The life of an invitation -/

/-- **The life of an invitation.**  Take any calls from empty tables, and any calls after them.
An invitation keeps its expiry, and once it has left `pending` it never changes again.  Nothing
is redeemed twice; a redemption comes before the expiry, from the one node that the invitation
was issued for; and one made by the enrollment request has just claimed the challenge that was
given last.  A claim always takes the challenge given last, and no challenge is claimed more
often than it was given.  A redemption that conflicts with a trust row changes neither
invitations nor trust, and a trust row or a pin stays as it was written. -/
theorem invitation_lifecycle (k : Crypto) (ops more : List Op) :
    (∀ id t, (World.start.run k ops).db.invitations id = some t →
      ∃ t', (World.start.run k (ops ++ more)).db.invitations id = some t' ∧
        t'.expiresAt = t.expiresAt ∧ (t.status ≠ .pending → t' = t)) ∧
    (∀ id, ((World.start.run k ops).log.filter (redeems id)).length ≤ 1) ∧
    (∀ newer id node now presented older,
      (World.start.run k ops).log = newer ++ .redeemed id node now presented :: older →
      (∃ expiresAt, .issued id node expiresAt ∈ older ∧ now < expiresAt ∧
        ∀ node' expiresAt', .issued id node' expiresAt' ∈ (World.start.run k ops).log →
          node' = node ∧ expiresAt' = expiresAt) ∧
      ∀ challenge, presented = some challenge →
        ∃ before, older = .claimed id challenge :: before ∧
          latestChallenge id before = some (.challenged id challenge)) ∧
    (∀ newer id challenge older,
      (World.start.run k ops).log = newer ++ .claimed id challenge :: older →
      latestChallenge id older = some (.challenged id challenge)) ∧
    (∀ id challenge, (World.start.run k ops).log.count (.claimed id challenge) ≤
      (World.start.run k ops).log.count (.challenged id challenge)) ∧
    (∀ c id domain node catalog spki row,
      (World.start.run k ops).db.trust (domain, node) = some row → row ≠ ⟨catalog, spki⟩ →
      inviteRedeem c (World.start.run k ops).db id domain node catalog spki =
        (false, (World.start.run k ops).db)) ∧
    (∀ linksDomain cs f row,
      (World.start.run k ops).db.trust (f.domain, f.node) = some row → row ≠ ⟨f.catalog, f.spki⟩ →
      (nativeEnrollment k linksDomain cs (World.start.run k ops).db f).1 ≠ 200 ∧
      (nativeEnrollment k linksDomain cs (World.start.run k ops).db f).2.2.invitations =
        (World.start.run k ops).db.invitations ∧
      (nativeEnrollment k linksDomain cs (World.start.run k ops).db f).2.2.trust =
        (World.start.run k ops).db.trust) ∧
    (∀ key row, (World.start.run k ops).db.trust key = some row →
      (World.start.run k (ops ++ more)).db.trust key = some row) ∧
    ∀ key pin, (World.start.run k ops).db.pins key = some pin →
      (World.start.run k (ops ++ more)).db.pins key = some pin := by
  have hsound : Sound (World.start.run k ops) := Sound.start.run ops
  have hlater : Later (World.start.run k ops).db (World.start.run k (ops ++ more)).db := by
    have h := run_later (k := k) (World.start.run k ops) more
    unfold World.run at h ⊢
    rw [List.foldl_append]
    exact h
  refine ⟨hlater.invitations, fun id => ?_, ?_, fun newer id challenge older hsplit => ?_,
    fun id challenge => ?_, fun c id domain node catalog spki row => inviteRedeem_conflict c id,
    fun linksDomain cs f row => nativeEnrollment_conflict linksDomain cs f, hlater.trust,
    hlater.pins⟩
  · refine hsound.lawful.length_filter_le_one fun older e he hid => ?_
    cases e with
    | redeemed id' node now presented =>
        obtain rfl : id' = id := eq_of_beq hid
        exact he.1
    | issued => exact absurd hid Bool.false_ne_true
    | challenged => exact absurd hid Bool.false_ne_true
    | claimed => exact absurd hid Bool.false_ne_true
  · intro newer id node now presented older hsplit
    obtain ⟨-, ⟨expiresAt, hissued, hnow⟩, hlast⟩ := hsound.lawful newer _ older hsplit
    refine ⟨⟨expiresAt, hissued, hnow, fun node' expiresAt' hmem => ?_⟩, fun challenge hp => ?_⟩
    · have hmem' : Event.issued id node expiresAt ∈ (World.start.run k ops).log := by
        rw [hsplit]
        exact List.mem_append_right _ (List.mem_cons_of_mem _ hissued)
      obtain ⟨hn, t, ht, he⟩ := hsound.target_of_issued id node expiresAt hmem'
      obtain ⟨hn', t', ht', he'⟩ := hsound.target_of_issued id node' expiresAt' hmem
      obtain rfl : t = t' := Option.some.inj (ht.symm.trans ht')
      exact ⟨Option.some.inj (hn'.symm.trans hn), he'.symm.trans he⟩
    · have hhead := hlast challenge hp
      cases older with
      | nil => exact absurd hhead (by simp)
      | cons e before =>
          obtain rfl : e = .claimed id challenge := Option.some.inj hhead
          refine ⟨before, rfl, ?_⟩
          exact hsound.lawful (newer ++ [.redeemed id node now presented]) (.claimed id challenge)
            before (by simp [hsplit])
  · exact hsound.lawful newer _ older hsplit
  · refine Nat.le_trans (Nat.le_add_right _ _)
      (hsound.lawful.count_le_count (aboutChallenge id) (.challenged id challenge)
        (.claimed id challenge) (fun habs => nomatch habs) (beq_self_eq_true id) fun older h => h)

/-! ### Without the enrollment request -/

section Bare

/-- A ticket and a node of the shape `8-4-4-4-12`, and a key of 32 zero bytes. -/
def exampleTicket : String := "11111111-1111-1111-1111-111111111111"

def exampleNode : String := "22222222-2222-2222-2222-222222222222"

def exampleKey : String := "AAAAAAAAAAAAAAAAAAAAAAAAAAAAAAAAAAAAAAAAAAA="

/-- A call at time zero in which nothing fails. -/
def exampleCall : Call := ⟨0, fun _ => false⟩

/-- An invitation issued until 3600 and redeemed at once. -/
def exampleOps : List Op :=
  [.issue ⟨exampleCall, exampleCall, exampleCall, none, exampleTicket,
      some (exampleKey, "cGVt"), some exampleKey⟩ "mesh" "wss://127.0.0.1:4420/link" exampleKey
      exampleNode 3600,
    .redeem exampleCall exampleTicket "mesh" exampleNode exampleKey exampleKey]

/-- The redemption itself takes no challenge: called on its own it succeeds for an invitation
that was never challenged. -/
theorem redeem_takes_no_challenge :
    ¬ ∀ (k : Crypto) (ops : List Op) newer id node now presented older,
      (World.start.run k ops).log = newer ++ .redeemed id node now presented :: older →
      ∃ challenge, latestChallenge id older = some (.claimed id challenge) := by
  intro h
  have hlog : (World.start.run ⟨fun _ _ _ => false, fun _ _ _ _ _ => false⟩ exampleOps).log =
      [.redeemed exampleTicket exampleNode 0 none, .issued exampleTicket exampleNode 3600] := by
    decide +kernel
  obtain ⟨challenge, hlatest⟩ := h _ exampleOps [] exampleTicket exampleNode 0 none
    [.issued exampleTicket exampleNode 3600] hlog
  exact absurd hlatest (fun habs => nomatch habs)

end Bare

end Invitation

end RustyRig
