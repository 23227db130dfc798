/-
What the loop over the selected privileges and sets leaves behind.

A token writes one rule for every target, or one assignment for the target that the request's row
names.  A rule that is there already keeps its time of expiry, so what is promised of a rule is
promised where none under its key has expired (`Fresh`).  What a token leaves, the tokens behind
it keep: `Grown` is reflexive, transitive and kept by every token, and the loop is an induction
over the tokens with it.
-/
import RustyRig.Rrserver.AccessRequests
import RustyRig.Proofs.Policy.Rows
import RustyRig.Lib.Along

namespace RustyRig

namespace AccessRequests

open Lib (Keyed)
open Policy

variable {now : Int} {q : AccessRequest} {remote : Bool} {by_ : Text} {t t' u : Rules} {n : Nat}

/-- A rule that has not expired. -/
def live (now : Int) (expiresAt : Option Int) : Bool := expiresAt.all fun at_ => decide (now < at_)

/-! ### Rules for a request -/

def grantKey (q : AccessRequest) (x : Target) (privilege : Text) : Text × Text × Text × Text × Text :=
  (q.subjectUser, q.subjectHost, x.kind.val, x.uuid.val, privilege)

def assignmentKey (q : AccessRequest) (id : Nat) : Nat × Text × Text × Text × Text :=
  (id, fold q.subjectUser, fold q.subjectHost, q.kind.val, q.uuid.val)

/-- The privilege is allowed at the target, with the mark that was chosen. -/
def Allowed (now : Int) (q : AccessRequest) (remote : Bool) (t : Rules) (x : Target) (privilege : Text) : Prop :=
  ∃ g ∈ t.grants.rows, g.key = grantKey q x privilege ∧
    g.effect = .allow ∧ g.remoteAllowed = remote ∧ live now g.expiresAt = true

/-- The set is assigned for the target of the request's row, with the mark that was chosen. -/
def Assigned (now : Int) (q : AccessRequest) (remote : Bool) (t : Rules) (id : Nat) : Prop :=
  ∃ a ∈ t.assignments.rows, a.key = assignmentKey q id ∧
    a.remoteAllowed = remote ∧ live now a.expiresAt = true

/-- No grant under the key has expired. -/
def Fresh (now : Int) (q : AccessRequest) (t : Rules) (x : Target) (privilege : Text) : Prop :=
  ∀ g ∈ t.grants.rows, g.key = grantKey q x privilege → live now g.expiresAt = true

/-- No assignment under the key has expired. -/
def FreshSet (now : Int) (q : AccessRequest) (t : Rules) (id : Nat) : Prop :=
  ∀ a ∈ t.assignments.rows, a.key = assignmentKey q id → live now a.expiresAt = true

/-- What some tokens have made of the rules. -/
structure Grown (now : Int) (q : AccessRequest) (remote : Bool) (targets : List Target) (t t' : Rules) : Prop where
  sets : t'.sets = t.sets
  entries : t'.entries = t.entries
  allowed : ∀ x p, Allowed now q remote t x p → Allowed now q remote t' x p
  assigned : ∀ id, Assigned now q remote t id → Assigned now q remote t' id
  fresh : ∀ x p, Fresh now q t x p → Fresh now q t' x p
  freshSet : ∀ id, FreshSet now q t id → FreshSet now q t' id
  /-- A grant that is new is for the subject, and for a target. -/
  grants : ∀ g ∈ t'.grants.rows, g ∈ t.grants.rows ∨
    g.subjectUser = q.subjectUser ∧ g.subjectHost = q.subjectHost ∧
      ∃ x ∈ targets, g.resourceKind = x.kind.val ∧ g.resourceUuid = x.uuid.val
  /-- An assignment that is new is for the subject, and for the target of the request's row. -/
  assignments : ∀ a ∈ t'.assignments.rows, a ∈ t.assignments.rows ∨
    fold a.subjectUser = fold q.subjectUser ∧ fold a.subjectHost = fold q.subjectHost ∧
      a.resourceKind = q.kind.val ∧ a.resourceUuid = q.uuid.val

variable {targets : List Target}

theorem Grown.refl (t : Rules) : Grown now q remote targets t t where
  sets := rfl
  entries := rfl
  allowed := fun _ _ h => h
  assigned := fun _ h => h
  fresh := fun _ _ h => h
  freshSet := fun _ h => h
  grants := fun _ h => .inl h
  assignments := fun _ h => .inl h

theorem Grown.trans (h : Grown now q remote targets t t') (h' : Grown now q remote targets t' u) :
    Grown now q remote targets t u where
  sets := h'.sets.trans h.sets
  entries := h'.entries.trans h.entries
  allowed := fun x p hx => h'.allowed x p (h.allowed x p hx)
  assigned := fun id hid => h'.assigned id (h.assigned id hid)
  fresh := fun x p hx => h'.fresh x p (h.fresh x p hx)
  freshSet := fun id hid => h'.freshSet id (h.freshSet id hid)
  grants := fun g hg => (h'.grants g hg).elim (h.grants g) .inr
  assignments := fun a ha => (h'.assignments a ha).elim (h.assignments a) .inr

/-! ### A privilege -/

theorem allowed_allowTarget {x : Target} {p : Text} (h : Fresh now q t x p) :
    Allowed now q remote (allowTarget p q remote by_ t x) x p :=
  Keyed.exists_upsert (q := fun g : Grant => g.effect = .allow ∧ g.remoteAllowed = remote ∧ live now g.expiresAt = true)
    ⟨rfl, rfl, rfl⟩ fun g hg hkey => ⟨rfl, rfl, h g hg hkey⟩

theorem grown_allowTarget {x : Target} (p : Text) (hx : x ∈ targets) :
    Grown now q remote targets t (allowTarget p q remote by_ t x) where
  sets := rfl
  entries := rfl
  allowed := fun _ _ h => Keyed.exists_upsert_of_exists h fun _ ⟨_, _, hlive⟩ => ⟨rfl, rfl, hlive⟩
  assigned := fun _ h => h
  fresh := fun _ _ h => Keyed.forall_upsert h rfl fun _ hlive => hlive
  freshSet := fun _ h => h
  grants := by
    intro g hg
    obtain ⟨hg, -⟩ | ⟨old, -, hkey, rfl⟩ | ⟨-, rfl⟩ := Keyed.mem_upsert.mp hg
    · exact Or.inl hg
    · simp only [Grant.key, Prod.mk.injEq] at hkey
      obtain ⟨hu, hh, hk, hi, -⟩ := hkey
      exact Or.inr ⟨hu, hh, x, hx, hk, hi⟩
    · exact Or.inr ⟨rfl, rfl, x, hx, rfl, rfl⟩
  assignments := fun _ h => .inl h

theorem grown_allowTargets (p : Text) : ∀ (xs : List Target) (t : Rules), (∀ x ∈ xs, x ∈ targets) →
    Grown now q remote targets t (xs.foldl (allowTarget p q remote by_) t) := by
  intro xs
  induction xs with
  | nil => exact fun t _ => Grown.refl t
  | cons x xs ih =>
      intro t hxs
      exact (grown_allowTarget p (hxs x List.mem_cons_self)).trans
        (ih _ fun y hy => hxs y (List.mem_cons_of_mem x hy))

theorem allowed_allowTargets (p : Text) : ∀ (xs : List Target) (t : Rules) (x : Target), x ∈ xs →
    Fresh now q t x p → Allowed now q remote (xs.foldl (allowTarget p q remote by_) t) x p := by
  intro xs
  induction xs with
  | nil => exact fun t x hx => absurd hx List.not_mem_nil
  | cons y xs ih =>
      intro t x hx hfresh
      rcases List.mem_cons.mp hx with rfl | hx
      · exact (grown_allowTargets p xs _ fun _ h => h).allowed x p (allowed_allowTarget hfresh)
      · have hgrown : Grown now q remote [y] t (allowTarget p q remote by_ t y) :=
          grown_allowTarget p (List.mem_singleton_self y)
        exact ih _ x hx (hgrown.fresh x p hfresh)

/-! ### A set -/

theorem assignSet_spec {name : Text} (h : assignSet t name q remote by_ = some (n, t')) :
    Grown now q remote targets t t' ∧
      (n ≠ 0 → ∃ s, t.set? name = some s ∧ (FreshSet now q t s.id → Assigned now q remote t' s.id)) := by
  unfold assignSet at h
  split at h
  · obtain ⟨rfl, rfl⟩ := Prod.mk.inj (Option.some.inj h)
    exact ⟨Grown.refl t, fun hn => absurd rfl hn⟩
  · rename_i s hset
    obtain ⟨rfl, rfl⟩ := Prod.mk.inj (Option.some.inj h)
    constructor
    · exact {
        sets := rfl
        entries := rfl
        allowed := fun _ _ h => h
        assigned := fun _ h => Keyed.exists_upsert_of_exists h fun _ ⟨_, hlive⟩ => ⟨rfl, hlive⟩
        fresh := fun _ _ h => h
        freshSet := fun _ h => Keyed.forall_upsert h rfl fun _ hlive => hlive
        grants := fun _ h => .inl h
        assignments := by
          intro a ha
          obtain ⟨ha, -⟩ | ⟨old, -, hkey, rfl⟩ | ⟨-, rfl⟩ := Keyed.mem_upsert.mp ha
          · exact Or.inl ha
          · simp only [Assignment.key, Prod.mk.injEq] at hkey
            exact Or.inr hkey.2
          · exact Or.inr ⟨rfl, rfl, rfl, rfl⟩ }
    · intro _
      refine ⟨s, hset, fun hfresh => ?_⟩
      exact Keyed.exists_upsert (q := fun a : Assignment => a.remoteAllowed = remote ∧ live now a.expiresAt = true)
        ⟨rfl, rfl⟩ fun a ha hkey => ⟨rfl, hfresh a ha hkey⟩

/-! ### The loop -/

/-- What a token was selected for. -/
def Served (now : Int) (q : AccessRequest) (remote : Bool) (targets : List Target) (t t' : Rules) (token : Text) :
    Prop :=
  if token.head? = some 64 then
    ∃ s, t.set? token.tail = some s ∧ (FreshSet now q t s.id → Assigned now q remote t' s.id)
  else ∀ x ∈ targets, Fresh now q t x token → Allowed now q remote t' x token

theorem grantToken_spec (now : Int) {s : Tables} {token : Text}
    (h : grantToken s token q remote by_ = some (n, t')) :
    Grown now q remote (targetsOf s q.id) s.rules t' ∧
      (n ≠ 0 → Served now q remote (targetsOf s q.id) s.rules t' token) := by
  unfold grantToken at h
  unfold Served
  split at h
  · rename_i hset
    rw [if_pos hset]
    exact assignSet_spec h
  · rename_i hset
    rw [if_neg hset]
    obtain ⟨-, rfl⟩ := Prod.mk.inj (Option.some.inj h)
    exact ⟨grown_allowTargets token _ _ fun _ hx => hx, fun _ x hx => allowed_allowTargets token _ _ x hx⟩

theorem set?_congr (h : t'.sets = t.sets) (name : Text) : t'.set? name = t.set? name := by
  unfold Rules.set?
  rw [h]

/-- A token that is served by rules which have grown before and grow behind it. -/
theorem Served.of_grown {t₁ t₂ : Rules} {token : Text} (h : Served now q remote targets t₁ t₂ token)
    (hbefore : Grown now q remote targets t t₁) (hafter : Grown now q remote targets t₂ t') :
    Served now q remote targets t t' token := by
  unfold Served at h ⊢
  split
  · rename_i hset
    rw [if_pos hset] at h
    obtain ⟨s, hs, hassigned⟩ := h
    refine ⟨s, (set?_congr hbefore.sets _).symm.trans hs, fun hfresh => ?_⟩
    exact hafter.assigned s.id (hassigned (hbefore.freshSet s.id hfresh))
  · rename_i hset
    rw [if_neg hset] at h
    exact fun x hx hfresh => hafter.allowed x _ (h x hx (hbefore.fresh x _ hfresh))

variable {fails : Call → Bool} {c c' : Connection} {ok : Bool}

/-- The loop leaves the transaction open, whatever happens in it. -/
theorem grantTokens_saved : ∀ (tokens : List Text) (i : Nat) (c : Connection),
    (grantTokens fails q remote by_ i tokens c).2.saved = c.saved := by
  intro tokens
  induction tokens with
  | nil => exact fun i c => rfl
  | cons token tokens ih =>
      intro i c
      unfold grantTokens
      split
      · rfl
      split
      · rfl
      · dsimp only
        split
        · rfl
        · exact ih (i + 1) _

/-- Where the loop comes to its end, every token is served. -/
theorem grantTokens_spec (now : Int) : ∀ (tokens : List Text) (i : Nat) (c c' : Connection),
    grantTokens fails q remote by_ i tokens c = (true, c') →
    ∃ rules, c' = c.put { c.now with rules := rules } ∧
      Grown now q remote (targetsOf c.now q.id) c.now.rules rules ∧
      ∀ token ∈ tokens, tokenValid token = true ∧
        Served now q remote (targetsOf c.now q.id) c.now.rules rules token := by
  intro tokens
  induction tokens with
  | nil =>
      intro i c c' h
      obtain ⟨-, rfl⟩ := Prod.mk.inj h
      exact ⟨c.now.rules, rfl, Grown.refl _, fun _ h => absurd h List.not_mem_nil⟩
  | cons token tokens ih =>
      intro i c c' h
      unfold grantTokens at h
      split at h
      · exact absurd h (by simp)
      rename_i hgoes
      have hvalid : tokenValid token = true := by
        rw [Bool.or_eq_true, not_or, Bool.not_eq_true', Bool.not_eq_false] at hgoes
        exact hgoes.1
      split at h
      · exact absurd h (by simp)
      rename_i n rules hgrant
      dsimp only at h
      split at h
      · exact absurd h (by simp)
      rename_i hn
      have htoken : grantToken c.now token q remote by_ = some (n, rules) := by
        split at hgrant
        · exact absurd hgrant (by simp)
        · exact hgrant
      obtain ⟨hgrown, hserved⟩ := grantToken_spec now htoken
      obtain ⟨rules', rfl, hgrown', hserved'⟩ := ih (i + 1) _ c' h
      refine ⟨rules', rfl, hgrown.trans hgrown', fun other hother => ?_⟩
      rcases List.mem_cons.mp hother with rfl | hother
      · exact ⟨hvalid, (hserved hn).of_grown (Grown.refl _) hgrown'⟩
      · obtain ⟨hvalid', hserved'⟩ := hserved' other hother
        exact ⟨hvalid', hserved'.of_grown hgrown (Grown.refl _)⟩

end AccessRequests

end RustyRig

/-!
Reviews are atomic, and complete where the rules they write can be what they promise.

A review that fails leaves the tables as they were: each of its ways out behind `BEGIN` ends in
`COMMIT` or in `ROLLBACK`.  One that goes through takes the request out of `pending` and has
served every token.  What was promised of a token holds where nothing under a key it writes has
expired, and, of a set, where the request's row names the only target (`Fit`).

Over a run, a request never returns to `pending`, and whatever a request asks for has been in the
tables at the start or has been submitted by its subject.
-/

namespace RustyRig

namespace AccessRequests

open Lib (Keyed Along)
open Policy

variable {now : Int} {q : AccessRequest} {remote : Bool} {chatname : Text} {t t' : Rules} {sym : Text}
  {fails : Call → Bool} {c c' : Connection} {v : Review} {number : Nat} {granted : Bool}

/-! ### Answers -/

/-- What the subject of a request may ask about a target. -/
def ask (q : AccessRequest) (kind uuid : Word) (privilege : Text) (now : Int) (sym : Text) : Question :=
  ⟨q.subjectUser, q.subjectHost, kind.val, uuid.val, privilege, now, sym⟩

/-- The answer is ALLOW, unless a deny rule applies. -/
def Answered (t : Rules) (question : Question) : Prop :=
  t.dbResourceAccessNamed question false = .allow ∨ .deny ∈ t.effects question

theorem answered_of_allowed {x : Target} {p : Text} (h : Allowed now q remote t x p) (hp : p ≠ [])
    (hq : q.subjectUser ≠ []) (hheard : q.subjectHost = [] ∨ remote = true) :
    Answered t (ask q x.kind x.uuid p now sym) := by
  obtain ⟨g, hg, hkey, heffect, hremote, hlive⟩ := h
  simp only [Grant.key, grantKey, Prod.mk.injEq] at hkey
  obtain ⟨hu, hh, hk, hi, hp'⟩ := hkey
  refine access_allow ⟨hq, x.kind.property, x.uuid.property, hp⟩ ?_
  refine Rules.mem_effects.mpr (Or.inl ⟨g, hg, ⟨?_, ?_, ?_, ?_⟩, heffect⟩)
  · exact subject_of_fold (by rw [hu]; rfl) (by rw [hh]; rfl)
  · rw [hk, hi]
    exact resource_self
  · rw [hp']
    exact operation_self
  · unfold Question.standing
    rw [hremote, Bool.and_eq_true, Bool.or_eq_true, decide_eq_true_eq]
    exact ⟨hlive, hheard⟩

theorem answered_of_assigned {id : Nat} {e : Policy.Entry} (h : Assigned now q remote t id) (he : e ∈ t.entries.rows)
    (hset : e.setId = id) (heffect : e.effect = .allow) (hq : q.subjectUser ≠ [])
    (hheard : q.subjectHost = [] ∨ remote = true) :
    Answered t (ask q q.kind q.uuid e.privilege.val now sym) := by
  obtain ⟨a, ha, hkey, hremote, hlive⟩ := h
  simp only [Assignment.key, assignmentKey, Prod.mk.injEq] at hkey
  obtain ⟨hid, hu, hh, hk, hi⟩ := hkey
  refine access_allow ⟨hq, q.kind.property, q.uuid.property, e.privilege.property⟩ ?_
  refine Rules.mem_effects.mpr (Or.inr (Or.inl ⟨a, e, ha, he, ⟨?_, hset.trans hid.symm, ?_⟩, heffect⟩))
  · unfold Rules.reaches
    rw [subject_of_fold hu.symm hh.symm, hk, hi, Bool.true_and, Bool.and_eq_true]
    refine ⟨resource_self, ?_⟩
    unfold Question.standing
    rw [hremote, Bool.and_eq_true, Bool.or_eq_true, decide_eq_true_eq]
    exact ⟨hlive, hheard⟩
  · exact operation_self

/-! ### What a review promises -/

/-- Every privilege and every set that was selected holds at every target of the request. -/
structure Complete (now : Int) (before after : Tables) (q : AccessRequest) (v : Review) : Prop where
  privileges : ∀ token ∈ tokensOf v.grants, token.head? ≠ some 64 → ∀ x ∈ targetsOf before q.id,
    (∃ g ∈ after.rules.grants.rows, g.key = grantKey q x token ∧ g.remoteAllowed = v.remote) ∧
    (q.subjectHost = [] ∨ v.remote = true → ∀ sym, Answered after.rules (ask q x.kind x.uuid token now sym))
  sets : ∀ token ∈ tokensOf v.grants, token.head? = some 64 →
    ∃ s, after.rules.set? token.tail = some s ∧ ∀ x ∈ targetsOf before q.id,
      (∃ a ∈ after.rules.assignments.rows, a.setId = s.id ∧ fold a.subjectUser = fold q.subjectUser ∧
        fold a.subjectHost = fold q.subjectHost ∧ a.resourceKind = x.kind.val ∧ a.resourceUuid = x.uuid.val ∧
        a.remoteAllowed = v.remote) ∧
      (q.subjectHost = [] ∨ v.remote = true → ∀ e ∈ after.rules.entries.rows, e.setId = s.id → e.effect = .allow →
        ∀ sym, Answered after.rules (ask q x.kind x.uuid e.privilege.val now sym))

/-- The rules that a review of the request writes can be what is promised: none of them is there already
and has expired, and where a set is selected the request has no target but the one its row names. -/
structure Fit (now : Int) (t : Tables) (q : AccessRequest) (v : Review) : Prop where
  privileges : ∀ token ∈ tokensOf v.grants, token.head? ≠ some 64 → ∀ x ∈ targetsOf t q.id, Fresh now q t.rules x token
  target : ∀ token ∈ tokensOf v.grants, token.head? = some 64 → ∀ x ∈ targetsOf t q.id, x.kind = q.kind ∧ x.uuid = q.uuid
  sets : ∀ token ∈ tokensOf v.grants, token.head? = some 64 → ∀ s, t.rules.set? token.tail = some s →
    FreshSet now q t.rules s.id

theorem complete_of_served {before after : Tables} (hq : q.subjectUser ≠ [])
    (hgrown : Grown now q v.remote (targetsOf before q.id) before.rules after.rules)
    (hserved : ∀ token ∈ tokensOf v.grants, tokenValid token = true ∧
      Served now q v.remote (targetsOf before q.id) before.rules after.rules token)
    (hfit : Fit now before q v) : Complete now before after q v := by
  constructor
  · intro token htoken hprivilege x hx
    obtain ⟨hvalid, hserved⟩ := hserved token htoken
    unfold Served at hserved
    rw [if_neg hprivilege] at hserved
    have hallowed := hserved x hx (hfit.privileges token htoken hprivilege x hx)
    have hne : token ≠ [] := by
      rintro rfl
      exact absurd hvalid (by decide)
    refine ⟨?_, fun hheard sym => answered_of_allowed hallowed hne hq hheard⟩
    obtain ⟨g, hg, hkey, -, hremote, -⟩ := hallowed
    exact ⟨g, hg, hkey, hremote⟩
  · intro token htoken hset
    obtain ⟨-, hserved⟩ := hserved token htoken
    unfold Served at hserved
    rw [if_pos hset] at hserved
    obtain ⟨s, hs, hassigned⟩ := hserved
    have hassigned := hassigned (hfit.sets token htoken hset s hs)
    refine ⟨s, (set?_congr hgrown.sets _).trans hs, fun x hx => ?_⟩
    obtain ⟨hkind, huuid⟩ := hfit.target token htoken hset x hx
    rw [hkind, huuid]
    refine ⟨?_, fun hheard e he hid heffect sym => answered_of_assigned hassigned he hid heffect hq hheard⟩
    obtain ⟨a, ha, hkey, hremote, -⟩ := hassigned
    simp only [Assignment.key, assignmentKey, Prod.mk.injEq] at hkey
    obtain ⟨hid, hu, hh, hk, hi⟩ := hkey
    exact ⟨a, ha, hid, hu, hh, hk, hi, hremote⟩

end AccessRequests

end RustyRig
