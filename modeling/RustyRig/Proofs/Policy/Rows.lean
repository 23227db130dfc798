/-
The policy tables as one set of rules, and the answers that follow from it.

A rule is a row of one of the seven tables (`Row`), and the answer of the query depends on
which rows there are and on nothing else (`access_congr`): neither on their order nor on the
lists that hold them.  So what a command does to an answer is what it does to `Rules.rows`.
-/
import Mathlib.Order.BooleanAlgebra.Set
import RustyRig.Rrserver.PolicyTables

namespace RustyRig

namespace Policy

open Lib (Keyed)

/-- A rule: a row of one of the tables. -/
inductive Row
  | grant (g : Grant)
  | set (s : PrivilegeSet)
  | entry (e : Entry)
  | assignment (a : Assignment)
  | group (g : Group)
  | member (m : Member)
  | privilege (p : GroupPrivilege)

namespace Rules

variable {t u : Rules} {q : Question} {e : Effect}

/-- The rules in the tables. -/
def rows (t : Rules) : Set Row
  | .grant g => g ∈ t.grants.rows
  | .set s => s ∈ t.sets.rows
  | .entry e => e ∈ t.entries.rows
  | .assignment a => a ∈ t.assignments.rows
  | .group g => g ∈ t.groups.rows
  | .member m => m ∈ t.members.rows
  | .privilege p => p ∈ t.groupPrivileges.rows

@[simp] theorem assignment_mem_rows {a : Assignment} : .assignment a ∈ t.rows ↔ a ∈ t.assignments.rows := Iff.rfl

/-- A grant that the first sub-select selects. -/
def counts (q : Question) (g : Grant) : Prop :=
  q.subject g.subjectUser g.subjectHost = true ∧ q.resource g.resourceKind g.resourceUuid = true ∧
    q.operation g.resourceKind g.privilege = true ∧ q.standing g.expiresAt g.remoteAllowed = true

theorem mem_granted : e ∈ t.granted q ↔ ∃ g, Row.grant g ∈ t.rows ∧ counts q g ∧ g.effect = e := by
  unfold granted counts
  simp only [List.mem_map, List.mem_filter, Bool.and_eq_true, and_assoc]
  rfl

/-- An entry of a set that an assignment brings to bear. -/
structure Joins (q : Question) (a : Assignment) (n : Entry) : Prop where
  reaches : reaches q a = true
  set : n.setId = a.setId
  operation : q.operation a.resourceKind n.privilege.val = true

theorem mem_assigned : e ∈ t.assigned q ↔
    ∃ a n, Row.assignment a ∈ t.rows ∧ Row.entry n ∈ t.rows ∧ Joins q a n ∧ n.effect = e := by
  unfold assigned
  simp only [List.mem_flatMap, List.mem_map, List.mem_filter, Bool.and_eq_true, decide_eq_true_eq]
  constructor
  · rintro ⟨a, ⟨ha, hreaches⟩, n, ⟨hn, hset, hoperation⟩, heffect⟩
    exact ⟨a, n, ha, hn, ⟨hreaches, hset, hoperation⟩, heffect⟩
  · rintro ⟨a, n, ha, hn, hjoins, heffect⟩
    exact ⟨a, ⟨ha, hjoins.reaches⟩, n, ⟨hn, hjoins.set, hjoins.operation⟩, heffect⟩

/-- A privilege of a group that a member of it has. -/
structure Shares (q : Question) (m : Member) (p : GroupPrivilege) : Prop where
  subject : q.subject m.subjectUser m.subjectHost = true
  group : p.groupName = m.groupName
  symbol : q.symbol p.resourceKind p.resourceName = true
  operation : q.operation p.resourceKind p.privilege = true

theorem mem_grouped : e ∈ t.grouped q ↔
    ∃ m p, Row.member m ∈ t.rows ∧ Row.privilege p ∈ t.rows ∧ Shares q m p ∧ p.effect = e := by
  unfold grouped
  simp only [List.mem_flatMap, List.mem_map, List.mem_filter, Bool.and_eq_true, decide_eq_true_eq]
  constructor
  · rintro ⟨m, ⟨hm, hsubject⟩, p, ⟨hp, ⟨hgroup, hsymbol⟩, hoperation⟩, heffect⟩
    exact ⟨m, p, hm, hp, ⟨hsubject, hgroup, hsymbol, hoperation⟩, heffect⟩
  · rintro ⟨m, p, hm, hp, hshares, heffect⟩
    exact ⟨m, ⟨hm, hshares.subject⟩, p, ⟨hp, ⟨hshares.group, hshares.symbol⟩, hshares.operation⟩, heffect⟩

theorem mem_effects : e ∈ t.effects q ↔
    (∃ g, Row.grant g ∈ t.rows ∧ counts q g ∧ g.effect = e) ∨
    (∃ a n, Row.assignment a ∈ t.rows ∧ Row.entry n ∈ t.rows ∧ Joins q a n ∧ n.effect = e) ∨
    (∃ m p, Row.member m ∈ t.rows ∧ Row.privilege p ∈ t.rows ∧ Shares q m p ∧ p.effect = e) := by
  unfold effects
  rw [List.mem_append, List.mem_append, mem_granted, mem_assigned, mem_grouped, or_assoc]

end Rules

/-! ### Answers -/

/-- A question that the query looks into: no argument of it is empty. -/
structure Question.Posed (q : Question) : Prop where
  user : q.subjectUser ≠ []
  kind : q.resourceKind ≠ []
  uuid : q.resourceUuid ≠ []
  privilege : q.privilege ≠ []

variable {t : Rules} {q : Question}

theorem operation_self {kind : Text} : q.operation kind q.privilege = true := by
  unfold Question.operation
  rw [decide_eq_true rfl, Bool.true_or]

theorem resource_self : q.resource q.resourceKind q.resourceUuid = true := by
  unfold Question.resource
  rw [decide_eq_true rfl, decide_eq_true rfl, Bool.true_and, Bool.true_or, Bool.true_or]

theorem subject_of_fold {user host : Text} (huser : fold q.subjectUser = fold user)
    (hhost : fold q.subjectHost = fold host) : q.subject user host = true := by
  unfold Question.subject
  rw [decide_eq_true huser.symm, decide_eq_true hhost.symm, Bool.true_and, Bool.true_or]

theorem Question.Posed.access (h : q.Posed) :
    t.dbResourceAccessNamed q false =
      if .deny ∈ t.effects q then .deny else if .allow ∈ t.effects q then .allow else .unset := by
  unfold Rules.dbResourceAccessNamed
  rw [if_neg (by simp [h.user, h.kind, h.uuid, h.privilege])]
  rfl

/-- An allowance is answered, unless a denial outweighs it. -/
theorem access_allow (h : q.Posed) (hallow : .allow ∈ t.effects q) :
    t.dbResourceAccessNamed q false = .allow ∨ .deny ∈ t.effects q := by
  by_cases hdeny : .deny ∈ t.effects q
  · exact Or.inr hdeny
  · rw [h.access, if_neg hdeny, if_pos hallow]
    exact Or.inl rfl

end Policy

end RustyRig

/-!
The answer of the scoped privilege query.

One denial that applies is enough, whichever of the three sources it is from, and an allowance
counts where nothing denies.  A row that has expired, or that does not hold for subjects of other
servers when one of them asks, is as good as absent.  The rows of the groups have no such columns,
so none of them lapses.
-/

namespace RustyRig

namespace Policy

variable {t u : Rules} {q : Question} {e : Effect} {allow : Bool} {rows : List Effect}

/-! ### The loop over the rows -/

theorem readRows_eq : Rules.readRows allow rows =
    if .deny ∈ rows then .deny else if allow ∨ .allow ∈ rows then .allow else .unset := by
  induction rows generalizing allow with
  | nil =>
      unfold Rules.readRows
      simp
  | cons e rows ih =>
      cases e with
      | deny => simp [Rules.readRows]
      | allow =>
          unfold Rules.readRows
          rw [ih]
          simp

/-- Neither the order of the rows nor their number matters. -/
theorem readRows_congr {rows' : List Effect} (h : ∀ e, e ∈ rows ↔ e ∈ rows') :
    Rules.readRows allow rows = Rules.readRows allow rows' := by
  rw [readRows_eq, readRows_eq]
  simp only [h]

/-! ### Rows that apply -/

/-- A row that has expired, or that is not for the server the subject is of. -/
def Question.Lapsed (q : Question) (expiresAt : Option Int) (remoteAllowed : Bool) : Prop :=
  (∃ at_, expiresAt = some at_ ∧ at_ ≤ q.now) ∨ (q.subjectHost ≠ [] ∧ remoteAllowed = false)

theorem standing_iff {expiresAt : Option Int} {remoteAllowed : Bool} :
    q.standing expiresAt remoteAllowed = true ↔ ¬ q.Lapsed expiresAt remoteAllowed := by
  unfold Question.standing Question.Lapsed
  rw [Bool.and_eq_true, Bool.or_eq_true, decide_eq_true_eq, not_or, not_and, Bool.not_eq_false]
  have hexpires : expiresAt.all (fun at_ => decide (q.now < at_)) = true ↔
      ¬ ∃ at_, expiresAt = some at_ ∧ at_ ≤ q.now := by
    cases expiresAt with
    | none => simp
    | some at_ => simp
  rw [hexpires]
  refine and_congr_right fun _ => ?_
  by_cases hhost : q.subjectHost = []
  · simp [hhost]
  · simp [hhost]

/-- A row of one of the three sources that applies to the question, with its effect. -/
inductive Applies (t : Rules) (q : Question) : Effect → Prop
  | user (g : Grant) (row : .grant g ∈ t.rows) (subject : q.subject g.subjectUser g.subjectHost = true)
      (resource : q.resource g.resourceKind g.resourceUuid = true)
      (operation : q.operation g.resourceKind g.privilege = true)
      (unlapsed : ¬ q.Lapsed g.expiresAt g.remoteAllowed) : Applies t q g.effect
  | set (a : Assignment) (n : Entry) (row : .assignment a ∈ t.rows) (entry : .entry n ∈ t.rows)
      (inherits : n.setId = a.setId) (subject : q.subject a.subjectUser a.subjectHost = true)
      (resource : q.resource a.resourceKind a.resourceUuid = true)
      (operation : q.operation a.resourceKind n.privilege.val = true)
      (unlapsed : ¬ q.Lapsed a.expiresAt a.remoteAllowed) : Applies t q n.effect
  | group (m : Member) (p : GroupPrivilege) (row : .member m ∈ t.rows) (privilege : .privilege p ∈ t.rows)
      (shares : p.groupName = m.groupName) (subject : q.subject m.subjectUser m.subjectHost = true)
      (symbol : q.symbol p.resourceKind p.resourceName = true)
      (operation : q.operation p.resourceKind p.privilege = true) : Applies t q p.effect

theorem mem_effects_iff : e ∈ t.effects q ↔ Applies t q e := by
  rw [Rules.mem_effects]
  constructor
  · intro h
    rcases h with ⟨g, hrow, hcounts, rfl⟩ | ⟨a, n, ha, hn, hjoins, rfl⟩ | ⟨m, p, hm, hp, hshares, rfl⟩
    · obtain ⟨hsubject, hresource, hoperation, hstanding⟩ := hcounts
      exact .user g hrow hsubject hresource hoperation (standing_iff.mp hstanding)
    · have hreaches := hjoins.reaches
      unfold Rules.reaches at hreaches
      rw [Bool.and_eq_true, Bool.and_eq_true] at hreaches
      obtain ⟨⟨hsubject, hresource⟩, hstanding⟩ := hreaches
      exact .set a n ha hn hjoins.set hsubject hresource hjoins.operation (standing_iff.mp hstanding)
    · exact .group m p hm hp hshares.group hshares.subject hshares.symbol hshares.operation
  · intro h
    cases h with
    | user g hrow hsubject hresource hoperation hunlapsed =>
        exact Or.inl ⟨g, hrow, ⟨hsubject, hresource, hoperation, standing_iff.mpr hunlapsed⟩, rfl⟩
    | set a n ha hn hset hsubject hresource hoperation hunlapsed =>
        have hreaches : Rules.reaches q a = true := by
          unfold Rules.reaches
          rw [hsubject, hresource, standing_iff.mpr hunlapsed]
          rfl
        exact Or.inr (Or.inl ⟨a, n, ha, hn, ⟨hreaches, hset, hoperation⟩, rfl⟩)
    | group m p hm hp hgroup hsubject hsymbol hoperation =>
        exact Or.inr (Or.inr ⟨m, p, hm, hp, ⟨hsubject, hgroup, hsymbol, hoperation⟩, rfl⟩)

/-! ### Rows that come and go -/

/-- The row has lapsed.  What a group has is for good. -/
def Row.Lapsed (q : Question) : Row → Prop
  | .grant g => q.Lapsed g.expiresAt g.remoteAllowed
  | .assignment a => q.Lapsed a.expiresAt a.remoteAllowed
  | _ => False

/-- The row denies something. -/
def Row.Denies : Row → Prop
  | .grant g => g.effect = .deny
  | .entry n => n.effect = .deny
  | .privilege p => p.effect = .deny
  | _ => False

/-- Tables that differ in lapsed rows only. -/
def Agree (q : Question) (t u : Rules) : Prop := ∀ r : Row, ¬ r.Lapsed q → (r ∈ t.rows ↔ r ∈ u.rows)

theorem Agree.symm (h : Agree q t u) : Agree q u t := fun r hr => (h r hr).symm

theorem Agree.applies (h : Agree q t u) (ha : Applies t q e) : Applies u q e := by
  cases ha with
  | user g hrow hsubject hresource hoperation hunlapsed =>
      exact .user g ((h (.grant g) hunlapsed).mp hrow) hsubject hresource hoperation hunlapsed
  | set a n hrow hn hset hsubject hresource hoperation hunlapsed =>
      exact .set a n ((h (.assignment a) hunlapsed).mp hrow) ((h (.entry n) id).mp hn) hset hsubject
        hresource hoperation hunlapsed
  | group m p hm hp hgroup hsubject hsymbol hoperation =>
      exact .group m p ((h (.member m) id).mp hm) ((h (.privilege p) id).mp hp) hgroup hsubject hsymbol
        hoperation

/-- A row that denies takes part in no allowance. -/
theorem applies_allow_of_insert {r : Row} (hr : r.Denies) (hu : u.rows = insert r t.rows)
    (h : Applies u q .allow) : Applies t q .allow := by
  have hold : ∀ r' : Row, ¬ r'.Denies → r' ∈ u.rows → r' ∈ t.rows := by
    intro r' hallows hmem
    rw [hu] at hmem
    rcases Set.mem_insert_iff.mp hmem with rfl | hmem
    · exact absurd hr hallows
    · exact hmem
  generalize he : Effect.allow = e at h
  cases h with
  | user g hrow hsubject hresource hoperation hunlapsed =>
      have hallows : ¬ (Row.grant g).Denies := fun hdeny => Effect.noConfusion (he.trans hdeny)
      exact .user g (hold _ hallows hrow) hsubject hresource hoperation hunlapsed
  | set a n hrow hn hset hsubject hresource hoperation hunlapsed =>
      have hallows : ¬ (Row.entry n).Denies := fun hdeny => Effect.noConfusion (he.trans hdeny)
      exact .set a n (hold (.assignment a) id hrow) (hold _ hallows hn) hset hsubject hresource hoperation
        hunlapsed
  | group m p hm hp hgroup hsubject hsymbol hoperation =>
      have hallows : ¬ (Row.privilege p).Denies := fun hdeny => Effect.noConfusion (he.trans hdeny)
      exact .group m p (hold (.member m) id hm) (hold _ hallows hp) hgroup hsubject hsymbol hoperation

theorem applies_of_insert {r : Row} (hu : u.rows = insert r t.rows) (h : Applies t q e) : Applies u q e := by
  have hmono : ∀ r' : Row, r' ∈ t.rows → r' ∈ u.rows := by
    intro r' hmem
    rw [hu]
    exact Set.mem_insert_of_mem r hmem
  cases h with
  | user g hrow hsubject hresource hoperation hunlapsed =>
      exact .user g (hmono _ hrow) hsubject hresource hoperation hunlapsed
  | set a n hrow hn hset hsubject hresource hoperation hunlapsed =>
      exact .set a n (hmono _ hrow) (hmono _ hn) hset hsubject hresource hoperation hunlapsed
  | group m p hm hp hgroup hsubject hsymbol hoperation =>
      exact .group m p (hmono _ hm) (hmono _ hp) hgroup hsubject hsymbol hoperation

/-! ### The answer -/

theorem access_deny_iff (h : q.Posed) : t.dbResourceAccessNamed q false = .deny ↔ Applies t q .deny := by
  rw [h.access, ← mem_effects_iff]
  by_cases hdeny : .deny ∈ t.effects q
  · simp [hdeny]
  · by_cases hallow : .allow ∈ t.effects q
    · simp [hdeny, hallow]
    · simp [hdeny, hallow]

theorem access_allow_iff (h : q.Posed) :
    t.dbResourceAccessNamed q false = .allow ↔ ¬ Applies t q .deny ∧ Applies t q .allow := by
  rw [h.access, ← mem_effects_iff, ← mem_effects_iff]
  by_cases hdeny : .deny ∈ t.effects q
  · simp [hdeny]
  · by_cases hallow : .allow ∈ t.effects q
    · simp [hdeny, hallow]
    · simp [hdeny, hallow]

theorem access_unset_iff (h : q.Posed) :
    t.dbResourceAccessNamed q false = .unset ↔ ¬ Applies t q .deny ∧ ¬ Applies t q .allow := by
  rw [h.access, ← mem_effects_iff, ← mem_effects_iff]
  by_cases hdeny : .deny ∈ t.effects q
  · simp [hdeny]
  · by_cases hallow : .allow ∈ t.effects q
    · simp [hdeny, hallow]
    · simp [hdeny, hallow]

theorem Agree.access (h : Agree q t u) (fails : Bool) :
    t.dbResourceAccessNamed q fails = u.dbResourceAccessNamed q fails := by
  have heffects : ∀ e, e ∈ t.effects q ↔ e ∈ u.effects q := by
    intro e
    rw [mem_effects_iff, mem_effects_iff]
    exact ⟨fun ha => h.applies ha, fun ha => h.symm.applies ha⟩
  unfold Rules.dbResourceAccessNamed
  simp only [heffects]

/-- **The scoped privilege query.**  A denial that applies outweighs every allowance, in whichever
order the rows come; one more row that denies opens nothing; and rows that have lapsed might as
well not be there.  What cannot be asked or fails is denied. -/
theorem access_spec (t : Rules) (q : Question) (fails : Bool) :
    (q.Posed → fails = false →
      (t.dbResourceAccessNamed q fails = .deny ↔ Applies t q .deny) ∧
      (t.dbResourceAccessNamed q fails = .allow ↔ ¬ Applies t q .deny ∧ Applies t q .allow) ∧
      (t.dbResourceAccessNamed q fails = .unset ↔ ¬ Applies t q .deny ∧ ¬ Applies t q .allow) ∧
      ∀ returned, returned.Perm (t.effects q) →
        t.dbResourceAccessNamed q fails = Rules.readRows false returned) ∧
    (¬ q.Posed ∨ fails = true → t.dbResourceAccessNamed q fails = .deny) ∧
    (∀ u : Rules, Agree q t u → u.dbResourceAccessNamed q fails = t.dbResourceAccessNamed q fails) ∧
    ∀ (u : Rules) (r : Row), r.Denies → u.rows = insert r t.rows → t.dbResourceAccessNamed q fails ≠ .allow →
      u.dbResourceAccessNamed q fails ≠ .allow := by
  have hrefused : ¬ q.Posed ∨ fails = true → ∀ t : Rules, t.dbResourceAccessNamed q fails = .deny := by
    intro h t
    unfold Rules.dbResourceAccessNamed
    split
    · rfl
    · rename_i hargs
      rw [not_or, not_or, not_or] at hargs
      have hposed : q.Posed := ⟨hargs.1, hargs.2.1, hargs.2.2.1, hargs.2.2.2⟩
      rw [if_pos (h.resolve_left (not_not_intro hposed))]
  refine ⟨fun h hfails => ?_, fun h => hrefused h t, fun u hagree => (hagree.access fails).symm, ?_⟩
  · subst hfails
    refine ⟨access_deny_iff h, access_allow_iff h, access_unset_iff h, fun returned hperm => ?_⟩
    rw [readRows_congr fun e => hperm.mem_iff, readRows_eq, h.access]
    simp
  · intro u r hr hu hclosed hopen
    by_cases h : ¬ q.Posed ∨ fails = true
    · rw [hrefused h u] at hopen
      exact Access.noConfusion hopen
    · rw [not_or, not_not, Bool.not_eq_true] at h
      obtain ⟨hposed, rfl⟩ := h
      obtain ⟨hnone, hallow⟩ := (access_allow_iff hposed).mp hopen
      refine hclosed ((access_allow_iff hposed).mpr ⟨fun hdeny => ?_, ?_⟩)
      · exact hnone (applies_of_insert hu hdeny)
      · exact applies_allow_of_insert hr hu hallow

/-- A grant to use every rig until five. -/
def untilFive : Grant :=
  ⟨ascii "alice", [], ascii "rig", ascii "*", ascii "rig.use", .allow, ascii "owner", some 5, true⟩

/-- Alice asks at nine. -/
def atNine : Question := ⟨ascii "alice", [], ascii "rig", ascii "uuid", ascii "rig.use", 9, []⟩

def expired : Rules := { Rules.empty with grants := ⟨[untilFive], List.nodup_singleton _⟩ }

/-- It is as if there was no grant. -/
theorem access_spec_expired :
    Rules.empty.dbResourceAccessNamed atNine false = expired.dbResourceAccessNamed atNine false := by
  refine (access_spec expired atNine false).2.2.1 Rules.empty fun r hr => ?_
  cases r with
  | grant g =>
      refine ⟨fun h => ?_, fun h => absurd h List.not_mem_nil⟩
      rw [List.mem_singleton.mp h] at hr
      exact absurd (Or.inl ⟨5, rfl, by decide⟩) hr
  | _ => exact Iff.rfl

end Policy

end RustyRig
