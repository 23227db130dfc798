/-
The scoped policy tables and the query over them, from `rrserver/database.c` and
`rrserver/database.privileges.c`.

A subject is `user@host`, with an empty host for an account of this server.  Rules for it come
from three places: a grant of its own, a privilege set that it is assigned to, a group that it
is a member of.  The query asks all three, and one denial among them outweighs every allowance.

The unique keys of the schema are part of the tables, and so are its foreign keys: those of the
group tables compare as `user_groups.name` does, without regard to case, while the two group
tables themselves are keyed and joined case-sensitively.  Columns that neither a command nor the
query reads (row numbers of the grants and assignments, times of issue) are left out.
-/
import RustyRig.Lib.Keyed

namespace RustyRig

namespace Policy

open Lib (Keyed)

abbrev Text := List UInt8

/-- A literal of the source. -/
def ascii (s : String) : Text := s.toList.map fun c => UInt8.ofNat c.toNat

/-- Texts that `COLLATE NOCASE` takes for one fold alike: it knows the ASCII letters only. -/
def fold (s : Text) : Text := s.map fun c => if 65 ≤ c ∧ c ≤ 90 then c + 32 else c

/-- A text that is not empty. -/
abbrev Word := { s : Text // s ≠ [] }

/-- `CHECK(effect IN ('allow','deny'))`. -/
inductive Effect
  | allow
  | deny
deriving DecidableEq, Repr

/-! ### The tables -/

/-- A row of `resource_privileges`. -/
structure Grant where
  subjectUser : Text
  subjectHost : Text
  resourceKind : Text
  resourceUuid : Text
  privilege : Text
  effect : Effect
  grantedBy : Text
  expiresAt : Option Int
  remoteAllowed : Bool
deriving DecidableEq, Repr

/-- `UNIQUE(subject_user,subject_host,resource_kind,resource_uuid,privilege)`: case counts. -/
def Grant.key (g : Grant) : Text × Text × Text × Text × Text :=
  (g.subjectUser, g.subjectHost, g.resourceKind, g.resourceUuid, g.privilege)

/-- A row of `privilege_sets`. -/
structure PrivilegeSet where
  id : Nat
  name : Text
  description : Text
  createdBy : Text
deriving DecidableEq, Repr

/-- `name TEXT NOT NULL UNIQUE COLLATE NOCASE`. -/
def PrivilegeSet.key (s : PrivilegeSet) : Text := fold s.name

/-- A row of `privilege_set_entries`, with `CHECK(length(privilege) BETWEEN 1 AND 128)`, of which the
upper bound is checked by every writer. -/
structure Entry where
  setId : Nat
  privilege : Word
  effect : Effect
deriving DecidableEq, Repr

/-- `PRIMARY KEY(set_id,privilege)`. -/
def Entry.key (e : Entry) : Nat × Word := (e.setId, e.privilege)

/-- A row of `privilege_set_assignments`. -/
structure Assignment where
  setId : Nat
  subjectUser : Text
  subjectHost : Text
  resourceKind : Text
  resourceUuid : Text
  assignedBy : Text
  expiresAt : Option Int
  remoteAllowed : Bool
deriving DecidableEq, Repr

/-- `UNIQUE(set_id,subject_user,subject_host,resource_kind,resource_uuid)`, the subject `COLLATE NOCASE`. -/
def Assignment.key (a : Assignment) : Nat × Text × Text × Text × Text :=
  (a.setId, fold a.subjectUser, fold a.subjectHost, a.resourceKind, a.resourceUuid)

/-- A row of `user_groups`. -/
structure Group where
  name : Text
  description : Text
deriving DecidableEq, Repr

/-- `name TEXT PRIMARY KEY COLLATE NOCASE`. -/
def Group.key (g : Group) : Text := fold g.name

/-- A row of `user_group_members`. -/
structure Member where
  groupName : Text
  subjectUser : Text
  subjectHost : Text
deriving DecidableEq, Repr

/-- `PRIMARY KEY(group_name,subject_user,subject_host)`, only the subject `COLLATE NOCASE`. -/
def Member.key (m : Member) : Text × Text × Text := (m.groupName, fold m.subjectUser, fold m.subjectHost)

/-- A row of `user_group_privileges`. -/
structure GroupPrivilege where
  groupName : Text
  resourceKind : Text
  resourceName : Text
  privilege : Text
  effect : Effect
deriving DecidableEq, Repr

/-- `PRIMARY KEY(group_name,resource_kind,resource_name,privilege)`. -/
def GroupPrivilege.key (p : GroupPrivilege) : Text × Text × Text × Text :=
  (p.groupName, p.resourceKind, p.resourceName, p.privilege)

/-- The policy tables, with their foreign keys. -/
@[ext] structure Rules where
  grants : Keyed Grant.key
  sets : Keyed PrivilegeSet.key
  entries : Keyed Entry.key
  assignments : Keyed Assignment.key
  groups : Keyed Group.key
  members : Keyed Member.key
  groupPrivileges : Keyed GroupPrivilege.key
  /-- `id INTEGER PRIMARY KEY` of the sets. -/
  ids : (sets.rows.map PrivilegeSet.id).Nodup
  entrySet : ∀ e ∈ entries.rows, ∃ s ∈ sets.rows, s.id = e.setId
  assignmentSet : ∀ a ∈ assignments.rows, ∃ s ∈ sets.rows, s.id = a.setId
  memberGroup : ∀ m ∈ members.rows, ∃ g ∈ groups.rows, fold g.name = fold m.groupName
  privilegeGroup : ∀ p ∈ groupPrivileges.rows, ∃ g ∈ groups.rows, fold g.name = fold p.groupName

/-- A server without any rule. -/
def Rules.empty : Rules where
  grants := .empty
  sets := .empty
  entries := .empty
  assignments := .empty
  groups := .empty
  members := .empty
  groupPrivileges := .empty
  ids := List.nodup_nil
  entrySet := fun _ h => absurd h List.not_mem_nil
  assignmentSet := fun _ h => absurd h List.not_mem_nil
  memberGroup := fun _ h => absurd h List.not_mem_nil
  privilegeGroup := fun _ h => absurd h List.not_mem_nil

/-! ### The query -/

/-- `rr_resource_access_t`. -/
inductive Access
  | deny
  | unset
  | allow
deriving DecidableEq, Repr

/-- The arguments of `db_resource_access_named`: `?1` to `?7`. -/
structure Question where
  subjectUser : Text
  subjectHost : Text
  resourceKind : Text
  resourceUuid : Text
  privilege : Text
  now : Int
  symbolicName : Text
deriving DecidableEq, Repr

namespace Question

variable (q : Question)

/-- `subject_user=?1 COLLATE NOCASE AND (subject_host=?2 COLLATE NOCASE OR (?2!='' AND subject_host='*'))`. -/
def subject (user host : Text) : Bool :=
  decide (fold user = fold q.subjectUser) &&
    (decide (fold host = fold q.subjectHost) || (decide (q.subjectHost ≠ []) && decide (host = ascii "*")))

/-- `length(?7)>0 AND name=?7 COLLATE NOCASE`. -/
def named (name : Text) : Bool :=
  decide (q.symbolicName ≠ []) && decide (fold name = fold q.symbolicName)

/-- `resource_kind=?3 AND (resource_uuid=?4 OR (resource_kind IN ('rig','room') AND resource_uuid='*') OR ...)`. -/
def resource (kind uuid : Text) : Bool :=
  decide (kind = q.resourceKind) &&
    (decide (uuid = q.resourceUuid) ||
      ((decide (kind = ascii "rig") || decide (kind = ascii "room")) && decide (uuid = ascii "*")) || q.named uuid)

/-- `gp.resource_kind=?3 AND (gp.resource_name='*' OR ...)`: a group knows no identities. -/
def symbol (kind name : Text) : Bool :=
  decide (kind = q.resourceKind) && (decide (name = ascii "*") || q.named name)

/-- `privilege=?5 OR (resource_kind='rig' AND privilege='rig.full')`. -/
def operation (kind privilege : Text) : Bool :=
  decide (privilege = q.privilege) || (decide (kind = ascii "rig") && decide (privilege = ascii "rig.full"))

/-- `(expires_at IS NULL OR expires_at>?6) AND (?2='' OR remote_allowed=1)`. -/
def standing (expiresAt : Option Int) (remoteAllowed : Bool) : Bool :=
  expiresAt.all (fun at_ => decide (q.now < at_)) && (decide (q.subjectHost = []) || remoteAllowed)

end Question

namespace Rules

variable (t : Rules) (q : Question)

/-- The first sub-select, over `resource_privileges`. -/
def granted : List Effect :=
  (t.grants.rows.filter fun g =>
    q.subject g.subjectUser g.subjectHost && q.resource g.resourceKind g.resourceUuid &&
      q.operation g.resourceKind g.privilege && q.standing g.expiresAt g.remoteAllowed).map Grant.effect

/-- An assignment that the second sub-select joins to the entries of its set. -/
def reaches (a : Assignment) : Bool :=
  q.subject a.subjectUser a.subjectHost && q.resource a.resourceKind a.resourceUuid &&
    q.standing a.expiresAt a.remoteAllowed

/-- The second sub-select, over `privilege_set_assignments` and `privilege_set_entries`. -/
def assigned : List Effect :=
  (t.assignments.rows.filter (reaches q)).flatMap fun a =>
    (t.entries.rows.filter fun e =>
      decide (e.setId = a.setId) && q.operation a.resourceKind e.privilege.val).map Entry.effect

/-- The third sub-select, over `user_group_members` and `user_group_privileges`. -/
def grouped : List Effect :=
  (t.members.rows.filter fun m => q.subject m.subjectUser m.subjectHost).flatMap fun m =>
    (t.groupPrivileges.rows.filter fun p =>
      decide (p.groupName = m.groupName) && q.symbol p.resourceKind p.resourceName &&
        q.operation p.resourceKind p.privilege).map GroupPrivilege.effect

/-- The rows of the `UNION ALL`. -/
def effects : List Effect := granted t q ++ assigned t q ++ grouped t q

/-- The loop of `db_resource_access_named` over the rows as SQLite returns them, after rows that
allowed or did not. -/
def readRows (allow : Bool) : List Effect → Access
  | [] => if allow then .allow else .unset
  | .deny :: _ => .deny
  | .allow :: rest => readRows true rest

/-- `db_resource_access_named`; `fails` says that SQLite refuses one of its calls. -/
def dbResourceAccessNamed (fails : Bool) : Access :=
  if q.subjectUser = [] ∨ q.resourceKind = [] ∨ q.resourceUuid = [] ∨ q.privilege = [] then .deny
  else if fails then .deny
  else if .deny ∈ t.effects q then .deny
  else if .allow ∈ t.effects q then .allow
  else .unset

end Rules

end Policy

end RustyRig
