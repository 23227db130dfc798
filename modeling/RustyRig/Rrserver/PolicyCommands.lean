/-
The commands that write the policy tables, from `rrserver/events.admin.c`: privilege sets
(`admin_privset_action`), grants (`admin_resource_action`) and groups (`admin_group_action`).

Each handler reads a target and a text of words, refuses what is not well formed, and runs one
SQL statement.  Whether the command is reported as done is judged from how that statement ended:
a set's command by a row having changed, a grant's by exactly one having changed, a group's by
the statement having come to its end.

`statement` is that SQL: nothing where SQLite refuses to prepare or to run it, which leaves the
tables as they are, else the number of rows changed and the tables.  Log lines, and SQLite's own
message behind an error text, are left out.
-/
import RustyRig.Rrserver.PolicyTables

namespace RustyRig

namespace Policy

open Lib (Keyed)

/-- `HTTP_USER_LEN`. -/
def userLen : Nat := 16

/-- `user@host`; a user of this server has no host. -/
structure Subject where
  user : Text
  host : Text
  named : user ≠ []
deriving DecidableEq, Repr

/-! ### The statements -/

namespace Rules

variable (t : Rules)

/-- `SELECT id FROM privilege_sets WHERE name=?1`. -/
def set? (name : Text) : Option PrivilegeSet := t.sets.rows.find? fun s => decide (fold s.name = fold name)

theorem set?_mem {t : Rules} {name : Text} {s : PrivilegeSet} (h : t.set? name = some s) :
    s ∈ t.sets.rows ∧ fold s.name = fold name := by
  have hfold := List.find?_some h
  exact ⟨List.mem_of_find?_eq_some h, of_decide_eq_true hfold⟩

/-- The row number that a new set gets. -/
def nextId : Nat := Lib.next (t.sets.rows.map PrivilegeSet.id)

/-- `INSERT INTO privilege_sets`. -/
def createSet (name description createdBy : Text) : Option (Nat × Rules) :=
  let new : PrivilegeSet := ⟨t.nextId, name, description, createdBy⟩
  if h : new.key ∈ t.sets.rows.map PrivilegeSet.key then none
  else
    some (1, { t with
      sets := t.sets.insert new h
      ids := by
        show ((t.sets.rows ++ [new]).map PrivilegeSet.id).Nodup
        rw [List.map_append, List.map_singleton]
        exact t.ids.append (List.nodup_singleton _) (List.disjoint_singleton.mpr (Lib.next_notMem _))
      entrySet := fun e he =>
        let ⟨s, hs, hid⟩ := t.entrySet e he
        ⟨s, Keyed.mem_insert.mpr (.inl hs), hid⟩
      assignmentSet := fun a ha =>
        let ⟨s, hs, hid⟩ := t.assignmentSet a ha
        ⟨s, Keyed.mem_insert.mpr (.inl hs), hid⟩ })

/-- A row of a set that has the name. -/
def ofSet (name : Text) (id : Nat) : Bool :=
  t.sets.rows.any fun s => decide (fold s.name = fold name) && decide (s.id = id)

theorem ofSet_iff {t : Rules} {name : Text} {id : Nat} :
    t.ofSet name id = true ↔ ∃ s ∈ t.sets.rows, fold s.name = fold name ∧ s.id = id := by
  unfold ofSet
  simp only [List.any_eq_true, Bool.and_eq_true, decide_eq_true_eq]

/-- `DELETE FROM privilege_sets WHERE name=?1`, and by cascade what refers to the set. -/
def deleteSet (name : Text) : Option (Nat × Rules) :=
  let gone : PrivilegeSet → Bool := fun s => decide (fold s.name = fold name)
  have hkept : ∀ id, t.ofSet name id ≠ true → (∃ s ∈ t.sets.rows, s.id = id) →
      ∃ s ∈ (t.sets.delete gone).rows, s.id = id := by
    rintro id hid ⟨s, hs, rfl⟩
    exact ⟨s, Keyed.mem_delete.mpr ⟨hs, fun h => hid (ofSet_iff.mpr ⟨s, hs, of_decide_eq_true h, rfl⟩)⟩, rfl⟩
  some (t.sets.count gone, { t with
    sets := t.sets.delete gone
    entries := t.entries.delete fun e => t.ofSet name e.setId
    assignments := t.assignments.delete fun a => t.ofSet name a.setId
    ids := t.ids.sublist (List.filter_sublist.map PrivilegeSet.id)
    entrySet := fun e he =>
      let ⟨he, hid⟩ := Keyed.mem_delete.mp he
      hkept e.setId hid (t.entrySet e he)
    assignmentSet := fun a ha =>
      let ⟨ha, hid⟩ := Keyed.mem_delete.mp ha
      hkept a.setId hid (t.assignmentSet a ha) })

/-- `INSERT INTO privilege_set_entries ... SELECT id,?2,?3 FROM privilege_sets WHERE name=?1 ON CONFLICT ...`. -/
def putEntry (name : Text) (effect : Effect) (privilege : Word) : Option (Nat × Rules) :=
  match h : t.set? name with
  | none => some (0, t)
  | some s =>
      some (1, { t with
        entries := t.entries.upsert ⟨s.id, privilege, effect⟩ (fun e => { e with effect := effect }) fun _ => rfl
        entrySet := fun e he => by
          obtain ⟨he, -⟩ | ⟨old, hold, -, rfl⟩ | ⟨-, rfl⟩ := Keyed.mem_upsert.mp he
          · exact t.entrySet e he
          · exact t.entrySet old hold
          · exact ⟨s, (set?_mem h).1, rfl⟩ })

/-- `DELETE FROM privilege_set_entries WHERE set_id=(SELECT id ...) AND privilege=?2`. -/
def deleteEntry (name : Text) (privilege : Word) : Option (Nat × Rules) :=
  let gone : Entry → Bool := fun e =>
    decide ((t.set? name).map PrivilegeSet.id = some e.setId) && decide (e.privilege = privilege)
  some (t.entries.count gone, { t with
    entries := t.entries.delete gone
    entrySet := fun e he => t.entrySet e (Keyed.mem_delete.mp he).1 })

/-- `DELETE FROM privilege_set_assignments WHERE set_id=(SELECT id ...) AND subject_user=?2 COLLATE NOCASE ...`. -/
def unassign (name : Text) (subject : Subject) (kind uuid : Word) : Option (Nat × Rules) :=
  let gone : Assignment → Bool := fun a =>
    decide ((t.set? name).map PrivilegeSet.id = some a.setId) &&
      decide (fold a.subjectUser = fold subject.user) && decide (fold a.subjectHost = fold subject.host) &&
      decide (a.resourceKind = kind.val) && decide (a.resourceUuid = uuid.val)
  some (t.assignments.count gone, { t with
    assignments := t.assignments.delete gone
    assignmentSet := fun a ha => t.assignmentSet a (Keyed.mem_delete.mp ha).1 })

/-- `INSERT INTO resource_privileges ... ON CONFLICT ... DO UPDATE SET ...,expires_at=NULL`. -/
def putGrant (subject : Subject) (kind uuid privilege : Word) (effect : Effect) (remote : Bool)
    (grantedBy : Text) : Option (Nat × Rules) :=
  some (1, { t with
    grants := t.grants.upsert
      ⟨subject.user, subject.host, kind.val, uuid.val, privilege.val, effect, grantedBy, none, remote⟩
      (fun g => { g with effect := effect, remoteAllowed := remote, grantedBy := grantedBy, expiresAt := none })
      fun _ => rfl })

/-- What `resource-revoke` deletes: the subject `COLLATE NOCASE`. -/
def revoked (subject : Subject) (kind uuid privilege : Word) (g : Grant) : Bool :=
  decide (fold g.subjectUser = fold subject.user) && decide (fold g.subjectHost = fold subject.host) &&
    decide (g.resourceKind = kind.val) && decide (g.resourceUuid = uuid.val) &&
    decide (g.privilege = privilege.val)

/-- `DELETE FROM resource_privileges WHERE subject_user=?1 COLLATE NOCASE ...`. -/
def deleteGrant (subject : Subject) (kind uuid privilege : Word) : Option (Nat × Rules) :=
  some (t.grants.count (revoked subject kind uuid privilege),
    { t with grants := t.grants.delete (revoked subject kind uuid privilege) })

/-- `INSERT INTO user_groups`. -/
def createGroup (name description : Text) : Option (Nat × Rules) :=
  if h : (⟨name, description⟩ : Group).key ∈ t.groups.rows.map Group.key then none
  else
    some (1, { t with
      groups := t.groups.insert ⟨name, description⟩ h
      memberGroup := fun m hm =>
        let ⟨g, hg, hname⟩ := t.memberGroup m hm
        ⟨g, Keyed.mem_insert.mpr (.inl hg), hname⟩
      privilegeGroup := fun p hp =>
        let ⟨g, hg, hname⟩ := t.privilegeGroup p hp
        ⟨g, Keyed.mem_insert.mpr (.inl hg), hname⟩ })

/-- `DELETE FROM user_groups WHERE name=?1`, and by cascade what refers to the group. -/
def deleteGroup (name : Text) : Option (Nat × Rules) :=
  let gone : Group → Bool := fun g => decide (fold g.name = fold name)
  have hkept : ∀ n, fold n ≠ fold name → (∃ g ∈ t.groups.rows, fold g.name = fold n) →
      ∃ g ∈ (t.groups.delete gone).rows, fold g.name = fold n := by
    rintro n hn ⟨g, hg, hname⟩
    exact ⟨g, Keyed.mem_delete.mpr ⟨hg, fun h => hn (hname.symm.trans (of_decide_eq_true h))⟩, hname⟩
  some (t.groups.count gone, { t with
    groups := t.groups.delete gone
    members := t.members.delete fun m => decide (fold m.groupName = fold name)
    groupPrivileges := t.groupPrivileges.delete fun p => decide (fold p.groupName = fold name)
    memberGroup := fun m hm =>
      let ⟨hm, hname⟩ := Keyed.mem_delete.mp hm
      hkept m.groupName (fun h => hname (decide_eq_true h)) (t.memberGroup m hm)
    privilegeGroup := fun p hp =>
      let ⟨hp, hname⟩ := Keyed.mem_delete.mp hp
      hkept p.groupName (fun h => hname (decide_eq_true h)) (t.privilegeGroup p hp) })

/-- The foreign key of the two group tables, which compares as `user_groups.name` does. -/
def HasGroup (name : Text) : Prop := ∃ g ∈ t.groups.rows, fold g.name = fold name

instance (name : Text) : Decidable (t.HasGroup name) :=
  inferInstanceAs (Decidable (∃ g ∈ t.groups.rows, fold g.name = fold name))

/-- `INSERT OR IGNORE INTO user_group_members`: the foreign key is not ignored. -/
def addMember (group : Text) (subject : Subject) : Option (Nat × Rules) :=
  let new : Member := ⟨group, subject.user, subject.host⟩
  if h : new.key ∈ t.members.rows.map Member.key then some (0, t)
  else if hgroup : t.HasGroup group then
    some (1, { t with
      members := t.members.insert new h
      memberGroup := fun m hm => by
        rcases Keyed.mem_insert.mp hm with hm | rfl
        · exact t.memberGroup m hm
        · exact hgroup })
  else none

/-- `DELETE FROM user_group_members WHERE group_name=?1 AND subject_user=?2 COLLATE NOCASE ...`. -/
def deleteMember (group : Text) (subject : Subject) : Option (Nat × Rules) :=
  let gone : Member → Bool := fun m =>
    decide (m.groupName = group) && decide (fold m.subjectUser = fold subject.user) &&
      decide (fold m.subjectHost = fold subject.host)
  some (t.members.count gone, { t with
    members := t.members.delete gone
    memberGroup := fun m hm => t.memberGroup m (Keyed.mem_delete.mp hm).1 })

/-- `INSERT INTO user_group_privileges ... ON CONFLICT ... DO UPDATE SET effect=excluded.effect`. -/
def putPrivilege (group : Text) (kind name privilege : Word) (effect : Effect) : Option (Nat × Rules) :=
  if hgroup : t.HasGroup group then
    some (1, { t with
      groupPrivileges := t.groupPrivileges.upsert ⟨group, kind.val, name.val, privilege.val, effect⟩
        (fun p => { p with effect := effect }) fun _ => rfl
      privilegeGroup := fun p hp => by
        obtain ⟨hp, -⟩ | ⟨old, hold, -, rfl⟩ | ⟨-, rfl⟩ := Keyed.mem_upsert.mp hp
        · exact t.privilegeGroup p hp
        · exact t.privilegeGroup old hold
        · exact hgroup })
  else none

/-- `DELETE FROM user_group_privileges WHERE group_name=?1 AND resource_kind=?2 ...`. -/
def deletePrivilege (group : Text) (kind name privilege : Word) : Option (Nat × Rules) :=
  let gone : GroupPrivilege → Bool := fun p =>
    decide (p.groupName = group) && decide (p.resourceKind = kind.val) &&
      decide (p.resourceName = name.val) && decide (p.privilege = privilege.val)
  some (t.groupPrivileges.count gone, { t with
    groupPrivileges := t.groupPrivileges.delete gone
    privilegeGroup := fun p hp => t.privilegeGroup p (Keyed.mem_delete.mp hp).1 })

end Rules

/-! ### Commands -/

/-- A command that its handler takes for well formed. -/
inductive Command
  | privsetCreate (name description : Text)
  | privsetDelete (name : Text)
  | privsetEntry (name : Text) (effect : Effect) (privilege : Word)
  | privsetUnentry (name : Text) (privilege : Word)
  | privsetAssign (name : Text) (subject : Subject) (kind uuid : Word)
  | privsetUnassign (name : Text) (subject : Subject) (kind uuid : Word)
  | resourceGrant (subject : Subject) (kind uuid privilege : Word) (effect : Effect) (remote : Bool)
  | resourceRevoke (subject : Subject) (kind uuid privilege : Word)
  | groupCreate (group description : Text)
  | groupDelete (group : Text)
  | groupAddUser (group : Text) (subject : Subject)
  | groupRemoveUser (group : Text) (subject : Subject)
  | groupGrant (group : Text) (kind resource privilege : Word) (effect : Effect)
  | groupUngrant (group : Text) (kind resource privilege : Word)
deriving DecidableEq, Repr

/-- The SQL of a command, which `chatname` gives. -/
def Command.statement (chatname : Text) (t : Rules) : Command → Option (Nat × Rules)
  | .privsetCreate name description => t.createSet name description chatname
  | .privsetDelete name => t.deleteSet name
  | .privsetEntry name effect privilege => t.putEntry name effect privilege
  | .privsetUnentry name privilege => t.deleteEntry name privilege
  -- The statement names six columns and selects seven values, so it is never prepared.
  | .privsetAssign _ _ _ _ => none
  | .privsetUnassign name subject kind uuid => t.unassign name subject kind uuid
  | .resourceGrant subject kind uuid privilege effect remote =>
      t.putGrant subject kind uuid privilege effect remote chatname
  | .resourceRevoke subject kind uuid privilege => t.deleteGrant subject kind uuid privilege
  | .groupCreate group description => t.createGroup group description
  | .groupDelete group => t.deleteGroup group
  | .groupAddUser group subject => t.addMember group subject
  | .groupRemoveUser group subject => t.deleteMember group subject
  | .groupGrant group kind resource privilege effect => t.putPrivilege group kind resource privilege effect
  | .groupUngrant group kind resource privilege => t.deletePrivilege group kind resource privilege

/-- Whether a statement that came to its end with so many changes is reported as done. -/
def Command.judged (changes : Nat) : Command → Bool
  | .privsetCreate _ _ | .privsetDelete _ | .privsetEntry _ _ _ | .privsetUnentry _ _
  | .privsetAssign _ _ _ _ | .privsetUnassign _ _ _ _ => decide (0 < changes)
  | .resourceGrant _ _ _ _ _ _ | .resourceRevoke _ _ _ _ => decide (changes = 1)
  | .groupCreate _ _ | .groupDelete _ | .groupAddUser _ _ | .groupRemoveUser _ _
  | .groupGrant _ _ _ _ _ | .groupUngrant _ _ _ _ => true

/-- Whether a command is reported as done, and the tables after it; `fails` says that SQLite refuses one
of its calls. -/
def Command.run (c : Command) (chatname : Text) (fails : Bool) (t : Rules) : Bool × Rules :=
  if fails then (false, t)
  else
    match c.statement chatname t with
    | none => (false, t)
    | some (changes, t') => (c.judged changes, t')

/-! ### Reading a command -/

/-- `isspace`. -/
def isSpace (c : UInt8) : Bool := c = 32 || (9 ≤ c && c ≤ 13)

/-- `sscanf` with a `"%<w>s"` for every width: the words that it stores. -/
def scan : List Nat → Text → List Word
  | [], _ => []
  | w :: ws, s =>
      let rest := s.dropWhile isSpace
      let word := (rest.takeWhile fun c => !isSpace c).take w
      if h : word = [] then [] else ⟨word, h⟩ :: scan ws (rest.drop word.length)

def Effect.ofText (s : Text) : Option Effect :=
  if s = ascii "allow" then some .allow else if s = ascii "deny" then some .deny else none

/-- The kinds that both `privset-assign` and `resource-grant` know. -/
def kinds : List Text :=
  [ascii "site", ascii "rig", ascii "vfo", ascii "room", ascii "media", ascii "serial", ascii "file", ascii "bridge"]

/-- What stands before the first `'@'`, and what behind it. -/
def userAt (s : Text) : Text × Option Text :=
  (s.takeWhile (· ≠ 64), (s.dropWhile (· ≠ 64)).tail?)

section Handlers

-- `rr_object_uuid_valid`, of the protocol library
variable (uuidValid : Text → Bool)

/-- The subject of `privset-assign` and `privset-unassign`. -/
def assignee (a : Text) : Except String Subject :=
  match userAt a with
  | (user, host) =>
      if host.any fun host => host = [] || 130 ≤ host.length then .error "Invalid remote site"
      else if h : user = [] ∨ userLen < user.length then .error "Invalid subject username"
      else .ok ⟨user, host.getD [], fun hnil => h (.inl hnil)⟩

/-- `admin_privset_action`, as far as it reads its command. -/
def readPrivset (action name data : Text) : Except String Command :=
  if name = [] || 96 < name.length || 512 < data.length then
    .error "Invalid privilege set name or arguments"
  else
    let args := scan [129, 129, 129, 15] data
    if action = ascii "privset-create" then .ok (.privsetCreate name data)
    else if action = ascii "privset-delete" then
      if data ≠ [] then .error "privset-delete takes only a set name" else .ok (.privsetDelete name)
    else if action = ascii "privset-entry" then
      let usage := "Usage: /admin privset-entry SET allow|deny PRIVILEGE"
      match args with
      | [a, b] =>
          match Effect.ofText a with
          | some effect =>
              -- A group would make the evaluation of a set recursive.
              if b.val.head? = some 64 || 128 < b.val.length then .error usage
              else .ok (.privsetEntry name effect b)
          | none => .error usage
      | _ => .error usage
    else if action = ascii "privset-unentry" then
      match args with
      | [a] => .ok (.privsetUnentry name a)
      | _ => .error "Usage: /admin privset-unentry SET PRIVILEGE"
    else if action = ascii "privset-assign" || action = ascii "privset-unassign" then
      let usage := "Usage: /admin privset-assign SET user@host KIND RESOURCE-UUID (or rig *)"
      match args with
      | [a, b, d] =>
          if b.val ∈ kinds ∧
              ((b.val = ascii "rig" ∧ d.val = ascii "*") ∨ (d.val.length = 36 ∧ uuidValid d = true)) then
            (assignee a).map fun subject =>
              if action = ascii "privset-assign" then .privsetAssign name subject b d
              else .privsetUnassign name subject b d
          else .error usage
      | _ => .error usage
    else .error "Unknown privilege set operation"

/-- The subject of a grant. -/
def grantee (subject : Text) : Except String Subject :=
  if subject = [] || 256 < subject.length then .error "Resource grants require user@host subject"
  else
    match userAt subject with
    | (user, host) =>
        if h : user = [] ∨ userLen < user.length ∨
            host.any (fun host => host = [] || 64 ∈ host || 128 ≤ host.length) = true then
          .error "Invalid subject; use user or user@host"
        else .ok ⟨user, host.getD [], fun hnil => h (.inl hnil)⟩

/-- `admin_resource_action`, as far as it reads its command. -/
def readResource (action subject data : Text) : Except String Command :=
  let granting := decide (action = ascii "resource-grant")
  let usage := "Usage: /admin resource-grant USER@HOST KIND UUID PRIVILEGE allow|deny"
  (grantee subject).bind fun subject =>
    match scan [15, 63, 128, 15, 15] data with
    | kind :: uuid :: privilege :: options =>
        if kind.val ∈ kinds ∧
            (((kind.val = ascii "rig" ∨ kind.val = ascii "site") ∧ uuid.val = ascii "*") ∨ uuidValid uuid = true) then
          match granting, options with
          | false, [] => .ok (.resourceRevoke subject kind uuid privilege)
          | true, effect :: extra =>
              match Effect.ofText effect with
              | some effect =>
                  if extra = [] then .ok (.resourceGrant subject kind uuid privilege effect false)
                  else if extra.map Subtype.val = [ascii "remote"] then
                    .ok (.resourceGrant subject kind uuid privilege effect true)
                  else .error usage
              | none => .error usage
          | _, _ => .error usage
        else .error usage
    | _ => .error usage

def isAlnum (c : UInt8) : Bool := (48 ≤ c && c ≤ 57) || (65 ≤ c && c ≤ 90) || (97 ≤ c && c ≤ 122)

/-- The user of `group-add-user` and `group-remove-user`. -/
def member (data : Text) : Except String Subject :=
  if data = [] || userLen + 128 < data.length || 32 ∈ data then .error "Expected username or username@site"
  else
    match userAt data with
    | (user, host) =>
        if h : user = [] ∨ userLen < user.length ∨
            host.any (fun host => host = [] || 128 ≤ host.length) = true then
          .error "Invalid group member"
        else .ok ⟨user, host.getD [], fun hnil => h (.inl hnil)⟩

/-- `admin_group_action`, as far as it reads its command; what it does not know it leaves to others. -/
def readGroup (action group data : Text) : Option (Except String Command) :=
  if group = [] || 64 < group.length then some (.error "Select a valid group name")
  else if !group.all (fun c => isAlnum c || c = 45 || c = 95) then
    some (.error "Group names allow letters, digits, _ and -")
  else if action = ascii "group-create" then
    some (if 256 < data.length then .error "Group description too long" else .ok (.groupCreate group data))
  else if action = ascii "group-delete" then some (.ok (.groupDelete group))
  else if action = ascii "group-add-user" then some ((member data).map (.groupAddUser group))
  else if action = ascii "group-remove-user" then some ((member data).map (.groupRemoveUser group))
  else if action = ascii "group-grant" || action = ascii "group-ungrant" then
    let usage := "Usage: group-grant GROUP rig|room NAME|* PRIVILEGE allow|deny"
    some <|
      match decide (action = ascii "group-grant"), scan [15, 128, 128, 15, 1] data with
      | true, [kind, resource, privilege, effect] =>
          if kind.val = ascii "rig" ∨ kind.val = ascii "room" then
            match Effect.ofText effect with
            | some effect => .ok (.groupGrant group kind resource privilege effect)
            | none => .error usage
          else .error usage
      | false, [kind, resource, privilege] =>
          if kind.val = ascii "rig" ∨ kind.val = ascii "room" then
            .ok (.groupUngrant group kind resource privilege)
          else .error usage
      | _, _ => .error usage
  else none

/-! ### The handlers -/

/-- `talk.action`, `talk.target` and `talk.data`. -/
structure Request where
  action : Text
  target : Text
  data : Text
deriving DecidableEq, Repr

/-- What a client is told. -/
inductive Reply
  | error (text : String)
  | updated (list : String) (row : List (String × Text))
deriving DecidableEq, Repr

/-- What a handler has done: its reply, the event it audits, and the tables. -/
structure Outcome where
  reply : Reply
  audit : Option (Text × Text × Text)
  rules : Rules

/-- The common end of the three handlers. -/
def finish (chatname : Text) (fails : Bool) (r : Request) (failure list : String)
    (row : List (String × Text)) (t : Rules) (c : Command) : Outcome :=
  match c.run chatname fails t with
  | (true, t') => ⟨.updated list row, some (chatname, r.action, r.target), t'⟩
  | (false, t') => ⟨.error failure, none, t'⟩

end Handlers

end Policy

end RustyRig
