/-
The listings of the server's administration (`rrserver/events.admin.c`).

A request names a table and the cursor of the last row before the page it asks for.  Each table has
its query, whose first column is the cursor; what the other columns hold is SQLite's text of the
values.  An INTEGER PRIMARY KEY is the rowid of its table.
-/
import Mathlib.Data.List.Lex
import Mathlib.Data.Char
import Mathlib.Data.List.Sort
import RustyRig.Lib.Keyset
import RustyRig.Lib.Scanf

namespace RustyRig

namespace AdminListing

open Lib

/-- A character stands for a byte. -/
abbrev Text := List Char

/-- A value of SQLite. -/
inductive Value where
  | null
  | integer (n : Int)
  | text (t : Text)
deriving DecidableEq, Repr

def decimal (n : Int) : Text := if n < 0 then '-' :: Nat.toDigits 10 n.natAbs else Nat.toDigits 10 n.natAbs

/-- `sqlite3_column_text`, and no text for null. -/
def Value.toText : Value → Text
  | .null => []
  | .integer n => decimal n
  | .text t => t

def Value.coalesce : Value → Value → Value
  | .null, v => v
  | v, _ => v

/-- Equal under NOCASE, which null is to nothing. -/
def Value.same : Value → Value → Bool
  | .text t, .text u => t.map Char.toLower == u.map Char.toLower
  | .integer m, .integer n => m == n
  | _, _ => false

/-! ### The database -/

structure User where
  rowid : Int64
  uid : Value
  name : Value
  enabled : Value
  permissions : Value
  email : Value
  maxsessions : Value
  passwordSet : Value
  passwordExpires : Value
  passwordChangeRequired : Value

structure TxCredits where
  name : Value
  credits : Value

structure UserUsage where
  name : Value
  txSeconds : Int
  bandwidthRemaining : Value
  txTextBytes : Int
  txBinaryBytes : Int
  rxTextBytes : Int
  rxBinaryBytes : Int

structure Room where
  rowid : Int64
  name : Value
  uuid : Value
  deleted : Value
  topic : Value
  hasVfos : Value
  vfoMask : Value

structure PrivilegeSet where
  id : Int64
  name : Value
  description : Value
  createdBy : Value
  createdAt : Value

structure PrivilegeSetEntry where
  rowid : Int64
  setId : Int64
  privilege : Text
  effect : Text

structure PrivilegeSetAssignment where
  id : Int64
  setId : Int64
  subjectUser : Value
  subjectHost : Value
  resourceKind : Value
  resourceUuid : Value
  expiresAt : Value
  remoteAllowed : Value

structure ResourcePrivilege where
  id : Int64
  subjectUser : Value
  subjectHost : Value
  resourceKind : Value
  resourceUuid : Value
  privilege : Value
  effect : Value
  expiresAt : Value
  remoteAllowed : Value

structure UserGroup where
  name : Text
  description : Text

structure UserGroupPrivilege where
  groupName : Text
  resourceKind : Text
  resourceName : Text
  privilege : Text
  effect : Text

structure UserGroupMember where
  groupName : Text
  subjectUser : Text
  subjectHost : Text

structure AuditEntry where
  id : Int64
  timestamp : Value
  username : Value
  eventType : Value
  details : Value
  sessionId : Value

structure PttEntry where
  id : Int64
  server : Value
  startTime : Value
  username : Value
  vfo : Value
  frequency : Value
  mode : Value
  duration : Value
  stopReason : Value
  recordingId : Value
  supervisionTicket : Value
  supervisingElmers : Value

/-- The tables the listings read. -/
structure Db where
  users : List User
  txCredits : List TxCredits
  userUsage : List UserUsage
  rooms : List Room
  privilegeSets : List PrivilegeSet
  privilegeSetEntries : List PrivilegeSetEntry
  privilegeSetAssignments : List PrivilegeSetAssignment
  resourcePrivileges : List ResourcePrivilege
  userGroups : List UserGroup
  userGroupPrivileges : List UserGroupPrivilege
  userGroupMembers : List UserGroupMember
  auditLog : List AuditEntry
  pttLog : List PttEntry

/-! ### The queries -/

/-- A row of a listing. -/
structure Listed where
  cursor : Int64
  columns : List (String × Text)
deriving DecidableEq, Repr

/-- A row of the values under their names. -/
def listed (cursor : Int64) (columns : List (String × Value)) : Listed where
  cursor := cursor
  columns := columns.map fun c => (c.1, c.2.toText)

/-- `LEFT JOIN`: the partners of a row, or none. -/
def partners {α : Type} (l : List α) (on : α → Bool) : List (Option α) :=
  let found := l.filter on
  if found.isEmpty then [none] else found.map some

/-- A column of the partner, and without one null. -/
def column {α : Type} (partner : Option α) (f : α → Value) : Value := partner.elim .null f

def users (db : Db) : List Listed :=
  db.users.map fun u => listed u.rowid
    [("uid", u.uid), ("name", u.name), ("enabled", u.enabled), ("permissions", u.permissions), ("email", u.email),
      ("maxsessions", u.maxsessions), ("password_set", u.passwordSet), ("password_expires", u.passwordExpires),
      ("password_change_required", u.passwordChangeRequired)]

def quotas (db : Db) : List Listed :=
  db.users.flatMap fun u =>
    (partners db.txCredits fun t => t.name.same u.name).flatMap fun t =>
      (partners db.userUsage fun g => g.name.same u.name).map fun g => listed u.rowid
        [("name", u.name),
          ("tx_remaining", (column t (·.credits)).coalesce (.text "unset".toList)),
          ("tx_used", (column g fun g => .integer g.txSeconds).coalesce (.integer 0)),
          ("bandwidth_remaining", (column g (·.bandwidthRemaining)).coalesce (.text "unlimited".toList)),
          ("bandwidth_tx_used",
            (column g fun g => .integer (g.txTextBytes + g.txBinaryBytes)).coalesce (.integer 0)),
          ("bandwidth_rx_used",
            (column g fun g => .integer (g.rxTextBytes + g.rxBinaryBytes)).coalesce (.integer 0))]

def rooms (db : Db) : List Listed :=
  db.rooms.map fun r => listed r.rowid
    [("name", r.name), ("uuid", r.uuid), ("deleted", r.deleted), ("topic", r.topic), ("has_vfos", r.hasVfos),
      ("vfo_mask", r.vfoMask)]

/-- `group_concat` of a set's privileges, with what it denies marked; of none, the empty text. -/
def setPrivileges (db : Db) (id : Int64) : Text :=
  [','].intercalate ((db.privilegeSetEntries.filter fun e => e.setId == id).map fun e =>
    if e.effect = "deny".toList then '!' :: e.privilege else e.privilege)

def privsets (db : Db) : List Listed :=
  db.privilegeSets.map fun s => listed s.id
    [("name", s.name), ("description", s.description), ("created_by", s.createdBy), ("created_at", s.createdAt),
      ("privileges", .text (setPrivileges db s.id))]

def setentries (db : Db) : List Listed :=
  db.privilegeSetEntries.flatMap fun e =>
    (db.privilegeSets.filter fun s => s.id == e.setId).map fun s => listed e.rowid
      [("set_name", s.name), ("privilege", .text e.privilege), ("effect", .text e.effect)]

def assignments (db : Db) : List Listed :=
  db.privilegeSetAssignments.flatMap fun a =>
    (db.privilegeSets.filter fun s => s.id == a.setId).map fun s => listed a.id
      [("set_name", s.name), ("subject_user", a.subjectUser), ("subject_host", a.subjectHost),
        ("resource_kind", a.resourceKind), ("resource_uuid", a.resourceUuid), ("expires_at", a.expiresAt),
        ("remote_allowed", a.remoteAllowed)]

def grants (db : Db) : List Listed :=
  db.resourcePrivileges.map fun g => listed g.id
    [("subject_user", g.subjectUser), ("subject_host", g.subjectHost), ("resource_kind", g.resourceKind),
      ("resource_uuid", g.resourceUuid), ("privilege", g.privilege), ("effect", g.effect),
      ("expires_at", g.expiresAt), ("remote_allowed", g.remoteAllowed)]

/-- A row of the union of the groups with their privileges and members. -/
structure GroupRow where
  cursor : Int64
  groupName : Text
  entryType : Text
  entryName : Text
  entryDetail : Text

def groupRows (db : Db) : List GroupRow :=
  (db.userGroups.map fun g => ⟨1, g.name, "group".toList, g.name, g.description⟩) ++
    (db.userGroupPrivileges.map fun p => ⟨2, p.groupName, "privilege".toList, p.resourceKind ++ ':' :: p.resourceName,
      p.privilege ++ [' ', '('] ++ p.effect ++ [')']⟩) ++
    db.userGroupMembers.map fun m => ⟨3, m.groupName, "member".toList, m.subjectUser, m.subjectHost⟩

/-- By the name of the group, then the kind of entry, then its name. -/
def GroupRow.le (a b : GroupRow) : Bool :=
  let x := a.groupName.map Char.toLower
  let y := b.groupName.map Char.toLower
  if x ≠ y then x < y
  else if a.cursor ≠ b.cursor then a.cursor < b.cursor
  else a.entryName.map Char.toLower ≤ b.entryName.map Char.toLower

def groups (db : Db) : List Listed :=
  ((groupRows db).insertionSort fun a b => a.le b = true).map fun r => listed r.cursor
    [("group_name", .text r.groupName), ("entry_type", .text r.entryType), ("entry_name", .text r.entryName),
      ("entry_detail", .text r.entryDetail)]

def audit (db : Db) : List Listed :=
  db.auditLog.map fun a => listed a.id
    [("id", .integer a.id.toInt), ("timestamp", a.timestamp), ("username", a.username), ("event_type", a.eventType),
      ("details", a.details), ("session_id", a.sessionId)]

def ptt (db : Db) : List Listed :=
  db.pttLog.map fun p => listed p.id
    [("id", .integer p.id.toInt), ("server", p.server), ("start_time", p.startTime), ("username", p.username),
      ("vfo", p.vfo), ("frequency", p.frequency), ("mode", p.mode), ("duration", p.duration),
      ("stop_reason", p.stopReason), ("recording_id", p.recordingId), ("supervision_ticket", p.supervisionTicket),
      ("supervising_elmers", p.supervisingElmers)]

/-! ### A request -/

inductive Table
  | users
  | quotas
  | rooms
  | privsets
  | setentries
  | assignments
  | grants
  | groups
  | audit
  | ptt
deriving DecidableEq, Repr

def Table.all : List Table :=
  [.users, .quotas, .rooms, .privsets, .setentries, .assignments, .grants, .groups, .audit, .ptt]

def Table.name : Table → Text
  | .users => "users".toList
  | .quotas => "quotas".toList
  | .rooms => "rooms".toList
  | .privsets => "privsets".toList
  | .setentries => "setentries".toList
  | .assignments => "assignments".toList
  | .grants => "grants".toList
  | .groups => "groups".toList
  | .audit => "audit".toList
  | .ptt => "ptt".toList

/-- `strcasecmp` against each name in turn. -/
def Table.ofName? (t : Text) : Option Table := Table.all.find? fun table => t.map Char.toLower == table.name

/-- `ORDER BY` the cursor, `DESC`. -/
def descending (l : List Listed) : List Listed := l.insertionSort fun a b => b.cursor.toInt ≤ a.cursor.toInt

/-- The query of a table, in its order. -/
def Table.rows (db : Db) : Table → List Listed
  | .users => descending (AdminListing.users db)
  | .quotas => descending (AdminListing.quotas db)
  | .rooms => descending (AdminListing.rooms db)
  | .privsets => descending (AdminListing.privsets db)
  | .setentries => descending (AdminListing.setentries db)
  | .assignments => descending (AdminListing.assignments db)
  | .grants => descending (AdminListing.grants db)
  | .groups => AdminListing.groups db
  | .audit => descending (AdminListing.audit db)
  | .ptt => descending (AdminListing.ptt db)

/-- Its `LIMIT`. -/
def Table.limit : Table → Nat
  | .groups => 10000
  | _ => 100

/-- `strtoll`, of a word that is all a number and in its range. -/
def strtoll (s : Text) : Option Int :=
  let negative := s.head? == some '-'
  let digits := if negative || s.head? == some '+' then s.tail else s
  if digits = [] ∨ digits.any (fun c => !c.isDigit) then none
  else
    let n : Int := Nat.ofDigitChars 10 digits 0
    let n := if negative then -n else n
    if -2 ^ 63 ≤ n ∧ n < 2 ^ 63 then some n else none

/-- The table and the cursor of a request; none is a usage error. -/
def parse (data : Text) : Option (Table × Int) :=
  let input := data.take 255
  let (argc, table, cursorText) :=
    match Scanf.field 15 input with
    | none => (0, "users".toList, [])
    | some (table, rest) =>
        match Scanf.field 31 rest with
        | none => (1, table, [])
        | some (cursorText, rest) => (if (Scanf.field 1 rest).isSome then 3 else 2, table, cursorText)
  let before := if cursorText = [] then some 0 else strtoll cursorText
  match Table.ofName? table, before with
  | some table, some before => if argc > 2 ∨ before < 0 then none else some (table, before)
  | _, _ => none

/-- What a request is answered: whether to append, the rows, and the next page. -/
structure Answer where
  append : Bool
  rows : List Listed
  next : Int

/-- The listing in `rrserver_handle_admin_cmd`.  The condition on the cursor keeps the order of the
rows, so that it is put to the ordered ones. -/
def listing (db : Db) (data : Text) : Option Answer :=
  (parse data).map fun (table, before) =>
    let rows := ((table.rows db).filter fun r => before == 0 || decide (r.cursor.toInt < before)).take table.limit
    let last := rows.getLast?.elim 0 fun r => r.cursor.toInt
    { append := before != 0, rows := rows, next := if rows.length = 100 then last else 0 }

/-- The request for a page: for the first, only the table. -/
def request (table : Table) (before : Int) : Text :=
  if before = 0 then table.name else table.name ++ ' ' :: decimal before

end AdminListing

end RustyRig
