/-
Requests for access and their review, from `admin_access_requests` of `rrserver/events.admin.c`.

A user who asks for access to a rig or a room has one pending request, which accumulates its
targets and whose own row names the last of them.  An owner reviews it: a denial closes it, and
a grant writes one rule for every privilege and `@set` that is selected, in one transaction with
the new status and the audit event.

A connection has the tables as its statements have left them and, inside of a transaction, the
tables that `ROLLBACK` returns to; `ROLLBACK` has nothing to fail on.  Every other call takes from
`Call → Bool` whether SQLite refuses it, and a statement that is refused changes nothing.
The texts and times of the requests, which the review does not read, are left out.
-/
import Mathlib.Algebra.Group.Nat.Defs
import RustyRig.Rrserver.PolicyCommands

namespace RustyRig

namespace AccessRequests

open Lib (Keyed)
open Policy

/-- `rr_object_uuid_valid`, of the protocol library: the empty text never passes. -/
structure UuidTest where
  valid : Text → Bool
  ne_nil : ∀ s, valid s = true → s ≠ []

/-! ### The tables -/

/-- `CHECK(status IN ('pending','granted','denied'))`. -/
inductive Status
  | pending
  | granted
  | denied
deriving DecidableEq, Repr

/-- A row of `access_requests`. -/
structure AccessRequest where
  id : Nat
  subjectUser : Text
  subjectHost : Text
  kind : Word
  uuid : Word
  status : Status
  reviewedBy : Option Text
deriving DecidableEq, Repr

/-- The row of a request for one more target. -/
def AccessRequest.retargeted (kind uuid : Word) (r : AccessRequest) : AccessRequest :=
  { r with kind := kind, uuid := uuid }

theorem AccessRequest.retargeted_id (kind uuid : Word) (r : AccessRequest) : (r.retargeted kind uuid).id = r.id := rfl

/-- The row of a request that has been reviewed, if it was pending. -/
def AccessRequest.reviewed (status : Status) (chatname : Text) (r : AccessRequest) : AccessRequest :=
  if r.status = .pending then { r with status := status, reviewedBy := some chatname } else r

theorem AccessRequest.reviewed_id (status : Status) (chatname : Text) (r : AccessRequest) :
    (r.reviewed status chatname).id = r.id := by
  unfold AccessRequest.reviewed
  split
  · rfl
  · rfl

/-- A row of `access_request_targets`, all of which is its key. -/
structure Target where
  requestId : Nat
  kind : Word
  uuid : Word
deriving DecidableEq, Repr

/-- The tables that requests and reviews read and write. -/
structure Tables where
  rules : Rules
  requests : Keyed AccessRequest.id
  targets : Keyed (id : Target → Target)
  audit : List (Text × Text × Text)
  /-- `request_id INTEGER NOT NULL REFERENCES access_requests(id)`. -/
  owned : ∀ x ∈ targets.rows, ∃ r ∈ requests.rows, r.id = x.requestId

namespace Tables

variable (t : Tables)

/-- The row number that a new request gets. -/
def nextId : Nat := Lib.next (t.requests.rows.map AccessRequest.id)

/-- `UPDATE access_requests SET ... WHERE id=?`, of a row that keeps its number. -/
def updateRequest (id : Nat) (update : AccessRequest → AccessRequest) (h : ∀ r, (update r).id = r.id) : Tables :=
  { t with
    requests := t.requests.modify id update h
    owned := fun x hx => by
      obtain ⟨r, hr, hid⟩ := t.owned x hx
      by_cases hrow : r.id = id
      · exact ⟨update r, Keyed.mem_modify.mpr (Or.inr ⟨r, hr, hrow, rfl⟩), (h r).trans hid⟩
      · exact ⟨r, Keyed.mem_modify.mpr (Or.inl ⟨hr, hrow⟩), hid⟩ }

/-- `INSERT INTO access_requests`. -/
def insertRequest (chatname : Text) (kind uuid : Word) : Tables :=
  { t with
    requests := t.requests.insert ⟨t.nextId, chatname, [], kind, uuid, .pending, none⟩ (Lib.next_notMem _)
    owned := fun x hx =>
      let ⟨r, hr, hid⟩ := t.owned x hx
      ⟨r, Keyed.mem_insert.mpr (.inl hr), hid⟩ }

/-- `INSERT OR IGNORE INTO access_request_targets`, which does not ignore the foreign key. -/
def addTarget (x : Target) : Option Tables :=
  if h : id x ∈ t.targets.rows.map id then some t
  else if hrow : ∃ r ∈ t.requests.rows, r.id = x.requestId then
    some { t with
      targets := t.targets.insert x h
      owned := fun y hy => by
        rcases Keyed.mem_insert.mp hy with hy | rfl
        · exact t.owned y hy
        · exact hrow }
  else none

def addAudit (event : Text × Text × Text) : Tables := { t with audit := t.audit ++ [event] }

end Tables

/-! ### A connection -/

/-- The tables as the connection sees them, and in a transaction those before it. -/
structure Connection where
  now : Tables
  saved : Option Tables

/-- A call of SQLite that may be refused; a review counts the statements of its loop. -/
inductive Call
  | start
  | select
  | write
  | target
  | grant (i : Nat)
  | status
  | audit
  | commit
deriving DecidableEq, Repr

namespace Connection

variable (c : Connection)

/-- `BEGIN IMMEDIATE`, which SQLite refuses inside of a transaction. -/
def start (fails : Bool) : Option Connection :=
  if fails || c.saved.isSome then none else some { c with saved := some c.now }

/-- `COMMIT`; where it is refused the transaction stays open. -/
def commit (fails : Bool) : Option Connection := if fails then none else some { c with saved := none }

/-- `ROLLBACK`. -/
def rollback : Connection :=
  match c.saved with
  | some t => ⟨t, none⟩
  | none => c

/-- A statement that leaves other tables. -/
def put (t : Tables) : Connection := { c with now := t }

end Connection

/-! ### Submitting a request -/

def decimal (n : Nat) : Text := ascii (toString n)

/-- The pending request of a user, in any letter case, as the code has its number: 0 is none. -/
def pendingId (t : Tables) (chatname : Text) : Nat :=
  ((t.requests.rows.find? fun r =>
    decide (fold r.subjectUser = fold chatname) && decide (r.subjectHost = []) && decide (r.status = .pending)).map
      AccessRequest.id).getD 0

/-- The request's row: the number, and the tables. -/
def writeRequest (t : Tables) (chatname : Text) (kind uuid : Word) : Nat × Tables :=
  let id := pendingId t chatname
  if id ≠ 0 then (id, t.updateRequest id (.retargeted kind uuid) (AccessRequest.retargeted_id kind uuid))
  else (t.nextId, t.insertRequest chatname kind uuid)

/-- The transaction of a submission: whether all went well, and the connection before any `ROLLBACK`. -/
def submitIn (fails : Call → Bool) (chatname : Text) (kind uuid : Word) (c : Connection) : Bool × Connection :=
  match c.start (fails .start) with
  | none => (false, c)
  | some c =>
      if fails .select || fails .write then (false, c)
      else
        match writeRequest c.now chatname kind uuid with
        | (id, t) =>
            let c := c.put t
            match if fails .target then none else t.addTarget ⟨id, kind, uuid⟩ with
            | none => (false, c)
            | some t =>
                let c := c.put t
                if fails .audit then (false, c)
                else
                  let detail := ascii "request=" ++ decimal id ++ ascii " target=" ++ kind.val ++ ascii ":" ++
                    uuid.val ++ ascii " requeued"
                  let c := c.put (t.addAudit (chatname, ascii "access.request", detail))
                  match c.commit (fails .commit) with
                  | none => (false, c)
                  | some c => (true, c)

theorem kind_ne {kind : Text} (h : kind = ascii "rig" ∨ kind = ascii "room") : kind ≠ [] := by
  rcases h with rfl | rfl
  all_goals decide

/-- `access-request-submit`. -/
def submit (u : UuidTest) (fails : Call → Bool) (chatname kind uuid reason : Text) (c : Connection) :
    Reply × Connection :=
  if h : (kind = ascii "rig" ∨ kind = ascii "room") ∧ u.valid uuid = true ∧ 0 < reason.length ∧
      reason.length ≤ 2048 then
    match submitIn fails chatname ⟨kind, kind_ne h.1⟩ ⟨uuid, u.ne_nil uuid h.2.1⟩ c with
    | (true, c) => (.updated "access-requests" [], c)
    | (false, c) => (.error "Unable to save request", c.rollback)
  else (.error "Request requires rig/room UUID and 1-2048 characters", c)

/-! ### Reviewing one -/

/-- The fields of `access-request-review`. -/
structure Review where
  id : Text
  decision : Text
  grants : Text
  remote : Bool
deriving DecidableEq, Repr

/-- The value of a text of digits. -/
def digitsValue (s : Text) : Nat := s.foldl (fun n c => 10 * n + (c.toNat - 48)) 0

/-- `strtoll(id, &end, 10)` where it reads all of the text, without overflow, and the number is positive. -/
def requestNumber (s : Text) : Option Nat :=
  let t := s.dropWhile isSpace
  let u := if t.head? = some 43 then t.tail else t
  if u = [] ∨ u.any (fun c => c < 48 || 57 < c) = true then none
  else if digitsValue u = 0 ∨ 2 ^ 63 ≤ digitsValue u then none
  else some (digitsValue u)

/-- A character of a selected privilege or set. -/
def tokenChar (c : UInt8) : Bool := isAlnum c || c = 46 || c = 95 || c = 45 || c = 64

/-- A token that the loop goes on with. -/
def tokenValid (token : Text) : Bool :=
  decide (token ≠ []) && decide (token.length ≤ 128) && token.all tokenChar && decide (token ≠ [64])

/-- `INSERT INTO privilege_set_assignments ... ON CONFLICT ... DO UPDATE`: the time of expiry is not among the
columns that are updated. -/
def assignSet (t : Rules) (name : Text) (q : AccessRequest) (remote : Bool) (assignedBy : Text) :
    Option (Nat × Rules) :=
  match h : t.set? name with
  | none => some (0, t)
  | some s =>
      some (1, { t with
        assignments := t.assignments.upsert
          ⟨s.id, q.subjectUser, q.subjectHost, q.kind.val, q.uuid.val, assignedBy, none, remote⟩
          (fun a => { a with remoteAllowed := remote, assignedBy := assignedBy }) fun _ => rfl
        assignmentSet := fun a ha => by
          obtain ⟨ha, -⟩ | ⟨old, hold, -, rfl⟩ | ⟨-, rfl⟩ := Keyed.mem_upsert.mp ha
          · exact t.assignmentSet a ha
          · exact t.assignmentSet old hold
          · exact ⟨s, (Rules.set?_mem h).1, rfl⟩ })

/-- One row of the next: `ON CONFLICT ... DO UPDATE`, again without the time of expiry. -/
def allowTarget (privilege : Text) (q : AccessRequest) (remote : Bool) (grantedBy : Text) (t : Rules) (x : Target) :
    Rules :=
  { t with
    grants := t.grants.upsert
      ⟨q.subjectUser, q.subjectHost, x.kind.val, x.uuid.val, privilege, .allow, grantedBy, none, remote⟩
      (fun g => { g with effect := .allow, remoteAllowed := remote, grantedBy := grantedBy }) fun _ => rfl }

/-- The targets that a request has accumulated. -/
def targetsOf (t : Tables) (id : Nat) : List Target := t.targets.rows.filter fun x => decide (x.requestId = id)

/-- `INSERT INTO resource_privileges ... SELECT ... FROM access_request_targets t WHERE t.request_id=?8`. -/
def allowTargets (t : Rules) (targets : List Target) (privilege : Text) (q : AccessRequest) (remote : Bool)
    (grantedBy : Text) : Option (Nat × Rules) :=
  some (targets.length, targets.foldl (allowTarget privilege q remote grantedBy) t)

/-- The statement of one token: `@` and a set, or a privilege. -/
def grantToken (t : Tables) (token : Text) (q : AccessRequest) (remote : Bool) (chatname : Text) :
    Option (Nat × Rules) :=
  if token.head? = some 64 then assignSet t.rules token.tail q remote chatname
  else allowTargets t.rules (targetsOf t q.id) token q remote chatname

/-- The loop over the tokens: whether all went well, and the connection. -/
def grantTokens (fails : Call → Bool) (q : AccessRequest) (remote : Bool) (chatname : Text) :
    Nat → List Text → Connection → Bool × Connection
  | _, [], c => (true, c)
  | i, token :: tokens, c =>
      if !tokenValid token || decide (32 ≤ i) then (false, c)
      else
        match if fails (.grant i) then none else grantToken c.now token q remote chatname with
        | none => (false, c)
        | some (changes, rules) =>
            let c := c.put { c.now with rules := rules }
            if changes = 0 then (false, c) else grantTokens fails q remote chatname (i + 1) tokens c

/-- `g_strsplit(selected, ",", -1)`. -/
def tokensOf (selected : Text) : List Text := if selected = [] then [] else selected.splitOn 44

/-- The request that a review is about. -/
def pending? (t : Tables) (id : Nat) : Option AccessRequest :=
  t.requests.rows.find? fun r => decide (r.id = id) && decide (r.status = .pending)

/-- `UPDATE access_requests SET status=?1,... WHERE id=?3 AND status='pending'`. -/
def setStatus (t : Tables) (id : Nat) (status : Status) (chatname : Text) : Nat × Tables :=
  (t.requests.count fun r => decide (r.id = id) && decide (r.status = .pending),
    t.updateRequest id (.reviewed status chatname) (AccessRequest.reviewed_id status chatname))

/-- The event of a review. -/
def reviewEvent (v : Review) (granted : Bool) (q : AccessRequest) (chatname : Text) : Text × Text × Text :=
  let who := if q.subjectHost = [] then q.subjectUser else q.subjectUser ++ ascii "@" ++ q.subjectHost
  (chatname, if granted then ascii "access.request.granted" else ascii "access.request.denied",
    ascii "request=" ++ v.id ++ ascii " decision=" ++ v.decision ++ ascii " subject=" ++ who ++
      ascii " resource=" ++ q.kind.val ++ ascii ":" ++ q.uuid.val ++ ascii " remote=" ++
      (if v.remote then ascii "yes" else ascii "no") ++ ascii " grants=" ++
      (if granted then v.grants else ascii "(none)"))

/-- The end of the transaction: the new status, the event and `COMMIT`. -/
def closeReview (fails : Call → Bool) (chatname : Text) (v : Review) (granted : Bool) (number : Nat)
    (q : AccessRequest) (c : Connection) : Bool × Connection :=
  if fails .status then (false, c)
  else
    match setStatus c.now number (if granted then .granted else .denied) chatname with
    | (changes, t) =>
        let c := c.put t
        if changes ≠ 1 || fails .audit then (false, c)
        else
          let c := c.put (t.addAudit (reviewEvent v granted q chatname))
          match c.commit (fails .commit) with
          | none => (false, c)
          | some c => (true, c)

/-- The transaction of a review, behind its `BEGIN IMMEDIATE`. -/
def reviewIn (fails : Call → Bool) (chatname : Text) (v : Review) (granted : Bool) (number : Nat) (c : Connection) :
    Bool × Connection :=
  match if fails .select then none else pending? c.now number with
  | none => (false, c)
  | some q =>
      if q.subjectUser = [] then (false, c)
      else
        match if granted then grantTokens fails q v.remote chatname 0 (tokensOf v.grants) c else (true, c) with
        | (false, c) => (false, c)
        | (true, c) =>
            if granted && (tokensOf v.grants).isEmpty then (false, c)
            else closeReview fails chatname v granted number q c

/-- `access-request-review`; `admin` and `owner` are what `admin_actor_has_priv` says of `"admin|owner"` and
of `"owner"`. -/
def review (admin owner : Bool) (fails : Call → Bool) (chatname : Text) (v : Review) (c : Connection) :
    Reply × Connection :=
  if !admin then (.error "Admin or owner required to review access requests", c)
  else if !owner || (v.decision ≠ ascii "denied" && v.decision ≠ ascii "granted") then
    (.error "Owner privilege and valid decision required", c)
  else
    match if 2048 < v.grants.length then none else requestNumber v.id with
    | none => (.error "Invalid access review", c)
    | some number =>
        let granted := decide (v.decision = ascii "granted")
        if granted && decide (v.grants = []) then (.error "Select at least one privilege or group", c)
        else
          match c.start (fails .start) with
          | none => (.error "Unable to begin access review", c)
          | some c =>
              match reviewIn fails chatname v granted number c with
              | (true, c) => (.updated "access-requests" [], c)
              | (false, c) => (.error "Access review failed; no grants or status changes saved", c.rollback)

/-! ### A run -/

/-- What happens at the server; a review is asked about at the time `now`. -/
inductive Event
  | submit (chatname kind uuid reason : Text) (fails : Call → Bool)
  | review (admin owner : Bool) (chatname : Text) (v : Review) (fails : Call → Bool) (now : Int)

def step (u : UuidTest) (c : Connection) : Event → Connection
  | .submit chatname kind uuid reason fails => (submit u fails chatname kind uuid reason c).2
  | .review admin owner chatname v fails _ => (review admin owner fails chatname v c).2

/-- A server that has just opened its tables. -/
def opened (t : Tables) : Connection := ⟨t, none⟩

end AccessRequests

end RustyRig
