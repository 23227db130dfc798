/-
Exported shares, from `rrserver/files.c`.

A share is a directory that clients list, read from and, where they may, write to.  A file is
sent as an upload: `begin` makes a temporary file next to the target, chunks are written to it
in order, and `commit` hands it to a worker to be flushed.  The file gets its name only when
the flush has come back, from the server's own thread, and only if the client is still there
and may still write.

Requests come parsed.  What the kernel refuses of its own accord is an argument of each call,
and what the configuration, the connections and the privileges say may change between any two.
Listings show names and change nothing, so what they show is left out.  A connection that goes
is announced before it is gone.
-/
import RustyRig.Lib.Inodes
import RustyRig.Rrserver.Invitation

namespace RustyRig

namespace Files

open Lib (Disk Kind Node)

/-- `errno`, as far as the code names it. -/
inductive Errno
  | inval
  | acces
  | noent
  | notdir
  | perm
  | busy
  | exist
  | nospc
  | nomem
  | fbig
  | again
  | other (code : Nat)
deriving DecidableEq, Repr

/-- The calls that may fail although nothing is wrong with their arguments. -/
inductive Call
  | root
  | descend (depth : Nat)
  | open
  | stat
  | fstat
  | alloc
  | create
  | dup
  | write
  | chmod
  | publish
  | mkdir
  | unlink
  | rename
deriving DecidableEq, Repr

/-- What the kernel answers during one call of a handler. -/
structure Os where
  fails : Call → Option Errno
  /-- How much a write that fails has written. -/
  wrote : Nat

/-- The configuration. -/
structure Conf where
  /-- `cfg_get`. -/
  get : String → Option String
  /-- `cfg_get_bool`. -/
  getBool : String → Bool → Bool
  /-- `files.max-size` as `strtoull` reads it: zero where it is no number, 1 GiB where there
  is none. -/
  maxSize : Nat

/-- A connection, as far as a share looks at it. -/
structure Session where
  authenticated : Bool
  /-- The `uid` of its user. -/
  uid : Option Nat
deriving DecidableEq, Repr

/-- `struct upload`. -/
structure Upload where
  /-- Stands for the address of the record. -/
  serial : Nat
  client : Option Nat
  parent : Nat
  fd : Nat
  path : String
  temp : String
  size : Nat
  overwrite : Bool
  syncing : Bool
deriving DecidableEq, Repr

/-- A chunk that was taken. -/
structure Chunk where
  offset : Nat
  bytes : List UInt8
deriving DecidableEq, Repr

/-- The shares of a server, and what they depend on. -/
structure Shares where
  conf : Conf
  /-- `has_priv`. -/
  hasPriv : Nat → String → Bool
  session : Nat → Option Session
  /-- The directories that shares are configured to. -/
  root : String → Option Nat
  disk : Disk String UInt8
  /-- `uploads`, the slots in use. -/
  uploads : List Upload
  /-- What `flush_workers` still has to flush. -/
  queued : List Nat
  flushed : List (Nat × Option Errno)
  next : Nat
  /-- Beside the model: the chunks taken for every upload there ever was. -/
  accepted : Nat → List Chunk

/-- `FILE_CHUNK`. -/
def fileChunk : Nat := 24576

/-- `FILE_PATH`. -/
def filePath : Nat := 4096

/-- `FILE_JOBS`. -/
def fileJobs : Nat := 128

/-- What temporary names start with. -/
def tempPrefix : String := ".rr-upload-"

/-! ### Paths -/

/-- `rrserver_files_valid_name`. -/
def validName (name : String) : Bool :=
  name != "" && decide (name.utf8ByteSize ≤ 255) && name != "." && name != ".." &&
    !tempPrefix.toList.isPrefixOf name.toList &&
    name.toList.all fun c => !(decide (c.toNat < 32) || c == '/' || c == '\\')

/-- The parts of a path between its slashes. -/
def parts : List Char → List Char → List String
  | acc, [] => [String.ofList acc.reverse]
  | acc, '/' :: rest => String.ofList acc.reverse :: parts [] rest
  | acc, c :: rest => parts (c :: acc) rest

/-- `permission`. -/
def permission (s : Shares) (client : Nat) (share : String) (write : Bool) : Bool :=
  let grant := s.conf.get ("share:" ++ share ++ if write then ".write" else ".read")
  let needed := (grant.filter (· != "")).getD (if write then "files.write" else "files.read")
  match s.session client with
  | none => false
  | some x =>
      s.conf.getBool ("share:" ++ share ++ ".enabled") true && x.authenticated &&
        grant != some "none" && x.uid.any fun uid => s.hasPriv uid needed

/-- `openat` of a directory. -/
def openDir (s : Shares) (os : Os) (depth dir : Nat) (name : String) : Except Errno Nat :=
  match os.fails (.descend depth), s.disk.look dir name with
  | some e, _ => .error e
  | none, some ⟨.dir, ino⟩ => .ok ino
  | none, some _ => .error .notdir
  | none, none => .error .noent

/-- The loop of `resolve`: the directory of the last part, and its name. -/
def descend (s : Shares) (os : Os) : Nat → Nat → List String → Except Errno (Nat × String)
  | _, dir, [] => .ok (dir, ".")
  | _, dir, [name] => if validName name then .ok (dir, name) else .error .inval
  | depth, dir, part :: rest =>
      if !validName part || rest == [""] then .error .inval
      else
        match openDir s os depth dir part with
        | .error e => .error e
        | .ok next => descend s os (depth + 1) next rest

/-- The share that a path is in, and the parts below it. -/
def sharePath (path : String) : Option (String × List String) :=
  match path.toList with
  | '/' :: rest =>
      if filePath ≤ path.utf8ByteSize || rest.isEmpty then none
      else
        match parts [] rest with
        | [] => none
        | share :: below => some (share, if below = [""] then [] else below)
  | _ => none

/-- `resolve`. -/
def resolve (s : Shares) (os : Os) (client : Nat) (path : String) (write : Bool) :
    Except Errno (Nat × String) :=
  match sharePath path with
  | none => .error .inval
  | some (share, below) =>
      if !validName share || !permission s client share write then .error .acces
      else
        match s.conf.get ("share:" ++ share ++ ".path") with
        | none => .error .noent
        | some root =>
            if root = "" then .error .noent
            else
              match os.fails .root, s.root root with
              | some e, _ => .error e
              | none, none => .error .noent
              | none, some dir => descend s os 0 dir below

/-! ### Uploads -/

/-- `job`. -/
def job (s : Shares) (client : Nat) : Option Upload :=
  s.uploads.find? (·.client == some client)

/-- The end of an upload: its temporary file goes, and its slot is free. -/
def release (os : Os) (s : Shares) (u : Upload) : Shares :=
  { s with
    disk := if (os.fails .unlink).isSome then s.disk else s.disk.erase u.parent u.temp
    uploads := s.uploads.filter (·.serial != u.serial) }

/-- Changes an upload where it is. -/
def change (s : Shares) (u : Upload) (f : Upload → Upload) : Shares :=
  { s with uploads := s.uploads.map fun x => if x.serial = u.serial then f x else x }

/-- `discard`.  One that is being flushed only loses its client. -/
def discard (os : Os) (s : Shares) (u : Upload) : Shares :=
  if u.syncing then change s u ({ · with client := none }) else release os s u

/-- `discard(job(client))`. -/
def discardJob (os : Os) (s : Shares) (client : Nat) : Shares :=
  match job s client with
  | none => s
  | some u => discard os s u

/-- A request, with the numbers that are read from it. -/
structure Request where
  cmd : String
  path : String
  /-- `request.id`. -/
  id : Option String
  /-- `file.data`. -/
  data : String
  /-- `file.offset`. -/
  offset : Nat
  /-- `file.overwrite`. -/
  overwrite : Bool
  /-- `file.dest`. -/
  dest : String
deriving DecidableEq, Repr

/-- `fstatat`: what is there, unless the call fails. -/
def stat (s : Shares) (os : Os) (dir : Nat) (name : String) : Option Node :=
  if (os.fails .stat).isSome then none else s.disk.look dir name

/-- Whether a target is in the way. -/
def taken (target : Option Node) (overwrite : Bool) : Bool :=
  target.any fun node => !overwrite || node.kind != .file

/-- `begin`. -/
def begin (s : Shares) (os : Os) (uuid : String) (client : Nat) (r : Request) (parent : Nat)
    (name : String) : Option Errno × Shares :=
  if (job s client).isSome then (some .busy, s)
  else if taken (stat s os parent name) r.overwrite then (some .exist, s)
  else if fileJobs ≤ s.uploads.length then (some .nospc, s)
  else if (os.fails .alloc).isSome then (some .nomem, s)
  else
    let temp := tempPrefix ++ uuid
    match os.fails .create, s.disk.make .file parent temp with
    | some e, _ => (some e, s)
    | none, none => (some .exist, s)
    | none, some disk =>
        match os.fails .dup with
        | some e =>
            (some e, { s with
              disk := if (os.fails .unlink).isSome then disk else disk.erase parent temp })
        | none =>
            let u : Upload :=
              { serial := s.next, client := some client, parent := parent, fd := s.disk.next
                path := r.path, temp := temp, size := 0, overwrite := r.overwrite
                syncing := false }
            (none, { s with disk := disk, uploads := u :: s.uploads, next := s.next + 1 })

/-- `chunk`. -/
def chunk (s : Shares) (os : Os) (u : Upload) (r : Request) : Option Errno × Shares :=
  let bytes := Base64.decode r.data.toList
  if fileChunk * 4 / 3 < r.data.utf8ByteSize || r.offset ≠ u.size then (some .inval, s)
  else if Base64.encode bytes ≠ r.data.toList then (some .inval, release os s u)
  else if fileChunk < bytes.length || s.conf.maxSize < u.size + bytes.length then
    (some .fbig, release os s u)
  else
    match os.fails .write with
    | some e =>
        (some e, release os { s with disk := s.disk.append u.fd (bytes.take os.wrote) } u)
    | none =>
        (none, change
          { s with
            disk := s.disk.append u.fd bytes
            accepted := Function.update s.accepted u.serial
              (s.accepted u.serial ++ [⟨r.offset, bytes⟩]) }
          u fun x => { x with size := x.size + bytes.length })

/-- What becomes of an upload that is to be flushed. -/
inductive Pool
  | pushed
  /-- There are no workers, or no memory for the reply. -/
  | refused
  /-- GLib keeps what it could not start a worker for. -/
  | kept
deriving DecidableEq, Repr

/-- `commit`, with `queue_flush`.  The reply comes when the flush has come back. -/
def commit (s : Shares) (os : Os) (pool : Pool) (u : Upload) (parent : Nat) (name : String) :
    Option (Option Errno) × Shares :=
  let target := stat s os parent name
  if taken target u.overwrite then (some (some .exist), release os s u)
  else if target.isSome && (os.fails .chmod).isSome then (some (os.fails .chmod), release os s u)
  else
    let queue f : Shares := { change s u f with queued := s.queued ++ [u.serial] }
    match pool with
    | .refused => (some (some .nomem), release os s u)
    | .pushed => (none, queue fun x => { x with syncing := true })
    | .kept => (some (some .again), queue fun x => { x with syncing := true, client := none })

/-- `chunk`, `commit` and `cancel`. -/
def advance (s : Shares) (os : Os) (pool : Pool) (client : Nat) (r : Request) (parent : Nat)
    (name : String) : Option (Option Errno) × Shares :=
  match job s client with
  | none => (some (some .inval), s)
  | some u =>
      if u.path ≠ r.path || (os.fails .fstat).isSome || parent ≠ u.parent then
        (some (some .inval), s)
      else if r.cmd = "cancel" then (some none, discard os s u)
      else if u.syncing then (some (some .busy), s)
      else if r.cmd = "chunk" then
        let (error, s) := chunk s os u r
        (some error, s)
      else commit s os pool u parent name

/-! ### Other requests -/

/-- What is sent to the client. -/
inductive Reply
  | result (error : Option Errno)
  | data (bytes : List UInt8) (offset size : Nat) (eof : Bool)
deriving DecidableEq, Repr

/-- `read`. -/
def read (s : Shares) (os : Os) (r : Request) (parent : Nat) (name : String) : Reply :=
  if name = "." then .result (some .inval)
  else
    match os.fails .open, s.disk.look parent name with
    | some e, _ => .result (some e)
    | none, none => .result (some .noent)
    | none, some node =>
        let content := s.disk.content node.ino
        let bytes := (content.drop r.offset).take fileChunk
        if node.kind ≠ .file || content.length < r.offset then .result (some .inval)
        else
          .data bytes r.offset content.length (decide (content.length ≤ r.offset + bytes.length))

/-- `mkdir`. -/
def mkdir (s : Shares) (os : Os) (parent : Nat) (name : String) : Option Errno × Shares :=
  match os.fails .mkdir, s.disk.make .dir parent name with
  | some e, _ => (some e, s)
  | none, none => (some .exist, s)
  | none, some disk => (none, { s with disk := disk })

/-- `delete`. -/
def delete (s : Shares) (os : Os) (parent : Nat) (name : String) : Option Errno × Shares :=
  match stat s os parent name with
  | none => (some ((os.fails .stat).getD .noent), s)
  | some ⟨.other, _⟩ => (some .inval, s)
  | some ⟨kind, ino⟩ =>
      match os.fails .unlink with
      | some e => (some e, s)
      | none =>
          if kind = .dir && s.disk.inhabited ino then (some .exist, s)
          else (none, { s with disk := s.disk.erase parent name })

/-- `rename`. -/
def rename (s : Shares) (os : Os) (client : Nat) (r : Request) (parent : Nat) (name : String) :
    Option Errno × Shares :=
  match resolve s os client r.path false, resolve s os client r.dest true with
  | .error e, _ => (some e, s)
  | .ok _, .error e => (some e, s)
  | .ok _, .ok (other, dest) =>
      if dest = "." || (stat s os other dest).isSome then (some .exist, s)
      else if !(stat s os parent name).any fun node => node.kind != .other then (some .inval, s)
      else
        match os.fails .rename, s.disk.move false parent name other dest with
        | some e, _ => (some e, s)
        | none, none => (some .exist, s)
        | none, some disk => (none, { s with disk := disk })

/-- `request`, with the reply it sends: none where there is one later, and for a listing. -/
def request (s : Shares) (os : Os) (uuid : String) (pool : Pool) (client : Nat) (r : Request) :
    Option Reply × Shares :=
  if !(s.session client).any fun x => x.authenticated && x.uid.isSome then (none, s)
  else if r.id.all fun id => id == "" || decide (64 < id.utf8ByteSize) then
    (some (.result (some .inval)), s)
  else if r.cmd = "list" then (none, s)
  else
    match resolve s os client r.path (r.cmd != "read") with
    | .error e =>
        (some (.result (some e)),
          if ["chunk", "commit", "cancel"].contains r.cmd then discardJob os s client else s)
    | .ok (parent, name) =>
        let sent (out : Option Errno × Shares) := (some (Reply.result out.1), out.2)
        if r.cmd = "read" then (some (read s os r parent name), s)
        else if name = "." then (some (.result (some .perm)), s)
        else if r.cmd = "begin" then sent (begin s os uuid client r parent name)
        else if ["chunk", "commit", "cancel"].contains r.cmd then
          let (error, s) := advance s os pool client r parent name
          (error.map .result, s)
        else if r.cmd = "mkdir" then sent (mkdir s os parent name)
        else if r.cmd = "delete" then sent (delete s os parent name)
        else if r.cmd = "rename" then sent (rename s os client r parent name)
        else (some (.result (some .inval)), s)

/-! ### Publication -/

/-- `closed`, and the connection is gone. -/
def closed (os : Os) (s : Shares) (client : Nat) : Shares :=
  let s := discardJob os s client
  { s with session := Function.update s.session client none }

/-- What `ws_auth_refresh` says, and whether it closes the session. -/
structure Refresh where
  allowed : Bool
  closes : Bool
deriving DecidableEq, Repr

/-- The name that an upload gets, unless something is in the way. -/
def publish (s : Shares) (os : Os) (client : Nat) (u : Upload) : Option Errno × Shares :=
  match resolve s os client u.path true with
  | .error e => (some e, s)
  | .ok (parent, name) =>
      if (os.fails .fstat).isSome || parent ≠ u.parent then (some .acces, s)
      else if taken (stat s os parent name) u.overwrite then (some .exist, s)
      else
        let named := if u.overwrite then s.disk.move true parent u.temp parent name
          else s.disk.link parent u.temp parent name
        match os.fails .publish, named with
        | some e, _ => (some e, s)
        | none, none => (some .exist, s)
        | none, some disk => (none, { s with disk := disk })

/-- One turn of `complete_uploads`, with the reply it sends. -/
def complete (os : Os) (f : Refresh) (s : Shares) : Option (Nat × Reply) × Shares :=
  match s.flushed with
  | [] => (none, s)
  | (serial, error) :: rest =>
      let s := { s with flushed := rest }
      match s.uploads.find? (·.serial == serial) with
      | none => (none, s)
      | some u =>
          match u.client, error with
          | none, _ => (none, release os s u)
          | some client, some e => (some (client, .result (some e)), release os s u)
          | some client, none =>
              if f.closes then (none, release os (closed os s client) u)
              else if !f.allowed then (some (client, .result (some .acces)), release os s u)
              else
                let (error, s) := publish s os client u
                (some (client, .result error), release os s u)

/-- `flush_upload`: a worker has flushed one of them. -/
def flush (s : Shares) (serial : Nat) (error : Option Errno) : Shares :=
  if s.queued.contains serial then
    { s with queued := s.queued.erase serial, flushed := s.flushed ++ [(serial, error)] }
  else s

/-! ### Any events, in any order -/

inductive Event
  | configured (conf : Conf)
  | granted (hasPriv : Nat → String → Bool)
  /-- A connection is opened, or logs in or out. -/
  | session (client : Nat) (x : Session)
  | closed (os : Os) (client : Nat)
  | request (os : Os) (uuid : String) (pool : Pool) (client : Nat) (r : Request)
  | flush (serial : Nat) (error : Option Errno)
  | complete (os : Os) (f : Refresh)

def step (s : Shares) : Event → Shares
  | .configured conf => { s with conf := conf }
  | .granted hasPriv => { s with hasPriv := hasPriv }
  | .session client x => { s with session := Function.update s.session client (some x) }
  | .closed os client => closed os s client
  | .request os uuid pool client r => (request s os uuid pool client r).2
  | .flush serial error => flush s serial error
  | .complete os f => (complete os f s).2

def run (s : Shares) (events : List Event) : Shares := events.foldl step s

/-- A server that has just started, over the directories as they are. -/
def start (conf : Conf) (hasPriv : Nat → String → Bool) (root : String → Option Nat)
    (disk : Disk String UInt8) : Shares where
  conf := conf
  hasPriv := hasPriv
  session _ := none
  root := root
  disk := disk
  uploads := []
  queued := []
  flushed := []
  next := 0
  accepted _ := []

end Files

end RustyRig
