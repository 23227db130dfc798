/-
How a request for a file is resolved, from `rrserver/files.c`.

A path is bytes, as a client sends it; `resolve` takes it apart at its slashes, opens one directory
after the other and leaves the last part as a name.  What it opens is the kernel's to say: `openat`
takes any path, walks through links and upwards, and only leaves a link at the very end alone.  The
kernel may also refuse any open for reasons of its own.
-/
import RustyRig.Lib.Inodes
import RustyRig.Rrserver.Files

namespace RustyRig

namespace FilePaths

open Lib (DirTree Refusal)
open Files (Errno filePath)

/-- A C string, without its terminator. -/
abbrev Bytes := List UInt8

/-- The bytes of a text of the source. -/
def text (s : String) : Bytes := s.toList.map fun c => UInt8.ofNat c.toNat

/-- `/`, and `\`. -/
def slash : UInt8 := 47

def backslash : UInt8 := 92

/-- `rrserver_files_valid_name`. -/
def validName (s : Bytes) : Bool :=
  !s.isEmpty && decide (s.length ≤ 255) && s != text "." && s != text ".." &&
    !(text ".rr-upload-").isPrefixOf s && (ByteArray.mk s.toArray).validateUTF8 &&
    s.all fun c => !(decide (c < 32) || c == slash || c == backslash)

/-- A connection, as far as a share looks at it. -/
structure Client where
  authenticated : Bool
  /-- The `uid` of its user. -/
  uid : Option Nat

/-- What a request depends on. -/
structure Server where
  /-- `cfg_get`. -/
  get : Bytes → Option Bytes
  /-- `cfg_get_bool`. -/
  getBool : Bytes → Bool → Bool
  /-- `has_priv`. -/
  hasPriv : Nat → Bytes → Bool
  tree : DirTree Bytes
  /-- The working directory of the server. -/
  cwd : Nat
  /-- What the kernel refuses of its own accord, by the number of the open. -/
  refuses : Nat → Option Errno

/-- `share:NAME.KEY`. -/
def shareKey (share : Bytes) (key : String) : Bytes :=
  text "share:" ++ share ++ text "." ++ text key

/-- `permission`. -/
def permission (s : Server) (client : Option Client) (share : Bytes) (write : Bool) : Bool :=
  let grant := s.get (shareKey share (if write then "write" else "read"))
  let needed := (grant.filter (! ·.isEmpty)).getD (text (if write then "files.write" else "files.read"))
  match client with
  | none => false
  | some x =>
      s.getBool (shareKey share "enabled") true && x.authenticated && grant != some (text "none") &&
        x.uid.any fun uid => s.hasPriv uid needed

/-- The kernel walks a path: an empty part and `.` stay, `..` goes up, and at most 40 links are
followed. -/
def openat (s : Server) (call dir : Nat) (path : Bytes) : Except Errno Nat :=
  match s.refuses call, path with
  | some e, _ => .error e
  | none, [] => .error .noent
  | none, c :: rest =>
      match s.tree.walk (fun name => name.isEmpty || name == text ".") (· == text "..") 40
          (if c = slash then s.tree.top else dir) ((c :: rest).splitOn slash) with
      | .ok ino => .ok ino
      | .error .missing => .error .noent
      | .error .notDirectory => .error .notdir
      | .error .linked => .error (.other 40)

/-- The loop of `resolve`: the directory of the last part, and its name. -/
def descend (s : Server) : Nat → Nat → List Bytes → Except Errno (Nat × Bytes)
  | _, dir, [] => .ok (dir, text ".")
  | _, dir, [part] => if validName part then .ok (dir, part) else .error .inval
  | call, dir, part :: rest =>
      if !validName part || rest == [[]] then .error .inval
      else
        match openat s call dir part with
        | .error e => .error e
        | .ok next => descend s (call + 1) next rest

/-- What is below a share: nothing, where the path ends with its name or with one slash more. -/
def belowShare (below : List Bytes) : List Bytes :=
  if below = [[]] then [] else below

/-- `resolve`. -/
def resolve (s : Server) (client : Option Client) (path : Bytes) (write : Bool) : Except Errno (Nat × Bytes) :=
  match path with
  | [] => .error .inval
  | [_] => .error .inval
  | c :: d :: rest =>
      if c ≠ slash || decide (filePath ≤ path.length) then .error .inval
      else
        match (d :: rest).splitOn slash with
        | [] => .error .inval
        | share :: below =>
            if !validName share || !permission s client share write then .error .acces
            else
              match s.get (shareKey share "path") with
              | none => .error .noent
              | some root =>
                  if root.isEmpty then .error .noent
                  else
                    match openat s 0 s.cwd root with
                    | .error e => .error e
                    | .ok dir => descend s 1 dir (belowShare below)

/-- A request, as far as it decides what is acted on. -/
structure Request where
  cmd : String
  path : Bytes
  /-- `request.id`. -/
  id : Option Bytes
  /-- `file.dest`. -/
  dest : Bytes

/-- What a request comes to. -/
inductive Dispatch where
  | ignored
  | refused (error : Errno)
  | listing
  | reads (dir : Nat) (name : Bytes)
  /-- A write command acts on the name in the directory. -/
  | writes (cmd : String) (dir : Nat) (name : Bytes)
  | renames (dir : Nat) (name : Bytes) (other : Nat) (dest : Bytes)

/-- The part of `rename` before it looks at the files. -/
def resolveRename (s : Server) (client : Option Client) (r : Request) (dir : Nat) (name : Bytes) : Dispatch :=
  match resolve s client r.path false, resolve s client r.dest true with
  | .error e, _ => .refused e
  | .ok _, .error e => .refused e
  | .ok _, .ok (other, dest) => if dest = text "." then .refused .exist else .renames dir name other dest

/-- `request`, up to what the command itself does. -/
def request (s : Server) (client : Option Client) (r : Request) : Dispatch :=
  if !client.any fun x => x.authenticated && x.uid.isSome then .ignored
  else if r.id.all fun id => id.isEmpty || decide (64 < id.length) then .refused .inval
  else if r.cmd = "list" then .listing
  else
    match resolve s client r.path (r.cmd != "read") with
    | .error e => .refused e
    | .ok (dir, name) =>
        if r.cmd = "read" then .reads dir name
        else if name = text "." then .refused .perm
        else if r.cmd = "rename" then resolveRename s client r dir name
        else if ["begin", "chunk", "commit", "cancel", "mkdir", "delete"].contains r.cmd then
          .writes r.cmd dir name
        else .refused .inval

end FilePaths

end RustyRig
