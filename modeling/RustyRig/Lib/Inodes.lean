/-
Names and what stands behind them.

A file system as a kernel keeps it.  A name in a directory leads to a node; bytes belong to
the node and not to the name, so a file may have several names, and one that is being written
need not have the name it will be known by.  The operations fail where a kernel refuses
whatever the permissions say: when a name is taken or missing.
-/
import Mathlib.Data.List.Basic
import Mathlib.Logic.Basic
import Mathlib.Logic.Function.Basic

namespace RustyRig.Lib

inductive Kind
  | file
  | dir
  | other
deriving DecidableEq, Repr

/-- What a name leads to. -/
structure Node where
  kind : Kind
  ino : Nat
deriving DecidableEq, Repr

/-- A name in a directory. -/
structure Entry (ν : Type*) where
  dir : Nat
  name : ν
  node : Node
deriving DecidableEq, Repr

/-- Whether this is the name in the directory. -/
def Entry.at {ν : Type*} [DecidableEq ν] (e : Entry ν) (d : Nat) (n : ν) : Bool :=
  e.dir == d && e.name == n

theorem Entry.at_iff {ν : Type*} [DecidableEq ν] {e : Entry ν} {d : Nat} {n : ν} :
    e.at d n = true ↔ e.dir = d ∧ e.name = n := by
  simp [Entry.at]

/-- The names, the bytes behind them, and the number of the next node. -/
structure Disk (ν β : Type*) where
  entries : List (Entry ν)
  content : Nat → List β
  next : Nat
  fresh : ∀ e ∈ entries, e.node.ino < next

namespace Disk

variable {ν β : Type*} [DecidableEq ν] {t t' : Disk ν β} {d d' : Nat} {n n' : ν} {node : Node}

/-- What a name leads to. -/
def look (t : Disk ν β) (d : Nat) (n : ν) : Option Node :=
  (t.entries.find? (·.at d n)).map (·.node)

theorem look_lt (h : t.look d n = some node) : node.ino < t.next := by
  obtain ⟨e, hfind, rfl⟩ := Option.map_eq_some_iff.mp h
  exact t.fresh e (List.mem_of_find?_eq_some hfind)

/-- Takes a name away. -/
def erase (t : Disk ν β) (d : Nat) (n : ν) : Disk ν β where
  entries := t.entries.filter (!·.at d n)
  content := t.content
  next := t.next
  fresh e he := t.fresh e (List.mem_of_mem_filter he)

theorem lt_next_erase (h : t.look d n = some node) : node.ino < (t.erase d n).next := by
  show node.ino < t.next
  exact look_lt h

/-- Gives a node a name, in place of whatever had it. -/
def enter (t : Disk ν β) (d : Nat) (n : ν) (node : Node) (h : node.ino < t.next) : Disk ν β where
  entries := ⟨d, n, node⟩ :: (t.erase d n).entries
  content := t.content
  next := t.next
  fresh e he := by
    rcases List.mem_cons.mp he with rfl | he
    · exact h
    · exact (t.erase d n).fresh e he

/-- A new node under a name that is not taken. -/
def make (kind : Kind) (t : Disk ν β) (d : Nat) (n : ν) : Option (Disk ν β) :=
  if (t.look d n).isSome then none
  else
    some
      { entries := ⟨d, n, ⟨kind, t.next⟩⟩ :: t.entries
        content := Function.update t.content t.next []
        next := t.next + 1
        fresh := by
          intro e he
          rcases List.mem_cons.mp he with rfl | he
          · exact Nat.lt_succ_self _
          · exact Nat.lt_succ_of_lt (t.fresh e he) }

/-- Another name for a node, if it is not taken. -/
def link (t : Disk ν β) (d : Nat) (n : ν) (d' : Nat) (n' : ν) : Option (Disk ν β) :=
  match h : t.look d n, t.look d' n' with
  | some node, none => some (t.enter d' n' node (look_lt h))
  | _, _ => none

/-- Moves a node to another name.  A file that has it is replaced where this is asked for. -/
def move (replace : Bool) (t : Disk ν β) (d : Nat) (n : ν) (d' : Nat) (n' : ν) :
    Option (Disk ν β) :=
  match h : t.look d n with
  | none => none
  | some node =>
      if (t.look d' n').all fun old => replace && old.kind != .dir then
        some ((t.erase d n).enter d' n' node (lt_next_erase h))
      else none

/-- Whether a directory has names in it. -/
def inhabited (t : Disk ν β) (d : Nat) : Bool := t.entries.any (·.dir == d)

/-- Writes at the end of a file. -/
def append (t : Disk ν β) (ino : Nat) (bytes : List β) : Disk ν β where
  entries := t.entries
  content := Function.update t.content ino (t.content ino ++ bytes)
  next := t.next
  fresh := t.fresh

/-! ### Where names lead afterwards -/

theorem look_erase (t : Disk ν β) (d d' : Nat) (n n' : ν) :
    (t.erase d n).look d' n' = if d' = d ∧ n' = n then none else t.look d' n' := by
  unfold look erase
  rw [List.find?_filter]
  split
  · rename_i hsame
    obtain ⟨rfl, rfl⟩ := hsame
    rw [List.find?_eq_none.mpr fun e _ => by simp, Option.map_none]
  · rename_i hother
    have hboth : (fun e : Entry ν => decide ((!e.at d n) = true ∧ e.at d' n' = true)) =
        fun e => e.at d' n' := by
      funext e
      refine Bool.eq_iff_iff.mpr ⟨fun h => (of_decide_eq_true h).2, fun h => decide_eq_true ⟨?_, h⟩⟩
      obtain ⟨rfl, rfl⟩ := Entry.at_iff.mp h
      rw [Bool.not_eq_true', ← Bool.not_eq_true, Entry.at_iff]
      exact hother
    rw [hboth]

@[simp]
theorem content_erase (t : Disk ν β) (d : Nat) (n : ν) : (t.erase d n).content = t.content := rfl

/-- A name that is added in front. -/
theorem find_cons (e : Entry ν) (l : List (Entry ν)) (d : Nat) (n : ν) :
    (((e :: l).find? (·.at d n)).map (·.node)) =
      if d = e.dir ∧ n = e.name then some e.node else (l.find? (·.at d n)).map (·.node) := by
  rw [List.find?_cons]
  split
  · rename_i hat
    obtain ⟨rfl, rfl⟩ := Entry.at_iff.mp hat
    rw [if_pos ⟨rfl, rfl⟩, Option.map_some]
  · rename_i hat
    rw [if_neg]
    rintro ⟨rfl, rfl⟩
    exact absurd (Entry.at_iff.mpr ⟨rfl, rfl⟩) (by rw [hat]; exact Bool.false_ne_true)

theorem look_enter (t : Disk ν β) (d d' : Nat) (n n' : ν) (h : node.ino < t.next) :
    (t.enter d n node h).look d' n' = if d' = d ∧ n' = n then some node else t.look d' n' := by
  have hrest := look_erase t d d' n n'
  unfold look at hrest ⊢
  rw [enter, find_cons, hrest]
  split
  · rfl
  · rfl

@[simp]
theorem content_enter (t : Disk ν β) (d : Nat) (n : ν) (h : node.ino < t.next) :
    (t.enter d n node h).content = t.content := rfl

theorem make_some {kind : Kind} (h : make kind t d n = some t') :
    t.look d n = none ∧ t'.next = t.next + 1 ∧
      t'.content = Function.update t.content t.next [] ∧
      ∀ d' n', t'.look d' n' =
        if d' = d ∧ n' = n then some ⟨kind, t.next⟩ else t.look d' n' := by
  unfold make at h
  split at h
  · cases h
  rename_i hfree
  obtain rfl := Option.some.inj h
  exact ⟨Option.not_isSome_iff_eq_none.mp hfree, rfl, rfl, fun d' n' => find_cons _ _ d' n'⟩

theorem link_some (h : t.link d n d' n' = some t') :
    t.look d' n' = none ∧ t'.next = t.next ∧ t'.content = t.content ∧
      ∃ node, t.look d n = some node ∧
        ∀ x y, t'.look x y = if x = d' ∧ y = n' then some node else t.look x y := by
  unfold link at h
  split at h
  · rename_i node hnode hfree
    obtain rfl := Option.some.inj h
    exact ⟨hfree, rfl, rfl, node, hnode, fun x y => look_enter t d' x n' y _⟩
  · cases h

theorem move_some {replace : Bool} (h : move replace t d n d' n' = some t') :
    t'.next = t.next ∧ t'.content = t.content ∧
      (∀ old, t.look d' n' = some old → replace = true ∧ old.kind ≠ .dir) ∧
      ∃ node, t.look d n = some node ∧
        ∀ x y, t'.look x y = if x = d' ∧ y = n' then some node
          else if x = d ∧ y = n then none else t.look x y := by
  unfold move at h
  split at h
  · cases h
  rename_i node hnode
  split at h
  · rename_i hfree
    obtain rfl := Option.some.inj h
    refine ⟨rfl, rfl, fun old hold => ?_, node, hnode, fun x y => ?_⟩
    · rw [hold] at hfree
      simpa using hfree
    · rw [look_enter, look_erase]
  · cases h

@[simp]
theorem look_append (t : Disk ν β) (ino : Nat) (bytes : List β) :
    (t.append ino bytes).look d n = t.look d n := rfl

/-- A directory that a name leads from is inhabited. -/
theorem inhabited_of_look (h : t.look d n = some node) : t.inhabited d = true := by
  obtain ⟨e, hfind, -⟩ := Option.map_eq_some_iff.mp h
  have hat : e.at d n = true := by simpa using List.find?_some hfind
  have hkey := Entry.at_iff.mp hat
  exact List.any_eq_true.mpr ⟨e, List.mem_of_find?_eq_some hfind, beq_iff_eq.mpr hkey.1⟩

end Disk

end RustyRig.Lib

/-!
Walking a tree of directories by name.

A name in a directory leads to a directory, to a link or to something else.  A walk takes its
names one at a time, may stay or go up, and follows a link by walking its names first; a link at
the very end is not followed, and only so many links are.  So a walk can go anywhere, but one of a
single name that neither stays nor goes up enters a real directory of that name or nothing.
-/

namespace RustyRig.Lib

/-- What a name in a directory leads to. -/
inductive DirEntry (ν : Type) where
  | dir (ino : Nat)
  /-- A link, from the top of the tree if `absolute`. -/
  | link (absolute : Bool) (names : List ν)
  | other

/-- Directories by number, with the directory above each, and the one at the top. -/
structure DirTree (ν : Type) where
  entry : Nat → ν → Option (DirEntry ν)
  parent : Nat → Nat
  top : Nat

/-- Why a walk ends without a directory. -/
inductive Refusal
  | missing
  | notDirectory
  | linked

namespace DirTree

variable {ν : Type} {t : DirTree ν} {stay up : ν → Bool} {links dir dir' : Nat} {name : ν} {names rest : List ν}

/-- The directory at the end of the names. -/
def walk (t : DirTree ν) (stay up : ν → Bool) (links dir : Nat) : List ν → Except Refusal Nat
  | [] => .ok dir
  | name :: rest =>
      if stay name then walk t stay up links dir rest
      else if up name then walk t stay up links (t.parent dir) rest
      else
        match t.entry dir name with
        | none => .error .missing
        | some .other => .error .notDirectory
        | some (.dir ino) => walk t stay up links ino rest
        | some (.link absolute target) =>
            match rest, links with
            | [], _ => .error .linked
            | _ :: _, 0 => .error .linked
            | _ :: _, links + 1 => walk t stay up links (if absolute then t.top else dir) (target ++ rest)
termination_by names => (links, names.length)

/-- One name that neither stays nor goes up enters a directory of that name. -/
theorem walk_single (hstay : stay name = false) (hup : up name = false) :
    t.walk stay up links dir [name] = .ok dir' ↔ t.entry dir name = some (.dir dir') := by
  rw [walk, hstay, hup, if_neg Bool.false_ne_true, if_neg Bool.false_ne_true]
  split
  · rename_i heq
    rw [heq]
    exact ⟨fun h => (by cases h), fun h => (by cases h)⟩
  · rename_i heq
    rw [heq]
    exact ⟨fun h => (by cases h), fun h => (by cases h)⟩
  · rename_i ino heq
    rw [heq, walk]
    constructor
    · intro h
      rw [Except.ok.inj h]
    · intro h
      rw [DirEntry.dir.inj (Option.some.inj h)]
  · rename_i absolute target heq
    rw [heq]
    exact ⟨fun h => (by cases h), fun h => (by cases h)⟩

/-- These names lead from one directory to the other, each entering a directory of its name. -/
inductive Follows (t : DirTree ν) : Nat → List ν → Nat → Prop
  | nil (dir : Nat) : Follows t dir [] dir
  | cons {dir next dir' : Nat} {name : ν} {rest : List ν} (hentry : t.entry dir name = some (.dir next))
      (hrest : Follows t next rest dir') : Follows t dir (name :: rest) dir'

end DirTree

end RustyRig.Lib
