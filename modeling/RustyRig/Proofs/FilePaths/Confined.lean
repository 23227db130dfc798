/-
A resolved path stays in its share.

The loop of `resolve` opens one directory of a valid name after the other (`descend_spec`), and a
valid name neither stays, nor goes up, nor has a slash in it, so the kernel's walk enters a real
directory of exactly that name.  With the share's own part of the path this is `Confined`, which is
all that `resolve` ever yields.
-/
import RustyRig.Rrserver.FilePaths

namespace RustyRig

namespace FilePaths

open Lib (DirTree)
open Files (Errno)

variable {s : Server} {client : Option Client} {path name part share : Bytes} {write : Bool}
  {call dir dir' : Nat} {parts : List Bytes} {r : Request}

/-! ### Valid names -/

/-- What a valid name is not. -/
structure Plain (name : Bytes) : Prop where
  nonempty : name ≠ []
  short : name.length ≤ 255
  notStay : name ≠ text "."
  notUp : name ≠ text ".."
  utf8 : (ByteArray.mk name.toArray).validateUTF8 = true
  printable : ∀ c ∈ name, ¬ c < 32
  noSlash : slash ∉ name
  noBackslash : backslash ∉ name

theorem plain_of_validName (h : validName name = true) : Plain name := by
  simp only [validName, Bool.and_eq_true, Bool.not_eq_true', bne_iff_ne, decide_eq_true_eq,
    List.all_eq_true, Bool.or_eq_false_iff, beq_eq_false_iff_ne, decide_eq_false_iff_not] at h
  obtain ⟨⟨⟨⟨⟨⟨hempty, hlength⟩, hstay⟩, hup⟩, -⟩, hutf8⟩, hall⟩ := h
  refine ⟨?_, hlength, hstay, hup, hutf8, fun c hc => (hall c hc).1.1, ?_, ?_⟩
  · intro hnil
    rw [hnil] at hempty
    exact absurd hempty (by decide)
  · exact fun hslash => (hall slash hslash).1.2 rfl
  · exact fun hback => (hall backslash hback).2 rfl

/-- A valid name opens a real directory of that name. -/
theorem entry_of_openat (hvalid : validName part = true) (h : openat s call dir part = .ok dir') :
    s.tree.entry dir part = some (.dir dir') := by
  have hplain := plain_of_validName hvalid
  obtain ⟨c, rest, hpart⟩ := List.exists_cons_of_ne_nil hplain.nonempty
  have hsplit : part.splitOn slash = [part] := List.splitOn_eq_singleton hplain.noSlash
  have hrelative : c ≠ slash := by
    intro heq
    exact hplain.noSlash (by rw [hpart, heq]; exact List.mem_cons_self)
  have hstay : (part.isEmpty || part == text ".") = false := by
    rw [Bool.or_eq_false_iff]
    exact ⟨List.isEmpty_eq_false_iff.mpr hplain.nonempty, beq_eq_false_iff_ne.mpr hplain.notStay⟩
  have hup : (part == text "..") = false := beq_eq_false_iff_ne.mpr hplain.notUp
  rw [hpart] at h
  unfold openat at h
  split at h
  · exact nomatch h
  · rename_i heq
    exact nomatch heq
  · rename_i c' rest' hrefuses heq
    rw [← heq, ← hpart, hsplit] at h
    obtain ⟨rfl, rfl⟩ := List.cons.inj heq
    rw [if_neg hrelative] at h
    split at h
    · rename_i ino hwalk
      rw [← Except.ok.inj h]
      have hsingle : s.tree.walk (fun name => name.isEmpty || name == text ".") (· == text "..") 40 dir [part] =
          .ok ino ↔ s.tree.entry dir part = some (.dir ino) := DirTree.walk_single hstay hup
      exact hsingle.mp hwalk
    · exact nomatch h
    · exact nomatch h
    · exact nomatch h

/-! ### The loop -/

theorem descend_spec : ∀ {parts : List Bytes} {call dir : Nat}, descend s call dir parts = .ok (dir', name) →
    (parts = [] ∧ name = text "." ∧ dir' = dir) ∨
      ∃ dirs, parts = dirs ++ [name] ∧ (∀ d ∈ dirs, validName d = true) ∧ validName name = true ∧
        s.tree.Follows dir dirs dir'
  | [], call, dir, h => by
      obtain ⟨hdir, hname⟩ := Prod.mk.inj (Except.ok.inj h)
      exact Or.inl ⟨rfl, hname.symm, hdir.symm⟩
  | [part], call, dir, h => by
      rw [descend] at h
      split at h
      · rename_i hvalid
        obtain ⟨hdir, hname⟩ := Prod.mk.inj (Except.ok.inj h)
        rw [← hdir, ← hname]
        exact Or.inr ⟨[], rfl, fun d hd => absurd hd List.not_mem_nil, hvalid, .nil dir⟩
      · cases h
  | part :: next :: rest, call, dir, h => by
      rw [descend] at h
      · split at h
        · cases h
        · rename_i hpart
          simp only [Bool.or_eq_true, Bool.not_eq_true', beq_iff_eq, not_or, Bool.not_eq_false] at hpart
          obtain ⟨hvalid, -⟩ := hpart
          split at h
          · cases h
          · rename_i ino hopen
            have hentry := entry_of_openat hvalid hopen
            rcases descend_spec h with ⟨hnil, -⟩ | ⟨dirs, hparts, hdirs, hname, hfollows⟩
            · exact absurd hnil (List.cons_ne_nil next rest)
            · refine Or.inr ⟨part :: dirs, by rw [hparts, List.cons_append], ?_, hname, .cons hentry hfollows⟩
              intro d hd
              rcases List.mem_cons.mp hd with rfl | hd
              · exact hvalid
              · exact hdirs d hd
      · exact List.cons_ne_nil next rest

/-! ### What is resolved -/

/-- The share a path is in, opened: its name is valid, the client may use it that way, and its
configured root is a directory. -/
structure Opened (s : Server) (client : Option Client) (share : Bytes) (write : Bool) (top : Nat) : Prop where
  valid : validName share = true
  permitted : permission s client share write = true
  root : ∃ root, s.get (shareKey share "path") = some root ∧ root ≠ [] ∧ openat s 0 s.cwd root = .ok top

/-- What `resolve` may yield: the root of the share itself under the name `.`, if the path is only
the share's, and otherwise the last part of the path as a name, in the directory that the parts
between lead to. -/
structure Confined (s : Server) (client : Option Client) (path : Bytes) (write : Bool) (dir : Nat) (name : Bytes) :
    Prop where
  within : ∃ share top, Opened s client share write top ∧
    (((path = slash :: share ∨ path = slash :: share ++ [slash]) ∧ name = text "." ∧ dir = top) ∨
      ∃ dirs, path = slash :: [slash].intercalate (share :: (dirs ++ [name])) ∧
        (∀ d ∈ dirs, validName d = true) ∧ validName name = true ∧ s.tree.Follows top dirs dir)

theorem resolve_confined (h : resolve s client path write = .ok (dir, name)) :
    Confined s client path write dir name := by
  unfold resolve at h
  split at h
  · exact nomatch h
  · exact nomatch h
  · rename_i c d rest
    split at h
    · exact nomatch h
    · rename_i hstart
      simp only [Bool.or_eq_true, decide_eq_true_eq, not_or, ne_eq, Decidable.not_not] at hstart
      obtain ⟨hslash, -⟩ := hstart
      have hjoin : [slash].intercalate ((d :: rest).splitOn slash) = d :: rest := List.intercalate_splitOn slash
      split at h
      · exact nomatch h
      · rename_i share below hsplit
        rw [hsplit] at hjoin
        split at h
        · exact nomatch h
        · rename_i hallowed
          simp only [Bool.or_eq_true, Bool.not_eq_true', not_or, Bool.not_eq_false] at hallowed
          split at h
          · exact nomatch h
          · rename_i root hroot
            split at h
            · exact nomatch h
            · rename_i hnonempty
              have hroot' : root ≠ [] := fun heq => hnonempty (by rw [heq]; rfl)
              split at h
              · exact nomatch h
              · rename_i top hopen
                refine ⟨share, top, ⟨hallowed.1, hallowed.2, root, hroot, hroot', hopen⟩, ?_⟩
                rcases descend_spec h with ⟨hbelow, hname, hdir⟩ | ⟨dirs, hbelow, hdirs, hname, hfollows⟩
                · refine Or.inl ⟨?_, hname, hdir⟩
                  unfold belowShare at hbelow
                  split at hbelow
                  · rename_i hempty
                    right
                    rw [hslash, ← hjoin, hempty]
                    rfl
                  · left
                    rw [hslash, ← hjoin, hbelow, List.intercalate_singleton]
                · refine Or.inr ⟨dirs, ?_, hdirs, hname, hfollows⟩
                  have hparts : below = dirs ++ [name] := by
                    unfold belowShare at hbelow
                    split at hbelow
                    · exact absurd hbelow.symm (by simp)
                    · exact hbelow
                  rw [hslash, ← hjoin, hparts]

theorem Confined.validName (h : Confined s client path write dir name) (hname : name ≠ text ".") :
    validName name = true := by
  obtain ⟨share, top, -, ⟨-, hstay, -⟩ | ⟨dirs, -, -, hvalid, -⟩⟩ := h.within
  · exact absurd hstay hname
  · exact hvalid

/-! ### What a command acts on -/

/-- The name is an entry of a directory that the path leads to, with the permission to write. -/
structure Target (s : Server) (client : Option Client) (path : Bytes) (dir : Nat) (name : Bytes) : Prop where
  valid : validName name = true
  confined : Confined s client path true dir name

theorem target_of_resolve (h : resolve s client path true = .ok (dir, name)) (hname : name ≠ text ".") :
    Target s client path dir name :=
  ⟨(resolve_confined h).validName hname, resolve_confined h⟩

/-- What the resolution of a request leads to: nothing, a reading, or targets. -/
inductive Resolved (s : Server) (client : Option Client) (r : Request) : Dispatch → Prop where
  | ignored : Resolved s client r .ignored
  | refused (e : Errno) : Resolved s client r (.refused e)
  | listing (hcmd : r.cmd = "list") : Resolved s client r .listing
  | reads {d : Nat} {n : Bytes} (hcmd : r.cmd = "read") (h : Confined s client r.path false d n) :
      Resolved s client r (.reads d n)
  | writes {d : Nat} {n : Bytes} (h : Target s client r.path d n) : Resolved s client r (.writes r.cmd d n)
  | renames {d other : Nat} {n dest : Bytes} (h : Target s client r.path d n)
      (hdest : Target s client r.dest other dest) : Resolved s client r (.renames d n other dest)

theorem request_resolved (s : Server) (client : Option Client) (r : Request) :
    Resolved s client r (request s client r) := by
  unfold request
  split
  · exact .ignored
  · split
    · exact .refused _
    · split
      · rename_i hcmd
        exact .listing hcmd
      · split
        · exact .refused _
        · rename_i dir name hresolve
          split
          · rename_i hread
            have hwrite : (r.cmd != "read") = false := by rw [hread]; rfl
            rw [hwrite] at hresolve
            exact .reads hread (resolve_confined hresolve)
          · rename_i hread
            have hwrite : (r.cmd != "read") = true := bne_iff_ne.mpr hread
            rw [hwrite] at hresolve
            split
            · exact .refused _
            · rename_i hname
              have htarget := target_of_resolve hresolve hname
              split
              · unfold resolveRename
                split
                · exact .refused _
                · exact .refused _
                · rename_i other dest _ hother
                  split
                  · exact .refused _
                  · rename_i hdest
                    exact .renames htarget (target_of_resolve hother hdest)
              · split
                · exact .writes htarget
                · exact .refused _

/-- **Confinement**: resolving a path fails or yields the last part of the path in the directory,
below the configured root of the share its first part names, that the parts between lead to through
real directories; a valid name is one part that neither stays nor goes up; and every command that
changes something acts on such a name, so never on the root of a share. -/
theorem share_confinement (s : Server) (client : Option Client) :
    (∀ path write, (∃ e, resolve s client path write = .error e) ∨
      ∃ dir name, resolve s client path write = .ok (dir, name) ∧ Confined s client path write dir name) ∧
    (∀ name, validName name = true → Plain name) ∧
    ∀ r, Resolved s client r (request s client r) := by
  refine ⟨fun path write => ?_, fun name => plain_of_validName, request_resolved s client⟩
  cases hresolve : resolve s client path write with
  | error e => exact Or.inl ⟨e, rfl⟩
  | ok found => exact Or.inr ⟨found.1, found.2, rfl, resolve_confined hresolve⟩

end FilePaths

end RustyRig
