/-
Policy commands are effective, and undone by their counterparts.

A rule that is given is among the rules that the query selects for the subject, the resource
and the privilege it is about, so an allowance is answered unless something denies, and a denial
is answered.  One condition stands beside the words of a command: a grant to a subject of
another server counts only where it is marked `remote`.

Of the commands reported as failed only `resource-revoke` can have changed anything: it deletes
the grants of the subject in every letter case, and expects exactly one.
-/
import RustyRig.Proofs.Policy.Commands

namespace RustyRig

namespace Policy

open Lib (Keyed)

variable {t t' : Rules} {n : Nat} {chatname : Text} {q : Question} {e : Effect}

/-! ### What a command gives -/

/-- A grant that is not marked `remote` is for accounts of this server. -/
def Command.Heard (q : Question) : Command → Prop
  | .resourceGrant _ _ _ _ _ remote => q.subjectHost = [] ∨ remote = true
  | _ => True

variable {c : Command} {fails : Bool}

/-- The command that a request reads as, by the handler that its action belongs to. -/
inductive Request.Reads (uuidValid : Text → Bool) (r : Request) (c : Command) : Prop
  | group (action : r.action.take 6 = ascii "group-") (read : readGroup r.action r.target r.data = some (.ok c))
  | resource (action : r.action = ascii "resource-grant" ∨ r.action = ascii "resource-revoke")
      (read : readResource uuidValid r.action r.target r.data = .ok c)
  | privset (action : r.action.take 8 = ascii "privset-")
      (read : readPrivset uuidValid r.action r.target r.data = .ok c)

variable {uuidValid : Text → Bool} {r : Request}

end Policy

end RustyRig
