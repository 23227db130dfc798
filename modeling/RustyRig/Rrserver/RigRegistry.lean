/-
The registry of rigs, from `rrserver/rig.registry.c`.

Each rig has a UUID and an alias of its configuration, and a media index that its frames are
routed by, with a public alias made of it.  A rig that is added takes the first index that is
free; a new default rig takes index zero, and all others are numbered again: those whose alias
is `rigN` take N while it is free.

A rig is told by its address, which no other rig in the registry has.  The calls answer `true`
where they fail, as those of the source do.
-/
import RustyRig.Lib.Scanf
import RustyRig.Lib.Slots

namespace RustyRig

namespace RigRegistry

open Lib (firstFree)

/-- `rr_rig_registry_entry_t`, with the UUID of its rig. -/
structure RigEntry where
  alias_ : String
  publicAlias : String
  mediaIndex : Nat
  radio : Nat
  uuid : String
deriving DecidableEq, Repr

/-- `struct rr_rig_registry`. -/
structure Registry where
  entries : List RigEntry
  defaultRig : Option Nat
  count : Nat
deriving DecidableEq, Repr

/-- How many rigs there may be: the size of `used`. -/
def maxRigs : Nat := 255

/-- `UINT8_MAX`: no index yet. -/
def noIndex : Nat := 255

/-- The entry and the rig, with what belongs to them, or nothing where memory is short. -/
abbrev Calloc := (inUse : List Nat) → Option { a : Nat // a ∉ inUse }

/-- `rr_rig_registry_new`. -/
def Registry.new : Registry := ⟨[], none, 0⟩

/-- `rr_rig_registry_find_uuid`. -/
def Registry.findUuid (r : Registry) (uuid : String) : Option RigEntry :=
  r.entries.find? (·.uuid == uuid)

/-- `rr_rig_registry_find_alias`. -/
def Registry.findAlias (r : Registry) (alias_ : String) : Option RigEntry :=
  r.entries.find? (·.alias_ == alias_)

/-- The alias of an index. -/
def publicAliasOf (index : Nat) : String := "rig" ++ toString index

/-- `rr_rig_registry_add`.  `typed` says that there is a backend type, `created` that it makes a
backend. -/
def add (r : Registry) (uuid alias_ : Option String) (typed : Bool) (calloc : Calloc) (created : Bool) :
    Option Nat × Registry :=
  match uuid, alias_ with
  | some uuid, some alias_ =>
      if maxRigs ≤ r.count || uuid == "" || alias_ == "" || !typed || (r.findUuid uuid).isSome ||
          (r.findAlias alias_).isSome then (none, r)
      else
        match calloc (r.entries.map (·.radio)) with
        | none => (none, r)
        | some radio =>
            if !created then (none, r)
            else
              let free := firstFree maxRigs 0 (r.entries.map (·.mediaIndex))
              -- the entry is all zeros when the loop finds nothing
              let index := if free = maxRigs then 0 else free
              (some radio.val, { r with
                entries := ⟨alias_, publicAliasOf index, index, radio.val, uuid⟩ :: r.entries
                count := r.count + 1 })
  | _, _ => (none, r)

/-- `rr_rig_registry_remove`. -/
def remove (r : Registry) (uuid : Option String) : Bool × Registry :=
  match uuid with
  | none => (true, r)
  | some uuid =>
      if uuid = "" then (true, r)
      else
        match r.findUuid uuid with
        | none => (true, r)
        | some e =>
            -- adapters borrow the default rig
            if r.defaultRig = some e.radio then (true, r)
            else (false, { r with
              entries := r.entries.eraseP (·.uuid == uuid)
              count := r.count - 1 })

/-- `sscanf(alias, "rig%u%c", &number, &extra) == 1`. -/
def scanNumber (alias_ : String) : Option Nat :=
  match Lib.Scanf.literal "rig".toList alias_.toList with
  | none => none
  | some s =>
      match Lib.Scanf.unsigned 32 s with
      | some (number, []) => some number
      | _ => none

/-- The index that the alias of the configuration asks for. -/
def ownNumber (used : List Nat) (alias_ : String) : Option Nat :=
  (scanNumber alias_).filter fun number =>
    decide (0 < number) && decide (number < maxRigs) && !used.contains number &&
      publicAliasOf number == alias_

/-- The first loop of `rr_rig_registry_set_default`, with what is in `used`. -/
def keepNumbers (radio : Option Nat) : List Nat → List RigEntry → List Nat × List RigEntry
  | used, [] => (used, [])
  | used, e :: rest =>
      if some e.radio = radio then
        let (used, rest) := keepNumbers radio used rest
        (used, { e with mediaIndex := 0 } :: rest)
      else
        match ownNumber used e.alias_ with
        | some number =>
            let (used, rest) := keepNumbers radio (number :: used) rest
            (used, { e with mediaIndex := number } :: rest)
        | none =>
            let (used, rest) := keepNumbers radio used rest
            (used, { e with mediaIndex := noIndex } :: rest)

/-- The second loop, with `index`. -/
def fillNumbers : Nat → List Nat → List RigEntry → List RigEntry
  | _, _, [] => []
  | index, used, e :: rest =>
      if e.mediaIndex = noIndex then
        let free := firstFree maxRigs index used
        let index := if free = maxRigs then 0 else free
        { e with mediaIndex := index, publicAlias := publicAliasOf index } ::
          fillNumbers index (index :: used) rest
      else { e with publicAlias := publicAliasOf e.mediaIndex } :: fillNumbers index used rest

/-- `rr_rig_registry_set_default`. -/
def setDefault (r : Registry) (radio : Option Nat) : Bool × Registry :=
  if radio.any fun radio => !r.entries.any (·.radio == radio) then (true, r)
  else
    let (used, entries) := keepNumbers radio [0] r.entries
    (false, { r with entries := fillNumbers 1 used entries, defaultRig := radio })

inductive Event
  | add (uuid alias_ : Option String) (typed : Bool) (calloc : Calloc) (created : Bool)
  | remove (uuid : Option String)
  | setDefault (radio : Option Nat)

/-- One call, and whether it failed. -/
def step (r : Registry) : Event → Bool × Registry
  | .add uuid alias_ typed calloc created =>
      let (radio, r) := add r uuid alias_ typed calloc created
      (radio.isNone, r)
  | .remove uuid => remove r uuid
  | .setDefault radio => setDefault r radio

def run (r : Registry) (events : List Event) : Registry := events.foldl (fun r e => (step r e).2) r

end RigRegistry

end RustyRig
