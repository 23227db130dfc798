/-
The client's cache of the station's objects (`rrclient/objects.c`).

The server describes its node, rigs and VFOs under UUIDs, and the properties of each; descriptions and
changes may overtake each other, so what is older than what is known is dropped by its sequence number.
A removed object stays as a tombstone and takes what it owns with it.

A frame is any type with a `Reader`: the dictionaries, and the checks of the wire format, belong to
libraries outside of this tree.
-/
import RustyRig.Lib.Settle
import Mathlib.Data.List.Nodup

namespace RustyRig

namespace Objects

open Lib

/-- `val_type_t`, as far as a property has one. -/
inductive ValType where
  | str
  | bool
  | llong
  | double
deriving DecidableEq, Repr

/-- What the cache reads of a frame. -/
structure Reader (D : Type) where
  /-- `dict_get` with NULL as its default. -/
  text : D → String → Option String
  /-- A value of type `VAL_BOOL`. -/
  bool : D → String → Option Bool
  /-- `rr_object_seq_get`. -/
  seq : D → String → Option Nat
  /-- `dict_get_type(d, "property.value") != VAL_END`. -/
  hasValue : D → Bool
  /-- `rr_object_value_get(d, "property.value", …)`. -/
  value : D → ValType → Bool
  /-- `rr_object_uuid_valid`. -/
  uuidValid : String → Bool
  /-- `rr_object_name_valid`. -/
  nameValid : String → Bool

/-- `cached_property_t`. -/
structure Property (D : Type) where
  name : String
  descriptor : Option D
  state : Option D
  descriptor_seq : Nat
  state_seq : Nat
  version : Nat

/-- `cached_object_t`. -/
structure Object (D : Type) where
  uuid : String
  descriptor : Option D
  seq : Nat
  removed : Bool
  properties : List (Property D)

/-- `rr_object_cache`. -/
structure Cache (D : Type) where
  objects : List (Object D)
  epoch : Option String
  request : Option String
  ready : Bool
  allocated : Nat

namespace Cache

variable {D : Type} (r : Reader D)

/-- `rr_object_cache_new`. -/
def new : Cache D := { objects := [], epoch := none, request := none, ready := false, allocated := 0 }

/-- `find` without `create`. -/
def find (c : Cache D) (uuid : Option String) : Option (Object D) :=
  match uuid with
  | none => none
  | some uuid => if r.uuidValid uuid = true then c.objects.find? fun o => o.uuid == uuid else none

/-- `find` with `create`: the object, and the cache with it. -/
def findOrCreate (c : Cache D) (uuid : String) : Option (Object D × Cache D) :=
  match c.find r (some uuid) with
  | some o => some (o, c)
  | none =>
      if r.uuidValid uuid = false ∨ 4096 ≤ c.allocated then none
      else
        let o : Object D := { uuid := uuid, descriptor := none, seq := 0, removed := false, properties := [] }
        some (o, { c with objects := o :: c.objects, allocated := c.allocated + 1 })

/-- An object is written to in place. -/
def update (c : Cache D) (uuid : String) (f : Object D → Object D) : Cache D :=
  { c with objects := c.objects.map fun o => if o.uuid = uuid then f o else o }

/-! ### Objects -/

/-- The object that owns this one, by its descriptor. -/
def owner (o : Object D) : Option String := o.descriptor.bind fun d => r.text d "object.owner"

/-- What is left of an object that was removed: its descriptor stays. -/
def tombstone (seq : Nat) (o : Object D) : Object D := { o with removed := true, seq := seq, properties := [] }

/-- The cascade, one child: it goes with an owner that went at its number or later. -/
def cascadeOne (uuid : String) (c : Cache D) : Bool × Cache D :=
  match c.objects.find? fun o => o.uuid == uuid with
  | none => (false, c)
  | some child =>
      if child.removed = true ∨ child.descriptor.isNone = true then (false, c)
      else
        match c.find r (owner r child) with
        | none => (false, c)
        | some parent =>
            if parent.removed = true ∧ child.seq ≤ parent.seq then (true, c.update uuid (tombstone parent.seq))
            else (false, c)

/-- `remove_object`; as many passes as there are objects, and one more, are enough. -/
def removeObject (c : Cache D) (uuid : String) (seq : Nat) : Cache D :=
  let c := c.update uuid (tombstone seq)
  Settle.settle (cascadeOne r) (c.objects.map (·.uuid)) (c.objects.length + 1) c

/-- The part of `rr_object_cache_apply` for an object. -/
def applyObject (c : Cache D) (d : D) (cmd uuid : String) (seq : Nat) : Bool × Cache D :=
  if cmd ≠ "descriptor" ∧ cmd ≠ "added" ∧ cmd ≠ "removed" then (false, c)
  else
    let type := (r.text d "object.type").getD ""
    if cmd ≠ "removed" ∧ type ≠ "node" ∧ type ≠ "rig" ∧ type ≠ "vfo" then (false, c)
    else if cmd ≠ "removed" ∧ type ≠ "node" ∧ ((r.text d "object.owner").any r.uuidValid) = false then (false, c)
    else
      match c.findOrCreate r uuid with
      | none => (false, c)
      | some (o, c) =>
          if seq < o.seq ∨ (o.removed = true ∧ seq ≤ o.seq) then (true, c)
          else if cmd = "removed" then (true, c.removeObject r uuid seq)
          else
            match (c.find r (r.text d "object.owner")).filter fun p => p.removed && decide (seq ≤ p.seq) with
            | some parent => (true, c.removeObject r uuid parent.seq)
            | none => (true, c.update uuid fun o => { o with descriptor := some d, seq := seq, removed := false })

/-! ### Properties -/

/-- `property` with `create`: the property, and the object with it. -/
def property (o : Object D) (name : String) : Option (Property D × Object D) :=
  match o.properties.find? fun p => p.name == name with
  | some p => some (p, o)
  | none =>
      if 256 ≤ o.properties.length then none
      else
        let p : Property D :=
          { name := name, descriptor := none, state := none, descriptor_seq := 0, state_seq := 0, version := 0 }
        some (p, { o with properties := p :: o.properties })

/-- `property.type`. -/
def valueType (type : String) : Option ValType :=
  if type = "string" then some .str
  else if type = "boolean" then some .bool
  else if type = "integer" then some .llong
  else if type = "number" then some .double
  else none

/-- The checks of a descriptor. -/
def descriptorValid (d : D) : Bool := (r.bool d "property.readable").isSome && (r.bool d "property.writable").isSome

/-- The checks of a state, and its version. -/
def stateVersion (d : D) (type : ValType) : Option Nat := do
  let known ← r.bool d "property.known"
  let available ← r.bool d "property.available"
  let observed ← r.bool d "property.observed"
  let version ← r.seq d "property.version"
  if (available && !known) || (!observed && (known || available)) || (known && !r.value d type) ||
      (!known && r.hasValue d) then none
  else some version

/-- The frame is kept, unless what is there is newer: a descriptor by its number, a state by its version too. -/
def store (p : Property D) (d : D) (seq : Nat) (version : Option Nat) : Property D :=
  match version with
  | none =>
      if p.descriptor.isSome = true ∧ seq < p.descriptor_seq then p
      else { p with descriptor := some d, descriptor_seq := seq }
  | some version =>
      if p.state.isSome = true ∧ (version ≤ p.version ∨ seq < p.state_seq) then p
      else { p with state := some d, state_seq := seq, version := version }

/-- The part of `rr_object_cache_apply` for a property: `version` is that of a state. -/
def storeProperty (c : Cache D) (d : D) (uuid name : String) (seq : Nat) (version : Option Nat) : Bool × Cache D :=
  match c.findOrCreate r uuid with
  | none => (false, c)
  | some (o, c) =>
      if o.removed = true ∨ seq < o.seq then (true, c)
      else
        match property o name with
        | none => (false, c)
        | some (_, o) =>
            let properties := o.properties.map fun p => if p.name = name then store p d seq version else p
            (true, c.update uuid fun o => { o with properties := properties })

def applyProperty (c : Cache D) (d : D) (cmd uuid : String) (seq : Nat) : Bool × Cache D :=
  if cmd ≠ "descriptor" ∧ cmd ≠ "state" ∧ cmd ≠ "changed" then (false, c)
  else
    match (r.text d "property.name").filter r.nameValid, valueType ((r.text d "property.type").getD "") with
    | some name, some type =>
        if cmd = "descriptor" then
          if descriptorValid r d = true then c.storeProperty r d uuid name seq none else (false, c)
        else
          match stateVersion r d type with
          | none => (false, c)
          | some version => c.storeProperty r d uuid name seq (some version)
    | _, _ => (false, c)

/-! ### Frames -/

/-- `rr_object_cache_apply`. -/
def apply (c : Cache D) (d : D) : Bool × Cache D :=
  let family := (r.text d "msg.type").getD ""
  let object := decide (family = "object")
  if object = false ∧ family ≠ "property" then (false, c)
  else
    let cmd := (r.text d (if object then "object.cmd" else "property.cmd")).getD ""
    if cmd = "result" then (true, c)
    else
      match (r.text d "stream.epoch").filter r.uuidValid, r.seq d "stream.seq" with
      | some epoch, some seq =>
          let request := r.text d "request.id"
          if object = true ∧ cmd = "begin" then
            match request.filter fun id => id ≠ "" ∧ id.utf8ByteSize ≤ 64 with
            | none => (false, c)
            | some id => (true, { new with epoch := some epoch, request := some id })
          else if c.epoch ≠ some epoch then (false, c)
          else if request.isSome = true ∧ c.request ≠ request then (false, c)
          else if object = true ∧ cmd = "end" then
            if request.isNone = true then (false, c) else (true, { c with ready := true })
          else
            match (r.text d (if object then "object.uuid" else "target")).filter r.uuidValid with
            | none => (false, c)
            | some uuid => if object then c.applyObject r d cmd uuid seq else c.applyProperty r d cmd uuid seq
      | _, _ => (false, c)

/-- What is left of a cache that was handed these frames. -/
def applyAll (c : Cache D) (frames : List D) : Cache D := frames.foldl (fun c d => (c.apply r d).2) c

/-! ### Readers -/

/-- `rr_object_cache_object`. -/
def object (c : Cache D) (uuid : String) : Option D :=
  (c.find r (some uuid)).bind fun o => if o.removed = true then none else o.descriptor

/-- `rr_object_cache_property`. -/
def propertyOf (c : Cache D) (uuid name : String) (descriptor : Bool) : Option D :=
  (c.find r (some uuid)).bind fun o =>
    if o.removed = true then none
    else (o.properties.find? fun p => p.name == name).bind fun p => if descriptor then p.descriptor else p.state

/-- `rr_object_cache_count`. -/
def count (c : Cache D) : Nat := c.objects.countP fun o => !o.removed && o.descriptor.isSome

end Cache

end Objects

end RustyRig
