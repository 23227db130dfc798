/-
Properties of a rig and of its VFOs.

A rig keeps a store of typed properties, and so does every VFO under it.  A store has a
version: each change of a property's value or availability takes the next one, and
clients resume from the last version they saw.

A call that allocates gets a flag which says whether there is memory, a call that emits a
second one for the event it builds.  A name is a string: NULL and the empty string find
nothing and define nothing alike.  Versions do not wrap here.
-/
import Mathlib.Algebra.Group.Int.Defs
import Mathlib.Algebra.Group.Nat.Defs
import Mathlib.Data.List.Basic
import Mathlib.Data.List.Nodup

namespace RustyRig

/-- `val_type_t`. -/
inductive ValType
  | str | int | uint | long | ulong | llong | ullong | float | bool | double | char | ptr | null
deriving DecidableEq, Repr

/-- `rr_property_type_supported`. -/
def ValType.supported : ValType → Bool
  | ptr | null => false
  | _ => true

/-- `dict_value_t` together with the member that is in use.  Floating point values are their
bit patterns. -/
inductive Value
  | str (s : Option String)
  | int (i : Int32)
  | uint (n : UInt32)
  | long (i : Int64)
  | ulong (n : UInt64)
  | llong (i : Int64)
  | ullong (n : UInt64)
  | float (bits : UInt32)
  | bool (i : Int32)
  | double (bits : UInt64)
  | char (c : UInt8)
  | ptr (address : UInt64)
  | null
deriving DecidableEq

/-- `==` on floating point numbers of `w` bits: no NaN equals anything and the zeros are equal. -/
def ieeeEq (w infinity a b : Nat) : Bool :=
  let magnitude := fun x : Nat => x % 2 ^ (w - 1)
  magnitude a ≤ infinity && magnitude b ≤ infinity &&
    (a == b || (magnitude a == 0 && magnitude b == 0))

namespace Value

def type : Value → ValType
  | str _ => .str
  | int _ => .int
  | uint _ => .uint
  | long _ => .long
  | ulong _ => .ulong
  | llong _ => .llong
  | ullong _ => .ullong
  | float _ => .float
  | bool _ => .bool
  | double _ => .double
  | char _ => .char
  | ptr _ => .ptr
  | null => .null

/-- The comparison of `rr_property_values_equal`. -/
def equal : Value → Value → Bool
  | str s, str t => s == t
  | int i, int j => i == j
  | bool i, bool j => i == j
  | uint m, uint n => m == n
  | long i, long j => i == j
  | ulong m, ulong n => m == n
  | llong i, llong j => i == j
  | ullong m, ullong n => m == n
  | float a, float b => ieeeEq 32 0x7F800000 a.toNat b.toNat
  | double a, double b => ieeeEq 64 0x7FF0000000000000 a.toNat b.toNat
  | char c, char d => c == d
  | _, _ => false

end Value

/-- `rr_property_descriptor_t`.  A bound with its `has_` flag unset is `none`. -/
structure Descriptor where
  name : String
  type : ValType
  readable : Bool
  writable : Bool
  unit : Option String
  minimum : Option Value
  maximum : Option Value
  step : Option Value
  enumValues : Option String
deriving DecidableEq

/-- `rr_rig_property_t`. -/
structure Property where
  schema : Descriptor
  name : String
  unit : Option String
  type : ValType
  readable : Bool
  writable : Bool
  observed : Bool
  known : Bool
  available : Bool
  value : Value
  version : Nat
  changedAt : Nat
deriving DecidableEq

namespace Property

/-- `rr_property_values_equal`. -/
def valuesEqual (p : Property) (v : Value) : Bool := p.known && p.value.equal v

/-- `rr_property_value_copy`: nothing when it fails. -/
def valueCopy (p : Property) (v : Value) (room : Bool) : Option Property :=
  match v with
  | .str none => none
  | .str (some _) => if room then some { p with value := v, known := true } else none
  | _ => some { p with value := v, known := true }

/-- The cleared property `rr_property_define_store` fills from a descriptor. -/
def ofDescriptor (d : Descriptor) : Property where
  schema := d
  name := d.name
  unit := d.unit
  type := d.type
  readable := d.readable
  writable := d.writable
  observed := false
  known := false
  available := false
  value := .null
  version := 0
  changedAt := 0

end Property

/-- A bound of the old schema against the new one. -/
def sameBound : Option Value → Option Value → Bool
  | none, none => true
  | some a, some b => a.equal b
  | _, _ => false

/-- The constraints a type cannot carry. -/
def Descriptor.invalid (d : Descriptor) : Bool :=
  d.name == "" || !d.type.supported || (d.enumValues.isSome && d.type != .str) ||
  ((d.minimum.isSome || d.maximum.isSome || d.step.isSome) && (d.type == .str || d.type == .bool)) ||
  (d.step.isSome && (d.type == .float || d.type == .double))

/-- The answer to a definition of a property that is there. -/
def Property.sameSchema (p : Property) (d : Descriptor) : Bool :=
  p.type == d.type && p.readable == d.readable && p.writable == d.writable && p.unit == d.unit &&
  p.schema.enumValues == d.enumValues && sameBound p.schema.minimum d.minimum &&
  sameBound p.schema.maximum d.maximum && sameBound p.schema.step d.step

/-- A property dictionary with the version of its owner. -/
structure Store where
  properties : List Property
  version : Nat
  nodup : (properties.map Property.name).Nodup

/-- `rr_property_update_t`. -/
inductive Update | error | unchanged | changed
deriving DecidableEq, Repr

namespace Store

def empty : Store := ⟨[], 0, List.nodup_nil⟩

/-- `rr_property_find_store`. -/
def find? (s : Store) (name : String) : Option Property := s.properties.find? (·.name == name)

/-- Writes through the pointer to the property of that name. -/
def put (s : Store) (p : Property) : Store where
  properties := s.properties.map fun q => if q.name = p.name then p else q
  version := s.version
  nodup := by
    have hnames : (s.properties.map fun q => if q.name = p.name then p else q).map Property.name =
        s.properties.map Property.name := by
      rw [List.map_map]
      refine List.map_congr_left fun q _ => ?_
      show (if q.name = p.name then p else q).name = q.name
      by_cases h : q.name = p.name
      · rw [if_pos h, h]
      · rw [if_neg h]
    rw [hnames]
    exact s.nodup

/-- `property->version = ++*version`, with the property's other writes. -/
def stamp (s : Store) (now : Nat) (p : Property) : Store :=
  { s.put { p with version := s.version + 1, changedAt := now } with version := s.version + 1 }

/-- `dict_add_ptr` of a name that is not there. -/
def insert (s : Store) (p : Property) (fresh : s.find? p.name = none) : Store where
  properties := s.properties ++ [p]
  version := s.version
  nodup := by
    rw [List.map_append, List.map_singleton, List.nodup_append]
    refine ⟨s.nodup, List.nodup_singleton _, fun a ha b hb heq => ?_⟩
    obtain ⟨q, hq, rfl⟩ := List.mem_map.mp ha
    rw [List.mem_singleton.mp hb] at heq
    exact absurd (beq_iff_eq.mpr heq) (by simpa using List.find?_eq_none.mp fresh q hq)

/-- `rr_property_define_store`: nothing when it fails. -/
def define (s : Store) (d : Descriptor) (room : Bool) : Option Store :=
  if d.invalid then none
  else
    match h : s.find? (Property.ofDescriptor d).name with
    | some existing => if existing.sameSchema d then some s else none
    | none => if room then some (s.insert (Property.ofDescriptor d) h) else none

/-- `rr_vfo_property_redefine`: the replacement is first defined in a dictionary of its own. -/
def redefine (s : Store) (d : Descriptor) (room : Bool) : Option Store :=
  match s.find? d.name with
  | none => s.define d room
  | some old =>
      if old.type ≠ d.type then none
      else
        match empty.define d room with
        | none => none
        | some temporary =>
            (temporary.find? d.name).map fun replacement =>
              s.put { old with
                schema := { replacement.schema with name := old.name }
                unit := replacement.unit
                readable := d.readable
                writable := d.writable }

/-- `rr_property_observe_store`.  No value is a NULL pointer. -/
def observe (s : Store) (now : Nat) (name : String) (value : Option Value) (room : Bool) :
    Update × Store :=
  match s.find? name, value with
  | some p, some v =>
      if p.type ≠ v.type then (.error, s)
      else if p.observed && p.available && p.valuesEqual v then (.unchanged, s)
      else
        match p.valueCopy v room with
        | none => (.error, s)
        | some q => (.changed, s.stamp now { q with observed := true, available := true })
  | _, _ => (.error, s)

/-- `rr_property_unavailable_store`. -/
def unavailable (s : Store) (now : Nat) (name : String) : Update × Store :=
  match s.find? name with
  | none => (.error, s)
  | some p =>
      if p.observed && !p.available then (.unchanged, s)
      else (.changed, s.stamp now { p with observed := true, available := false })

/-- `rr_property_describe_store`. -/
def describe (s : Store) (name : String) : Option Descriptor :=
  (s.find? name).map fun p =>
    { p.schema with
      name := p.name
      type := p.type
      readable := p.readable
      writable := p.writable
      unit := p.unit }

end Store

/-- `rr_property_snapshot_t`. -/
structure PropertySnapshot where
  valueType : ValType
  value : Value
  observed : Bool
  known : Bool
  available : Bool
  version : Nat
  changedAt : Nat
deriving DecidableEq

/-- `rr_property_read_store`. -/
def Store.read (s : Store) (name : String) : Option PropertySnapshot :=
  (s.find? name).map fun p =>
    ⟨p.type, p.value, p.observed, p.known, p.available, p.version, p.changedAt⟩

/-- `rr_vfo_lifecycle_t`. -/
inductive Lifecycle | persistent | ephemeral
deriving DecidableEq, Repr

/-- `rr_server_vfo_t`.  The handle stands for its address. -/
structure ServerVfo where
  handle : Nat
  id : String
  aliasName : String
  nativeId : String
  lifecycle : Lifecycle
  store : Store

/-- The native index behind a native id, as `rr_server_vfo_native_index` finds it.  `lookup` is
`vfo_lookup` of the protocol library, which answers `VFO_NONE` to a letter it does not know;
`strlen` counts bytes. -/
def nativeIndexOf (lookup : Char → Option Nat) (nativeId : String) : Option Nat :=
  match nativeId.toList with
  | [c] => if c.utf8Size = 1 then lookup c else none
  | _ => none

/-- `rr_server_vfo_native_index`. -/
def ServerVfo.nativeIndex (lookup : Char → Option Nat) (v : ServerVfo) : Option Nat :=
  nativeIndexOf lookup v.nativeId

/-- `rr_server_rig_t`, as far as its properties and VFOs go. -/
structure ServerRig where
  id : String
  name : String
  store : Store
  vfos : List ServerVfo
  vfoCount : Nat

/-- Whose store: the rig's own, or that of the VFO with this handle. -/
abbrev StoreKey := Option Nat

namespace ServerRig

/-- `rr_server_vfo_find_uuid`. -/
def findUuid (r : ServerRig) (uuid : String) : Option ServerVfo :=
  if uuid = "" then none else r.vfos.find? (·.id == uuid)

/-- `rr_server_vfo_find_alias`. -/
def findAlias (r : ServerRig) (aliasName : String) : Option ServerVfo :=
  if aliasName = "" then none else r.vfos.find? (·.aliasName == aliasName)

/-- The store behind a pointer. -/
def store? (r : ServerRig) : StoreKey → Option Store
  | none => some r.store
  | some h => (r.vfos.find? (·.handle == h)).map ServerVfo.store

def withStore (r : ServerRig) : StoreKey → Store → ServerRig
  | none, s => { r with store := s }
  | some h, s =>
      { r with vfos := r.vfos.map fun v => if v.handle = h then { v with store := s } else v }

end ServerRig

/-- `rr_property_parse_vfo`. -/
def parseVfo (name : String) : Option (Char × String) :=
  match name.toList with
  | 'v' :: 'f' :: 'o' :: '.' :: id :: '.' :: c :: rest =>
      if id.isAlpha then some (id.toUpper, String.ofList (c :: rest)) else none
  | _ => none

namespace ServerRig

/-- `rr_compat_vfo_property`: a rig property named `vfo.X.field` is the VFO's own. -/
def compatVfo (r : ServerRig) (name : String) : Option (ServerVfo × String) :=
  match parseVfo name with
  | none => none
  | some (id, field) => (r.findAlias (String.singleton id)).map (·, field)

/-- The store and the name a rig property lives under. -/
def locate (r : ServerRig) (name : String) : StoreKey × String :=
  match r.compatVfo name with
  | some (v, field) => (some v.handle, field)
  | none => (none, name)

/-- `rr_vfo_property_describe`. -/
def vfoPropertyDescribe (r : ServerRig) (vfo : Nat) (name : String) : Option Descriptor :=
  (r.store? (some vfo)).bind (·.describe name)

/-- `rr_rig_property_describe`. -/
def rigPropertyDescribe (r : ServerRig) (name : String) : Option Descriptor :=
  match r.compatVfo name with
  | some (v, field) => r.vfoPropertyDescribe v.handle field
  | none => r.store.describe name

/-- `rr_vfo_property_read`. -/
def vfoPropertyRead (r : ServerRig) (vfo : Nat) (name : String) : Option PropertySnapshot :=
  (r.store? (some vfo)).bind (·.read name)

/-- `rr_rig_property_read`. -/
def rigPropertyRead (r : ServerRig) (name : String) : Option PropertySnapshot :=
  match r.compatVfo name with
  | some (v, field) => r.vfoPropertyRead v.handle field
  | none => r.store.read name

end ServerRig

/-- Events on the bus. -/
inductive Notice
  | changed (owner : StoreKey) (property : Property)
  | schema (owner : StoreKey)
  | added (uuid : String)
  | removed (uuid : String)
deriving DecidableEq

/-- One version given out, for the record. -/
structure Assigned where
  owner : StoreKey
  name : String
  version : Nat
deriving DecidableEq

/-- A rig with what the bus saw, the number of VFOs made so far, and the versions given out,
latest first. -/
structure RigWorld where
  rig : ServerRig
  notices : List Notice
  made : Nat
  assigned : List Assigned

/-- What a caller is told. -/
inductive Reply | error | unchanged | changed | done
deriving DecidableEq, Repr

def Update.reply : Update → Reply
  | error => .error
  | unchanged => .unchanged
  | changed => .changed

namespace RigWorld

/-- `rr_server_rig_new`. -/
def new (id name : String) : RigWorld where
  rig := { id, name := if name = "" then id else name, store := .empty, vfos := [], vfoCount := 0 }
  notices := []
  made := 0
  assigned := []

/-- A definition in a store and, if it went through, the schema event. -/
def replaceStore (w : RigWorld) (owner : StoreKey) (f : Store → Option Store) : RigWorld × Reply :=
  match (w.rig.store? owner).bind f with
  | none => (w, .error)
  | some s => ({ w with rig := w.rig.withStore owner s, notices := .schema owner :: w.notices }, .done)

/-- `rr_property_emit`: without memory for the event nobody is told. -/
def emit (w : RigWorld) (owner : StoreKey) (p : Property) (told : Bool) : RigWorld :=
  if told then { w with notices := .changed owner p :: w.notices } else w

/-- An observation of a store's property and the event of its change. -/
def updateStore (w : RigWorld) (owner : StoreKey) (name : String) (told : Bool)
    (f : Store → Update × Store) : RigWorld × Reply :=
  match w.rig.store? owner with
  | none => (w, .error)
  | some s =>
      let w' := { w with rig := w.rig.withStore owner (f s).2 }
      match (f s).1, (f s).2.find? name with
      | .changed, some p =>
          ({ w' with assigned := ⟨owner, name, p.version⟩ :: w.assigned }.emit owner p told, .changed)
      | u, _ => (w', u.reply)

/-- `rr_vfo_property_define`. -/
def vfoPropertyDefine (w : RigWorld) (vfo : Nat) (d : Descriptor) (room : Bool) : RigWorld × Reply :=
  w.replaceStore (some vfo) (·.define d room)

/-- `rr_rig_property_define`. -/
def rigPropertyDefine (w : RigWorld) (d : Descriptor) (room : Bool) : RigWorld × Reply :=
  let (owner, name) := w.rig.locate d.name
  w.replaceStore owner (·.define { d with name } room)

/-- `rr_vfo_property_redefine`. -/
def vfoPropertyRedefine (w : RigWorld) (vfo : Nat) (d : Descriptor) (room : Bool) : RigWorld × Reply :=
  w.replaceStore (some vfo) (·.redefine d room)

/-- `rr_vfo_property_observe`. -/
def vfoPropertyObserve (w : RigWorld) (vfo now : Nat) (name : String) (value : Option Value)
    (room told : Bool) : RigWorld × Reply :=
  w.updateStore (some vfo) name told (·.observe now name value room)

/-- `rr_rig_property_observe`. -/
def rigPropertyObserve (w : RigWorld) (now : Nat) (name : String) (value : Option Value)
    (room told : Bool) : RigWorld × Reply :=
  let (owner, name) := w.rig.locate name
  w.updateStore owner name told (·.observe now name value room)

/-- `rr_vfo_property_unavailable`. -/
def vfoPropertyUnavailable (w : RigWorld) (vfo now : Nat) (name : String) (told : Bool) :
    RigWorld × Reply :=
  w.updateStore (some vfo) name told (·.unavailable now name)

/-- `rr_rig_property_unavailable`. -/
def rigPropertyUnavailable (w : RigWorld) (now : Nat) (name : String) (told : Bool) : RigWorld × Reply :=
  let (owner, name) := w.rig.locate name
  w.updateStore owner name told (·.unavailable now name)

/-- `rr_server_vfo_add`. -/
def vfoAdd (w : RigWorld) (uuid aliasName nativeId : String) (lifecycle : Lifecycle) (room : Bool) :
    RigWorld × Reply :=
  if uuid = "" ∨ aliasName = "" ∨ nativeId = "" ∨ (w.rig.findUuid uuid).isSome ∨
      (w.rig.findAlias aliasName).isSome ∨ room = false then (w, .error)
  else
    ({ w with
        rig := { w.rig with
          vfos := ⟨w.made, uuid, aliasName, nativeId, lifecycle, .empty⟩ :: w.rig.vfos
          vfoCount := w.rig.vfoCount + 1 }
        notices := .added uuid :: w.notices
        made := w.made + 1 }, .done)

/-- `rr_server_vfo_remove`. -/
def vfoRemove (w : RigWorld) (uuid : String) : RigWorld × Reply :=
  match w.rig.findUuid uuid with
  | none => (w, .error)
  | some v =>
      ({ w with
          rig := { w.rig with
            vfos := w.rig.vfos.eraseP (·.id == uuid)
            vfoCount := w.rig.vfoCount - 1 }
          notices := .removed v.id :: w.notices }, .done)

end RigWorld

/-- Whom a caller addresses: the rig, or a VFO it holds a pointer to. -/
inductive PropertyOp
  | rigDefine (d : Descriptor) (room : Bool)
  | vfoDefine (vfo : Nat) (d : Descriptor) (room : Bool)
  | vfoRedefine (vfo : Nat) (d : Descriptor) (room : Bool)
  | rigObserve (now : Nat) (name : String) (value : Option Value) (room told : Bool)
  | vfoObserve (vfo now : Nat) (name : String) (value : Option Value) (room told : Bool)
  | rigUnavailable (now : Nat) (name : String) (told : Bool)
  | vfoUnavailable (vfo now : Nat) (name : String) (told : Bool)
  | vfoAdd (uuid aliasName nativeId : String) (lifecycle : Lifecycle) (room : Bool)
  | vfoRemove (uuid : String)

namespace RigWorld

def step (w : RigWorld) : PropertyOp → RigWorld × Reply
  | .rigDefine d room => w.rigPropertyDefine d room
  | .vfoDefine vfo d room => w.vfoPropertyDefine vfo d room
  | .vfoRedefine vfo d room => w.vfoPropertyRedefine vfo d room
  | .rigObserve now name value room told => w.rigPropertyObserve now name value room told
  | .vfoObserve vfo now name value room told => w.vfoPropertyObserve vfo now name value room told
  | .rigUnavailable now name told => w.rigPropertyUnavailable now name told
  | .vfoUnavailable vfo now name told => w.vfoPropertyUnavailable vfo now name told
  | .vfoAdd uuid aliasName nativeId lifecycle room => w.vfoAdd uuid aliasName nativeId lifecycle room
  | .vfoRemove uuid => w.vfoRemove uuid

def run (w : RigWorld) (ops : List PropertyOp) : RigWorld := ops.foldl (fun w op => (w.step op).1) w

end RigWorld

end RustyRig

/-!
A control request for a property.

`rr_rig_control` of `rrserver/rig.properties.c` finds the property that is meant, checks the
value against its schema, and hands the request to the rig's handler.  Every integer type has the
same check, expanded with its member; here it is one function of the integers in the members.
The differences it takes are those of `unsigned long long`.
-/

namespace RustyRig

/-- The integer in a value, for the types that `CHECK_INTEGER` is expanded for.  The compiler says
whether `char` is signed. -/
def Value.integer (signed : Bool) : Value → Option Int
  | .int i => some i.toInt
  | .uint n => some n.toNat
  | .long i => some i.toInt
  | .ulong n => some n.toNat
  | .llong i => some i.toInt
  | .ullong n => some n.toNat
  | .char c => some (if signed then c.toInt8.toInt else c.toNat)
  | _ => none

/-- A bound, read through the member of the property's type, which is the one that was written. -/
def Value.member (signed : Bool) (type : ValType) (b : Value) : Int :=
  if b.type = type then (b.integer signed).getD 0 else 0

/-- `<` on floating point numbers of `w` bits. -/
def ieeeLt (w infinity a b : Nat) : Bool :=
  let magnitude := fun x : Nat => x % 2 ^ (w - 1)
  let number := fun x : Nat => if x < 2 ^ (w - 1) then (magnitude x : Int) else -(magnitude x : Int)
  magnitude a ≤ infinity && magnitude b ≤ infinity && decide (number a < number b)

namespace RigControl

/-- `rr_control_request_t`.  Rigs and VFOs are their addresses. -/
structure Request where
  rig : Option Nat
  vfo : Option Nat
  property : String
  value : Value
deriving DecidableEq

/-- `rr_control_result_t` as far as it is decided here, or the call of the handler. -/
inductive Result
  | invalid | notFound | readOnly | typeMismatch | unsupported
  | called (normalized : Request)
deriving DecidableEq

/-- What the pointers point to. -/
structure Memory where
  rig : Nat → ServerRig
  owner : Nat → Option Nat
  handler : Nat → Bool

/-- The distance from the first multiple. -/
def distance (v base : Int) : UInt64 :=
  if base ≤ v then UInt64.ofInt v - UInt64.ofInt base else UInt64.ofInt base - UInt64.ofInt v

/-- `CHECK_INTEGER`. -/
def checkInteger (v : Int) (minimum maximum step : Option Int) : Bool :=
  if minimum.any (v < ·) || maximum.any (· < v) then false
  else
    match step with
    | none => true
    | some s => if s ≤ 0 then false else distance v (minimum.getD 0) % UInt64.ofInt s = 0

/-- The check of a floating point number. -/
def checkFloat (w infinity : Nat) (v : Nat) (minimum maximum : Option Nat) : Bool :=
  !(minimum.any (ieeeLt w infinity v) || maximum.any (ieeeLt w infinity · v))

/-- The loop over the choices. -/
def enumFound (s : List Char) (p : List Char) (found : Bool) : Bool :=
  match p with
  | [] => found
  | c :: cs =>
      let p := (c :: cs).dropWhile (· = ' ')
      let word := p.takeWhile (· ≠ ' ')
      enumFound s (p.drop word.length) (found || (s ≠ [] && word = s))
termination_by p.length
decreasing_by
  by_cases hc : c = ' '
  · have hle := (List.dropWhile_sublist (l := cs) (fun x => decide (x = ' '))).length_le
    simp only [hc, List.dropWhile_cons, decide_true, if_true, List.length_drop, List.length_cons]
    omega
  · have hdrop : (c :: cs).dropWhile (fun x => decide (x = ' ')) = c :: cs := by simp [hc]
    have hword : (c :: cs).takeWhile (fun x => decide (x ≠ ' ')) =
        c :: cs.takeWhile (fun x => decide (x ≠ ' ')) := by simp [hc]
    simp only [hdrop, hword, List.length_drop, List.length_cons]
    omega

/-- The bits of a floating point bound. -/
def bits32 : Value → Nat
  | .float b => b.toNat
  | _ => 0

def bits64 : Value → Nat
  | .double b => b.toNat
  | _ => 0

/-- The check of the value against the schema. -/
def valueAllowed (signed : Bool) (p : Property) (v : Value) : Bool :=
  match v with
  | .float b =>
      checkFloat 32 0x7F800000 b.toNat (p.schema.minimum.map bits32) (p.schema.maximum.map bits32)
  | .double b =>
      checkFloat 64 0x7FF0000000000000 b.toNat (p.schema.minimum.map bits64)
        (p.schema.maximum.map bits64)
  | .str none => false
  | .str (some s) =>
      match p.schema.enumValues with
      | none => true
      | some e => enumFound s.toList e.toList false
  | v =>
      match v.integer signed with
      | none => true
      | some z =>
          checkInteger z (p.schema.minimum.map (·.member signed p.type))
            (p.schema.maximum.map (·.member signed p.type)) (p.schema.step.map (·.member signed p.type))

/-- The rig that a request is for. -/
def Memory.target (m : Memory) (r : Request) : Option Nat :=
  match r.vfo with
  | some v => m.owner v
  | none => r.rig

/-- The store and the name of the property in it. -/
def Memory.place (m : Memory) (rig : Nat) (r : Request) : StoreKey × String :=
  match r.vfo with
  | some v => (some v, r.property)
  | none => (m.rig rig).locate r.property

def Memory.find (m : Memory) (rig : Nat) (r : Request) : Option Property :=
  ((m.rig rig).store? (m.place rig r).1).bind (·.find? (m.place rig r).2)

/-- `rr_rig_control`. -/
def control (signed : Bool) (m : Memory) (r : Request) : Result :=
  if r.property = "" then .invalid
  else
    match m.target r with
    | none => .invalid
    | some rig =>
        if r.rig.any (· ≠ rig) then .invalid
        else
          match m.find rig r with
          | none => .notFound
          | some p =>
              if !p.writable then .readOnly
              else if p.type ≠ r.value.type then .typeMismatch
              else if !valueAllowed signed p r.value then .invalid
              else if !m.handler rig then .unsupported
              else .called ⟨some rig, (m.place rig r).1, (m.place rig r).2, r.value⟩

end RigControl

end RustyRig
