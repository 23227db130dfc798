/-
From the composition of a radio to its VFOs.

`rr_radio_config_prepare` checks the sections of `rrserver/cfg.radio.c` and turns them
into ordinary rig settings: a copy of the configuration which replaces it if every radio
passes.  `rr_configure_vfos` reads these back when the rigs are made and adds the VFOs one
by one.  A setting is a string under a string key all the way.

`cfg_get` of the library looks a key up in the configuration and then in the defaults.
The sizes of the legacy hardware tables come from a generated header, `vfo_lookup` from the
protocol library, and UUIDs from the database; these are parameters.
-/
import RustyRig.Rrserver.Dict
import RustyRig.Rrserver.Identity
import RustyRig.Rrserver.Link
import RustyRig.Rrserver.RigProperties

namespace RustyRig

namespace RadioConfig

/-- `cfg` and `default_cfg`. -/
structure Config where
  cfg : Dict
  defaults : Dict

/-- `cfg_get`. -/
def Config.get (c : Config) (key : String) : Option String := (c.cfg.get? key).or (c.defaults.get? key)

/-- `get`: a field of a section. -/
def Config.field (c : Config) (section' field : String) : Option String :=
  c.get (section' ++ "." ++ field)

/-- `rr_rig_config_alias_valid`. -/
def aliasValid (s : String) : Bool :=
  s ≠ "" && s.toList.all fun c => c.isAlphanum || c == '_' || c == '-'

/-- `g_strsplit_set` on blanks and commas; the empty string has no token at all. -/
def strsplit (s : String) : List String :=
  if s = "" then [] else (s.toList.splitOnP Links.separator).map String.ofList

/-- The tokens without the empty ones, which the loops skip. -/
def tokens (s : String) : List String := (strsplit s).filter (· ≠ "")

/-- The key of a rig's own setting. -/
def rigKey (radio key : String) : String := "rig:" ++ radio ++ "." ++ key

/-- `strncmp` against a head of known length. -/
def startsWith (s head : String) : Bool := head.toList.isPrefixOf s.toList

/-- What follows the first colon. -/
def afterColon (s : String) : Option String :=
  match s.toList.dropWhile (· != ':') with
  | [] => none
  | _ :: rest => some (String.ofList rest)

/-! ### Components -/

/-- `groups`, in its order. -/
inductive Group
  | oscillators | gpio | filters | tuners | amps
deriving DecidableEq, Repr

namespace Group

def all : List Group := [oscillators, gpio, filters, tuners, amps]

def name : Group → String
  | oscillators => "oscillators"
  | gpio => "gpio"
  | filters => "filters"
  | tuners => "tuners"
  | amps => "amps"

/-- `kinds`. -/
def kind : Group → String
  | oscillators => "oscillator"
  | gpio => "gpio"
  | filters => "filter"
  | tuners => "tuner"
  | amps => "amplifier"

/-- The section of the legacy hardware of a group. -/
def legacy : Group → Option String
  | filters => some "filter:"
  | tuners => some "tuner:"
  | amps => some "amp:"
  | _ => none

end Group

/-- `append`: a token of a list, once. -/
def append (target : Dict) (key value : String) : Dict :=
  let old := (target.get? key).getD ""
  if value ∈ tokens old then target
  else target.add key (old ++ (if old = "" then "" else " ") ++ value)

/-- `reserve`: a component belongs to one radio. -/
def reserve (owners : Dict) (id radio : String) : Option Dict :=
  match owners.get? id with
  | some old => if old = radio then some (owners.add id radio) else none
  | none => some (owners.add id radio)

/-- `number`.  The bounds lie within what `errno` reports. -/
def number (s : Option String) (low high : Int) : Bool :=
  match s with
  | none => false
  | some s => s ≠ "" && (Identity.asciiStrtoll s).2.isEmpty &&
      decide (low ≤ (Identity.asciiStrtoll s).1) && decide ((Identity.asciiStrtoll s).1 ≤ high)

/-- The sizes of the legacy tables: `RR_MAX_FILTERS`, `RR_MAX_ATUS` and `RR_MAX_AMPS`.  One less
is taken as `unsigned`. -/
abbrev Limits := Group → Nat

/-- The configuration being made, and the owners of what it uses. -/
structure Draft where
  out : Dict
  owners : Dict

def booleanOrUnset (value : Option String) : Bool :=
  value.all fun v => v == "true" || v == "false"

/-- The end of `component`: a filter, tuner or amplifier of the legacy tables. -/
def legacyComponent (limits : Limits) (c : Config) (radio : String) (group : Group) (d : Draft)
    (id : String) : Option Draft :=
  match group.legacy with
  | none => none
  | some head =>
      let index := c.field id "index"
      if !startsWith id head then none
      else if !number index 0 ((limits group + (2 ^ 32 - 1)) % 2 ^ 32 : Nat) then none
      else
        (reserve d.owners (head ++ toString (Identity.asciiStrtoll (index.getD "")).1) radio).map
          fun owners => ⟨append d.out "hardware.legacy" id, owners⟩

/-- `component`. -/
def component (limits : Limits) (c : Config) (radio : String) (group : Group) (d : Draft)
    (id : String) : Option Draft :=
  match afterColon id with
  | none => none
  | some name =>
      if !aliasValid name then none
      else
        match reserve d.owners id radio with
        | none => none
        | some owners =>
            if startsWith id "dummy:" then
              if c.field id "kind" = some group.kind && booleanOrUnset (c.field id "fail-claim") &&
                  booleanOrUnset (c.field id "fail-write") then
                some ⟨append d.out "hardware.dummy" name, owners⟩
              else none
            else if group = .oscillators && startsWith id "si5351:" && (c.field id "bus").isSome then
              some ⟨append d.out "hardware.si5351" name, owners⟩
            else if group = .gpio && startsWith id "gpio:" && (c.field id "chip").isSome &&
                (c.field id "offset").isSome then
              some ⟨append d.out "hardware.gpio-lines" name, owners⟩
            else legacyComponent limits c radio group ⟨d.out, owners⟩ id

/-! ### VFOs -/

/-- The settings of a VFO that are copied, with the check each has to pass. -/
def vfoFields : List (String × (Option String → Bool)) :=
  [("oscillator", fun _ => true), ("output", fun _ => true),
    ("frequency-hz", fun v => number v 1 1000000000),
    ("offset-hz", fun v => number v (-1000000000) 1000000000),
    ("multiplier", fun v => number v (-16) 16 && (Identity.asciiStrtoll (v.getD "")).1 != 0)]

/-- The slot of a VFO section, if it has a valid one. -/
def slotOf (c : Config) (name : String) : Option Char :=
  match (c.field ("vfo:" ++ name) "slot").map String.toList with
  | some [s] => if 'A' ≤ s ∧ s ≤ 'Z' then some s else none
  | _ => none

/-- `vfo.SLOT.KEY`. -/
def slotKey (slot : Char) (key : String) : String := "vfo." ++ String.singleton slot ++ "." ++ key

/-- Whether the oscillator of a VFO is bound to its radio and has the output. -/
def oscillatorFits (c : Config) (out : Dict) (radio id : String) : Bool :=
  match c.field id "oscillator" with
  | some osc =>
      (strsplit (out.get (rigKey radio "bind.oscillators") "")).contains osc &&
        number (c.field id "output") 0 (if startsWith osc "si5351:" then 2 else 7)
  | none => (c.field id "output").isNone && (c.field id "offset-hz").isNone &&
      (c.field id "multiplier").isNone

/-- The copying of a VFO's settings. -/
def copyFields (c : Config) (radio id : String) (slot : Char) (out : Dict) : Option Dict :=
  vfoFields.foldlM (fun out f =>
    match c.field id f.1 with
    | none => some out
    | some value =>
        if f.2 (some value) then some (out.add (rigKey radio (slotKey slot f.1)) value) else none) out

/-- One turn of the loop of `vfos`; `slots` are the letters taken, which `mask` and the joined
string both stand for. -/
def vfo (c : Config) (radio : String) (st : Draft × List Char) (name : String) :
    Option (Draft × List Char) :=
  let id := "vfo:" ++ name
  match slotOf c name, reserve st.1.owners id radio with
  | some slot, some owners =>
      if !aliasValid name || st.2.contains slot then none
      else
        let out := st.1.out.add (rigKey radio (slotKey slot "config-id")) name
        let out := out.add (rigKey radio (slotKey slot "title")) ((c.field id "title").getD name)
        if !oscillatorFits c out radio id then none
        else (copyFields c radio id slot out).map fun out => (⟨out, owners⟩, st.2 ++ [slot])
  | _, _ => none

/-- The letters, blank between them. -/
def joined (slots : List Char) : String := String.ofList (slots.intersperse ' ')

/-- `vfos`. -/
def vfos (c : Config) (radio : String) (d : Draft) : Option Draft :=
  match (tokens ((c.field ("radio:" ++ radio) "vfos").getD "")).foldlM (vfo c radio) (d, []) with
  | none => none
  | some (d, slots) =>
      if slots.isEmpty then none
      else some ⟨d.out.add (rigKey radio "vfos") (joined slots), d.owners⟩

/-! ### Radios -/

/-- The ordinary settings of a radio that are kept. -/
def kept (field : String) : Bool :=
  field == "room" || startsWith field "audio." || startsWith field "hamlib."

/-- The field that a key of the configuration sets in a section. -/
def fieldOf (section' key : String) : Option String :=
  if startsWith key (section' ++ ".") then
    some (String.ofList (key.toList.drop (section'.length + 1)))
  else none

def keepSettings (c : Config) (radio : String) (out : Dict) : Dict :=
  c.cfg.entries.foldl (fun out e =>
    match fieldOf ("radio:" ++ radio) e.1 with
    | some field => if kept field then out.add (rigKey radio field) e.2 else out
    | none => out) out

/-- The components of one group. -/
def bindGroup (limits : Limits) (c : Config) (radio backend : String) (d : Draft) (group : Group) :
    Option Draft :=
  let refs := c.field ("radio:" ++ radio) group.name
  if refs.isSome && backend != "internal" then none
  else
    ((tokens (refs.getD "")).foldlM (component limits c radio group) d).map fun d =>
      ⟨d.out.add (rigKey radio ("bind." ++ group.name)) (refs.getD ""), d.owners⟩

/-- The rig settings of a radio before its components. -/
def settings (c : Config) (radio : String) (out : Dict) : Dict :=
  keepSettings c radio
    ((out.add (rigKey radio "backend") ((c.field ("radio:" ++ radio) "backend").getD "internal")).add
      (rigKey radio "name") ((c.field ("radio:" ++ radio) "name").getD radio))

/-- One turn of the loop of `rr_radio_config_prepare`. -/
def prepareRadio (limits : Limits) (c : Config) (st : Draft × List String) (radio : String) :
    Option (Draft × List String) :=
  if !aliasValid radio || st.2.contains radio then none
  else
    let backend := (c.field ("radio:" ++ radio) "backend").getD "internal"
    match Group.all.foldlM (bindGroup limits c radio backend)
        ⟨settings c radio st.1.out, st.1.owners⟩ with
    | none => none
    | some d => (vfos c radio d).map fun d => (d, st.2 ++ [radio])

/-- The radios of a configuration. -/
def radios (c : Config) : List String := tokens ((c.get "radio.instances").getD "")

/-- The default radio. -/
def defaultRadio (c : Config) (seen : List String) : Option String :=
  match c.get "radio.default" with
  | some d => if d = "" then (if seen.length = 1 then seen.head? else none) else some d
  | none => if seen.length = 1 then seen.head? else none

/-- `rr_radio_config_prepare`: the configuration that it leaves, if it accepts. -/
def prepare (limits : Limits) (c : Config) : Option Config :=
  match c.get "radio.instances" with
  | none => some c
  | some list =>
      if list = "" then some c
      else
        match (tokens list).foldlM (prepareRadio limits c) (⟨c.cfg, .empty⟩, []) with
        | none => none
        | some (d, seen) =>
            match defaultRadio c seen with
            | none => none
            | some dflt =>
                if !seen.contains dflt then none
                else some ⟨(d.out.add "rig.instances" list).add "rig.default" dflt, c.defaults⟩

/-- What `rr_radio_config_prepare` answers, and the configuration that is then in force: the copy that it
has made takes the place of the configuration at its end, and is dropped where it fails. -/
def prepareConfig (limits : Limits) (c : Config) : Bool × Config :=
  match prepare limits c with
  | some c' => (true, c')
  | none => (false, c)

/-- A VFO of a composition: its section, its slot and its title. -/
structure Member where
  name : String
  slot : Char
  title : Option String
deriving DecidableEq, Repr

/-- The VFOs of a radio's composition. -/
def members (c : Config) (radio : String) : List Member :=
  (tokens ((c.field ("radio:" ++ radio) "vfos").getD "")).filterMap fun name =>
    (slotOf c name).map fun slot => ⟨name, slot, c.field ("vfo:" ++ name) "title"⟩

/-! ### The VFOs of a rig -/

/-- `rr_rig_config_get`: a key that does not fit its buffer is not found. -/
def rigConfigGet (c : Config) (radio key : String) : Option String :=
  if aliasValid radio && key ≠ "" && decide ((rigKey radio key).utf8ByteSize < 256) then
    c.get (rigKey radio key)
  else none

/-- What the server's VFO configuration depends on besides the settings: the UUID of a VFO
identity, `vfo_lookup`, the backend's `vfo_supported` if it has one, which looks at no more than
the alias and the native index, and whether there is memory. -/
structure Env where
  uuid : String → Option String
  lookup : Char → Option Nat
  check : Option (String → Option Nat → Bool)
  room : Bool

/-- `rr_backend_vfo_supported`. -/
def Env.vfoSupported (env : Env) (v : ServerVfo) : Bool :=
  env.check.all fun f => f v.aliasName (v.nativeIndex env.lookup)

/-- `be_internal_vfo_supported`. -/
def beInternalVfoSupported (maxVfos : Nat) (data : Bool) (_ : String) (index : Option Nat) : Bool :=
  data && index.any (· < maxVfos)

/-- The descriptors of `rr_rig_define_vfo_properties`. -/
def vfoDescriptors : List Descriptor :=
  [⟨"frequency", .long, true, true, some "Hz", some (.long 1), some (.long 2147483647),
      some (.long 1), none⟩,
    ⟨"mode", .str, true, true, none, none, none, none, none⟩,
    ⟨"width", .int, true, false, some "Hz", none, none, none, none⟩,
    ⟨"split", .int, true, false, none, none, none, none, none⟩]

/-- `rr_rig_define_vfo_properties`. -/
def defineVfoProperties (w : RigWorld) (aliasName : String) (room : Bool) : Option RigWorld :=
  match w.rig.findAlias aliasName with
  | none => none
  | some v =>
      vfoDescriptors.foldlM (fun w d =>
        if (w.vfoPropertyDefine v.handle d room).2 = .error then none
        else some (w.vfoPropertyDefine v.handle d room).1) w

/-- A VFO of `rr_configure_vfos`, with its letter in upper case. -/
def addVfo (env : Env) (c : Config) (radio : String) (w : RigWorld) (slot : Char) :
    Option RigWorld :=
  let aliasName := String.singleton slot
  let configId := rigConfigGet c radio (slotKey slot "config-id")
  let title := rigConfigGet c radio (slotKey slot "title")
  match env.uuid (configId.getD aliasName) with
  | none => none
  | some uuid =>
      let (w, reply) := w.vfoAdd uuid aliasName (title.getD aliasName) .persistent env.room
      if reply = .done && w.rig.vfos.head?.any env.vfoSupported then
        defineVfoProperties w aliasName env.room
      else none

/-- One turn of the loop of `rr_configure_vfos`; `earlier` are the tokens before, the first
letter of each in upper case. -/
def configureVfo (env : Env) (c : Config) (radio : String) (st : RigWorld × List String)
    (token : String) : Option (RigWorld × List String) :=
  match token.toList with
  | [ch] =>
      if !ch.isAlpha || st.2.contains token then none
      else (addVfo env c radio st.1 ch.toUpper).map fun w =>
        (w, st.2 ++ [String.singleton ch.toUpper])
  | _ => none

/-- `rr_configure_vfos`: the rig with its VFOs, if all of them could be made. -/
def configureVfos (env : Env) (c : Config) (w : RigWorld) (radio : String) : Option RigWorld :=
  match rigConfigGet c radio "vfos" with
  | none => none
  | some configured =>
      match (tokens configured).foldlM (configureVfo env c radio) (w, []) with
      | none => none
      | some (w, added) => if added.isEmpty then none else some w

end RadioConfig

end RustyRig
