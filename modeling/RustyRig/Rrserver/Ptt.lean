/-
Keying the transmitter (`rrserver/ptt.c`).

A request goes to the backend of the rig that was picked for PTT.  Where that has a worker, the request is
queued there and completed later; `rr_ptt_request` then runs a second time, with `completing_ptt` set, and
only now the key-down counts.  Requests, completions, closed sessions and interlocks come in any order.

What answers from outside of this file (the queue of a worker, a transceiver without one, the accounting
database) is drawn from `luck`, one draw a question; zero is a failure.  A backend is named by the rig it
belongs to.  Recording, media, notices and the broadcast of the new state change nothing here.
-/
import Mathlib.Data.List.Basic

namespace RustyRig

namespace Ptt

abbrev Conn := Nat
abbrev Rig := Nat

/-- What does not change while the server runs. -/
structure Config where
  MAX_VFOS : Nat
  /-- `rr_server_rig_backend`: whether there is one, and whether it has a worker. -/
  backend : Rig → Option Bool
  /-- `whos_talking`, of the sessions and their `is_ptt`. -/
  whos_talking : List Conn → (Conn → Bool) → Option Conn
  chatname : Conn → String
  /-- `masterdb` is open. -/
  database : Bool

/-- `pending_ptt_t`; `id` stands for the pointer. -/
structure Pending where
  id : Nat
  radio : Rig
  owner : Option Conn
  vfo : Nat
  state : Bool
  failed : Bool
  superseded : Bool
  reason : String
deriving DecidableEq, Repr

/-- A row of `ptt_log`: who it is for, and its duration once it is closed. -/
structure Row where
  username : String
  duration : Option Nat
deriving DecidableEq, Repr

/-- `ptt_log_session` and `ptt_log_owner` of a VFO; no session is 0. -/
structure Slot where
  session : Nat
  owner : Option Conn
deriving DecidableEq, Repr

/-- A change of somebody's credits. -/
inductive Entry where
  | added (who : String) (credits : Int)
  | set (who : String) (credits : Int)
  | debited (session : Nat) (who : String) (secs : Nat)
deriving DecidableEq, Repr

/-- The accounting: its lock, the sessions, the tables of the database and what has changed in `tx_credits`,
the latest first. -/
structure Accounts where
  accounting_locked : Bool
  accounting_stop_pending : Bool
  slots : Nat → Slot
  ptt_session : Conn → Nat
  ptt_log : List Row
  tx_credits : String → Option Int
  entries : List Entry

/-- What the radios see of the code, and what it counts as transmitting. -/
inductive Event where
  /-- A key-down was handed to the worker. -/
  | asked (id : Nat) (radio : Rig) (vfo : Nat)
  /-- A release was accepted for the worker, or is on its way already. -/
  | off (radio : Rig) (vfo : Nat)
  /-- A key-down of a worker counts as transmitting. -/
  | confirmed (id : Nat) (radio : Rig) (vfo : Nat)
  /-- A transceiver without a worker was keyed, and counts as transmitting. -/
  | keyed (radio : Option Rig) (vfo : Nat)
  /-- A release is submitted for a key-down that does not count. -/
  | cancelled (id : Nat) (radio : Rig) (vfo : Nat)
deriving DecidableEq, Repr

structure World where
  clients : List Conn
  is_ptt : Conn → Bool
  ptt_rig : Option Rig
  default_rig : Option Rig
  halted : Rig → Bool
  /-- `rr_server_vfo_find_alias`. -/
  vfo_object : Rig → Nat → Bool
  /-- `rr_backend_vfo_supported`. -/
  vfo_supported : Rig → Nat → Bool
  strict : Bool
  enforce : Bool
  tot : Int
  dying : Bool
  now : Int
  tx_blocked : Bool
  retry_at : Nat
  global_tot_time : Int
  registered : Bool
  pending : List Pending
  completing : Option Pending
  made : Nat
  accounts : Accounts
  luck : Nat → Nat
  draws : Nat
  history : List Event

variable (c : Config)

def put {α : Type} (f : Nat → α) (i : Nat) (x : α) : Nat → α := fun j => if j = i then x else f j

/-- Whose credits change. -/
def Entry.who : Entry → String
  | .added who _ => who
  | .set who _ => who
  | .debited _ who _ => who

/-- What is left of them; no row is 0. -/
def Entry.left (credits : Int) : Entry → Int
  | .added _ more => credits + more
  | .set _ credits => credits
  | .debited _ _ secs => credits - secs

/-- `INSERT ... ON CONFLICT(name) DO UPDATE`, of `tx_credits`. -/
def Accounts.post (a : Accounts) (entry : Entry) : Accounts :=
  { a with
    tx_credits := fun name =>
      if name = entry.who then some (entry.left ((a.tx_credits name).getD 0)) else a.tx_credits name
    entries := entry :: a.entries }

namespace World

def draw (w : World) : Nat × World := (w.luck w.draws, { w with draws := w.draws + 1 })

/-- A question to the outside: whether it is answered well. -/
def ask (w : World) : Bool × World := (decide (w.draw.1 ≠ 0), w.draw.2)

def log (w : World) (e : Event) : World := { w with history := e :: w.history }

end World

open World

/-- `whos_talking`. -/
def whosTalking (w : World) : Option Conn := c.whos_talking w.clients w.is_ptt

/-- The rig a request is for. -/
def targetRig (w : World) : Option Rig := w.ptt_rig.orElse fun _ => w.default_rig

/-- `rr_rig_halted`. -/
def rigHalted (w : World) (radio : Option Rig) : Bool := radio.any w.halted

/-! ### Accounting -/

/-- `accounting_failed`. -/
def accountingFailed (w : World) : World :=
  if w.accounts.accounting_locked = true ∨ w.strict = false then w
  else { w with accounts := { w.accounts with accounting_locked := true, accounting_stop_pending := true } }

/-- A write to the accounting database; a failure is an event that `accounting_failed` handles. -/
def write (w : World) : Bool × World :=
  let answer := w.ask
  if answer.1 = true then answer else (false, accountingFailed answer.2)

/-- `rr_ptt_check_blocked`. -/
def checkBlocked (w : World) : Bool := w.tx_blocked || w.accounts.accounting_locked

/-- `rr_ptt_set_blocked`. -/
def setBlocked (w : World) (blocked : Bool) : World := { w with tx_blocked := blocked }

/-- A row of `ptt_log` is opened, for the VFO and the talker. -/
def Accounts.opened (a : Accounts) (talker : Conn) (username : String) (vfo : Nat) : Accounts :=
  let session := a.ptt_log.length + 1
  { a with
    ptt_log := a.ptt_log ++ [{ username := username, duration := none }]
    slots := put a.slots vfo { session := session, owner := some talker }
    ptt_session := put a.ptt_session talker session }

/-- `ptt_log_start`. -/
def logStart (w : World) (talker : Conn) (vfo : Nat) : World :=
  if c.database = false ∨ 0 < (w.accounts.slots vfo).session then w
  else
    let start := write w
    if start.1 = true then
      let w := start.2
      (write { w with accounts := w.accounts.opened talker (c.chatname talker) vfo }).2
    else start.2

/-- The row of a session is closed, if it was open. -/
def Accounts.closed (a : Accounts) (session secs : Nat) : Option Accounts :=
  match a.ptt_log[session - 1]? with
  | some { username, duration := none } =>
      some { a with ptt_log := a.ptt_log.set (session - 1) { username := username, duration := some secs } }
  | _ => none

/-- The end of `db_ptt_stop`, which may fail when the row is closed. -/
def releaseUsage (w : World) (secs : Nat) : Option Nat × World :=
  let release := write w
  (if release.1 = true then some secs else none, release.2)

/-- `db_ptt_stop`: the duration. -/
def dbStop (w : World) (session : Nat) : Option Nat × World :=
  let update := write w
  if update.1 = false then (none, update.2)
  else
    let secs := update.2.draw.1
    let w := update.2.draw.2
    match w.accounts.closed session secs with
    | none => (none, w)
    | some accounts => releaseUsage { w with accounts := accounts } secs

/-- `db_quota_spend`. -/
def quotaSpend (w : World) (session : Nat) (who : String) (secs : Nat) : World :=
  let spend := write w
  if spend.1 = true then { spend.2 with accounts := spend.2.accounts.post (.debited session who secs) }
  else spend.2

/-- `ptt_log_stop`, of a session: the row is closed, and its time is paid for. -/
def stopSession (w : World) (session : Nat) (talker : Option Conn) (reason : String) : World :=
  let stopped := dbStop w session
  match stopped.1 with
  | none => stopped.2
  | some secs =>
      let w := (write stopped.2).2
      match (talker.map c.chatname).orElse fun _ => w.accounts.ptt_log[session - 1]?.map Row.username with
      | none => w
      | some who =>
          if w.enforce = true ∧ 0 < secs ∧ reason ≠ "backend-error" then quotaSpend w session who secs else w

/-- The session of a VFO, or else that of the talker. -/
def Accounts.session (a : Accounts) (talker : Option Conn) (vfo : Nat) : Nat :=
  if (a.slots vfo).session = 0 then (talker.map a.ptt_session).getD 0 else (a.slots vfo).session

/-- `ptt_log_stop`. -/
def logStop (w : World) (talker : Option Conn) (vfo : Nat) (reason : String) : World :=
  if c.database = false then w
  else
    let a := w.accounts
    let talker := talker.orElse fun _ => (a.slots vfo).owner
    if a.session talker vfo = 0 then
      { w with accounts := { a with slots := put a.slots vfo { a.slots vfo with owner := none } } }
    else
      let stopped : Accounts :=
        { a with
          slots := put a.slots vfo { session := 0, owner := none }
          ptt_session := talker.elim a.ptt_session fun conn => put a.ptt_session conn 0 }
      stopSession c { w with accounts := stopped } (a.session talker vfo) talker reason

/-! ### Requests -/

/-- `rr_backend_worker_submit`, of PTT. -/
def submit (w : World) (radio : Rig) (state : Bool) : Bool × World :=
  if w.halted radio = true ∧ state = true then (true, w)
  else
    let answer := w.ask
    (!answer.1, answer.2)

/-- The loop over the requests that are pending; some answer ends the request. -/
def scanPending (radio : Rig) (vfo : Nat) (ptt : Bool) : Bool → List Pending → Option Bool
  | _, [] => none
  | seen, p :: pending =>
      if ptt = true ∧ p.state = false ∧ p.radio ≠ radio then some true
      else if p.radio = radio ∧ p.vfo = vfo ∧ seen = false then
        if ptt = false ∧ p.state = false then some false else scanPending radio vfo ptt true pending
      else scanPending radio vfo ptt seen pending

/-- A release supersedes the key-downs that are pending. -/
def supersede (radio : Rig) (vfo : Nat) (p : Pending) : Pending :=
  if p.radio = radio ∧ p.vfo = vfo ∧ p.state = true then { p with superseded := true } else p

/-- A request that the worker has accepted is pending. -/
def enqueue (w : World) (radio : Rig) (vfo : Nat) (ptt : Bool) (reason : String) : World :=
  let p : Pending :=
    { id := w.made, radio := radio, owner := whosTalking c w, vfo := vfo, state := ptt, failed := false,
      superseded := false, reason := reason }
  let pending := if ptt = true then w.pending else w.pending.map (supersede radio vfo)
  let w : World := { w with pending := p :: pending, made := w.made + 1 }
  w.log (if ptt then .asked p.id radio vfo else .off radio vfo)

/-- The part of `rr_ptt_request` that hands the request to a worker. -/
def workerRequest (w : World) (radio : Rig) (vfo : Nat) (ptt : Bool) (reason : String) : Bool × World :=
  let w : World := { w with registered := true }
  match scanPending radio vfo ptt false w.pending with
  | some failed => (failed, if failed then w else w.log (.off radio vfo))
  | none =>
      if w.vfo_object radio vfo = false then (true, w)
      else
        let submitted := submit w radio ptt
        if submitted.1 = true then (true, submitted.2) else (false, enqueue c submitted.2 radio vfo ptt reason)

/-- `rr_ptt_apply`; a failure is true. -/
def apply (w : World) (vfo : Nat) (state : Bool) : Bool × World :=
  match targetRig w with
  | none => (true, w)
  | some radio =>
      if (state = true ∧ w.halted radio = true) ∨ (c.backend radio).isNone = true ∨ w.vfo_object radio vfo = false then
        (true, w)
      else
        let answer := w.ask
        (!answer.1, answer.2)

/-- Whom a request is for: the owner of the one that is completed, or else who talks. -/
def pttTalker (w : World) : Option Conn := w.completing.elim (whosTalking c w) Pending.owner

/-- The key-down that counts now. -/
def keyDown (w : World) (vfo : Nat) : Event :=
  w.completing.elim (.keyed (targetRig w) vfo) fun p => .confirmed p.id p.radio p.vfo

/-- Whether the transceiver failed: it has answered the request that is completed, or else is asked now. -/
def answered (w : World) (vfo : Nat) (ptt : Bool) : Bool × World :=
  w.completing.elim (apply c w vfo ptt) fun p => (p.failed, w)

/-- The part of `rr_ptt_request` behind the workers. -/
def settle (allOff : World → Bool × World) (w : World) (vfo : Nat) (ptt : Bool) (reason : String) : Bool × World :=
  let talker := pttTalker c w
  if ptt = true ∧ w.accounts.accounting_locked = true then (true, w)
  else
    let answer := answered c w vfo ptt
    let w := answer.2
    if answer.1 = true then (true, if ptt = true then logStop c w talker vfo "backend-error" else w)
    else
      let w := if ptt = true then talker.elim w fun conn => logStart c w conn vfo else w
      if ptt = true ∧ w.accounts.accounting_locked = true then (true, (allOff w).2)
      else if ptt = true then
        (false, { w with global_tot_time := w.now + w.tot }.log (keyDown w vfo))
      else (false, logStop c { w with global_tot_time := 0 } talker vfo reason)

/-- `rr_ptt_request`, given what `rr_ptt_set_all_off_reason` does. -/
def requestWith (allOff : World → Bool × World) (w : World) (vfo : Nat) (ptt : Bool) (reason : String) : Bool × World :=
  if c.MAX_VFOS ≤ vfo then (true, w)
  else
    let w := if ptt = true ∧ w.strict = true ∧ c.database = false then accountingFailed w else w
    if ptt = true ∧ rigHalted w (targetRig w) = true then (true, w)
    else if ptt = true ∧ checkBlocked w = true then (true, w)
    else if ptt = true ∧ w.enforce = true ∧ c.database = true ∧
        ((whosTalking c w).any fun caller => decide ((w.accounts.tx_credits (c.chatname caller)).getD (-1) ≤ 0)) = true then (true, w)
    else
      match (targetRig w).filter fun radio => c.backend radio == some true, w.completing with
      | some radio, none => workerRequest c w radio vfo ptt reason
      | _, _ => settle c allOff w vfo ptt reason

/-- `rr_ptt_request` of a release; it forces no other. -/
def requestOff (w : World) (vfo : Nat) (reason : String) : Bool × World :=
  requestWith c (fun w => (true, w)) w vfo false reason

/-- The loop over the VFOs: whether any release failed. -/
def allOffLoop (radio : Option Rig) (reason : String) : List Nat → Bool → World → Bool × World
  | [], failed, w => (failed, w)
  | i :: vfos, failed, w =>
      if radio.any (fun r => !(w.vfo_object r i && w.vfo_supported r i)) = true then allOffLoop radio reason vfos failed w
      else
        let next := requestOff c w i reason
        allOffLoop radio reason vfos (failed || next.1) next.2

/-- `rr_ptt_set_all_off_reason`. -/
def allOff (reason : String) (w : World) : Bool × World :=
  let off := allOffLoop c (targetRig w) reason (List.range c.MAX_VFOS) false w
  if off.1 = true then off
  else
    let w : World := { off.2 with global_tot_time := 0 }
    match whosTalking c w with
    | none => (false, w)
    | some talker => (false, { w with is_ptt := put w.is_ptt talker false })

/-- `rr_ptt_request`. -/
def request (w : World) (vfo : Nat) (ptt : Bool) (reason : String) : Bool × World :=
  requestWith c (allOff c "accounting-failure") w vfo ptt reason

/-! ### Events -/

/-- `accounting_stop_pending` is set, or cleared. -/
def stopPending (w : World) (pending : Bool) : World :=
  { w with accounts := { w.accounts with accounting_stop_pending := pending } }

/-- `accounting_poll`. -/
def accountingPoll (w : World) (mono_us : Nat) : World :=
  if w.accounts.accounting_stop_pending = false ∨ (w.retry_at ≠ 0 ∧ mono_us < w.retry_at) then w
  else
    let off := allOff c "accounting-failure" w
    { stopPending off.2 off.1 with retry_at := if off.1 then mono_us + 1000000 else 0 }

/-- The part of `timer_clock_tick_fn` for the transmitter: too hot, or keyed for too long. -/
def clockTick (w : World) (now : Int) (hot : Bool) : World :=
  let w : World := { w with now := now }
  let w := if hot = true then setBlocked (allOff c "thermal" w).2 true else w
  if 0 < w.global_tot_time ∧ w.global_tot_time ≤ now then
    let w := (allOff c "timeout" w).2
    { w with global_tot_time := 0 }
  else w

/-- What a session that closes does to a pending request. -/
def disown (client : Conn) (p : Pending) : Pending :=
  if p.owner = some client then { p with owner := none, superseded := p.superseded || p.state } else p

/-- `ptt_worker_closed`, once it is registered. -/
def workerClosed (w : World) (client : Conn) : World :=
  if w.registered = false then w
  else
    let w : World := { w with pending := w.pending.map (disown client) }
    (List.range c.MAX_VFOS).foldl
      (fun w i =>
        if (w.accounts.slots i).owner = some client then
          let w := logStop c w (some client) i "disconnected"
          let a := w.accounts
          { w with accounts := { a with slots := put a.slots i { a.slots i with owner := none } } }
        else w) w

/-- A release that nothing waits for. -/
def cancel (w : World) (p : Pending) : World := (submit (w.log (.cancelled p.id p.radio p.vfo)) p.radio false).2

/-- A request is made once more, for the rig that it was for; the transceiver has answered. -/
def resumed (w : World) (p : Pending) (failed : Bool) : World :=
  { w with completing := some { p with failed := failed }, ptt_rig := some p.radio }

/-- The owner of a request does not transmit. -/
def ownerOff (w : World) (p : Pending) : World :=
  match p.owner with
  | none => w
  | some owner => { w with is_ptt := put w.is_ptt owner false }

/-- A completed request was rejected. -/
def rejected (w : World) (p : Pending) : World :=
  if p.state = true then ownerOff (cancel w p) p else setBlocked (stopPending w true) true

/-- A key-down that is completed has lost its owner, the talker or the rig. -/
def lost (w : World) (p : Pending) : Bool :=
  p.state && (p.owner.isNone || decide (whosTalking c w ≠ p.owner) || decide (w.ptt_rig ≠ some p.radio))

/-- `ptt_worker_completed`, of a request that is taken off the list. -/
def completed (w : World) (p : Pending) (failed : Bool) : World :=
  if w.dying = true ∨ p.superseded = true then w
  else if lost c w p = true then cancel w p
  else
    let answer := request c (resumed w p failed) p.vfo p.state p.reason
    let w : World := { answer.2 with ptt_rig := w.ptt_rig, completing := none }
    if answer.1 = true then rejected w p else w

/-- What happens: the calls of this file, and what changes around it.  Every request that a worker has accepted is
completed once; a completion of none that is pending does not exist, and changes nothing. -/
inductive Action where
  | request (vfo : Nat) (ptt : Bool) (reason : String)
  | allOff (reason : String)
  | completed (id : Nat) (failed : Bool)
  | closed (client : Conn)
  | accountingFailed
  | accountingPoll (mono_us : Nat)
  | setBlocked (blocked : Bool)
  | clockTick (now : Int) (hot : Bool)
  | posts (who : String) (credits : Int) (add : Bool)
  | connects (clients : List Conn)
  | talks (client : Conn) (is_ptt : Bool)
  | picks (ptt_rig default_rig : Option Rig)
  | halts (radio : Rig) (halted : Bool)
  | offers (vfo_object vfo_supported : Rig → Nat → Bool)
  | configures (strict enforce : Bool) (tot : Int)
  | dies

def step (w : World) : Action → World
  | .request vfo ptt reason => (request c w vfo ptt reason).2
  | .allOff reason => (allOff c reason w).2
  | .completed id failed =>
      match w.pending.find? fun p => p.id == id with
      | none => w
      | some p => completed c { w with pending := w.pending.filter fun q => q.id != id } p failed
  | .closed client => workerClosed c w client
  | .accountingFailed => accountingFailed w
  | .accountingPoll mono_us => accountingPoll c w mono_us
  | .setBlocked blocked => setBlocked w blocked
  | .clockTick now hot => clockTick c w now hot
  | .posts who credits add =>
      { w with accounts := w.accounts.post (if add then .added who credits else .set who credits) }
  | .connects clients => { w with clients := clients }
  | .talks client is_ptt => { w with is_ptt := put w.is_ptt client is_ptt }
  | .picks ptt_rig default_rig => { w with ptt_rig := ptt_rig, default_rig := default_rig }
  | .halts radio halted => { w with halted := put w.halted radio halted }
  | .offers vfo_object vfo_supported => { w with vfo_object := vfo_object, vfo_supported := vfo_supported }
  | .configures strict enforce tot => { w with strict := strict, enforce := enforce, tot := tot }
  | .dies => { w with dying := true }

/-- The accounting as the server starts, with an empty database. -/
def Accounts.new : Accounts where
  accounting_locked := false
  accounting_stop_pending := false
  slots := fun _ => { session := 0, owner := none }
  ptt_session := fun _ => 0
  ptt_log := []
  tx_credits := fun _ => none
  entries := []

/-- The server as it starts. -/
def World.start (luck : Nat → Nat) : World where
  clients := []
  is_ptt := fun _ => false
  ptt_rig := none
  default_rig := none
  halted := fun _ => false
  vfo_object := fun _ _ => false
  vfo_supported := fun _ _ => false
  strict := false
  enforce := true
  tot := 300
  dying := false
  now := 0
  tx_blocked := false
  retry_at := 0
  global_tot_time := 0
  registered := false
  pending := []
  completing := none
  made := 0
  accounts := Accounts.new
  luck := luck
  draws := 0
  history := []

def run (w : World) (actions : List Action) : World := actions.foldl (step c) w

end Ptt

end RustyRig
