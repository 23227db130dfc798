/-
Keying is safe in every run.

A step either keeps what is held of the pending requests (`Keeps`), and counts no key-down, or it counts one
that was clear (`Counted`).  A key-down that counts was asked for, is counted once, and no release of its VFO
was accepted behind it; the release that was there first has superseded it.
-/
import Mathlib.Data.List.Nodup
import RustyRig.Lib.Chronicle
import RustyRig.Proofs.Ptt.Accounting

namespace RustyRig

namespace Ptt

open Lib World

variable {c : Config} {w w' w'' : World} {p : Pending} {e : Event} {h : List Event} {id made : Nat} {radio : Rig} {vfo : Nat}

/-! ### What has happened -/

/-- The key-down that an event is about. -/
def Event.ident : Event → Option Nat
  | .asked id _ _ => some id
  | .confirmed id _ _ => some id
  | _ => none

/-- A key-down counts. -/
def Event.keys : Event → Bool
  | .confirmed _ _ _ => true
  | .keyed _ _ => true
  | _ => false

/-- A key-down was asked for, and the VFO was not released since. -/
def Asked (id : Nat) (radio : Rig) (vfo : Nat) (h : List Event) : Prop :=
  ∃ newer older, h = newer ++ .asked id radio vfo :: older ∧ .off radio vfo ∉ newer

/-- A key-down was asked for, and the VFO was released since. -/
def Released (id : Nat) (radio : Rig) (vfo : Nat) (h : List Event) : Prop :=
  ∃ newer older, h = newer ++ .asked id radio vfo :: older ∧ .off radio vfo ∈ newer

def Unconfirmed (id : Nat) (h : List Event) : Prop := ∀ radio vfo, Event.confirmed id radio vfo ∉ h

/-- What may follow: a new request, and a key-down that was asked for and neither released nor counted since. -/
def Permitted (older : List Event) : Event → Prop
  | .asked id _ _ => ∀ radio vfo, .asked id radio vfo ∉ older
  | .confirmed id radio vfo => Asked id radio vfo older ∧ Unconfirmed id older
  | _ => True

theorem Asked.log (hasked : Asked id radio vfo h) (hoff : e ≠ .off radio vfo) : Asked id radio vfo (e :: h) := by
  obtain ⟨newer, older, rfl, hnone⟩ := hasked
  exact ⟨e :: newer, older, rfl, fun hmem => (List.mem_cons.mp hmem).elim (fun heq => hoff heq.symm) hnone⟩

theorem Asked.released (hasked : Asked id radio vfo h) : Released id radio vfo (.off radio vfo :: h) := by
  obtain ⟨newer, older, rfl, -⟩ := hasked
  exact ⟨_ :: newer, older, rfl, List.mem_cons_self⟩

theorem Released.log (hreleased : Released id radio vfo h) : Released id radio vfo (e :: h) := by
  obtain ⟨newer, older, rfl, hmem⟩ := hreleased
  exact ⟨e :: newer, older, rfl, List.mem_cons_of_mem e hmem⟩

theorem Unconfirmed.log (hnone : Unconfirmed id h) (he : ∀ radio vfo, e ≠ .confirmed id radio vfo) :
    Unconfirmed id (e :: h) := by
  intro radio vfo hmem
  rcases List.mem_cons.mp hmem with heq | hold
  · exact he radio vfo heq.symm
  · exact hnone radio vfo hold

/-! ### The pending requests -/

/-- A release is behind every key-down that still stands. -/
def Outdates (newer older : Pending) : Prop :=
  newer.state = false → older.state = true → older.radio = newer.radio → older.vfo = newer.vfo → older.superseded = true

/-- What is held of one pending request. -/
structure Held (made : Nat) (h : List Event) (p : Pending) : Prop where
  known : p.id < made
  unconfirmed : Unconfirmed p.id h
  stands : p.state = true → p.superseded = false → Asked p.id p.radio p.vfo h
  left : p.superseded = true → p.state = true ∧ (p.owner = none ∨ Released p.id p.radio p.vfo h)

/-- The pending requests, the latest first, agree with what has happened. -/
structure Sound (pending : List Pending) (made : Nat) (h : List Event) : Prop where
  held : ∀ p ∈ pending, Held made h p
  once : (pending.map Pending.id).Nodup
  order : pending.Pairwise Outdates
  named : ∀ e ∈ h, ∀ id, e.ident = some id → id < made
  lawful : Lawful Permitted h

theorem sound_start : Sound [] 0 [] where
  held _ hp := absurd hp List.not_mem_nil
  once := List.nodup_nil
  order := List.Pairwise.nil
  named _ he := absurd he List.not_mem_nil
  lawful := Lawful.nil

variable {pending : List Pending}

/-- An event that is about no key-down and releases nothing. -/
theorem Held.log (hp : Held made h p) (hident : ∀ radio vfo, e ≠ .confirmed p.id radio vfo)
    (hoff : p.state = true → p.superseded = false → e ≠ .off p.radio p.vfo) : Held made (e :: h) p where
  known := hp.known
  unconfirmed := hp.unconfirmed.log hident
  stands hstate hlive := (hp.stands hstate hlive).log (hoff hstate hlive)
  left hleft := ⟨(hp.left hleft).1, (hp.left hleft).2.imp_right Released.log⟩

theorem Sound.log (hs : Sound pending made h) (hident : ∀ id radio vfo, e ≠ .confirmed id radio vfo)
    (hasked : e.ident = none)
    (hoff : ∀ p ∈ pending, p.state = true → p.superseded = false → e ≠ .off p.radio p.vfo) :
    Sound pending made (e :: h) where
  held p hp := (hs.held p hp).log (hident p.id) (hoff p hp)
  once := hs.once
  order := hs.order
  named x hx id heq := by
    rcases List.mem_cons.mp hx with rfl | hold
    · rw [hasked] at heq
      exact absurd heq (Option.some_ne_none id).symm
    · exact hs.named x hold id heq
  lawful := hs.lawful.cons (by
    cases e with
    | asked id radio vfo => exact absurd hasked (Option.some_ne_none id)
    | confirmed id radio vfo => exact absurd rfl (hident id radio vfo)
    | off => trivial
    | keyed => trivial
    | cancelled => trivial)

theorem Sound.filter (hs : Sound pending made h) (keep : Pending → Bool) : Sound (pending.filter keep) made h where
  held p hp := hs.held p (List.mem_of_mem_filter hp)
  once := hs.once.sublist (List.filter_sublist.map Pending.id)
  order := hs.order.filter keep
  named := hs.named
  lawful := hs.lawful

/-- Requests are superseded, or lose their owner. -/
theorem Sound.map (hs : Sound pending made h) {f : Pending → Pending} {h' : List Event}
    (hid : ∀ p, (f p).id = p.id) (hstate : ∀ p, (f p).state = p.state) (hradio : ∀ p, (f p).radio = p.radio)
    (hvfo : ∀ p, (f p).vfo = p.vfo) (hsuperseded : ∀ p, p.superseded = true → (f p).superseded = true)
    (hheld : ∀ p ∈ pending, Held made h' (f p)) (hnamed : ∀ e ∈ h', ∀ id, e.ident = some id → id < made)
    (hlawful : Lawful Permitted h') : Sound (pending.map f) made h' where
  held p hp := by
    obtain ⟨q, hq, rfl⟩ := List.mem_map.mp hp
    exact hheld q hq
  once := by
    have hsame : (pending.map f).map Pending.id = pending.map Pending.id := by
      rw [List.map_map]
      exact List.map_congr_left fun p _ => hid p
    rw [hsame]
    exact hs.once
  order := by
    rw [List.pairwise_map]
    refine hs.order.imp fun {newer older} hout => ?_
    unfold Outdates at hout ⊢
    rw [hstate, hstate, hradio, hradio, hvfo, hvfo]
    exact fun h₁ h₂ h₃ h₄ => hsuperseded older (hout h₁ h₂ h₃ h₄)
  named := hnamed
  lawful := hlawful

/-- The latest request is pending, too. -/
theorem Sound.cons (hs : Sound pending made h) (hid : p.id = made) (hp : Held (made + 1) h p)
    (hout : ∀ older ∈ pending, Outdates p older) : Sound (p :: pending) (made + 1) h where
  held q hq := by
    rcases List.mem_cons.mp hq with rfl | hold
    · exact hp
    · exact { hs.held q hold with known := Nat.lt_succ_of_lt (hs.held q hold).known }
  once := by
    refine List.nodup_cons.mpr ⟨fun hmem => ?_, hs.once⟩
    obtain ⟨q, hq, hsame⟩ := List.mem_map.mp hmem
    exact absurd (hs.held q hq).known (by omega)
  order := List.pairwise_cons.mpr ⟨hout, hs.order⟩
  named e he id heq := Nat.lt_succ_of_lt (hs.named e he id heq)
  lawful := hs.lawful

/-- A key-down is asked for. -/
theorem Sound.ask (hs : Sound pending made h) (hid : p.id = made) (hstate : p.state = true)
    (hlive : p.superseded = false) : Sound (p :: pending) (made + 1) (.asked made p.radio p.vfo :: h) := by
  have hnew : ∀ e ∈ h, e.ident ≠ some made := fun e he heq => Nat.lt_irrefl made (hs.named e he made heq)
  have hunconfirmed : Unconfirmed made h := fun radio vfo hmem => hnew _ hmem rfl
  refine ⟨?_, ?_, List.pairwise_cons.mpr ⟨fun older _ hoff => absurd hstate (by rw [hoff]; exact Bool.false_ne_true), hs.order⟩,
    ?_, hs.lawful.cons fun radio vfo hmem => hnew _ hmem rfl⟩
  · intro q hq
    rcases List.mem_cons.mp hq with rfl | hold
    · subst hid
      exact
        { known := Nat.lt_succ_self _
          unconfirmed := hunconfirmed.log fun _ _ => Event.noConfusion
          stands := fun _ _ => ⟨[], h, rfl, List.not_mem_nil⟩
          left := fun hleft => absurd hleft (by rw [hlive]; exact Bool.false_ne_true) }
    · have hold' : Held made (.asked made p.radio p.vfo :: h) q :=
        (hs.held q hold).log (fun _ _ => Event.noConfusion) fun _ _ => Event.noConfusion
      exact { hold' with known := Nat.lt_succ_of_lt hold'.known }
  · refine List.nodup_cons.mpr ⟨fun hmem => ?_, hs.once⟩
    obtain ⟨q, hq, hsame⟩ := List.mem_map.mp hmem
    exact absurd (hs.held q hq).known (by omega)
  · intro e he id heq
    rcases List.mem_cons.mp he with rfl | hold
    · exact Nat.lt_succ_of_le (Nat.le_of_eq (Option.some.inj heq).symm)
    · exact Nat.lt_succ_of_lt (hs.named e hold id heq)

/-- A release that is on its way is the latest request of its VFO. -/
theorem scan_released {ptt seen : Bool} (hscan : scanPending radio vfo ptt seen pending = some false) :
    seen = false ∧ ∃ front q back, pending = front ++ q :: back ∧ (∀ x ∈ front, ¬ (x.radio = radio ∧ x.vfo = vfo)) ∧
      q.radio = radio ∧ q.vfo = vfo ∧ q.state = false := by
  induction pending generalizing seen with
  | nil => exact absurd hscan (Option.some_ne_none false).symm
  | cons p pending ih =>
      unfold scanPending at hscan
      split_ifs at hscan with hother hmatch hreleased
      · exact absurd (Option.some.inj hscan) Bool.noConfusion
      · exact ⟨hmatch.2.2, [], p, pending, rfl, fun _ hx => absurd hx List.not_mem_nil, hmatch.1, hmatch.2.1, hreleased.2⟩
      · exact absurd (ih hscan).1 Bool.noConfusion
      · obtain ⟨hseen, front, q, back, hsplit, hfront, hq⟩ := ih hscan
        refine ⟨hseen, p :: front, q, back, by rw [hsplit, List.cons_append], ?_, hq⟩
        intro x hx
        rcases List.mem_cons.mp hx with rfl | hold
        · exact fun hmatched => hmatch ⟨hmatched.1, hmatched.2, hseen⟩
        · exact hfront x hold

theorem Sound.waiting (hs : Sound pending made h) {ptt : Bool}
    (hscan : scanPending radio vfo ptt false pending = some false) : Sound pending made (.off radio vfo :: h) := by
  obtain ⟨-, front, q, back, rfl, hfront, hradio, hvfo, hstate⟩ := scan_released hscan
  refine hs.log (fun _ _ _ => Event.noConfusion) rfl fun p hp hon hlive heq => ?_
  injection heq with hsameradio hsamevfo
  rcases List.mem_append.mp hp with hin | hin
  · exact hfront p hin ⟨hsameradio.symm, hsamevfo.symm⟩
  · rcases List.mem_cons.mp hin with rfl | hback
    · exact absurd hon (by rw [hstate]; exact Bool.false_ne_true)
    · -- the key-downs behind the release were superseded by it
      have hout : Outdates q p := (List.pairwise_cons.mp (List.pairwise_append.mp hs.order).2.1).1 p hback
      have hsuperseded := hout hstate hon (hsameradio.symm.trans hradio.symm) (hsamevfo.symm.trans hvfo.symm)
      rw [hlive] at hsuperseded
      exact Bool.noConfusion hsuperseded

theorem supersede_eq (radio : Rig) (vfo : Nat) (p : Pending) : supersede radio vfo p = p ∨
    (p.radio = radio ∧ p.vfo = vfo ∧ p.state = true ∧ supersede radio vfo p = { p with superseded := true }) := by
  unfold supersede
  split_ifs with hmatch
  · exact Or.inr ⟨hmatch.1, hmatch.2.1, hmatch.2.2, rfl⟩
  · exact Or.inl rfl

/-- A release is accepted: the key-downs of its VFO do not stand any more. -/
theorem Sound.release (hs : Sound pending made h) :
    Sound (pending.map (supersede radio vfo)) made (.off radio vfo :: h) := by
  have hkept : ∀ (P : Pending → Prop), (∀ q, P q → P { q with superseded := true }) → ∀ q, P q → P (supersede radio vfo q) := by
    intro P hP q hq
    rcases supersede_eq radio vfo q with heq | ⟨-, -, -, heq⟩
    · rw [heq]; exact hq
    · rw [heq]; exact hP q hq
  refine hs.map (fun q => hkept (fun x => x.id = q.id) (fun _ hx => hx) q rfl)
    (fun q => hkept (fun x => x.state = q.state) (fun _ hx => hx) q rfl)
    (fun q => hkept (fun x => x.radio = q.radio) (fun _ hx => hx) q rfl)
    (fun q => hkept (fun x => x.vfo = q.vfo) (fun _ hx => hx) q rfl)
    (fun q hq => hkept (fun x => x.superseded = true) (fun _ _ => rfl) q hq) ?_ ?_ (hs.lawful.cons trivial)
  · intro q hq
    have hheld := hs.held q hq
    unfold supersede
    split_ifs with hmatch
    · obtain ⟨rfl, rfl, hstate⟩ := hmatch
      refine ⟨hheld.known, hheld.unconfirmed.log fun _ _ => Event.noConfusion,
        fun _ hlive => absurd hlive Bool.noConfusion, fun _ => ⟨hstate, ?_⟩⟩
      cases hleft : q.superseded with
      | true => exact (hheld.left hleft).2.imp_right Released.log
      | false => exact Or.inr (hheld.stands hstate hleft).released
    · refine hheld.log (fun _ _ => Event.noConfusion) fun hstate _ heq => ?_
      injection heq with hsameradio hsamevfo
      exact hmatch ⟨hsameradio.symm, hsamevfo.symm, hstate⟩
  · intro e he id heq
    rcases List.mem_cons.mp he with rfl | hold
    · exact absurd heq (Option.some_ne_none id).symm
    · exact hs.named e hold id heq

theorem sound_enqueue (ptt : Bool) (reason : String) (hs : Sound w.pending w.made w.history) :
    Sound (enqueue c w radio vfo ptt reason).pending (enqueue c w radio vfo ptt reason).made
      (enqueue c w radio vfo ptt reason).history := by
  cases ptt with
  | true => exact Sound.ask hs rfl rfl rfl
  | false =>
      refine Sound.cons hs.release rfl ⟨Nat.lt_succ_self _, ?_, fun hon => absurd hon Bool.noConfusion,
        fun hleft => absurd hleft Bool.noConfusion⟩ ?_
      · exact fun radio vfo hmem => Nat.lt_irrefl _ (hs.release.named _ hmem w.made rfl)
      · intro older hmem _ hon hsameradio hsamevfo
        obtain ⟨q, -, rfl⟩ := List.mem_map.mp hmem
        rcases supersede_eq radio vfo q with heq | ⟨-, -, -, heq⟩
        · rw [heq] at hon hsameradio hsamevfo ⊢
          have hmatch := congrArg Pending.superseded heq
          unfold supersede at hmatch
          rw [if_pos ⟨hsameradio, hsamevfo, hon⟩] at hmatch
          exact hmatch.symm
        · rw [heq]

/-! ### What counts no key-down -/

/-- No key-down counts, and what is held of the pending requests and of the accounts stays. -/
structure Keeps (w w' : World) : Prop where
  grows : ∃ newer, w'.history = newer ++ w.history ∧ ∀ e ∈ newer, e.keys = false
  sound : Sound w.pending w.made w.history → Sound w'.pending w'.made w'.history
  better : Better w.accounts w'.accounts
  completing : w'.completing = w.completing

namespace Keeps

theorem refl (w : World) : Keeps w w := ⟨⟨[], rfl, fun _ he => absurd he List.not_mem_nil⟩, id, Better.refl _, rfl⟩

theorem trans (hk : Keeps w w') (hk' : Keeps w' w'') : Keeps w w'' where
  grows := by
    obtain ⟨newer, heq, hkeys⟩ := hk.grows
    obtain ⟨newer', heq', hkeys'⟩ := hk'.grows
    refine ⟨newer' ++ newer, by rw [heq', heq, List.append_assoc], fun e he => ?_⟩
    exact (List.mem_append.mp he).elim (hkeys' e) (hkeys e)
  sound hs := hk'.sound (hk.sound hs)
  better := hk.better.trans hk'.better
  completing := hk'.completing.trans hk.completing

/-- The requests and what has happened are as before. -/
theorem same (hpending : w'.pending = w.pending) (hmade : w'.made = w.made) (hhistory : w'.history = w.history)
    (hcompleting : w'.completing = w.completing) (hbetter : Better w.accounts w'.accounts) : Keeps w w' where
  grows := ⟨[], hhistory, fun _ he => absurd he List.not_mem_nil⟩
  sound hs := by rw [hpending, hmade, hhistory]; exact hs
  better := hbetter
  completing := hcompleting

theorem aside (haside : Aside w w') : Keeps w w' := by
  obtain ⟨a, draws, hbetter, rfl⟩ := haside
  exact same rfl rfl rfl rfl hbetter

/-- Only the pending requests change. -/
theorem requests (hs : Sound w.pending w.made w.history → Sound pending w.made w.history) :
    Keeps w { w with pending := pending } where
  grows := ⟨[], rfl, fun _ he => absurd he List.not_mem_nil⟩
  sound := hs
  better := Better.refl _
  completing := rfl

theorem log (hkeys : e.keys = false)
    (hs : Sound w.pending w.made w.history → Sound w.pending w.made (e :: w.history)) : Keeps w (w.log e) where
  grows := ⟨[e], rfl, fun x hx => by rw [List.mem_singleton.mp hx]; exact hkeys⟩
  sound := hs
  better := Better.refl _
  completing := rfl

end Keeps

theorem aside_submit (w : World) (radio : Rig) (state : Bool) : Aside w (submit w radio state).2 := by
  unfold submit
  dsimp only
  split_ifs
  · exact Aside.refl w
  · exact aside_draw w

theorem aside_apply (w : World) (vfo : Nat) (state : Bool) : Aside w (apply c w vfo state).2 := by
  unfold apply
  split
  · exact Aside.refl w
  · dsimp only
    split_ifs
    · exact Aside.refl w
    · exact aside_draw w

theorem aside_answered (w : World) (vfo : Nat) (state : Bool) : Aside w (answered c w vfo state).2 := by
  unfold answered
  cases w.completing with
  | none => exact aside_apply w vfo state
  | some p => exact Aside.refl w

theorem keeps_enqueue (w : World) (ptt : Bool) (reason : String) : Keeps w (enqueue c w radio vfo ptt reason) where
  grows := by
    cases ptt with
    | true => exact ⟨[.asked w.made radio vfo], rfl, fun x hx => by rw [List.mem_singleton.mp hx]; rfl⟩
    | false => exact ⟨[.off radio vfo], rfl, fun x hx => by rw [List.mem_singleton.mp hx]; rfl⟩
  sound := sound_enqueue ptt reason
  better := Better.refl _
  completing := rfl

theorem keeps_workerRequest (w : World) (ptt : Bool) (reason : String) :
    Keeps w (workerRequest c w radio vfo ptt reason).2 := by
  have hregistered : Keeps w { w with registered := true } := Keeps.same rfl rfl rfl rfl (Better.refl _)
  unfold workerRequest
  dsimp only
  split
  · rename_i failed hscan
    cases failed with
    | true => exact hregistered
    | false => exact hregistered.trans (Keeps.log rfl fun hs => hs.waiting hscan)
  · have hsubmitted := hregistered.trans (Keeps.aside (aside_submit _ radio ptt))
    split_ifs
    · exact hregistered
    · exact hsubmitted
    · exact hsubmitted.trans (keeps_enqueue _ ptt reason)

/-! ### Requests -/

variable {off : World → Bool × World}

/-- A release. -/
theorem keeps_settle_off (w : World) (vfo : Nat) (reason : String) : Keeps w (settle c off w vfo false reason).2 := by
  have hanswered : Keeps w (answered c w vfo false).2 := Keeps.aside (aside_answered w vfo false)
  unfold settle
  simp only [Bool.false_eq_true, false_and, if_false]
  split_ifs
  · exact hanswered
  · refine hanswered.trans (Keeps.trans (Keeps.same ?_ ?_ ?_ ?_ ?_) (Keeps.aside (aside_logStop _ _ vfo reason)))
    · rfl
    · rfl
    · rfl
    · rfl
    · exact Better.refl _

/-- A key-down counts, in `w'`: the lock is open, and the time that it may last is set. -/
structure Counts (w : World) (e : Event) (w' : World) : Prop where
  history : w'.history = e :: w.history
  pending : w'.pending = w.pending
  made : w'.made = w.made
  completing : w'.completing = w.completing
  better : Better w.accounts w'.accounts
  unlocked : w'.accounts.accounting_locked = false
  timed : w'.global_tot_time = w.now + w.tot

/-- A key-down counts if the transceiver takes it, or has taken it, and the accounting does not fail. -/
theorem settle_on (hoff : ∀ w, Keeps w (off w).2) (w : World) (vfo : Nat) (reason : String) :
    ((settle c off w vfo true reason).1 = true ∧ Keeps w (settle c off w vfo true reason).2) ∨
      ((settle c off w vfo true reason).1 = false ∧ (∀ p, w.completing = some p → p.failed = false) ∧
        Counts w (keyDown w vfo) (settle c off w vfo true reason).2) := by
  have hanswered : Aside w (answered c w vfo true).2 := aside_answered w vfo true
  have hstarted : Aside w ((pttTalker c w).elim (answered c w vfo true).2 fun conn =>
      logStart c (answered c w vfo true).2 conn vfo) := by
    cases pttTalker c w with
    | none => exact hanswered
    | some conn => exact hanswered.trans (aside_logStart _ conn vfo)
  unfold settle
  simp only [true_and, if_true]
  split_ifs with hlocked hfailed hfell
  · exact Or.inl ⟨rfl, Keeps.refl w⟩
  · exact Or.inl ⟨rfl, (Keeps.aside hanswered).trans (Keeps.aside (aside_logStop _ _ vfo _))⟩
  · exact Or.inl ⟨rfl, (Keeps.aside hstarted).trans (hoff _)⟩
  · refine Or.inr ⟨rfl, fun p hp => ?_, ?_⟩
    · unfold answered at hfailed
      rw [hp] at hfailed
      exact Bool.eq_false_iff.mpr hfailed
    · obtain ⟨a, draws, hbetter, heq⟩ := hstarted
      rw [heq] at hfell ⊢
      exact ⟨rfl, rfl, rfl, rfl, hbetter, Bool.eq_false_iff.mpr hfell, rfl⟩

/-- What a key-down needs: the rig it is for is not halted, nothing blocks it, and who talks can pay. -/
structure Clear (c : Config) (w : World) : Prop where
  running : rigHalted w (targetRig w) = false
  unblocked : w.tx_blocked = false
  unlocked : w.accounts.accounting_locked = false
  paid : w.enforce = true → c.database = true → ∀ caller, whosTalking c w = some caller →
    ∃ credits, w.accounts.tx_credits (c.chatname caller) = some credits ∧ 0 < credits

theorem keeps_requestWith_off (w : World) (vfo : Nat) (reason : String) :
    Keeps w (requestWith c off w vfo false reason).2 := by
  unfold requestWith
  simp only [Bool.false_eq_true, false_and, if_false]
  split_ifs
  · exact Keeps.refl w
  · split
    · exact keeps_workerRequest w false reason
    · exact keeps_settle_off w vfo reason

/-- A key-down goes to the worker, or fails, or counts; it counts only where it is clear. -/
theorem requestWith_on (hoff : ∀ w, Keeps w (off w).2) (w : World) (vfo : Nat) (reason : String) :
    ((w.completing = none ∨ (requestWith c off w vfo true reason).1 = true) ∧
        Keeps w (requestWith c off w vfo true reason).2) ∨
      ((requestWith c off w vfo true reason).1 = false ∧ Clear c w ∧ (∀ p, w.completing = some p → p.failed = false) ∧
        Counts w (keyDown w vfo) (requestWith c off w vfo true reason).2) := by
  unfold requestWith
  simp only [true_and]
  by_cases hvfo : c.MAX_VFOS ≤ vfo
  · rw [if_pos hvfo]
    exact Or.inl ⟨Or.inr rfl, Keeps.refl w⟩
  · rw [if_neg hvfo]
    by_cases hstrict : w.strict = true ∧ c.database = false
    · -- with no database a strict accounting is locked here, if it was not before
      have hlocked : checkBlocked (accountingFailed w) = true := by
        unfold checkBlocked accountingFailed
        split_ifs with hdone
        · rcases hdone with hdone | hdone
          · rw [hdone, Bool.or_true]
          · rw [hstrict.1] at hdone
            exact Bool.noConfusion hdone
        · exact Bool.or_true _
      rw [if_pos hstrict]
      split_ifs with hhalted
      · exact Or.inl ⟨Or.inr rfl, Keeps.aside (aside_accountingFailed w)⟩
      · exact Or.inl ⟨Or.inr rfl, Keeps.aside (aside_accountingFailed w)⟩
    · rw [if_neg hstrict]
      split_ifs with hhalted hblocked hbroke
      · exact Or.inl ⟨Or.inr rfl, Keeps.refl w⟩
      · exact Or.inl ⟨Or.inr rfl, Keeps.refl w⟩
      · exact Or.inl ⟨Or.inr rfl, Keeps.refl w⟩
      · have hclear : Clear c w := by
          unfold checkBlocked at hblocked
          rw [Bool.not_eq_true, Bool.or_eq_false_iff] at hblocked
          refine ⟨Bool.eq_false_iff.mpr hhalted, hblocked.1, hblocked.2, fun henforce hdatabase caller hcaller => ?_⟩
          have hpaid : ¬ (w.accounts.tx_credits (c.chatname caller)).getD (-1) ≤ 0 := by
            intro hle
            refine hbroke ⟨henforce, hdatabase, ?_⟩
            rw [hcaller]
            exact decide_eq_true hle
          cases hcredits : w.accounts.tx_credits (c.chatname caller) with
          | none =>
              rw [hcredits] at hpaid
              exact absurd (by decide : (-1 : Int) ≤ 0) hpaid
          | some credits =>
              rw [hcredits] at hpaid
              exact ⟨credits, rfl, Int.not_le.mp hpaid⟩
        split
        · rename_i hcompleting
          exact Or.inl ⟨Or.inl hcompleting, keeps_workerRequest w true reason⟩
        · rcases settle_on hoff w vfo reason with ⟨hfailed, hkeeps⟩ | ⟨hdone, hanswer, hcounts⟩
          · exact Or.inl ⟨Or.inr hfailed, hkeeps⟩
          · exact Or.inr ⟨hdone, hclear, hanswer, hcounts⟩

/-! ### Everything off -/

theorem keeps_allOffLoop (target : Option Rig) (reason : String) (vfos : List Nat) (failed : Bool) (w : World) :
    Keeps w (allOffLoop c target reason vfos failed w).2 := by
  induction vfos generalizing failed w with
  | nil => exact Keeps.refl w
  | cons i vfos ih =>
      unfold allOffLoop
      dsimp only
      split_ifs
      · exact ih failed w
      · exact (keeps_requestWith_off w i reason).trans (ih _ _)

theorem keeps_allOff (reason : String) (w : World) : Keeps w (allOff c reason w).2 := by
  have hloop := keeps_allOffLoop (c := c) (targetRig w) reason (List.range c.MAX_VFOS) false w
  unfold allOff
  dsimp only
  split_ifs
  · exact hloop
  · split
    · exact hloop.trans (Keeps.same rfl rfl rfl rfl (Better.refl _))
    · exact hloop.trans (Keeps.same rfl rfl rfl rfl (Better.refl _))

theorem keeps_accountingPoll (w : World) (mono_us : Nat) : Keeps w (accountingPoll c w mono_us) := by
  unfold accountingPoll
  dsimp only
  split_ifs
  · exact Keeps.refl w
  · exact ((keeps_allOff _ w).trans (Keeps.aside (aside_stopPending _ _))).trans (Keeps.same rfl rfl rfl rfl (Better.refl _))
  · exact ((keeps_allOff _ w).trans (Keeps.aside (aside_stopPending _ _))).trans (Keeps.same rfl rfl rfl rfl (Better.refl _))

theorem keeps_clockTick (w : World) (now : Int) (hot : Bool) : Keeps w (clockTick c w now hot) := by
  have hnow : Keeps w { w with now := now } := Keeps.same rfl rfl rfl rfl (Better.refl _)
  have hcooled : Keeps w (if hot = true then setBlocked (allOff c "thermal" { w with now := now }).2 true
      else { w with now := now }) := by
    split_ifs
    · exact (hnow.trans (keeps_allOff _ _)).trans (Keeps.same rfl rfl rfl rfl (Better.refl _))
    · exact hnow
  unfold clockTick
  dsimp only
  split_ifs at hcooled ⊢
  · exact (hcooled.trans (keeps_allOff _ _)).trans (Keeps.same rfl rfl rfl rfl (Better.refl _))
  · exact hcooled
  · exact (hcooled.trans (keeps_allOff _ _)).trans (Keeps.same rfl rfl rfl rfl (Better.refl _))
  · exact hcooled

/-! ### Sessions that close -/

theorem Sound.disown (hs : Sound pending made h) (client : Conn) : Sound (pending.map (disown client)) made h := by
  have hkept : ∀ (P : Pending → Prop),
      (∀ q, P q → P { q with owner := none, superseded := q.superseded || q.state }) →
      ∀ q, P q → P (Ptt.disown client q) := by
    intro P hP q hq
    unfold Ptt.disown
    split_ifs
    · exact hP q hq
    · exact hq
  refine hs.map (fun q => hkept (fun x => x.id = q.id) (fun _ hx => hx) q rfl)
    (fun q => hkept (fun x => x.state = q.state) (fun _ hx => hx) q rfl)
    (fun q => hkept (fun x => x.radio = q.radio) (fun _ hx => hx) q rfl)
    (fun q => hkept (fun x => x.vfo = q.vfo) (fun _ hx => hx) q rfl)
    (fun q hq => hkept (fun x => x.superseded = true) (fun x hx => by rw [hx, Bool.true_or]) q hq) ?_ hs.named hs.lawful
  intro q hq
  refine hkept (Held made h) (fun x hx => ?_) q (hs.held q hq)
  refine ⟨hx.known, hx.unconfirmed, fun hstate hlive => ?_, fun hleft => ?_⟩
  · exact hx.stands hstate (Bool.or_eq_false_iff.mp hlive).1
  · refine ⟨?_, Or.inl rfl⟩
    rcases Bool.or_eq_true_iff.mp hleft with hold | hstate
    · exact (hx.left hold).1
    · exact hstate

theorem keeps_workerClosed (w : World) (client : Conn) : Keeps w (workerClosed c w client) := by
  unfold workerClosed
  dsimp only
  split_ifs
  · exact Keeps.refl w
  · refine Keeps.trans (Keeps.requests fun hs => hs.disown client) ?_
    generalize ({ w with pending := w.pending.map (disown client) } : World) = w₀
    induction List.range c.MAX_VFOS generalizing w₀ with
    | nil => exact Keeps.refl w₀
    | cons i vfos ih =>
        rw [List.foldl_cons]
        refine Keeps.trans ?_ (ih _)
        split_ifs
        · exact (Keeps.aside (aside_logStop w₀ (some client) i _)).trans
            (Keeps.aside (aside_accounts ⟨id, fun hb => hb.congr rfl rfl rfl⟩))
        · exact Keeps.refl w₀

/-! ### Completions -/

theorem keeps_cancel (w : World) (p : Pending) : Keeps w (cancel w p) := by
  have hlogged : Keeps w (w.log (.cancelled p.id p.radio p.vfo)) :=
    Keeps.log rfl fun hs => hs.log (fun _ _ _ => Event.noConfusion) rfl fun _ _ _ _ => Event.noConfusion
  exact hlogged.trans (Keeps.aside (aside_submit _ p.radio false))

theorem cancel_history (w : World) (p : Pending) : (cancel w p).history = .cancelled p.id p.radio p.vfo :: w.history := by
  obtain ⟨a, draws, -, heq⟩ := aside_submit (w.log (.cancelled p.id p.radio p.vfo)) p.radio false
  unfold cancel
  rw [heq]
  rfl

/-- A release is submitted for the key-down. -/
def Cancelled (w : World) (p : Pending) (w' : World) : Prop :=
  ∃ newer, w'.history = newer ++ w.history ∧ .cancelled p.id p.radio p.vfo ∈ newer

theorem cancelled_cancel (hk : Keeps w w') : Cancelled w p (cancel w' p) := by
  obtain ⟨newer, heq, -⟩ := hk.grows
  exact ⟨.cancelled p.id p.radio p.vfo :: newer, by rw [cancel_history, heq, List.cons_append], List.mem_cons_self⟩

/-- A key-down of a worker that counts when it is completed. -/
structure Confirms (c : Config) (w : World) (p : Pending) : Prop where
  alive : w.dying = false
  standing : p.superseded = false
  on : p.state = true
  owned : p.owner.isSome = true
  talks : whosTalking c w = p.owner
  picked : w.ptt_rig = some p.radio
  clear : Clear c w

theorem keeps_ownerOff (w : World) (p : Pending) : Keeps w (ownerOff w p) := by
  unfold ownerOff
  split
  · exact Keeps.refl w
  · exact Keeps.same rfl rfl rfl rfl (Better.refl _)

theorem ownerOff_history (w : World) (p : Pending) : (ownerOff w p).history = w.history := by
  unfold ownerOff
  split
  · rfl
  · rfl

theorem keeps_rejected (w : World) (p : Pending) : Keeps w (rejected w p) := by
  unfold rejected
  split_ifs
  · exact (keeps_cancel w p).trans (keeps_ownerOff _ p)
  · exact (Keeps.aside (aside_stopPending w true)).trans (Keeps.same rfl rfl rfl rfl (Better.refl _))

/-- A request that is made once more returns. -/
theorem keeps_returned {failed : Bool} (hidle : w.completing = none) (hk : Keeps (resumed w p failed) w') :
    Keeps w { w' with ptt_rig := w.ptt_rig, completing := none } :=
  ⟨hk.grows, hk.sound, hk.better, hidle.symm⟩

/-- A release that failed is refused. -/
theorem request_failed (w : World) (p : Pending) (reason : String) :
    (request c (resumed w p true) p.vfo false reason).1 = true := by
  unfold request requestWith
  simp only [Bool.false_eq_true, false_and, if_false]
  split_ifs
  · rfl
  · split
    · rename_i hnone
      exact absurd hnone (Option.some_ne_none _)
    · rfl

/-- A server that lives waits for a request that nothing has superseded. -/
theorem not_done (halive : w.dying = false) (hlive : p.superseded = false) : ¬ (w.dying = true ∨ p.superseded = true) := by
  rw [halive, hlive]
  exact fun hdone => hdone.elim Bool.false_ne_true Bool.false_ne_true

/-- The completion of a release: one that failed blocks the transmitter. -/
theorem completed_off (w : World) (p : Pending) (failed : Bool) (hidle : w.completing = none) (hoff : p.state = false) :
    Keeps w (completed c w p failed) ∧
      (w.dying = false → p.superseded = false → failed = true → (completed c w p failed).tx_blocked = true ∧
        (completed c w p failed).accounts.accounting_stop_pending = true) := by
  have hresumed : Keeps (resumed w p failed) (request c (resumed w p failed) p.vfo false p.reason).2 :=
    keeps_requestWith_off (resumed w p failed) p.vfo p.reason
  have hreturned := keeps_returned hidle hresumed
  have hheld : lost c w p = false := by
    unfold lost
    rw [hoff, Bool.false_and]
  unfold completed
  rw [hheld, if_neg Bool.false_ne_true, hoff]
  dsimp only
  by_cases hdone : w.dying = true ∨ p.superseded = true
  · rw [if_pos hdone]
    exact ⟨Keeps.refl w, fun halive hlive => absurd hdone (not_done halive hlive)⟩
  · rw [if_neg hdone]
    by_cases hrefused : (request c (resumed w p failed) p.vfo false p.reason).1 = true
    · rw [if_pos hrefused]
      refine ⟨hreturned.trans (keeps_rejected _ p), fun _ _ _ => ?_⟩
      unfold rejected
      rw [hoff, if_neg Bool.false_ne_true]
      exact ⟨rfl, rfl⟩
    · rw [if_neg hrefused]
      refine ⟨hreturned, fun _ _ hfailed => ?_⟩
      subst hfailed
      exact absurd (request_failed w p p.reason) hrefused

/-- The completion of a key-down: it counts, or it is released. -/
theorem completed_on (w : World) (p : Pending) (failed : Bool) (hidle : w.completing = none) (hon : p.state = true) :
    (Keeps w (completed c w p failed) ∧
        (w.dying = false → p.superseded = false → Cancelled w p (completed c w p failed))) ∨
      (failed = false ∧ Confirms c w p ∧ Counts w (.confirmed p.id p.radio p.vfo) (completed c w p failed)) := by
  have hcases := requestWith_on (c := c) (fun w => keeps_allOff (c := c) "accounting-failure" w) (resumed w p failed) p.vfo
    p.reason
  unfold completed
  by_cases hdone : w.dying = true ∨ p.superseded = true
  · rw [if_pos hdone]
    exact Or.inl ⟨Keeps.refl w, fun halive hlive => absurd hdone (not_done halive hlive)⟩
  · rw [if_neg hdone]
    by_cases hlost : lost c w p = true
    · rw [if_pos hlost]
      exact Or.inl ⟨keeps_cancel w p, fun _ _ => cancelled_cancel (Keeps.refl w)⟩
    · rw [if_neg hlost, hon]
      dsimp only
      rcases hcases with ⟨hrefused, hkeeps⟩ | ⟨hdone', hclear, hanswer, hcounts⟩
      · have hrefused' : (request c (resumed w p failed) p.vfo true p.reason).1 = true :=
          hrefused.resolve_left (Option.some_ne_none _)
        have hreturned := keeps_returned hidle hkeeps
        rw [if_pos hrefused']
        refine Or.inl ⟨hreturned.trans (keeps_rejected _ p), fun _ _ => ?_⟩
        obtain ⟨newer, heq, hmem⟩ := cancelled_cancel (p := p) hreturned
        refine ⟨newer, ?_, hmem⟩
        unfold rejected
        rw [if_pos hon, ownerOff_history]
        exact heq
      · have haccepted : ¬ (request c (resumed w p failed) p.vfo true p.reason).1 = true :=
          fun hrefused => absurd (hrefused.symm.trans hdone') Bool.noConfusion
        rw [if_neg haccepted]
        simp only [not_or, Bool.not_eq_true] at hdone
        unfold lost at hlost
        simp only [hon, Bool.true_and, Bool.or_eq_true, not_or, Bool.not_eq_true, decide_eq_true_eq, not_not] at hlost
        obtain ⟨⟨howned, htalks⟩, hpicked⟩ := hlost
        refine Or.inr ⟨hanswer _ rfl, ?_, ?_⟩
        · refine ⟨hdone.1, hdone.2, hon, ?_, htalks, hpicked, ?_⟩
          · cases howner : p.owner with
            | none => rw [howner] at howned; exact absurd howned (by decide)
            | some owner => rfl
          · refine ⟨?_, hclear.unblocked, hclear.unlocked, hclear.paid⟩
            have hrunning := hclear.running
            unfold targetRig rigHalted resumed at hrunning
            unfold targetRig rigHalted
            rw [hpicked]
            exact hrunning
        · exact ⟨hcounts.history, hcounts.pending, hcounts.made, hidle.symm, hcounts.better, hcounts.unlocked, hcounts.timed⟩

/-! ### Steps and runs -/

/-- An action makes a key-down count. -/
inductive KeysDown (c : Config) (w : World) : Action → Event → Prop
  | keyed (vfo : Nat) (reason : String) (clear : Clear c w) :
      KeysDown c w (.request vfo true reason) (.keyed (targetRig w) vfo)
  | confirmed (p : Pending) (pending : p ∈ w.pending) (confirms : Confirms c w p) :
      KeysDown c w (.completed p.id false) (.confirmed p.id p.radio p.vfo)

/-- The request that is completed is not pending any more. -/
def taken (w : World) (e : Event) : World :=
  { w with pending := w.pending.filter fun q => e.ident != some q.id }

theorem taken_keyed (w : World) (radio : Option Rig) (vfo : Nat) : taken w (.keyed radio vfo) = w := by
  unfold taken
  have hall : (w.pending.filter fun q => Event.ident (.keyed radio vfo) != some q.id) = w.pending :=
    List.filter_eq_self.mpr fun q _ => rfl
  rw [hall]

theorem taken_confirmed (w : World) (id : Nat) (radio : Rig) (vfo : Nat) :
    { w with pending := w.pending.filter fun q => q.id != id } = taken w (.confirmed id radio vfo) := by
  unfold taken
  have hsame : (w.pending.filter fun q => q.id != id) =
      w.pending.filter fun q => Event.ident (.confirmed id radio vfo) != some q.id := by
    refine List.filter_congr fun q _ => ?_
    rw [Bool.eq_iff_iff, bne_iff_ne, bne_iff_ne]
    exact ⟨fun hne heq => hne (Option.some.inj heq).symm, fun hne heq => hne (congrArg some heq.symm)⟩
  rw [hsame]

theorem step_unknown {failed : Bool} (hfound : w.pending.find? (fun p => p.id == id) = none) :
    step c w (.completed id failed) = w := by
  unfold step
  dsimp only
  rw [hfound]

theorem step_completed {failed : Bool} (hfound : w.pending.find? (fun p => p.id == id) = some p) :
    step c w (.completed id failed) =
      completed c { w with pending := w.pending.filter fun q => q.id != id } p failed := by
  unfold step
  dsimp only
  rw [hfound]

/-- What one step can do: it keeps everything, or makes one key-down count. -/
theorem step_cases (w : World) (action : Action) (hidle : w.completing = none) :
    Keeps w (step c w action) ∨ ∃ e, KeysDown c w action e ∧ Counts (taken w e) e (step c w action) := by
  cases action with
  | request vfo ptt reason =>
      cases ptt with
      | false => exact Or.inl (keeps_requestWith_off w vfo reason)
      | true =>
          rcases requestWith_on (c := c) (fun w => keeps_allOff (c := c) "accounting-failure" w) w vfo reason with
            ⟨-, hkeeps⟩ | ⟨-, hclear, -, hcounts⟩
          · exact Or.inl hkeeps
          · have hevent : keyDown w vfo = .keyed (targetRig w) vfo := by
              unfold keyDown
              rw [hidle]
              rfl
            rw [hevent] at hcounts
            refine Or.inr ⟨_, .keyed vfo reason hclear, ?_⟩
            rw [taken_keyed]
            exact hcounts
  | allOff reason => exact Or.inl (keeps_allOff reason w)
  | completed id failed =>
      cases hfound : w.pending.find? fun p => p.id == id with
      | none =>
          rw [step_unknown hfound]
          exact Or.inl (Keeps.refl w)
      | some p =>
          obtain rfl : p.id = id := eq_of_beq (List.find?_some (p := fun p : Pending => p.id == id) hfound)
          have hpending : p ∈ w.pending := List.mem_of_find?_eq_some hfound
          rw [step_completed hfound, taken_confirmed w p.id p.radio p.vfo]
          have htaken : Keeps w (taken w (.confirmed p.id p.radio p.vfo)) := Keeps.requests fun hs => hs.filter _
          cases hstate : p.state with
          | false => exact Or.inl (htaken.trans
              (completed_off (taken w (.confirmed p.id p.radio p.vfo)) p failed hidle hstate).1)
          | true =>
              rcases completed_on (c := c) (taken w (.confirmed p.id p.radio p.vfo)) p failed hidle hstate with
                ⟨hkeeps, -⟩ | ⟨rfl, hconfirms, hcounts⟩
              · exact Or.inl (htaken.trans hkeeps)
              · obtain ⟨halive, hstanding, hon, howned, htalks, hpicked, hclear⟩ := hconfirms
                exact Or.inr ⟨_, .confirmed p hpending
                  ⟨halive, hstanding, hon, howned, htalks, hpicked,
                    ⟨hclear.running, hclear.unblocked, hclear.unlocked, hclear.paid⟩⟩, hcounts⟩
  | closed client => exact Or.inl (keeps_workerClosed w client)
  | accountingFailed => exact Or.inl (Keeps.aside (aside_accountingFailed w))
  | accountingPoll mono_us => exact Or.inl (keeps_accountingPoll w mono_us)
  | clockTick now hot => exact Or.inl (keeps_clockTick w now hot)
  | posts who credits add =>
      refine Or.inl (Keeps.aside (aside_accounts ⟨id, fun hb => hb.post _ fun session name secs heq => ?_⟩))
      cases add with
      | true => exact absurd heq Entry.noConfusion
      | false => exact absurd heq Entry.noConfusion
  | setBlocked | connects | talks | picks | halts | offers | configures | dies =>
      exact Or.inl (Keeps.same rfl rfl rfl rfl (Better.refl _))

/-- A key-down that counts was asked for, and neither released nor counted since. -/
theorem sound_counts {action : Action} (hs : Sound w.pending w.made w.history) (hkeys : KeysDown c w action e)
    (hcounts : Counts (taken w e) e w') : Sound w'.pending w'.made w'.history := by
  have htaken : Sound (taken w e).pending w.made w.history := hs.filter _
  rw [hcounts.pending, hcounts.made, hcounts.history]
  cases hkeys with
  | keyed vfo reason clear =>
      exact htaken.log (fun _ _ _ => Event.noConfusion) rfl fun _ _ _ _ => Event.noConfusion
  | confirmed p hpending confirms =>
      have hheld := hs.held p hpending
      refine ⟨fun q hq => ?_, htaken.once, htaken.order, fun e he id heq => ?_, ?_⟩
      · refine (htaken.held q hq).log (fun radio vfo heq => ?_) fun _ _ => Event.noConfusion
        injection heq with hsame
        have hother := (List.mem_filter.mp hq).2
        rw [Event.ident, hsame] at hother
        simp at hother
      · rcases List.mem_cons.mp he with rfl | hold
        · obtain rfl := Option.some.inj heq
          exact hheld.known
        · exact hs.named e hold id heq
      · exact hs.lawful.cons ⟨hheld.stands confirms.on confirms.standing, hheld.unconfirmed⟩

/-- The server between two steps. -/
structure Good (w : World) : Prop where
  sound : Sound w.pending w.made w.history
  balanced : Balanced w.accounts
  idle : w.completing = none

theorem good_start (luck : Nat → Nat) : Good (World.start luck) := ⟨sound_start, balanced_new, rfl⟩

theorem good_step (hg : Good w) (action : Action) : Good (step c w action) := by
  rcases step_cases (c := c) w action hg.idle with hkeeps | ⟨e, hkeys, hcounts⟩
  · exact ⟨hkeeps.sound hg.sound, hkeeps.better.balanced hg.balanced, hkeeps.completing.trans hg.idle⟩
  · exact ⟨sound_counts hg.sound hkeys hcounts, hcounts.better.balanced hg.balanced, hcounts.completing.trans hg.idle⟩

theorem good_run (actions : List Action) (hg : Good w) : Good (run c w actions) := by
  induction actions generalizing w with
  | nil => exact hg
  | cons action actions ih => exact ih (good_step hg action)

/-- One rig with a worker, and one operator. -/
def exampleConfig : Config where
  MAX_VFOS := 2
  backend := fun _ => some true
  whos_talking := fun clients is_ptt => clients.find? is_ptt
  chatname := fun _ => "op"
  database := false

/-- The operator keys down. -/
def exampleKeying : List Action :=
  [.offers (fun _ _ => true) fun _ _ => true, .picks (some 0) none, .connects [7], .talks 7 true,
    .request 0 true "key-down"]

theorem KeysDown.clear {action : Action} (hkeys : KeysDown c w action e) : Clear c w := by
  cases hkeys with
  | keyed vfo reason clear => exact clear
  | confirmed p hpending confirms => exact confirms.clear

theorem locked_run (actions : List Action) (hidle : w.completing = none) (hlocked : w.accounts.accounting_locked = true) :
    Keeps w (run c w actions) := by
  induction actions generalizing w with
  | nil => exact Keeps.refl w
  | cons action actions ih =>
      have hkeeps : Keeps w (step c w action) := by
        rcases step_cases (c := c) w action hidle with hkeeps | ⟨e, hkeys, -⟩
        · exact hkeeps
        · have hunlocked := hkeys.clear.unlocked
          rw [hlocked] at hunlocked
          exact Bool.noConfusion hunlocked
      exact hkeeps.trans (ih (hkeeps.completing.trans hidle) (hkeeps.better.locked hlocked))

/-- Once the accounting is locked it stays locked, and no key-down counts any more, whatever comes. -/
theorem lock_latches (c : Config) (luck : Nat → Nat) (actions later : List Action)
    (hlocked : (run c (World.start luck) actions).accounts.accounting_locked = true) :
    let w := run c (World.start luck) actions
    (run c w later).accounts.accounting_locked = true ∧
      ∃ newer, (run c w later).history = newer ++ w.history ∧ ∀ e ∈ newer, e.keys = false := by
  intro w
  have hgood : Good w := good_run actions (good_start luck)
  have hkeeps : Keeps w (run c w later) := locked_run later hgood.idle hlocked
  exact ⟨hkeeps.better.locked hlocked, hkeeps.grows⟩

theorem exampleLock_latches :
    let w := run exampleConfig (World.start fun _ => 1) [.configures true true 300, .accountingFailed]
    let later : List Action := [.picks (some 0) none, .request 0 true "key-down"]
    w.accounts.accounting_locked = true ∧ (run exampleConfig w later).accounts.accounting_locked = true ∧
      ∃ newer, (run exampleConfig w later).history = newer ++ w.history ∧ ∀ e ∈ newer, e.keys = false :=
  ⟨rfl, lock_latches exampleConfig (fun _ => 1) [.configures true true 300, .accountingFailed]
    [.picks (some 0) none, .request 0 true "key-down"] rfl⟩

theorem find_pending (honce : (pending.map Pending.id).Nodup) (hp : p ∈ pending) :
    pending.find? (fun q => q.id == p.id) = some p := by
  cases hfound : pending.find? fun q => q.id == p.id with
  | none => exact absurd (List.find?_eq_none.mp hfound p hp) (by rw [beq_self_eq_true]; exact fun hne => hne rfl)
  | some q =>
      have hid : q.id = p.id := eq_of_beq (List.find?_some (p := fun q : Pending => q.id == p.id) hfound)
      rw [List.inj_on_of_nodup_map honce (List.mem_of_find?_eq_some hfound) hp hid]

/-- While the server lives, no completion is lost.  A key-down counts, or a release is submitted for it, unless one was
accepted since it was asked for or its owner is gone; a release that failed blocks the transmitter, and the poll of the
accounting will release everything. -/
theorem completions_settle (c : Config) (luck : Nat → Nat) (actions : List Action) (p : Pending) (failed : Bool)
    (hpending : p ∈ (run c (World.start luck) actions).pending)
    (halive : (run c (World.start luck) actions).dying = false) :
    let w := run c (World.start luck) actions
    let w' := step c w (.completed p.id failed)
    (p.state = true → (failed = false ∧ w'.history = .confirmed p.id p.radio p.vfo :: w.history) ∨ Cancelled w p w' ∨
      p.owner = none ∨ Released p.id p.radio p.vfo w.history) ∧
    (p.state = false → failed = true → w'.tx_blocked = true ∧ w'.accounts.accounting_stop_pending = true) := by
  intro w w'
  have hgood : Good w := good_run actions (good_start luck)
  have hheld := hgood.sound.held p hpending
  have hstep : w' = completed c { w with pending := w.pending.filter fun q => q.id != p.id } p failed :=
    step_completed (find_pending hgood.sound.once hpending)
  rw [hstep]
  refine ⟨fun hon => ?_, fun hoff hfailed => ?_⟩
  · cases hsuperseded : p.superseded with
    | true => exact Or.inr (Or.inr (hheld.left hsuperseded).2)
    | false =>
        rcases completed_on (c := c) { w with pending := w.pending.filter fun q => q.id != p.id } p failed hgood.idle hon with
          ⟨-, hcancelled⟩ | ⟨hdone, -, hcounts⟩
        · exact Or.inr (Or.inl (hcancelled halive hsuperseded))
        · exact Or.inl ⟨hdone, hcounts.history⟩
  · have hlive : p.superseded = false := by
      cases hsuperseded : p.superseded with
      | false => rfl
      | true =>
          have hon := (hheld.left hsuperseded).1
          rw [hoff] at hon
          exact Bool.noConfusion hon
    exact (completed_off { w with pending := w.pending.filter fun q => q.id != p.id } p failed hgood.idle hoff).2 halive hlive
      hfailed

def exampleKeyDown : Pending :=
  { id := 0, radio := 0, owner := some 7, vfo := 0, state := true, failed := false, superseded := false,
    reason := "key-down" }

theorem exampleKeying_settles :
    let w := run exampleConfig (World.start fun _ => 1) exampleKeying
    let w' := step exampleConfig w (.completed 0 false)
    (exampleKeyDown.state = true → (false = false ∧ w'.history = .confirmed 0 0 0 :: w.history) ∨
      Cancelled w exampleKeyDown w' ∨ exampleKeyDown.owner = none ∨ Released 0 0 0 w.history) ∧
    (exampleKeyDown.state = false → false = true → w'.tx_blocked = true ∧ w'.accounts.accounting_stop_pending = true) :=
  completions_settle exampleConfig (fun _ => 1) exampleKeying exampleKeyDown false (List.mem_singleton.mpr rfl) rfl

/-- In every run the books are right: everybody's credits are what was given or set less what was debited, and a session
is debited at most once, when its row is closed and with the time that it says. -/
theorem books_balance (c : Config) (luck : Nat → Nat) (actions : List Action) :
    Balanced (run c (World.start luck) actions).accounts :=
  have hgood : Good (run c (World.start luck) actions) := good_run actions (good_start luck)
  hgood.balanced

end Ptt

end RustyRig
