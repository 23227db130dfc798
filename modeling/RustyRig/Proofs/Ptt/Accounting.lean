/-
The books of the transmitter are right.

What the accounting of `rrserver/ptt.c` does to the server is told once (`Aside`): it changes the accounts and
nothing else.  The lock only closes, and the books stay balanced: everybody's credits are what was given less
what was debited, and a session is debited at most once, when its row is closed and with the time that it says.
-/
import RustyRig.Rrserver.Ptt

namespace RustyRig

namespace Ptt

open World

variable {c : Config} {w w' w'' : World} {a a' a'' : Accounts}

/-! ### The books -/

/-- What somebody has, after these changes. -/
def balance (who : String) : List Entry → Int
  | [] => 0
  | .added name credits :: entries => balance who entries + if name = who then credits else 0
  | .set name credits :: entries => if name = who then credits else balance who entries
  | .debited _ name secs :: entries => balance who entries - if name = who then secs else 0

theorem balance_cons (who : String) (entry : Entry) (entries : List Entry) :
    balance who (entry :: entries) = if who = entry.who then entry.left (balance who entries) else balance who entries := by
  cases entry with
  | added name more =>
      show (_ + if name = who then more else 0) = if who = name then _ else _
      by_cases hwho : who = name
      · rw [if_pos hwho, if_pos hwho.symm, Entry.left]
      · rw [if_neg hwho, if_neg (Ne.symm hwho), Int.add_zero]
  | set name credits =>
      show (if name = who then credits else _) = if who = name then _ else _
      by_cases hwho : who = name
      · rw [if_pos hwho, if_pos hwho.symm, Entry.left]
      · rw [if_neg hwho, if_neg (Ne.symm hwho)]
  | debited session name secs =>
      show (_ - ((if name = who then secs else 0 : Nat) : Int)) = if who = name then _ else _
      by_cases hwho : who = name
      · rw [if_pos hwho, if_pos hwho.symm, Entry.left]
      · rw [if_neg hwho, if_neg (Ne.symm hwho), Int.natCast_zero, Int.sub_zero]

/-- The session that an entry debits. -/
def debit : Entry → Option Nat
  | .debited session _ _ => some session
  | _ => none

/-- The row of a session is closed with this duration. -/
def ClosedWith (a : Accounts) (session secs : Nat) : Prop :=
  0 < session ∧ ∃ row, a.ptt_log[session - 1]? = some row ∧ row.duration = some secs

structure Balanced (a : Accounts) : Prop where
  credits : ∀ who, (a.tx_credits who).getD 0 = balance who a.entries
  timed : ∀ session who secs, .debited session who secs ∈ a.entries → ClosedWith a session secs ∧ 0 < secs
  once : (a.entries.filterMap debit).Nodup

theorem balanced_new : Balanced Accounts.new where
  credits _ := rfl
  timed _ _ _ h := absurd h List.not_mem_nil
  once := List.nodup_nil

/-- The same books. -/
theorem Balanced.congr (h : Balanced a) (hlog : a'.ptt_log = a.ptt_log) (hcredits : a'.tx_credits = a.tx_credits)
    (hentries : a'.entries = a.entries) : Balanced a' where
  credits who := by rw [hcredits, hentries, h.credits who]
  timed session who secs hmem := by
    rw [hentries] at hmem
    unfold ClosedWith
    rw [hlog]
    exact h.timed session who secs hmem
  once := by rw [hentries]; exact h.once

/-- A change is posted; a debit is that of a closed session which was not debited before. -/
theorem Balanced.post (h : Balanced a) (entry : Entry)
    (hdebit : ∀ session who secs, entry = .debited session who secs →
      ClosedWith a session secs ∧ 0 < secs ∧ session ∉ a.entries.filterMap debit) : Balanced (a.post entry) where
  credits who := by
    show (if who = entry.who then some (entry.left ((a.tx_credits who).getD 0)) else a.tx_credits who).getD 0 =
      balance who (entry :: a.entries)
    rw [balance_cons]
    split_ifs
    · rw [Option.getD_some, h.credits who]
    · exact h.credits who
  timed session who secs hmem := by
    rcases List.mem_cons.mp hmem with heq | hold
    · obtain ⟨hclosed, hsecs, -⟩ := hdebit session who secs heq.symm
      exact ⟨hclosed, hsecs⟩
    · exact h.timed session who secs hold
  once := by
    show ((entry :: a.entries).filterMap debit).Nodup
    cases entry with
    | added => exact h.once
    | set => exact h.once
    | debited session name secs =>
        obtain ⟨-, -, hnew⟩ := hdebit session name secs rfl
        exact List.nodup_cons.mpr ⟨hnew, h.once⟩

theorem mem_debits {session : Nat} {entries : List Entry} (h : session ∈ entries.filterMap debit) :
    ∃ who secs, Entry.debited session who secs ∈ entries := by
  obtain ⟨entry, hmem, hdebit⟩ := List.mem_filterMap.mp h
  cases entry with
  | added => exact absurd hdebit (Option.some_ne_none session).symm
  | set => exact absurd hdebit (Option.some_ne_none session).symm
  | debited s who secs =>
      obtain rfl := Option.some.inj hdebit
      exact ⟨who, secs, hmem⟩

/-! ### What accounting changes -/

structure Better (a a' : Accounts) : Prop where
  locked : a.accounting_locked = true → a'.accounting_locked = true
  balanced : Balanced a → Balanced a'

theorem Better.refl (a : Accounts) : Better a a := ⟨id, id⟩

theorem Better.trans (h : Better a a') (h' : Better a' a'') : Better a a'' :=
  ⟨fun hlocked => h'.locked (h.locked hlocked), fun hbalanced => h'.balanced (h.balanced hbalanced)⟩

/-- Only the accounts change. -/
def Aside (w w' : World) : Prop := ∃ a draws, Better w.accounts a ∧ w' = { w with accounts := a, draws := draws }

theorem Aside.refl (w : World) : Aside w w := ⟨w.accounts, w.draws, Better.refl _, rfl⟩

theorem Aside.trans (h : Aside w w') (h' : Aside w' w'') : Aside w w'' := by
  obtain ⟨a, draws, hbetter, rfl⟩ := h
  obtain ⟨a', draws', hbetter', rfl⟩ := h'
  exact ⟨a', draws', hbetter.trans hbetter', rfl⟩

theorem aside_accounts (h : Better w.accounts a) : Aside w { w with accounts := a } := ⟨a, w.draws, h, rfl⟩

theorem aside_draw (w : World) : Aside w w.draw.2 := ⟨w.accounts, _, Better.refl _, rfl⟩

/-- Nothing but the lock. -/
def LockOnly (a a' : Accounts) : Prop :=
  (a.accounting_locked = true → a'.accounting_locked = true) ∧ a'.ptt_log = a.ptt_log ∧
    a'.tx_credits = a.tx_credits ∧ a'.entries = a.entries

theorem LockOnly.better (h : LockOnly a a') : Better a a' := ⟨h.1, fun hb => hb.congr h.2.1 h.2.2.1 h.2.2.2⟩

theorem accountingFailed_eq (w : World) :
    ∃ a, LockOnly w.accounts a ∧ accountingFailed w = { w with accounts := a } := by
  unfold accountingFailed
  split_ifs
  · exact ⟨w.accounts, ⟨id, rfl, rfl, rfl⟩, rfl⟩
  · exact ⟨{ w.accounts with accounting_locked := true, accounting_stop_pending := true },
      ⟨fun _ => rfl, rfl, rfl, rfl⟩, rfl⟩

theorem write_eq (w : World) :
    ∃ a draws, LockOnly w.accounts a ∧ (write w).2 = { w with accounts := a, draws := draws } := by
  unfold write
  dsimp only
  split_ifs
  · exact ⟨w.accounts, _, ⟨id, rfl, rfl, rfl⟩, rfl⟩
  · obtain ⟨a, honly, heq⟩ := accountingFailed_eq w.ask.2
    exact ⟨a, _, honly, heq⟩

theorem aside_accountingFailed (w : World) : Aside w (accountingFailed w) := by
  obtain ⟨a, honly, heq⟩ := accountingFailed_eq w
  exact ⟨a, w.draws, honly.better, heq⟩

theorem aside_write (w : World) : Aside w (write w).2 := by
  obtain ⟨a, draws, honly, heq⟩ := write_eq w
  exact ⟨a, draws, honly.better, heq⟩

theorem aside_stopPending (w : World) (pending : Bool) : Aside w (stopPending w pending) :=
  aside_accounts ⟨id, fun h => h.congr rfl rfl rfl⟩

/-! ### Sessions -/

/-- A new row changes no other. -/
theorem better_opened (a : Accounts) (talker : Conn) (username : String) (vfo : Nat) :
    Better a (a.opened talker username vfo) where
  locked := id
  balanced h :=
    { credits := h.credits
      timed := by
        intro session who secs hmem
        obtain ⟨⟨hsession, row, hrow, hsecs⟩, hpositive⟩ := h.timed session who secs hmem
        refine ⟨⟨hsession, row, ?_, hsecs⟩, hpositive⟩
        have hlt : session - 1 < a.ptt_log.length := (List.getElem?_eq_some_iff.mp hrow).1
        show (a.ptt_log ++ _)[session - 1]? = some row
        rw [List.getElem?_append_left hlt, hrow]
      once := h.once }

/-- Closing a row gives a session that no entry has debited yet. -/
theorem closed_fresh {session secs : Nat} (hclosed : a.closed session secs = some a') (h : Balanced a)
    (hsession : 0 < session) :
    Balanced a' ∧ ClosedWith a' session secs ∧ session ∉ a'.entries.filterMap debit := by
  unfold Accounts.closed at hclosed
  cases hrow : a.ptt_log[session - 1]? with
  | none => simp [hrow] at hclosed
  | some row =>
      obtain ⟨username, duration⟩ := row
      cases duration with
      | some old => simp [hrow] at hclosed
      | none =>
          simp only [hrow, Option.some.injEq] at hclosed
          subst hclosed
          have hlt : session - 1 < a.ptt_log.length := (List.getElem?_eq_some_iff.mp hrow).1
          have hfresh : ∀ who s, Entry.debited session who s ∉ a.entries := by
            intro who s hmem
            obtain ⟨⟨-, row, hheld, hduration⟩, -⟩ := h.timed session who s hmem
            rw [hrow] at hheld
            obtain rfl := Option.some.inj hheld
            exact absurd hduration (Option.some_ne_none s).symm
          refine ⟨⟨h.credits, ?_, h.once⟩, ⟨hsession, _, List.getElem?_set_self hlt, rfl⟩, ?_⟩
          · intro other who s hmem
            obtain ⟨⟨hother, row, hheld, hduration⟩, hpositive⟩ := h.timed other who s hmem
            have hne : session - 1 ≠ other - 1 := by
              intro heq
              have hsame : session = other := by omega
              subst hsame
              exact hfresh who s hmem
            exact ⟨⟨hother, row, by rw [List.getElem?_set_ne hne]; exact hheld, hduration⟩, hpositive⟩
          · intro hmem
            obtain ⟨who, s, hdebited⟩ := mem_debits hmem
            exact hfresh who s hdebited

theorem closed_locked {session secs : Nat} (hclosed : a.closed session secs = some a') :
    a'.accounting_locked = a.accounting_locked := by
  unfold Accounts.closed at hclosed
  split at hclosed
  · rw [← Option.some.inj hclosed]
  · exact absurd hclosed (Option.some_ne_none a').symm

theorem releaseUsage_secs {secs secs' : Nat} (h : (releaseUsage w secs).1 = some secs') : secs = secs' := by
  unfold releaseUsage at h
  dsimp only at h
  split at h
  · exact Option.some.inj h
  · exact absurd h (Option.some_ne_none secs').symm

/-- A row that `db_ptt_stop` closes is one that no entry debits. -/
theorem dbStop_cases (w : World) (session : Nat) (hsession : 0 < session) :
    Aside w (dbStop w session).2 ∧ ∀ secs, (dbStop w session).1 = some secs → Balanced w.accounts →
      ClosedWith (dbStop w session).2.accounts session secs ∧
        session ∉ (dbStop w session).2.accounts.entries.filterMap debit := by
  obtain ⟨a, draws, honly, heq⟩ := write_eq w
  unfold dbStop
  dsimp only
  by_cases hfailed : (write w).1 = false
  · rw [if_pos hfailed]
    exact ⟨aside_write w, fun secs hsecs => absurd hsecs (Option.some_ne_none secs).symm⟩
  · rw [if_neg hfailed, heq]
    cases hclosed : a.closed session (World.draw { w with accounts := a, draws := draws }).1 with
    | none =>
        simp only [World.draw] at hclosed ⊢
        rw [hclosed]
        exact ⟨⟨a, draws + 1, honly.better, rfl⟩, fun secs hsecs => absurd hsecs (Option.some_ne_none secs).symm⟩
    | some a₁ =>
        simp only [World.draw] at hclosed ⊢
        rw [hclosed]
        obtain ⟨a₂, draws', honly', heq'⟩ := write_eq { w with accounts := a₁, draws := draws + 1 }
        have hbetter : Better w.accounts a₁ :=
          ⟨fun h => by rw [closed_locked hclosed]; exact honly.1 h,
            fun h => (closed_fresh hclosed (honly.better.balanced h) hsession).1⟩
        refine ⟨⟨a₂, draws', hbetter.trans honly'.better, heq'⟩, ?_⟩
        intro secs (hsecs : (releaseUsage { w with accounts := a₁, draws := draws + 1 } _).1 = some secs) hbalanced
        obtain ⟨-, hrow, hfresh⟩ := closed_fresh hclosed (honly.better.balanced hbalanced) hsession
        show ClosedWith (write { w with accounts := a₁, draws := draws + 1 }).2.accounts session secs ∧
          session ∉ (write { w with accounts := a₁, draws := draws + 1 }).2.accounts.entries.filterMap debit
        rw [heq']
        unfold ClosedWith
        rw [honly'.2.1, honly'.2.2.2]
        rw [← releaseUsage_secs hsecs]
        exact ⟨hrow, hfresh⟩

theorem quotaSpend_eq (w : World) (session : Nat) {secs : Nat} (who : String) (hsecs : 0 < secs) :
    ∃ a draws, (w.accounts.accounting_locked = true → a.accounting_locked = true) ∧
      (Balanced w.accounts → ClosedWith w.accounts session secs → session ∉ w.accounts.entries.filterMap debit →
        Balanced a) ∧
      quotaSpend w session who secs = { w with accounts := a, draws := draws } := by
  obtain ⟨a, draws, honly, heq⟩ := write_eq w
  unfold quotaSpend
  dsimp only
  by_cases hspent : (write w).1 = true
  · rw [if_pos hspent, heq]
    refine ⟨a.post (.debited session who secs), draws, honly.1, fun hbalanced hclosed hfresh => ?_, rfl⟩
    refine (honly.better.balanced hbalanced).post _ fun session' who' secs' hentry => ?_
    injection hentry with hsession hwho hduration
    subst hsession hduration
    unfold ClosedWith
    rw [honly.2.1, honly.2.2.2]
    exact ⟨hclosed, hsecs, hfresh⟩
  · rw [if_neg hspent]
    exact ⟨a, draws, honly.1, fun hbalanced _ _ => honly.better.balanced hbalanced, heq⟩

/-- The time of a session is paid for when its row is closed. -/
theorem aside_stopSession (w : World) {session : Nat} (talker : Option Conn) (reason : String) (hsession : 0 < session) :
    Aside w (stopSession c w session talker reason) := by
  obtain ⟨haside, hstopped⟩ := dbStop_cases w session hsession
  unfold stopSession
  dsimp only
  cases hsecs : (dbStop w session).1 with
  | none => exact haside
  | some secs =>
      obtain ⟨a, draws, hbetter, heq⟩ := haside.trans (aside_write (dbStop w session).2)
      obtain ⟨a', draws', honly, heq'⟩ := write_eq (dbStop w session).2
      have hsame : a = a' := congrArg World.accounts (heq.symm.trans heq')
      dsimp only
      rw [heq]
      split
      · exact ⟨a, draws, hbetter, rfl⟩
      · split_ifs with hpaid
        · obtain ⟨a₁, draws₁, hlocked, hbalanced, hspent⟩ :=
            quotaSpend_eq { w with accounts := a, draws := draws } session _ hpaid.2.1
          refine ⟨a₁, draws₁, ⟨fun h => hlocked (hbetter.locked h), fun h => ?_⟩, hspent⟩
          obtain ⟨hclosed, hfresh⟩ := hstopped secs hsecs h
          subst hsame
          refine hbalanced (hbetter.balanced h) ?_ ?_
          · unfold ClosedWith
            dsimp only
            rw [honly.2.1]
            exact hclosed
          · dsimp only
            rw [honly.2.2.2]
            exact hfresh
        · exact ⟨a, draws, hbetter, rfl⟩

theorem aside_logStop (w : World) (talker : Option Conn) (vfo : Nat) (reason : String) :
    Aside w (logStop c w talker vfo reason) := by
  unfold logStop
  dsimp only
  by_cases hdatabase : c.database = false
  · rw [if_pos hdatabase]
    exact Aside.refl w
  · rw [if_neg hdatabase]
    split_ifs with hsession
    · exact aside_accounts ⟨id, fun h => h.congr rfl rfl rfl⟩
    · refine Aside.trans (aside_accounts ⟨?_, fun h => ?_⟩) (aside_stopSession _ _ reason (Nat.pos_of_ne_zero hsession))
      · exact id
      · exact h.congr rfl rfl rfl

theorem aside_logStart (w : World) (talker : Conn) (vfo : Nat) : Aside w (logStart c w talker vfo) := by
  unfold logStart
  dsimp only
  split_ifs
  · exact Aside.refl w
  · refine (aside_write w).trans (Aside.trans (aside_accounts ?_) (aside_write _))
    exact better_opened _ talker (c.chatname talker) vfo
  · exact aside_write w

end Ptt

end RustyRig
