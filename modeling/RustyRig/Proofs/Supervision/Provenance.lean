/-
Where a noob's permission comes from.

Every event keeps the requests sound, so at any time every elmer in them got there by an
acceptance that still counts.  A noob that may transmit has an active elmer in its request;
the last section reads the acceptance off.
-/
import RustyRig.Proofs.Supervision.Consent

namespace RustyRig

namespace Supervision

open Lib

variable {p : Setup} {i : Nat} {live : Nat → Prop} {w w' : World} {c : Conn}

/-- A client is connected. -/
def Online (w : World) (h : Nat) : Prop := ∃ c ∈ w.clients, c.handle = h

theorem visits_online (w : World) : Visits (Online w) w := fun c hc _ => ⟨c, hc, rfl⟩

theorem Frame.online (h : Frame w w') : Online w' = Online w := by
  unfold Online
  rw [h.clients]

theorem online_of_conn {h : Nat} (hc : w.conn? (some h) = some c) : Online w h ∧ c.handle = h := by
  have hmem : c ∈ w.clients := List.mem_of_find?_eq_some hc
  have hh := List.find?_some hc
  exact ⟨⟨c, hmem, beq_iff_eq.mp hh⟩, beq_iff_eq.mp hh⟩

/-! ### Requests and replies -/

theorem kept_ask (hk : Kept p live w) (hv : Visits live w) (hlive : live c.handle)
    (hfree : ∀ r, w.requests[i]? = some r → r.client = none ∨ r.id = "") (room : Option String)
    (a b d e : UInt32) :
    Kept p live (w.ask p i c room a b d e) ∧ Frame w (w.ask p i c room a b d e) := by
  unfold World.ask
  dsimp only
  generalize hfiled : w.modifyRequest i _ = filed
  have hframe : Frame w filed := by
    subst hfiled
    exact ⟨rfl, rfl, rfl⟩
  have hkept : Kept p live filed := by
    subst hfiled
    refine hk.write (i := i) rfl rfl rfl fun r hr hs => ?_
    refine .vacant (fun x hx => ?_) (hs.elmers_none (hfree r hr)) hs.invited
    rw [← Option.some.inj hx]
    exact hlive
  obtain ⟨hk', hf'⟩ := kept_visit_offer (i := i) hkept (hframe.visits hv)
  split
  · exact ⟨hk', hframe.trans hf'⟩
  · exact ⟨hk', hframe.trans ⟨hf'.now, hf'.clients, hf'.closing⟩⟩

theorem kept_check (hk : Kept p (Online w) w) (client : Nat) (room : Option String) (request : Bool)
    (a b d e : UInt32) :
    Kept p (Online w) (w.check p client room request a b d e).1 ∧
      Frame w (w.check p client room request a b d e).1 := by
  obtain ⟨hk₁, hf₁⟩ := kept_tick hk (visits_online w)
  unfold World.check
  dsimp only
  generalize w.tick p = w₁ at hk₁ hf₁
  cases hc : w₁.conn? (some client) with
  | none => exact ⟨hk₁, hf₁⟩
  | some c =>
      dsimp only
      have hlive : Online w c.handle := by
        rw [← hf₁.online]
        obtain ⟨honline, hhandle⟩ := online_of_conn hc
        rw [hhandle]
        exact honline
      have hask : ∀ i, (∀ r, w₁.requests[i]? = some r → r.client = none ∨ r.id = "") →
          Kept p (Online w) (w₁.ask p i c room a b d e) ∧ Frame w (w₁.ask p i c room a b d e) := by
        intro i hfree
        obtain ⟨hk', hf'⟩ := kept_ask hk₁ (hf₁.visits (visits_online w)) hlive hfree room a b d e
        exact ⟨hk', hf₁.trans hf'⟩
      split
      · exact ⟨hk₁, hf₁⟩
      · split
        · exact ⟨hk₁, hf₁⟩
        · cases hfind : w₁.find c room with
          | some i =>
              dsimp only
              split
              · exact ⟨hk₁, hf₁⟩
              · rename_i hid
                refine hask i fun r hr => .inr ?_
                rw [hr] at hid
                by_contra hne
                exact hid (bne_iff_ne.mpr hne)
          | none =>
              cases hidx : w₁.requests.findIdx? fun r => r.client.isNone with
              | none => exact ⟨hk₁, hf₁⟩
              | some i =>
                  refine hask i fun r hr => .inl ?_
                  obtain ⟨hi, hnone, -⟩ := List.findIdx?_eq_some_iff_getElem.mp hidx
                  rw [List.getElem?_eq_getElem hi] at hr
                  rw [← Option.some.inj hr]
                  exact Option.isNone_iff_eq_none.mp hnone

theorem kept_decline (hk : Kept p (Online w) w) (r : Request) (c : Conn) :
    Kept p (Online w) (w.decline p i r c) ∧ Frame w (w.decline p i r c) := by
  unfold World.decline
  generalize hdropped : ((w.modifyRequest i _).record _).sendStatus _ _ _ _ = dropped
  have hframe : Frame w dropped := by
    subst hdropped
    exact ⟨rfl, rfl, rfl⟩
  have hkept : Kept p (Online w) dropped := by
    subst hdropped
    refine Kept.write_record (w := w) (i := i) (x := .declined i c.handle) hk rfl rfl rfl
      (fun j e noob hne he => hne he.1.symm) fun r' hr' hs => ?_
    refine { client := hs.client, elmers := ?_, distinct := ?_, invited := hs.invited }
    · intro j s e hj he
      obtain ⟨hj, hne⟩ := of_dropped hj he
      obtain ⟨hlive, a, post, pre, hb⟩ := hs.elmers j s e hj he
      refine ⟨hlive, a, .declined i c.handle :: post, pre, { hb with
        log := by rw [hb.log]; rfl
        unended := fun y hy => ?_
        renewed := hb.renewed.mono fun t ht => List.mem_cons_of_mem _ ht }⟩
      rcases List.mem_cons.mp hy with rfl | hy
      · exact fun hends => hne hends.2.symm
      · exact hb.unended y hy
    · intro j k s t e hj hk he he'
      exact hs.distinct j k s t e (of_dropped hj he).1 (of_dropped hk he').1 he he'
  obtain ⟨hk', hf'⟩ := kept_tick hkept (hframe.visits (visits_online w))
  exact ⟨hk', hframe.trans hf'⟩

/-- An acceptance takes the elmer's own slot, or one while it has none. -/
theorem acceptSlot_own {r : Request} {k : Nat} (hslot : w.acceptSlot p r c = some k) {j : Nat}
    {s : Supervisor} (hs : r.elmers[j]? = some s) (hc : s.client = some c.handle)
    (hdistinct : ∀ (j k : Nat) s t e, r.elmers[j]? = some s → r.elmers[k]? = some t →
      s.client = some e → t.client = some e → j = k) : j = k := by
  unfold World.acceptSlot at hslot
  cases hidx : r.elmers.findIdx? fun s => s.client == some c.handle with
  | some k' =>
      rw [hidx] at hslot
      obtain ⟨hk', hown, -⟩ := List.findIdx?_eq_some_iff_getElem.mp hidx
      rw [← Option.some.inj hslot]
      exact hdistinct j k' s _ c.handle hs (List.getElem?_eq_getElem hk') hc (beq_iff_eq.mp hown)
  | none =>
      rw [List.findIdx?_eq_none_iff] at hidx
      have := hidx s (List.mem_of_getElem? hs)
      rw [hc] at this
      exact absurd this (by simp)

theorem kept_accept (hk : Kept p (Online w) w) {r : Request} (hr : w.requests[i]? = some r)
    (hc : Online w c.handle) (helmer : c.isElmer w.now = true) {noob : Nat}
    (hnoob : r.client = some noob) (hother : noob ≠ c.handle) (hid : r.id ≠ "") :
    Kept p (Online w) (w.accept p i r c) ∧ Frame w (w.accept p i r c) := by
  unfold World.accept
  cases hslot : w.acceptSlot p r c with
  | none => exact ⟨hk, ⟨rfl, rfl, rfl⟩⟩
  | some k =>
      refine ⟨?_, ⟨rfl, rfl, rfl⟩⟩
      refine Kept.write_record (w := w) (i := i)
        (x := .accepted ⟨i, c, r.client.getD 0, r.token, r.id, w.now⟩) hk rfl rfl rfl
        (fun _ _ _ _ => id) fun r' hr' hs => ?_
      rw [hr] at hr'
      obtain rfl := Option.some.inj hr'
      have hold := hs.record (x := .accepted ⟨i, c, r.client.getD 0, r.token, r.id, w.now⟩)
        fun _ _ _ _ => id
      refine { client := hs.client, elmers := ?_, distinct := ?_, invited := hs.invited }
      · intro j s e hj he
        rcases Lib.getElem?_of_modify hj with ⟨-, hj⟩ | ⟨-, y, -, rfl⟩
        · obtain ⟨hlive, a, post, pre, hb⟩ := hold.elmers j s e hj he
          exact ⟨hlive, a, post, pre, { hb with }⟩
        · have he := Option.some.inj he
          refine ⟨he ▸ hc, ⟨i, c, r.client.getD 0, r.token, r.id, w.now⟩, [], w.log, ?_⟩
          exact {
            log := rfl
            slot := rfl
            elmer := he
            elmerToken := rfl
            standing := helmer
            noob := by rw [hnoob]; rfl
            other := by
              rw [hnoob, ← he]
              exact hother
            token := rfl
            ticket := rfl
            pending := hid
            unended := fun y hy => absurd hy List.not_mem_nil
            renewed := .start
            past := Nat.le_refl _ }
      · intro j k' s t e hj hk' he he'
        rcases Lib.getElem?_of_modify hj with ⟨hjk, hj⟩ | ⟨hjk, y, hy, rfl⟩
        · rcases Lib.getElem?_of_modify hk' with ⟨-, hk'⟩ | ⟨hkk, z, hz, rfl⟩
          · exact hs.distinct j k' s t e hj hk' he he'
          · rw [← Option.some.inj he'] at he
            exact absurd (acceptSlot_own hslot hj he hs.distinct) hjk
        · rcases Lib.getElem?_of_modify hk' with ⟨hkk, hk'⟩ | ⟨hkk, z, hz, rfl⟩
          · rw [← Option.some.inj he] at he'
            exact absurd (acceptSlot_own hslot hk' he' hs.distinct) hkk
          · rw [hjk, hkk]

theorem scanWord_ne {width : Nat} {s rest : List Char} {word : String}
    (h : scanWord width s = some (word, rest)) : word ≠ "" := by
  unfold scanWord at h
  dsimp only at h
  split at h
  · exact absurd h (by simp)
  · rename_i hne
    obtain ⟨rfl, -⟩ := Prod.mk.inj (Option.some.inj h)
    intro heq
    exact hne (String.ofList_eq_empty_iff.mp heq)

theorem scanReply_ne {text action id : String} (h : scanReply text = some (action, id)) : id ≠ "" := by
  unfold scanReply at h
  cases h₁ : scanWord 15 text.toList with
  | none =>
      rw [h₁] at h
      exact absurd h (by simp)
  | some first =>
      rw [h₁] at h
      dsimp only at h
      cases h₂ : scanWord 32 first.2 with
      | none =>
          rw [h₂] at h
          exact absurd h (by simp)
      | some second =>
          rw [h₂] at h
          dsimp only at h
          split at h
          · exact absurd h (by simp)
          · obtain ⟨-, rfl⟩ := Prod.mk.inj (Option.some.inj h)
            exact scanWord_ne h₂

theorem kept_out (hk : Kept p live w) (o : Output) : Kept p live (w.out o) ∧ Frame w (w.out o) :=
  ⟨hk, rfl, rfl, rfl⟩

theorem kept_command (hk : Kept p (Online w) w) (client : Nat) (message : Option Dict) :
    Kept p (Online w) (w.command p client message) ∧ Frame w (w.command p client message) := by
  unfold World.command
  cases hc : w.conn? (some client) with
  | none => exact ⟨hk, .refl w⟩
  | some c =>
      dsimp only
      obtain ⟨honline, hhandle⟩ := online_of_conn hc
      split
      · exact kept_out hk _
      · rename_i helmer
        cases message with
        | none => exact ⟨hk, .refl w⟩
        | some d =>
            dsimp only
            cases hscan : scanReply (d.get "talk.data" "") with
            | none => exact kept_out hk _
            | some reply =>
                dsimp only
                cases hnamed : w.named reply.2 (d.get "talk.room" "") with
                | none => exact kept_out hk _
                | some i =>
                    obtain ⟨r, hr, hmatch⟩ := lastIdx_spec hnamed
                    dsimp only
                    rw [hr]
                    dsimp only
                    split
                    · exact kept_out hk _
                    · rename_i hself
                      split
                      · exact kept_decline hk r c
                      · split
                        · simp only [Bool.and_eq_true, beq_iff_eq] at hmatch
                          obtain ⟨noob, hnoob⟩ := Option.isSome_iff_exists.mp hmatch.1.1
                          refine kept_accept hk hr (hhandle ▸ honline) (by simpa using helmer) hnoob ?_ ?_
                          · intro heq
                            refine hself ?_
                            rw [hnoob, heq, hhandle]
                            simp
                          · rw [hmatch.1.2]
                            exact scanReply_ne hscan
                        · exact kept_out hk _

/-! ### Activity and departures -/

/-- An active slot belongs to an elmer with standing, under its present token. -/
theorem active_spec {s : Supervisor} (h : w.active p s = true) : ∃ c, w.conn? s.client = some c ∧
    c.isElmer w.now = true ∧ s.token = c.token ∧ s.active ≤ w.now ∧ w.now - s.active < p.idle := by
  unfold World.active at h
  obtain ⟨c, hc, hall⟩ := (Option.any_eq_true _ _).mp h
  simp only [Bool.and_eq_true, beq_iff_eq, decide_eq_true_eq] at hall
  exact ⟨c, hc, hall.1.1.1, hall.1.1.2, hall.1.2, hall.2⟩

/-- Activity goes on the record and ends nothing. -/
theorem Backed.acted {log post pre : List Entry} {now e : Nat} {r : Request} {s : Supervisor}
    {a : Acceptance} (hb : Backed p log now i r s e a post pre) (client : Nat) :
    Backed p (.activity client now :: log) now i r s e a (.activity client now :: post) pre :=
  { hb with
    log := by rw [hb.log]; rfl
    unended := fun x hx => (List.mem_cons.mp hx).elim (fun h => h ▸ id) (hb.unended x)
    renewed := hb.renewed.mono fun _ ht => List.mem_cons_of_mem _ ht }

/-- Activity renews a stamp that still counts, and no other. -/
theorem renewSlot_spec (client : Nat) (s : Supervisor) :
    (w.renewSlot p client s).client = s.client ∧ (w.renewSlot p client s).token = s.token ∧
      ((w.renewSlot p client s).active = s.active ∨ s.client = some client ∧
        w.now - s.active < p.idle ∧ (w.renewSlot p client s).active = w.now) := by
  unfold World.renewSlot
  split
  · rename_i hcond
    obtain ⟨c, -, -, -, -, hlt⟩ := active_spec hcond.2
    exact ⟨rfl, rfl, .inr ⟨hcond.1, hlt, rfl⟩⟩
  · exact ⟨rfl, rfl, .inl rfl⟩

theorem kept_activity (hk : Kept p (Online w) w) (client : Nat) (message : Dict) :
    Kept p (Online w) (w.activity p client message) ∧ Frame w (w.activity p client message) := by
  unfold World.activity
  split
  · obtain ⟨hk', hf'⟩ := kept_tick hk (visits_online w)
    refine ⟨?_, hf'.trans ⟨rfl, rfl, rfl⟩⟩
    rw [← hf'.now]
    generalize w.tick p = u at hk'
    intro i r' hr'
    show Sound p (.activity client u.now :: u.log) u.now (Online w) i r'
    have hmap : (u.requests.map fun r => { r with
        elmers := r.elmers.map (u.renewSlot p client) })[i]? = some r' := hr'
    rw [List.getElem?_map] at hmap
    obtain ⟨r, hr, rfl⟩ := Option.map_eq_some_iff.mp hmap
    have hs := hk' i r hr
    have hslot : ∀ (j : Nat) s, (r.elmers.map (u.renewSlot p client))[j]? = some s →
        ∃ t, r.elmers[j]? = some t ∧ u.renewSlot p client t = s := by
      intro j s hj
      rw [List.getElem?_map] at hj
      exact Option.map_eq_some_iff.mp hj
    refine { client := hs.client, elmers := ?_, distinct := ?_, invited := hs.invited }
    · intro j s e hj he
      obtain ⟨t, ht, rfl⟩ := hslot j s hj
      obtain ⟨hclient, htoken, hactive⟩ := renewSlot_spec (p := p) (w := u) client t
      obtain ⟨hlive, a, post, pre, hb⟩ := hs.elmers j t e ht (hclient ▸ he)
      have hacted := hb.acted client
      refine ⟨hlive, a, .activity client u.now :: post, pre, ?_⟩
      rcases hactive with hsame | ⟨hown, hlt, hnow⟩
      · exact { hacted with
          elmerToken := hb.elmerToken.trans htoken.symm
          renewed := by rw [hsame]; exact hacted.renewed
          past := by rw [hsame]; exact hacted.past }
      · have hec : e = client := by
          rw [hclient, hown] at he
          exact (Option.some.inj he).symm
        exact { hacted with
          elmerToken := hb.elmerToken.trans htoken.symm
          renewed := by
            rw [hnow]
            exact .renew hacted.renewed hacted.past hlt (hec ▸ List.mem_cons_self)
          past := Nat.le_of_eq hnow }
    · intro j k s t e hj hk he he'
      obtain ⟨s', hs', rfl⟩ := hslot j s hj
      obtain ⟨t', ht', rfl⟩ := hslot k t hk
      rw [(renewSlot_spec client s').1] at he
      rw [(renewSlot_spec client t').1] at he'
      exact hs.distinct j k s' t' e hs' ht' he he'
  · exact ⟨hk, .refl w⟩

/-- Nothing of a request names a client that left it. -/
theorem sound_left {log : List Entry} {now : Nat} {r : Request} (h : Sound p log now live i r) (c : Nat) :
    Sound p log now (fun h => live h ∧ h ≠ c) i (r.left p c) := by
  have hdrop : ∀ r, Sound p log now live i r → r.client ≠ some c →
      Sound p log now (fun h => live h ∧ h ≠ c) i
        { r with elmers := dropped c r.elmers, invited := dropped c r.invited } := by
    intro r hs hne
    refine { client := ?_, elmers := ?_, distinct := ?_, invited := ?_ }
    · intro d hd
      exact ⟨hs.client d hd, fun heq => hne (heq ▸ hd)⟩
    · intro j s e hj he
      obtain ⟨hj, hec⟩ := of_dropped hj he
      obtain ⟨hlive, a, post, pre, hb⟩ := hs.elmers j s e hj he
      exact ⟨⟨hlive, hec⟩, a, post, pre, { hb with }⟩
    · intro j k s t e hj hk he he'
      exact hs.distinct j k s t e (of_dropped hj he).1 (of_dropped hk he').1 he he'
    · intro j s e hj he
      obtain ⟨hj, hec⟩ := of_dropped hj he
      exact ⟨hs.invited j s e hj he, hec⟩
  unfold Request.left
  by_cases hc : r.client = some c
  · rw [if_pos hc]
    exact hdrop _ sound_zero (by simp [Request.zero])
  · rw [if_neg hc]
    exact hdrop r h hc

theorem closedOne_requests (c : Nat) (w : World) (i : Nat) :
    (w.closedOne p c i).requests = w.requests.modify i (Request.left p c) ∧
      (w.closedOne p c i).log = w.log ∧ Frame w (w.closedOne p c i) := by
  unfold World.closedOne
  cases hr : w.requests[i]? with
  | none =>
      refine ⟨?_, rfl, .refl w⟩
      rw [List.modify_eq_self]
      exact List.getElem?_eq_none_iff.mp hr
  | some r =>
      have hsame := same_visit_closeOffer r w
      dsimp only
      split
      · exact ⟨congrArg (fun l : List Request => l.modify i _) hsame.requests, hsame.log,
          hsame.now, hsame.clients, hsame.closing⟩
      · exact ⟨rfl, rfl, rfl, rfl, rfl⟩

/-- After the loop no request names the client. -/
theorem kept_closedLoop (hk : Kept p live w) (c : Nat) :
    Kept p (fun h => live h ∧ h ≠ c)
      ((List.range w.requests.length).foldl (World.closedOne p c) w) ∧
    Frame w ((List.range w.requests.length).foldl (World.closedOne p c) w) := by
  have hloop : ∀ n, (∀ i r, ((List.range n).foldl (World.closedOne p c) w).requests[i]? = some r →
      Sound p w.log w.now live i r ∧
        (i < n → Sound p w.log w.now (fun h => live h ∧ h ≠ c) i r)) ∧
      ((List.range n).foldl (World.closedOne p c) w).log = w.log ∧
      ((List.range n).foldl (World.closedOne p c) w).requests.length = w.requests.length ∧
      Frame w ((List.range n).foldl (World.closedOne p c) w) := by
    intro n
    induction n with
    | zero => exact ⟨fun i r hr => ⟨hk i r hr, fun h => absurd h (by omega)⟩, rfl, rfl, .refl w⟩
    | succ n ih =>
        rw [List.range_succ, List.foldl_append, List.foldl_cons, List.foldl_nil]
        generalize (List.range n).foldl (World.closedOne p c) w = u at ih ⊢
        obtain ⟨hsound, hlog, hlength, hframe⟩ := ih
        obtain ⟨hrequests, hlog', hframe'⟩ := closedOne_requests (p := p) c u n
        refine ⟨fun i r hr => ?_, hlog'.trans hlog, ?_, hframe.trans hframe'⟩
        · rw [hrequests] at hr
          rcases Lib.getElem?_of_modify hr with ⟨hne, hr⟩ | ⟨rfl, r', hr', rfl⟩
          · exact ⟨(hsound i r hr).1, fun h => (hsound i r hr).2 (by omega)⟩
          · have hleft := sound_left (hsound i r' hr').1 c
            exact ⟨hleft.among fun h hh => hh.1, fun _ => hleft⟩
        · rw [hrequests, List.length_modify, hlength]
  obtain ⟨hsound, hlog, hlength, hframe⟩ := hloop w.requests.length
  refine ⟨fun i r hr => ?_, hframe⟩
  rw [hlog, hframe.now]
  have hi := (List.getElem?_eq_some_iff.mp hr).1
  exact (hsound i r hr).2 (by omega)

theorem kept_closed (hk : Kept p (Online w) w) (c : Nat) :
    Kept p (Online (w.closed p c)) (w.closed p c) := by
  unfold World.closed
  dsimp only
  generalize hw : { w with closing := some c } = w₀
  have hk₀ : Kept p (Online w) w₀ := by
    subst hw
    exact hk
  obtain ⟨hk₁, hf₁⟩ := kept_closedLoop hk₀ c
  have hlength : w.requests.length = w₀.requests.length := by rw [← hw]
  rw [hlength]
  generalize (List.range w₀.requests.length).foldl (World.closedOne p c) w₀ = w₁ at hk₁ hf₁
  have hclients : w₁.clients = w.clients := by rw [hf₁.clients, ← hw]
  have hclosing : w₁.closing = some c := by rw [hf₁.closing, ← hw]
  have hv₁ : Visits (fun h => Online w h ∧ h ≠ c) w₁ := by
    intro d hd hne
    rw [hclients] at hd
    rw [hclosing] at hne
    exact ⟨⟨d, hd, rfl⟩, fun heq => hne (heq ▸ rfl)⟩
  obtain ⟨hk₂, hf₂⟩ := kept_tick hk₁ hv₁
  generalize w₁.tick p = w₂ at hk₂ hf₂
  intro i r hr
  show Sound p (.closed c :: w₂.log) w₂.now _ i r
  refine ((hk₂ i r hr).record (x := .closed c) fun e noob he hnoob => ?_).among fun h hh => ?_
  · rintro (heq | heq)
    · exact he.2 heq.symm
    · exact ((hk₂ i r hr).client noob hnoob).2 heq.symm
  · obtain ⟨⟨d, hd, rfl⟩, hne⟩ := hh
    refine ⟨d, List.mem_filter.mpr ⟨?_, by simpa using hne⟩, rfl⟩
    show d ∈ w₂.clients
    rw [hf₂.clients, hclients]
    exact hd

/-! ### Runs -/

theorem kept_step (hk : Kept p (Online w) w) (e : Event) : Kept p (Online (w.step p e)) (w.step p e) := by
  cases e with
  | connect c =>
      show Kept p (Online (if _ then _ else _)) (if _ then _ else _)
      by_cases hany : (w.clients.any (·.handle == c.handle)) = true
      · rw [if_pos hany]
        exact hk
      · rw [if_neg hany]
        intro i r hr
        refine (hk i r hr).among fun h hh => ?_
        obtain ⟨d, hd, heq⟩ := hh
        exact ⟨d, List.mem_cons_of_mem _ hd, heq⟩
  | change c =>
      intro i r hr
      refine (hk i r hr).among fun h hh => ?_
      obtain ⟨d, hd, rfl⟩ := hh
      refine ⟨_, List.mem_map_of_mem hd, ?_⟩
      by_cases hc : d.handle = c.handle
      · rw [if_pos hc, hc]
      · rw [if_neg hc]
  | wait seconds => exact fun i r hr => (hk i r hr).wait seconds
  | tick =>
      obtain ⟨hk', hf'⟩ := kept_tick hk (visits_online w)
      exact hf'.online ▸ hk'
  | check client room request a b d e =>
      obtain ⟨hk', hf'⟩ := kept_check hk client room request a b d e
      exact hf'.online ▸ hk'
  | command client message =>
      obtain ⟨hk', hf'⟩ := kept_command hk client message
      exact hf'.online ▸ hk'
  | activity client message =>
      obtain ⟨hk', hf'⟩ := kept_activity hk client message
      exact hf'.online ▸ hk'
  | closed client => exact kept_closed hk client

theorem kept_start (p : Setup) (now : Nat) : Kept p (Online (.start p now)) (.start p now) := by
  intro i r hr
  rw [List.eq_of_mem_replicate (List.mem_of_getElem? hr)]
  exact sound_zero

theorem kept_run (hk : Kept p (Online w) w) (events : List Event) :
    Kept p (Online (w.run p events)) (w.run p events) := by
  induction events generalizing w with
  | nil => exact hk
  | cons e events ih => exact ih (kept_step hk e)

/-! ### Provenance -/

/-- The consent a noob transmits under: the acceptance of its request by another client that had
and has elmer standing, both under the tokens they have now.  `post` is what happened since;
none of it ended the consent, and no window as long as the idle limit passed without activity
of the elmer. -/
structure Provenance (p : Setup) (w : World) (c : Conn) (a : Acceptance) (elmer : Conn)
    (post pre : List Entry) : Prop where
  log : w.log = post ++ .accepted a :: pre
  noob : a.noob = c.handle
  token : a.token = c.token
  standing : a.elmer.isElmer a.time = true
  present : w.conn? (some a.elmer.handle) = some elmer
  elmerToken : a.elmer.token = elmer.token
  stands : elmer.isElmer w.now = true
  other : a.elmer.handle ≠ c.handle
  unended : ∀ x ∈ post, ¬ x.Ends a.slot a.elmer.handle c.handle
  attended : ∀ x, a.time ≤ x → x + p.idle ≤ w.now →
    ∃ t, x < t ∧ t < x + p.idle ∧ .activity a.elmer.handle t ∈ post

theorem provenance (hk : Kept p live w) {room : Option String}
    (h : w.allowedAt p (w.find c room) = true) : ∃ a elmer post pre, Provenance p w c a elmer post pre := by
  unfold World.allowedAt at h
  obtain ⟨r, hr, hallowed⟩ := (Option.any_eq_true _ _).mp h
  obtain ⟨i, hfind, hr⟩ := Option.bind_eq_some_iff.mp hr
  unfold World.find at hfind
  obtain ⟨hi, hmatch, -⟩ := List.findIdx?_eq_some_iff_getElem.mp hfind
  rw [List.getElem?_eq_getElem hi] at hr
  rw [Option.some.inj hr] at hmatch
  simp only [Bool.and_eq_true, beq_iff_eq] at hmatch
  unfold World.allowed at hallowed
  rw [Bool.and_eq_true] at hallowed
  obtain ⟨s, hs, hactive⟩ := List.any_eq_true.mp hallowed.2
  obtain ⟨elmer, hconn, hstands, htoken, -, hlt⟩ := active_spec hactive
  obtain ⟨j, hj⟩ := List.mem_iff_getElem?.mp hs
  cases hclient : s.client with
  | none =>
      rw [hclient] at hconn
      exact absurd hconn (by simp [World.conn?])
  | some e =>
      have hri : w.requests[i]? = some r := by rw [List.getElem?_eq_getElem hi, hr]
      obtain ⟨-, a, post, pre, hb⟩ := (hk i r hri).elmers j s e hj hclient
      have hnoob : a.noob = c.handle := by
        have := hb.noob
        rw [hmatch.1.1] at this
        exact (Option.some.inj this).symm
      rw [hclient] at hconn
      refine ⟨a, elmer, post, pre, ?_⟩
      exact {
        log := hb.log
        noob := hnoob
        token := hb.token.trans hmatch.1.2
        standing := hb.standing
        present := by rw [hb.elmer]; exact hconn
        elmerToken := hb.elmerToken.trans htoken
        stands := hstands
        other := by rw [hb.elmer, ← hnoob]; exact hb.other.symm
        unended := by rw [hb.slot, hb.elmer, ← hnoob]; exact hb.unended
        attended := by rw [hb.elmer]; exact hb.renewed.attended hlt }

/-- What `check` answered is what `find` and `allowed` say afterwards. -/
theorem check_answer {client : Nat} {room : Option String} {request : Bool} {a b d e : UInt32}
    (h : (w.check p client room request a b d e).2 = true)
    (hc : (w.check p client room request a b d e).1.conn? (some client) = some c)
    (hneeds : c.needsSupervision = true) :
    (w.check p client room request a b d e).1.allowedAt p
      ((w.check p client room request a b d e).1.find c room) = true := by
  unfold World.check at h hc ⊢
  dsimp only at h hc ⊢
  generalize w.tick p = u at h hc ⊢
  cases hconn : u.conn? (some client) with
  | none =>
      rw [hconn] at h
      exact absurd h Bool.false_ne_true
  | some c' =>
      rw [hconn] at h hc
      dsimp only at h hc ⊢
      split at h
      · rename_i hcond
        rw [if_pos hcond] at hc ⊢
        have heq : c' = c := Option.some.inj (hconn.symm.trans hc)
        subst heq
        simp only [Bool.and_eq_true, Bool.or_eq_true, hneeds, Bool.not_true, Bool.false_eq_true,
          false_or] at hcond
        exact hcond.2
      · exfalso
        split at h
        · exact absurd h Bool.false_ne_true
        · split at h
          · split at h <;> exact absurd h Bool.false_ne_true
          · split at h <;> exact absurd h Bool.false_ne_true

/-- **Consent has a provenance.**  Whatever came, at any time: a noob that may transmit does so
under an acceptance by another client with elmer standing that nothing ended since, be it
expiry, withdrawal, revocation or a disconnect; and no request names an elmer twice or a client
that is gone. -/
theorem consent_provenance (p : Setup) (now : Nat) (events : List Event) :
    let w := (World.start p now).run p events
    (∀ client c, w.conn? (some client) = some c → c.needsSupervision = true →
      w.supervisionAllowed p client = true → ∃ a elmer post pre, Provenance p w c a elmer post pre) ∧
    (∀ client c room request a b d e,
      (w.check p client room request a b d e).1.conn? (some client) = some c →
      c.needsSupervision = true → (w.check p client room request a b d e).2 = true →
      ∃ x elmer post pre, Provenance p (w.check p client room request a b d e).1 c x elmer post pre) ∧
    ∀ (i : Nat) r, w.requests[i]? = some r →
      (∀ (j k : Nat) s t e, r.elmers[j]? = some s → r.elmers[k]? = some t → s.client = some e →
        t.client = some e → j = k) ∧
      (∀ e, r.client = some e → Online w e) ∧
      (∀ s ∈ r.elmers ++ r.invited, ∀ e, s.client = some e → Online w e) := by
  intro w
  have hk : Kept p (Online w) w := kept_run (kept_start p now) events
  refine ⟨?_, ?_, ?_⟩
  · intro client c hc hneeds hallowed
    unfold World.supervisionAllowed at hallowed
    rw [hc] at hallowed
    simp only [hneeds, Bool.not_true, Bool.false_eq_true, if_false] at hallowed
    split at hallowed
    · exact absurd hallowed Bool.false_ne_true
    · exact provenance hk hallowed
  · intro client c room request a b d e hc hneeds hanswer
    exact provenance (kept_check hk client room request a b d e).1 (check_answer hanswer hc hneeds)
  · intro i r hr
    have hs := hk i r hr
    refine ⟨hs.distinct, hs.client, fun s hmem e he => ?_⟩
    rcases List.mem_append.mp hmem with hmem | hmem
    · obtain ⟨j, hj⟩ := List.mem_iff_getElem?.mp hmem
      exact (hs.elmers j s e hj he).1
    · obtain ⟨j, hj⟩ := List.mem_iff_getElem?.mp hmem
      exact hs.invited j s e hj he

end Supervision

end RustyRig
