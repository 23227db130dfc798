/-
Ownership of serial exports.

`Kept` ties the table to the record: whoever owns an export has it under a stream handed
out on its present connection, and no two exports share one.  A stream that was closed is
never handed out again while the connection lasts, so what arrives for it finds no port.
-/
import RustyRig.Proofs.Serial.Ports

namespace RustyRig

namespace Serial

variable {s : Setup} {sys : Sys} {w w' : World} {client stream : Nat}

/-! ### Requests -/

/-- A free export was granted, all else being calm. -/
structure Granted (w w' : World) (client stream : Nat) : Prop where
  open_id : ∃ id, (∀ c t, ¬ w.Open id c t) ∧ ∀ id' c t, w'.Open id' c t →
    (w.Open id' c t ∧ id' ≠ id) ∨ (id' = id ∧ c = client ∧ t = stream)
  numbered : Numbered w → Numbered w'
  tagged : (∀ p ∈ w.exports, Tagged p) → ∀ p ∈ w'.exports, Tagged p
  sessions : (w.sessions.map Session.client).Nodup → (w'.sessions.map Session.client).Nodup
  issued : ∀ c, issued w'.sessions c =
    if c = client then stream :: issued w.sessions c else issued w.sessions c
  fresh : stream ∉ Serial.issued w.sessions client
  pos : stream ≠ 0
  log : w'.log = .handed client stream :: w.log
  written : w'.written = w.written

/-- What a request does: a grant comes last and takes nothing from anyone. -/
inductive Requested (w w' : World) : Prop
  | calm (h : Calm w w')
  | granted {u : World} {client stream : Nat} (before : Calm w u)
      (keeps : ∀ id c t, w.Open id c t → u.Open id c t)
      (h : Numbered u → Granted u w' client stream)

theorem Calm.requested {u : World} (h : Calm w u) (hkeeps : ∀ id c t, w.Open id c t → u.Open id c t)
    (h' : Requested u w') : Requested w w' := by
  cases h' with
  | calm h' => exact .calm (h.trans h')
  | granted before keeps h' =>
      exact .granted (h.trans before) (fun id c t ho => keeps id c t (hkeeps id c t ho)) h'

/-- A free export is the only one under its number. -/
theorem not_open_of_free {p : Export} {i : Nat} (hn : Numbered w) (hp : w.exports[i]? = some p)
    (hfree : p.owner = none) (c t : Nat) : ¬ w.Open p.id c t := by
  rintro ⟨q, hq, hid, howner, -⟩
  rw [List.inj_on_of_nodup_map hn.nodup hq (List.mem_of_getElem? hp) hid, hfree] at howner
  exact absurd howner (by simp)

theorem id_ne_of_slot {p q : Export} {i j : Nat} (hn : Numbered w) (hp : w.exports[i]? = some p)
    (hq : w.exports[j]? = some q) (hij : i ≠ j) : q.id ≠ p.id := by
  intro hid
  have hlt : i < (w.exports.map Export.id).length := by
    rw [List.length_map]
    exact (List.getElem?_eq_some_iff.mp hp).1
  refine hij ((List.getElem?_inj hlt hn.nodup).mp ?_)
  rw [List.getElem?_map, List.getElem?_map, hp, hq]
  exact congrArg some hid.symm

theorem granted_modify {i : Nat} {p : Export} {u : World} {f : Export → Export}
    (hh : Handed w u client stream) (hn : Numbered w) (hp : w.exports[i]? = some p)
    (hfree : p.owner = none) (hid : (f p).id = p.id) (howner : (f p).owner = some client)
    (hstream : (f p).stream = stream) (hpending : (f p).pending = p.pending) :
    Granted w (u.modifyExport i f) client stream := by
  have hslot : ∀ q ∈ (u.modifyExport i f).exports,
      q ∈ w.exports ∧ q.id ≠ p.id ∨ q = f p := by
    intro q hq
    have hq : q ∈ w.exports.modify i f := hh.exports ▸ hq
    obtain ⟨j, hj⟩ := List.mem_iff_getElem?.mp hq
    by_cases hij : i = j
    · subst hij
      rw [List.getElem?_modify_eq, hp] at hj
      exact .inr (Option.some.inj hj).symm
    · rw [List.getElem?_modify_ne _ _ hij] at hj
      exact .inl ⟨List.mem_of_getElem? hj, id_ne_of_slot hn hp hj hij⟩
  refine { open_id := ⟨p.id, not_open_of_free hn hp hfree, ?_⟩, numbered := fun hn => ⟨?_, ?_⟩,
           tagged := ?_, sessions := hh.sessions, issued := hh.issued, fresh := hh.fresh, pos := hh.pos,
           log := hh.log, written := hh.written }
  · rintro id' c t ⟨q, hq, rfl, hqo, hqs⟩
    rcases hslot q hq with ⟨hmem, hne⟩ | rfl
    · exact .inl ⟨⟨q, hmem, rfl, hqo, hqs⟩, hne⟩
    · rw [howner] at hqo
      exact .inr ⟨hid, (Option.some.inj hqo).symm, hqs.symm.trans hstream⟩
  · have hids : (u.exports.modify i f).map Export.id = w.exports.map Export.id := by
      rw [hh.exports]
      refine Lib.map_modify fun q hq => ?_
      rw [hp] at hq
      rw [← Option.some.inj hq, hid]
    show ((u.exports.modify i f).map Export.id).Nodup
    rw [hids]
    exact hn.nodup
  · intro q hq
    show q.id < u.made
    rw [hh.made]
    rcases hslot q hq with ⟨hmem, -⟩ | rfl
    · exact hn.made q hmem
    · rw [hid]
      exact hn.made p (List.mem_of_getElem? hp)
  · intro ht q hq
    rcases hslot q hq with ⟨hmem, -⟩ | rfl
    · exact ht q hmem
    · intro hne
      rw [hpending] at hne
      obtain ⟨c, hc, -⟩ := ht p (List.mem_of_getElem? hp) hne
      rw [hfree] at hc
      exact absurd hc (by simp)

/-- Something is sent after a grant. -/
theorem Granted.out (h : Granted w w' client stream) (o : Output) : Granted w (w'.out o) client stream :=
  { h with numbered := fun hn => ⟨(h.numbered hn).nodup, (h.numbered hn).made⟩ }

theorem requested_grant {i : Nat} {p : Export} (hp : w.exports[i]? = some p) (hfree : p.owner = none)
    (client : Nat) (name : String) (proposed : Settings) :
    Requested w (w.grant sys i client name proposed) := by
  unfold World.grant
  rcases allocateStream_spec sys w client with ⟨u, halloc, -, hcalm⟩ | ⟨u, stream, halloc, hh⟩
  · rw [halloc]
    exact .calm ((hcalm.trans (calm_modifyExport fun q _ => follows_closePort q)).trans
      (calm_reply _ _ _ _ _))
  · rw [halloc]
    refine @Requested.granted w _ w client stream (.refl w) (fun _ _ _ h => h) fun hn => ?_
    dsimp only
    split
    · exact granted_modify hh hn hp hfree rfl rfl rfl rfl
    · exact (granted_modify hh hn hp hfree rfl rfl rfl rfl).out _

theorem requested_openExport {i : Nat} {p : Export} (hp : w.exports[i]? = some p)
    (hfree : p.owner = none) (client : Nat) (name : String) (proposed : Settings) :
    Requested w (w.openExport sys i p client name proposed) := by
  unfold World.openExport
  split
  · exact .calm (calm_reply _ _ _ _ _)
  · dsimp only
    have hopened : Follows p (if p.virtualModem then modemEnsureRunning sys p
        else { p with fd := sys.opened p.path }) := by
      split
      · exact follows_modemEnsureRunning p
      · exact follows_of_eq rfl rfl rfl rfl rfl
    generalize (if p.virtualModem then modemEnsureRunning sys p
        else { p with fd := sys.opened p.path }) = opened at hopened
    have hfollows : Follows p { opened with buffer := [] } :=
      hopened.trans (follows_of_eq rfl rfl rfl rfl rfl)
    have hcalm : Calm w (w.modifyExport i fun _ => { opened with buffer := [] }) := by
      refine calm_modifyExport fun q hq => ?_
      rw [hp] at hq
      rw [← Option.some.inj hq]
      exact hfollows
    split
    · exact .calm (hcalm.trans (calm_reply _ _ _ _ _))
    · refine hcalm.requested ?_ (requested_grant (p := { opened with buffer := [] }) ?_ ?_ _ _ _)
      · rintro id c t ⟨q, hq, hid, howner, hstream⟩
        obtain ⟨j, hj⟩ := List.mem_iff_getElem?.mp hq
        have hij : i ≠ j := by
          intro heq
          rw [← heq, hp] at hj
          rw [← Option.some.inj hj, hfree] at howner
          exact absurd howner (by simp)
        refine ⟨q, List.mem_of_getElem? (i := j) ?_, hid, howner, hstream⟩
        show (w.exports.modify i _)[j]? = some q
        rw [List.getElem?_modify_ne _ _ hij, hj]
      · show (w.exports.modify i _)[i]? = _
        rw [List.getElem?_modify_eq, hp]
        rfl
      · rcases hfollows.owner with hnone | ⟨hsame, -⟩
        · exact hnone
        · exact hsame.trans hfree

theorem requested_open (d : Message) (client : Nat) : Requested w (w.requestOpen s sys d client) := by
  unfold World.requestOpen
  dsimp only
  split
  · exact .calm (calm_reply _ _ _ _ _)
  · split
    · exact .calm (calm_reply _ _ _ _ _)
    · split
      · split
        · exact .calm (calm_reply _ _ _ _ _)
        · exact .calm (calm_out _ _)
      · split
        · exact .calm (calm_reply _ _ _ _ _)
        · split
          · exact .calm (calm_reply _ _ _ _ _)
          · rename_i p hp
            split
            · exact .calm (calm_reply _ _ _ _ _)
            · split
              · exact .calm (calm_reply _ _ _ _ _)
              · rename_i howner
                split
                · exact .calm (calm_reply _ _ _ _ _)
                · split
                  · exact .calm (calm_reply _ _ _ _ _)
                  · refine requested_openExport hp ?_ _ _ _
                    simpa using howner

theorem calm_requestPort (d : Message) (client i : Nat) (p : Export) :
    Calm w (w.requestPort sys d client i p) := by
  unfold World.requestPort
  dsimp only
  split
  · exact .refl w
  · split
    · split
      · exact (calm_out w _).trans (calm_modifyExport fun q _ => follows_closePort q)
      · exact calm_modifyExport fun q _ => follows_of_eq rfl rfl rfl rfl rfl
    · split
      · unfold World.requestConfigure
        dsimp only
        split
        · exact calm_out w _
        · split
          · exact calm_out w _
          · split
            · refine calm_modify (i := i) ?_ rfl rfl rfl rfl ?_
              · exact fun q _ => follows_of_eq rfl rfl rfl rfl rfl
              · exact fun _ => ⟨[], rfl, fun _ hx => absurd hx List.not_mem_nil⟩
            · exact calm_out w _
      · split
        · split
          · exact calm_modifyExport fun q _ => follows_of_eq rfl rfl rfl rfl rfl
          · exact .refl w
        · exact calm_out w _

theorem calm_requestList (client : Nat) : Calm w (w.requestList s sys client) := by
  unfold World.requestList
  refine Calm.trans ?_ (calm_out _ _)
  generalize w.exports = ps
  have hfold : ∀ (ps : List Export) (u : World), Calm w u → Calm w (ps.foldl (fun u p =>
      if p.service = 0 ∧ allowed s sys (u.client? client) p = true then
        u.out (.reply client "available" (some p.name) (some (info "available" p)) none)
      else u) u) := by
    intro ps
    induction ps with
    | nil => exact fun u hu => hu
    | cons p ps ih =>
        intro u hu
        refine ih _ ?_
        show Calm w (if _ then _ else _)
        split
        · exact hu.trans (calm_out _ _)
        · exact hu
  exact hfold ps w (.refl w)

theorem requested_request (client : Nat) (message : Option Message) :
    Requested w (w.request s sys client message) := by
  unfold World.request
  split
  · exact .calm (.refl w)
  · split
    · exact .calm (calm_reply _ _ _ _ _)
    · split
      · exact .calm ((calm_serialDiscoverUsb w).trans (calm_requestList client))
      · split
        · exact (calm_serialDiscoverUsb w).requested (discover_keeps w) (requested_open _ client)
        · split
          · exact .calm (calm_reply _ _ _ _ _)
          · split
            · exact .calm (calm_reply _ _ _ _ _)
            · split
              · exact .calm (calm_reply _ _ _ _ _)
              · exact .calm (calm_requestPort _ _ _ _)

theorem calm_frame (client : Nat) (f : Option Frame) : Calm w (w.frame s sys client f) := by
  unfold World.frame
  split
  · exact .refl w
  · rename_i f
    cases hfind : w.exports.findIdx? fun p =>
        p.service == 0 && p.owner == some client && p.stream == f.stream &&
          allowed s sys (w.client? client) p with
    | none => exact .refl w
    | some i =>
        dsimp only
        split
        · exact .refl w
        · rename_i p hp
          split
          · exact (calm_out w _).trans (calm_modifyExport fun q _ => follows_closePort q)
          · obtain ⟨hi, hmatch, -⟩ := List.findIdx?_eq_some_iff_getElem.mp hfind
            refine calm_modifyExport fun q hq => ⟨rfl, .inr ⟨rfl, rfl⟩, fun _ _ => ⟨client, ?_, ?_⟩⟩
            · rw [List.getElem?_eq_getElem hi] at hq
              rw [Option.some.inj hq] at hmatch
              simp only [Bool.and_eq_true, beq_iff_eq] at hmatch
              exact hmatch.1.1.2
            · rw [List.getElem?_eq_getElem hi] at hq
              rw [Option.some.inj hq] at hmatch
              simp only [Bool.and_eq_true, beq_iff_eq] at hmatch
              exact congrArg (client, ·) hmatch.1.2.symm

/-! ### What the events keep -/

/-- The table and the record agree. -/
structure Kept (w : World) : Prop where
  numbered : Numbered w
  tagged : ∀ p ∈ w.exports, Tagged p
  sessions : (w.sessions.map Session.client).Nodup
  issued : ∀ c, issued w.sessions c = handedOut c w.log
  handed : ∀ c, (handedOut c w.log).Nodup ∧ 0 ∉ handedOut c w.log
  opened : ∀ id c t, w.Open id c t → t ∈ handedOut c w.log
  exclusive : ∀ id id' c t, w.Open id c t → w.Open id' c t → id = id'

theorem Kept.calm (hk : Kept w) (h : Calm w w') : Kept w' where
  numbered := h.numbered hk.numbered
  tagged := h.tagged hk.tagged
  sessions := h.sessions hk.sessions
  issued := fun c => by rw [h.issued c, hk.issued c, h.log]
  handed := h.log ▸ hk.handed
  opened := fun id c t ho => by rw [h.log]; exact hk.opened id c t (h.owned id c t ho)
  exclusive := fun id id' c t ho ho' => hk.exclusive id id' c t (h.owned id c t ho) (h.owned id' c t ho')

theorem Granted.handedOut (h : Granted w w' client stream) (c : Nat) : handedOut c w'.log =
    if c = client then stream :: handedOut c w.log else handedOut c w.log := by
  rw [h.log]
  show (if client = c then stream :: Serial.handedOut c w.log else Serial.handedOut c w.log) = _
  by_cases hc : client = c
  · rw [if_pos hc, if_pos hc.symm]
  · rw [if_neg hc, if_neg fun he => hc he.symm]

theorem Kept.granted (hk : Kept w) (h : Granted w w' client stream) : Kept w' where
  numbered := h.numbered hk.numbered
  tagged := h.tagged hk.tagged
  sessions := h.sessions hk.sessions
  issued := fun c => by rw [h.issued c, h.handedOut c, hk.issued c]
  handed := by
    intro c
    rw [h.handedOut c]
    split
    · rename_i hc
      subst hc
      have hfresh := h.fresh
      rw [hk.issued] at hfresh
      refine ⟨List.nodup_cons.mpr ⟨hfresh, (hk.handed c).1⟩, fun hmem => ?_⟩
      rcases List.mem_cons.mp hmem with hzero | hmem
      · exact h.pos hzero.symm
      · exact (hk.handed c).2 hmem
    · exact hk.handed c
  opened := by
    intro id c t ho
    obtain ⟨id', -, hopen⟩ := h.open_id
    rw [h.handedOut c]
    rcases hopen id c t ho with ⟨hold, -⟩ | ⟨-, rfl, rfl⟩
    · split
      · exact List.mem_cons_of_mem _ (hk.opened id c t hold)
      · exact hk.opened id c t hold
    · rw [if_pos rfl]
      exact List.mem_cons_self
  exclusive := by
    intro id id' c t ho ho'
    obtain ⟨new, -, hopen⟩ := h.open_id
    have hfresh := h.fresh
    rw [hk.issued] at hfresh
    rcases hopen id c t ho with ⟨hold, -⟩ | ⟨hid, rfl, rfl⟩
    · rcases hopen id' c t ho' with ⟨hold', -⟩ | ⟨-, rfl, rfl⟩
      · exact hk.exclusive id id' c t hold hold'
      · exact absurd (hk.opened id c t hold) hfresh
    · rcases hopen id' c t ho' with ⟨hold', -⟩ | ⟨hid', -, -⟩
      · exact absurd (hk.opened id' c t hold') hfresh
      · rw [hid, hid']

/-- The end of a connection. -/
structure Ended (w w' : World) (client : Nat) : Prop where
  owned : ∀ id c t, w'.Open id c t → w.Open id c t ∧ c ≠ client
  log : w'.log = .gone client :: w.log
  written : w'.written = w.written

theorem ended_closed (w : World) (client : Nat) : Ended w (w.closed client) client where
  owned := by
    rintro id c t ⟨p', hp', hid, howner, hstream⟩
    obtain ⟨p, hp, heq⟩ := List.mem_map.mp hp'
    by_cases hc : p.owner = some client
    · rw [if_pos hc] at heq
      subst heq
      exact absurd howner (by simp [closePort])
    · rw [if_neg hc] at heq
      subst heq
      exact ⟨⟨p, hp, hid, howner, hstream⟩, fun he => hc (he ▸ howner)⟩
  log := rfl
  written := rfl

theorem handedOut_gone (log : List Entry) (client c : Nat) :
    handedOut c (.gone client :: log) = if c = client then [] else handedOut c log := by
  by_cases hc : client = c
  · rw [if_pos hc.symm]
    exact if_pos hc
  · rw [if_neg fun he => hc he.symm]
    exact if_neg hc

/-- The session of a connection goes with it. -/
theorem issued_eraseP {sessions : List Session} (hnd : (sessions.map Session.client).Nodup)
    (client c : Nat) : issued (sessions.eraseP (·.client == client)) c =
      if c = client then [] else issued sessions c := by
  induction sessions with
  | nil =>
      rw [List.eraseP_nil]
      split
      · rfl
      · rfl
  | cons t sessions ih =>
      rw [List.map_cons, List.nodup_cons] at hnd
      by_cases ht : t.client = client
      · rw [List.eraseP_cons_of_pos (p := fun u : Session => u.client == client) (beq_iff_eq.mpr ht)]
        by_cases hc : c = client
        · rw [if_pos hc]
          refine issued_eq_nil fun u hu huc => hnd.1 ?_
          rw [ht, ← hc, ← huc]
          exact List.mem_map_of_mem hu
        · rw [if_neg hc, issued_cons_other fun he => hc (he.symm.trans ht)]
      · rw [List.eraseP_cons_of_neg (p := fun u : Session => u.client == client)
          fun he => ht (beq_iff_eq.mp he)]
        by_cases htc : t.client = c
        · have hc : c ≠ client := fun he => ht (htc.trans he)
          have heq : (t.client == c) = true := beq_iff_eq.mpr htc
          rw [if_neg hc]
          unfold issued
          rw [List.find?_cons, List.find?_cons, heq]
        · rw [issued_cons_other htc, issued_cons_other htc]
          exact ih hnd.2

theorem kept_closed (hk : Kept w) (client : Nat) : Kept (w.closed client) where
  numbered := by
    have hids : (w.closed client).exports.map Export.id = w.exports.map Export.id := by
      show (w.exports.map _).map Export.id = _
      rw [List.map_map]
      refine List.map_congr_left fun p _ => ?_
      show (if p.owner = some client then closePort p else p).id = p.id
      split
      · rfl
      · rfl
    refine ⟨hids ▸ hk.numbered.nodup, fun p' hp' => ?_⟩
    obtain ⟨p, hp, heq⟩ := List.mem_map.mp (hids ▸ List.mem_map_of_mem (f := Export.id) hp')
    rw [← heq]
    exact hk.numbered.made p hp
  tagged := by
    intro p' hp'
    obtain ⟨p, hp, rfl⟩ := List.mem_map.mp hp'
    split
    · exact tagged_closePort p
    · exact hk.tagged p hp
  sessions := hk.sessions.sublist (List.eraseP_sublist.map _)
  issued := by
    intro c
    show issued (w.sessions.eraseP _) c = handedOut c (.gone client :: w.log)
    rw [issued_eraseP hk.sessions, handedOut_gone, hk.issued c]
  handed := by
    intro c
    rw [(ended_closed w client).log, handedOut_gone]
    split
    · exact ⟨List.nodup_nil, List.not_mem_nil⟩
    · exact hk.handed c
  opened := by
    intro id c t ho
    obtain ⟨hold, hne⟩ := (ended_closed w client).owned id c t ho
    rw [(ended_closed w client).log, handedOut_gone, if_neg hne]
    exact hk.opened id c t hold
  exclusive := fun id id' c t ho ho' => hk.exclusive id id' c t
    ((ended_closed w client).owned id c t ho).1 ((ended_closed w client).owned id' c t ho').1

/-! ### Runs -/

/-- An event is a request, or calm, or the end of a connection. -/
theorem step_cases (w : World) (e : Event) :
    Requested w (w.step s e) ∨ ∃ client, e = .closed client ∧ w.step s e = w.closed client := by
  cases e with
  | connect c =>
      refine .inl (.calm ?_)
      show Calm w (if _ then _ else _)
      split
      · exact .refl w
      · exact calm_of_eq rfl rfl rfl rfl rfl
  | change c => exact .inl (.calm (calm_of_eq rfl rfl rfl rfl rfl))
  | request sys client message => exact .inl (requested_request client message)
  | frame sys client f => exact .inl (.calm (calm_frame client f))
  | poll sys => exact .inl (.calm (calm_poll w))
  | discover sys => exact .inl (.calm (calm_serialDiscoverUsb w))
  | closed client => exact .inr ⟨client, rfl, rfl⟩

theorem kept_step (hk : Kept w) (e : Event) : Kept (w.step s e) := by
  rcases step_cases (s := s) w e with hr | ⟨client, -, hstep⟩
  · cases hr with
    | calm h => exact hk.calm h
    | granted before _ h => exact (hk.calm before).granted (h (hk.calm before).numbered)
  · rw [hstep]
    exact kept_closed hk client

theorem kept_run (hk : Kept w) (events : List Event) : Kept (w.run s events) := by
  induction events generalizing w with
  | nil => exact hk
  | cons e events ih => exact ih (kept_step hk e)

theorem kept_start (bindings : List Binding) : Kept (.start bindings) := by
  have hfree : ∀ p ∈ (World.start bindings).exports, p.owner = none ∧ p.pending = [] := by
    intro p hp
    obtain ⟨b, -, rfl⟩ := List.mem_map.mp hp
    exact ⟨rfl, rfl⟩
  have hopen : ∀ id c t, ¬ (World.start bindings).Open id c t := by
    rintro id c t ⟨p, hp, -, howner, -⟩
    rw [(hfree p hp).1] at howner
    exact absurd howner (by simp)
  have hids : (World.start bindings).exports.map Export.id =
      List.range' 0 (bindings.take portsMax).length := by
    show (((bindings.take portsMax).zipIdx).map _).map Export.id = _
    rw [List.map_map]
    exact List.zipIdx_map_snd 0 _
  exact {
    numbered := by
      refine ⟨hids ▸ List.nodup_range', fun p hp => ?_⟩
      have hmem : p.id ∈ (World.start bindings).exports.map Export.id := List.mem_map_of_mem hp
      rw [hids, List.mem_range'_1] at hmem
      show p.id < (bindings.take portsMax).length
      omega
    tagged := fun p hp hne => absurd (hfree p hp).2 hne
    sessions := List.nodup_nil
    issued := fun _ => rfl
    handed := fun _ => ⟨List.nodup_nil, List.not_mem_nil⟩
    opened := fun id c t ho => absurd ho (hopen id c t)
    exclusive := fun id _ c t ho _ => absurd ho (hopen id c t) }

/-- An export under a number has one owner and one stream. -/
theorem Kept.open_unique (hk : Kept w) {id c t c' t' : Nat} (h : w.Open id c t) (h' : w.Open id c' t') :
    c = c' ∧ t = t' := by
  obtain ⟨p, hp, hid, howner, hstream⟩ := h
  obtain ⟨q, hq, hid', howner', hstream'⟩ := h'
  have heq : p = q := List.inj_on_of_nodup_map hk.numbered.nodup hp hq (hid.trans hid'.symm)
  subst heq
  rw [howner] at howner'
  exact ⟨Option.some.inj howner', hstream.symm.trans hstream'⟩

/-- Whoever owns an export after an event had it before, or it was free. -/
theorem Kept.steady (hk : Kept w) (e : Event) {id c t c' t' : Nat} (h : w.Open id c t)
    (h' : (w.step s e).Open id c' t') : c = c' ∧ t = t' := by
  rcases step_cases (s := s) w e with hr | ⟨client, -, hstep⟩
  · cases hr with
    | calm hcalm => exact hk.open_unique h (hcalm.owned _ _ _ h')
    | granted before keeps hgrant =>
        obtain ⟨new, hfree, hopen⟩ := (hgrant (hk.calm before).numbered).open_id
        rcases hopen id c' t' h' with ⟨hold, -⟩ | ⟨rfl, -, -⟩
        · exact hk.open_unique h (before.owned _ _ _ hold)
        · exact absurd (keeps _ _ _ h) (hfree c t)
  · rw [hstep] at h'
    exact hk.open_unique h ((ended_closed w client).owned _ _ _ h').1

/-- A stream was handed out on a connection that lasts, and is not open any more. -/
structure Retired (w : World) (client stream : Nat) : Prop where
  handed : stream ∈ handedOut client w.log
  shut : ∀ id, ¬ w.Open id client stream

/-- What was written for a stream. -/
def writtenFor (w : World) (client stream : Nat) : List Write :=
  w.written.filter fun x => x.client == client && x.stream == stream

theorem Wrote.writtenFor (h : Wrote w w') (hshut : ∀ id, ¬ w.Open id client stream) :
    writtenFor w' client stream = writtenFor w client stream := by
  obtain ⟨new, hnew, hopen⟩ := h
  unfold Serial.writtenFor
  rw [hnew, List.filter_append, List.filter_eq_nil_iff.mpr, List.nil_append]
  intro x hx hmatch
  rw [Bool.and_eq_true, beq_iff_eq, beq_iff_eq] at hmatch
  exact hshut x.port (hmatch.1 ▸ hmatch.2 ▸ hopen x hx)

/-- A retired stream stays retired while its connection lasts, and nothing is written for it. -/
theorem Retired.step (hk : Kept w) (h : Retired w client stream) {e : Event} (he : e ≠ .closed client) :
    Retired (w.step s e) client stream ∧
      writtenFor (w.step s e) client stream = writtenFor w client stream := by
  rcases step_cases (s := s) w e with hr | ⟨c, heq, hstep⟩
  · cases hr with
    | calm hcalm =>
        refine ⟨⟨?_, fun id ho => h.shut id (hcalm.owned _ _ _ ho)⟩,
          (hcalm.written hk.tagged).writtenFor h.shut⟩
        rw [hcalm.log]
        exact h.handed
    | @granted u c new before _ hgrant =>
        have hku := hk.calm before
        have hg := hgrant hku.numbered
        have hhanded : stream ∈ handedOut client u.log := by
          rw [before.log]
          exact h.handed
        refine ⟨⟨?_, fun id ho => ?_⟩, ?_⟩
        · rw [hg.handedOut client]
          split
          · exact List.mem_cons_of_mem _ hhanded
          · exact hhanded
        · obtain ⟨id', -, hopen⟩ := hg.open_id
          rcases hopen id client stream ho with ⟨hold, -⟩ | ⟨-, rfl, rfl⟩
          · exact h.shut id (before.owned _ _ _ hold)
          · have hfresh := hg.fresh
            rw [hku.issued] at hfresh
            exact hfresh hhanded
        · have hwritten := (before.written hk.tagged).writtenFor h.shut
          unfold writtenFor at hwritten ⊢
          rw [hg.written]
          exact hwritten
  · have hne : client ≠ c := by
      intro hc
      rw [hc] at he
      exact he heq
    rw [hstep]
    refine ⟨⟨?_, fun id ho => h.shut id ((ended_closed w c).owned _ _ _ ho).1⟩, ?_⟩
    · rw [(ended_closed w c).log, handedOut_gone, if_neg hne]
      exact h.handed
    · unfold writtenFor
      rw [(ended_closed w c).written]

theorem Retired.run (hk : Kept w) (h : Retired w client stream) {events : List Event}
    (hlasts : ∀ e ∈ events, e ≠ .closed client) :
    Retired (w.run s events) client stream ∧
      writtenFor (w.run s events) client stream = writtenFor w client stream := by
  induction events generalizing w with
  | nil => exact ⟨h, rfl⟩
  | cons e events ih =>
      obtain ⟨h', hwritten⟩ := h.step (s := s) hk (hlasts e List.mem_cons_self)
      obtain ⟨hrun, hwritten'⟩ := ih (kept_step hk e) h' fun e' he' => hlasts e' (List.mem_cons_of_mem _ he')
      exact ⟨hrun, hwritten'.trans hwritten⟩

/-- A frame for a stream that is not open finds no port. -/
theorem frame_ignored (hshut : ∀ id, ¬ w.Open id client stream) (sys : Sys) (f : Frame)
    (hf : f.stream = stream) : w.frame s sys client (some f) = w := by
  unfold World.frame
  have hnone : w.exports.findIdx? (fun p => p.service == 0 && p.owner == some client &&
      p.stream == f.stream && allowed s sys (w.client? client) p) = none := by
    rw [List.findIdx?_eq_none_iff]
    intro p hp
    by_contra hmatch
    rw [Bool.not_eq_false] at hmatch
    simp only [Bool.and_eq_true, beq_iff_eq] at hmatch
    exact hshut p.id ⟨p, hp, rfl, hmatch.1.1.2, hmatch.1.2.trans hf⟩
  dsimp only
  rw [hnone]

/-- **The tunnel keeps streams apart.**  In any run: an export belongs to one stream, a stream to
one export, and nobody is displaced; streams are nonzero and handed out once on a connection;
a frame for a stream that was closed does nothing, and nothing is written for that stream, for
as long as the connection lasts; and when it ends it owns nothing. -/
theorem tunnel_ownership (s : Setup) (bindings : List Binding) (events : List Event) :
    let w := (World.start bindings).run s events
    (∀ id c t c' t', w.Open id c t → w.Open id c' t' → c = c' ∧ t = t') ∧
    (∀ id id' c t, w.Open id c t → w.Open id' c t → id = id') ∧
    (∀ e id c t c' t', w.Open id c t → (w.step s e).Open id c' t' → c = c' ∧ t = t') ∧
    (∀ c, (handedOut c w.log).Nodup ∧ 0 ∉ handedOut c w.log ∧
      ∀ id t, w.Open id c t → t ∈ handedOut c w.log) ∧
    (∀ c t, Retired w c t → ∀ more, (∀ e ∈ more, e ≠ .closed c) →
      writtenFor (w.run s more) c t = writtenFor w c t ∧
      ∀ sys f, f.stream = t → (w.run s more).step s (.frame sys c (some f)) = w.run s more) ∧
    (∀ c id t, ¬ (w.step s (.closed c)).Open id c t) := by
  intro w
  have hk : Kept w := kept_run (kept_start bindings) events
  refine ⟨fun _ _ _ _ _ h h' => hk.open_unique h h', hk.exclusive,
    fun e _ _ _ _ _ h h' => hk.steady e h h', fun c => ⟨(hk.handed c).1, (hk.handed c).2,
      fun id t ho => hk.opened id c t ho⟩, ?_, ?_⟩
  · intro c t hretired more hlasts
    obtain ⟨hrun, hwritten⟩ := hretired.run (s := s) hk hlasts
    exact ⟨hwritten, fun sys f hf => frame_ignored hrun.shut sys f hf⟩
  · intro c id t ho
    exact ((ended_closed w c).owned id c t ho).2 rfl

end Serial

end RustyRig
