/-
Runs of submissions and reviews.

The two handlers share their shape: behind `BEGIN` every way out has either committed or rolled
back, so no handler leaves a transaction open, and one that fails leaves the tables it found.
From that and from what one review does (`Reviewed`) follow the statements about a run: a request
leaves `pending` once (`Settled` is never lost), and what any request asks for goes back to the
tables at the start or to a submission (`Asked`).
-/
import RustyRig.Proofs.AccessRequests.Grants

namespace RustyRig

namespace AccessRequests

open Lib (Keyed Along)
open Policy

variable {now : Int} {q : AccessRequest} {chatname : Text} {fails : Call → Bool} {c c' : Connection} {v : Review}
  {number : Nat} {granted : Bool} {before after : Tables} {u : UuidTest}

/-! ### A transaction -/

theorem start_spec {fail : Bool} (h : c.start fail = some c') : c' = { c with saved := some c.now } := by
  unfold Connection.start at h
  split at h
  · exact absurd h (by simp)
  · exact (Option.some.inj h).symm

theorem commit_spec {fail : Bool} (h : c.commit fail = some c') : c' = { c with saved := none } := by
  unfold Connection.commit at h
  split at h
  · exact absurd h (by simp)
  · exact (Option.some.inj h).symm

/-! ### A review -/

/-- What a review that goes through has done. -/
structure Reviewed (v : Review) (granted : Bool) (number : Nat) (chatname : Text) (before after : Tables)
    (q : AccessRequest) : Prop where
  found : pending? before number = some q
  user : q.subjectUser ≠ []
  targets : after.targets = before.targets
  requests : after.requests =
    (setStatus before number (if granted then .granted else .denied) chatname).2.requests
  served : granted = true → ∀ now, Grown now q v.remote (targetsOf before q.id) before.rules after.rules ∧
    ∀ token ∈ tokensOf v.grants, tokenValid token = true ∧
      Served now q v.remote (targetsOf before q.id) before.rules after.rules token
  same : granted = false → after.rules = before.rules

theorem closeReview_spec (h : closeReview fails chatname v granted number q c = (true, c')) :
    c'.saved = none ∧ c'.now.rules = c.now.rules ∧ c'.now.targets = c.now.targets ∧
      c'.now.requests = (setStatus c.now number (if granted then .granted else .denied) chatname).2.requests := by
  unfold closeReview at h
  generalize (if granted = true then Status.granted else Status.denied) = status at h ⊢
  split at h
  · exact absurd h (by simp)
  dsimp only at h
  split at h
  · exact absurd h (by simp)
  split at h
  · exact absurd h (by simp)
  · rename_i c₁ hcommit
    obtain ⟨-, rfl⟩ := Prod.mk.inj h
    obtain rfl := commit_spec hcommit
    exact ⟨rfl, rfl, rfl, rfl⟩

/-- A transaction that does not come to its end is still open. -/
theorem closeReview_saved (h : closeReview fails chatname v granted number q c = (false, c')) :
    c'.saved = c.saved := by
  unfold closeReview at h
  generalize (if granted = true then Status.granted else Status.denied) = status at h
  split at h
  · obtain ⟨-, rfl⟩ := Prod.mk.inj h
    rfl
  dsimp only at h
  split at h
  · obtain ⟨-, rfl⟩ := Prod.mk.inj h
    rfl
  split at h
  · obtain ⟨-, rfl⟩ := Prod.mk.inj h
    rfl
  · exact absurd h (by simp)

theorem reviewIn_spec (h : reviewIn fails chatname v granted number c = (true, c')) :
    c'.saved = none ∧ ∃ q, Reviewed v granted number chatname c.now c'.now q := by
  unfold reviewIn at h
  split at h
  · exact absurd h (by simp)
  rename_i q hselect
  have hfound : pending? c.now number = some q := by
    split at hselect
    · exact absurd hselect (by simp)
    · exact hselect
  split at h
  · exact absurd h (by simp)
  rename_i huser
  split at h
  · exact absurd h (by simp)
  rename_i c₁ hloop
  split at h
  · exact absurd h (by simp)
  obtain ⟨hsaved, hrules, htargets, hrequests⟩ := closeReview_spec h
  refine ⟨hsaved, q, ?_⟩
  cases granted with
  | false =>
      obtain ⟨-, rfl⟩ := Prod.mk.inj hloop
      exact ⟨hfound, huser, htargets, hrequests, fun hgranted => absurd hgranted (by simp), fun _ => hrules⟩
  | true =>
      rw [if_pos rfl] at hloop
      obtain ⟨rules, rfl, -⟩ := grantTokens_spec 0 _ _ _ _ hloop
      refine ⟨hfound, huser, htargets, hrequests, fun _ now => ?_, fun hdenied => absurd hdenied (by simp)⟩
      obtain ⟨rules', heq, hgrown, hserved⟩ := grantTokens_spec now _ _ _ _ hloop
      obtain rfl : rules = rules' := congrArg (fun c => c.now.rules) heq
      rw [hrules]
      exact ⟨hgrown, hserved⟩

theorem reviewIn_saved (h : reviewIn fails chatname v granted number c = (false, c')) : c'.saved = c.saved := by
  unfold reviewIn at h
  split at h
  · obtain ⟨-, rfl⟩ := Prod.mk.inj h
    rfl
  rename_i q hselect
  split at h
  · obtain ⟨-, rfl⟩ := Prod.mk.inj h
    rfl
  have hloop : (if granted = true then grantTokens fails q v.remote chatname 0 (tokensOf v.grants) c
      else (true, c)).2.saved = c.saved := by
    split
    · exact grantTokens_saved _ _ _
    · rfl
  split at h
  · rename_i c₁ hend
    rw [hend] at hloop
    obtain ⟨-, rfl⟩ := Prod.mk.inj h
    exact hloop
  · rename_i c₁ hend
    rw [hend] at hloop
    split at h
    · obtain ⟨-, rfl⟩ := Prod.mk.inj h
      exact hloop
    · exact (closeReview_saved h).trans hloop

/-- The decision of a review that goes through. -/
theorem review_spec {admin owner : Bool} (hc : c.saved = none) :
    (review admin owner fails chatname v c).2.saved = none ∧
    ((review admin owner fails chatname v c).2.now = c.now ∨
      ∃ number granted q, requestNumber v.id = some number ∧ granted = decide (v.decision = ascii "granted") ∧
        Reviewed v granted number chatname c.now (review admin owner fails chatname v c).2.now q) := by
  unfold review
  split
  · exact ⟨hc, Or.inl rfl⟩
  split
  · exact ⟨hc, Or.inl rfl⟩
  split
  · exact ⟨hc, Or.inl rfl⟩
  rename_i number hselect
  have hnumber : requestNumber v.id = some number := by
    split at hselect
    · exact absurd hselect (by simp)
    · exact hselect
  dsimp only
  split
  · exact ⟨hc, Or.inl rfl⟩
  split
  · exact ⟨hc, Or.inl rfl⟩
  rename_i c₁ hstart
  have hopen := start_spec hstart
  split
  · rename_i c₂ hin
    obtain ⟨hsaved, q, hreviewed⟩ := reviewIn_spec hin
    rw [hopen] at hreviewed
    exact ⟨hsaved, Or.inr ⟨number, _, q, hnumber, rfl, hreviewed⟩⟩
  · rename_i c₂ hin
    have hback : c₂.rollback = ⟨c.now, none⟩ := by
      unfold Connection.rollback
      rw [reviewIn_saved hin, hopen]
    rw [hback]
    exact ⟨rfl, Or.inl rfl⟩

/-! ### Requests that are settled -/

/-- The request has left `pending`. -/
def Settled (rs : Keyed AccessRequest.id) (id : Nat) : Prop := ∃ r ∈ rs.rows, r.id = id ∧ r.status ≠ .pending

/-- What every step does to the requests: none is lost, and none that is settled becomes pending. -/
structure Forward (rs rs' : Keyed AccessRequest.id) : Prop where
  kept : ∀ r ∈ rs.rows, ∃ r' ∈ rs'.rows, r'.id = r.id
  settled : ∀ id, Settled rs id → Settled rs' id

theorem Forward.refl (rs : Keyed AccessRequest.id) : Forward rs rs where
  kept := fun r hr => ⟨r, hr, rfl⟩
  settled := fun _ h => h

theorem forward_modify {rs : Keyed AccessRequest.id} {n : Nat} {update : AccessRequest → AccessRequest}
    (hid : ∀ r, (update r).id = r.id) (h : ∀ r, r.status ≠ .pending → (update r).status ≠ .pending) :
    Forward rs (rs.modify n update hid) := by
  have hrow : ∀ r ∈ rs.rows, ∃ r' ∈ (rs.modify n update hid).rows, r'.id = r.id ∧
      (r.status ≠ .pending → r'.status ≠ .pending) := by
    intro r hr
    by_cases hn : r.id = n
    · exact ⟨update r, Keyed.mem_modify.mpr (Or.inr ⟨r, hr, hn, rfl⟩), hid r, h r⟩
    · exact ⟨r, Keyed.mem_modify.mpr (Or.inl ⟨hr, hn⟩), rfl, fun hstatus => hstatus⟩
  constructor
  · intro r hr
    obtain ⟨r', hr', hsame, -⟩ := hrow r hr
    exact ⟨r', hr', hsame⟩
  · rintro id ⟨r, hr, rfl, hstatus⟩
    obtain ⟨r', hr', hsame, hstatus'⟩ := hrow r hr
    exact ⟨r', hr', hsame, hstatus' hstatus⟩

theorem forward_insert {rs : Keyed AccessRequest.id} {new : AccessRequest} {h : new.id ∉ rs.rows.map AccessRequest.id} :
    Forward rs (rs.insert new h) where
  kept := fun r hr => ⟨r, Keyed.mem_insert.mpr (.inl hr), rfl⟩
  settled := fun _ ⟨r, hr, hid, hstatus⟩ => ⟨r, Keyed.mem_insert.mpr (.inl hr), hid, hstatus⟩

theorem pending?_mem {t : Tables} (h : pending? t number = some q) :
    q ∈ t.requests.rows ∧ q.id = number ∧ q.status = .pending := by
  have htest := List.find?_some h
  simp only [Bool.and_eq_true, decide_eq_true_eq] at htest
  exact ⟨List.mem_of_find?_eq_some h, htest⟩

theorem Reviewed.forward (h : Reviewed v granted number chatname before after q) :
    Forward before.requests after.requests := by
  rw [h.requests]
  refine forward_modify (AccessRequest.reviewed_id _ _) fun r hr => ?_
  unfold AccessRequest.reviewed
  rw [if_neg hr]
  exact hr

/-- The request of a review that goes through is settled, as was decided. -/
theorem Reviewed.settles (h : Reviewed v granted number chatname before after q) :
    ∃ r ∈ after.requests.rows, r.id = q.id ∧ r.status = if granted then .granted else .denied := by
  obtain ⟨hq, hid, hpending⟩ := pending?_mem h.found
  rw [h.requests]
  refine ⟨q.reviewed (if granted then .granted else .denied) chatname, ?_, AccessRequest.reviewed_id _ _ q, ?_⟩
  · exact Keyed.mem_modify (h := AccessRequest.reviewed_id _ _).mpr (Or.inr ⟨q, hq, hid, rfl⟩)
  · unfold AccessRequest.reviewed
    rw [if_pos hpending]

/-! ### A submission -/

/-- What a submission that goes through has done: it has written the row of the subject's pending request,
or a new one, and has added the target to it. -/
structure Submitted (before after : Tables) (chatname : Text) (kind uuid : Word) (id : Nat) : Prop where
  rules : after.rules = before.rules
  targets : ∀ x ∈ after.targets.rows, x ∈ before.targets.rows ∨ x = ⟨id, kind, uuid⟩
  requests : (after.requests = (before.updateRequest id (.retargeted kind uuid)
      (AccessRequest.retargeted_id kind uuid)).requests ∧
      ∃ p ∈ before.requests.rows, p.id = id ∧ fold p.subjectUser = fold chatname ∧ p.subjectHost = []) ∨
    (after.requests = (before.insertRequest chatname kind uuid).requests ∧ id = before.nextId)

theorem Submitted.forward {kind uuid : Word} {id : Nat} (h : Submitted before after chatname kind uuid id) :
    Forward before.requests after.requests := by
  rcases h.requests with ⟨heq, -⟩ | ⟨heq, -⟩
  · rw [heq]
    exact forward_modify (AccessRequest.retargeted_id kind uuid) fun r hr => hr
  · rw [heq]
    exact forward_insert (h := Lib.next_notMem _)

theorem pendingId_spec {t : Tables} (h : pendingId t chatname ≠ 0) :
    ∃ p ∈ t.requests.rows, p.id = pendingId t chatname ∧ fold p.subjectUser = fold chatname ∧ p.subjectHost = [] := by
  unfold pendingId at h ⊢
  generalize hfind : t.requests.rows.find? _ = found at h ⊢
  cases found with
  | none => exact absurd rfl h
  | some p =>
      have htest := List.find?_some hfind
      simp only [Bool.and_eq_true, decide_eq_true_eq] at htest
      exact ⟨p, List.mem_of_find?_eq_some hfind, rfl, htest.1.1, htest.1.2⟩

theorem addTarget_spec {t t' : Tables} {x : Target} (h : t.addTarget x = some t') :
    t'.rules = t.rules ∧ t'.requests = t.requests ∧ ∀ y ∈ t'.targets.rows, y ∈ t.targets.rows ∨ y = x := by
  unfold Tables.addTarget at h
  split at h
  · obtain rfl := Option.some.inj h
    exact ⟨rfl, rfl, fun _ hy => Or.inl hy⟩
  rename_i hfree
  split at h
  · obtain rfl := Option.some.inj h
    exact ⟨rfl, rfl, fun _ hy => Keyed.mem_insert (h := hfree).mp hy⟩
  · exact absurd h (by simp)

theorem writeRequest_spec {t t' : Tables} {kind uuid : Word} {id : Nat}
    (h : writeRequest t chatname kind uuid = (id, t')) :
    t'.rules = t.rules ∧ t'.targets = t.targets ∧
    ((t'.requests = (t.updateRequest id (.retargeted kind uuid) (AccessRequest.retargeted_id kind uuid)).requests ∧
      ∃ p ∈ t.requests.rows, p.id = id ∧ fold p.subjectUser = fold chatname ∧ p.subjectHost = []) ∨
    (t'.requests = (t.insertRequest chatname kind uuid).requests ∧ id = t.nextId)) := by
  unfold writeRequest at h
  dsimp only at h
  split at h
  · rename_i hpending
    obtain ⟨rfl, rfl⟩ := Prod.mk.inj h
    exact ⟨rfl, rfl, Or.inl ⟨rfl, pendingId_spec hpending⟩⟩
  · obtain ⟨rfl, rfl⟩ := Prod.mk.inj h
    exact ⟨rfl, rfl, Or.inr ⟨rfl, rfl⟩⟩

theorem submitIn_spec {kind uuid : Word} (h : submitIn fails chatname kind uuid c = (true, c')) :
    c'.saved = none ∧ ∃ id, Submitted c.now c'.now chatname kind uuid id := by
  unfold submitIn at h
  split at h
  · exact absurd h (by simp)
  rename_i c₁ hstart
  obtain rfl := start_spec hstart
  split at h
  · exact absurd h (by simp)
  generalize hwrite : writeRequest c.now chatname kind uuid = w at h
  obtain ⟨id, t⟩ := w
  obtain ⟨hrules, htargets, hrequests⟩ := writeRequest_spec hwrite
  dsimp only at h
  split at h
  · exact absurd h (by simp)
  rename_i t' hadd
  have hadd : t.addTarget ⟨id, kind, uuid⟩ = some t' := by
    split at hadd
    · exact absurd hadd (by simp)
    · exact hadd
  obtain ⟨hrules', hrequests', htargets'⟩ := addTarget_spec hadd
  split at h
  · exact absurd h (by simp)
  split at h
  · exact absurd h (by simp)
  rename_i c₂ hcommit
  obtain rfl := commit_spec hcommit
  obtain ⟨-, rfl⟩ := Prod.mk.inj h
  refine ⟨rfl, id, hrules'.trans hrules, ?_, ?_⟩
  · intro x hx
    rw [← htargets]
    exact htargets' x hx
  · show (t'.requests = _ ∧ _) ∨ (t'.requests = _ ∧ _)
    rw [hrequests']
    exact hrequests

theorem submitIn_back {kind uuid : Word} (hc : c.saved = none)
    (h : submitIn fails chatname kind uuid c = (false, c')) : c'.rollback = c := by
  have hback : ∀ c' : Connection, c'.saved = some c.now → c'.rollback = c := by
    intro c' hsaved
    unfold Connection.rollback
    rw [hsaved]
    show (⟨c.now, none⟩ : Connection) = c
    rw [← hc]
  unfold submitIn at h
  split at h
  · obtain ⟨-, rfl⟩ := Prod.mk.inj h
    unfold Connection.rollback
    rw [hc]
  rename_i c₁ hstart
  obtain rfl := start_spec hstart
  split at h
  · obtain ⟨-, rfl⟩ := Prod.mk.inj h
    exact hback _ rfl
  generalize writeRequest c.now chatname kind uuid = w at h
  obtain ⟨id, t⟩ := w
  dsimp only at h
  split at h
  · obtain ⟨-, rfl⟩ := Prod.mk.inj h
    exact hback _ rfl
  split at h
  · obtain ⟨-, rfl⟩ := Prod.mk.inj h
    exact hback _ rfl
  split at h
  · obtain ⟨-, rfl⟩ := Prod.mk.inj h
    exact hback _ rfl
  · exact absurd h (by simp)

theorem submit_spec (u : UuidTest) (fails : Call → Bool) (chatname kind uuid reason : Text) (hc : c.saved = none) :
    (submit u fails chatname kind uuid reason c).2.saved = none ∧
    ((submit u fails chatname kind uuid reason c).2.now = c.now ∨
      ∃ k i id, k.val = kind ∧ i.val = uuid ∧
        Submitted c.now (submit u fails chatname kind uuid reason c).2.now chatname k i id) := by
  unfold submit
  split
  · split
    · rename_i c₁ hin
      obtain ⟨hsaved, id, hsubmitted⟩ := submitIn_spec hin
      exact ⟨hsaved, Or.inr ⟨_, _, id, rfl, rfl, hsubmitted⟩⟩
    · rename_i c₁ hin
      rw [submitIn_back hc hin]
      exact ⟨hc, Or.inl rfl⟩
  · exact ⟨hc, Or.inl rfl⟩

/-! ### Requests over a run -/

theorem step_saved (e : Event) (hc : c.saved = none) : (step u c e).saved = none := by
  cases e with
  | submit chatname kind uuid reason fails => exact (submit_spec u fails chatname kind uuid reason hc).1
  | review admin owner chatname v fails now => exact (review_spec hc).1

theorem step_forward (e : Event) (hc : c.saved = none) : Forward c.now.requests (step u c e).now.requests := by
  cases e with
  | submit chatname kind uuid reason fails =>
      rcases (submit_spec u fails chatname kind uuid reason hc).2 with h | ⟨k, i, id, -, -, hsubmitted⟩
      · rw [step, h]
        exact Forward.refl _
      · exact hsubmitted.forward
  | review admin owner chatname v fails now =>
      rcases (review_spec hc).2 with h | ⟨number, granted, q, -, -, hreviewed⟩
      · rw [step, h]
        exact Forward.refl _
      · exact hreviewed.forward

/-- The request leaves `pending`. -/
def Leaves (t t' : Tables) (id : Nat) : Prop :=
  (∃ r ∈ t.requests.rows, r.id = id ∧ r.status = .pending) ∧ ¬ ∃ r ∈ t'.requests.rows, r.id = id ∧ r.status = .pending

instance (t t' : Tables) (id : Nat) : Decidable (Leaves t t' id) := inferInstanceAs (Decidable (_ ∧ ¬ _))

/-- How often a request leaves `pending` in a run. -/
def departures (u : UuidTest) (id : Nat) : Connection → List Event → Nat
  | _, [] => 0
  | c, e :: es => (if Leaves c.now (step u c e).now id then 1 else 0) + departures u id (step u c e) es

theorem departures_settled {id : Nat} : ∀ (es : List Event) (c : Connection), c.saved = none →
    Settled c.now.requests id → departures u id c es = 0 := by
  intro es
  induction es with
  | nil => exact fun _ _ _ => rfl
  | cons e es ih =>
      intro c hc hsettled
      have hnot : ¬ Leaves c.now (step u c e).now id := by
        rintro ⟨⟨r, hr, hid, hpending⟩, -⟩
        obtain ⟨r', hr', hid', hstatus⟩ := hsettled
        obtain rfl := c.now.requests.eq_of_key hr hr' (hid.trans hid'.symm)
        exact hstatus hpending
      rw [departures, if_neg hnot, Nat.zero_add]
      exact ih _ (step_saved e hc) ((step_forward e hc).settled id hsettled)

theorem departures_le {id : Nat} : ∀ (es : List Event) (c : Connection), c.saved = none →
    departures u id c es ≤ 1 := by
  intro es
  induction es with
  | nil => exact fun _ _ => Nat.zero_le 1
  | cons e es ih =>
      intro c hc
      rw [departures]
      by_cases hleaves : Leaves c.now (step u c e).now id
      · have hsettled : Settled (step u c e).now.requests id := by
          obtain ⟨⟨r, hr, rfl, -⟩, hnone⟩ := hleaves
          obtain ⟨r', hr', hid⟩ := (step_forward e hc).kept r hr
          exact ⟨r', hr', hid, fun hpending => hnone ⟨r', hr', hid, hpending⟩⟩
        rw [if_pos hleaves, departures_settled es _ (step_saved e hc) hsettled]
      · rw [if_neg hleaves, Nat.zero_add]
        exact ih _ (step_saved e hc)

/-! ### Where a target comes from -/

/-- A target of a request: the one its row names, and those it has accumulated. -/
def Requested (t : Tables) (r : AccessRequest) (kind uuid : Text) : Prop :=
  (kind = r.kind.val ∧ uuid = r.uuid.val) ∨ ∃ x ∈ targetsOf t r.id, kind = x.kind.val ∧ uuid = x.uuid.val

/-- The subject has asked for the target: before the run began, or in the run so far. -/
def Asked (t₀ : Tables) (past : List Event) (user host kind uuid : Text) : Prop :=
  (∃ r ∈ t₀.requests.rows, fold r.subjectUser = fold user ∧ fold r.subjectHost = fold host ∧ Requested t₀ r kind uuid) ∨
  (host = [] ∧ ∃ chatname reason fails, .submit chatname kind uuid reason fails ∈ past ∧ fold chatname = fold user)

variable {t₀ : Tables} {past : List Event} {user host kind uuid : Text}

theorem Asked.mono {more : List Event} (h : Asked t₀ past user host kind uuid) :
    Asked t₀ (past ++ more) user host kind uuid := by
  rcases h with h | ⟨hhost, chatname, reason, fails, hpast, huser⟩
  · exact Or.inl h
  · exact Or.inr ⟨hhost, chatname, reason, fails, List.mem_append_left more hpast, huser⟩

theorem Asked.congr {user' host' : Text} (h : Asked t₀ past user host kind uuid) (huser : fold user' = fold user)
    (hhost : fold host' = fold host) : Asked t₀ past user' host' kind uuid := by
  rcases h with ⟨r, hr, hu, hh, hrequested⟩ | ⟨rfl, chatname, reason, fails, hpast, hu⟩
  · exact Or.inl ⟨r, hr, hu.trans huser.symm, hh.trans hhost.symm, hrequested⟩
  · exact Or.inr ⟨List.map_eq_nil_iff.mp hhost, chatname, reason, fails, hpast, hu.trans huser.symm⟩

/-- Whatever a request asks for, its subject has asked for. -/
def Origin (t₀ : Tables) (past : List Event) (t : Tables) : Prop :=
  ∀ r ∈ t.requests.rows, ∀ kind uuid, Requested t r kind uuid →
    Asked t₀ past r.subjectUser r.subjectHost kind uuid

theorem origin_opened (t₀ : Tables) : Origin t₀ [] t₀ :=
  fun r hr _ _ h => Or.inl ⟨r, hr, rfl, rfl, h⟩

theorem mem_targetsOf {t : Tables} {id : Nat} {x : Target} :
    x ∈ targetsOf t id ↔ x ∈ t.targets.rows ∧ x.requestId = id := by
  unfold targetsOf
  rw [List.mem_filter, decide_eq_true_eq]

theorem Reviewed.origin (h : Reviewed v granted number chatname before after q) (ho : Origin t₀ past before) :
    Origin t₀ past after := by
  intro r hr kind uuid hrequested
  have hrequested' : ∀ r' : AccessRequest, r'.id = r.id → r'.kind = r.kind → r'.uuid = r.uuid →
      Requested before r' kind uuid := by
    intro r' hid hkind huuid
    unfold Requested targetsOf at hrequested ⊢
    rw [hid, hkind, huuid, ← h.targets]
    exact hrequested
  rw [h.requests] at hr
  rcases Keyed.mem_modify (h := AccessRequest.reviewed_id _ _).mp hr with ⟨hr, -⟩ | ⟨old, hold, -, rfl⟩
  · exact ho r hr kind uuid (hrequested' r rfl rfl rfl)
  · have hsame : old.kind = (old.reviewed (if granted then .granted else .denied) chatname).kind ∧
        old.uuid = (old.reviewed (if granted then .granted else .denied) chatname).uuid ∧
        old.subjectUser = (old.reviewed (if granted then .granted else .denied) chatname).subjectUser ∧
        old.subjectHost = (old.reviewed (if granted then .granted else .denied) chatname).subjectHost := by
      unfold AccessRequest.reviewed
      split
      · exact ⟨rfl, rfl, rfl, rfl⟩
      · exact ⟨rfl, rfl, rfl, rfl⟩
    obtain ⟨hkind, huuid, huser, hhost⟩ := hsame
    rw [← huser, ← hhost]
    exact ho old hold kind uuid (hrequested' old (AccessRequest.reviewed_id _ _ old).symm hkind huuid)

theorem ne_nextId {t : Tables} {r : AccessRequest} (hr : r ∈ t.requests.rows) : r.id ≠ t.nextId := by
  intro h
  have hmem : t.nextId ∈ t.requests.rows.map AccessRequest.id := h ▸ List.mem_map_of_mem hr
  exact Lib.next_notMem _ hmem

theorem Submitted.origin {k i : Word} {id : Nat} {reason : Text} (h : Submitted before after chatname k i id)
    (ho : Origin t₀ past before) :
    Origin t₀ (past ++ [.submit chatname k.val i.val reason fails]) after := by
  have hnow : ∀ user : Text, fold chatname = fold user →
      Asked t₀ (past ++ [.submit chatname k.val i.val reason fails]) user [] k.val i.val := by
    intro user huser
    exact Or.inr ⟨rfl, chatname, reason, fails, List.mem_append_right past (List.mem_singleton_self _), huser⟩
  -- a target of a row that the submission is not about was there before
  have hother : ∀ r ∈ before.requests.rows, r.id ≠ id → ∀ kind uuid, Requested after r kind uuid →
      Requested before r kind uuid := by
    rintro r - hid kind uuid (hrow | ⟨x, hx, htarget⟩)
    · exact Or.inl hrow
    · obtain ⟨hx, hxid⟩ := mem_targetsOf.mp hx
      rcases h.targets x hx with hx | rfl
      · exact Or.inr ⟨x, mem_targetsOf.mpr ⟨hx, hxid⟩, htarget⟩
      · exact absurd hxid.symm hid
  intro r hr kind uuid hrequested
  rcases h.requests with ⟨heq, p, hp, hpid, hpuser, hphost⟩ | ⟨heq, hid⟩
  · rw [heq] at hr
    rcases Keyed.mem_modify (h := AccessRequest.retargeted_id k i).mp hr with ⟨hr, hne⟩ | ⟨old, hold, holdid, rfl⟩
    · exact (ho r hr kind uuid (hother r hr hne kind uuid hrequested)).mono
    · obtain rfl := before.requests.eq_of_key hold hp (holdid.trans hpid.symm)
      show Asked _ _ old.subjectUser old.subjectHost kind uuid
      rw [hphost]
      rcases hrequested with ⟨rfl, rfl⟩ | ⟨x, hx, rfl, rfl⟩
      · exact hnow _ hpuser.symm
      · obtain ⟨hx, hxid⟩ := mem_targetsOf.mp hx
        rcases h.targets x hx with hx | rfl
        · exact (ho old hold _ _ (Or.inr ⟨x, mem_targetsOf.mpr ⟨hx, hxid⟩, rfl, rfl⟩)).mono.congr rfl
            (by rw [hphost])
        · exact hnow _ hpuser.symm
  · rw [heq] at hr
    rcases Keyed.mem_insert (h := Lib.next_notMem (before.requests.rows.map AccessRequest.id)).mp hr with hr | rfl
    · have hne : r.id ≠ id := by
        rintro rfl
        exact ne_nextId hr hid
      exact (ho r hr kind uuid (hother r hr hne kind uuid hrequested)).mono
    · rcases hrequested with ⟨rfl, rfl⟩ | ⟨x, hx, rfl, rfl⟩
      · exact hnow _ rfl
      · obtain ⟨hx, hxid⟩ := mem_targetsOf.mp hx
        rcases h.targets x hx with hx | rfl
        · -- no target waits for a request that is not there
          obtain ⟨old, hold, holdid⟩ := before.owned x hx
          exact absurd (holdid.trans hxid) (ne_nextId hold)
        · exact hnow _ rfl

theorem step_origin (e : Event) (hc : c.saved = none) (ho : Origin t₀ past c.now) :
    Origin t₀ (past ++ [e]) (step u c e).now := by
  have hmore : Origin t₀ (past ++ [e]) c.now := fun r hr kind uuid h => (ho r hr kind uuid h).mono
  cases e with
  | submit chatname kind uuid reason fails =>
      rcases (submit_spec u fails chatname kind uuid reason hc).2 with h | ⟨k, i, id, rfl, rfl, hsubmitted⟩
      · rw [step, h]
        exact hmore
      · exact hsubmitted.origin ho
  | review admin owner chatname v fails now =>
      rcases (review_spec hc).2 with h | ⟨number, granted, q, -, -, hreviewed⟩
      · rw [step, h]
        exact hmore
      · exact hreviewed.origin hmore

/-- At every point of a run no transaction is open, and every target of a request has been asked for. -/
theorem run_origin : ∀ (es past : List Event) (c : Connection), c.saved = none → Origin t₀ past c.now →
    (es.foldl (step u) c).saved = none ∧ Origin t₀ (past ++ es) (es.foldl (step u) c).now := by
  intro es
  induction es with
  | nil =>
      intro past c hc ho
      rw [List.append_nil]
      exact ⟨hc, ho⟩
  | cons e es ih =>
      intro past c hc ho
      have hrest := ih (past ++ [e]) (step u c e) (step_saved e hc) (step_origin e hc ho)
      rw [List.append_assoc] at hrest
      exact hrest

/-! ### Runs -/

/-- What a step has to be, in a run of which `past` is behind it. -/
def Sound (t₀ : Tables) (past : List Event) (before after : Tables) : Event → Prop
  | .submit _ _ _ _ _ => after.rules = before.rules
  | .review _ _ _ v _ now =>
      (after = before ∨ ∃ q ∈ before.requests.rows, requestNumber v.id = some q.id ∧ q.status = .pending ∧
        (∃ r ∈ after.requests.rows, r.id = q.id ∧
          r.status = if v.decision = ascii "granted" then .granted else .denied) ∧
        (v.decision = ascii "granted" → Complete now before after q v)) ∧
      (v.decision ≠ ascii "granted" → after.rules = before.rules) ∧
      (∀ g ∈ after.rules.grants.rows, g ∉ before.rules.grants.rows →
        Asked t₀ past g.subjectUser g.subjectHost g.resourceKind g.resourceUuid) ∧
      (∀ a ∈ after.rules.assignments.rows, a ∉ before.rules.assignments.rows →
        Asked t₀ past a.subjectUser a.subjectHost a.resourceKind a.resourceUuid)

/-- The condition under which a review keeps its promise. -/
def Orderly (c : Connection) : Event → Prop
  | .submit _ _ _ _ _ => True
  | .review _ _ _ v _ now => v.decision = ascii "granted" → ∀ q ∈ c.now.requests.rows,
      requestNumber v.id = some q.id → q.status = .pending → Fit now c.now q v

theorem sound_of_reviewed {admin owner : Bool} (h : Reviewed v granted number chatname before after q)
    (hnumber : requestNumber v.id = some number) (hgranted : granted = decide (v.decision = ascii "granted"))
    (ho : Origin t₀ past before)
    (hfit : v.decision = ascii "granted" → ∀ q ∈ before.requests.rows, requestNumber v.id = some q.id →
      q.status = .pending → Fit now before q v) :
    Sound t₀ past before after (.review admin owner chatname v fails now) := by
  obtain ⟨hq, hid, hpending⟩ := pending?_mem h.found
  have hq' : requestNumber v.id = some q.id := hnumber.trans (congrArg some hid.symm)
  refine ⟨Or.inr ⟨q, hq, hq', hpending, ?_, ?_⟩, ?_, ?_, ?_⟩
  · obtain ⟨r, hr, hrid, hstatus⟩ := h.settles
    refine ⟨r, hr, hrid, ?_⟩
    rw [hstatus, hgranted]
    simp only [decide_eq_true_eq]
  · intro hdecision
    obtain ⟨hgrown, hserved⟩ := h.served (hgranted.trans (decide_eq_true hdecision)) now
    exact complete_of_served h.user hgrown hserved (hfit hdecision q hq hq' hpending)
  · intro hdecision
    exact h.same (hgranted.trans (decide_eq_false hdecision))
  all_goals
    cases granted with
    | false =>
        intro x hx hnew
        rw [h.same rfl] at hx
        exact absurd hx hnew
    | true => ?_
  · intro g hg hnew
    rcases (h.served rfl now).1.grants g hg with hold | ⟨huser, hhost, x, hx, hkind, huuid⟩
    · exact absurd hold hnew
    · rw [huser, hhost, hkind, huuid]
      exact ho q hq _ _ (Or.inr ⟨x, hx, rfl, rfl⟩)
  · intro a ha hnew
    rcases (h.served rfl now).1.assignments a ha with hold | ⟨huser, hhost, hkind, huuid⟩
    · exact absurd hold hnew
    · rw [hkind, huuid]
      exact (ho q hq _ _ (Or.inl ⟨rfl, rfl⟩)).congr huser hhost

theorem step_sound (e : Event) (hc : c.saved = none) (ho : Origin t₀ past c.now) (horderly : Orderly c e) :
    Sound t₀ past c.now (step u c e).now e := by
  cases e with
  | submit chatname kind uuid reason fails =>
      rcases (submit_spec u fails chatname kind uuid reason hc).2 with h | ⟨k, i, id, -, -, hsubmitted⟩
      · show (step u c _).now.rules = c.now.rules
        rw [step, h]
      · exact hsubmitted.rules
  | review admin owner chatname v fails now =>
      rcases (review_spec hc).2 with h | ⟨number, granted, q, hnumber, hgranted, hreviewed⟩
      · rw [step, h]
        exact ⟨Or.inl rfl, fun _ => rfl, fun _ hg hnew => absurd hg hnew, fun _ ha hnew => absurd ha hnew⟩
      · exact sound_of_reviewed hreviewed hnumber hgranted ho horderly

/-- In a run whose reviews are all orderly every step is sound, and a request leaves `pending` once. -/
theorem reviews_run (u : UuidTest) (t₀ : Tables) (es : List Event) (h : Along (step u) Orderly (opened t₀) es) :
    (∀ id, departures u id (opened t₀) es ≤ 1) ∧
    ∀ past e rest, es = past ++ e :: rest →
      Sound t₀ past (past.foldl (step u) (opened t₀)).now (step u (past.foldl (step u) (opened t₀)) e).now e := by
  refine ⟨fun id => departures_le es (opened t₀) rfl, ?_⟩
  rintro past e rest rfl
  obtain ⟨hc, ho⟩ := run_origin (u := u) past [] (opened t₀) rfl (origin_opened t₀)
  exact step_sound e hc ho h.allowed_at

/-! ### A set for two targets -/

/-- A test of the length stands for the library's. -/
def lengthTest : UuidTest where
  valid s := decide (s.length = 36)
  ne_nil := by
    rintro s h rfl
    exact absurd h (by decide)

theorem nothing_assigned : ∀ a ∈ (Keyed.empty : Keyed Assignment.key).rows,
    ∃ s ∈ [(⟨1, ascii "full", ascii "Full rig operation", ascii "system"⟩ : PrivilegeSet)], s.id = a.setId :=
  fun _ h => absurd h List.not_mem_nil

theorem nothing_in_groups : ∀ m ∈ (Keyed.empty : Keyed Member.key).rows,
    ∃ g ∈ (Keyed.empty : Keyed Group.key).rows, fold g.name = fold m.groupName :=
  fun _ h => absurd h List.not_mem_nil

theorem no_group_privilege : ∀ p ∈ (Keyed.empty : Keyed GroupPrivilege.key).rows,
    ∃ g ∈ (Keyed.empty : Keyed Group.key).rows, fold g.name = fold p.groupName :=
  fun _ h => absurd h List.not_mem_nil

/-- The shipped set `full`, whose entry is `rig.full`. -/
def fullRules : Rules where
  grants := .empty
  sets := ⟨[⟨1, ascii "full", ascii "Full rig operation", ascii "system"⟩], List.nodup_singleton _⟩
  entries := ⟨[⟨1, ⟨ascii "rig.full", by decide⟩, .allow⟩], List.nodup_singleton _⟩
  assignments := .empty
  groups := .empty
  members := .empty
  groupPrivileges := .empty
  ids := List.nodup_singleton _
  entrySet := by
    intro e he
    obtain rfl := List.mem_singleton.mp he
    exact ⟨_, List.mem_singleton_self _, rfl⟩
  assignmentSet := nothing_assigned
  memberGroup := nothing_in_groups
  privilegeGroup := no_group_privilege

def fullTables : Tables := ⟨fullRules, .empty, .empty, [], fun _ h => absurd h List.not_mem_nil⟩

def firstRig : Text := ascii "12345678-1234-4234-8234-1234567890ab"

def secondRig : Text := ascii "87654321-1234-4234-8234-1234567890ab"

def asking (uuid : Text) : Event := .submit (ascii "alice") (ascii "rig") uuid (ascii "please") fun _ => false

def granting (grants : String) : Event :=
  .review true true (ascii "op") ⟨ascii "1", ascii "granted", ascii grants, false⟩ (fun _ => false) 0

theorem reviews_run_privilege :
    (∀ id, departures lengthTest id (opened fullTables) [asking firstRig, granting "rig.use"] ≤ 1) ∧
    ∀ past e rest, [asking firstRig, granting "rig.use"] = past ++ e :: rest →
      Sound fullTables past (past.foldl (step lengthTest) (opened fullTables)).now
        (step lengthTest (past.foldl (step lengthTest) (opened fullTables)) e).now e := by
  refine reviews_run lengthTest fullTables [asking firstRig, granting "rig.use"] ⟨trivial, ?_, trivial⟩
  intro _ q _ _ _
  have hgrants : (step lengthTest (opened fullTables) (asking firstRig)).now.rules.grants.rows = [] := by
    decide +kernel
  have htokens : tokensOf (ascii "rig.use") = [ascii "rig.use"] := by decide +kernel
  have hset : ∀ token ∈ tokensOf (ascii "rig.use"), token.head? ≠ some 64 := by
    rw [htokens]
    decide +kernel
  constructor
  · intro token _ _ x _ g hg
    rw [hgrants] at hg
    exact absurd hg List.not_mem_nil
  · exact fun token htoken hhead => absurd hhead (hset token htoken)
  · exact fun token htoken hhead => absurd hhead (hset token htoken)

/-- The request for two rigs, pending. -/
def twoRigs : Connection := [asking firstRig, asking secondRig].foldl (step lengthTest) (opened fullTables)

/-- What the review that selects the set leaves behind. -/
def fullGranted : Connection := step lengthTest twoRigs (granting "@full")

theorem rig_ne_nil : ascii "rig" ≠ [] := by decide

theorem secondRig_ne_nil : secondRig ≠ [] := by decide

def fullRequest : AccessRequest :=
  ⟨1, ascii "alice", [], ⟨ascii "rig", rig_ne_nil⟩, ⟨secondRig, secondRig_ne_nil⟩, .pending, none⟩

/-- The review goes through, and the first rig is not allowed by it. -/
theorem set_misses_first :
    fullGranted.now.requests.rows.map AccessRequest.status = [.granted] ∧
    fullGranted.now.rules.dbResourceAccessNamed
      ⟨ascii "alice", [], ascii "rig", firstRig, ascii "rig.full", 0, []⟩ false = .unset ∧
    ¬ Sound fullTables [asking firstRig, asking secondRig] twoRigs.now fullGranted.now (granting "@full") := by
  have hstatus : fullGranted.now.requests.rows.map AccessRequest.status = [.granted] := by decide +kernel
  have hunset : fullGranted.now.rules.dbResourceAccessNamed
      ⟨ascii "alice", [], ascii "rig", firstRig, ascii "rig.full", 0, []⟩ false = .unset := by decide +kernel
  refine ⟨hstatus, hunset, ?_⟩
  have hrequests : twoRigs.now.requests.rows = [fullRequest] := by decide +kernel
  rintro ⟨hsame | ⟨q, hq, -, -, -, hcomplete⟩, -⟩
  · rw [hsame, hrequests] at hstatus
    exact absurd hstatus (by decide)
  · rw [hrequests] at hq
    obtain rfl := List.mem_singleton.mp hq
    obtain ⟨s, hs, hall⟩ := (hcomplete rfl).sets (ascii "@full") (by decide +kernel) (by decide)
    have hid : s.id = 1 := by
      have hset : (fullGranted.now.rules.set? (ascii "full")).map PrivilegeSet.id = some 1 := by decide +kernel
      rw [show ascii "full" = (ascii "@full").tail from rfl, hs] at hset
      exact Option.some.inj hset
    have hanswer := (hall ⟨1, ⟨ascii "rig", by decide⟩, ⟨firstRig, by decide⟩⟩ (by decide +kernel)).2 (Or.inl rfl)
      ⟨1, ⟨ascii "rig.full", by decide⟩, .allow⟩ (by decide +kernel) hid.symm rfl []
    rcases hanswer with hallow | hdeny
    · exact absurd (hunset.symm.trans hallow) (by decide)
    · exact absurd hdeny (by decide +kernel)

end AccessRequests

end RustyRig
