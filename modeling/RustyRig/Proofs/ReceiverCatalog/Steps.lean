/-
Every event keeps what a transfer is.

`Wired` holds whatever is refused, lost or repeated, as long as the tokens do not come round.
The timer is armed except where a page is complete and the request for the next is refused:
`received` has removed it by then, and arms it only if the request is sent.  And a piece that
is missing can be taken except where the last piece of a snapshot of nearly the greatest size
came before it: the bound on the size counts full chunks.
-/
import RustyRig.Proofs.ReceiverCatalog.Pieces

namespace RustyRig

namespace ReceiverCatalog

variable {sha : List UInt8 → String} {served : Directory → Prop} {w : Wire} {c : Client}
  {d : Download} {r : Reply}

/-- No token comes round, no request for a next page is refused, and the last piece of a snapshot of
nearly the greatest size does not come before another. -/
def Unhindered (w : Wire) : Event → Prop
  | .request _ => w.client.serial + 1 < 2 ^ 32
  | .deliver (.chunk token k) sends => ∀ d, w.client.transfer = some d → token = d.token →
      d.admits k = true → (d.alloc k).takes k = true →
        (d.received + 1 ≠ k.total → (d.received + 1) % 8 = 0 → sends = true) ∧
          (k.sequence + 1 = k.total → d.received + 1 = k.total ∨ k.total * catalogChunk ≤ catalogMax)
  | _ => True

namespace Wired

/-- The transfer has changed. -/
theorem change (h : Wired sha served w) (htransfer : w.client.transfer = some d) {y : Download}
    (htoken : y.token = d.token) (hpage : d.requestedPage ≤ y.requestedPage)
    (hheld : Fresh y ∨ ∃ dir s, served dir ∧ dir.snapshot = some s ∧ Held sha s dir.generation y)
    (timer : Bool) :
    Wired sha served { w with client := { w.client with transfer := some y, timer := timer } } :=
  { h with
    token := fun x hx => by
      obtain rfl := Option.some.inj hx
      exact htoken.trans (h.token d htransfer)
    pages := fun x hx q hq hqtoken => by
      obtain rfl := Option.some.inj hx
      exact Nat.le_trans (h.pages d htransfer q hq (hqtoken.trans htoken)) hpage
    transfer := fun x hx => by
      obtain rfl := Option.some.inj hx
      exact hheld }

/-- The requested page is asked for. -/
theorem ask (h : Wired sha served w) (htransfer : w.client.transfer = some d) :
    Wired sha served { w with client := { w.client with
      sent := w.client.sent ++ [⟨d.token, d.requestedPage⟩] } } :=
  { h with
    tokens := fun q hq => by
      rcases List.mem_append.mp hq with hq | hq
      · exact h.tokens q hq
      · rw [List.mem_singleton.mp hq]
        exact Nat.le_of_eq (h.token d htransfer)
    pages := fun x hx q hq hqtoken => by
      obtain rfl := Option.some.inj (htransfer.symm.trans hx)
      rcases List.mem_append.mp hq with hq | hq
      · exact h.pages d htransfer q hq hqtoken
      · exact Nat.le_of_eq (congrArg Request.page (List.mem_singleton.mp hq))
    replies := fun x hx => by
      obtain ⟨q, hq, hrest⟩ := h.replies x hx
      exact ⟨q, List.mem_append_left _ hq, hrest⟩ }

/-- The transfer is given up, or over. -/
theorem drop (h : Wired sha served w) :
    Wired sha served { w with client := { w.client with transfer := none, timer := false } } :=
  { h with
    token := fun _ hx => absurd hx (by simp)
    pages := fun _ hx => absurd hx (by simp)
    transfer := fun _ hx => absurd hx (by simp) }

theorem request (h : Wired sha served w) (hround : w.client.serial + 1 < 2 ^ 32) (sends : Bool) :
    Wired sha served { w with client := w.client.request sends } := by
  have hserial : (w.client.serial + 1) % 2 ^ 32 = w.client.serial + 1 := Nat.mod_eq_of_lt hround
  unfold Client.request
  rw [hserial]
  cases sends with
  | false =>
      exact { h.drop with
        tokens := fun q hq => Nat.le_succ_of_le (h.tokens q hq)
        token := fun _ hx => absurd hx (by simp) }
  | true =>
      refine ⟨fun q hq => ?_, fun x hx => ?_, fun x hx q hq hqtoken => ?_, fun x hx => ?_,
        fun x hx => ?_, h.jobs⟩
      · rcases List.mem_append.mp hq with hq | hq
        · exact Nat.le_succ_of_le (h.tokens q hq)
        · exact Nat.le_of_eq (congrArg Request.token (List.mem_singleton.mp hq))
      · obtain rfl := Option.some.inj hx
        rfl
      · obtain rfl := Option.some.inj hx
        rcases List.mem_append.mp hq with hq | hq
        · have hle := h.tokens q hq
          have hnew : q.token = w.client.serial + 1 := hqtoken
          omega
        · exact Nat.le_of_eq (congrArg Request.page (List.mem_singleton.mp hq))
      · obtain ⟨q, hq, hrest⟩ := h.replies x hx
        exact ⟨q, List.mem_append_left _ hq, hrest⟩
      · obtain rfl := Option.some.inj hx
        exact Or.inl ⟨rfl, rfl, rfl⟩

theorem expire (h : Wired sha served w) (sends : Bool) :
    Wired sha served { w with client := w.client.expire sends } := by
  unfold Client.expire
  split
  · rename_i hnone
    have hdrop := h.drop
    rw [← hnone] at hdrop
    exact hdrop
  rename_i d htransfer
  split
  · have hheld : Fresh { d with retry := d.retry + 1 } ∨ ∃ dir s, served dir ∧
        dir.snapshot = some s ∧ Held sha s dir.generation { d with retry := d.retry + 1 } := by
      rcases h.transfer d htransfer with hfresh | ⟨dir, s, hserved, hs, hheld⟩
      · exact Or.inl ⟨hfresh.total, hfresh.received, hfresh.requestedPage⟩
      · exact Or.inr ⟨dir, s, hserved, hs, { hheld with }⟩
    have hchange := h.change htransfer (show ({ d with retry := d.retry + 1 } : Download).token =
      d.token from rfl) (Nat.le_refl _) hheld true
    have hask := hchange.ask rfl
    exact hask
  · exact h.drop

theorem status (h : Wired sha served w) (htransfer : w.client.transfer = some d)
    (htotal : d.total = 0) (digest : String) (generation : Nat) :
    Wired sha served { w with client := { w.client with
      transfer := some { d with digest := digest, generation := generation } } } := by
  have hfresh : Fresh { d with digest := digest, generation := generation } := by
    rcases h.transfer d htransfer with hfresh | ⟨_, _, -, -, hheld⟩
    · exact ⟨hfresh.total, hfresh.received, hfresh.requestedPage⟩
    · have hmore := hheld.more
      omega
  have hchange := h.change htransfer
    (show ({ d with digest := digest, generation := generation } : Download).token = d.token from rfl)
    (Nat.le_refl _) (Or.inl hfresh) w.client.timer
  exact hchange

theorem chunk (hdigests : Digests sha served) (h : Wired sha served w)
    (htransfer : w.client.transfer = some d) {k : Chunk} (hr : .chunk d.token k ∈ w.replies)
    (hadmits : d.admits k = true) (sends : Bool) :
    Wired sha served { w with
      client := if (d.alloc k).takes k then w.client.progress ((d.alloc k).put k) sends
        else { w.client with transfer := some (d.alloc k) } } := by
  obtain ⟨dir, s, i, hserved, hs, hk, hheld, hi, hchunks⟩ :=
    h.admitted hdigests htransfer hr hadmits
  have htoken := alloc_token d k
  have hpage := alloc_page d k
  split
  · rename_i htakes
    have hnone : (d.alloc k).chunks[i]? = some none := by
      have hslot := (takes_iff.mp htakes).1
      rw [hk] at hslot ⊢
      exact hslot
    rw [← hpage] at hi
    obtain ⟨-, heq⟩ | ⟨-, -, hnext, heq⟩ | ⟨hnext, heq⟩ :=
      progress_cases hheld hnone hi w.client sends
    all_goals
      rw [← hk] at heq
      rw [heq]
    · exact { h.drop with
        jobs := fun job hjob => by
          rcases List.mem_append.mp hjob with hjob | hjob
          · exact h.jobs job hjob
          · exact ⟨dir, s, hserved, hs, List.mem_singleton.mp hjob⟩ }
    · have hchange := fun timer => h.change htransfer
        (y := { (d.alloc k).put k with requestedPage := (d.alloc k).requestedPage + 1 }) htoken
        (hpage ▸ Nat.le_succ _) (Or.inr ⟨dir, s, hserved, hs, hk ▸ hnext⟩) timer
      split
      · have hask := (hchange true).ask rfl
        exact hask
      · exact hchange false
    · exact h.change htransfer (y := (d.alloc k).put k) htoken (Nat.le_of_eq hpage.symm)
        (Or.inr ⟨dir, s, hserved, hs, hk ▸ hnext⟩) true
  · exact h.change htransfer htoken (Nat.le_of_eq hpage.symm)
      (Or.inr ⟨dir, s, hserved, hs, hheld⟩) w.client.timer

theorem received (hdigests : Digests sha served) (h : Wired sha served w) (hr : r ∈ w.replies)
    (sends : Bool) : Wired sha served { w with client := w.client.received r sends } := by
  unfold Client.received
  split
  · exact h
  rename_i d htransfer
  split
  · split
    · rename_i hstatus
      simp only [Bool.and_eq_true, decide_eq_true_eq] at hstatus
      exact h.status htransfer hstatus.2 _ _
    · exact h
  · split
    · rename_i hchunk
      simp only [Bool.and_eq_true, decide_eq_true_eq] at hchunk
      rw [hchunk.1] at hr
      exact h.chunk hdigests htransfer hr hchunk.2 sends
    · exact h

theorem serve (h : Wired sha served w) {dir : Directory} (hserved : served dir) {q : Request}
    (hq : q ∈ w.client.sent) : Wired sha served { w with
      replies := w.replies ++ requestHandler sha dir q } :=
  { h with
    replies := fun x hx => by
      rcases List.mem_append.mp hx with hx | hx
      · exact h.replies x hx
      · exact ⟨q, hq, dir, hserved, hx⟩ }

theorem start : Wired sha served Wire.start where
  tokens := by simp [Wire.start]
  token := by simp [Wire.start]
  pages := by simp [Wire.start]
  replies := by simp [Wire.start]
  transfer := by simp [Wire.start]
  jobs := by simp [Wire.start]

theorem step (hdigests : Digests sha served) (h : Wired sha served w) {e : Event}
    (he : Unhindered w e) (hserved : ∀ dir q, e = .serve dir q → served dir) :
    Wired sha served (w.step sha e) := by
  cases e with
  | request sends => exact h.request he sends
  | expire sends =>
      unfold Wire.step
      simp only
      split
      · exact h.expire sends
      · exact h
  | serve dir q =>
      unfold Wire.step
      simp only
      split
      · rename_i hq
        exact h.serve (hserved dir q rfl) hq
      · exact h
  | deliver r sends =>
      unfold Wire.step
      simp only
      split
      · rename_i hr
        exact h.received hdigests hr sends
      · exact h
  | disconnected => exact h.drop

end Wired

/-! ### The timer and the last piece -/

/-- A transfer has its timer armed, and it can take whatever piece it lacks. -/
structure Alive (w : Wire) : Prop where
  armed : w.client.transfer ≠ none → w.client.timer = true
  last : ∀ d, w.client.transfer = some d → d.total ≠ 0 →
    d.total * catalogChunk ≤ catalogMax ∨ ¬ Lib.Has d.chunks (d.total - 1)

namespace Alive

theorem start : Alive Wire.start where
  armed := fun h => absurd rfl h
  last := by simp [Wire.start]

theorem dropped (w : Wire) :
    Alive { w with client := { w.client with transfer := none, timer := false } } where
  armed := fun h => absurd rfl h
  last := fun _ h => absurd h (by simp)

/-- The transfer has the chunks that it had. -/
theorem change (h : Alive w) (htransfer : w.client.transfer = some d) {y : Download}
    (htotal : y.total = d.total) (hchunks : y.chunks = d.chunks) {c : Client}
    (hc : c.transfer = some y) (hc' : c.timer = true) : Alive { w with client := c } where
  armed := fun _ => hc'
  last := fun x hx hne => by
    obtain rfl := Option.some.inj (hc.symm.trans hx)
    rw [htotal, hchunks] at *
    exact h.last d htransfer hne

/-- The slots of a fresh transfer are empty. -/
theorem alloc (h : Alive w) (htransfer : w.client.transfer = some d) (k : Chunk) :
    (d.alloc k).total * catalogChunk ≤ catalogMax ∨
      ¬ Lib.Has (d.alloc k).chunks ((d.alloc k).total - 1) := by
  unfold Download.alloc
  split
  · right
    rintro ⟨a, ha⟩
    exact absurd (List.eq_of_mem_replicate (List.mem_of_getElem? ha)) (by simp)
  · rename_i htotal
    exact h.last d htransfer htotal

/-- A piece is taken that is not the last one, or that may be. -/
theorem put (h : d.total * catalogChunk ≤ catalogMax ∨ ¬ Lib.Has d.chunks (d.total - 1)) {k : Chunk}
    (hlength : d.chunks.length = d.total) (hless : k.sequence < d.total)
    (hlast : k.sequence + 1 = d.total → d.total * catalogChunk ≤ catalogMax) :
    (d.put k).total * catalogChunk ≤ catalogMax ∨
      ¬ Lib.Has (d.put k).chunks ((d.put k).total - 1) := by
  rcases h with hsmall | hmissing
  · exact Or.inl hsmall
  · by_cases hseq : k.sequence + 1 = d.total
    · exact Or.inl (hlast hseq)
    · right
      intro hhas
      have hhas : Lib.Has (d.chunks.set k.sequence (some k.data)) (d.total - 1) := hhas
      rcases (Lib.has_set (hlength ▸ hless)).mp hhas with heq | hhas
      · omega
      · exact hmissing hhas

theorem chunk (hdigests : Digests sha served) (hw : Wired sha served w) (h : Alive w)
    (htransfer : w.client.transfer = some d) {k : Chunk} (hr : .chunk d.token k ∈ w.replies)
    (hadmits : d.admits k = true) {sends : Bool}
    (hfree : Unhindered w (.deliver (.chunk d.token k) sends)) :
    Alive { w with
      client := if (d.alloc k).takes k then w.client.progress ((d.alloc k).put k) sends
        else { w.client with transfer := some (d.alloc k) } } := by
  obtain ⟨dir, s, i, -, -, hk, hheld, hi, hchunks⟩ := hw.admitted hdigests htransfer hr hadmits
  have halloc := h.alloc htransfer k
  have hreceived : (d.alloc k).received = d.received := by
    unfold Download.alloc
    split <;> rfl
  split
  · rename_i htakes
    obtain ⟨hsends, hlast⟩ := hfree d htransfer rfl hadmits htakes
    have hnone : (d.alloc k).chunks[i]? = some none := by
      have hslot := (takes_iff.mp htakes).1
      rw [hk] at hslot ⊢
      exact hslot
    rw [← alloc_page d k] at hi
    have htotal : k.total = (d.alloc k).total := by
      rw [hheld.total, hk]
      rfl
    have hput : (d.alloc k).received + 1 ≠ (d.alloc k).total →
        ((d.alloc k).put k).total * catalogChunk ≤ catalogMax ∨
          ¬ Lib.Has ((d.alloc k).put k).chunks (((d.alloc k).put k).total - 1) := by
      intro hmore
      refine put halloc (hheld.length.trans hheld.total.symm) ?_ fun hseq => ?_
      · rw [hheld.total, hk]
        exact hchunks
      · rw [← htotal] at hseq hmore ⊢
        exact (hlast hseq).resolve_left (hreceived ▸ hmore)
    obtain ⟨-, heq⟩ | ⟨hall, hpage, -, heq⟩ | ⟨hnext, heq⟩ :=
      progress_cases hheld hnone hi w.client sends
    all_goals
      rw [← hk] at heq
      rw [heq]
    · exact ⟨fun hno => absurd rfl hno, fun _ hx => absurd hx (by simp)⟩
    · have hsends : sends = true := by
        rw [← hk] at hall hpage
        have hall : (d.alloc k).received + 1 ≠ (d.alloc k).total := hall
        have hpage : ((d.alloc k).received + 1) % 8 = 0 := hpage
        rw [hreceived] at hall hpage
        exact hsends (htotal ▸ hall) hpage
      rw [if_pos hsends]
      exact ⟨fun _ => rfl, fun x hx _ => by
        obtain rfl := Option.some.inj hx
        rw [← hk] at hall
        exact hput hall⟩
    · refine ⟨fun _ => rfl, fun x hx _ => ?_⟩
      obtain rfl := Option.some.inj hx
      have hmore := hnext.more
      rw [← hk] at hmore
      exact hput (Nat.ne_of_lt hmore)
  · refine ⟨fun _ => h.armed (by simp [htransfer]), fun x hx _ => ?_⟩
    obtain rfl := Option.some.inj hx
    exact halloc

theorem step (hdigests : Digests sha served) (hw : Wired sha served w) (h : Alive w) {e : Event}
    (he : Unhindered w e) : Alive (w.step sha e) := by
  cases e with
  | request sends =>
      unfold Wire.step Client.request
      simp only
      split
      · exact ⟨fun _ => rfl, fun x hx htotal => by
          obtain rfl := Option.some.inj hx
          exact absurd rfl htotal⟩
      · exact ⟨fun hno => absurd rfl hno, fun _ hx => absurd hx (by simp)⟩
  | expire sends =>
      unfold Wire.step
      simp only
      split
      · unfold Client.expire
        split
        · rename_i hnone
          exact ⟨fun hno => absurd hnone hno, fun x hx => absurd (hnone.symm.trans hx) (by simp)⟩
        rename_i d htransfer
        split
        · exact h.change htransfer (y := { d with retry := d.retry + 1 }) rfl rfl rfl rfl
        · exact dropped w
      · exact h
  | serve dir q =>
      unfold Wire.step
      simp only
      split
      · exact ⟨h.armed, h.last⟩
      · exact h
  | deliver r sends =>
      unfold Wire.step
      simp only
      split
      · rename_i hr
        unfold Client.received
        split
        · exact h
        rename_i d htransfer
        split
        · rename_i token digest generation
          split
          · exact h.change htransfer (y := { d with digest := digest, generation := generation })
              rfl rfl rfl (h.armed (by simp [htransfer]))
          · exact h
        · split
          · rename_i hchunk
            simp only [Bool.and_eq_true, decide_eq_true_eq] at hchunk
            rw [hchunk.1] at hr he
            exact chunk hdigests hw h htransfer hr hchunk.2 he
          · exact h
      · exact h
  | disconnected => exact dropped w

end Alive

end ReceiverCatalog

end RustyRig
