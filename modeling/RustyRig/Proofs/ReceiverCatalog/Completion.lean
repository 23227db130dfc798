/-
A transfer is completed by the answers to its page requests.

Delivering the pieces of the requested page in order, one finds the transfer either lacking
the next one, and then it is taken, or past it.  The page is complete at the latest with its
last piece, and then the next one is asked for; the induction on the pages that are left
ends with the job.
-/
import RustyRig.Proofs.ReceiverCatalog.Steps

namespace RustyRig

namespace ReceiverCatalog

variable {sha : List UInt8 → String} {s : List UInt8} {dir : Directory} {c : Client} {d : Download}
  {generation i : Nat}

def deliver (c : Client) (rs : List Reply) : Client := rs.foldl (fun c r => c.received r true) c

/-- A transfer of the snapshot `s` that can take whatever piece it lacks. -/
structure Loading (sha : List UInt8 → String) (s : List UInt8) (generation : Nat) (d : Download) :
    Prop extends Held sha s generation d where
  last : d.total * catalogChunk ≤ catalogMax ∨ ¬ Lib.Has d.chunks (d.total - 1)

theorem deliver_none (h : c.transfer = none) (rs : List Reply) : deliver c rs = c := by
  induction rs with
  | nil => rfl
  | cons r rs ih =>
      have hsame : c.received r true = c := by
        unfold Client.received
        rw [h]
      unfold deliver at ih ⊢
      rw [List.foldl_cons, hsame]
      exact ih

/-- A transfer that lacks two pieces has room for both. -/
theorem Held.lacks_two (h : Held sha s generation d) {j : Nat} (hi : d.chunks[i]? = some none)
    (hj : d.chunks[j]? = some none) (hne : i ≠ j) : d.received + 2 ≤ chunks s := by
  have hj' : (d.chunks.set i (some []))[j]? = some none := by
    rw [List.getElem?_set_ne hne]
    exact hj
  have hfilled := Lib.filled_set (a := ([] : List UInt8)) hj'
  rw [Lib.filled_set hi, ← h.received] at hfilled
  have hlen := Lib.filled_le_length ((d.chunks.set i (some [])).set j (some []))
  rw [hfilled, List.length_set, List.length_set, h.length] at hlen
  omega

/-- A slot is empty or it is filled. -/
theorem slot_cases (hi : i < d.chunks.length) :
    Lib.Has d.chunks i ∨ d.chunks[i]? = some none := by
  rw [List.getElem?_eq_getElem hi]
  cases hslot : d.chunks[i] with
  | none => exact Or.inr rfl
  | some a => exact Or.inl ⟨a, by rw [List.getElem?_eq_getElem hi, hslot]⟩

/-- A piece that is lacking is not too much. -/
theorem Loading.room (h : Loading sha s generation d) (hs : s.length ≤ catalogMax)
    (hnone : d.chunks[i]? = some none) :
    d.received * catalogChunk + (piece s i).length ≤ catalogMax := by
  have hi : i < chunks s := h.length ▸ (List.getElem?_eq_some_iff.mp hnone).1
  have hlt := lt_chunks.mp hi
  have hlen := piece_length (s := s) (i := i)
  have hmore := h.more
  have htotal := h.total
  have hchunk : catalogChunk = 12000 := rfl
  rcases h.last with hsmall | hmissing
  · have hnext : (d.received + 1) * catalogChunk ≤ d.total * catalogChunk :=
      Nat.mul_le_mul_right _ hmore
    rw [Nat.add_mul] at hnext
    omega
  · rw [htotal] at hmissing
    have hlast := (slot_cases (d := d) (i := chunks s - 1) (by rw [h.length]; omega)).resolve_left hmissing
    by_cases heq : i = chunks s - 1
    · have hbound : d.received * catalogChunk ≤ i * catalogChunk :=
        Nat.mul_le_mul_right _ (by omega)
      omega
    · have htwo := h.lacks_two hnone hlast heq
      have hbound : (d.received + 1) * catalogChunk ≤ (chunks s - 1) * catalogChunk :=
        Nat.mul_le_mul_right _ (by omega)
      have hend := lt_chunks (s := s) (i := chunks s - 1)
      rw [Nat.add_mul] at hbound
      omega

theorem Loading.takes (h : Loading sha s generation d) (hs : s.length ≤ catalogMax)
    (hnone : d.chunks[i]? = some none) : d.takes (chunkOf sha s generation i) = true := by
  have hi : i < chunks s := h.length ▸ (List.getElem?_eq_some_iff.mp hnone).1
  have hroom := h.room hs hnone
  have hlen := piece_length (s := s) (i := i)
  exact takes_iff.mpr ⟨hnone, piece_ne_nil hi, hlen ▸ Nat.min_le_left _ _, hroom⟩

theorem Held.admits (hlength : ∀ s, (sha s).utf8ByteSize = 64) (h : Held sha s generation d)
    (hs : s.length ≤ catalogMax) (hi : i < chunks s) (hpage : d.requestedPage * 8 ≤ i) :
    d.admits (chunkOf sha s generation i) = true := by
  have hlen := piece_length (s := s) (i := i)
  have hchunk : catalogChunk = 12000 := rfl
  have hmax := chunks_le hs
  refine admits_iff.mpr ⟨?_, hmax, hi, ?_, Or.inr ⟨h.total, h.generation⟩, Or.inr h.digest,
    hlength s, Or.inr hpage⟩
  · show chunks s ≠ 0
    omega
  · show ((piece s i).length + 2) / 3 * 4 ≤ 4 * ((catalogChunk + 2) / 3) + 4
    rw [hchunk] at hlen ⊢
    omega

/-! ### A page -/

/-- A chunk is taken, or it changes nothing. -/
theorem Held.receives (h : Held sha s generation d) (htransfer : c.transfer = some d) (k : Chunk)
    (sends : Bool) :
    c.received (.chunk d.token k) sends =
      if d.admits k && d.takes k then c.progress (d.put k) sends else c := by
  have hsame : { c with transfer := some d } = c := by rw [← htransfer]
  unfold Client.received
  rw [htransfer]
  simp only [h.alloc, decide_true, Bool.true_and]
  cases d.admits k <;> cases d.takes k <;> simp [hsame]

/-- What comes of a page that is delivered: the job, or the request for the next page. -/
def PageDone (sha : List UInt8 → String) (s : List UInt8) (generation : Nat) (c : Client)
    (d : Download) (c' : Client) : Prop :=
  (chunks s ≤ 8 * (d.requestedPage + 1) ∧ c' = { c with
    transfer := none
    timer := false
    jobs := c.jobs ++ [⟨pieces s, generation, sha s⟩] }) ∨
  ∃ d', Loading sha s generation d' ∧ d'.requestedPage = d.requestedPage + 1 ∧ d'.token = d.token ∧
    c' = { c with
      transfer := some d'
      timer := true
      sent := c.sent ++ [⟨d.token, d.requestedPage + 1⟩] }

/-- Pieces before the requested page change nothing. -/
theorem deliver_past (h : Held sha s generation d) (htransfer : c.transfer = some d) (n : Nat) :
    ∀ j, j + n ≤ 8 * d.requestedPage →
      deliver c ((List.range' j n).map fun i => .chunk d.token (chunkOf sha s generation i)) = c := by
  induction n with
  | zero => exact fun _ _ => rfl
  | succ n ih =>
      intro j hj
      have hmore := h.more
      have hrefused : d.admits (chunkOf sha s generation j) = false := by
        rw [Bool.eq_false_iff]
        intro hadmits
        obtain ⟨-, -, -, -, -, -, -, hpage⟩ := admits_iff.mp hadmits
        have hpage : d.requestedPage * 8 ≤ j := hpage.resolve_left (by omega)
        omega
      have hsame : c.received (.chunk d.token (chunkOf sha s generation j)) true = c := by
        rw [h.receives htransfer, hrefused]
        rfl
      unfold deliver at ih ⊢
      rw [List.range'_succ, List.map_cons, List.foldl_cons, hsame]
      exact ih (j + 1) (by omega)

/-- The last piece completes the snapshot if the others are there. -/
theorem Held.final (h : Held sha s generation d) (hnone : d.chunks[i]? = some none)
    (hall : ∀ j, j < i → Lib.Has d.chunks j) (hlast : i + 1 = chunks s) : d.received + 1 = d.total := by
  have hi : i < d.chunks.length := (List.getElem?_eq_some_iff.mp hnone).1
  have hfull : Lib.filled (d.chunks.set i (some [])) = (d.chunks.set i (some [])).length := by
    rw [Lib.filled_eq_length]
    intro j hj
    rw [List.length_set, h.length] at hj
    by_cases heq : j = i
    · exact (Lib.has_set hi).mpr (Or.inl heq)
    · exact (Lib.has_set hi).mpr (Or.inr (hall j (by omega)))
  rw [Lib.filled_set hnone, List.length_set, h.length, ← h.received, ← h.total] at hfull
  exact hfull

/-- The pieces of a page from `j` on, when those before `j` are there. -/
theorem deliver_pieces (hlength : ∀ s, (sha s).utf8ByteSize = 64) (hs : s.length ≤ catalogMax)
    (n : Nat) : ∀ (c : Client) (d : Download) (j : Nat), Loading sha s generation d →
      c.transfer = some d → 8 * d.requestedPage ≤ j →
      j + n = min (8 * (d.requestedPage + 1)) (chunks s) → (∀ i, i < j → Lib.Has d.chunks i) →
      PageDone sha s generation c d
        (deliver c ((List.range' j n).map fun i => .chunk d.token (chunkOf sha s generation i))) := by
  induction n with
  | zero =>
      intro c d j h _ _ hend hall
      have hfull := h.paged.full fun i _ hi hlen => hall i (by rw [h.length] at hlen; omega)
      have hmore := h.more
      have hpage := h.page
      rw [← h.received, h.length] at hfull
      have htotal := h.total
      omega
  | succ n ih =>
      intro c d j h htransfer hstart hend hall
      have hj : j < chunks s := by omega
      have hadmits := h.admits hlength hs hj (by omega)
      have hstep : ∀ rest, deliver c (.chunk d.token (chunkOf sha s generation j) :: rest) =
          deliver (c.received (.chunk d.token (chunkOf sha s generation j)) true) rest :=
        fun _ => rfl
      rw [List.range'_succ, List.map_cons, hstep, h.receives htransfer, hadmits, Bool.true_and]
      rcases slot_cases (d := d) (i := j) (by rw [h.length]; exact hj) with hhas | hnone
      · have hleft : d.takes (chunkOf sha s generation j) = false := by
          rw [Bool.eq_false_iff]
          intro htakes
          obtain ⟨a, ha⟩ := hhas
          exact absurd (ha.symm.trans (takes_iff.mp htakes).1) (by simp)
        rw [hleft]
        refine ih c d (j + 1) h htransfer (by omega) (by omega) fun i hi => ?_
        rcases Nat.lt_or_eq_of_le (Nat.le_of_lt_succ hi) with hlt | rfl
        · exact hall i hlt
        · exact hhas
      · rw [h.takes hs hnone, if_pos rfl]
        have hlast : (d.put (chunkOf sha s generation j)).received ≠
            (d.put (chunkOf sha s generation j)).total →
            (d.put (chunkOf sha s generation j)).total * catalogChunk ≤ catalogMax ∨
              ¬ Lib.Has (d.put (chunkOf sha s generation j)).chunks
                ((d.put (chunkOf sha s generation j)).total - 1) := fun hmore => by
          refine Alive.put h.last (h.length.trans h.total.symm) (h.total ▸ hj) fun hseq => ?_
          exact absurd (h.final hnone hall (hseq.trans h.total)) hmore
        obtain ⟨hfull, heq⟩ | ⟨hmore, -, hnext, heq⟩ | ⟨hnext, heq⟩ :=
          progress_cases h.toHeld hnone (show j < 8 * (d.requestedPage + 1) by omega) c true
        · rw [heq, deliver_none rfl]
          have hpage := h.page
          have htotal := h.total
          have hfull : d.received + 1 = d.total := hfull
          exact Or.inl ⟨by omega, rfl⟩
        · rw [heq, if_pos rfl]
          have hpast := deliver_past hnext (c := { c with
            transfer := some { d.put (chunkOf sha s generation j) with
              requestedPage := d.requestedPage + 1 }
            timer := true
            sent := c.sent ++ [⟨d.token, d.requestedPage + 1⟩] }) rfl n (j + 1)
            (show j + 1 + n ≤ 8 * (d.requestedPage + 1) by omega)
          exact Or.inr ⟨_, ⟨hnext, hlast hmore⟩, rfl, rfl, hpast⟩
        · rw [heq]
          refine ih { c with transfer := some (d.put (chunkOf sha s generation j)), timer := true }
            (d.put (chunkOf sha s generation j)) (j + 1) ⟨hnext, hlast (Nat.ne_of_lt hnext.more)⟩ rfl
            (Nat.le_succ_of_le hstart) (by show j + 1 + n = min (8 * (d.requestedPage + 1)) _; omega)
            fun i hi => ?_
          refine (Lib.has_set (h.length ▸ hj)).mpr ?_
          rcases Nat.lt_or_eq_of_le (Nat.le_of_lt_succ hi) with hlt | rfl
          · exact Or.inr (hall i hlt)
          · exact Or.inl rfl

/-! ### The whole snapshot -/

theorem Held.status (h : Held sha s generation d) (htransfer : c.transfer = some d) (token : Nat)
    (digest : String) (generation' : Nat) (sends : Bool) :
    c.received (.status token digest generation') sends = c := by
  have hmore := h.more
  unfold Client.received
  rw [htransfer]
  simp only
  rw [if_neg]
  simp only [Bool.and_eq_true, decide_eq_true_eq]
  omega

theorem requestHandler_eq (hsnapshot : dir.snapshot = some s) (hs : s.length ≤ catalogMax) {token p : Nat}
    (hp : 8 * p < chunks s) :
    requestHandler sha dir ⟨token, p⟩ = .status token (sha s) dir.generation ::
      (List.range' (8 * p) (min (8 * (p + 1)) (chunks s) - 8 * p)).map fun i =>
        .chunk token (chunkOf sha s dir.generation i) := by
  have hmax := chunks_le hs
  unfold requestHandler Directory.digest
  simp only [hsnapshot]
  rw [if_neg (by omega), if_neg (by simp; omega), Nat.mul_comm p 8, Nat.mul_add]

/-- The answer to the outstanding request. -/
theorem deliver_page (hlength : ∀ s, (sha s).utf8ByteSize = 64) (hsnapshot : dir.snapshot = some s)
    (hs : s.length ≤ catalogMax) (h : Loading sha s dir.generation d) (htransfer : c.transfer = some d) :
    PageDone sha s dir.generation c d (deliver c (requestHandler sha dir ⟨d.token, d.requestedPage⟩)) := by
  have hwithin := h.paged.within
  rw [h.length] at hwithin
  have hmore := h.more
  have hstatus := h.status htransfer d.token (sha s) dir.generation true
  have hstep : ∀ rest, deliver c (.status d.token (sha s) dir.generation :: rest) =
      deliver (c.received (.status d.token (sha s) dir.generation) true) rest := fun _ => rfl
  rw [requestHandler_eq hsnapshot hs hwithin, hstep, hstatus]
  exact deliver_pieces hlength hs _ c d (8 * d.requestedPage) h htransfer (Nat.le_refl _) (by omega)
    h.paged.below

/-- The answers to `n` page requests from page `p` on. -/
def answers (sha : List UInt8 → String) (dir : Directory) (token p n : Nat) : List Reply :=
  (List.range' p n).flatMap fun p => requestHandler sha dir ⟨token, p⟩

/-- The transfer is over, with every further page asked for. -/
def completed (sha : List UInt8 → String) (s : List UInt8) (generation : Nat) (c : Client)
    (token p n : Nat) : Client :=
  { c with
    transfer := none
    timer := false
    sent := c.sent ++ (List.range' p n).map fun p => ⟨token, p⟩
    jobs := c.jobs ++ [⟨pieces s, generation, sha s⟩] }

theorem deliver_answers (hlength : ∀ s, (sha s).utf8ByteSize = 64) (hsnapshot : dir.snapshot = some s)
    (hs : s.length ≤ catalogMax) (n : Nat) : ∀ (c : Client) (d : Download),
      Loading sha s dir.generation d → c.transfer = some d →
      d.requestedPage + 1 + n = (chunks s + 7) / 8 →
      deliver c (answers sha dir d.token d.requestedPage (n + 1)) =
        completed sha s dir.generation c d.token (d.requestedPage + 1) n := by
  induction n with
  | zero =>
      intro c d h htransfer hpages
      have honly : answers sha dir d.token d.requestedPage 1 =
          requestHandler sha dir ⟨d.token, d.requestedPage⟩ := by
        simp [answers]
      rw [honly]
      rcases deliver_page hlength hsnapshot hs h htransfer with ⟨-, heq⟩ | ⟨d', h', hpage, -⟩
      · rw [heq]
        simp [completed]
      · have hwithin := h'.paged.within
        rw [h'.length, hpage] at hwithin
        omega
  | succ n ih =>
      intro c d h htransfer hpages
      have hsplit : deliver c (answers sha dir d.token d.requestedPage (n + 1 + 1)) =
          deliver (deliver c (requestHandler sha dir ⟨d.token, d.requestedPage⟩))
            (answers sha dir d.token (d.requestedPage + 1) (n + 1)) := by
        unfold deliver answers
        rw [List.range'_succ, List.flatMap_cons, List.foldl_append]
      rw [hsplit]
      rcases deliver_page hlength hsnapshot hs h htransfer with ⟨hlast, -⟩ | ⟨d', h', hpage, htoken, heq⟩
      · omega
      · rw [heq, ← hpage, ← htoken, ih _ d' h' rfl (by omega)]
        unfold completed
        rw [List.range'_succ, List.map_cons, hpage, htoken]
        simp

theorem progress_transfer (c : Client) (x : Option Download) (d : Download) (sends : Bool) :
    ({ c with transfer := x } : Client).progress d sends = c.progress d sends := by
  unfold Client.progress
  rfl

/-- A transfer without chunks takes the first one as if its slots were there. -/
theorem Fresh.first (hlength : ∀ s, (sha s).utf8ByteSize = 64) (hs : s.length ≤ catalogMax)
    (hpos : 0 < chunks s) (h : Fresh d) (hdigest : d.digest = sha s)
    (hload : Loading sha s generation (d.alloc (chunkOf sha s generation 0))) (c : Client) :
    ({ c with transfer := some d } : Client).received (.chunk d.token (chunkOf sha s generation 0)) true =
      c.progress ((d.alloc (chunkOf sha s generation 0)).put (chunkOf sha s generation 0)) true := by
  have hlen := piece_length (s := s) (i := 0)
  have hchunk : catalogChunk = 12000 := rfl
  have hmax := chunks_le hs
  have hadmits : d.admits (chunkOf sha s generation 0) = true := by
    refine admits_iff.mpr ⟨?_, hmax, hpos, ?_, Or.inl h.total, Or.inr hdigest, hlength s,
      Or.inl h.total⟩
    · show chunks s ≠ 0
      omega
    · show ((piece s 0).length + 2) / 3 * 4 ≤ 4 * ((catalogChunk + 2) / 3) + 4
      rw [hchunk] at hlen ⊢
      omega
  have hslot : (d.alloc (chunkOf sha s generation 0)).chunks[0]? = some none := by
    unfold Download.alloc
    rw [if_pos h.total]
    exact List.getElem?_replicate_of_lt hpos
  unfold Client.received
  simp only [hadmits, decide_true, Bool.true_and, if_true, hload.takes hs hslot]
  rfl

/-- A transfer without chunks does with an answer what one with empty slots does. -/
theorem Fresh.begins (hlength : ∀ s, (sha s).utf8ByteSize = 64) (hs : s.length ≤ catalogMax)
    (hpos : 0 < chunks s) (h : Fresh d) (htransfer : c.transfer = some d) (generation : Nat) :
    ∃ d', Loading sha s generation d' ∧ d'.requestedPage = 0 ∧ d'.token = d.token ∧
      (∀ i, ¬ Lib.Has d'.chunks i) ∧
      ∀ rest, deliver c (.status d.token (sha s) generation ::
          .chunk d.token (chunkOf sha s generation 0) :: rest) =
        deliver { c with transfer := some d' } (.chunk d.token (chunkOf sha s generation 0) :: rest) := by
  have hfresh : Fresh { d with digest := sha s, generation := generation } :=
    ⟨h.total, h.received, h.requestedPage⟩
  have hslots : (({ d with digest := sha s, generation := generation } : Download).alloc
      (chunkOf sha s generation 0)).chunks = List.replicate (chunks s) none := by
    unfold Download.alloc
    rw [if_pos hfresh.total]
    rfl
  have hempty : ∀ i, ¬ Lib.Has (({ d with digest := sha s, generation := generation } : Download).alloc
      (chunkOf sha s generation 0)).chunks i := by
    rintro i ⟨a, ha⟩
    rw [hslots] at ha
    exact absurd (List.eq_of_mem_replicate (List.mem_of_getElem? ha)) (by simp)
  have hload : Loading sha s generation
      (({ d with digest := sha s, generation := generation } : Download).alloc
        (chunkOf sha s generation 0)) := ⟨hfresh.alloc hpos 0, Or.inr (hempty _)⟩
  have htoken := alloc_token { d with digest := sha s, generation := generation }
    (chunkOf sha s generation 0)
  refine ⟨_, hload, (alloc_page _ _).trans h.requestedPage, htoken, hempty, fun rest => ?_⟩
  have hslot : (({ d with digest := sha s, generation := generation } : Download).alloc
      (chunkOf sha s generation 0)).chunks[0]? = some none := by
    rw [hslots]
    exact List.getElem?_replicate_of_lt hpos
  have hstatus : c.received (.status d.token (sha s) generation) true =
      { c with transfer := some { d with digest := sha s, generation := generation } } := by
    unfold Client.received
    rw [htransfer]
    simp [hlength, h.total]
  have hfirst := hfresh.first hlength hs hpos rfl hload c
  have hsecond := hload.receives (c := { c with transfer := some (({ d with
    digest := sha s, generation := generation } : Download).alloc
      (chunkOf sha s generation 0)) }) rfl (chunkOf sha s generation 0) true
  rw [hload.admits hlength hs hpos (by rw [alloc_page]; simp [h.requestedPage]), hload.takes hs hslot,
    Bool.and_self, if_pos rfl, progress_transfer, htoken] at hsecond
  unfold deliver
  simp only [List.foldl_cons]
  rw [hstatus, hfirst, hsecond]

/-- A transfer without chunks takes what one with empty slots does. -/
theorem Fresh.answers (hlength : ∀ s, (sha s).utf8ByteSize = 64) (hsnapshot : dir.snapshot = some s)
    (hs : s.length ≤ catalogMax) (hpos : 0 < chunks s) (h : Fresh d) (htransfer : c.transfer = some d) :
    ∃ d', Loading sha s dir.generation d' ∧ d'.requestedPage = 0 ∧ d'.token = d.token ∧
      ∀ n, deliver c (ReceiverCatalog.answers sha dir d.token 0 (n + 1)) =
        deliver { c with transfer := some d' } (ReceiverCatalog.answers sha dir d.token 0 (n + 1)) := by
  obtain ⟨d', hload, hpage, htoken, -, hbegins⟩ :=
    h.begins hlength hs hpos htransfer dir.generation
  refine ⟨d', hload, hpage, htoken, fun n => ?_⟩
  obtain ⟨rest, hrest⟩ : ∃ rest, requestHandler sha dir ⟨d.token, 0⟩ =
      .status d.token (sha s) dir.generation ::
        .chunk d.token (chunkOf sha s dir.generation 0) :: rest := by
    rw [requestHandler_eq hsnapshot hs (by omega)]
    obtain ⟨m, hm⟩ : ∃ m, min (8 * (0 + 1)) (chunks s) - 8 * 0 = m + 1 :=
      ⟨min (8 * (0 + 1)) (chunks s) - 8 * 0 - 1, by omega⟩
    rw [hm, List.range'_succ]
    exact ⟨_, rfl⟩
  have hidle : ∀ rest, deliver { c with transfer := some d' }
      (.status d.token (sha s) dir.generation :: rest) =
        deliver { c with transfer := some d' } rest := by
    intro rest
    unfold deliver
    rw [List.foldl_cons, hload.status rfl]
  unfold ReceiverCatalog.answers
  rw [List.range'_succ, List.flatMap_cons, hrest, List.cons_append, List.cons_append, hbegins, hidle]

end ReceiverCatalog

end RustyRig

/-!
The transfer of the receiver catalog.

In every run a transfer holds pieces of one snapshot and a job is a whole one, since two
snapshots with one digest are the same.  Where the steps are unhindered a transfer in progress
has its timer armed and can be completed; where the request for the next page is refused it
waits for ever.
-/

namespace RustyRig

namespace ReceiverCatalog

variable {sha : List UInt8 → String} {served : Directory → Prop} {w : Wire} {s : List UInt8}
  {dir : Directory} {c : Client} {d : Download} {generation i : Nat}

/-- What the transfer of the catalog promises. -/
structure Transferred (sha : List UInt8 → String) (served : Directory → Prop) (w : Wire) : Prop where
  /-- What the worker is given is verified, and it is a snapshot of the server. -/
  applied : ∀ job ∈ w.client.jobs, ∃ dir s, served dir ∧ dir.snapshot = some s ∧
    job.digest = sha s ∧ verify sha job = some s
  unmixed : ∀ d, w.client.transfer = some d → d.total ≠ 0 → ∃ dir s, served dir ∧
    dir.snapshot = some s ∧ d.digest = sha s ∧ d.generation = dir.generation ∧
      ∀ i a, d.chunks[i]? = some (some a) → a = piece s i
  armed : w.client.transfer ≠ none → w.client.timer = true
  inOrder : ∀ d, w.client.transfer = some d → d.total ≠ 0 → d.received = Lib.filled d.chunks ∧
    Lib.Paged 8 d.requestedPage d.chunks ∧ d.received < 8 * (d.requestedPage + 1)
  /-- The answers to the outstanding request and to those that follow complete the transfer. -/
  completes : ∀ d dir s, w.client.transfer = some d → served dir → dir.snapshot = some s →
    (d.total ≠ 0 → d.digest = sha s ∧ d.generation = dir.generation) →
      ∃ n, deliver w.client (answers sha dir d.token d.requestedPage (n + 1)) =
        completed sha s dir.generation w.client d.token (d.requestedPage + 1) n ∧
        verify sha ⟨pieces s, dir.generation, sha s⟩ = some s

theorem verify_pieces (hs : s.length ≤ catalogMax) :
    verify sha ⟨pieces s, generation, sha s⟩ = some s := by
  unfold verify
  simp only [assemble_pieces hs, if_true]

theorem Wired.completes (hdigests : Digests sha served) (h : Wired sha served w) (halive : Alive w)
    (htransfer : w.client.transfer = some d) (hserved : served dir) (hsnapshot : dir.snapshot = some s)
    (hsame : d.total ≠ 0 → d.digest = sha s ∧ d.generation = dir.generation) :
    ∃ n, deliver w.client (answers sha dir d.token d.requestedPage (n + 1)) =
      completed sha s dir.generation w.client d.token (d.requestedPage + 1) n ∧
      verify sha ⟨pieces s, dir.generation, sha s⟩ = some s := by
  obtain ⟨hmin, hs⟩ := dir.valid s hsnapshot
  have hpos : 0 < chunks s := chunks_pos (by omega)
  rcases h.transfer d htransfer with hfresh | ⟨dir', s', hserved', hs', hheld⟩
  · obtain ⟨d', hload, hpage, htoken, heq⟩ := hfresh.answers hdigests.length hsnapshot hs hpos htransfer
    refine ⟨(chunks s + 7) / 8 - 1, ?_, verify_pieces hs⟩
    have hall := deliver_answers hdigests.length hsnapshot hs ((chunks s + 7) / 8 - 1)
      { w.client with transfer := some d' } d' hload rfl (by omega)
    rw [htoken, hpage] at hall
    rw [hfresh.requestedPage, heq, hall]
    rfl
  · have hmore := hheld.more
    obtain ⟨hdigest, hgeneration⟩ := hsame (by omega)
    have heqs := hdigests.free dir' dir s' s hserved' hserved hs' hsnapshot (hheld.digest.symm.trans hdigest)
    subst heqs
    have hload : Loading sha s' dir.generation d :=
      ⟨hgeneration ▸ hheld.generation ▸ hheld, halive.last d htransfer (by omega)⟩
    have hwithin := hheld.paged.within
    rw [hheld.length] at hwithin
    refine ⟨(chunks s' + 7) / 8 - d.requestedPage - 1, ?_, verify_pieces hs⟩
    exact deliver_answers hdigests.length hsnapshot hs _ w.client d hload htransfer (by omega)

theorem Wired.transferred (hdigests : Digests sha served) (h : Wired sha served w) (halive : Alive w) :
    Transferred sha served w where
  applied := fun job hjob => by
    obtain ⟨dir, s, hserved, hsnapshot, rfl⟩ := h.jobs job hjob
    exact ⟨dir, s, hserved, hsnapshot, rfl, verify_pieces (dir.valid s hsnapshot).2⟩
  unmixed := fun d htransfer htotal => by
    rcases h.transfer d htransfer with hfresh | ⟨dir, s, hserved, hsnapshot, hheld⟩
    · exact absurd hfresh.total htotal
    · exact ⟨dir, s, hserved, hsnapshot, hheld.digest, hheld.generation, hheld.pieces⟩
  armed := halive.armed
  inOrder := fun d htransfer htotal => by
    rcases h.transfer d htransfer with hfresh | ⟨dir, s, -, -, hheld⟩
    · exact absurd hfresh.total htotal
    · exact ⟨hheld.received, hheld.paged, hheld.page⟩
  completes := fun _ _ _ htransfer hserved hsnapshot hsame =>
    h.completes hdigests halive htransfer hserved hsnapshot hsame

/-- Every unhindered run keeps what the transfer promises. -/
theorem transferred_run (hdigests : Digests sha served) {es : List Event}
    (hserved : ∀ e ∈ es, ∀ dir q, e = .serve dir q → served dir)
    (hfree : Lib.Along (Wire.step sha) Unhindered Wire.start es) :
    Transferred sha served (es.foldl (Wire.step sha) Wire.start) := by
  have hrun := (hfree.and_forall hserved).invariant (P := fun w => Wired sha served w ∧ Alive w)
    ⟨Wired.start, Alive.start⟩
    fun w e h he => ⟨h.1.step hdigests he.1 he.2, h.2.step hdigests h.1 he.1⟩
  exact hrun.1.transferred hdigests hrun.2

/-- Twenty bytes. -/
def small : Directory := ⟨some (List.replicate 20 7), 1, by
  rintro s hs
  rw [← Option.mem_some.mp hs]
  exact ⟨by decide, by decide⟩⟩

/-- A digest that knows one snapshot. -/
def constant (_ : List UInt8) : String :=
  "0123456789abcdef0123456789abcdef0123456789abcdef0123456789abcdef"

theorem constant_digests (dir : Directory) : Digests constant (· = dir) where
  length _ := (by decide +kernel : (constant []).utf8ByteSize = 64)
  free x x' s s' hx hx' hs hs' _ := by
    rw [hx] at hs
    rw [hx'] at hs'
    exact Option.some.inj (hs.symm.trans hs')

/-- The only chunk of a small snapshot, which arrives at the second try. -/
def retried : List Event :=
  [.request true, .expire true, .serve small ⟨1, 0⟩,
    .deliver (.status 1 (constant []) 1) true,
    .deliver (.chunk 1 (chunkOf constant (List.replicate 20 7) 1 0)) true]

theorem transferred_run_retried :
    Transferred constant (· = small) (retried.foldl (Wire.step constant) Wire.start) ∧
      (retried.foldl (Wire.step constant) Wire.start).client.jobs.length = 1 := by
  refine ⟨transferred_run (constant_digests small) ?_
    ⟨(by decide : 0 + 1 < 2 ^ 32), trivial, trivial, trivial, ?_, trivial⟩, by decide +kernel⟩
  · intro e he dir q heq
    subst heq
    simp [retried] at he
    exact he.1
  · intro d hd _ _ _
    have hfresh : ((retried.take 4).foldl (Wire.step constant) Wire.start).client.transfer =
        some ⟨[], 0, 0, 0, constant [], 1, 1, 1⟩ := by decide +kernel
    obtain rfl := Option.some.inj (hfresh.symm.trans hd)
    exact ⟨fun hmore => absurd rfl hmore, fun _ => Or.inl rfl⟩

/-! ### A refused request for the next page -/

/-- Deliveries that the wire makes. -/
theorem deliver_steps (rs : List Reply) : ∀ w : Wire, (∀ r ∈ rs, r ∈ w.replies) →
    (rs.map fun r => Event.deliver r true).foldl (Wire.step sha) w =
      { w with
        client := deliver w.client rs } := by
  induction rs with
  | nil => exact fun _ _ => rfl
  | cons r rs ih =>
      intro w hrs
      have hstep : w.step sha (.deliver r true) = { w with client := w.client.received r true } := by
        unfold Wire.step
        simp only
        rw [if_pos (hrs r List.mem_cons_self)]
      have hrest := ih { w with client := w.client.received r true } fun x hx =>
        hrs x (List.mem_cons_of_mem _ hx)
      rw [List.map_cons, List.foldl_cons, hstep]
      exact hrest

/-- The first `n` pieces of the first page, one after the other. -/
theorem deliver_first (hlength : ∀ s, (sha s).utf8ByteSize = 64) (hs : s.length ≤ catalogMax)
    (n : Nat) : ∀ (c : Client) (d : Download) (j : Nat), Loading sha s generation d →
      c.transfer = some d → d.requestedPage = 0 → (∀ i, Lib.Has d.chunks i ↔ i < j) →
      j + n < 8 → j + n < chunks s →
      ∃ c' d', deliver c ((List.range' j n).map fun i =>
          .chunk d.token (chunkOf sha s generation i)) = c' ∧ c'.transfer = some d' ∧
        Loading sha s generation d' ∧ d'.token = d.token ∧ d'.requestedPage = 0 ∧
        ∀ i, Lib.Has d'.chunks i ↔ i < j + n := by
  induction n with
  | zero => exact fun c d _ h htransfer hpage hhas _ _ => ⟨c, d, rfl, htransfer, h, rfl, hpage, hhas⟩
  | succ n ih =>
      intro c d j h htransfer hpage hhas hend hmore
      have hslot : d.chunks[j]? = some none :=
        (slot_cases (by rw [h.length]; omega)).resolve_left fun hj => absurd ((hhas j).mp hj) (by omega)
      have hlength' : j < d.chunks.length := by
        rw [h.length]
        omega
      have hfilled : d.received = j :=
        h.received.trans (Lib.filled_of_has_iff (Nat.le_of_lt hlength') hhas)
      have htakes := h.takes hs hslot
      have hadmits := h.admits hlength hs (i := j) (by omega) (by omega)
      have hput : ∀ i, Lib.Has (d.put (chunkOf sha s generation j)).chunks i ↔ i < j + 1 := by
        intro i
        have hset := Lib.has_set (a := piece s j) (j := i) hlength'
        rw [hhas i] at hset
        exact hset.trans (by omega)
      have hstep : ∀ rest, deliver c (.chunk d.token (chunkOf sha s generation j) :: rest) =
          deliver (c.received (.chunk d.token (chunkOf sha s generation j)) true) rest :=
        fun _ => rfl
      rw [List.range'_succ, List.map_cons, hstep, h.receives htransfer, hadmits, htakes, Bool.and_self,
        if_pos rfl]
      have htotal := h.total
      obtain ⟨hfull, -⟩ | ⟨-, hmod, -⟩ | ⟨hnext, heq⟩ :=
        progress_cases h.toHeld hslot (by omega) c true
      · have hfull : d.received + 1 = d.total := hfull
        omega
      · have hmod : (d.received + 1) % 8 = 0 := hmod
        omega
      · rw [heq]
        have hlast : Loading sha s generation (d.put (chunkOf sha s generation j)) :=
          ⟨hnext, Or.inr fun hhad => by
            have hless := (hput _).mp hhad
            rw [hnext.total] at hless
            omega⟩
        obtain ⟨c', d', hc', htransfer', hload, htoken, hpage', hhas'⟩ :=
          ih { c with transfer := some (d.put (chunkOf sha s generation j)), timer := true } _ (j + 1)
            hlast rfl hpage hput (by omega) (by omega)
        exact ⟨c', d', hc', htransfer', hload, htoken, hpage', fun i => (hhas' i).trans (by omega)⟩

/-- Eight chunks and one byte. -/
def ninth : List UInt8 := List.replicate 96001 7

theorem ninth_length : ninth.length = 96001 := List.length_replicate

def nine : Directory := ⟨some ninth, 1, by
  rintro s hs
  rw [← Option.mem_some.mp hs, ninth_length]
  exact ⟨by decide, by decide⟩⟩

/-- The answer to the first request, without the last of its pieces. -/
def firstPage : List Reply :=
  .status 1 (constant ninth) 1 ::
    (List.range' 0 7).map fun i => .chunk 1 (chunkOf constant ninth 1 i)

/-- The first page arrives, and the request for the second is refused. -/
def refused : List Event :=
  [.request true, .serve nine ⟨1, 0⟩] ++ firstPage.map (fun r => .deliver r true) ++
    [.deliver (.chunk 1 (chunkOf constant ninth 1 7)) false]

/-- A transfer that was just asked for. -/
def asked : Client := ⟨some ⟨[], 0, 0, 0, "", 1, 0, 0⟩, true, 1, [⟨1, 0⟩], []⟩

theorem ninth_le : ninth.length ≤ catalogMax := by
  rw [ninth_length]
  decide

theorem chunks_ninth : chunks ninth = 9 := by
  -- by its length alone: the list itself is not to be evaluated
  have hnine : ∀ s : List UInt8, s.length = 96001 → chunks s = 9 := by
    intro s hs
    unfold chunks catalogChunk
    omega
  exact hnine ninth ninth_length

/-- Seven pieces are taken. -/
theorem deliver_firstPage : ∃ c d, deliver asked firstPage = c ∧ c.transfer = some d ∧
    Loading constant ninth 1 d ∧ d.token = 1 ∧ d.requestedPage = 0 ∧
    ∀ i, Lib.Has d.chunks i ↔ i < 7 := by
  have hlength := (constant_digests nine).length
  have hchunks := chunks_ninth
  have hfresh : Fresh ⟨[], 0, 0, 0, "", 1, 0, 0⟩ := ⟨rfl, rfl, rfl⟩
  obtain ⟨d, hload, hpage, htoken, hempty, hbegins⟩ :=
    hfresh.begins (c := asked) hlength ninth_le (by omega) rfl 1
  have hsame : deliver asked firstPage = deliver { asked with transfer := some d }
      ((List.range' 0 7).map fun i => .chunk 1 (chunkOf constant ninth 1 i)) :=
    hbegins ((List.range' 1 6).map fun i => .chunk 1 (chunkOf constant ninth 1 i))
  obtain ⟨c, d', hc, htransfer, hload', htoken', hpage', hhas⟩ :=
    deliver_first hlength ninth_le 7 { asked with transfer := some d } d 0 hload rfl hpage
      (fun i => ⟨fun hi => absurd hi (hempty i), fun hi => absurd hi (Nat.not_lt_zero i)⟩)
      (by omega) (by omega)
  rw [htoken] at hc htoken'
  exact ⟨c, d', hsame.trans hc, htransfer, hload', htoken', hpage', fun i => (hhas i).trans (by omega)⟩

/-- The last piece of the page leaves a transfer without a timer if the request is refused. -/
theorem Loading.refused (hlength : ∀ s, (sha s).utf8ByteSize = 64) (hs : s.length ≤ catalogMax)
    (h : Loading sha s generation d) (htransfer : c.transfer = some d) (hpage : d.requestedPage = 0)
    (hhas : ∀ i, Lib.Has d.chunks i ↔ i < 7) (hmore : 8 < chunks s) :
    (c.received (.chunk d.token (chunkOf sha s generation 7)) false).transfer ≠ none ∧
      (c.received (.chunk d.token (chunkOf sha s generation 7)) false).timer = false := by
  have hslot : d.chunks[7]? = some none :=
    (slot_cases (by rw [h.length]; omega)).resolve_left fun hj => absurd ((hhas 7).mp hj) (by omega)
  have hfilled : d.received = 7 :=
    h.received.trans (Lib.filled_of_has_iff (by rw [h.length]; omega) hhas)
  rw [h.receives htransfer, h.admits hlength hs (by omega) (by omega), h.takes hs hslot, Bool.and_self,
    if_pos rfl]
  have htotal := h.total
  obtain ⟨hfull, -⟩ | ⟨-, -, -, heq⟩ | ⟨hnext, -⟩ :=
    progress_cases h.toHeld hslot (by omega) c false
  · have hfull : d.received + 1 = d.total := hfull
    omega
  · rw [heq]
    exact ⟨by simp, rfl⟩
  · have hpage' : d.received + 1 < 8 * (d.requestedPage + 1) := hnext.page
    omega

/-- The transfer waits, and there is no timer to end it. -/
theorem refused_waits :
    (∀ e ∈ refused, ∀ dir q, e = .serve dir q → dir = nine) ∧
      (refused.foldl (Wire.step constant) Wire.start).client.transfer ≠ none ∧
      (refused.foldl (Wire.step constant) Wire.start).client.timer = false := by
  have hlength := (constant_digests nine).length
  have hchunks := chunks_ninth
  have hhandler : requestHandler constant nine ⟨1, 0⟩ = _ := requestHandler_eq rfl ninth_le (by omega)
  refine ⟨fun e he dir q heq => ?_, ?_⟩
  · subst heq
    simp [refused] at he
    exact he.1
  have hmem : ∀ i, i < 8 →
      Reply.chunk 1 (chunkOf constant ninth 1 i) ∈ requestHandler constant nine ⟨1, 0⟩ := by
    intro i hi
    rw [hhandler]
    exact List.mem_cons_of_mem _ (List.mem_map.mpr ⟨i, List.mem_range'_1.mpr (by omega), rfl⟩)
  have hpage : ∀ r ∈ firstPage, r ∈ requestHandler constant nine ⟨1, 0⟩ := by
    intro r hr
    rcases List.mem_cons.mp hr with rfl | hr
    · rw [hhandler]
      exact List.mem_cons_self
    · obtain ⟨i, hi, rfl⟩ := List.mem_map.mp hr
      exact hmem i (by rw [List.mem_range'_1] at hi; omega)
  have hserved : ([Event.request true, .serve nine ⟨1, 0⟩]).foldl (Wire.step constant) Wire.start =
      ⟨asked, requestHandler constant nine ⟨1, 0⟩⟩ := by
    simp [Wire.step, Wire.start, Client.request, asked]
  obtain ⟨c, d, hc, htransfer, hload, htoken, hrequested, hhas⟩ := deliver_firstPage
  unfold ReceiverCatalog.refused
  rw [List.foldl_append, List.foldl_append, hserved, deliver_steps firstPage _ hpage, hc, List.foldl_cons,
    List.foldl_nil]
  unfold Wire.step
  simp only
  rw [if_pos (hmem 7 (by omega))]
  have hrefused := hload.refused hlength ninth_le htransfer hrequested hhas (by omega)
  rw [htoken] at hrefused
  exact hrefused

end ReceiverCatalog

end RustyRig
