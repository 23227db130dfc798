/-
What a transfer holds is one snapshot's.

A chunk is admitted if it has the digest of those before it, and two snapshots with one digest
are one; so whatever the directory does meanwhile, the slots hold the pieces of one snapshot.
`Held` is what a transfer with chunks is, and taking one more keeps it, fills the page or
completes the snapshot.
-/
import RustyRig.Rrclient.ReceiverCatalog
import RustyRig.Lib.Along

namespace RustyRig

namespace ReceiverCatalog

variable {sha : List UInt8 → String} {s : List UInt8} {generation i : Nat} {d : Download}

/-! ### The pieces of a snapshot -/

theorem chunks_pos (h : s.length ≠ 0) : 0 < chunks s := by
  unfold chunks catalogChunk
  omega

theorem lt_chunks : i < chunks s ↔ i * catalogChunk < s.length := by
  unfold chunks catalogChunk
  omega

theorem chunks_le (h : s.length ≤ catalogMax) : chunks s ≤ 1024 := by
  have hmax : catalogMax = 8388608 := rfl
  unfold chunks catalogChunk
  omega

theorem piece_length : (piece s i).length = min catalogChunk (s.length - i * catalogChunk) := by
  unfold piece
  rw [List.length_take, List.length_drop]

theorem piece_ne_nil (hi : i < chunks s) : piece s i ≠ [] := by
  have hlt := lt_chunks.mp hi
  intro hnil
  have hlen := piece_length (s := s) (i := i)
  rw [hnil, List.length_nil] at hlen
  unfold catalogChunk at hlen hlt
  omega

/-- The slots of a snapshot that is complete. -/
def pieces (s : List UInt8) : List (Option (List UInt8)) :=
  (List.range (chunks s)).map fun i => some (piece s i)

theorem assemble_range' (hs : s.length ≤ catalogMax) (n : Nat) : ∀ i, i + n = chunks s →
    assemble (s.take (i * catalogChunk)) ((List.range' i n).map fun i => some (piece s i)) =
      some s := by
  induction n with
  | zero =>
      intro i hi
      have hall : s.length ≤ i * catalogChunk := by
        have hnot := mt (lt_chunks (s := s) (i := i)).mpr (by omega)
        omega
      simp [assemble, List.take_of_length_le hall]
  | succ n ih =>
      intro i hi
      have hnext : s.take (i * catalogChunk) ++ piece s i = s.take ((i + 1) * catalogChunk) := by
        unfold piece
        rw [Nat.add_mul, Nat.one_mul, List.take_add]
      have hroom : ¬ catalogMax < (s.take (i * catalogChunk)).length + (piece s i).length := by
        rw [← List.length_append, hnext, List.length_take]
        omega
      rw [List.range'_succ, List.map_cons, assemble, if_neg hroom, hnext]
      exact ih (i + 1) (by omega)

theorem assemble_pieces (hs : s.length ≤ catalogMax) : assemble [] (pieces s) = some s := by
  have hall := assemble_range' hs (chunks s) 0 (by omega)
  rwa [Nat.zero_mul, List.take_zero, ← List.range_eq_range'] at hall

/-- A row that holds a piece in every slot. -/
theorem eq_pieces {slots : List (Option (List UInt8))} (hlen : slots.length = chunks s)
    (hfull : Lib.filled slots = slots.length)
    (hpiece : ∀ i a, slots[i]? = some (some a) → a = piece s i) : slots = pieces s := by
  have hall := Lib.filled_eq_length.mp hfull
  refine List.ext_getElem? fun i => ?_
  unfold pieces
  rw [List.getElem?_map]
  by_cases hi : i < slots.length
  · obtain ⟨a, ha⟩ := hall i hi
    rw [ha, hpiece i a ha, List.getElem?_range (hlen ▸ hi)]
    rfl
  · rw [List.getElem?_eq_none (Nat.not_lt.mp hi), List.getElem?_eq_none (by simp; omega)]
    rfl

/-! ### A transfer with chunks -/

/-- A transfer that holds pieces of a snapshot. -/
structure Held (sha : List UInt8 → String) (s : List UInt8) (generation : Nat) (d : Download) :
    Prop where
  total : d.total = chunks s
  length : d.chunks.length = chunks s
  digest : d.digest = sha s
  generation : d.generation = generation
  pieces : ∀ i a, d.chunks[i]? = some (some a) → a = piece s i
  received : d.received = Lib.filled d.chunks
  paged : Lib.Paged 8 d.requestedPage d.chunks
  more : d.received < d.total
  page : d.received < 8 * (d.requestedPage + 1)

/-- A transfer that has no chunks yet. -/
structure Fresh (d : Download) : Prop where
  total : d.total = 0
  received : d.received = 0
  requestedPage : d.requestedPage = 0

/-- The slots are made for the first chunk. -/
theorem Fresh.alloc (h : Fresh d) (hpos : 0 < chunks s) (i : Nat) :
    Held sha s generation (d.alloc (chunkOf sha s generation i)) := by
  unfold Download.alloc
  rw [if_pos h.total]
  have hpaged : Lib.Paged 8 0 (List.replicate (chunks s) (none : Option (List UInt8))) :=
    Lib.Paged.start hpos
  have hnone : Lib.filled (List.replicate (chunks s) (none : Option (List UInt8))) = 0 := by
    simp [Lib.filled, List.countP_replicate]
  refine ⟨rfl, by simp [chunkOf], rfl, rfl, ?_, ?_, ?_, ?_, ?_⟩
  · intro i a ha
    exact absurd (List.eq_of_mem_replicate (List.mem_of_getElem? ha)) (by simp)
  · show d.received = _
    rw [h.received]
    exact hnone.symm
  · show Lib.Paged 8 d.requestedPage _
    rw [h.requestedPage]
    exact hpaged
  · show d.received < chunks s
    rw [h.received]
    exact hpos
  · show d.received < 8 * (d.requestedPage + 1)
    rw [h.received]
    omega

theorem Held.alloc (h : Held sha s generation d) (c : Chunk) : d.alloc c = d := by
  unfold Download.alloc
  rw [if_neg]
  have hmore := h.more
  omega

/-- One more piece: the snapshot is complete, the page is, or it is not. -/
theorem Held.put (h : Held sha s generation d) (hnone : d.chunks[i]? = some none)
    (hi : i < 8 * (d.requestedPage + 1)) :
    let d' := d.put (chunkOf sha s generation i)
    (d'.received = d'.total ∧ d'.chunks = ReceiverCatalog.pieces s) ∨
      (d'.received ≠ d'.total ∧ d'.received % 8 = 0 ∧ d'.received / 8 = d.requestedPage + 1 ∧
        Held sha s generation { d' with requestedPage := d.requestedPage + 1 }) ∨
        (d'.received ≠ d'.total ∧ d'.received % 8 ≠ 0 ∧ Held sha s generation d') := by
  intro d'
  have hlen : i < d.chunks.length := (List.getElem?_eq_some_iff.mp hnone).1
  have hpaged : Lib.Paged 8 d.requestedPage d'.chunks := h.paged.set hi hlen
  have hreceived : d'.received = Lib.filled d'.chunks := by
    show d.received + 1 = Lib.filled (d.chunks.set i _)
    rw [Lib.filled_set hnone, h.received]
  have hlength : d'.chunks.length = chunks s := by
    show (d.chunks.set i _).length = _
    rw [List.length_set, h.length]
  have hpieces : ∀ j a, d'.chunks[j]? = some (some a) → a = piece s j := by
    intro j a hj
    have hj : (d.chunks.set i (some (piece s i)))[j]? = some (some a) := hj
    rw [List.getElem?_set] at hj
    by_cases hij : i = j
    · subst hij
      rw [if_pos rfl, if_pos hlen] at hj
      exact (Option.some.inj (Option.some.inj hj)).symm
    · rw [if_neg hij] at hj
      exact h.pieces j a hj
  have hless := h.more
  have htotal : d'.total = d.total := rfl
  have hcount : d'.received = d.received + 1 := rfl
  have hlow := hpaged.le_filled
  have hhigh := hpaged.filled_le
  have hgrows := h.paged.le_filled
  rw [← hreceived] at hlow hhigh
  rw [← h.received] at hgrows
  by_cases hall : d'.received = d'.total
  · refine Or.inl ⟨hall, eq_pieces hlength ?_ hpieces⟩
    rw [← hreceived, hall, hlength, htotal, h.total]
  have hmore : d'.received < d'.total := by omega
  by_cases hpage : d'.received % 8 = 0
  · refine Or.inr (Or.inl ⟨hall, hpage, by omega, ?_⟩)
    have hfull : Lib.filled d'.chunks = 8 * (d.requestedPage + 1) := by omega
    have hnext := hpaged.next hfull (by rw [← hreceived, hlength, ← h.total]; omega)
    exact ⟨h.total, hlength, h.digest, h.generation, hpieces, hreceived, hnext, hmore,
      show d'.received < 8 * (d.requestedPage + 1 + 1) by omega⟩
  · exact Or.inr (Or.inr ⟨hall, hpage, h.total, hlength, h.digest, h.generation, hpieces, hreceived,
      hpaged, hmore, show d'.received < 8 * (d.requestedPage + 1) by omega⟩)

end ReceiverCatalog

end RustyRig

/-!
What the wire can bring.

A reply answers a request that the client has sent, and the pages that were asked for with a
transfer's token are not ahead of the page it asks for now.  So a chunk that is admitted
belongs to that page, of the snapshot that the transfer holds.
-/

namespace RustyRig

namespace ReceiverCatalog

variable {sha : List UInt8 → String} {served : Directory → Prop} {w : Wire} {c : Client}
  {d : Download} {r : Reply}

/-- The digest is one of 64 characters, and no two snapshots that the server ever has share theirs. -/
structure Digests (sha : List UInt8 → String) (served : Directory → Prop) : Prop where
  length : ∀ s, (sha s).utf8ByteSize = 64
  free : ∀ dir dir' s s', served dir → served dir' → dir.snapshot = some s → dir'.snapshot = some s' →
    sha s = sha s' → s = s'

/-- What holds of the client and the wire at any time. -/
structure Wired (sha : List UInt8 → String) (served : Directory → Prop) (w : Wire) : Prop where
  tokens : ∀ q ∈ w.client.sent, q.token ≤ w.client.serial
  token : ∀ d, w.client.transfer = some d → d.token = w.client.serial
  pages : ∀ d, w.client.transfer = some d → ∀ q ∈ w.client.sent, q.token = d.token →
    q.page ≤ d.requestedPage
  replies : ∀ r ∈ w.replies, ∃ q ∈ w.client.sent, ∃ dir, served dir ∧ r ∈ requestHandler sha dir q
  transfer : ∀ d, w.client.transfer = some d →
    Fresh d ∨ ∃ dir s, served dir ∧ dir.snapshot = some s ∧ Held sha s dir.generation d
  jobs : ∀ job ∈ w.client.jobs, ∃ dir s, served dir ∧ dir.snapshot = some s ∧
    job = ⟨pieces s, dir.generation, sha s⟩

theorem mem_requestHandler {dir : Directory} {q : Request} (h : r ∈ requestHandler sha dir q) :
    r = .status q.token (dir.digest sha) dir.generation ∨
      ∃ s i, dir.snapshot = some s ∧ r = .chunk q.token (chunkOf sha s dir.generation i) ∧
        i < 8 * (q.page + 1) ∧ i < chunks s := by
  unfold requestHandler at h
  rcases List.mem_cons.mp h with h | h
  · exact Or.inl h
  · right
    split at h
    · exact absurd h (by simp)
    rename_i s hs
    split at h
    · exact absurd h (by simp)
    split at h
    · exact absurd h (by simp)
    obtain ⟨i, hi, rfl⟩ := List.mem_map.mp h
    rw [List.mem_range'_1] at hi
    exact ⟨s, i, hs, rfl, by omega, by omega⟩

/-- What an admitted chunk says. -/
theorem admits_iff {k : Chunk} : d.admits k = true ↔
    (k.total ≠ 0 ∧ k.total ≤ 1024 ∧ k.sequence < k.total ∧
      (k.data.length + 2) / 3 * 4 ≤ 4 * ((catalogChunk + 2) / 3) + 4 ∧
      (d.total = 0 ∨ d.total = k.total ∧ d.generation = k.generation) ∧
      (d.digest = "" ∨ d.digest = k.digest) ∧ k.digest.utf8ByteSize = 64 ∧
      (d.total = 0 ∨ d.requestedPage * 8 ≤ k.sequence)) := by
  simp only [Download.admits, Bool.and_eq_true, Bool.or_eq_true, decide_eq_true_eq, ne_eq, and_assoc]

/-- What a chunk that is taken says. -/
theorem takes_iff {k : Chunk} : d.takes k = true ↔
    (d.chunks[k.sequence]? = some none ∧ k.data ≠ [] ∧ k.data.length ≤ catalogChunk ∧
      d.received * catalogChunk + k.data.length ≤ catalogMax) := by
  simp only [Download.takes, Bool.and_eq_true, decide_eq_true_eq, ne_eq, and_assoc]

theorem alloc_token (d : Download) (k : Chunk) : (d.alloc k).token = d.token := by
  unfold Download.alloc
  split <;> rfl

theorem alloc_page (d : Download) (k : Chunk) : (d.alloc k).requestedPage = d.requestedPage := by
  unfold Download.alloc
  split <;> rfl

/-- An admitted chunk is a piece of the requested page of the snapshot that the transfer holds. -/
theorem Wired.admitted (hdigests : Digests sha served) (h : Wired sha served w)
    (htransfer : w.client.transfer = some d) {k : Chunk} (hr : .chunk d.token k ∈ w.replies)
    (hadmits : d.admits k = true) :
    ∃ dir s i, served dir ∧ dir.snapshot = some s ∧ k = chunkOf sha s dir.generation i ∧
      Held sha s dir.generation (d.alloc k) ∧ i < 8 * (d.requestedPage + 1) ∧ i < chunks s := by
  obtain ⟨q, hq, dir, hserved, hmem⟩ := h.replies _ hr
  rcases mem_requestHandler hmem with heq | ⟨s, i, hs, heq, hpage, hi⟩
  · exact absurd heq (by simp)
  obtain ⟨htoken, rfl⟩ := (Reply.chunk.injEq ..).mp heq
  have hasked := h.pages d htransfer q hq htoken.symm
  refine ⟨dir, s, i, hserved, hs, rfl, ?_, by omega, hi⟩
  rcases h.transfer d htransfer with hfresh | ⟨dir', s', hserved', hs', hheld⟩
  · exact hfresh.alloc (by omega) i
  · obtain ⟨-, -, -, -, hsame, hdigest, hsize, -⟩ := admits_iff.mp hadmits
    have hdigest : sha s' = sha s := by
      rw [hheld.digest] at hdigest
      rcases hdigest with hempty | hdigest
      · have hlen := hdigests.length s'
        rw [hempty] at hlen
        exact absurd hlen (by decide)
      · exact hdigest
    have heqs := hdigests.free dir' dir s' s hserved' hserved hs' hs hdigest
    subst heqs
    have hmore := hheld.more
    have hgeneration : d.generation = dir.generation := (hsame.resolve_left (by omega)).2
    rw [hheld.alloc, ← hgeneration, hheld.generation]
    exact hheld

/-- A chunk that is taken: the snapshot is complete, its page is, or neither. -/
theorem progress_cases {s : List UInt8} {generation i : Nat} (h : Held sha s generation d)
    (hnone : d.chunks[i]? = some none) (hi : i < 8 * (d.requestedPage + 1)) (c : Client) (sends : Bool) :
    let d' := d.put (chunkOf sha s generation i)
    (d'.received = d'.total ∧ c.progress d' sends = { c with
      transfer := none
      timer := false
      jobs := c.jobs ++ [⟨pieces s, generation, sha s⟩] }) ∨
      (d'.received ≠ d'.total ∧ d'.received % 8 = 0 ∧
        Held sha s generation { d' with requestedPage := d.requestedPage + 1 } ∧
        c.progress d' sends =
          if sends then
            { c with
              transfer := some { d' with requestedPage := d.requestedPage + 1 }
              timer := true
              sent := c.sent ++ [⟨d.token, d.requestedPage + 1⟩] }
          else
            { c with
              transfer := some { d' with requestedPage := d.requestedPage + 1 }
              timer := false }) ∨
      (Held sha s generation d' ∧ c.progress d' sends = { c with transfer := some d', timer := true }) := by
  intro d'
  rcases h.put hnone hi with ⟨hall, hpieces⟩ | ⟨hall, hpage, hnext, hheld⟩ | ⟨hall, hpage, hheld⟩
  · refine Or.inl ⟨hall, ?_⟩
    have hjob : (⟨d'.chunks, d'.generation, d'.digest⟩ : Job) = ⟨pieces s, generation, sha s⟩ := by
      rw [show d'.generation = generation from h.generation, show d'.digest = sha s from h.digest,
        show d'.chunks = pieces s from hpieces]
    unfold Client.progress
    rw [if_pos hall, hjob]
  · refine Or.inr (Or.inl ⟨hall, hpage, hheld, ?_⟩)
    unfold Client.progress
    rw [if_neg hall, if_pos hpage, hnext]
    rfl
  · refine Or.inr (Or.inr ⟨hheld, ?_⟩)
    unfold Client.progress
    rw [if_neg hall, if_neg hpage]

end ReceiverCatalog

end RustyRig
