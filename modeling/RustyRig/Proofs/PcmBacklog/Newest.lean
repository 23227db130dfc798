/-
The backlog keeps the newest sound.

`Stores` says that the filled part of the buffer is the newest of what has been accepted so far.  One
append carries it on in each of its three cases, and no copy it makes leaves its buffers.
-/
import RustyRig.Lib.Newest
import RustyRig.Libfwdspmgr.PcmBacklog

namespace RustyRig

namespace PcmBacklog

open Lib

variable {queue : Queue} {stream bytes : Bytes}

/-- What an append takes of its data: whole samples, or nothing. -/
def accepted (data : Option Bytes) : Bytes :=
  match data with
  | none => []
  | some bytes => if bytes.length % 2 = 1 then [] else bytes

/-- The filled part of the buffer. -/
def Queue.stored (queue : Queue) : Bytes := queue.data.take queue.len

/-- The queue holds the newest part of a stream of whole samples. -/
structure Stores (queue : Queue) (stream : Bytes) : Prop where
  sized : queue.data.length = FWDSP_PCM_BACKLOG_BYTES
  len : queue.len = min FWDSP_PCM_BACKLOG_BYTES stream.length
  stored : queue.stored = newest FWDSP_PCM_BACKLOG_BYTES stream
  whole : 2 ∣ stream.length

theorem dvd_accepted (data : Option Bytes) : 2 ∣ (accepted data).length := by
  unfold accepted
  split
  · exact Nat.dvd_zero 2
  split
  · exact Nat.dvd_zero 2
  · exact Nat.dvd_of_mod_eq_zero (by omega)

theorem stores_empty : Stores Queue.empty [] where
  sized := List.length_replicate
  len := rfl
  stored := rfl
  whole := Nat.dvd_zero 2

/-- Nothing is taken of data without whole samples. -/
theorem accepted_nil (h : bytes.length = 0 ∨ bytes.length % 2 = 1) : accepted (some bytes) = [] := by
  unfold accepted
  dsimp only
  rcases h with h | h
  · rw [List.eq_nil_of_length_eq_zero h]
    rfl
  · exact if_pos h

theorem accepted_some (h : ¬(bytes.length = 0 ∨ bytes.length % 2 = 1)) : accepted (some bytes) = bytes :=
  if_neg fun hodd => h (Or.inr hodd)

/-- An append stays within its buffers and keeps the newest of what it took. -/
theorem append_stores (h : Stores queue stream) (data : Option Bytes) :
    ∃ queue', append queue data = some queue' ∧ Stores queue' (stream ++ accepted data) := by
  have hwhole : 2 ∣ (stream ++ accepted data).length := by
    rw [List.length_append]
    exact Nat.dvd_add h.whole (dvd_accepted data)
  cases data with
  | none => exact ⟨queue, rfl, by rw [accepted, List.append_nil]; exact h⟩
  | some bytes =>
      by_cases hnone : bytes.length = 0 ∨ bytes.length % 2 = 1
      · refine ⟨queue, if_pos hnone, ?_⟩
        rw [accepted_nil hnone, List.append_nil]
        exact h
      rw [accepted_some hnone] at hwhole ⊢
      have hsized := h.sized
      have hlen := h.len
      have hkept : queue.data.take queue.len = newest FWDSP_PCM_BACKLOG_BYTES stream := h.stored
      unfold append
      dsimp only
      rw [if_neg hnone]
      by_cases hlong : queue.data.length ≤ bytes.length
      · -- the block alone fills the buffer
        obtain ⟨cells, hcopy, hcells, htake⟩ := Buffer.copy_front queue.data bytes
          (bytes.length - queue.data.length) queue.data.length (Nat.le_refl _) (by omega)
        rw [if_pos hlong, hcopy]
        refine ⟨_, rfl, hcells.trans hsized, ?_, ?_, hwhole⟩
        · rw [List.length_append]
          dsimp only
          omega
        · rw [Newest.newest_append_of_le (by omega)]
          refine htake.trans ?_
          rw [List.take_of_length_le (by rw [List.length_drop]; omega), hsized]
          rfl
      rw [if_neg hlong]
      have hshort : bytes.length ≤ FWDSP_PCM_BACKLOG_BYTES := by omega
      by_cases hfull : queue.data.length < queue.len + bytes.length
      · -- the oldest samples make room
        rw [if_pos hfull]
        generalize hdiscard : queue.len + bytes.length - queue.data.length = discard
        obtain ⟨moved, hmove, hmoved, hkeep⟩ := Buffer.copy_front queue.data queue.data
          discard (queue.len - discard) (by omega) (by omega)
        obtain ⟨cells, hcopy, hcells, htake⟩ := Buffer.copy_all moved bytes (queue.len - discard) (by omega)
        rw [hmove]
        dsimp only
        rw [hcopy]
        refine ⟨_, rfl, hcells.trans (hmoved.trans hsized), ?_, ?_, hwhole⟩
        · rw [List.length_append]
          dsimp only
          omega
        · rw [Newest.newest_append hshort]
          refine htake.trans ?_
          rw [hkeep, ← List.drop_take, hkept]
          congr 1
          unfold newest
          rw [List.drop_drop]
          congr 1
          omega
      · -- there is room behind the stored samples
        obtain ⟨cells, hcopy, hcells, htake⟩ := Buffer.copy_all queue.data bytes queue.len (by omega)
        rw [if_neg hfull, hcopy]
        refine ⟨_, rfl, hcells.trans hsized, ?_, ?_, hwhole⟩
        · rw [List.length_append]
          dsimp only
          omega
        · have hroom : stream.length - (FWDSP_PCM_BACKLOG_BYTES - bytes.length) = stream.length - FWDSP_PCM_BACKLOG_BYTES := by
            omega
          rw [Newest.newest_append hshort]
          refine htake.trans ?_
          unfold newest at hkept ⊢
          rw [hkept, hroom]

theorem appendAll_stores (blocks : List (Option Bytes)) : ∀ {queue stream}, Stores queue stream →
    ∃ queue', appendAll queue blocks = some queue' ∧ Stores queue' (stream ++ blocks.flatMap accepted) := by
  induction blocks with
  | nil => exact fun h => ⟨_, rfl, by rw [List.flatMap_nil, List.append_nil]; exact h⟩
  | cons data blocks ih =>
      intro queue stream h
      obtain ⟨queue₁, happend, hstores⟩ := append_stores h data
      obtain ⟨queue₂, hrest, hstores⟩ := ih hstores
      refine ⟨queue₂, ?_, ?_⟩
      · rw [appendAll, happend]
        exact hrest
      · rw [List.flatMap_cons, ← List.append_assoc]
        exact hstores

/-- Whatever is appended to an empty backlog, no copy leaves its buffers, and what is stored is the newest of
all that was accepted, from a sample boundary on. -/
theorem backlog_newest (blocks : List (Option Bytes)) :
    ∃ queue, appendAll Queue.empty blocks = some queue ∧
      queue.stored = newest FWDSP_PCM_BACKLOG_BYTES (blocks.flatMap accepted) ∧
      queue.len = min FWDSP_PCM_BACKLOG_BYTES (blocks.flatMap accepted).length ∧
      2 ∣ (blocks.flatMap accepted).length - queue.len := by
  obtain ⟨queue, hrun, hstores⟩ := appendAll_stores blocks stores_empty
  rw [List.nil_append] at hstores
  refine ⟨queue, hrun, hstores.stored, hstores.len, ?_⟩
  rw [hstores.len]
  rcases Nat.le_total FWDSP_PCM_BACKLOG_BYTES (blocks.flatMap accepted).length with hle | hle
  · rw [Nat.min_eq_left hle]
    exact Newest.dvd_lost (Nat.dvd_of_mod_eq_zero rfl) hstores.whole
  · rw [Nat.min_eq_right hle, Nat.sub_self]
    exact Nat.dvd_zero 2

end PcmBacklog

end RustyRig
