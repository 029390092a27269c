import NovaOs.Shm.Books
import Mathlib.Data.List.Basic

/-! First-fit placement finds room that no mapping of the process takes up. -/

namespace NovaOs

open List

namespace Shm

variable {span : Nat × Nat} {spans : List (Nat × Nat)} {pid : Pid} {need finish cand addr : Nat}

theorem mem_insertSpan {other : Nat × Nat} :
    other ∈ insertSpan span spans ↔ other = span ∨ other ∈ spans := by
  induction spans with
  | nil => simp [insertSpan]
  | cons last before ih =>
    rw [insertSpan]
    split
    · simp only [mem_cons, ih]
      exact or_left_comm
    · simp

/-- Sorting a span in keeps the spans in descending order. -/
theorem insertSpan_sorted (sorted : spans.Pairwise fun later earlier => earlier.1 ≤ later.1) :
    (insertSpan span spans).Pairwise fun later earlier => earlier.1 ≤ later.1 := by
  induction spans with
  | nil => simp [insertSpan]
  | cons last before ih =>
    obtain ⟨highest, rest⟩ := pairwise_cons.mp sorted
    rw [insertSpan]
    split
    · rename_i below
      refine pairwise_cons.mpr ⟨?_, ih rest⟩
      intro other member
      rcases mem_insertSpan.mp member with rfl | member
      · exact Nat.le_of_lt below
      · exact highest other member
    rename_i above
    refine pairwise_cons.mpr ⟨?_, sorted⟩
    intro other member
    rcases mem_cons.mp member with rfl | member
    · exact Nat.not_lt.mp above
    · exact Nat.le_trans (highest other member) (Nat.not_lt.mp above)

/-- What sorting any number of spans in gives: the same spans, in descending order. -/
theorem foldl_insertSpan (spans sorted : List (Nat × Nat))
    (already : sorted.Pairwise fun later earlier => earlier.1 ≤ later.1) :
    ((spans.foldl (fun sorted span => insertSpan span sorted) sorted).Pairwise
        fun later earlier => earlier.1 ≤ later.1) ∧
      ∀ other, other ∈ spans.foldl (fun sorted span => insertSpan span sorted) sorted
        ↔ other ∈ spans ∨ other ∈ sorted := by
  induction spans generalizing sorted with
  | nil => simpa using already
  | cons span rest ih =>
    obtain ⟨ordered, members⟩ := ih (insertSpan span sorted) (insertSpan_sorted already)
    refine ⟨ordered, ?_⟩
    intro other
    rw [foldl_cons, members, mem_insertSpan, mem_cons]
    exact or_left_comm.trans or_assoc.symm

variable {shm : Shm}

theorem spansOf_sorted (pid : Pid) :
    (shm.spansOf pid).Pairwise fun earlier later => earlier.1 ≤ later.1 := by
  rw [spansOf, pairwise_reverse]
  exact (foldl_insertSpan _ [] Pairwise.nil).1

/-- While no process holds too many mappings, the spans leave none of them out. -/
theorem Books.mem_spansOf (books : Books shm) :
    span ∈ shm.spansOf pid ↔ ∃ i, (shm.maps i).inUse = true ∧ (shm.maps i).pid = pid ∧
      span = ((shm.maps i).addr, (shm.maps i).spanEnd) := by
  have few := books.few pid
  rw [Table.count, countP_eq_length_filter] at few
  have whole : ((finRange maxMapRecords).filter fun i =>
      (shm.maps i).inUse && (shm.maps i).pid == pid).take maxMapsPerProc
        = (finRange maxMapRecords).filter fun i =>
      (shm.maps i).inUse && (shm.maps i).pid == pid := take_of_length_le few
  simp only [spansOf, whole]
  rw [mem_reverse, (foldl_insertSpan _ [] Pairwise.nil).2]
  simp only [mem_map, mem_filter, mem_finRange, true_and, Bool.and_eq_true,
    beq_iff_eq, not_mem_nil, or_false]
  constructor
  · intro found
    obtain ⟨i, ⟨used, mine⟩, same⟩ := found
    exact ⟨i, used, mine, same.symm⟩
  · intro found
    obtain ⟨i, used, mine, same⟩ := found
    exact ⟨i, ⟨used, mine⟩, same.symm⟩

/-- A gap that the scan stops at is clear of every span. -/
theorem scanGap_clear (sorted : spans.Pairwise fun earlier later => earlier.1 ≤ later.1)
    (bounded : ∀ span ∈ spans, span.1 ≤ finish)
    (found : scanGap need finish cand spans = some addr) :
    cand ≤ addr ∧ addr + need ≤ finish ∧
      ∀ span ∈ spans, addr + need ≤ span.1 ∨ span.2 ≤ addr := by
  induction spans generalizing cand with
  | nil =>
    simp only [scanGap] at found
    split at found
    · cases found
      simpa
    · cases found
  | cons span rest ih =>
    obtain ⟨low, high⟩ := span
    obtain ⟨lowest, ordered⟩ := pairwise_cons.mp sorted
    have lowBound := bounded (low, high) (by simp)
    simp only [scanGap] at found
    split at found
    · -- The gap before this span is wide enough, and all later spans start no earlier.
      rename_i fits
      cases found
      refine ⟨Nat.le_refl _, by omega, ?_⟩
      intro other member
      left
      rcases mem_cons.mp member with rfl | member
      · simp only
        omega
      · have after := lowest other member
        simp only at after
        omega
    · obtain ⟨above, ends, clear⟩ :=
        ih ordered (fun other member => bounded other (by simp [member])) found
      refine ⟨by split at above <;> omega, ends, ?_⟩
      intro other member
      rcases mem_cons.mp member with rfl | member
      · right
        simp only
        split at above <;> omega
      · exact clear other member

/-- The scan only ever stops where it started or at the end of a span. -/
theorem scanGap_aligned (start : cand % pageSize = 0)
    (ends : ∀ span ∈ spans, span.2 % pageSize = 0)
    (found : scanGap need finish cand spans = some addr) : addr % pageSize = 0 := by
  induction spans generalizing cand with
  | nil =>
    simp only [scanGap] at found
    split at found
    · cases found
      exact start
    · cases found
  | cons span rest ih =>
    obtain ⟨low, high⟩ := span
    simp only [scanGap] at found
    split at found
    · cases found
      exact start
    · refine ih ?_ (fun other member => ends other (by simp [member])) found
      split
      · exact ends (low, high) (by simp)
      · exact start

/-- Room that placement finds is aligned, inside the region, and clear of the process's mappings. -/
theorem Books.findGap (books : Books shm) {needPages : Nat}
    (found : shm.findGap pid needPages shmVirtBase shmVirtEnd = some addr) :
    addr % pageSize = 0 ∧ shmVirtBase ≤ addr ∧ addr + needPages * pageSize ≤ shmVirtEnd ∧
      ∀ i, (shm.maps i).inUse = true → (shm.maps i).pid = pid →
        addr + needPages * pageSize ≤ (shm.maps i).addr ∨ (shm.maps i).spanEnd ≤ addr := by
  have bounded : ∀ span ∈ shm.spansOf pid, span.1 ≤ shmVirtEnd := by
    intro span member
    obtain ⟨i, used, _, rfl⟩ := books.mem_spansOf.mp member
    have placed := (books.placed i used).2.2
    simp only [MapRec.spanEnd] at placed ⊢
    omega
  have aligned : ∀ span ∈ shm.spansOf pid, span.2 % pageSize = 0 := by
    intro span member
    obtain ⟨i, used, _, rfl⟩ := books.mem_spansOf.mp member
    have placed := (books.placed i used).1
    simp only [MapRec.spanEnd, pageSize] at placed ⊢
    omega
  obtain ⟨low, high, clear⟩ := scanGap_clear (spansOf_sorted pid) bounded found
  refine ⟨scanGap_aligned (by decide) aligned found, low, high, ?_⟩
  intro i used mine
  exact clear _ (books.mem_spansOf.mpr ⟨i, used, mine, rfl⟩)

/-- The scan passes over no address that is clear of every span. -/
theorem scanGap_least (from_ : cand ≤ addr) (fits : addr + need ≤ finish)
    (clear : ∀ span ∈ spans, addr + need ≤ span.1 ∨ span.2 ≤ addr) :
    ∃ found, scanGap need finish cand spans = some found ∧ found ≤ addr := by
  induction spans generalizing cand with
  | nil =>
    rw [scanGap, if_pos (by omega)]
    exact ⟨cand, rfl, from_⟩
  | cons span rest ih =>
    obtain ⟨low, high⟩ := span
    rw [scanGap]
    split
    · exact ⟨cand, rfl, from_⟩
    rename_i narrow
    refine ih ?_ fun other member => clear other (by simp [member])
    -- The gap before this span is too narrow, so that the address lies behind it.
    have behind : high ≤ addr := by
      rcases clear (low, high) (by simp) with before | behind
      · simp only at before
        omega
      · exact behind
    split <;> omega

/-- An address at which so many pages and a guard page fit, clear of what the process has mapped. -/
structure Room (shm : Shm) (pid : Pid) (pages addr : Nat) : Prop where
  aligned : addr % pageSize = 0
  low : shmVirtBase ≤ addr
  high : addr + (pages + 1) * pageSize ≤ shmVirtEnd
  clear : ∀ i, (shm.maps i).inUse = true → (shm.maps i).pid = pid →
    addr + (pages + 1) * pageSize ≤ (shm.maps i).addr ∨ (shm.maps i).spanEnd ≤ addr

/-- Where there is room at all, placement finds room no further on. -/
theorem Books.findGap_least (books : Books shm) {pages : Nat} (room : shm.Room pid pages addr) :
    ∃ found, shm.findGap pid (pages + 1) shmVirtBase shmVirtEnd = some found ∧ found ≤ addr := by
  apply scanGap_least room.low room.high
  intro span member
  obtain ⟨i, used, mine, rfl⟩ := books.mem_spansOf.mp member
  exact room.clear i used mine

end Shm

end NovaOs
