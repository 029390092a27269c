import Mathlib.Logic.Function.Basic
import Mathlib.Data.List.Basic
import Mathlib.Data.List.TakeDrop

/-! Redo logging over an array of atomic blocks, with power loss between any two writes. -/

namespace NovaOs

open Function List

section Writes

variable {Addr Block : Type} [DecidableEq Addr] {writes : List (Addr × Block)} {addr : Addr}
variable {block : Block}

/-- The store after a sequence of single-block writes, oldest first. -/
def applyWrites : List (Addr × Block) → (Addr → Block) → Addr → Block
  | [], store => store
  | (addr, block) :: rest, store => applyWrites rest (Function.update store addr block)

@[simp] theorem applyWrites_nil (store : Addr → Block) : applyWrites [] store = store := rfl

theorem applyWrites_cons (rest : List (Addr × Block)) (store : Addr → Block) :
    applyWrites ((addr, block) :: rest) store
      = applyWrites rest (update store addr block) := rfl

/-- Two runs of writes in sequence are the second applied to what the first left. -/
theorem applyWrites_append (first second : List (Addr × Block)) (store : Addr → Block) :
    applyWrites (first ++ second) store = applyWrites second (applyWrites first store) := by
  induction first generalizing store with
  | nil => rfl
  | cons write rest ih =>
    obtain ⟨addr, block⟩ := write
    simp only [cons_append, applyWrites_cons, ih]

/-- A block that no write addresses is the block it was. -/
theorem applyWrites_other (untouched : ∀ write ∈ writes, write.1 ≠ addr) (store : Addr → Block) :
    applyWrites writes store addr = store addr := by
  induction writes generalizing store with
  | nil => rfl
  | cons write rest ih =>
    obtain ⟨at_, block⟩ := write
    have apart : at_ ≠ addr := untouched (at_, block) (by simp)
    rw [applyWrites_cons, ih (fun later member => untouched later (by simp [member])),
      update_of_ne (Ne.symm apart)]

/-- A block that is only ever written with what it holds keeps it. -/
theorem applyWrites_stable {store : Addr → Block} (held : store addr = block)
    (same : ∀ write ∈ writes, write.1 = addr → write.2 = block) :
    applyWrites writes store addr = block := by
  induction writes generalizing store with
  | nil => exact held
  | cons write rest ih =>
    obtain ⟨at_, stored⟩ := write
    rw [applyWrites_cons]
    apply ih
    · by_cases here : at_ = addr
      · have equal : stored = block := same (at_, stored) (by simp) here
        rw [here, equal, update_self]
      · rw [update_of_ne (Ne.symm here), held]
    · intro later member
      exact same later (by simp [member])

/-- What a written block holds does not depend on what it held before. -/
theorem applyWrites_congr {before after : Addr → Block}
    (same : (∃ write ∈ writes, write.1 = addr) ∨ before addr = after addr) :
    applyWrites writes before addr = applyWrites writes after addr := by
  induction writes generalizing before after with
  | nil =>
    rcases same with ⟨write, member, _⟩ | same
    · simp at member
    · exact same
  | cons write rest ih =>
    obtain ⟨at_, block⟩ := write
    simp only [applyWrites_cons]
    apply ih
    -- Once the head write lands on the address, both stores agree there.
    by_cases here : at_ = addr
    · subst here
      right
      simp
    rcases same with ⟨later, member, named⟩ | same
    · rcases mem_cons.mp member with rfl | member
      · exact absurd named here
      · exact .inl ⟨later, member, named⟩
    · right
      simp [update_of_ne (Ne.symm here), same]

/-- Writing everything after a part of it was already written changes nothing more. -/
theorem applyWrites_redo {part : List (Addr × Block)} (subset : part ⊆ writes)
    (store : Addr → Block) :
    applyWrites writes (applyWrites part store) = applyWrites writes store := by
  funext addr
  apply applyWrites_congr
  by_cases written : ∃ write ∈ writes, write.1 = addr
  · exact .inl written
  · right
    apply applyWrites_other
    intro write member named
    exact written ⟨write, subset member, named⟩

/-- The block written to an address last, if one was. -/
def lastWrite : List (Addr × Block) → Addr → Option Block
  | [], _ => none
  | (at_, block) :: rest, addr => (lastWrite rest addr).or (if at_ = addr then some block else none)

theorem lastWrite_append (first second : List (Addr × Block)) :
    lastWrite (first ++ second) addr = (lastWrite second addr).or (lastWrite first addr) := by
  induction first with
  | nil => simp [lastWrite]
  | cons write rest ih =>
    obtain ⟨at_, block⟩ := write
    rw [cons_append, lastWrite, ih, lastWrite, Option.or_assoc]

/-- After a sequence of writes, a block holds what was written to it last, or else what it held. -/
theorem applyWrites_eq_lastWrite (writes : List (Addr × Block)) (store : Addr → Block) :
    applyWrites writes store addr = (lastWrite writes addr).getD (store addr) := by
  induction writes generalizing store with
  | nil => rfl
  | cons write rest ih =>
    obtain ⟨at_, block⟩ := write
    rw [applyWrites_cons, ih, lastWrite]
    cases later : lastWrite rest addr with
    | some last => rfl
    | none =>
      by_cases here : at_ = addr
      · simp [here]
      · simp [here, update_of_ne (Ne.symm here)]

/-- Renaming addresses without a clash renames what was written last. -/
theorem lastWrite_map {Name : Type} [DecidableEq Name] {rename : Addr → Name}
    (injective : Injective rename) (writes : List (Addr × Block)) :
    lastWrite (writes.map fun write => (rename write.1, write.2)) (rename addr)
      = lastWrite writes addr := by
  induction writes with
  | nil => rfl
  | cons write rest ih =>
    obtain ⟨at_, block⟩ := write
    simp only [map_cons, lastWrite, ih, injective.eq_iff]

/-- With distinct addresses, every write is what its block holds at the end. -/
theorem applyWrites_mem (distinct : (writes.map Prod.fst).Nodup) (member : (addr, block) ∈ writes)
    (store : Addr → Block) : applyWrites writes store addr = block := by
  induction writes generalizing store with
  | nil => simp at member
  | cons write rest ih =>
    obtain ⟨at_, stored⟩ := write
    simp only [map_cons, nodup_cons] at distinct
    rw [applyWrites_cons]
    rcases mem_cons.mp member with same | member
    · -- No later write addresses the block again.
      cases same
      rw [applyWrites_other _ _]
      · simp
      · rintro later inRest rfl
        exact distinct.1 (mem_map_of_mem inRest)
    · exact ih distinct.2 member _

end Writes

/-- A log kept in a reserved region, whose one mark block decides whether it is in force. -/
structure RedoLog (Addr Block : Type) [DecidableEq Addr] where
  -- The blocks set aside for the log.
  region : Addr → Prop
  -- The block that carries the commit mark, and what it holds once the log is dealt with.
  mark : Addr
  cleared : Block
  -- The writes recovery has to redo, or none when the log is not in force.
  pending : (Addr → Block) → Option (List (Addr × Block))
  -- The mark lies inside the region, and only the region decides what is pending.
  mark_inside : region mark
  pending_congr : ∀ {before after : Addr → Block},
    (∀ addr, region addr → before addr = after addr) → pending before = pending after
  -- A cleared mark puts the log out of force.
  pending_cleared : ∀ {store : Addr → Block}, store mark = cleared → pending store = none

namespace RedoLog

variable {Addr Block : Type} [DecidableEq Addr] (log : RedoLog Addr Block)
variable {start : Addr → Block}
variable {store goal : Addr → Block} {writes : List (Addr × Block)}

/-- The writes one recovery pass issues: redo what is pending, then clear the mark. -/
def recovery (store : Addr → Block) : List (Addr × Block) :=
  match log.pending store with
  | none => []
  | some writes => writes ++ [(log.mark, log.cleared)]

/-- Stores reached by any number of recovery passes, each cut off at any point. -/
inductive Interrupted (start : Addr → Block) : (Addr → Block) → Prop where
  | refl : Interrupted start start
  | again {store : Addr → Block} (count : Nat) (earlier : Interrupted start store) :
      Interrupted start (applyWrites ((log.recovery store).take count) store)

/-- The store after a recovery pass that was not cut off. -/
def recovered (store : Addr → Block) : Addr → Block :=
  applyWrites (log.recovery store) store

variable {log}

/-- A log out of force asks for no writes. -/
theorem recovery_of_idle (idle : log.pending store = none) : log.recovery store = [] := by
  simp only [recovery, idle]

/-- A log in force is redone and then marked as dealt with. -/
theorem recovery_of_pending (armed : log.pending store = some writes) :
    log.recovery store = writes ++ [(log.mark, log.cleared)] := by
  simp only [recovery, armed]

/-- After a pass that was not cut off, the log is out of force. -/
theorem pending_recovered (log : RedoLog Addr Block) (store : Addr → Block) :
    log.pending (applyWrites (log.recovery store) store) = none := by
  cases armed : log.pending store with
  | none => rw [recovery_of_idle armed, applyWrites_nil, armed]
  | some writes =>
    rw [recovery_of_pending armed, applyWrites_append]
    exact log.pending_cleared (by simp [applyWrites_cons])

/-- With nothing pending, interrupted recovery never moves. -/
theorem interrupted_of_idle (idle : log.pending start = none) (run : log.Interrupted start store) :
    store = start := by
  induction run with
  | refl => rfl
  | again count earlier ih =>
    subst ih
    rw [recovery_of_idle idle, take_nil, applyWrites_nil]

/-- Writes outside the region leave the log as it was. -/
theorem pending_applyWrites (outside : ∀ write ∈ writes, ¬ log.region write.1)
    (store : Addr → Block) : log.pending (applyWrites writes store) = log.pending store := by
  apply log.pending_congr
  intro addr inside
  apply applyWrites_other
  rintro write member rfl
  exact outside write member inside

/-- The two situations recovery of `writes` can be caught in, seen from outside the region. -/
def Redoing (log : RedoLog Addr Block) (writes : List (Addr × Block)) (goal : Addr → Block)
    (store : Addr → Block) : Prop :=
  -- Either the log is in force and redoing it reaches the goal,
  (log.pending store = some writes ∧
    ∀ addr, ¬ log.region addr → applyWrites writes store addr = goal addr) ∨
  -- or the log is out of force and the goal has been reached.
  (log.pending store = none ∧ ∀ addr, ¬ log.region addr → store addr = goal addr)

section Pass

variable {writes done : List (Addr × Block)} {goal store : Addr → Block}

/-- A pass that brings only some of the writes home, and leaves the mark, can be redone. -/
theorem Redoing.part (outside : ∀ write ∈ writes, ¬ log.region write.1)
    (armed : log.pending store = some writes)
    (reach : ∀ addr, ¬ log.region addr → applyWrites writes store addr = goal addr)
    (subset : done ⊆ writes) : log.Redoing writes goal (applyWrites done store) := by
  refine .inl ⟨?_, fun addr apart => ?_⟩
  · rw [pending_applyWrites fun write member => outside write (subset member), armed]
  · rw [applyWrites_redo subset]
    exact reach addr apart

/-- A pass that brings all of them home may clear the mark. -/
theorem Redoing.whole
    (reach : ∀ addr, ¬ log.region addr → applyWrites writes store addr = goal addr) :
    log.Redoing writes goal (applyWrites (writes ++ [(log.mark, log.cleared)]) store) := by
  rw [applyWrites_append]
  refine .inr ⟨log.pending_cleared (by simp [applyWrites_cons]), fun addr apart => ?_⟩
  have other : addr ≠ log.mark := by
    rintro rfl
    exact apart log.mark_inside
  rw [applyWrites_cons, applyWrites_nil, update_of_ne other]
  exact reach addr apart

end Pass

/-- Cutting off one recovery pass keeps the goal within reach. -/
theorem Redoing.step (outside : ∀ write ∈ writes, ¬ log.region write.1)
    (redoing : log.Redoing writes goal store) (count : Nat) :
    log.Redoing writes goal (applyWrites ((log.recovery store).take count) store) := by
  rcases redoing with ⟨armed, reach⟩ | ⟨idle, reached⟩
  · rw [recovery_of_pending armed]
    rcases Nat.lt_or_ge writes.length count with cleared | early
    · -- The pass got as far as the mark, which is its last write.
      rw [take_of_length_le (by simp; omega)]
      exact .whole reach
    · -- Only home blocks were written, and redoing them all forgets how far this pass came.
      rw [take_append_of_le_length early]
      exact .part outside armed reach (take_subset count writes)
  · rw [recovery_of_idle idle, take_nil, applyWrites_nil]
    exact .inr ⟨idle, reached⟩

/-- Any number of interrupted passes keeps the goal within reach. -/
theorem Redoing.interrupted (outside : ∀ write ∈ writes, ¬ log.region write.1)
    (redoing : log.Redoing writes goal start) (run : log.Interrupted start store) :
    log.Redoing writes goal store := by
  induction run with
  | refl => exact redoing
  | again count earlier ih => exact ih.step outside count

/-- A pass that is not cut off reaches the goal. -/
theorem Redoing.recovered (redoing : log.Redoing writes goal store) {addr : Addr}
    (apart : ¬ log.region addr) : log.recovered store addr = goal addr := by
  rcases redoing with ⟨armed, reach⟩ | ⟨idle, reached⟩
  · have other : addr ≠ log.mark := by
      rintro rfl
      exact apart log.mark_inside
    simp only [RedoLog.recovered, recovery_of_pending armed, applyWrites_append,
      applyWrites_cons, applyWrites_nil, update_of_ne other]
    exact reach addr apart
  · rw [RedoLog.recovered, recovery_of_idle idle, applyWrites_nil]
    exact reached addr apart

section Commit

variable {start : Addr → Block} {prepare settle writes : List (Addr × Block)} {armedMark : Block}
variable {count : Nat} {store : Addr → Block} {addr : Addr}

/-- A commit: fill the log, set the mark, finish the log, write home, clear the mark. -/
def commitWrites (log : RedoLog Addr Block) (prepare : List (Addr × Block)) (armedMark : Block)
    (settle writes : List (Addr × Block)) : List (Addr × Block) :=
  prepare ++ (log.mark, armedMark) :: (settle ++ (writes ++ [(log.mark, log.cleared)]))

/-- A commit that was not cut off leaves the log out of force. -/
theorem pending_commitWrites (log : RedoLog Addr Block) :
    log.pending (applyWrites (log.commitWrites prepare armedMark settle writes) start) = none := by
  apply log.pending_cleared
  simp [commitWrites, applyWrites_append, applyWrites_cons]

/-- Before the mark is set, a crash leaves everything outside the region alone. -/
theorem crash_before_mark (prepareInside : ∀ write ∈ prepare, log.region write.1)
    (prepareIdle : ∀ count, log.pending (applyWrites (prepare.take count) start) = none)
    (early : count ≤ prepare.length)
    (run : log.Interrupted
      (applyWrites ((log.commitWrites prepare armedMark settle writes).take count) start) store)
    (apart : ¬ log.region addr) : log.recovered store addr = start addr := by
  rw [commitWrites, take_append_of_le_length early] at run
  have idle := prepareIdle count
  have still := interrupted_of_idle idle run
  subst still
  rw [recovered, recovery_of_idle idle, applyWrites_nil]
  -- Everything written so far lies inside the region.
  apply applyWrites_other
  rintro write member rfl
  exact apart (prepareInside write (mem_of_mem_take member))

/-- Once the mark is set, a crash at any point still ends with every write in place. -/
theorem crash_after_mark (prepareInside : ∀ write ∈ prepare, log.region write.1)
    (settleInside : ∀ write ∈ settle, log.region write.1)
    (armed : ∀ count, log.pending
      (applyWrites (prepare ++ (log.mark, armedMark) :: settle.take count) start) = some writes)
    (outside : ∀ write ∈ writes, ¬ log.region write.1) (late : prepare.length < count)
    (run : log.Interrupted
      (applyWrites ((log.commitWrites prepare armedMark settle writes).take count) start) store)
    (apart : ¬ log.region addr) : log.recovered store addr = applyWrites writes start addr := by
  -- Neither the log's own writes nor the mark touch anything outside the region.
  have inside : ∀ taken, ∀ write ∈ prepare ++ (log.mark, armedMark) :: settle.take taken,
      log.region write.1 := by
    intro taken write member
    simp only [mem_append, mem_cons] at member
    rcases member with member | rfl | member
    · exact prepareInside write member
    · exact log.mark_inside
    · exact settleInside write (mem_of_mem_take member)
  have keeps : ∀ taken, ∀ home, ¬ log.region home →
      applyWrites (prepare ++ (log.mark, armedMark) :: settle.take taken) start home
        = start home := by
    intro taken home beyond
    apply applyWrites_other
    rintro write member rfl
    exact beyond (inside taken write member)
  suffices redoing : log.Redoing writes (applyWrites writes start)
      (applyWrites ((log.commitWrites prepare armedMark settle writes).take count) start) from
    (redoing.interrupted outside run).recovered apart
  -- What remains is to find the crash point itself among the two situations.
  obtain ⟨rest, rfl⟩ : ∃ rest, count = prepare.length + (rest + 1) :=
    ⟨count - prepare.length - 1, by omega⟩
  rw [commitWrites, take_length_add_append, take_succ_cons]
  rcases Nat.le_total rest settle.length with settling | settled
  · left
    rw [take_append_of_le_length settling]
    refine ⟨armed rest, fun home beyond => ?_⟩
    exact applyWrites_congr (Or.inr (keeps rest home beyond))
  obtain ⟨home, rfl⟩ : ∃ home, rest = settle.length + home := ⟨rest - settle.length, by omega⟩
  have whole := armed settle.length
  have kept := keeps settle.length
  rw [take_length] at whole kept
  rw [take_length_add_append, ← cons_append, ← append_assoc, applyWrites_append]
  -- From here the crash looks exactly like a first recovery pass that was cut off.
  have first : log.Redoing writes (applyWrites writes start)
      (applyWrites (prepare ++ (log.mark, armedMark) :: settle) start) :=
    Or.inl ⟨whole, fun addr beyond => applyWrites_congr (Or.inr (kept addr beyond))⟩
  have cut := first.step outside home
  rwa [recovery_of_pending whole] at cut

end Commit

end RedoLog

end NovaOs
