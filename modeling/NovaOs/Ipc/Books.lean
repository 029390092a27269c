import NovaOs.Ipc.Steps

/-! The table's check of itself, and what it amounts to. -/

namespace NovaOs.Ipc

open List

/-- One test of the self-check: a fault that is found ends it. -/
def fault (present : Bool) (text : String) : Except String Unit :=
  if present then .error text else .ok ()

theorem fault_ok {present : Bool} {text : String} :
    fault present text = .ok () ↔ present = false := by
  cases present <;> simp [fault]

theorem bind_ok {first second : Except String Unit} :
    (first >>= fun _ => second) = .ok () ↔ first = .ok () ∧ second = .ok () := by
  cases first <;> simp [Bind.bind, Except.bind]

theorem forM_ok {α : Type} {values : List α} {test : α → Except String Unit} :
    values.forM test = .ok () ↔ ∀ value ∈ values, test value = .ok () := by
  induction values with
  | nil => simp [pure, Except.pure]
  | cons value rest ih =>
    show (test value >>= fun _ => rest.forM test) = .ok () ↔ _
    rw [bind_ok, ih, forall_mem_cons]

theorem ite_ok {p : Prop} [Decidable p] {test : Except String Unit} :
    (if p then test else .ok ()) = .ok () ↔ (p → test = .ok ()) := by
  split <;> simp_all

/-- Whether a later entry of a table passes a test. -/
def later {n : Nat} (i : Fin n) (p : Fin n → Bool) : Bool :=
  (List.finRange n).any fun j => decide (i < j) && p j

theorem later_false {n : Nat} {i : Fin n} {p : Fin n → Bool} :
    later i p = false ↔ ∀ j, i < j → p j = false := by
  simp [later]

/-- No two entries in use agree, told by comparing each only with the later ones. -/
theorem eq_of_later {n : Nat} {α : Type} {used : Fin n → Prop} {key : Fin n → α}
    (apart : ∀ i, used i → ∀ j, i < j → used j → key j ≠ key i) {i j : Fin n} (left : used i)
    (right : used j) (same : key i = key j) : i = j := by
  rcases lt_trichotomy i j with below | equal | above
  · exact absurd same.symm (apart i left j below right)
  · exact equal
  · exact absurd same (apart j right i above left)

namespace Inbox

def checkAllow (b : Inbox) (j : Fin maxAllow) : Except String Unit := do
  fault (decide (b.allow j < 0)) "a negative pid in an allowlist"
  fault (b.allow j != 0 && later j fun k => b.allow k == b.allow j) "a duplicate allowlist entry"

def checkSlot (b : Inbox) (j : Fin queueDepth) : Except String Unit :=
  let s := b.slots j
  if s.used = true then do
    fault (s.mtype == 0 || decide (maxPayload < s.len.toNat) || decide (s.sender ≤ 0))
      "a queued message has impossible fields"
    fault (later j fun k => (b.slots k).used && (b.slots k).seq == s.seq)
      "two queued messages share an arrival number"
    fault (decide (b.nextSeq ≤ s.seq)) "a queued message is newer than the arrival counter"
  else .ok ()

def checkShare (b : Inbox) (j : Fin queueDepth) : Except String Unit :=
  if (b.slots j).used = true then
    fault (decide (maxPerSender < b.heldBy (b.slots j).sender))
      "a sender holds more than its share of an inbox"
  else .ok ()

end Inbox

namespace Msg

def checkInbox (m : Msg) (i : Fin maxInboxes) : Except String Unit :=
  let b := m.inboxes i
  let used := UInt32.ofNat (Table.count Slot.used b.slots)
  if b.inUse = false then fault (used != 0 || b.count != 0) "a free inbox holds messages"
  else do
    fault (decide (b.pid ≤ 0)) "an inbox belongs to no valid pid"
    fault (b.count != used) "an inbox's count disagrees with its used slots"
    fault (decide (acceptAllowlist < b.policy)) "an inbox has an invalid policy"
    fault ((List.finRange maxInboxes).any fun j =>
        j != i && (m.inboxes j).inUse && (m.inboxes j).pid == b.pid)
      "two inboxes belong to one pid"
    (List.finRange maxAllow).forM b.checkAllow
    (List.finRange queueDepth).forM b.checkSlot
    (List.finRange queueDepth).forM b.checkShare

def checkService (m : Msg) (i : Fin maxServices) : Except String Unit :=
  let s := m.services i
  if s.inUse = true then do
    fault (!validName s.name) "a service has an invalid name"
    fault (m.findInbox s.pid).isNone "a service belongs to a process with no inbox"
    fault (later i fun k => (m.services k).inUse && (m.services k).name == s.name)
      "two services share a name"
    fault (decide (maxNamesPerProc < m.namesOf s.pid)) "a process holds more names than the limit"
  else .ok ()

def checkCounts (m : Msg) : Except String Unit := do
  (List.finRange maxInboxes).forM m.checkInbox
  (List.finRange maxServices).forM m.checkService

end Msg

/-- An open inbox in order: its owner, its allowlist, and the messages queued in it. -/
structure Inbox.Sound (b : Inbox) : Prop where
  owned : 0 < b.pid
  counted : b.count = UInt32.ofNat (Table.count Slot.used b.slots)
  policed : b.policy ≤ acceptAllowlist
  allowed : ∀ j, 0 ≤ b.allow j
  distinct : ∀ j k, b.allow j ≠ 0 → b.allow k ≠ 0 → b.allow j = b.allow k → j = k
  fields : ∀ k, (b.slots k).used = true →
    (b.slots k).mtype ≠ 0 ∧ (b.slots k).len.toNat ≤ maxPayload ∧ 0 < (b.slots k).sender
  stamped : ∀ j k, (b.slots j).used = true → (b.slots k).used = true →
    (b.slots j).seq = (b.slots k).seq → j = k
  older : ∀ k, (b.slots k).used = true → (b.slots k).seq < b.nextSeq
  shared : ∀ sender, b.heldBy sender ≤ maxPerSender

/-- A table in order. -/
structure Msg.Books (m : Msg) : Prop where
  vacant : ∀ i, (m.inboxes i).inUse = false →
    (∀ k, ((m.inboxes i).slots k).used = false) ∧ (m.inboxes i).count = 0
  sound : ∀ i, (m.inboxes i).inUse = true → (m.inboxes i).Sound
  single : ∀ i j, (m.inboxes i).inUse = true → (m.inboxes j).inUse = true →
    (m.inboxes i).pid = (m.inboxes j).pid → i = j
  valid : ∀ k, (m.services k).inUse = true → validName (m.services k).name = true
  reachable : ∀ k, (m.services k).inUse = true → (m.findInbox (m.services k).pid).isSome
  unique : ∀ j k, (m.services j).inUse = true → (m.services k).inUse = true →
    (m.services j).name = (m.services k).name → j = k
  limited : ∀ pid, m.namesOf pid ≤ maxNamesPerProc

namespace Inbox

variable {b : Inbox}

/-- The list passes if it has no negative entry and nobody twice. -/
theorem checkAllow_ok :
    (∀ j, b.checkAllow j = .ok ()) ↔ (∀ j, 0 ≤ b.allow j) ∧
      ∀ j k, b.allow j ≠ 0 → b.allow k ≠ 0 → b.allow j = b.allow k → j = k := by
  simp only [checkAllow, bind_ok, fault_ok, decide_eq_false_iff_not, Int.not_lt,
    Bool.and_eq_false_imp, bne_iff_ne, later_false, beq_eq_false_iff_ne]
  constructor
  · intro clean
    refine ⟨fun j => (clean j).1, fun j k left right same => ?_⟩
    exact eq_of_later (fun i listed k above _ => (clean i).2 listed k above) left right same
  · rintro ⟨allowed, distinct⟩ j
    refine ⟨allowed j, fun listed k above same => ?_⟩
    exact above.ne' (distinct k j (same ▸ listed) listed same)

/-- The slots pass if their stamps are distinct and given out already. -/
theorem checkSlot_ok :
    (∀ j, b.checkSlot j = .ok ()) ↔
      (∀ k, (b.slots k).used = true →
        (b.slots k).mtype ≠ 0 ∧ (b.slots k).len.toNat ≤ maxPayload ∧ 0 < (b.slots k).sender) ∧
      (∀ j k, (b.slots j).used = true → (b.slots k).used = true →
        (b.slots j).seq = (b.slots k).seq → j = k) ∧
      ∀ k, (b.slots k).used = true → (b.slots k).seq < b.nextSeq := by
  simp only [checkSlot, ite_ok, bind_ok, fault_ok, Bool.or_eq_false_iff, beq_eq_false_iff_ne,
    decide_eq_false_iff_not, Nat.not_lt, Int.not_le, later_false, Bool.and_eq_false_imp,
    UInt64.not_le]
  constructor
  · intro clean
    refine ⟨fun k used => ?_, fun j k left right same => ?_, fun k used => (clean k used).2.2⟩
    · obtain ⟨⟨typed, fits⟩, sender⟩ := (clean k used).1
      exact ⟨typed, fits, sender⟩
    · exact eq_of_later (fun i used k above => (clean i used).2.1 k above) left right same
  · rintro ⟨fields, stamped, older⟩ j used
    obtain ⟨typed, fits, sender⟩ := fields j used
    refine ⟨⟨⟨typed, fits⟩, sender⟩, fun k above other same => ?_, older j used⟩
    exact above.ne' (stamped k j other used same)

/-- A sender with nothing queued has not used its share, so only the queued ones need a look. -/
theorem checkShare_ok :
    (∀ j, b.checkShare j = .ok ()) ↔ ∀ sender, b.heldBy sender ≤ maxPerSender := by
  simp only [checkShare, ite_ok, fault_ok, decide_eq_false_iff_not, Nat.not_lt]
  constructor
  · intro clean sender
    by_cases queued : ∃ j, (b.slots j).used = true ∧ (b.slots j).sender = sender
    · obtain ⟨j, used, rfl⟩ := queued
      exact clean j used
    have none : b.heldBy sender = 0 := by
      rw [heldBy, Table.count_eq_zero]
      intro j
      simpa using not_exists.mp queued j
    omega
  · intro shared j _
    exact shared _

end Inbox

namespace Msg

variable {m : Msg}

/-- The check of an inbox passes exactly if it is sound, or free and empty. -/
theorem checkInbox_ok (i : Fin maxInboxes) :
    m.checkInbox i = .ok () ↔
      ((m.inboxes i).inUse = false →
        (∀ k, ((m.inboxes i).slots k).used = false) ∧ (m.inboxes i).count = 0) ∧
      ((m.inboxes i).inUse = true → (m.inboxes i).Sound ∧
        ∀ j, (m.inboxes j).inUse = true → (m.inboxes j).pid = (m.inboxes i).pid → j = i) := by
  cases open_ : (m.inboxes i).inUse with
  | false =>
    -- A count of slots does not wrap, so zero means none.
    have small : Table.count Slot.used (m.inboxes i).slots < 2 ^ 32 := by
      have atMost := countP_le_length (p := fun k => ((m.inboxes i).slots k).used)
        (l := List.finRange queueDepth)
      rw [length_finRange] at atMost
      exact Nat.lt_of_le_of_lt atMost (by decide)
    have empty : UInt32.ofNat (Table.count Slot.used (m.inboxes i).slots) = 0 ↔
        ∀ k, ((m.inboxes i).slots k).used = false := by
      rw [← Table.count_eq_zero, ← UInt32.toNat_inj, UInt32.toNat_ofNat_of_lt' small]
      rfl
    simp [checkInbox, open_, fault_ok, empty]
  | true =>
    have apart : ((List.finRange maxInboxes).any fun j =>
        j != i && (m.inboxes j).inUse && (m.inboxes j).pid == (m.inboxes i).pid) = false ↔
        ∀ j, (m.inboxes j).inUse = true → (m.inboxes j).pid = (m.inboxes i).pid → j = i := by
      simp only [any_eq_false, mem_finRange, true_imp_iff, Bool.and_eq_true, bne_iff_ne,
        beq_iff_eq, not_and]
      exact ⟨fun clean j used same => by_contra fun ne => clean j ⟨ne, used⟩ same,
        fun single j other same => other.1 (single j other.2 same)⟩
    simp only [checkInbox, open_, Bool.true_eq_false, if_false, bind_ok, fault_ok, apart, forM_ok,
      mem_finRange, true_imp_iff, Inbox.checkAllow_ok, Inbox.checkSlot_ok,
      Inbox.checkShare_ok, decide_eq_false_iff_not, Int.not_le, UInt32.not_lt, bne_eq_false_iff_eq,
      false_imp_iff, true_and]
    constructor
    · rintro
        ⟨owned, counted, policed, single, ⟨allowed, distinct⟩, ⟨fields, stamped, older⟩, shared⟩
      exact ⟨⟨owned, counted, policed, allowed, distinct, fields, stamped, older, shared⟩, single⟩
    · rintro ⟨sound, single⟩
      exact ⟨sound.owned, sound.counted, sound.policed, single, ⟨sound.allowed, sound.distinct⟩,
        ⟨sound.fields, sound.stamped, sound.older⟩, sound.shared⟩

/-- The names pass if each is valid, unique and leads to an inbox. -/
theorem checkService_ok :
    (∀ k, m.checkService k = .ok ()) ↔
      (∀ k, (m.services k).inUse = true → validName (m.services k).name = true) ∧
      (∀ k, (m.services k).inUse = true → (m.findInbox (m.services k).pid).isSome) ∧
      (∀ j k, (m.services j).inUse = true → (m.services k).inUse = true →
        (m.services j).name = (m.services k).name → j = k) ∧
      ∀ pid, m.namesOf pid ≤ maxNamesPerProc := by
  simp only [checkService, ite_ok, bind_ok, fault_ok, Bool.not_eq_false',
    Option.isNone_eq_false_iff, later_false, Bool.and_eq_false_imp, beq_eq_false_iff_ne,
    decide_eq_false_iff_not, Nat.not_lt]
  constructor
  · intro clean
    refine ⟨fun k used => (clean k used).1, fun k used => (clean k used).2.1,
      fun j k left right same => ?_, fun pid => ?_⟩
    · exact eq_of_later (fun i used k above => (clean i used).2.2.1 k above) left right same
    by_cases holds : ∃ k, (m.services k).inUse = true ∧ (m.services k).pid = pid
    · obtain ⟨k, used, rfl⟩ := holds
      exact (clean k used).2.2.2
    have none : m.namesOf pid = 0 := by
      rw [namesOf, Table.count_eq_zero]
      intro k
      simpa using not_exists.mp holds k
    omega
  · rintro ⟨valid, reachable, unique, limited⟩ j used
    refine ⟨valid j used, reachable j used, fun k above other same => ?_, limited _⟩
    exact above.ne' (unique k j other used same)

/-- The self-check passes exactly on the tables in order. -/
theorem checkCounts_ok : m.checkCounts = .ok () ↔ m.Books := by
  simp only [checkCounts, bind_ok, forM_ok, mem_finRange, true_imp_iff, checkInbox_ok,
    checkService_ok]
  constructor
  · rintro ⟨inboxes, valid, reachable, unique, limited⟩
    exact ⟨fun i => (inboxes i).1, fun i used => ((inboxes i).2 used).1,
      fun i j left right same => ((inboxes j).2 right).2 i left same, valid, reachable, unique,
      limited⟩
  · intro books
    exact ⟨fun i => ⟨books.vacant i, fun used =>
        ⟨books.sound i used, fun j other same => books.single j i other used same⟩⟩,
      books.valid, books.reachable, books.unique, books.limited⟩

end Msg

end NovaOs.Ipc
