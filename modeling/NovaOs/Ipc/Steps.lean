import NovaOs.Ipc.Model

/-! What each call can do to the message table, said once for every later argument. -/

namespace NovaOs.Ipc

variable {b : Inbox} {k : Fin queueDepth}

namespace Msg

variable {m m' : Msg}

/-- An inbox that is found is open and belongs to the process asked for. -/
theorem findInbox_some {pid : Pid} {i : Fin maxInboxes} (found : m.findInbox pid = some i) :
    0 < pid ∧ (m.inboxes i).inUse = true ∧ (m.inboxes i).pid = pid := by
  simp only [findInbox] at found
  split at found
  · cases found
  · rename_i positive
    have passed := Table.first?_eq_some found
    simp only [Bool.and_eq_true, beq_iff_eq] at passed
    exact ⟨Int.not_le.mp positive, passed⟩

/-- A process without an inbox is the owner of none of the open ones. -/
theorem findInbox_none {pid : Pid} (positive : 0 < pid) (missed : m.findInbox pid = none)
    (i : Fin maxInboxes) : ¬((m.inboxes i).inUse = true ∧ (m.inboxes i).pid = pid) := by
  simp only [findInbox, Int.not_le.mpr positive, if_false] at missed
  have failed := Table.first?_eq_none missed i
  simpa using failed

theorem findInbox_isSome {pid : Pid} :
    (m.findInbox pid).isSome ↔
      0 < pid ∧ ∃ i, (m.inboxes i).inUse = true ∧ (m.inboxes i).pid = pid := by
  constructor
  · intro some
    obtain ⟨i, found⟩ := Option.isSome_iff_exists.mp some
    exact ⟨(findInbox_some found).1, i, (findInbox_some found).2⟩
  · rintro ⟨positive, i, owned⟩
    by_contra missed
    exact findInbox_none positive (by simpa using missed) i owned

theorem findService_some {name : Bytes} {k : Fin maxServices}
    (found : m.findService name = some k) :
    (m.services k).inUse = true ∧ (m.services k).name = name := by
  have passed := Table.first?_eq_some found
  simpa using passed

theorem findService_none {name : Bytes} (missed : m.findService name = none)
    (k : Fin maxServices) : ¬((m.services k).inUse = true ∧ (m.services k).name = name) := by
  have failed := Table.first?_eq_none missed k
  simpa using failed

end Msg

/-- A place is only given out while it is free and the sender's share is not used up. -/
theorem Inbox.place_some {sender : Pid} (placed : b.place sender = some k) :
    (b.slots k).used = false ∧ b.heldBy sender < maxPerSender := by
  simp only [Inbox.place] at placed
  split at placed
  · cases placed
  rename_i free found
  split at placed
  · rename_i room
    cases placed
    have passed := Table.first?_eq_some found
    exact ⟨by simpa using passed, room⟩
  · cases placed

theorem Inbox.oldest_some {wanted : Slot → Bool} (found : b.oldest wanted = some k) :
    (b.slots k).used = true := by
  have passed := (Table.lowest?_spec _ _ _).passes k found
  simp only [Bool.and_eq_true] at passed
  exact passed.1

/-- The message a call would have the table take in. -/
structure Post where
  sender : Pid
  senderUid : UInt32
  mtype : UInt32
  tag : UInt32
  tick : UInt32
  data : Bytes

/-- The message put in a place of an inbox. -/
def Inbox.post (b : Inbox) (k : Fin queueDepth) (p : Post) : Inbox :=
  b.enqueue k p.sender p.senderUid p.mtype p.tag p.tick p.data

/-- The message a call carries, where it is one that sends. -/
def Call.post : Call → Option Post
  | .send h sender senderUid _ mtype tag _ data =>
    some ⟨sender, senderUid, mtype, tag, h.ticks, data⟩
  | _ => none

/-- What a call can make of the table. -/
inductive Change (m : Msg) (call : Call) : Msg → Prop where
  | same : Change m call m
  | opened (i : Fin maxInboxes) (pid : Pid) (policy : UInt32)
      (free : (m.inboxes i).inUse = false) (positive : 0 < pid) (policed : policy ≤ acceptAllowlist)
      (absent : m.findInbox pid = none) :
      Change m call (m.setInbox i { inUse := true, pid := pid, policy := policy })
  | dropped (pid : Pid) : Change m call (m.dropProcess pid)
  | forgotten (k : Fin maxServices) : Change m call (m.setService k {})
  | renamed (k : Fin maxServices) (pid : Pid) (live : (m.services k).inUse = true)
      (reachable : (m.findInbox pid).isSome) (room : m.namesOf pid < maxNamesPerProc) :
      Change m call (m.setService k { m.services k with pid := pid })
  | named (k : Fin maxServices) (pid : Pid) (name : Bytes) (free : (m.services k).inUse = false)
      (valid : validName name = true) (unknown : m.findService name = none)
      (reachable : (m.findInbox pid).isSome) (room : m.namesOf pid < maxNamesPerProc) :
      Change m call (m.setService k { inUse := true, pid := pid, name := name })
  | refused (i : Fin maxInboxes) (live : (m.inboxes i).inUse = true) :
      Change m call (m.setInbox i (m.inboxes i).refuse)
  | queued (i : Fin maxInboxes) (k : Fin queueDepth) (p : Post) (live : (m.inboxes i).inUse = true)
      (posted : call.post = some p) (typed : p.mtype ≠ 0) (fits : p.data.length ≤ maxPayload)
      (placed : (m.inboxes i).place p.sender = some k) :
      Change m call (m.setInbox i ((m.inboxes i).post k p))
  | consumed (i : Fin maxInboxes) (k : Fin queueDepth) (live : (m.inboxes i).inUse = true)
      (used : ((m.inboxes i).slots k).used = true) :
      Change m call (m.setInbox i ((m.inboxes i).consume k))
  | struck (i : Fin maxInboxes) (target : Pid) (live : (m.inboxes i).inUse = true) :
      Change m call (m.setInbox i
        { m.inboxes i with allow := Msg.strike (m.inboxes i).allow target })
  | allowed (i : Fin maxInboxes) (k : Fin maxAllow) (target : Pid)
      (live : (m.inboxes i).inUse = true) (positive : 0 < target)
      (fresh : ∀ j, (m.inboxes i).allow j ≠ target) :
      Change m call (m.setInbox i
        { m.inboxes i with allow := Function.update (m.inboxes i).allow k target })
  | policed (i : Fin maxInboxes) (policy : UInt32) (live : (m.inboxes i).inUse = true)
      (valid : policy ≤ acceptAllowlist) :
      Change m call (m.setInbox i { m.inboxes i with policy := policy })

namespace Msg

variable {m : Msg} {call : Call}

theorem openInbox_change (pid : Pid) (policy flags : UInt32) :
    Change m call (m.openInbox pid policy flags).2 := by
  simp only [openInbox]
  split
  · exact .same
  rename_i accepted
  simp only [not_or, Int.not_le, gt_iff_lt, UInt32.not_lt] at accepted
  split
  · exact .same
  rename_i absent
  split
  · exact .same
  · rename_i i found
    have free := Table.first?_eq_some found
    exact .opened i pid policy (by simpa using free) accepted.2.2 accepted.2.1
      (by simpa using absent)

theorem close_change (pid : Pid) : Change m call (m.close pid).2 := by
  simp only [close]
  split
  · exact .same
  · exact .dropped pid

/-- Finding the destination of a message at most gives up a name. -/
theorem resolve_cases (h : Hal) (dest : Dest) :
    (∃ receiver, m.resolve h dest = (.ok receiver, m)) ∨
      (∃ e, m.resolve h dest = (.error e, m)) ∨
      ∃ e k, h.pidIsLive 0 (m.services k).pid = false ∧
        m.resolve h dest = (.error e, m.setService k {}) := by
  cases dest with
  | pid p =>
    simp only [resolve]
    split
    · exact .inr (.inl ⟨_, rfl⟩)
    · exact .inl ⟨_, rfl⟩
  | name n => ?_
  simp only [resolve]
  split
  · exact .inr (.inl ⟨_, rfl⟩)
  split
  · exact .inr (.inl ⟨_, rfl⟩)
  · split
    · rename_i gone
      exact .inr (.inr ⟨_, _, gone, rfl⟩)
    · exact .inl ⟨_, rfl⟩

/-- A message is taken in by the inbox of its destination, or turned away; turning it away at most
gives up a name or counts a refusal. -/
theorem send_cases (h : Hal) (sender : Pid) (senderUid : UInt32) (dest : Dest)
    (mtype tag flags : UInt32) (data : Bytes) :
    (∃ receiver i k, m.resolve h dest = (.ok receiver, m) ∧ m.findInbox receiver = some i ∧
      mtype ≠ 0 ∧ data.length ≤ maxPayload ∧ (m.inboxes i).place sender = some k ∧
      m.send h sender senderUid dest mtype tag flags data = (.ok (),
        m.setInbox i ((m.inboxes i).post k ⟨sender, senderUid, mtype, tag, h.ticks, data⟩))) ∨
    ∃ e, (m.send h sender senderUid dest mtype tag flags data = (.error e, m) ∨
      (∃ k, h.pidIsLive 0 (m.services k).pid = false ∧
        m.send h sender senderUid dest mtype tag flags data = (.error e, m.setService k {})) ∨
      ∃ receiver i, m.resolve h dest = (.ok receiver, m) ∧ m.findInbox receiver = some i ∧
        m.send h sender senderUid dest mtype tag flags data
          = (.error e, m.setInbox i (m.inboxes i).refuse)) := by
  unfold send
  split
  · exact .inr ⟨_, .inl rfl⟩
  rename_i accepted
  split
  · exact .inr ⟨_, .inl rfl⟩
  rename_i fits
  rcases m.resolve_cases h dest with ⟨receiver, resolved⟩ | ⟨e, failed⟩ | ⟨e, k, gone, failed⟩
  · rw [resolved]
    dsimp only
    split
    · exact .inr ⟨_, .inl rfl⟩
    split
    · exact .inr ⟨_, .inl rfl⟩
    rename_i i found
    -- Only these last checks are counted as refusals by the inbox.
    split
    · exact .inr ⟨_, .inr (.inr ⟨receiver, i, rfl, found, rfl⟩)⟩
    · exact .inr ⟨_, .inl rfl⟩
    split
    · exact .inr ⟨_, .inr (.inr ⟨receiver, i, rfl, found, rfl⟩)⟩
    · rename_i k placed
      exact .inl ⟨receiver, i, k, rfl, found, (not_or.mp accepted).2, Nat.not_lt.mp fits, placed,
        rfl⟩
  · rw [failed]
    exact .inr ⟨e, .inl rfl⟩
  · rw [failed]
    exact .inr ⟨e, .inr (.inl ⟨k, gone, rfl⟩)⟩

theorem send_change (h : Hal) (sender : Pid) (senderUid : UInt32) (dest : Dest)
    (mtype tag flags : UInt32) (data : Bytes)
    (posted : call.post = some ⟨sender, senderUid, mtype, tag, h.ticks, data⟩) :
    Change m call (m.send h sender senderUid dest mtype tag flags data).2 := by
  rcases m.send_cases h sender senderUid dest mtype tag flags data with
    ⟨_, i, k, _, found, typed, fits, placed, sent⟩
      | ⟨e, sent | ⟨k, -, sent⟩ | ⟨_, i, -, found, sent⟩⟩
  · rw [sent]
    exact .queued i k _ (findInbox_some found).2.1 posted typed fits placed
  · rw [sent]
    exact .same
  · rw [sent]
    exact .forgotten k
  · rw [sent]
    exact .refused i (findInbox_some found).2.1

theorem recv_change (pid : Pid) (flags : UInt32) (matchSender : Pid) (matchType matchTag : UInt32)
    (out : Bytes) (info : RecvInfo) :
    Change m call (m.recv pid flags matchSender matchType matchTag out info).2 := by
  simp only [recv]
  split
  · exact .same
  split
  · exact .same
  rename_i i found
  split
  · exact .same
  rename_i k oldest
  split
  · exact .same
  split
  · exact .consumed i k (findInbox_some found).2.1 (Inbox.oldest_some oldest)
  · exact .same

theorem register_change (h : Hal) (pid : Pid) {name : Bytes} (valid : validName name = true) :
    Change m call (m.register h pid name).2 := by
  simp only [register]
  split
  · exact .same
  rename_i present
  have reachable : (m.findInbox pid).isSome := by simpa [Option.isSome_iff_ne_none] using present
  split
  · rename_i k found
    split
    · exact .same
    split
    · exact .same
    split
    · exact .same
    · rename_i room
      exact .renamed k pid (findService_some found).1 reachable (Nat.not_le.mp room)
  · rename_i unknown
    split
    · exact .same
    rename_i room
    split
    · exact .same
    · rename_i k found
      have free := Table.first?_eq_some found
      exact .named k pid name (by simpa using free) valid unknown reachable (Nat.not_le.mp room)

theorem service_change (h : Hal) (pid : Pid) (op : UInt32) (name : Bytes) :
    Change m call (m.service h pid op name).2 := by
  simp only [service]
  split
  · exact .same
  rename_i valid
  split
  · exact register_change h pid (by simpa using valid)
  split
  · simp only [unregister]
    split
    · exact .same
    split
    · exact .same
    · exact .forgotten _
  split
  · simp only [lookup]
    split
    · exact .same
    split
    · exact .same
    · exact .forgotten _
  · exact .same

theorem allow_change (pid target : Pid) (add : Bool) :
    Change m call (m.allow pid target add).2 := by
  simp only [allow]
  split
  · exact .same
  rename_i i found
  have live := (findInbox_some found).2.1
  split
  · exact .same
  rename_i positive
  split
  · split
    · exact .same
    rename_i absent
    split
    · exact .same
    · rename_i k _
      refine .allowed i k target live (Int.not_le.mp positive) ?_
      simpa using absent
  · exact .struck i target live

theorem setPolicy_change (pid : Pid) (policy : UInt32) :
    Change m call (m.setPolicy pid policy).2 := by
  simp only [setPolicy]
  split
  · exact .same
  rename_i i found
  split
  · exact .same
  · rename_i valid
    exact .policed i policy (findInbox_some found).2.1 (UInt32.not_lt.mp valid)

/-- Every call makes one of the changes. -/
theorem step_change (m : Msg) (call : Call) : Change m call (m.step call).2 := by
  cases call with
  | opening pid policy flags => exact m.openInbox_change pid policy flags
  | close pid => exact m.close_change pid
  | exit pid => exact .dropped pid
  | send h sender senderUid dest mtype tag flags data =>
    exact m.send_change h sender senderUid dest mtype tag flags data rfl
  | recv pid flags matchSender matchType matchTag out info =>
    exact m.recv_change pid flags matchSender matchType matchTag out info
  | service h pid op name => exact m.service_change h pid op name
  | stat h pid => exact .same
  | allow pid target add => exact m.allow_change pid target add
  | setPolicy pid policy => exact m.setPolicy_change pid policy

end Msg

end NovaOs.Ipc
