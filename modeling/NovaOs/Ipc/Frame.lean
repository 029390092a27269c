import NovaOs.Ipc.Balance

/-! What a send that is turned away and a close leave alone. -/

namespace NovaOs.Ipc.Msg

variable {m after : Msg} {receiver : Pid} {dest : Dest}

/-- Nothing that a process can see has changed, but for names whose owner is gone and the count of
refusals of the process that was addressed. -/
structure Unseen (m after : Msg) (h : Hal) (dest : Dest) : Prop where
  inboxes : ∀ i, after.inboxes i = { m.inboxes i with refused := (after.inboxes i).refused }
  counted : ∀ i, (after.inboxes i).refused ≠ (m.inboxes i).refused →
    ∃ receiver, (m.resolve h dest).1 = .ok receiver ∧ m.findInbox receiver = some i
  services : ∀ k, after.services k = m.services k ∨ h.pidIsLive 0 (m.services k).pid = false

/-- A send that returns an error is not seen by anyone. -/
theorem refused_send_unseen {h : Hal} {sender : Pid} {senderUid : UInt32} {dest : Dest}
    {mtype tag flags : UInt32} {data : Bytes} {e : Errno}
    (refused : (m.send h sender senderUid dest mtype tag flags data).1 = .error e) :
    Unseen m (m.send h sender senderUid dest mtype tag flags data).2 h dest := by
  rcases m.send_cases h sender senderUid dest mtype tag flags data with
    ⟨_, i, k, -, -, -, -, -, sent⟩
      | ⟨_, sent | ⟨k, gone, sent⟩ | ⟨receiver, i, resolved, found, sent⟩⟩
  · rw [sent] at refused
    cases refused
  · rw [sent]
    exact ⟨fun _ => rfl, fun _ changed => absurd rfl changed, fun _ => .inl rfl⟩
  · -- The name that was asked for has lost its owner, and goes.
    rw [sent]
    refine ⟨fun _ => rfl, fun _ changed => absurd rfl changed, fun other => ?_⟩
    by_cases here : other = k
    · exact .inr (here ▸ gone)
    · exact .inl (Function.update_of_ne here _ _)
  rw [sent]
  refine ⟨fun j => ?_, fun j changed => ?_, fun _ => .inl rfl⟩
  · by_cases here : j = i
    · subst here
      simp only [setInbox, Function.update_self]
      rfl
    · simp only [setInbox, Function.update_of_ne here]
  · by_cases here : j = i
    · exact ⟨receiver, by rw [resolved], here ▸ found⟩
    · exact absurd (by simp only [setInbox, Function.update_of_ne here]) changed

/-- An inbox that lets no one in turns process 1 away. -/
theorem refused_send_unseen_stranger :
    Unseen (new.openInbox 2 acceptAllowlist 0).2
      ((new.openInbox 2 acceptAllowlist 0).2.send lively 1 0 (.pid 2) 1 0 0 []).2 lively (.pid 2) :=
  refused_send_unseen
    (show ((new.openInbox 2 acceptAllowlist 0).2.send lively 1 0 (.pid 2) 1 0 0 []).1
    = .error .eacces by decide)

/-- Only what belongs to one process differs. -/
structure OnlyOwn (m after : Msg) (pid : Pid) : Prop where
  inboxes : ∀ i, ¬ ((m.inboxes i).inUse = true ∧ (m.inboxes i).pid = pid) →
    after.inboxes i = m.inboxes i
  services : ∀ k, ¬ ((m.services k).inUse = true ∧ (m.services k).pid = pid) →
    after.services k = m.services k

/-- What another process's inbox took from a sender before, it takes now. -/
def StillAccepts (m after : Msg) (sender : Pid) : Prop :=
  ∀ h senderUid dest mtype tag flags data receiver, (m.resolve h dest).1 = .ok receiver →
    receiver ≠ sender → (m.send h sender senderUid dest mtype tag flags data).1 = .ok () →
      (after.send h sender senderUid dest mtype tag flags data).1 = .ok ()

/-- No other open inbox has the process on its list. -/
def Unlisted (m : Msg) (pid : Pid) : Prop :=
  ∀ i, (m.inboxes i).inUse = true → (m.inboxes i).pid ≠ pid → ∀ k, (m.inboxes i).allow k ≠ pid

/-- Where no list names the process, leaving changes nothing of anyone else. -/
theorem dropProcess_own {pid : Pid} (positive : 0 < pid) :
    OnlyOwn m (m.dropProcess pid) pid ↔ m.Unlisted pid := by
  constructor
  · -- A list that named the process has a free entry instead.
    intro own i live other k listed
    have same := own.inboxes i fun mine => other mine.2
    have entry := congrArg (fun b : Inbox => b.allow k) same
    simp only [dropProcess, live, Bool.true_and, beq_iff_eq, other, if_false, if_true, strike,
      listed] at entry
    exact absurd entry (Int.ne_of_lt positive)
  · intro unlisted
    refine ⟨fun i foreign => ?_, fun k foreign => ?_⟩
    · simp only [dropProcess]
      rw [if_neg (by simpa using foreign)]
      split
      · rename_i live
        have other : (m.inboxes i).pid ≠ pid := fun mine => foreign ⟨live, mine⟩
        have same : strike (m.inboxes i).allow pid = (m.inboxes i).allow := by
          funext k
          rw [strike, if_neg (unlisted i live other k)]
        rw [same]
      · rfl
    · simp only [dropProcess]
      rw [if_neg (by simpa using foreign)]

/-- A destination that is another process is still that process. -/
theorem OnlyOwn.resolve {pid : Pid} (own : OnlyOwn m (m.dropProcess pid) pid)
    (other : receiver ≠ pid) {h : Hal} (resolved : m.resolve h dest = (.ok receiver, m)) :
    (m.dropProcess pid).resolve h dest = (.ok receiver, m.dropProcess pid) := by
  cases dest with
  | pid p =>
    simp only [Msg.resolve] at resolved ⊢
    split at resolved
    · cases resolved
    · rename_i positive
      cases resolved
      rw [if_neg positive]
  | name n => ?_
  simp only [Msg.resolve] at resolved ⊢
  split at resolved
  · cases resolved
  rename_i valid
  split at resolved
  · cases resolved
  rename_i k found
  split at resolved
  · cases resolved
  rename_i live
  simp only [Prod.mk.injEq, Except.ok.injEq, and_true] at resolved
  -- The entry of the name is not one of those given up.
  have kept : (m.dropProcess pid).services k = m.services k :=
    own.services k fun mine => other (resolved.symm.trans mine.2)
  have still : (m.dropProcess pid).findService n = some k := by
    refine Table.first?_of_fewer found (kept ▸ Table.first?_eq_some found) fun j passes => ?_
    simp only [Bool.and_eq_true] at passes
    rw [(dropProcess_service passes.1).1] at passes
    simpa using passes
  rw [if_neg valid]
  simp only [still, kept, resolved] at live ⊢
  rw [if_neg live]

/-- With nothing else changed, every other inbox answers as before. -/
theorem OnlyOwn.stillAccepts {pid : Pid} (own : OnlyOwn m (m.dropProcess pid) pid) :
    StillAccepts m (m.dropProcess pid) pid := by
  intro h senderUid dest mtype tag flags data receiver addressed other accepted
  have resolved : m.resolve h dest = (.ok receiver, m) := by
    rcases m.resolve_cases h dest with ⟨someone, resolved⟩ | ⟨e, failed⟩ | ⟨e, k, -, failed⟩
    · rw [resolved] at addressed
      cases addressed
      exact resolved
    · rw [failed] at addressed
      cases addressed
    · rw [failed] at addressed
      cases addressed
  have agree : ∀ i, (((m.dropProcess pid).inboxes i).inUse = true
        ∧ ((m.dropProcess pid).inboxes i).pid = receiver)
      ↔ ((m.inboxes i).inUse = true ∧ (m.inboxes i).pid = receiver) := by
    intro i
    by_cases mine : (m.inboxes i).inUse = true ∧ (m.inboxes i).pid = pid
    · simp [dropProcess, mine, other.symm]
    · rw [own.inboxes i mine]
  -- The answer depends on where the message goes and on the inbox found there.
  rw [← accepted]
  simp only [send, resolved, own.resolve other resolved, findInbox_agree agree]
  split
  · rfl
  split
  · rfl
  split
  · rfl
  cases inbox : m.findInbox receiver with
  | none => rfl
  | some i => ?_
  have same : (m.dropProcess pid).inboxes i = m.inboxes i :=
    own.inboxes i fun mine => other ((findInbox_some inbox).2.2.symm.trans mine.2)
  simp only [same]
  split
  · rfl
  · rfl
  split
  · rfl
  · rfl

/-- A close touches nobody else, and what others took from the process they still take, exactly if
no other open inbox has the process on its list. -/
theorem close_own_iff {pid : Pid} (closed : m.close pid = (.ok (), after)) :
    OnlyOwn m after pid ∧ StillAccepts m after pid ↔ m.Unlisted pid := by
  simp only [close] at closed
  split at closed
  · cases closed
  rename_i present
  cases closed
  have positive : 0 < pid :=
    (findInbox_isSome.mp (by simpa [Option.isSome_iff_ne_none] using present)).1
  constructor
  · intro both
    exact (dropProcess_own positive).mp both.1
  · intro unlisted
    have own := (dropProcess_own positive).mpr unlisted
    exact ⟨own, own.stillAccepts⟩

/-- Process 1 is on the list of process 2, and both have an inbox. -/
def listed : Msg :=
  new.run [.opening 1 acceptAny 0, .opening 2 acceptAllowlist 0, .allow 2 1 true]

/-- Once process 1 has closed its own inbox, process 2 does not take its messages any more. -/
theorem close_unlists :
    (listed.close 1).1 = .ok ()
    ∧ (listed.send lively 1 0 (.pid 2) 1 0 0 []).1 = .ok ()
    ∧ ((listed.close 1).2.send lively 1 0 (.pid 2) 1 0 0 []).1 = .error .eacces := by
  decide

/-- On nobody's list, a process closes its inbox and is heard as before. -/
theorem close_own_unlisted :
    OnlyOwn (new.openInbox 1 acceptAny 0).2 ((new.openInbox 1 acceptAny 0).2.close 1).2 1
    ∧ StillAccepts (new.openInbox 1 acceptAny 0).2
      ((new.openInbox 1 acceptAny 0).2.close 1).2 1 := by
  have unlisted : (new.openInbox 1 acceptAny 0).2.Unlisted 1 := by
    unfold Unlisted
    decide
  have done : ((new.openInbox 1 acceptAny 0).2.close 1).1 = .ok () := by decide
  exact (close_own_iff (Prod.ext done rfl)).mpr unlisted

end NovaOs.Ipc.Msg
