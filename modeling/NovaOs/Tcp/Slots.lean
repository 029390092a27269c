import NovaOs.Tcp.Steps

/-! What sections do to slots that stay in use, and to the backlogs of listeners. -/

namespace NovaOs.Tcp

open Function Engine List

/-- A connection in use that was not closed from this side, past a handshake or before one. -/
structure TcpConn.Calm (c : TcpConn) : Prop where
  live : c.inUse
  going : c.finNeeded = false
  unsent : c.finSent = false
  state : c.state = .closed ∨ c.state = .listen ∨ c.state = .synSent ∨ c.state = .established ∨
    c.state = .closeWait

/-- What a connection sent has not been acknowledged in time, as often as it is sent. -/
def TcpConn.Overdue (c : TcpConn) (now : UInt32) : Prop :=
  (c.state = .synSent ∨ 0 < c.sentCount) ∧ c.rtoDeadline ≠ 0 ∧ seqGe now c.rtoDeadline = true ∧
    maxRetries ≤ c.retransCount

/-- A section that frees slot `i`: the peer resets it, or timers give it up, unless they come to a
SYN to be sent again first. -/
def Event.Cuts (ev : Event) (e : Engine) (i : Slot) : Prop :=
  match ev with
  | .packet srcIp payload _ => ∃ seg, e.addressee srcIp payload = some (i, seg) ∧ seg.hasRst
  | .timers now =>
    (e.conns i).Overdue now ∧ ∀ j < i, ((e.conns j).checkTimers now).2 = false
  | _ => False

section Engine

variable {e : Engine} {ev : Event} {i l : Slot} {c : TcpConn} {seg : Inbound} {after : TcpConn}

namespace TcpConn.Calm

theorem notHalfOpen (calm : c.Calm) : c.state ≠ .synReceived := by
  have state := calm.state
  intro half
  simp [half] at state

theorem notWaiting (calm : c.Calm) : c.state ≠ .timeWait := by
  have state := calm.state
  intro waiting
  simp [waiting] at state

/-- Whatever keeps the flags and the state keeps a connection calm. -/
theorem keep (calm : c.Calm) (live : after.inUse = c.inUse)
    (going : after.finNeeded = c.finNeeded) (unsent : after.finSent = c.finSent)
    (state : after.state = c.state) : after.Calm where
  live := live.trans calm.live
  going := going.trans calm.going
  unsent := unsent.trans calm.unsent
  state := by rw [state]; exact calm.state

/-- A connection that was not closed takes data, acknowledgements and a FIN and stays so. -/
theorem transferred {acked filled : TcpConn} (calm : c.Calm) (ack : Acked c seg acked)
    (data : TookData acked seg filled) (fin : TookFin filled seg after) : after.Calm := by
  have first : acked.Calm := by
    cases ack with
    | old => exact calm
    | new _ _ fin =>
      -- Without a FIN of ours there is none to be acknowledged.
      rcases fin with ⟨rfl, rfl⟩ | ⟨sent, _⟩
      · exact calm.keep rfl rfl rfl rfl
      · cases calm.unsent.symm.trans sent
  have second : filled.Calm := by
    cases data with
    | none => exact first
    | some => exact first.keep rfl rfl rfl rfl
  cases fin with
  | none => exact second
  | some =>
    refine ⟨second.live, second.going, second.unsent, ?_⟩
    rcases second.state with state | state | state | state | state <;>
      simp [state, TcpState.finReceived]

/-- Timers free it only if it is overdue. -/
theorem overdue (calm : c.Calm) {now : UInt32} (freed : (c.checkTimers now).1.inUse = false) :
    c.Overdue now := by
  obtain ⟨live, -, -, state⟩ := calm
  unfold TcpConn.checkTimers at freed
  grind [Overdue]

/-- Of the timers only those cut it that come to it. -/
theorem outlives (calm : (e.conns i).Calm) {now : UInt32} (spared : ¬ (Event.timers now).Cuts e i) :
    ((e.step (.timers now)).2.conns i).inUse ≠ false := by
  intro freed
  simp only [Engine.step, pollTimers] at freed
  rcases checkTimers_conns e now (nodup_finRange maxTcpConns) i with
    kept | ⟨⟨front, back, all, passed⟩, aged⟩
  · rw [kept, calm.live] at freed
    cases freed
  rw [aged] at freed
  refine spared ⟨calm.overdue freed, fun j before => passed j ?_⟩
  have sorted := pairwise_lt_finRange maxTcpConns
  have member := mem_finRange j
  rw [all] at sorted member
  -- Behind `i` come later slots only.
  have later := (pairwise_cons.mp (pairwise_append.mp sorted).2.1).1
  rcases mem_append.mp member with here | behind
  · exact here
  · rcases mem_cons.mp behind with rfl | behind
    · exact absurd before (lt_irrefl _)
    · exact absurd (later j behind) before.asymm

/-- A section that neither cuts a connection nor closes it leaves it calm. -/
theorem step (calm : (e.conns i).Calm) (spared : ¬ ev.Cuts e i)
    (kept : ∀ id l, ev = .close id → slotOf id = some l → l ≠ i ∧
      ((e.conns l).inUse → (e.conns l).isListener → i ∉ (e.conns l).backlog.val)) :
    ((e.step ev).2.conns i).Calm := by
  have change := step_change e ev i
  have outlives : ∀ now, ev = .timers now → ((e.step ev).2.conns i).inUse ≠ false := by
    rintro now rfl
    exact calm.outlives spared
  generalize (e.step ev).2.conns i = after at change outlives ⊢
  cases change with
  | same => exact calm
  | opened free | passive free => cases free.symm.trans calm.live
  | queued _ half | dropped _ half => exact absurd half calm.notHalfOpen
  | reset mine rst => exact absurd ⟨_, mine, rst⟩ spared
  | freed slot | closing slot => exact absurd rfl (kept _ _ rfl slot).1
  | abandoned slot live listener waiting =>
    exact absurd waiting ((kept _ _ rfl slot).2 live listener)
  | transferred _ _ ack data fin => exact calm.transferred ack data fin
  | aged aged =>
    cases aged with
    | same => exact calm
    | expired waiting => exact absurd waiting calm.notWaiting
    | gaveUp => exact absurd rfl (outlives _ rfl)
    | repeated | rewound => exact calm.keep rfl rfl rfl rfl
  | sent _ _ _ sent =>
    cases sent with
    | data => exact calm.keep rfl rfl rfl rfl
    | fin needed => cases calm.going.symm.trans needed
  | listening | connecting | timedOut => exact ⟨calm.live, calm.going, calm.unsent, by simp⟩
  | established =>
    exact ⟨calm.live, calm.going, calm.unsent, by simp [TcpConn.handshaken]⟩
  | bound | popped | buffered | read | pushed => exact calm.keep rfl rfl rfl rfl

end TcpConn.Calm

/-- What neither packets nor timers change about a slot in use. -/
structure Fixed (c after : TcpConn) : Prop where
  isListener : after.isListener = c.isListener
  localPort : after.localPort = c.localPort
  listenerId : after.listenerId = c.listenerId
  backlog : after.backlog = c.backlog
  live : after.inUse → c.inUse

theorem Fixed.trans {first second : TcpConn} (one : Fixed c first) (two : Fixed first second) :
    Fixed c second where
  isListener := two.isListener.trans one.isListener
  localPort := two.localPort.trans one.localPort
  listenerId := two.listenerId.trans one.listenerId
  backlog := two.backlog.trans one.backlog
  live := one.live ∘ two.live

/-- An acknowledged FIN may end a connection, but no segment begins one. -/
theorem Acked.fixed (ack : Acked c seg after) : Fixed c after := by
  cases ack with
  | old => exact ⟨rfl, rfl, rfl, rfl, id⟩
  | new _ _ ended => ?_
  refine ⟨rfl, rfl, rfl, rfl, ?_⟩
  rcases ended with ⟨_, rfl⟩ | ⟨_, _, rfl | ⟨rfl, _⟩⟩
  · exact id
  · exact id
  · exact nofun

theorem transferred_fixed {acked filled : TcpConn} (ack : Acked c seg acked)
    (data : TookData acked seg filled) (fin : TookFin filled seg after) : Fixed c after := by
  refine ack.fixed.trans ?_
  cases data <;> cases fin <;> exact ⟨rfl, rfl, rfl, rfl, id⟩

theorem Aged.fixed (aged : Aged c after) : Fixed c after := by
  cases aged with
  | expired | gaveUp => exact ⟨rfl, rfl, rfl, rfl, nofun⟩
  | same | repeated | rewound => exact ⟨rfl, rfl, rfl, rfl, id⟩

/-- What a section can make of the backlog of a slot that is a listener afterwards. -/
inductive Queue (e : Engine) (l : Slot) : Event → Backlog → Prop
  | same {ev : Event} (live : (e.conns l).inUse) (listener : (e.conns l).isListener) :
      Queue e l ev (e.conns l).backlog
  | empty {ev : Event} {backlog : Backlog} (empty : backlog.val = []) : Queue e l ev backlog
  | popped {id : Int} {first : Slot} {rest : Backlog} (live : (e.conns l).inUse)
      (listener : (e.conns l).isListener)
      (waiting : (e.conns l).backlog.val = first :: rest.val) : Queue e l (.accept id) rest
  | pushed {srcIp : UInt32} {payload : Bytes} {now : UInt32} {seg : Inbound} {idx : Slot}
      {more : Backlog} (mine : e.addressee srcIp payload = some (idx, seg))
      (half : (e.conns idx).state = .synReceived) (apart : l ≠ idx)
      (parent : (e.conns idx).listenerId = some l) (live : (e.conns l).inUse)
      (listener : (e.conns l).isListener)
      (longer : more.val = (e.conns l).backlog.val ++ [idx]) :
      Queue e l (.packet srcIp payload now) more

theorem step_queue (live : ((e.step ev).2.conns l).inUse)
    (listener : ((e.step ev).2.conns l).isListener) :
    Queue e l ev ((e.step ev).2.conns l).backlog := by
  have change := step_change e ev l
  generalize (e.step ev).2.conns l = after at change live listener ⊢
  cases change with
  | opened | passive => cases listener
  | freed | abandoned | reset => cases live
  | dropped _ _ gone => cases gone.symm.trans live
  | listening => exact .empty rfl
  | popped _ before was waiting => exact .popped before was waiting
  | pushed mine half apart parent before was longer =>
    exact .pushed mine half apart parent before was longer
  | transferred _ _ ack data fin =>
    have fixed := transferred_fixed ack data fin
    rw [fixed.backlog]
    exact .same (fixed.live live) (fixed.isListener ▸ listener)
  | aged aged =>
    have fixed := aged.fixed
    rw [fixed.backlog]
    exact .same (fixed.live live) (fixed.isListener ▸ listener)
  | sent _ _ _ sent => cases sent <;> exact .same live listener
  | _ => exact .same live listener

/-- Completing a handshake changes a backlog only with the connection established. -/
theorem completeHandshake_queued {ack : UInt32} (apart : l ≠ i)
    (longer : ((e.completeHandshake i ack).conns l).backlog ≠ (e.conns l).backlog) :
    (e.completeHandshake i ack).conns i = (e.conns i).handshaken ack := by
  have others : (e.set i ((e.conns i).handshaken ack)).conns l = e.conns l :=
    update_of_ne apart _ _
  simp only [completeHandshake] at longer ⊢
  cases parent : ((e.conns i).handshaken ack).listenerId with
  | none =>
    simp only [parent, set_conns, update_of_ne apart, ne_eq, not_true_eq_false]
      at longer
  | some l' => ?_
  simp only [parent] at longer ⊢
  split at longer
  · rename_i room
    rw [dif_pos room]
    by_cases same : l' = i
    · -- The listener is another slot, or the longer backlog would not be its own.
      subst same
      rw [set_conns, update_of_ne apart, others] at longer
      exact absurd rfl longer
    · rw [set_conns, update_of_ne (Ne.symm same), set_conns, update_self]
  · rw [set_conns, update_of_ne apart, others] at longer
    exact absurd rfl longer

/-- A connection that was put in a backlog is established by the same section. -/
theorem pushed_established {srcIp now : UInt32} {payload : Bytes}
    (mine : e.addressee srcIp payload = some (i, seg)) (half : (e.conns i).state = .synReceived)
    (apart : l ≠ i)
    (longer : ((e.step (.packet srcIp payload now)).2.conns l).backlog.val
      = (e.conns l).backlog.val ++ [i]) :
    (e.step (.packet srcIp payload now)).2.conns i = (e.conns i).handshaken seg.ack := by
  have changed : ((e.step (.packet srcIp payload now)).2.conns l).backlog
      ≠ (e.conns l).backlog := by
    intro same
    have lengths := congrArg List.length longer
    rw [same, length_append, length_singleton] at lengths
    omega
  rw [packet_delivers mine] at changed ⊢
  -- Every other way through the handler leaves the listener as it is.
  have sent : (e.conns i).state ≠ .synSent := by rw [half]; decide
  simp only [deliver, if_neg sent, if_pos half] at changed ⊢
  split at changed
  · rw [set_conns, update_of_ne apart] at changed
    exact absurd rfl changed
  rename_i valid
  rw [if_neg valid]
  split at changed
  · rename_i fits
    rw [if_pos fits]
    exact completeHandshake_queued apart changed
  · exact absurd rfl changed

/-- Closing a listener frees its slot. -/
theorem close_listener {id : Int} (slot : slotOf id = some l) (live : (e.conns l).inUse)
    (listener : (e.conns l).isListener) : ((e.step (.close id)).2.conns l).inUse = false := by
  simp only [step, rustTcpClose, slot, live, listener, Bool.not_true,
    Bool.false_eq_true, if_false, if_true, set_conns, update_self]

/-- A connection half-way through a passive handshake has not been closed. -/
def Engine.Untouched (e : Engine) : Prop :=
  ∀ i, (e.conns i).inUse → (e.conns i).state = .synReceived →
    (e.conns i).finNeeded = false ∧ (e.conns i).finSent = false

theorem Engine.Untouched.step (untouched : e.Untouched) : (e.step ev).2.Untouched := by
  intro i live half
  have change := step_change e ev i
  have before := untouched i
  generalize (e.step ev).2.conns i = after at change live half ⊢
  cases change with
  | opened | listening | connecting | timedOut | established | queued => cases half
  | passive => exact ⟨rfl, rfl⟩
  | freed | abandoned | reset => cases live
  | dropped _ _ gone => cases gone.symm.trans live
  | closing _ _ _ connected =>
    -- Only a connection past its handshake is marked for closing.
    rcases connected with state | state <;> cases state.symm.trans half
  | transferred _ past ack data fin =>
    exact absurd half ((fin.past (data.past (ack.past past))).2)
  | aged aged => cases aged <;> first | exact before live half | cases live
  | sent _ _ active sent =>
    cases sent with
    | data => exact before live half
    | fin => exact absurd half (finSent_past (active_past active)).2
  | _ => exact before live half

end Engine

/-- Sections that free no slot in use. -/
def Event.Mild : Event → Prop
  | .packet _ _ _ | .timers _ | .close _ => False
  | _ => True

section Calls

variable {e : Engine} {i : Slot}

theorem slotOf_val (i : Slot) : slotOf (i.val : Int) = some i := by
  have small := i.isLt
  rw [slotOf, dif_pos ⟨by omega, by omega⟩]
  simp

/-- A new socket is in the first free slot, or there is none. -/
theorem step_socket (e : Engine) :
    (e.step .socket).1.rc = some (-1) ∨ ∃ i, (e.conns i).inUse = false ∧
      (e.step .socket).1.rc = some (i.val : Int) ∧
      (e.step .socket).2.conns i = { inUse := true } := by
  simp only [step, rustTcpSocket]
  cases free : e.freeSlot with
  | none => exact .inl rfl
  | some i =>
    have unused := Table.first?_eq_some free
    exact .inr ⟨i, by simpa using unused, rfl, update_self ..⟩

/-- Accepting gives the first connection that waits, and takes it off the backlog. -/
theorem step_accept (e : Engine) (id : Int) :
    (e.step (.accept id)).1.rc = none ∨ (e.step (.accept id)).1.rc = some (-1) ∨
      ∃ l first rest, slotOf id = some l ∧ (e.conns l).inUse ∧ (e.conns l).isListener ∧
        (e.conns l).backlog.val = first :: rest ∧
        (e.step (.accept id)).1.rc = some (first.val : Int) ∧
        ((e.step (.accept id)).2.conns l).backlog.val = rest := by
  simp only [step, acceptTurn]
  cases slot : slotOf id with
  | none => exact .inr (.inl rfl)
  | some l => ?_
  dsimp only
  split
  · exact .inr (.inl rfl)
  rename_i usable
  simp only [Bool.not_eq_true, Bool.or_eq_false_iff, Bool.not_eq_false', bne_eq_false_iff_eq]
    at usable
  split
  · rename_i first rest short waiting
    refine .inr (.inr ⟨l, first, rest, rfl, usable.1.1, usable.1.2, ?_, rfl, ?_⟩)
    · exact congrArg Subtype.val waiting
    · rw [set_conns, update_self]
  · exact .inl rfl

end Calls

end NovaOs.Tcp
