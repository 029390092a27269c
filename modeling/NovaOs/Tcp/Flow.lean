import NovaOs.Config.Text
import NovaOs.Tcp.Steps

/-! What goes out unasked: data within the peer's window, and the FIN. -/

namespace NovaOs.Tcp

/-- What was sent is in the buffer, and behind the FIN there is nothing to send. -/
structure TcpConn.Drained (c : TcpConn) : Prop where
  sent : c.sentCount ≤ c.sendBuf.len
  fin : c.finSent = true → c.finNeeded = true ∧ c.sendBuf.len = 0

section Drained

variable {e : Engine} {ev : Event} {i : Slot} {c after : TcpConn}

theorem Acked.drained {seg : Inbound} (drained : c.Drained) (acked : Acked c seg after) :
    after.Drained := by
  cases acked with
  | old => exact drained
  | new _ _ _ => ?_
  have sent := drained.sent
  constructor
  · simp only [Ring.consume]
    omega
  · intro fin
    obtain ⟨needed, empty⟩ := drained.fin fin
    exact ⟨needed, by simp only [Ring.consume]; omega⟩

theorem Aged.drained (drained : c.Drained) (aged : Aged c after) : after.Drained := by
  cases aged with
  | rewound => exact ⟨Nat.zero_le _, drained.fin⟩
  | _ => exact ⟨drained.sent, drained.fin⟩

theorem Sent.drained {seg : Segment} (drained : c.Drained) (sent : Sent c seg after) :
    after.Drained := by
  cases sent with
  | data unsent => exact ⟨by simp only; omega, drained.fin⟩
  | fin needed _ empty => exact ⟨drained.sent, fun _ => ⟨needed, empty⟩⟩

/-- Whatever happens to a connection, it stays so while it is in use. -/
theorem drained_step (drained : (e.conns i).inUse → (e.conns i).Drained)
    (alive : ((e.step ev).2.conns i).inUse) : ((e.step ev).2.conns i).Drained := by
  have change := step_change e ev i
  generalize (e.step ev).2.conns i = after at change alive ⊢
  cases change with
  | same => exact drained alive
  | opened | passive => exact ⟨Nat.zero_le _, nofun⟩
  | dropped _ _ gone => cases gone.symm.trans alive
  | freed | abandoned | reset => cases alive
  | connecting _ live =>
    exact ⟨Nat.zero_le _, fun fin => ⟨((drained live).fin fin).1, rfl⟩⟩
  | buffered _ live _ going =>
    -- The buffer gets longer, which it cannot once a FIN is needed.
    have before := drained live
    refine ⟨Nat.le_trans before.sent (Nat.le_add_right _ _), fun fin => ?_⟩
    cases going.symm.trans (before.fin fin).1
  | closing _ live => exact ⟨(drained live).sent, fun fin => ⟨rfl, ((drained live).fin fin).2⟩⟩
  | established mine | queued mine =>
    have before := drained (addressee_live mine).1
    exact ⟨Nat.zero_le _, before.fin⟩
  | transferred mine _ ack data fin =>
    have acked := ack.drained (drained (addressee_live mine).1)
    cases data <;> cases fin <;> exact ⟨acked.sent, acked.fin⟩
  | aged aged =>
    have live : (e.conns i).inUse := by cases aged <;> first | exact alive | cases alive
    exact aged.drained (drained live)
  | sent live _ _ sent => exact sent.drained (drained live)
  | bound _ live | listening _ live | popped _ live | read _ live =>
    exact ⟨(drained live).sent, (drained live).fin⟩
  | timedOut | pushed => exact ⟨(drained alive).sent, (drained alive).fin⟩

end Drained

namespace Engine

/-- The engine after a number of sections, from any of them on. -/
def run (e : Engine) (evs : List Event) : Engine := evs.foldl (fun e ev => (e.step ev).2) e

theorem run_append (e : Engine) (evs : List Event) (ev : Event) :
    e.run (evs ++ [ev]) = ((e.run evs).step ev).2 := by
  rw [run, List.foldl_append]
  rfl

theorem run_drained {evs : List Event} {i : Slot} (live : ((run {} evs).conns i).inUse) :
    ((run {} evs).conns i).Drained := by
  induction evs using List.reverseRecOn with
  | nil => cases live
  | append_singleton evs ev ih =>
    rw [run_append] at live ⊢
    exact drained_step ih live

/-- Polling: the timers, and a first segment to repeat or else at most one segment to send. -/
def rustTcpPoll (e : Engine) (now : UInt32) : Option (Slot × Segment) × Engine :=
  match e.pollTimers now with
  | (some (.syn idx), e) => (some (idx, e.sendSyn idx), e)
  | (some (.synAck idx), e) => (some (idx, e.sendSynAck idx), e)
  | (none, e) => e.pollSend now

end Engine

/-- A FIN is out, and the peer has not acknowledged it. -/
def TcpConn.FinUnacked (c : TcpConn) : Prop :=
  c.inUse ∧ c.finSent ∧ (c.state = .finWait1 ∨ c.state = .closing ∨ c.state = .lastAck)

/-- What the source means to do about a lost FIN: repeat it and count, or give up. -/
def Engine.Recovers (e : Engine) (i : Slot) (now : UInt32) : Prop :=
  ((e.rustTcpPoll now).2.conns i).inUse = false ∨
    ((e.rustTcpPoll now).2.conns i).retransCount = (e.conns i).retransCount + 1 ∧
      ∃ seg, (e.rustTcpPoll now).1 = some (i, seg) ∧ seg.flags &&& flagFin ≠ 0

section Wedged

variable {e : Engine} {i : Slot}

/-- The timers pass a connection by that has nothing in flight. -/
theorem checkTimers_idle {c : TcpConn} (fin : c.FinUnacked) (idle : c.sentCount = 0)
    (now : UInt32) :
    c.checkTimers now = (c, false) := by
  obtain ⟨live, -, state⟩ := fin
  rcases state with state | state | state <;> simp [TcpConn.checkTimers, live, state, idle]

/-- Neither data nor a FIN is sent behind a FIN. -/
theorem pollSend_idle (sent : (e.conns i).finSent = true) (drained : (e.conns i).Drained)
    {now : UInt32} : (e.pollSend now).2.conns i = e.conns i := by
  have change := step_change e (.pollSend now) i
  change Change e i _ _ ((e.pollSend now).2.conns i) at change
  generalize (e.pollSend now).2.conns i = after at change ⊢
  cases change with
  | same => rfl
  | sent _ _ _ goes => ?_
  cases goes with
  | data unsent =>
    have empty := (drained.fin sent).2
    omega
  | fin _ first => cases first.symm.trans sent

end Wedged

/--
A FIN that was sent and not acknowledged is never sent again, however long that is ago: polling
leaves such a connection exactly as it is, in every state that any run leads to.
-/
theorem lost_fin_wedges (evs : List Event) (i : Slot) (now : UInt32)
    (fin : ((Engine.run {} evs).conns i).FinUnacked) :
    ((Engine.run {} evs).rustTcpPoll now).2.conns i = (Engine.run {} evs).conns i ∧
      ¬ (Engine.run {} evs).Recovers i now := by
  have drained := Engine.run_drained fin.1
  generalize Engine.run {} evs = e at fin drained ⊢
  have nothing : (e.conns i).sentCount = 0 :=
    Nat.le_zero.mp ((drained.fin fin.2.1).2 ▸ drained.sent)
  have timers : (e.pollTimers now).2.conns i = e.conns i := by
    rcases checkTimers_conns e now (List.nodup_finRange maxTcpConns) i with kept | ⟨_, aged⟩
    · exact kept
    · rw [checkTimers_idle fin nothing now] at aged
      exact aged
  have polled : (e.rustTcpPoll now).2.conns i = e.conns i := by
    unfold Engine.rustTcpPoll
    split
    · rename_i checked
      rwa [checked] at timers
    · rename_i checked
      rwa [checked] at timers
    · rename_i checked
      rw [checked] at timers
      rw [pollSend_idle (by rw [timers]; exact fin.2.1) (by rw [timers]; exact drained)]
      exact timers
  refine ⟨polled, ?_⟩
  rintro (freed | ⟨counted, _⟩)
  · rw [polled] at freed
    cases freed.symm.trans fin.1
  · rw [polled] at counted
    omega

/-- We connect to a peer, which accepts, and close at once; the FIN goes out and is lost. -/
def finLost : List Event :=
  [.socket, .bind 0 80, .connectBegin 0 7 9 0 0,
    .packet 7 [0, 9, 0, 80, 0, 0, 0, 0, 0, 0, 0, 2, 0x50, 0x12, 0, 0, 0, 0, 0, 0] 1, .close 0,
    .pollSend 2]

/-- Its deadline is tick 102, and much later the connection still has its slot. -/
theorem lost_fin_stays :
    let e := Engine.run {} finLost
    (e.conns 0).finSent = true ∧ (e.conns 0).state = .finWait1 ∧ (e.conns 0).rtoDeadline = 102 ∧
      (e.rustTcpPoll 100000).1 = none ∧ ((e.rustTcpPoll 100000).2.conns 0).inUse = true ∧
      ((e.rustTcpPoll 100000).2.conns 0).retransCount = 0 := by
  decide

theorem lost_fin_wedges_sample : ¬ (Engine.run {} finLost).Recovers 0 100000 :=
  (lost_fin_wedges finLost 0 100000
    ⟨by decide, by decide, .inl (by decide)⟩).2

/-- The number acknowledged and the window advertised by what a section brings to slot `i`. -/
def advertised (e : Engine) (i : Slot) : Event → Option (UInt32 × UInt16)
  | .packet srcIp payload _ =>
    match e.addressee srcIp payload with
    | some (idx, seg) =>
      if idx = i ∧ seg.hasAck = true then some (seg.ack, u16Be payload 14) else none
    | none => none
  | _ => none

/-- The window, counted from the number acknowledged, has room for a whole send buffer. -/
def TcpConn.Covered (c : TcpConn) (ack : UInt32) (window : UInt16) : Prop :=
  (c.sendUnacked - ack).toNat + sendBufCap ≤ window.toNat

instance decidableCovered (c : TcpConn) (ack : UInt32) (window : UInt16) :
    Decidable (c.Covered ack window) :=
  inferInstanceAs (Decidable ((c.sendUnacked - ack).toNat + sendBufCap ≤ window.toNat))

/-- The engine with what the peer of one slot has advertised last, and whether every window it has
advertised had that much room. -/
structure Watched where
  engine : Engine := {}
  last : Option (UInt32 × UInt16) := none
  roomy : Bool := true

def Watched.step (i : Slot) (w : Watched) (ev : Event) : Watched :=
  let engine := (w.engine.step ev).2
  match advertised w.engine i ev with
  | none => { w with engine }
  | some (ack, window) =>
    { engine, last := some (ack, window),
      roomy := w.roomy && decide ((engine.conns i).Covered ack window) }

def watched (i : Slot) (evs : List Event) : Watched := evs.foldl (Watched.step i) {}

section Flow

variable {e : Engine} {ev : Event} {i : Slot} {evs : List Event} {c after : TcpConn}

theorem watched_append : watched i (evs ++ [ev]) = (watched i evs).step i ev := by
  rw [watched, List.foldl_append]
  rfl

theorem Watched.step_engine {w : Watched} : (w.step i ev).engine = (w.engine.step ev).2 := by
  rw [Watched.step]
  split <;> rfl

theorem watched_run (evs : List Event) : (watched i evs).engine = Engine.run {} evs := by
  induction evs using List.reverseRecOn with
  | nil => rfl
  | append_singleton evs ev ih =>
    rw [watched_append, Watched.step_engine, Engine.run_append, ih]

/-- A FIN is received in a state that was active, if it leaves an active one. -/
theorem finReceived_active (state : after.state = c.state.finReceived) (active : after.active) :
    c.active := by
  rw [TcpConn.active, state] at active
  rw [TcpConn.active]
  revert active
  cases c.state <;> simp [TcpState.finReceived]

/-- Without an acknowledgement the numbers stay, and no connection gets past its handshake. -/
theorem unacked_step (none_ : advertised e i ev = none)
    (alive : ((e.step ev).2.conns i).inUse) (active : ((e.step ev).2.conns i).active) :
    (e.conns i).inUse ∧ (e.conns i).active ∧
      ((e.step ev).2.conns i).sendUnacked = (e.conns i).sendUnacked := by
  have silent : ∀ {srcIp now payload seg}, ev = .packet srcIp payload now →
      e.addressee srcIp payload = some (i, seg) → ¬ seg.hasAck := by
    rintro srcIp now payload seg rfl mine acks
    simp [advertised, mine, acks] at none_
  have change := step_change e ev i
  generalize (e.step ev).2.conns i = after at change active alive ⊢
  cases change with
  | opened | passive | listening | connecting | timedOut => cases active
  | freed | abandoned | reset => cases alive
  | dropped _ _ gone => cases gone.symm.trans alive
  | established mine _ _ acks | queued mine _ _ _ _ _ _ acks => exact absurd acks (silent rfl mine)
  | transferred mine _ ack data fin =>
    have live := (addressee_live mine).1
    cases ack with
    | new acks => exact absurd acks (silent rfl mine)
    | old => ?_
    cases data <;> cases fin
    · exact ⟨live, active, rfl⟩
    · exact ⟨live, finReceived_active rfl active, rfl⟩
    · exact ⟨live, active, rfl⟩
    · exact ⟨live, finReceived_active rfl active, rfl⟩
  | aged aged => cases aged <;> first | exact ⟨alive, active, rfl⟩ | cases alive
  | sent live _ was sent => cases sent <;> exact ⟨live, was, rfl⟩
  | _ => exact ⟨alive, active, rfl⟩

/-- What an active connection may send is covered by what its peer has advertised last. -/
theorem watched_covered (roomy : (watched i evs).roomy = true)
    (alive : ((watched i evs).engine.conns i).inUse)
    (active : ((watched i evs).engine.conns i).active) :
    ∃ ack window, (watched i evs).last = some (ack, window) ∧
      ((watched i evs).engine.conns i).Covered ack window := by
  induction evs using List.reverseRecOn with
  | nil => cases alive
  | append_singleton evs ev ih =>
    rw [watched_append] at roomy alive active ⊢
    rw [Watched.step] at roomy alive active ⊢
    cases said : advertised (watched i evs).engine i ev with
    | some pair =>
      simp only [said, Bool.and_eq_true, decide_eq_true_eq] at roomy ⊢
      exact ⟨_, _, rfl, roomy.2⟩
    | none => ?_
    simp only [said] at roomy alive active ⊢
    obtain ⟨live, was, same⟩ := unacked_step said alive active
    obtain ⟨ack, window, last, covered⟩ := ih roomy live was
    refine ⟨ack, window, last, ?_⟩
    rw [TcpConn.Covered, same]
    exact covered

/-- Data goes out from the place on that it has in the buffer. -/
theorem Sent.data_place {seg : Segment} (sent : Sent c seg after) (data : seg.data ≠ []) :
    seg.seq = c.sendUnacked + UInt32.ofNat c.sentCount ∧
      seg.data.length ≤ c.sendBuf.len - c.sentCount := by
  cases sent with
  | fin => exact absurd rfl data
  | data =>
    refine ⟨rfl, ?_⟩
    rw [Ring.peek_eq, List.length_take, List.length_drop, Ring.contents_length]
    omega

end Flow

/--
No data goes out beyond what the peer has acknowledged and advertised last, if every window that it
advertises has room for a whole send buffer: the window itself is not looked at.
-/
theorem flow_within_window {i : Slot} {evs : List Event} (roomy : (watched i evs).roomy = true)
    {now : UInt32} {seg : Segment}
    (sent : ((watched i evs).engine.step (.pollSend now)).1.sent = some (i, seg))
    (data : seg.data ≠ []) :
    ∃ ack window, (watched i evs).last = some (ack, window) ∧
      (seg.seq - ack).toNat + seg.data.length ≤ window.toNat := by
  obtain ⟨c, chosen⟩ := chooseSegment_outgoing
    (show ((watched i evs).engine.chooseSegment now
      ((List.range maxTcpConns).map (watched i evs).engine.pollSlot)).1 = some (i, seg) from sent)
  obtain ⟨live, -, active, sends⟩ := outgoing_sent chosen
  obtain ⟨ack, window, last, covered⟩ := watched_covered roomy live active
  have drained := Engine.run_drained (watched_run (i := i) evs ▸ live)
  rw [← watched_run (i := i)] at drained
  obtain ⟨place, length⟩ := sends.data_place data
  refine ⟨ack, window, last, ?_⟩
  generalize (watched i evs).engine.conns i = c at drained covered place length
  have sentCount := drained.sent
  have short := c.sendBuf.len_le
  have small := window.toNat_lt
  have distance : (c.sendUnacked + UInt32.ofNat c.sentCount - ack).toNat
      = (c.sendUnacked - ack).toNat + c.sentCount := by
    simp only [TcpConn.Covered, sendBufCap, UInt32.toNat_sub, UInt32.toNat_add,
      UInt32.toNat_ofNat'] at covered short ⊢
    omega
  rw [place, distance]
  rw [TcpConn.Covered] at covered
  omega

/-- A peer that advertises a window of so many bytes accepts our connection; we send two bytes. -/
def handshakeThenSend (high low : UInt8) : List Event :=
  [.socket, .bind 0 80, .connectBegin 0 7 9 0 0,
    .packet 7 [0, 9, 0, 80, 0, 0, 0, 0, 0, 0, 0, 2, 0x50, 0x12, high, low, 0, 0, 0, 0] 1,
    .send 0 (ascii "hi")]

/-- The peer has advertised a window of 8192 bytes, and both are within it. -/
theorem flow_within_window_hi :
    ∃ seg, ((watched 0 (handshakeThenSend 0x20 0)).engine.step (.pollSend 2)).1.sent
        = some (0, seg) ∧
      ∃ ack window, (watched 0 (handshakeThenSend 0x20 0)).last = some (ack, window) ∧
        (seg.seq - ack).toNat + seg.data.length ≤ window.toNat := by
  have sent : ((watched 0 (handshakeThenSend 0x20 0)).engine.step (.pollSend 2)).1.sent
      = some (0, ⟨7, 80, 9, 2, 1, 0x18, 2048, ascii "hi"⟩) := by decide
  exact ⟨_, sent, flow_within_window (by decide) sent (by decide)⟩

/-- The peer has advertised a window of no bytes at all, and both are sent. -/
theorem window_ignored :
    (watched 0 (handshakeThenSend 0 0)).last = some (2, 0) ∧
      (((watched 0 (handshakeThenSend 0 0)).engine.step (.pollSend 2)).1.sent.map fun sent =>
        (sent.2.seq, sent.2.data)) = some (2, ascii "hi") := by
  decide

end NovaOs.Tcp
