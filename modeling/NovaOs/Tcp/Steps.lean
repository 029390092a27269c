import NovaOs.Tcp.Model

/-! Everything that can happen to the engine, and what it can do to one connection. -/

namespace NovaOs.Tcp

open Function Engine

variable {c after : TcpConn} {now : UInt32} {seg : Segment}

/-- The sections under the engine's lock, in any order and from any number of processors. -/
inductive Event where
  | socket
  | bind (id : Int) (port : UInt16)
  | listen (id : Int)
  | accept (id : Int)
  | connectBegin (id : Int) (remoteIp : UInt32) (remotePort : UInt16) (isnTicks rtoTicks : UInt32)
  | connectTimeout (idx : Slot)
  | send (id : Int) (data : Bytes)
  | recv (id : Int) (maxLen : Nat)
  | close (id : Int)
  | packet (srcIp : UInt32) (payload : Bytes) (now : UInt32)
  | timers (now : UInt32)
  | pollSend (now : UInt32)
  -- The sections that only read a connection to build a segment without data.
  | sendSyn (idx : Slot)
  | sendSynAck (idx : Slot)
  | sendAck (idx : Slot)
  deriving DecidableEq, Repr

/-- What a section returns: a number, bytes, and a segment with the slot it is from. -/
structure Out where
  rc : Option Int := none
  bytes : Bytes := []
  sent : Option (Slot × Segment) := none
  deriving DecidableEq, Repr

namespace Engine

def step (e : Engine) : Event → Out × Engine
  | .socket => match e.rustTcpSocket with
    | (rc, e) => ({ rc := some rc }, e)
  | .bind id port => match e.rustTcpBind id port with
    | (rc, e) => ({ rc := some rc }, e)
  | .listen id => match e.rustTcpListen id with
    | (rc, e) => ({ rc := some rc }, e)
  | .accept id => match e.acceptTurn id with
    | (rc, e) => ({ rc := rc }, e)
  | .connectBegin id remoteIp remotePort isnTicks rtoTicks =>
    match e.connectBegin id remoteIp remotePort isnTicks rtoTicks with
    | (rc, e) => ({ rc := rc }, e)
  | .connectTimeout idx => ({ rc := some (-1) }, e.connectTimeout idx)
  | .send id data => match e.rustTcpSend id data with
    | (rc, e) => ({ rc := some rc }, e)
  | .recv id maxLen => match e.rustTcpRecv id maxLen with
    | (rc, bytes, e) => ({ rc := some rc, bytes := bytes }, e)
  | .close id => ({}, e.rustTcpClose id)
  | .packet srcIp payload now => ({}, (e.handlePacket srcIp payload now).2)
  | .timers now => ({}, (e.pollTimers now).2)
  | .pollSend now => match e.pollSend now with
    | (sent, e) => ({ sent := sent }, e)
  | .sendSyn idx => ({ sent := some (idx, e.sendSyn idx) }, e)
  | .sendSynAck idx => ({ sent := some (idx, e.sendSynAck idx) }, e)
  | .sendAck idx => ({ sent := some (idx, e.sendAckOnly idx) }, e)

@[simp] theorem set_conns {e : Engine} {idx : Slot} :
    (e.set idx c).conns = update e.conns idx c := rfl

/-- The connection a packet belongs to, with what it carries. -/
def addressee (e : Engine) (srcIp : UInt32) (payload : Bytes) : Option (Slot × Inbound) :=
  match parseSegment payload with
  | none => none
  | some seg => (Table.first? (fun c => c.owns srcIp seg) e.conns).map fun idx => (idx, seg)

end Engine

/-- The bytes a section hands to the reader of slot `i`. -/
def delivered (i : Slot) (ev : Event) (out : Out) : Bytes :=
  match ev with
  | .recv id _ => if slotOf id = some i then out.bytes else []
  | _ => []

/-- The bytes a section takes from the writer of slot `i`. -/
def accepted (i : Slot) (ev : Event) (out : Out) : Bytes :=
  match ev with
  | .send id data => if slotOf id = some i then data.take (out.rc.getD 0).toNat else []
  | _ => []

/-- Sections that only read a connection, for a segment without data. -/
def Event.Reads : Event → Prop
  | .sendSyn _ | .sendSynAck _ | .sendAck _ => True
  | _ => False

/-- No data passes between slot `i` and its application or its peer. -/
structure Quiet (i : Slot) (ev : Event) (out : Out) : Prop where
  delivered : delivered i ev out = []
  accepted : accepted i ev out = []
  sent : ∀ seg, out.sent = some (i, seg) → ev.Reads

theorem Quiet.of (h : (Tcp.delivered i ev out, Tcp.accepted i ev out, out.sent) = ([], [], none)) :
    Quiet i ev out := by
  simp only [Prod.mk.injEq] at h
  exact ⟨h.1, h.2.1, by simp [h.2.2]⟩

/-- A new connection for a first segment from a peer. -/
def passiveConn (srcIp : UInt32) (seg : Inbound) (listener nidx : Slot) (now : UInt32) :
    TcpConn where
  inUse := true
  state := .synReceived
  localPort := seg.dstPort
  remoteIp := srcIp
  remotePort := seg.srcPort
  listenerId := some listener
  sendUnacked := now * 2654435761 + UInt32.ofNat nidx
  recvNext := seg.seq + 1
  rtoDeadline := now + baseRtoTicks

/-- What its timers can make of a connection. -/
inductive Aged (c : TcpConn) : TcpConn → Prop
  | same : Aged c c
  | expired (state : c.state = .timeWait) : Aged c { c with inUse := false }
  | gaveUp (state : c.state ≠ .timeWait) (tries : c.retransCount ≥ maxRetries) :
      Aged c { c with inUse := false }
  | repeated {rtoTicks rtoDeadline : UInt32} (state : c.state = .synSent ∨ c.state = .synReceived) :
      Aged c { c with
        retransCount := c.retransCount + 1, rtoTicks := rtoTicks, rtoDeadline := rtoDeadline }
  | rewound {rtoTicks : UInt32} : Aged c { c with
      sentCount := 0, retransCount := c.retransCount + 1, rtoTicks := rtoTicks, rtoDeadline := 0 }

theorem checkTimers_aged : Aged c (c.checkTimers now).1 := by
  unfold TcpConn.checkTimers
  split
  · exact .same
  split
  · rename_i state
    split
    · exact .expired state
    · exact .same
  · rename_i state
    split
    · split
      · exact .gaveUp (by rw [state]; decide) ‹_›
      · exact .repeated (.inl state)
    · exact .same
  · rename_i state
    split
    · split
      · exact .gaveUp (by rw [state]; decide) ‹_›
      · exact .repeated (.inr state)
    · exact .same
  rename_i notWaiting _ _
  split
  · split
    · exact .gaveUp notWaiting ‹_›
    · exact .rewound
  · exact .same

/-- What the acknowledgement of a segment can make of a connection. -/
inductive Acked (c : TcpConn) (seg : Inbound) : TcpConn → Prop
  | old (old : ¬ (seg.hasAck ∧ seqGt seg.ack c.sendUnacked)) : Acked c seg c
  | new {rtoDeadline timeWaitDeadline : UInt32} {state : TcpState} {inUse : Bool}
      (ack : seg.hasAck) (past : seqGt seg.ack c.sendUnacked)
      (fin : state = c.state ∧ inUse = c.inUse ∨
        c.finSent ∧ state = c.state.finAcked ∧
          (inUse = c.inUse ∨ inUse = false ∧ state = .closed)) :
      Acked c seg
        { c with
          sendBuf := c.sendBuf.consume (min (seg.ack - c.sendUnacked).toNat c.sendBuf.len)
          sentCount := c.sentCount - min (seg.ack - c.sendUnacked).toNat c.sendBuf.len
          sendUnacked := seg.ack
          rtoTicks := baseRtoTicks
          retransCount := 0
          rtoDeadline := rtoDeadline
          timeWaitDeadline := timeWaitDeadline
          state := state
          inUse := inUse }

theorem acknowledge_acked (c : TcpConn) (seg : Inbound) (now : UInt32) :
    Acked c seg (c.acknowledge seg now) := by
  unfold TcpConn.acknowledge
  split
  · rename_i new
    simp only [Bool.and_eq_true] at new
    obtain ⟨ack, past⟩ := new
    have whole : min (min (seg.ack - c.sendUnacked).toNat c.sendBuf.len) c.sendBuf.len
        = min (seg.ack - c.sendUnacked).toNat c.sendBuf.len := by omega
    -- Whether the timer stops is no matter, so both ways are one case.
    have any : ∀ rtoDeadline : UInt32, Acked c seg
        (let acked : TcpConn :=
          { c.sendBufConsume (min (seg.ack - c.sendUnacked).toNat c.sendBuf.len)
          with
            sendUnacked := seg.ack
            rtoTicks := baseRtoTicks
            retransCount := 0
            rtoDeadline := rtoDeadline }
        if acked.finSent && seqGe seg.ack (acked.finSeq + 1) then acked.finAcked now
        else acked) := by
      intro rtoDeadline
      simp only [TcpConn.sendBufConsume, whole]
      split
      · rename_i fin
        simp only [Bool.and_eq_true] at fin
        simp only [TcpConn.finAcked]
        split
        · exact .new ack past (.inr ⟨fin.1, rfl, .inl rfl⟩)
        split
        · rename_i closed
          exact .new ack past (.inr ⟨fin.1, rfl, .inr ⟨rfl, closed⟩⟩)
        · exact .new ack past (.inr ⟨fin.1, rfl, .inl rfl⟩)
      · exact .new ack past (.inl ⟨rfl, rfl⟩)
    dsimp only
    split
    · exact any 0
    · exact any c.rtoDeadline
  · rename_i new
    exact .old (by simpa using new)

/-- What the data of a segment can make of a connection. -/
inductive TookData (c : TcpConn) (seg : Inbound) : TcpConn → Prop
  | none : TookData c seg c
  | some (start : seg.seq = c.recvNext) (data : seg.payload ≠ []) :
      TookData c seg
        { c with
          recvBuf := (c.recvBuf.write seg.payload).2
          recvNext := c.recvNext + UInt32.ofNat (c.recvBuf.write seg.payload).1 }

theorem acceptData_took (seg : Inbound) : TookData c seg (c.acceptData seg).1 := by
  unfold TcpConn.acceptData
  split
  · rename_i fits
    simp only [Bool.and_eq_true, Bool.not_eq_true', List.isEmpty_eq_false_iff, beq_iff_eq] at fits
    exact .some fits.2 fits.1.2
  · exact .none

/-- What the FIN of a segment can make of a connection. -/
inductive TookFin (c : TcpConn) (seg : Inbound) : TcpConn → Prop
  | none : TookFin c seg c
  | some {timeWaitDeadline : UInt32} (flag : seg.hasFin)
      (last : seg.seq + UInt32.ofNat seg.payload.length = c.recvNext) :
      TookFin c seg
        { c with
          recvNext := c.recvNext + 1
          peerFinReceived := true
          state := c.state.finReceived
          timeWaitDeadline := timeWaitDeadline }

theorem acceptFin_took (c : TcpConn) (seg : Inbound) (now : UInt32) :
    TookFin c seg (c.acceptFin seg now).1 := by
  unfold TcpConn.acceptFin
  split
  · rename_i fits
    simp only [Bool.and_eq_true, beq_iff_eq] at fits
    dsimp only
    split
    · exact .some fits.1.2 fits.2
    · exact .some fits.1.2 fits.2
  · exact .none

/-- What sending a segment makes of a connection. -/
inductive Sent (c : TcpConn) : Segment → TcpConn → Prop
  | data {rtoDeadline : UInt32} (unsent : c.sentCount < c.sendBuf.len) :
      Sent c
        { c.bareSegment (c.sendUnacked + UInt32.ofNat c.sentCount) c.recvNext (flagAck ||| flagPsh)
          with data := c.sendBuf.peek c.sentCount (min (c.sendBuf.len - c.sentCount) tcpMss) }
        { c with
          sentCount := c.sentCount + min (c.sendBuf.len - c.sentCount) tcpMss
          rtoDeadline := rtoDeadline }
  | fin {rtoDeadline : UInt32} (needed : c.finNeeded) (first : c.finSent = false)
      (drained : c.sendBuf.len = 0) :
      Sent c (c.bareSegment c.sendUnacked c.recvNext (flagFin ||| flagAck))
        { c with
          finSent := true
          finSeq := c.sendUnacked
          rtoDeadline := rtoDeadline
          state := c.state.finSent }

theorem nextData_sent (chosen : c.nextData now = some (seg, after)) : Sent c seg after := by
  unfold TcpConn.nextData at chosen
  dsimp only at chosen
  split at chosen
  · rename_i unsent
    have length : (c.sendBuf.peek c.sentCount (min (c.sendBuf.len - c.sentCount) tcpMss)).length
        = min (c.sendBuf.len - c.sentCount) tcpMss := by
      rw [Ring.peek_eq, List.length_take, List.length_drop, Ring.contents_length]
      omega
    rw [length] at chosen
    split at chosen
    · cases chosen
      exact .data (by omega)
    · cases chosen
      exact .data (by omega)
  · cases chosen

theorem nextFin_sent (chosen : c.nextFin now = some (seg, after)) : Sent c seg after := by
  unfold TcpConn.nextFin at chosen
  split at chosen
  · rename_i ready
    simp only [Bool.and_eq_true, Bool.not_eq_true', beq_iff_eq] at ready
    cases chosen
    exact .fin ready.1.1 ready.1.2 ready.2
  · cases chosen

theorem outgoing_sent (chosen : c.outgoing now = some (seg, after)) :
    c.inUse ∧ c.isListener = false ∧ c.active ∧ Sent c seg after := by
  unfold TcpConn.outgoing at chosen
  split at chosen
  · cases chosen
  rename_i usable
  simp only [Bool.not_eq_true, Bool.or_eq_false_iff, Bool.not_eq_false'] at usable
  refine ⟨usable.1.1, usable.1.2, usable.2, ?_⟩
  split at chosen
  · rename_i pair data
    cases chosen
    exact nextData_sent data
  · exact nextFin_sent chosen

/-- A connection whose handshake is behind it. -/
def TcpConn.Past (c : TcpConn) : Prop := c.state ≠ .synSent ∧ c.state ≠ .synReceived

section Past

variable {c after : TcpConn} {seg : Inbound}

theorem finAcked_past (past : c.Past) :
    c.state.finAcked ≠ .synSent ∧ c.state.finAcked ≠ .synReceived := by
  obtain ⟨notSent, notReceived⟩ := past
  cases state : c.state <;> simp_all [TcpState.finAcked]

theorem finReceived_past (past : c.Past) :
    c.state.finReceived ≠ .synSent ∧ c.state.finReceived ≠ .synReceived := by
  obtain ⟨notSent, notReceived⟩ := past
  cases state : c.state <;> simp_all [TcpState.finReceived]

theorem finSent_past (past : c.Past) :
    c.state.finSent ≠ .synSent ∧ c.state.finSent ≠ .synReceived := by
  obtain ⟨notSent, notReceived⟩ := past
  cases state : c.state <;> simp_all [TcpState.finSent]

/-- Data and a FIN go out behind the handshake only. -/
theorem active_past (active : c.active) : c.Past := by
  constructor <;> intro state <;> simp [TcpConn.active, state] at active

theorem Acked.past (past : c.Past) (acked : Acked c seg after) : after.Past := by
  cases acked with
  | old => exact past
  | new _ _ fin =>
    rcases fin with ⟨rfl, _⟩ | ⟨_, rfl, _⟩
    · exact past
    · exact finAcked_past past

theorem TookData.past (past : c.Past) (took : TookData c seg after) : after.Past := by
  cases took <;> exact past

theorem TookFin.past (past : c.Past) (took : TookFin c seg after) : after.Past := by
  cases took with
  | none => exact past
  | some => exact finReceived_past past

end Past

/-- What one section can make of the connection in slot `i`. -/
inductive Change (e : Engine) (i : Slot) : Event → Out → TcpConn → Prop
  | same {ev : Event} {out : Out} (quiet : Quiet i ev out) : Change e i ev out (e.conns i)
  | opened {out : Out} (free : (e.conns i).inUse = false) (rc : out.rc = some (i.val : Int)) :
      Change e i .socket out { inUse := true }
  | bound {id : Int} {given port : UInt16} {out : Out} (slot : slotOf id = some i)
      (live : (e.conns i).inUse) (closed : (e.conns i).state = .closed)
      (unbound : (e.conns i).localPort = 0) :
      Change e i (.bind id given) out { e.conns i with localPort := port }
  | listening {id : Int} {out : Out} (slot : slotOf id = some i) (live : (e.conns i).inUse)
      (closed : (e.conns i).state = .closed) (bound : (e.conns i).localPort ≠ 0) :
      Change e i (.listen id) out
        { e.conns i with isListener := true, state := .listen, backlog := noneWaiting }
  | popped {id : Int} {out : Out} {first : Slot} {rest : Backlog} (slot : slotOf id = some i)
      (live : (e.conns i).inUse) (listener : (e.conns i).isListener)
      (waiting : (e.conns i).backlog.val = first :: rest.val)
      (rc : out.rc = some (first.val : Int)) :
      Change e i (.accept id) out { e.conns i with backlog := rest }
  | connecting {id : Int} {remoteIp : UInt32} {remotePort localPort : UInt16}
      {isnTicks rtoTicks : UInt32} {out : Out} (slot : slotOf id = some i)
      (live : (e.conns i).inUse) (plain : (e.conns i).isListener = false)
      (closed : (e.conns i).state = .closed) :
      Change e i (.connectBegin id remoteIp remotePort isnTicks rtoTicks) out
        { e.conns i with
          localPort := localPort
          remoteIp := remoteIp
          remotePort := remotePort
          sendUnacked := isnTicks * 12345 + 1
          sendBuf := .restart (e.conns i).sendBuf
          sentCount := 0
          recvNext := 0
          state := .synSent
          rtoTicks := baseRtoTicks
          retransCount := 0
          rtoDeadline := rtoTicks + baseRtoTicks }
  | timedOut {out : Out} :
      Change e i (.connectTimeout i) out { e.conns i with state := .closed }
  | buffered {id : Int} {data : Bytes} {out : Out} (slot : slotOf id = some i)
      (live : (e.conns i).inUse) (plain : (e.conns i).isListener = false)
      (going : (e.conns i).finNeeded = false)
      (connected : (e.conns i).state = .established ∨ (e.conns i).state = .closeWait)
      (rc : out.rc = some (((e.conns i).sendBuf.write data).1 : Int)) :
      Change e i (.send id data) out
        { e.conns i with sendBuf := ((e.conns i).sendBuf.write data).2 }
  | read {id : Int} {maxLen : Nat} {out : Out} (slot : slotOf id = some i)
      (live : (e.conns i).inUse) (plain : (e.conns i).isListener = false)
      (bytes : out.bytes = (e.conns i).recvBuf.peek 0 maxLen) :
      Change e i (.recv id maxLen) out
        { e.conns i with recvBuf := (e.conns i).recvBuf.consume out.bytes.length }
  | freed {id : Int} {out : Out} (slot : slotOf id = some i) (live : (e.conns i).inUse)
      (done : (e.conns i).isListener ∨ (e.conns i).state = .closed ∨
        (e.conns i).state = .synSent ∨ (e.conns i).state = .synReceived) :
      Change e i (.close id) out { e.conns i with inUse := false }
  | abandoned {id : Int} {out : Out} {l : Slot} (slot : slotOf id = some l)
      (live : (e.conns l).inUse) (listener : (e.conns l).isListener)
      (waiting : i ∈ (e.conns l).backlog.val) :
      Change e i (.close id) out { e.conns i with inUse := false }
  | closing {id : Int} {out : Out} (slot : slotOf id = some i) (live : (e.conns i).inUse)
      (plain : (e.conns i).isListener = false)
      (connected : (e.conns i).state = .established ∨ (e.conns i).state = .closeWait) :
      Change e i (.close id) out { e.conns i with finNeeded := true }
  | reset {srcIp : UInt32} {payload : Bytes} {now : UInt32} {out : Out} {seg : Inbound}
      (mine : e.addressee srcIp payload = some (i, seg)) (rst : seg.hasRst) :
      Change e i (.packet srcIp payload now) out { e.conns i with inUse := false }
  | established {srcIp : UInt32} {payload : Bytes} {now : UInt32} {out : Out} {seg : Inbound}
      (mine : e.addressee srcIp payload = some (i, seg)) (state : (e.conns i).state = .synSent)
      (ack : seg.ack = (e.conns i).sendUnacked + 1) (flag : seg.hasAck) :
      Change e i (.packet srcIp payload now) out
        { (e.conns i).handshaken seg.ack with recvNext := seg.seq + 1 }
  | queued {srcIp : UInt32} {payload : Bytes} {now : UInt32} {out : Out} {seg : Inbound} {l : Slot}
      (mine : e.addressee srcIp payload = some (i, seg)) (state : (e.conns i).state = .synReceived)
      (apart : l ≠ i) (parent : (e.conns i).listenerId = some l) (live : (e.conns l).inUse)
      (listener : (e.conns l).isListener)
      (ack : seg.ack = (e.conns i).sendUnacked + 1) (flag : seg.hasAck) :
      Change e i (.packet srcIp payload now) out ((e.conns i).handshaken seg.ack)
  | dropped {srcIp : UInt32} {payload : Bytes} {now : UInt32} {out : Out} {seg : Inbound}
      {c : TcpConn} (mine : e.addressee srcIp payload = some (i, seg))
      (state : (e.conns i).state = .synReceived) (gone : c.inUse = false) :
      Change e i (.packet srcIp payload now) out c
  | pushed {srcIp : UInt32} {payload : Bytes} {now : UInt32} {out : Out} {seg : Inbound}
      {idx : Slot} {more : Backlog} (mine : e.addressee srcIp payload = some (idx, seg))
      (state : (e.conns idx).state = .synReceived) (apart : i ≠ idx)
      (parent : (e.conns idx).listenerId = some i) (live : (e.conns i).inUse)
      (listener : (e.conns i).isListener)
      (longer : more.val = (e.conns i).backlog.val ++ [idx]) :
      Change e i (.packet srcIp payload now) out { e.conns i with backlog := more }
  | transferred {srcIp : UInt32} {payload : Bytes} {now : UInt32} {out : Out} {seg : Inbound}
      {acked filled c : TcpConn} (mine : e.addressee srcIp payload = some (i, seg))
      (past : (e.conns i).state ≠ .synSent ∧ (e.conns i).state ≠ .synReceived)
      (ack : Acked (e.conns i) seg acked) (data : TookData acked seg filled)
      (fin : TookFin filled seg c) :
      Change e i (.packet srcIp payload now) out c
  | passive {srcIp : UInt32} {payload : Bytes} {now : UInt32} {out : Out} {seg : Inbound}
      {listener : Slot} (free : (e.conns i).inUse = false)
      (hears : (e.conns listener).hears seg) :
      Change e i (.packet srcIp payload now) out (passiveConn srcIp seg listener i now)
  | aged {now : UInt32} {out : Out} {c : TcpConn} (aged : Aged (e.conns i) c) :
      Change e i (.timers now) out c
  | sent {now : UInt32} {out : Out} {seg : Segment} {c : TcpConn} (live : (e.conns i).inUse)
      (plain : (e.conns i).isListener = false) (active : (e.conns i).active)
      (sent : Sent (e.conns i) seg c) (segment : out.sent = some (i, seg)) :
      Change e i (.pollSend now) out c

/-- A section changes the connection in slot `i` in one of these ways. -/
def Stepped (e : Engine) (i : Slot) (ev : Event) : Prop :=
  Change e i ev (e.step ev).1 ((e.step ev).2.conns i)

section Inversion

variable {e after : Engine} {ev : Event} {out : Out} {i idx : Slot} {c : TcpConn} {id : Int}
  {now srcIp : UInt32} {payload data : Bytes} {seg : Inbound} {slots : List Slot} {maxLen : Nat}

/-- Replacing one connection changes that connection and no other. -/
theorem Change.set (change : Change e idx ev out c)
    (quiet : i ≠ idx → Quiet i ev out) : Change e i ev out ((e.set idx c).conns i) := by
  rw [set_conns]
  by_cases same : i = idx
  · subst same
    rw [update_self]
    exact change
  · rw [update_of_ne same]
    exact .same (quiet same)

theorem change_socket : Stepped e i .socket := by
  simp only [Stepped, step, rustTcpSocket]
  cases free : e.freeSlot with
  | none => exact .same (.of rfl)
  | some idx =>
    have unused := Table.first?_eq_some free
    exact Change.set (.opened (by simpa using unused) rfl) fun _ => .of rfl

theorem change_bind {port : UInt16} : Stepped e i (.bind id port) := by
  simp only [Stepped, step, rustTcpBind]
  cases slot : slotOf id with
  | none => exact .same (.of rfl)
  | some idx => ?_
  dsimp only
  split
  · exact .same (.of rfl)
  rename_i usable
  simp only [Bool.not_eq_true, Bool.or_eq_false_iff, Bool.not_eq_false', bne_eq_false_iff_eq]
    at usable
  split
  · split
    · exact .same (.of rfl)
    · exact Change.set (.bound slot usable.1.1 usable.1.2 usable.2) fun _ => .of rfl
  · exact Change.set (.bound slot usable.1.1 usable.1.2 usable.2) fun _ => .of rfl

theorem change_listen : Stepped e i (.listen id) := by
  simp only [Stepped, step, rustTcpListen]
  cases slot : slotOf id with
  | none => exact .same (.of rfl)
  | some idx => ?_
  dsimp only
  split
  · exact .same (.of rfl)
  rename_i usable
  simp only [Bool.not_eq_true, Bool.or_eq_false_iff, Bool.not_eq_false', bne_eq_false_iff_eq,
    beq_eq_false_iff_ne] at usable
  exact Change.set (.listening slot usable.1.1 usable.1.2 usable.2) fun _ => .of rfl

theorem change_accept : Stepped e i (.accept id) := by
  simp only [Stepped, step, acceptTurn]
  cases slot : slotOf id with
  | none => exact .same (.of rfl)
  | some idx => ?_
  dsimp only
  split
  · exact .same (.of rfl)
  rename_i usable
  simp only [Bool.not_eq_true, Bool.or_eq_false_iff, Bool.not_eq_false', bne_eq_false_iff_eq]
    at usable
  split
  · rename_i popped rest short waiting
    exact Change.set (.popped slot usable.1.1 usable.1.2 (congrArg Subtype.val waiting) rfl)
      fun _ => .of rfl
  · exact .same (.of rfl)

theorem change_connectBegin {ip isn rto : UInt32} {port : UInt16} :
    Stepped e i (.connectBegin id ip port isn rto) := by
  simp only [Stepped, step, connectBegin]
  cases slot : slotOf id with
  | none => exact .same (.of rfl)
  | some idx => ?_
  dsimp only
  split
  · exact .same (.of rfl)
  · rename_i usable
    simp only [Bool.not_eq_true, Bool.or_eq_false_iff, Bool.not_eq_false', bne_eq_false_iff_eq]
      at usable
    exact Change.set (.connecting slot usable.1.1 usable.1.2 usable.2) fun _ => .of rfl

theorem quiet_send_refused :
    Quiet i (.send id data) { rc := some (-1) } :=
  ⟨rfl, by simp [accepted], by simp⟩

theorem change_send : Stepped e i (.send id data) := by
  simp only [Stepped, step, rustTcpSend]
  cases slot : slotOf id with
  | none => exact .same quiet_send_refused
  | some idx => ?_
  dsimp only
  split
  · exact .same quiet_send_refused
  rename_i usable
  simp only [Bool.not_eq_true, Bool.or_eq_false_iff, Bool.not_eq_false'] at usable
  split
  · rename_i connected
    refine Change.set (.buffered slot usable.1.1 usable.1.2 usable.2 connected rfl) ?_
    intro apart
    exact ⟨rfl, by simp [accepted, slot, apart.symm], by simp⟩
  · exact .same quiet_send_refused

theorem quiet_recv_nothing {rc : Int} :
    Quiet i (.recv id maxLen) { rc := some rc, bytes := [] } :=
  ⟨by simp [delivered], rfl, by simp⟩

theorem change_recv : Stepped e i (.recv id maxLen) := by
  simp only [Stepped, step, rustTcpRecv]
  cases slot : slotOf id with
  | none => exact .same quiet_recv_nothing
  | some idx => ?_
  dsimp only
  split
  · exact .same quiet_recv_nothing
  rename_i usable
  simp only [Bool.not_eq_true, Bool.or_eq_false_iff, Bool.not_eq_false'] at usable
  split
  · refine Change.set (.read slot usable.1 usable.2 rfl) ?_
    intro apart
    exact ⟨by simp [delivered, slot, apart.symm], rfl, by simp⟩
  · split
    · exact .same quiet_recv_nothing
    · split <;> exact .same quiet_recv_nothing

theorem freeAll_conns (e : Engine) (slots : List Slot) (i : Slot) :
    (e.freeAll slots).conns i = e.conns i ∨
      i ∈ slots ∧ (e.freeAll slots).conns i = { e.conns i with inUse := false } := by
  induction slots generalizing e with
  | nil => exact .inl rfl
  | cons idx rest ih =>
    rw [freeAll]
    by_cases same : i = idx
    · subst same
      -- Freeing a connection twice is freeing it once.
      right
      rcases ih (e.set i { e.conns i with inUse := false }) with kept | ⟨_, again⟩
      · rw [kept]
        exact ⟨by simp, by simp⟩
      · rw [again]
        exact ⟨by simp, by simp⟩
    rcases ih (e.set idx { e.conns idx with inUse := false }) with kept | ⟨member, freed⟩
    · left
      rw [kept, set_conns, update_of_ne same]
    · right
      rw [freed, set_conns, update_of_ne same]
      exact ⟨by simp [member], rfl⟩

theorem change_close : Stepped e i (.close id) := by
  simp only [Stepped, step, rustTcpClose]
  cases slot : slotOf id with
  | none => exact .same (.of rfl)
  | some idx => ?_
  dsimp only
  split
  · exact .same (.of rfl)
  rename_i usable
  have live : (e.conns idx).inUse := by simpa using usable
  split
  · -- A listener takes the connections with it that wait to be accepted.
    rename_i listener
    have entries := freeAll_conns e (e.conns idx).backlog.val
    rw [set_conns]
    by_cases same : i = idx
    · subst same
      rw [update_self]
      have freed : ∀ c : TcpConn, c = e.conns i ∨ c = { e.conns i with inUse := false } →
          { c with inUse := false } = { e.conns i with inUse := false } := by
        rintro c (rfl | rfl) <;> rfl
      rw [freed _ ((entries i).imp_right And.right)]
      exact .freed slot live (.inl listener)
    rw [update_of_ne same]
    rcases entries i with kept | ⟨member, freed⟩
    · rw [kept]
      exact .same (.of rfl)
    · rw [freed]
      exact .abandoned slot live listener member
  · rename_i plain
    have plain : (e.conns idx).isListener = false := by simpa using plain
    split
    · rename_i state
      exact Change.set (.freed slot live (.inr (.inl state))) fun _ => .of rfl
    · rename_i state
      exact Change.set (.freed slot live (.inr (.inr (.inl state)))) fun _ => .of rfl
    · rename_i state
      exact Change.set (.freed slot live (.inr (.inr (.inr state)))) fun _ => .of rfl
    · rename_i state
      exact Change.set (.closing slot live plain (.inl state)) fun _ => .of rfl
    · rename_i state
      exact Change.set (.closing slot live plain (.inr state)) fun _ => .of rfl
    · exact .same (.of rfl)

theorem checkTimers_conns (e : Engine) (now : UInt32) (once : slots.Nodup) (i : Slot) :
    (e.checkTimers now slots).2.conns i = e.conns i ∨
      (∃ front back, slots = front ++ i :: back ∧
          ∀ j ∈ front, ((e.conns j).checkTimers now).2 = false) ∧
        (e.checkTimers now slots).2.conns i = ((e.conns i).checkTimers now).1 := by
  -- The loop may stop early, and comes by each slot at most once.
  induction slots generalizing e with
  | nil => exact .inl rfl
  | cons idx rest ih =>
    obtain ⟨fresh, onceRest⟩ := List.nodup_cons.mp once
    rw [checkTimers]
    rcases checked : (e.conns idx).checkTimers now with ⟨c, again⟩
    have here : i = idx → (e.set idx c).conns i = ((e.conns i).checkTimers now).1 := by
      rintro rfl
      rw [set_conns, update_self, checked]
    have elsewhere : i ≠ idx → (e.set idx c).conns i = e.conns i := fun apart =>
      update_of_ne apart _ _
    cases again with
    | true =>
      by_cases same : i = idx
      · exact .inr ⟨⟨[], rest, by rw [same]; rfl, nofun⟩, here same⟩
      · exact .inl (elsewhere same)
    | false => ?_
    rcases ih (e.set idx c) onceRest with kept | ⟨⟨front, back, rfl, passed⟩, aged⟩
    · by_cases same : i = idx
      · exact .inr ⟨⟨[], rest, by rw [same]; rfl, nofun⟩, kept.trans (here same)⟩
      · exact .inl (kept.trans (elsewhere same))
    · have apart {j : Slot} (member : j ∈ front ++ i :: back) : j ≠ idx :=
        fun same => fresh (same ▸ member)
      rw [set_conns, update_of_ne (apart (by simp))] at aged
      refine .inr ⟨⟨idx :: front, back, rfl, List.forall_mem_cons.mpr ⟨by rw [checked], ?_⟩⟩, aged⟩
      intro j member
      have before := passed j member
      rwa [set_conns, update_of_ne (apart (by simp [member]))] at before

theorem change_timers : Stepped e i (.timers now) := by
  simp only [Stepped, step, pollTimers]
  rcases checkTimers_conns e now (List.nodup_finRange maxTcpConns) i with kept | ⟨_, aged⟩
  · rw [kept]
    exact .same (.of rfl)
  · rw [aged]
    exact .aged (checkTimers_aged)

/-- A segment chosen is one its connection had to send. -/
theorem chooseSegment_outgoing {seg : Segment}
    (chosen : (e.chooseSegment now slots).1 = some (i, seg)) :
    ∃ c, (e.conns i).outgoing now = some (seg, c) := by
  induction slots with
  | nil => cases chosen
  | cons idx rest ih =>
    rw [chooseSegment] at chosen
    cases has : (e.conns idx).outgoing now with
    | none =>
      simp only [has] at chosen
      exact ih chosen
    | some pair =>
      simp only [has] at chosen
      cases chosen
      exact ⟨pair.2, has⟩

theorem change_pollSend : Stepped e i (.pollSend now) := by
  have choose : ∀ slots : List Slot,
      Change e i (.pollSend now) { sent := (e.chooseSegment now slots).1 }
        ((e.chooseSegment now slots).2.conns i) := by
    intro slots
    induction slots with
    | nil => exact .same ⟨rfl, rfl, by simp [chooseSegment]⟩
    | cons idx rest ih =>
      rw [chooseSegment]
      cases chosen : (e.conns idx).outgoing now with
      | none => exact ih
      | some pair =>
        obtain ⟨seg, c⟩ := pair
        obtain ⟨live, plain, active, sent⟩ := outgoing_sent chosen
        refine Change.set (.sent live plain active sent rfl) fun apart => ⟨rfl, rfl, ?_⟩
        simp [apart.symm]
  exact choose ((List.range maxTcpConns).map e.pollSlot)

/-- What becomes of a connection that completes its handshake, and of its listener. -/
theorem change_completeHandshake (mine : e.addressee srcIp payload = some (idx, seg))
    (plain : (e.conns idx).isListener = false) (state : (e.conns idx).state = .synReceived)
    (ack : seg.ack = (e.conns idx).sendUnacked + 1) (flag : seg.hasAck) :
    Change e i (.packet srcIp payload now) {} ((e.completeHandshake idx seg.ack).conns i) := by
  have gone : ∀ (e' : Engine) (c : TcpConn), c.inUse = false →
      (∀ j, j ≠ idx → e'.conns j = e.conns j) →
      Change e i (.packet srcIp payload now) {} ((e'.set idx c).conns i) := by
    intro e' c unused others
    rw [set_conns]
    by_cases same : i = idx
    · subst same
      rw [update_self]
      exact .dropped mine state unused
    · rw [update_of_ne same, others i same]
      exact .same (.of rfl)
  have others : ∀ j, j ≠ idx →
      (e.set idx ((e.conns idx).handshaken seg.ack)).conns j = e.conns j := fun j apart =>
    update_of_ne apart _ _
  simp only [completeHandshake]
  cases parent : ((e.conns idx).handshaken seg.ack).listenerId with
  | none => exact gone _ _ rfl others
  | some l => ?_
  dsimp only
  split
  · rename_i room
    -- A connection is no listener, so its listener is another slot.
    have apart : l ≠ idx := by
      rintro rfl
      rw [set_conns, update_self] at room
      cases plain.symm.trans room.2.1
    have usable : (e.conns l).inUse ∧ (e.conns l).isListener := by
      rw [← others l apart]
      exact ⟨room.1, room.2.1⟩
    simp only [others l apart]
    rw [set_conns]
    by_cases isListener : i = l
    · subst isListener
      rw [update_self]
      exact .pushed mine state apart parent usable.1 usable.2 rfl
    rw [update_of_ne isListener]
    by_cases same : i = idx
    · subst same
      rw [set_conns, update_self]
      exact .queued mine state apart parent usable.1 usable.2 ack flag
    · rw [others i same]
      exact .same (.of rfl)
  · exact gone _ _ rfl others

theorem change_deliver (mine : e.addressee srcIp payload = some (idx, seg))
    (plain : (e.conns idx).isListener = false) :
    Change e i (.packet srcIp payload now) {} ((e.deliver idx seg now).2.conns i) := by
  simp only [deliver]
  split
  · rename_i rst
    exact Change.set (.reset mine rst) fun _ => .of rfl
  split
  · rename_i state
    split
    · rename_i fits
      simp only [Bool.and_eq_true, beq_iff_eq] at fits
      exact Change.set (.established mine state fits.2 fits.1.2) fun _ => .of rfl
    · exact .same (.of rfl)
  rename_i notSent
  split
  · rename_i state
    split
    · rename_i fits
      simp only [Bool.and_eq_true, beq_iff_eq] at fits
      exact change_completeHandshake mine plain state fits.2 fits.1
    · exact .same (.of rfl)
  · rename_i notReceived
    exact Change.set (.transferred mine ⟨notSent, notReceived⟩ (acknowledge_acked _ seg now)
      (acceptData_took seg) (acceptFin_took _ seg now)) fun _ => .of rfl

theorem change_packet : Stepped e i (.packet srcIp payload now) := by
  simp only [Stepped, step, handlePacket]
  cases parsed : parseSegment payload with
  | none => exact .same (.of rfl)
  | some seg => ?_
  simp only [handleSegment]
  cases owner : Table.first? (fun c => c.owns srcIp seg) e.conns with
  | some idx =>
    have owned := Table.first?_eq_some owner
    simp only [TcpConn.owns, Bool.and_eq_true, Bool.not_eq_true'] at owned
    have mine : e.addressee srcIp payload = some (idx, seg) := by
      simp only [addressee, parsed, owner, Option.map_some]
    exact change_deliver mine owned.1.1.1.2
  | none => ?_
  dsimp only
  split
  · simp only [passiveOpen]
    cases heard : Table.first? (fun c => c.hears seg) e.conns with
    | none => exact .same (.of rfl)
    | some listener => ?_
    dsimp only
    cases free : e.freeSlot with
    | none => exact .same (.of rfl)
    | some nidx =>
      have unused := Table.first?_eq_some free
      have hears := Table.first?_eq_some heard
      exact Change.set (.passive (by simpa using unused) hears) fun _ => .of rfl
  · exact .same (.of rfl)

/-- Every section changes a connection in one of the ways listed, or not at all. -/
theorem step_change (e : Engine) (ev : Event) (i : Slot) :
    Change e i ev (e.step ev).1 ((e.step ev).2.conns i) := by
  cases ev with
  | socket => exact change_socket
  | bind => exact change_bind
  | listen => exact change_listen
  | accept => exact change_accept
  | connectBegin => exact change_connectBegin
  | connectTimeout idx => exact Change.set .timedOut fun _ => ⟨rfl, rfl, by simp [step]⟩
  | send => exact change_send
  | recv => exact change_recv
  | close => exact change_close
  | packet => exact change_packet
  | timers => exact change_timers
  | pollSend => exact change_pollSend
  | sendSyn idx | sendSynAck idx | sendAck idx => exact .same ⟨rfl, rfl, fun _ _ => trivial⟩

/-- A packet belongs to a connection in use that is no listener. -/
theorem addressee_live (mine : e.addressee srcIp payload = some (i, seg)) :
    (e.conns i).inUse ∧ (e.conns i).isListener = false := by
  simp only [addressee] at mine
  split at mine
  · cases mine
  obtain ⟨idx, owner, same⟩ := Option.map_eq_some_iff.mp mine
  cases same
  have owned := Table.first?_eq_some owner
  simp only [TcpConn.owns, Bool.and_eq_true, Bool.not_eq_true'] at owned
  exact owned.1.1.1

/-- A packet for a connection does what delivering its segment does. -/
theorem handlePacket_delivers (mine : e.addressee srcIp payload = some (i, seg)) :
    e.handlePacket srcIp payload now = e.deliver i seg now := by
  simp only [addressee] at mine
  simp only [handlePacket]
  cases parsed : parseSegment payload with
  | none =>
    rw [parsed] at mine
    cases mine
  | some parsedSeg =>
    rw [parsed] at mine
    obtain ⟨idx, owner, same⟩ := Option.map_eq_some_iff.mp mine
    cases same
    simp only [handleSegment, owner]

theorem packet_delivers (mine : e.addressee srcIp payload = some (i, seg)) :
    (e.step (.packet srcIp payload now)).2 = (e.deliver i seg now).2 :=
  congrArg Prod.snd (handlePacket_delivers mine)

end Inversion

end NovaOs.Tcp
