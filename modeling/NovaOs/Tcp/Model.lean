import NovaOs.Lib.Bytes
import NovaOs.Lib.Ring
import NovaOs.Lib.Table

/-! The TCP engine of `kernel/rust/tcp.rs`, one section under its lock at a time. -/

namespace NovaOs.Tcp

-- The sizes of the engine's tables and buffers.
def maxTcpConns : Nat := 8
def maxBacklog : Nat := 4
def tcpMss : Nat := 536
def sendBufCap : Nat := 2048
def recvBufCap : Nat := 2048

-- Its timers, in ticks of a hundredth of a second.
def baseRtoTicks : UInt32 := 100
def maxRtoTicks : UInt32 := 800
def maxRetries : Nat := 6
def timeWaitTicks : UInt32 := 200

-- The flags of a segment.
def flagFin : UInt8 := 0x01
def flagSyn : UInt8 := 0x02
def flagRst : UInt8 := 0x04
def flagPsh : UInt8 := 0x08
def flagAck : UInt8 := 0x10

/-- At or past, comparing the difference as a signed number. -/
def seqGe (a b : UInt32) : Bool := (0 : Int32) ≤ (a - b).toInt32

/-- Strictly past, in the same sense. -/
def seqGt (a b : UInt32) : Bool := (0 : Int32) < (a - b).toInt32

inductive TcpState where
  | closed
  | listen
  | synSent
  | synReceived
  | established
  | finWait1
  | finWait2
  | closeWait
  | closing
  | lastAck
  | timeWait
  deriving DecidableEq, Repr

namespace TcpState

/-- Our FIN was acknowledged. -/
def finAcked : TcpState → TcpState
  | finWait1 => finWait2
  | closing => timeWait
  | lastAck => closed
  | other => other

/-- The peer's FIN came in. -/
def finReceived : TcpState → TcpState
  | established => closeWait
  | finWait1 => closing
  | finWait2 => timeWait
  | other => other

/-- Our FIN went out. -/
def finSent : TcpState → TcpState
  | established => finWait1
  | closeWait => lastAck
  | other => other

end TcpState

instance : NeZero maxTcpConns := ⟨by decide⟩

/-- A place in the table of connections. -/
abbrev Slot := Fin maxTcpConns

/-- Handshaken connections that wait to be accepted, the first of them in front. -/
abbrev Backlog := { waiting : List Slot // waiting.length ≤ maxBacklog }

/-- A backlog with nothing in it. -/
def noneWaiting : Backlog := ⟨[], by decide⟩

theorem sendBufCap_pos : 0 < sendBufCap := by decide

theorem recvBufCap_pos : 0 < recvBufCap := by decide

/-- One connection, or one listener. -/
structure TcpConn where
  inUse : Bool := false
  isListener : Bool := false
  state : TcpState := .closed
  localPort : UInt16 := 0
  remoteIp : UInt32 := 0
  remotePort : UInt16 := 0
  -- The listener a passively opened connection came in through.
  listenerId : Option Slot := none
  -- The oldest sequence number not acknowledged, which the front of the send buffer has.
  sendUnacked : UInt32 := 0
  -- How many of the buffered bytes were transmitted since the last timeout.
  sentCount : Nat := 0
  sendBuf : Ring UInt8 sendBufCap := .empty sendBufCap_pos 0
  -- The sequence number expected next from the peer.
  recvNext : UInt32 := 0
  recvBuf : Ring UInt8 recvBufCap := .empty recvBufCap_pos 0
  -- Zero while the timer is not running.
  rtoDeadline : UInt32 := 0
  rtoTicks : UInt32 := baseRtoTicks
  retransCount : Nat := 0
  -- A close was asked for, and the FIN goes out behind the buffered data.
  finNeeded : Bool := false
  finSent : Bool := false
  finSeq : UInt32 := 0
  peerFinReceived : Bool := false
  timeWaitDeadline : UInt32 := 0
  backlog : Backlog := noneWaiting

/-- The table of connections, and where the next search for something to send starts. -/
structure Engine where
  conns : Slot → TcpConn := fun _ => {}
  pollCursor : Nat := 0

/-- What the engine reads of a segment that came in. -/
structure Inbound where
  srcPort : UInt16
  dstPort : UInt16
  seq : UInt32
  ack : UInt32
  flags : UInt8
  payload : Bytes
  deriving DecidableEq, Repr

/-- A segment handed to the layer below. -/
structure Segment where
  remoteIp : UInt32
  localPort : UInt16
  remotePort : UInt16
  seq : UInt32
  ack : UInt32
  flags : UInt8
  window : UInt16
  data : Bytes
  deriving DecidableEq, Repr

variable (data : Bytes)

/-- A 16-bit field, most significant byte first. -/
def u16Be (off : Nat) : UInt16 :=
  UInt16.ofNat ((data.getD off 0).toNat * 256 + (data.getD (off + 1) 0).toNat)

/-- A 32-bit field, most significant byte first. -/
def u32Be (off : Nat) : UInt32 :=
  UInt32.ofNat ((data.getD off 0).toNat * 16777216 + (data.getD (off + 1) 0).toNat * 65536
    + (data.getD (off + 2) 0).toNat * 256 + (data.getD (off + 3) 0).toNat)

/-- Reads a segment, unless it is malformed. -/
def parseSegment : Option Inbound :=
  let dataOffset := (data.getD 12 0 >>> 4).toNat * 4
  if data.length < 20 then none
  else if dataOffset < 20 || dataOffset > data.length then none
  else some
    { srcPort := u16Be data 0
      dstPort := u16Be data 2
      seq := u32Be data 4
      ack := u32Be data 8
      flags := data.getD 13 0
      payload := data.drop dataOffset }

namespace Inbound

variable (seg : Inbound)

def hasFin : Bool := seg.flags &&& flagFin != 0
def hasSyn : Bool := seg.flags &&& flagSyn != 0
def hasRst : Bool := seg.flags &&& flagRst != 0
def hasAck : Bool := seg.flags &&& flagAck != 0

end Inbound

namespace TcpConn

variable (c : TcpConn)

/-- Drops acknowledged bytes off the front of the send buffer. -/
def sendBufConsume (count : Nat) : TcpConn :=
  let count := min count c.sendBuf.len
  { c with sendBuf := c.sendBuf.consume count, sentCount := c.sentCount - count }

def advertisedWindow : UInt16 := UInt16.ofNat (recvBufCap - c.recvBuf.len)

/-- A segment that carries no data, with what the connection has for its other fields. -/
def bareSegment (seq ack : UInt32) (flags : UInt8) : Segment where
  remoteIp := c.remoteIp
  localPort := c.localPort
  remotePort := c.remotePort
  seq := seq
  ack := ack
  flags := flags
  window := c.advertisedWindow
  data := []

/-- The connection a segment belongs to. -/
def owns (srcIp : UInt32) (seg : Inbound) : Bool :=
  c.inUse && !c.isListener && c.localPort == seg.dstPort && c.remotePort == seg.srcPort
    && c.remoteIp == srcIp

/-- The listener a first segment belongs to. -/
def hears (seg : Inbound) : Bool :=
  c.inUse && c.isListener && c.state == .listen && c.localPort == seg.dstPort

/-- The handshake is complete, as seen from either side. -/
def handshaken (ack : UInt32) : TcpConn :=
  { c with
    sendUnacked := ack
    sentCount := 0
    state := .established
    rtoTicks := baseRtoTicks
    retransCount := 0
    rtoDeadline := 0 }

/-- What an acknowledgement of our FIN does to the state. -/
def finAcked (c : TcpConn) (now : UInt32) : TcpConn :=
  let c := { c with state := c.state.finAcked, rtoDeadline := 0 }
  if c.state = .timeWait then { c with timeWaitDeadline := now + timeWaitTicks }
  else if c.state = .closed then { c with inUse := false }
  else c

/-- The acknowledgement a segment carries. -/
def acknowledge (seg : Inbound) (now : UInt32) : TcpConn :=
  if seg.hasAck && seqGt seg.ack c.sendUnacked then
    let raw := seg.ack - c.sendUnacked
    let c := c.sendBufConsume (min raw.toNat c.sendBuf.len)
    let c := { c with sendUnacked := seg.ack, rtoTicks := baseRtoTicks, retransCount := 0 }
    let c := if c.sendBuf.len = 0 then { c with rtoDeadline := 0 } else c
    if c.finSent && seqGe seg.ack (c.finSeq + 1) then c.finAcked now else c
  else c

/-- The data it carries, if it starts where the last data ended; also whether any was taken. -/
def acceptData (seg : Inbound) : TcpConn × Bool :=
  if c.inUse && !seg.payload.isEmpty && seg.seq == c.recvNext then
    match c.recvBuf.write seg.payload with
    | (accepted, recvBuf) =>
      ({ c with recvBuf := recvBuf, recvNext := c.recvNext + UInt32.ofNat accepted },
        accepted > 0)
  else (c, false)

/-- The FIN it carries, if everything before it was taken; also whether it was. -/
def acceptFin (seg : Inbound) (now : UInt32) : TcpConn × Bool :=
  if c.inUse && seg.hasFin && seg.seq + UInt32.ofNat seg.payload.length == c.recvNext then
    let c := { c with
      recvNext := c.recvNext + 1, peerFinReceived := true, state := c.state.finReceived }
    (if c.state = .timeWait then { c with timeWaitDeadline := now + timeWaitTicks } else c, true)
  else (c, false)

/-- A segment on a connection past its handshake; also whether it has to be acknowledged. -/
def transfer (seg : Inbound) (now : UInt32) : TcpConn × Bool :=
  match (c.acknowledge seg now).acceptData seg with
  | (c, tookData) =>
    match c.acceptFin seg now with
    | (c, tookFin) => (c, tookData || tookFin)

/-- The timers of one connection; also whether it has to repeat its first segment. -/
def checkTimers (now : UInt32) : TcpConn × Bool :=
  if !c.inUse then (c, false)
  else match c.state with
    | .timeWait =>
      if seqGe now c.timeWaitDeadline then ({ c with inUse := false }, false) else (c, false)
    | .synSent | .synReceived =>
      if c.rtoDeadline != 0 && seqGe now c.rtoDeadline then
        if c.retransCount ≥ maxRetries then ({ c with inUse := false }, false)
        else
          let rtoTicks := min (c.rtoTicks * 2) maxRtoTicks
          ({ c with
            retransCount := c.retransCount + 1
            rtoTicks := rtoTicks
            rtoDeadline := now + rtoTicks }, true)
      else (c, false)
    | _ =>
      if c.sentCount > 0 && c.rtoDeadline != 0 && seqGe now c.rtoDeadline then
        if c.retransCount ≥ maxRetries then ({ c with inUse := false }, false)
        else
          -- Everything in flight counts as not sent yet, and the sending pass sends it again.
          ({ c with
            sentCount := 0
            retransCount := c.retransCount + 1
            rtoTicks := min (c.rtoTicks * 2) maxRtoTicks
            rtoDeadline := 0 }, false)
      else (c, false)

/-- States in which data or a FIN may go out. -/
def active : Bool :=
  match c.state with
  | .established | .closeWait | .finWait1 | .finWait2 | .closing | .lastAck => true
  | _ => false

/-- The next data segment, and the connection with it in flight. -/
def nextData (now : UInt32) : Option (Segment × TcpConn) :=
  let unsent := c.sendBuf.len - c.sentCount
  if unsent > 0 then
    let data := c.sendBuf.peek c.sentCount (min unsent tcpMss)
    let seg := { c.bareSegment (c.sendUnacked + UInt32.ofNat c.sentCount) c.recvNext
      (flagAck ||| flagPsh) with data := data }
    let c := { c with sentCount := c.sentCount + data.length }
    some (seg, if c.rtoDeadline == 0 then { c with rtoDeadline := now + c.rtoTicks } else c)
  else none

/-- The FIN, once it is needed and all data is acknowledged. -/
def nextFin (now : UInt32) : Option (Segment × TcpConn) :=
  if c.finNeeded && !c.finSent && c.sendBuf.len == 0 then
    some (c.bareSegment c.sendUnacked c.recvNext (flagFin ||| flagAck),
      { c with
        finSent := true
        finSeq := c.sendUnacked
        rtoDeadline := now + c.rtoTicks
        state := c.state.finSent })
  else none

/-- What a connection has to send, data before the FIN. -/
def outgoing (now : UInt32) : Option (Segment × TcpConn) :=
  if !c.inUse || c.isListener || !c.active then none
  else match c.nextData now with
    | some chosen => some chosen
    | none => c.nextFin now

end TcpConn

/-- What the first segment of a connection has to be repeated as. -/
inductive Retransmit where
  | syn (idx : Slot)
  | synAck (idx : Slot)
  deriving DecidableEq, Repr

/-- What a segment that came in has to be answered with. -/
inductive Response where
  | none
  | synAck (idx : Slot)
  | ack (idx : Slot)
  deriving DecidableEq, Repr

/-- The slot a number from outside stands for. -/
def slotOf (id : Int) : Option Slot :=
  if h : 0 ≤ id ∧ id < maxTcpConns then some ⟨id.toNat, by omega⟩ else none

namespace Engine

variable (e : Engine)

/-- Replaces one connection. -/
def set (idx : Slot) (c : TcpConn) : Engine :=
  { e with conns := Function.update e.conns idx c }

/-- The first slot that no connection is in. -/
def freeSlot : Option Slot := Table.first? (fun c => !c.inUse) e.conns

def sendSyn (idx : Slot) : Segment :=
  (e.conns idx).bareSegment (e.conns idx).sendUnacked 0 flagSyn

def sendSynAck (idx : Slot) : Segment :=
  (e.conns idx).bareSegment (e.conns idx).sendUnacked (e.conns idx).recvNext (flagSyn ||| flagAck)

def sendAckOnly (idx : Slot) : Segment :=
  (e.conns idx).bareSegment
    ((e.conns idx).sendUnacked + UInt32.ofNat (e.conns idx).sentCount) (e.conns idx).recvNext
    flagAck

/-- Some socket is bound to a port. -/
def portTaken (port : UInt16) : Bool :=
  (Table.first? (fun c => c.inUse && c.localPort == port) e.conns).isSome

/-- The first port of the dynamic range that is not taken; there are more of them than sockets. -/
def ephemeralPort : UInt16 :=
  (((List.range' 49152 16384).map UInt16.ofNat).find? fun port => !e.portTaken port).getD 49152

def rustTcpSocket : Int × Engine :=
  match e.freeSlot with
  | some i => (i.val, e.set i { inUse := true })
  | none => (-1, e)

def rustTcpBind (id : Int) (port : UInt16) : Int × Engine :=
  match slotOf id with
  | none => (-1, e)
  | some idx =>
    let c := e.conns idx
    if !c.inUse || c.state != .closed || c.localPort != 0 then (-1, e)
    -- A socket without a port cannot be the one that has the port already.
    else if port != 0 then
      if e.portTaken port then (-1, e) else (0, e.set idx { c with localPort := port })
    else (0, e.set idx { c with localPort := e.ephemeralPort })

def rustTcpListen (id : Int) : Int × Engine :=
  match slotOf id with
  | none => (-1, e)
  | some idx =>
    let c := e.conns idx
    if !c.inUse || c.state != .closed || c.localPort == 0 then (-1, e)
    else (0, e.set idx
      { c with isListener := true, state := .listen, backlog := noneWaiting })

/-- One turn of accepting: no number yet means that nothing waits. -/
def acceptTurn (id : Int) : Option Int × Engine :=
  match slotOf id with
  | none => (some (-1), e)
  | some idx =>
    let c := e.conns idx
    if !c.inUse || !c.isListener || c.state != .listen then (some (-1), e)
    else match c.backlog with
      | ⟨popped :: rest, short⟩ =>
        (some popped.val, e.set idx
          { c with backlog := ⟨rest, Nat.le_trans (Nat.le_succ _) short⟩ })
      | ⟨[], _⟩ => (none, e)

/-- Accepting without waiting. -/
def rustTcpAcceptNonblock (id : Int) : Int × Engine :=
  match e.acceptTurn id with
  | (some rc, e) => (rc, e)
  | (none, e) => (-2, e)

/-- Connecting up to the first segment; no number yet means that the caller waits. -/
def connectBegin (id : Int) (remoteIp : UInt32) (remotePort : UInt16) (isnTicks rtoTicks : UInt32) :
    Option Int × Engine :=
  match slotOf id with
  | none => (some (-1), e)
  | some idx =>
    let c := e.conns idx
    if !c.inUse || c.isListener || c.state != .closed then (some (-1), e)
    else (none, e.set idx
      { c with
        localPort := if c.localPort == 0 then e.ephemeralPort else c.localPort
        remoteIp := remoteIp
        remotePort := remotePort
        sendUnacked := isnTicks * 12345 + 1
        sendBuf := .restart c.sendBuf
        sentCount := 0
        recvNext := 0
        state := .synSent
        rtoTicks := baseRtoTicks
        retransCount := 0
        rtoDeadline := rtoTicks + baseRtoTicks })

/-- One turn of waiting for the connection. -/
def connectTurn (idx : Slot) : Option Int :=
  match (e.conns idx).state with
  | .established => some 0
  | .synSent => none
  | _ => some (-1)

/-- Waiting has taken too long. The slot is not looked at again before its state is set. -/
def connectTimeout (idx : Slot) : Engine :=
  e.set idx { e.conns idx with state := .closed }

def rustTcpSend (id : Int) (data : Bytes) : Int × Engine :=
  match slotOf id with
  | none => (-1, e)
  | some idx =>
    let c := e.conns idx
    if !c.inUse || c.isListener || c.finNeeded then (-1, e)
    else if c.state = .established ∨ c.state = .closeWait then
      match c.sendBuf.write data with
      | (count, sendBuf) => (count, e.set idx { c with sendBuf := sendBuf })
    else (-1, e)

def rustTcpRecv (id : Int) (maxLen : Nat) : Int × Bytes × Engine :=
  match slotOf id with
  | none => (-1, [], e)
  | some idx =>
    let c := e.conns idx
    if !c.inUse || c.isListener then (-1, [], e)
    else if c.recvBuf.len > 0 then
      let out := c.recvBuf.peek 0 maxLen
      (out.length, out, e.set idx { c with recvBuf := c.recvBuf.consume out.length })
    else if c.peerFinReceived then (0, [], e)
    else if c.state = .established ∨ c.state = .finWait1 ∨ c.state = .finWait2 then (-2, [], e)
    else (-1, [], e)

/-- Frees the connections that nobody will accept any more. -/
def freeAll (e : Engine) : List Slot → Engine
  | [] => e
  | idx :: rest => freeAll (e.set idx { e.conns idx with inUse := false }) rest

def rustTcpClose (id : Int) : Engine :=
  match slotOf id with
  | none => e
  | some idx =>
    let c := e.conns idx
    if !c.inUse then e
    else if c.isListener then
      let e := e.freeAll c.backlog.val
      e.set idx { e.conns idx with inUse := false }
    else match c.state with
      | .closed | .synSent | .synReceived => e.set idx { c with inUse := false }
      | .established | .closeWait => e.set idx { c with finNeeded := true }
      | _ => e

/-- The last segment of a passive handshake: the connection waits with its listener, or goes. -/
def completeHandshake (idx : Slot) (ack : UInt32) : Engine :=
  let c := (e.conns idx).handshaken ack
  let e := e.set idx c
  match c.listenerId with
  | none => e.set idx { c with inUse := false }
  | some l =>
    let lc := e.conns l
    if room : lc.inUse ∧ lc.isListener ∧ lc.backlog.val.length < maxBacklog then
      e.set l { lc with backlog := ⟨lc.backlog.val ++ [idx], by
        rw [List.length_append]
        exact room.2.2⟩ }
    else e.set idx { c with inUse := false }

/-- A segment for a connection there is. -/
def deliver (idx : Slot) (seg : Inbound) (now : UInt32) : Response × Engine :=
  let c := e.conns idx
  if seg.hasRst then (.none, e.set idx { c with inUse := false })
  else if c.state = .synSent then
    if seg.hasSyn && seg.hasAck && seg.ack == c.sendUnacked + 1 then
      (.ack idx, e.set idx { c.handshaken seg.ack with recvNext := seg.seq + 1 })
    else (.none, e)
  else if c.state = .synReceived then
    if seg.hasAck && seg.ack == c.sendUnacked + 1 then (.none, e.completeHandshake idx seg.ack)
    else (.none, e)
  else match c.transfer seg now with
    | (c, answer) => (if answer then .ack idx else .none, e.set idx c)

/-- A first segment for a listener: a connection of its own, if there is a slot for one. -/
def passiveOpen (srcIp : UInt32) (seg : Inbound) (now : UInt32) : Response × Engine :=
  match Table.first? (fun c => c.hears seg) e.conns with
  | none => (.none, e)
  | some listener =>
    match e.freeSlot with
    | none => (.none, e)
    | some nidx =>
      (.synAck nidx, e.set nidx
        { inUse := true
          state := .synReceived
          localPort := seg.dstPort
          remoteIp := srcIp
          remotePort := seg.srcPort
          listenerId := some listener
          sendUnacked := now * 2654435761 + UInt32.ofNat nidx
          recvNext := seg.seq + 1
          rtoDeadline := now + baseRtoTicks })

/-- What a segment does to the table. -/
def handleSegment (srcIp : UInt32) (seg : Inbound) (now : UInt32) : Response × Engine :=
  match Table.first? (fun c => c.owns srcIp seg) e.conns with
  | some idx => e.deliver idx seg now
  | none => if seg.hasSyn && !seg.hasAck then e.passiveOpen srcIp seg now else (.none, e)

/-- Every segment that comes in, up to its answer. -/
def handlePacket (srcIp : UInt32) (payload : Bytes) (now : UInt32) : Response × Engine :=
  match parseSegment payload with
  | none => (.none, e)
  | some seg => e.handleSegment srcIp seg now

/-- The timers of the slots listed, up to the first that has to repeat its first segment. -/
def checkTimers (e : Engine) (now : UInt32) : List Slot → Option Retransmit × Engine
  | [] => (none, e)
  | i :: rest =>
    match (e.conns i).checkTimers now with
    | (c, true) =>
      (some (if c.state = .synSent then .syn i else .synAck i), e.set i c)
    | (c, false) => (e.set i c).checkTimers now rest

/-- The first half of polling. -/
def pollTimers (now : UInt32) : Option Retransmit × Engine :=
  e.checkTimers now (List.finRange maxTcpConns)

/-- The slot `step` places behind the cursor. -/
def pollSlot (step : Nat) : Slot :=
  ⟨(e.pollCursor % maxTcpConns + step) % maxTcpConns, Nat.mod_lt _ (by decide)⟩

/-- Takes the first segment that one of the slots listed has to send. -/
def chooseSegment (e : Engine) (now : UInt32) : List Slot → Option (Slot × Segment) × Engine
  | [] => (none, e)
  | i :: rest =>
    match (e.conns i).outgoing now with
    | some (seg, c) => (some (i, seg), { e.set i c with pollCursor := i.val + 1 })
    | none => e.chooseSegment now rest

/-- The second half of polling: at most one segment. -/
def pollSend (now : UInt32) : Option (Slot × Segment) × Engine :=
  e.chooseSegment now ((List.range maxTcpConns).map e.pollSlot)

end Engine

end NovaOs.Tcp
