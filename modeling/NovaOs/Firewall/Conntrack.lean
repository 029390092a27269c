import NovaOs.Firewall.Rules
import NovaOs.Lib.Table

/-! Connection tracking: the flows a firewall remembers and how packets relate to them. -/

namespace NovaOs.Fw

def maxConns : Nat := 256
def maxExpect : Nat := 16
-- Inbound-initiated TCP connections that have not completed their handshake.
def halfOpenMax : Nat := 64
def tickHz : UInt32 := 100

local instance neZero_two : NeZero 2 := ⟨by decide⟩

/-- The destination port the TFTP helper watches. -/
def tftpPort : UInt16 := 69

def tcpFin : UInt8 := 0x01
def tcpSyn : UInt8 := 0x02
def tcpRst : UInt8 := 0x04
def tcpAck : UInt8 := 0x10

/-- Where a tracked flow stands. -/
inductive CtState where
  | none
  | synSent
  | synRecv
  | established
  | finWait
  | lastAck
  | timeWait
  | close
  | udpUnreplied
  | udpReplied
  | icmpEcho
  deriving DecidableEq, Repr

/-- Why a packet was invalid. -/
inductive Inv where
  | none
  | flags
  | noConn
  | state
  | port0
  | icmp
  | related
  deriving DecidableEq, Repr

/-- One tracked flow. Side 0 is the end that started it, side 1 the other. -/
structure Conn where
  used : Bool := false
  proto : UInt8 := 0
  -- The direction of the packet that started the flow.
  origDir : Dir := .inbound
  state : CtState := .none
  -- Which side sent the first FIN.
  finFrom : Fin 2 := 0
  -- The other side has been heard from.
  replied : Bool := false
  -- Echo requests that have not been answered.
  pending : UInt8 := 0
  aIp : UInt32 := 0
  bIp : UInt32 := 0
  aPort : UInt16 := 0
  bPort : UInt16 := 0
  expires : UInt32 := 0
  created : UInt32 := 0
  pkts : Fin 2 → UInt32 := fun _ => 0
  bytes : Fin 2 → UInt32 := fun _ => 0

/-- A flow a helper has been told to expect. -/
structure Expect where
  used : Bool := false
  remoteIp : UInt32 := 0
  localIp : UInt32 := 0
  localPort : UInt16 := 0
  expires : UInt32 := 0
  deriving DecidableEq, Repr

/-- What tells one flow from another, as seen by the sender of a packet. -/
structure Key where
  proto : UInt8
  src : UInt32
  sport : UInt16
  dst : UInt32
  dport : UInt16
  deriving DecidableEq, Repr

/-- An echo's identifier stands in for both ports. -/
def keyOf (p : Pkt) : Key :=
  if p.proto == protoIcmp then
    { proto := p.proto, src := p.src, sport := p.id, dst := p.dst, dport := p.id }
  else
    { proto := p.proto, src := p.src, sport := p.sport, dst := p.dst, dport := p.dport }

/-- The flow an ICMP error is about. -/
def Inner.key (inner : Inner) : Key :=
  { proto := inner.proto, src := inner.src, sport := inner.sport,
    dst := inner.dst, dport := inner.dport }

/-- The side of a flow that a packet comes from, if it belongs to the flow. -/
def sideOf (c : Conn) (k : Key) : Option (Fin 2) :=
  if c.proto != k.proto then none
  else if c.aIp == k.src && c.aPort == k.sport && c.bIp == k.dst && c.bPort == k.dport then some 0
  else if c.bIp == k.src && c.bPort == k.sport && c.aIp == k.dst && c.aPort == k.dport then some 1
  else none

/-- Has a deadline passed, on a clock that wraps around? -/
def expired (expires now : UInt32) : Bool :=
  now - expires < 0x80000000

/-- The flag classes a real TCP sends. -/
inductive Fc where
  | syn
  | synAck
  | ack
  | finAck
  | rst
  deriving DecidableEq, Repr

/-- The class of a segment's flags; every other combination is invalid. -/
def tcpClass (flags : UInt8) : Option Fc :=
  let f := flags &&& 0x3F
  if f == tcpSyn then some .syn
  else if f == tcpSyn ||| tcpAck then some .synAck
  else if f &&& (tcpSyn ||| tcpFin ||| tcpRst) == 0 && f &&& tcpAck != 0 then some .ack
  else if f &&& (tcpSyn ||| tcpRst) == 0 && f &&& tcpFin != 0 && f &&& tcpAck != 0 then
    some .finAck
  else if f &&& (tcpSyn ||| tcpFin) == 0 && f &&& tcpRst != 0 then some .rst
  else none

/-- The TCP state machine, by side and flag class; also which side sent the first FIN. -/
def tcpNext (state : CtState) (side : Fin 2) (fc : Fc) (finFrom : Fin 2) :
    Option (CtState × Fin 2) :=
  match state, side, fc with
  | .synSent, 0, .syn => some (.synSent, finFrom)
  | .synSent, 1, .synAck => some (.synRecv, finFrom)
  -- Simultaneous open: the responder started with a SYN of its own.
  | .synSent, 1, .syn => some (.synRecv, finFrom)
  | .synSent, _, .rst => some (.close, finFrom)
  | .synRecv, 1, .synAck | .synRecv, 0, .syn | .synRecv, 0, .synAck => some (.synRecv, finFrom)
  | .synRecv, _, .ack => some (.established, finFrom)
  | .synRecv, sd, .finAck => some (.finWait, sd)
  | .synRecv, _, .rst => some (.close, finFrom)
  | .established, _, .ack => some (.established, finFrom)
  | .established, 1, .synAck => some (.established, finFrom)
  | .established, sd, .finAck => some (.finWait, sd)
  | .established, _, .rst => some (.close, finFrom)
  | .finWait, _, .ack => some (.finWait, finFrom)
  | .finWait, sd, .finAck => some (if sd = finFrom then .finWait else .lastAck, finFrom)
  | .finWait, _, .rst => some (.close, finFrom)
  | .lastAck, sd, .ack => some (if sd = finFrom then .timeWait else .lastAck, finFrom)
  | .lastAck, _, .finAck => some (.lastAck, finFrom)
  | .lastAck, _, .rst => some (.close, finFrom)
  | .timeWait, _, .ack | .timeWait, _, .finAck => some (.timeWait, finFrom)
  | .timeWait, _, .rst => some (.close, finFrom)
  | .close, _, .ack | .close, _, .rst | .close, _, .finAck => some (.close, finFrom)
  | _, _, _ => none

/-- How long a flow is remembered after its last packet. -/
def connTimeout (c : Conn) : UInt32 :=
  if c.proto == protoTcp then
    match c.state with
    | .synSent | .synRecv => 60 * tickHz
    | .established => 3600 * tickHz
    | .finWait | .timeWait => 120 * tickHz
    | .lastAck => 30 * tickHz
    | _ => 10 * tickHz
  else if c.proto == protoUdp then if c.replied then 180 * tickHz else 30 * tickHz
  else 30 * tickHz

/-- How long the answer to a TFTP request is waited for. -/
def expectTimeout : UInt32 := 30 * tickHz

/-- ICMP messages that quote the packet they are about. -/
def isIcmpError (kind : UInt8) : Bool :=
  kind == 3 || kind == 4 || kind == 5 || kind == 11 || kind == 12

/-- How a packet relates to the tracked flows. -/
inductive Cls where
  | invalid (why : Inv)
  | existing (idx : Fin maxConns) (side : Fin 2) (next : CtState) (finFrom : Fin 2)
  | related (idx : Fin maxConns)
  | relatedNew (ex : Fin maxExpect)
  | new
  -- A SYN for a tuple whose old flow is finished.
  | replace (idx : Fin maxConns)
  deriving DecidableEq, Repr

end NovaOs.Fw
